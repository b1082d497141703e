import Flexd.Config.Schema
import Flexd.External
import Mathlib.Data.List.AList
import Mathlib.Data.List.Rotate
import Mathlib.Data.List.Sort

/-!
# The load balancer

Runtime state per upstream pool, by pool name: a round-robin cursor and one
gauge of requests in flight per server. `candidates` gives the order in which
the servers of a pool are tried; whatever the strategy and the state, it is a
permutation of the server indices (`candidates_perm`).
-/

namespace Flexd

open Lib

structure PoolState where
  rrCursor : UInt64
  inflight : List Nat

abbrev Pools := AList fun _ : Text => PoolState

/-- The weight a server counts with: 0 counts as 1. -/
def UpstreamServer.effectiveWeight (s : UpstreamServer) : Nat := max s.weight.toNat 1

namespace UpstreamRef

variable (u : UpstreamRef)

def weightOf (idx : Nat) : Nat := (u.servers[idx]?.map (·.effectiveWeight)).getD 1

def totalWeight : Nat := max (u.servers.foldl (fun sum s => sum + s.effectiveWeight) 0) 1

/-- The server whose span of the cumulative weights holds the point, 0 if none does. -/
def indexForPoint (point : Nat) : Nat := go u.servers 0 0
where
  go : List UpstreamServer → Nat → Nat → Nat
    | [], _, _ => 0
    | s :: servers, i, cumulative =>
      if point < cumulative + s.effectiveWeight then i
      else go servers (i + 1) (cumulative + s.effectiveWeight)

end UpstreamRef

/-- The indices below `n` in a ring from `primary` on. -/
def ringOrder (primary n : Nat) : List Nat := (List.range n).map fun off => (primary + off) % n

namespace Balancer

/-- The initial state of a pool. -/
def fresh (servers : Nat) : PoolState := ⟨0, List.replicate servers 0⟩

/-- Register a pool, unless its name is taken. -/
def add (pools : Pools) (u : UpstreamRef) : Pools :=
  if u.name ∈ pools then pools else pools.insert u.name (fresh u.servers.length)

/-- `Balancer::new`: the shared pools, then the inline ones, then the CONNECT pool. -/
def new (block : HttpBlock) : Pools :=
  (block.upstreams ++ block.locations.filterMap (·.handler.upstream) ++
    block.connectUpstream.toList).foldl add ∅

/-- The state of a pool; an unregistered one gets a state of its own. -/
def pool (pools : Pools) (name : Text) (servers : Nat) : PoolState :=
  (pools.lookup name).getD (fresh servers)

/-- Change the state of a registered pool. -/
def update (pools : Pools) (name : Text) (f : PoolState → PoolState) : Pools :=
  match pools.lookup name with
  | some st => pools.insert name (f st)
  | none => pools

/-- `candidates`: the order to try the servers in, and the state with the cursor advanced. -/
def candidates (hash : Hashers) (pools : Pools) (u : UpstreamRef) (client : IpAddr) :
    List Nat × Pools :=
  let n := u.servers.length
  if n = 0 then ([], pools)
  else if n = 1 then ([0], pools)
  else
    let st := pool pools u.name n
    match u.strategy with
    | .leastConn =>
      let load i := st.inflight[i]?.getD 0 + 1
      ((List.range n).insertionSort fun a b => load a * u.weightOf b ≤ load b * u.weightOf a, pools)
    | .ipHash => (ringOrder (u.indexForPoint ((hash.ip client).toNat % u.totalWeight)) n, pools)
    | _ =>
      (ringOrder (u.indexForPoint (st.rrCursor.toNat % u.totalWeight)) n,
        update pools u.name fun st => { st with rrCursor := st.rrCursor + 1 })

/-- `track`: one more request in flight on a server. -/
def track (pools : Pools) (u : UpstreamRef) (idx : Nat) : Pools :=
  update pools u.name fun st => { st with inflight := st.inflight.modify idx (· + 1) }

/-- The drop of an `InflightGuard`. -/
def release (pools : Pools) (u : UpstreamRef) (idx : Nat) : Pools :=
  update pools u.name fun st => { st with inflight := st.inflight.modify idx (· - 1) }

end Balancer

theorem lookup_update (pools : Pools) (name m : Text) (f : PoolState → PoolState) :
    (Balancer.update pools name f).lookup m =
      if m = name then (pools.lookup m).map f else pools.lookup m := by
  unfold Balancer.update
  by_cases hm : m = name
  · subst hm
    cases hl : pools.lookup m <;> simp [hl, AList.lookup_insert]
  · rw [if_neg hm]
    cases pools.lookup name with
    | none => rfl
    | some st => exact AList.lookup_insert_ne hm

/-- What an update does to a part of the states. -/
theorem field_update {α : Type} {field : PoolState → α} {pools : Pools} {name m : Text}
    {f : PoolState → PoolState} {g : α → α} (hf : ∀ st, field (f st) = g (field st)) :
    ((Balancer.update pools name f).lookup m).map field =
      if m = name then ((pools.lookup m).map field).map g else (pools.lookup m).map field := by
  rw [lookup_update]
  split
  · simp only [Option.map_map, Function.comp_def, hf]
  · rfl

/-- A selection advances the cursor of its pool, or changes nothing. -/
theorem candidates_pools (hash : Hashers) (pools : Pools) (u : UpstreamRef) (client : IpAddr) :
    (Balancer.candidates hash pools u client).2 = pools ∨
      (Balancer.candidates hash pools u client).2 =
        Balancer.update pools u.name fun st => { st with rrCursor := st.rrCursor + 1 } := by
  unfold Balancer.candidates
  simp only
  split
  · exact .inl rfl
  split
  · exact .inl rfl
  split
  · exact .inl rfl
  · exact .inl rfl
  · exact .inr rfl

theorem ringOrder_eq_rotate (primary n : Nat) :
    ringOrder primary n = (List.range n).rotate primary := by
  refine List.ext_getElem (by simp [ringOrder]) fun i h₁ h₂ => ?_
  simp [ringOrder, List.getElem_rotate, Nat.add_comm]

theorem ringOrder_perm (primary n : Nat) : (ringOrder primary n).Perm (List.range n) := by
  rw [ringOrder_eq_rotate]
  exact List.rotate_perm _ _

/-- **Every server is a candidate exactly once**, in every state. -/
theorem candidates_perm (hash : Hashers) (pools : Pools) (u : UpstreamRef) (client : IpAddr) :
    (Balancer.candidates hash pools u client).1.Perm (List.range u.servers.length) := by
  unfold Balancer.candidates
  simp only
  split
  · next h => rw [h]; exact List.Perm.refl _
  split
  · next h => rw [h]; exact List.Perm.refl _
  split
  · exact List.perm_insertionSort _ _
  · exact ringOrder_perm _ _
  · exact ringOrder_perm _ _

theorem mem_candidates {hash : Hashers} {pools : Pools} {u : UpstreamRef} {client : IpAddr}
    {i : Nat} : i ∈ (Balancer.candidates hash pools u client).1 ↔ i < u.servers.length := by
  rw [(candidates_perm hash pools u client).mem_iff, List.mem_range]

end Flexd
