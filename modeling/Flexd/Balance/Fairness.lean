import Flexd.Balance.LeastConn
import Flexd.Lib.Spans

/-!
# Sweeps and round-robin

`candidates` answers a permutation of the servers in every state, and for every
strategy but `least-conn` a cyclic sweep from a primary server
(`candidates_sweep`). The primary is the span of the cumulative weights that a
point lies in. `roundRobin_fair` counts the primaries along a run: whatever
the weights and wherever the cursor starts, a round of as many selections as
the weights sum to puts every server first as often as its weight says.
-/

namespace Flexd

open Lib

/-! ## The cumulative search -/

namespace UpstreamRef

variable (u : UpstreamRef)

def weights : List Nat := u.servers.map (·.effectiveWeight)

/-- The index that the loop of `indexForPoint` returns, `none` where it falls through. -/
def loopIndex (point : Nat) : Option Nat := go u.servers 0 0
where
  go : List UpstreamServer → Nat → Nat → Option Nat
    | [], _, _ => none
    | s :: servers, i, cumulative =>
      if point < cumulative + s.effectiveWeight then some i
      else go servers (i + 1) (cumulative + s.effectiveWeight)

end UpstreamRef

theorem UpstreamServer.effectiveWeight_pos (s : UpstreamServer) : 0 < s.effectiveWeight :=
  Nat.le_max_right _ _

variable {u : UpstreamRef} {point : Nat}

theorem totalWeight_eq_sum (h : u.servers ≠ []) : u.totalWeight = u.weights.sum := by
  have hfold : ∀ (servers : List UpstreamServer) (sum : Nat),
      servers.foldl (fun sum s => sum + s.effectiveWeight) sum =
        sum + (servers.map (·.effectiveWeight)).sum := by
    intro servers
    induction servers with
    | nil => simp
    | cons s servers ih =>
      intro sum
      rw [List.foldl_cons, ih, List.map_cons, List.sum_cons, Nat.add_assoc]
  have hpos : 0 < u.weights.sum := by
    obtain ⟨s, servers, hs⟩ := List.exists_cons_of_ne_nil h
    rw [UpstreamRef.weights, hs, List.map_cons, List.sum_cons]
    exact Nat.add_pos_left s.effectiveWeight_pos _
  rw [UpstreamRef.totalWeight, hfold, Nat.zero_add]
  exact Nat.max_eq_left hpos

theorem totalWeight_pos (u : UpstreamRef) : 0 < u.totalWeight := Nat.le_max_right _ _

theorem indexForPoint_eq_loop (u : UpstreamRef) (point : Nat) :
    u.indexForPoint point = (u.loopIndex point).getD 0 := by
  have hgo : ∀ (servers : List UpstreamServer) (i cumulative : Nat),
      UpstreamRef.indexForPoint.go point servers i cumulative =
        (UpstreamRef.loopIndex.go point servers i cumulative).getD 0 := by
    intro servers
    induction servers with
    | nil => intro _ _; rfl
    | cons s servers ih =>
      intro i cumulative
      rw [UpstreamRef.indexForPoint.go, UpstreamRef.loopIndex.go]
      split
      · rfl
      · exact ih _ _
  exact hgo u.servers 0 0

/-- The loop searches the spans of the weights. -/
theorem loopIndex_eq_spanIndex (u : UpstreamRef) (point : Nat) :
    u.loopIndex point = spanIndex u.weights point := by
  have hgo : ∀ (servers : List UpstreamServer) (i cumulative : Nat), cumulative ≤ point →
      UpstreamRef.loopIndex.go point servers i cumulative =
        (spanIndex (servers.map (·.effectiveWeight)) (point - cumulative)).map (· + i) := by
    intro servers
    induction servers with
    | nil => intro _ _ _; rfl
    | cons s servers ih =>
      intro i cumulative hle
      rw [UpstreamRef.loopIndex.go, List.map_cons, spanIndex]
      by_cases hlt : point < cumulative + s.effectiveWeight
      · rw [if_pos hlt, if_pos (by omega), Option.map_some, Nat.zero_add]
      · rw [if_neg hlt, if_neg (by omega), ih _ _ (by omega), Option.map_map, Nat.sub_sub]
        congr 1
        funext j
        simp only [Function.comp_apply]
        omega
  rw [UpstreamRef.loopIndex, hgo _ _ _ (Nat.zero_le _), Nat.sub_zero]
  exact Option.map_id'

/-- **The fall-through is never taken**: below the total weight the loop returns. -/
theorem loopIndex_eq_some (hn : u.servers ≠ []) (h : point < u.totalWeight) :
    u.loopIndex point = some (u.indexForPoint point) := by
  rw [totalWeight_eq_sum hn, ← spanIndex_isSome, ← loopIndex_eq_spanIndex] at h
  obtain ⟨i, hi⟩ := Option.isSome_iff_exists.mp h
  rw [indexForPoint_eq_loop, hi, Option.getD_some]

theorem indexForPoint_lt (hn : u.servers ≠ []) (h : point < u.totalWeight) :
    u.indexForPoint point < u.servers.length := by
  have hspan := loopIndex_eq_some hn h
  rw [loopIndex_eq_spanIndex] at hspan
  simpa [UpstreamRef.weights] using spanIndex_lt_length hspan

/-! ## Sweeps -/

/-- The server that a sweep starts from. -/
def Balancer.primary (hash : Hashers) (pools : Pools) (u : UpstreamRef) (client : IpAddr) : Nat :=
  u.indexForPoint ((if u.strategy = .ipHash then (hash.ip client).toNat
    else (Balancer.pool pools u.name u.servers.length).rrCursor.toNat) % u.totalWeight)

variable {hash : Hashers} {pools : Pools} {client : IpAddr}

theorem primary_lt (hn : u.servers ≠ []) :
    Balancer.primary hash pools u client < u.servers.length :=
  indexForPoint_lt hn (Nat.mod_lt _ (totalWeight_pos u))

/-- Among two servers or more, every strategy but `least-conn` sweeps the ring. -/
theorem candidates_eq_ring (hs : u.strategy ≠ .leastConn) (hn : 2 ≤ u.servers.length) :
    (Balancer.candidates hash pools u client).1 =
      ringOrder (Balancer.primary hash pools u client) u.servers.length := by
  unfold Balancer.candidates Balancer.primary
  simp only
  rw [if_neg (by omega), if_neg (by omega)]
  split
  · next h => exact absurd h hs
  · next h => rw [if_pos h]
  · next h => rw [if_neg h]

/-- **The candidates**: each server once, and in a cyclic sweep from a valid primary unless the
strategy orders them by load. -/
theorem candidates_sweep (hash : Hashers) (pools : Pools) (u : UpstreamRef) (client : IpAddr) :
    (Balancer.candidates hash pools u client).1.Perm (List.range u.servers.length) ∧
      (u.strategy ≠ .leastConn → 0 < u.servers.length →
        Balancer.primary hash pools u client < u.servers.length ∧
          (Balancer.candidates hash pools u client).1 =
            (List.range u.servers.length).rotate (Balancer.primary hash pools u client)) := by
  refine ⟨candidates_perm hash pools u client, fun hs hpos => ?_⟩
  have hlt : Balancer.primary hash pools u client < u.servers.length :=
    primary_lt (List.ne_nil_of_length_pos hpos)
  refine ⟨hlt, ?_⟩
  by_cases hn : 2 ≤ u.servers.length
  · rw [candidates_eq_ring hs hn, ringOrder_eq_rotate]
  · -- the only server
    have hone : u.servers.length = 1 := by omega
    have hprimary : Balancer.primary hash pools u client = 0 := by omega
    unfold Balancer.candidates
    simp only
    rw [if_neg (by omega), if_pos hone, hprimary, hone]
    rfl

/-! ## Rounds -/

/-- The cursor of a name. -/
def cursor (pools : Pools) (name : Text) : Option UInt64 := (pools.lookup name).map (·.rrCursor)

/-- The event selects from the pool. -/
def LoadEvent.picks (u : UpstreamRef) : LoadEvent → Bool
  | .pick v _ => v = u
  | _ => false

/-- The pool's name is its own: what is selected under it is selected from this pool. -/
def OwnName (u : UpstreamRef) : LoadEvent → Prop
  | .pick v _ => v.name = u.name → v = u
  | _ => True

namespace LoadState

/-- The order that a selection answers, with its pool. -/
def answer (hash : Hashers) (s : LoadState) : LoadEvent → Option (UpstreamRef × List Nat)
  | .pick v client => some (v, (Balancer.candidates hash s.pools v client).1)
  | _ => none

/-- The balancer under any events, with what the selections answer. -/
def selections (hash : Hashers) : Machine LoadState LoadEvent (Option (UpstreamRef × List Nat)) :=
  ⟨fun s e => (s.step hash e, s.answer hash e)⟩

end LoadState

/-- The first candidates among the answers for a pool. -/
def firsts (u : UpstreamRef) (answers : List (Option (UpstreamRef × List Nat))) : List Nat :=
  answers.filterMap fun a => a.bind fun p => if p.1 = u then p.2.head? else none

variable {s : LoadState} {e : LoadEvent}

theorem cursor_update {name m : Text} {f : PoolState → PoolState} {g : UInt64 → UInt64}
    (hf : ∀ st, (f st).rrCursor = g st.rrCursor) :
    cursor (Balancer.update pools name f) m =
      if m = name then (cursor pools m).map g else cursor pools m := field_update hf

theorem cursor_advance (pools : Pools) (name m : Text) :
    cursor (Balancer.update pools name fun st => { st with rrCursor := st.rrCursor + 1 }) m =
      if m = name then (cursor pools m).map (· + 1) else cursor pools m :=
  cursor_update fun _ => rfl

/-- A selection advances the cursor of no other name. -/
theorem cursor_candidates_ne {v : UpstreamRef} {name : Text} (h : v.name ≠ name) :
    cursor (Balancer.candidates hash pools v client).2 name = cursor pools name := by
  rcases candidates_pools hash pools v client with hsame | hadvance
  · rw [hsame]
  · rw [hadvance, cursor_advance, if_neg (Ne.symm h)]

/-- **One step** advances the cursor of a round-robin pool by one if it selects from the pool, and
not at all otherwise. -/
theorem cursor_step (hs : u.strategy = .roundRobin) (hn : 2 ≤ u.servers.length)
    (hown : OwnName u e) :
    cursor (s.step hash e).pools u.name =
      if e.picks u then (cursor s.pools u.name).map (· + 1) else cursor s.pools u.name := by
  have hid : ∀ {pools' : Pools} {name : Text},
      cursor pools' u.name = (if u.name = name then (cursor s.pools u.name).map id
        else cursor s.pools u.name) → cursor pools' u.name = cursor s.pools u.name := by
    intro pools' name h
    rw [h]
    split <;> simp
  cases e with
  | track v idx => exact hid (cursor_update fun _ => rfl)
  | drop guard =>
    simp only [LoadState.step]
    split
    · exact hid (cursor_update fun _ => rfl)
    · rfl
  | pick v client =>
    by_cases hv : v = u
    · subst hv
      have hpicks : (LoadEvent.pick v client).picks v = true := decide_eq_true rfl
      rw [if_pos hpicks]
      simp only [LoadState.step, Balancer.candidates]
      rw [if_neg (by omega), if_neg (by omega), hs]
      rw [cursor_advance, if_pos rfl]
    · have hpicks : (LoadEvent.pick v client).picks u = false := decide_eq_false hv
      rw [hpicks]
      exact cursor_candidates_ne fun h => hv (hown h)

/-- The first candidate is the server that the cursor points to. -/
theorem head_candidates {start : UInt64} (hs : u.strategy = .roundRobin)
    (hn : 2 ≤ u.servers.length) (hcursor : cursor pools u.name = some start) :
    (Balancer.candidates hash pools u client).1.head? =
      some (u.indexForPoint (start.toNat % u.totalWeight)) := by
  have hne : u.servers ≠ [] := List.ne_nil_of_length_pos (by omega)
  have hprimary : Balancer.primary hash pools u client =
      u.indexForPoint (start.toNat % u.totalWeight) := by
    obtain ⟨st, hst, rfl⟩ := Option.map_eq_some_iff.mp hcursor
    unfold Balancer.primary Balancer.pool
    rw [hst, hs, if_neg (by decide), Option.getD_some]
  have hlt : u.indexForPoint (start.toNat % u.totalWeight) < u.servers.length :=
    hprimary ▸ primary_lt hne
  rw [candidates_eq_ring (by rw [hs]; decide) hn, hprimary, ringOrder_eq_rotate,
    List.head?_rotate (by simpa using hlt)]
  exact List.getElem?_range hlt

/-- What an event adds to the first candidates. -/
theorem firsts_cons {start : UInt64} {answers : List (Option (UpstreamRef × List Nat))}
    (hs : u.strategy = .roundRobin) (hn : 2 ≤ u.servers.length)
    (hcursor : cursor s.pools u.name = some start) :
    firsts u (s.answer hash e :: answers) =
      (if e.picks u then [u.indexForPoint (start.toNat % u.totalWeight)] else []) ++
        firsts u answers := by
  cases e with
  | track v idx => rfl
  | drop guard => rfl
  | pick v client =>
    by_cases hv : v = u
    · subst hv
      simp [firsts, LoadState.answer, LoadEvent.picks, head_candidates hs hn hcursor]
    · simp [firsts, LoadState.answer, LoadEvent.picks, hv]

/-- **Along a run** the first candidates are the servers at consecutive points. -/
theorem firsts_run {start : UInt64} {es : List LoadEvent} (hs : u.strategy = .roundRobin)
    (hn : 2 ≤ u.servers.length) (hcursor : cursor s.pools u.name = some start)
    (hown : ∀ e ∈ es, OwnName u e) :
    firsts u ((LoadState.selections hash).outputs s es) =
      (List.range (es.countP (·.picks u))).map fun k =>
        u.indexForPoint ((start + UInt64.ofNat k).toNat % u.totalWeight) := by
  induction es generalizing s start with
  | nil => rfl
  | cons e es ih =>
    have hstep : cursor ((LoadState.selections hash).step s e).1.pools u.name = _ :=
      cursor_step hs hn (hown e (List.mem_cons_self ..))
    have hrest : ∀ e' ∈ es, OwnName u e' := fun e' he' => hown e' (List.mem_cons_of_mem e he')
    refine (firsts_cons hs hn hcursor).trans ?_
    rw [hcursor, Option.map_some] at hstep
    by_cases hp : e.picks u = true
    · rw [if_pos hp] at hstep ⊢
      rw [ih hstep hrest, List.countP_cons_of_pos hp, List.range_succ_eq_map, List.map_cons,
        List.map_map]
      have hzero : start + UInt64.ofNat 0 = start := UInt64.add_zero start
      refine congrArg₂ List.cons (by rw [hzero])
        (List.map_congr_left fun k _ => ?_)
      have hnext : start + 1 + UInt64.ofNat k = start + UInt64.ofNat (k + 1) := by
        rw [UInt64.ofNat_add, UInt64.add_assoc, UInt64.add_comm 1]
        rfl
      rw [hnext]
      rfl
    · rw [if_neg hp] at hstep ⊢
      rw [ih hstep hrest, List.countP_cons_of_neg hp]
      rfl

/-- **Weighted round-robin is fair**: in any window of as many selections from a pool as its weights
sum to, each server comes first as often as its weight says; and the search never falls through. -/
theorem roundRobin_fair {start : UInt64} {es : List LoadEvent} (hs : u.strategy = .roundRobin)
    (hn : 2 ≤ u.servers.length) (hcursor : cursor s.pools u.name = some start)
    (hwrap : start.toNat + u.totalWeight ≤ UInt64.size) (hown : ∀ e ∈ es, OwnName u e)
    (hround : es.countP (·.picks u) = u.totalWeight) :
    (∀ i, (firsts u ((LoadState.selections hash).outputs s es)).count i =
      (u.servers[i]?.map (·.effectiveWeight)).getD 0) ∧
    ∀ point < u.totalWeight, u.loopIndex point = some (u.indexForPoint point) := by
  have hne : u.servers ≠ [] := List.ne_nil_of_length_pos (by omega)
  refine ⟨fun i => ?_, fun point h => loopIndex_eq_some hne h⟩
  -- without a wrap, the points are consecutive residues of the total weight
  have hpoint : ∀ k < u.totalWeight, (u.indexForPoint
      ((start + UInt64.ofNat k).toNat % u.totalWeight) = i ↔
        spanIndex u.weights ((start.toNat + k) % u.weights.sum) = some i) := by
    intro k hk
    have hfit : k < UInt64.size :=
      Nat.lt_of_lt_of_le hk (Nat.le_trans (Nat.le_add_left _ _) hwrap)
    have hadd : (start + UInt64.ofNat k).toNat = start.toNat + k := by
      rw [UInt64.toNat_add, UInt64.toNat_ofNat', Nat.mod_eq_of_lt hfit, Nat.mod_eq_of_lt]
      exact Nat.lt_of_lt_of_le (Nat.add_lt_add_left hk _) hwrap
    have hsome := loopIndex_eq_some hne (Nat.mod_lt (start.toNat + k) (totalWeight_pos u))
    rw [loopIndex_eq_spanIndex, totalWeight_eq_sum hne] at hsome
    rw [hadd, totalWeight_eq_sum hne, hsome, Option.some.injEq]
  calc (firsts u ((LoadState.selections hash).outputs s es)).count i
      = u.totalWeight.count fun k =>
          u.indexForPoint ((start + UInt64.ofNat k).toNat % u.totalWeight) = i := by
        rw [firsts_run hs hn hcursor hown, hround, List.count, List.countP_map, Nat.count]
        rfl
    _ = u.weights.sum.count fun k =>
          spanIndex u.weights ((start.toNat + k) % u.weights.sum) = some i := by
        rw [count_congr hpoint, totalWeight_eq_sum hne]
    _ = u.weights[i]?.getD 0 := count_spanIndex_mod u.weights start.toNat i
    _ = (u.servers[i]?.map (·.effectiveWeight)).getD 0 := by
        rw [UpstreamRef.weights, List.getElem?_map]

namespace Sample

/-- Two servers, with the weights 2 and 0. -/
def weightedPool : UpstreamRef where
  name := "app".toList
  servers := [{ address := "app1:80".toList, weight := 2 },
    { address := "app2:80".toList, weight := 0 }]
  strategy := .roundRobin

/-- The pool under a cursor that has advanced five times. -/
def advanced : LoadState := { pools := (∅ : Pools).insert weightedPool.name ⟨5, [0, 0]⟩ }

/-- A round of three selections, with a request in flight meanwhile. -/
def weightedRound : List LoadEvent :=
  let pick := LoadEvent.pick weightedPool (.v4 ⟨127, 0, 0, 1⟩)
  [pick, .track weightedPool 0, pick, .drop 0, pick]

end Sample

open Sample

theorem roundRobin_fair_weighted :
    weightedPool.strategy = .roundRobin ∧ 2 ≤ weightedPool.servers.length ∧
    cursor advanced.pools weightedPool.name = some 5 ∧
    UInt64.toNat 5 + weightedPool.totalWeight ≤ UInt64.size ∧
    (∀ e ∈ weightedRound, OwnName weightedPool e) ∧
    weightedRound.countP (·.picks weightedPool) = weightedPool.totalWeight ∧
    ∀ i, (firsts weightedPool
      ((LoadState.selections zeroHash).outputs advanced weightedRound)).count i =
        (weightedPool.servers[i]?.map (·.effectiveWeight)).getD 0 := by
  have hcursor : cursor advanced.pools weightedPool.name = some 5 := by decide +kernel
  have hwrap : UInt64.toNat 5 + weightedPool.totalWeight ≤ UInt64.size := by decide
  have hown : ∀ e ∈ weightedRound, OwnName weightedPool e := by
    simp [weightedRound, OwnName]
  have hround : weightedRound.countP (·.picks weightedPool) = weightedPool.totalWeight := by
    decide +kernel
  exact ⟨rfl, by decide, hcursor, hwrap, hown, hround,
    (roundRobin_fair rfl (by decide) hcursor hwrap hown hround).1⟩

end Flexd
