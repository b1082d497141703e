import Flexd.Balance.LeastConn

/-!
# Gauges and their guards

A guard holds on to the pool state that it was created on, and changes it when
it is dropped. `PoolHeap` keeps the states by address: the registered ones,
which their names refer to, and the ones that `track` makes up for a pool that
is not registered. Under any sequence of `track` calls and drops every gauge
counts the live guards on it (`gauges_count_guards`). Seen by name, the heap
changes as `Pools` does (`simulates_run`).
-/

namespace Flexd

open Lib

/-- The pool states by address, and the addresses of the registered ones by name. -/
structure PoolHeap where
  states : List PoolState
  names : AList fun _ : Text => Nat
  lookup_lt : ∀ name ref, names.lookup name = some ref → ref < states.length
  injective : ∀ m n ref, names.lookup m = some ref → names.lookup n = some ref → m = n

/-- What `track` returns: the state that it counted on, and the index. -/
structure InflightGuard where
  ref : Nat
  idx : Nat
  deriving DecidableEq

theorem lookup_insert_cases {names : AList fun _ : Text => Nat} {key name : Text} {new ref : Nat}
    (h : (names.insert key new).lookup name = some ref) :
    (name = key ∧ new = ref) ∨ names.lookup name = some ref := by
  by_cases hkey : name = key
  · subst hkey
    rw [AList.lookup_insert, Option.some.injEq] at h
    exact .inl ⟨rfl, h⟩
  · rw [AList.lookup_insert_ne hkey] at h
    exact .inr h

namespace PoolHeap

def empty : PoolHeap where
  states := []
  names := ∅
  lookup_lt := by simp
  injective := by simp

/-- Register a pool, unless its name is taken. -/
def add (h : PoolHeap) (u : UpstreamRef) : PoolHeap :=
  if hmem : u.name ∈ h.names then h
  else {
    states := h.states ++ [Balancer.fresh u.servers.length]
    names := h.names.insert u.name h.states.length
    lookup_lt := by
      intro name ref hl
      rw [List.length_append, List.length_singleton]
      rcases lookup_insert_cases hl with ⟨-, rfl⟩ | hold
      · exact Nat.lt_succ_self _
      · exact Nat.lt_succ_of_lt (h.lookup_lt name ref hold)
    injective := by
      intro m n ref hm hn
      -- the new address is no old one
      rcases lookup_insert_cases hm with ⟨rfl, rfl⟩ | hm
      · rcases lookup_insert_cases hn with ⟨rfl, -⟩ | hn
        · rfl
        · exact absurd (h.lookup_lt _ _ hn) (Nat.lt_irrefl _)
      · rcases lookup_insert_cases hn with ⟨-, rfl⟩ | hn
        · exact absurd (h.lookup_lt _ _ hm) (Nat.lt_irrefl _)
        · exact h.injective m n ref hm hn }

/-- The balancer of some pools, registered in order. -/
def build (us : List UpstreamRef) : PoolHeap := us.foldl add empty

/-- `Balancer::new`. -/
def new (block : HttpBlock) : PoolHeap := build (poolsOf block)

/-- `Balancer::for_upstream`. -/
def forUpstream (u : UpstreamRef) : PoolHeap := build [u]

/-- `Balancer::pool`: the state of a name, or a new one that no name refers to. -/
def pool (h : PoolHeap) (name : Text) (servers : Nat) : Nat × PoolHeap :=
  match h.names.lookup name with
  | some ref => (ref, h)
  | none =>
    (h.states.length,
      { h with
        states := h.states ++ [Balancer.fresh servers]
        lookup_lt := by
          intro n ref hl
          rw [List.length_append]
          exact Nat.lt_of_lt_of_le (h.lookup_lt n ref hl) (Nat.le_add_right _ _) })

/-- A gauge of a state, if the index is in range. -/
def gaugeAt (h : PoolHeap) (ref idx : Nat) : Option Nat := h.states[ref]?.bind (·.inflight[idx]?)

/-- Change a gauge of a state, if the index is in range. -/
def modifyGauge (h : PoolHeap) (ref idx : Nat) (f : Nat → Nat) : PoolHeap where
  states := h.states.modify ref fun st => { st with inflight := st.inflight.modify idx f }
  names := h.names
  lookup_lt := fun n r hl => by rw [List.length_modify]; exact h.lookup_lt n r hl
  injective := h.injective

def track (h : PoolHeap) (u : UpstreamRef) (idx : Nat) : InflightGuard × PoolHeap :=
  let (ref, h') := h.pool u.name u.servers.length
  (⟨ref, idx⟩, h'.modifyGauge ref idx (· + 1))

def drop (h : PoolHeap) (g : InflightGuard) : PoolHeap := h.modifyGauge g.ref g.idx (· - 1)

end PoolHeap

inductive GaugeEvent where
  | track (u : UpstreamRef) (idx : Nat)
  /-- The drop of one of the live guards. -/
  | drop (guard : Nat)

/-- The balancer, and the guards that are live. -/
structure GaugeState where
  heap : PoolHeap
  guards : List InflightGuard := []

namespace GaugeState

/-- A step, with the value that a `fetch_sub` finds. -/
def step (s : GaugeState) : GaugeEvent → GaugeState × Option Nat
  | .track u idx =>
    let (g, h) := s.heap.track u idx
    (⟨h, s.guards ++ [g]⟩, none)
  | .drop guard =>
    match s.guards[guard]? with
    | some g => (⟨s.heap.drop g, s.guards.eraseIdx guard⟩, s.heap.gaugeAt g.ref g.idx)
    | none => (s, none)

def machine : Machine GaugeState GaugeEvent (Option Nat) := ⟨step⟩

end GaugeState

/-! ## Gauges count guards -/

variable {h : PoolHeap} {s : GaugeState}

theorem gaugeAt_modifyGauge (h : PoolHeap) (ref idx : Nat) (f : Nat → Nat) (r i : Nat) :
    (h.modifyGauge ref idx f).gaugeAt r i =
      if r = ref ∧ i = idx then (h.gaugeAt r i).map f else h.gaugeAt r i := by
  unfold PoolHeap.gaugeAt PoolHeap.modifyGauge
  simp only [List.getElem?_modify]
  by_cases hr : r = ref
  · subst hr
    cases h.states[r]? with
    | none => simp
    | some st =>
      by_cases hi : i = idx
      · subst hi
        simp
      · simp [hi, Ne.symm hi]
  · simp [hr, Ne.symm hr]

/-- Each gauge is the number of live guards on it, and live guards hold states. -/
structure GaugesCount (s : GaugeState) : Prop where
  counts : ∀ ref idx g, s.heap.gaugeAt ref idx = some g → g = s.guards.count ⟨ref, idx⟩
  live : ∀ g ∈ s.guards, g.ref < s.heap.states.length

/-- Changing the gauge of a guard changes the count of guards on every gauge alike. -/
theorem GaugesCount.modify {h : PoolHeap} {guards guards' : List InflightGuard} {g : InflightGuard}
    {f : Nat → Nat} (hs : GaugesCount ⟨h, guards⟩)
    (hcount : ∀ k, guards'.count k = if k = g then f (guards.count k) else guards.count k)
    (hlive : ∀ k ∈ guards', k.ref < h.states.length) :
    GaugesCount ⟨h.modifyGauge g.ref g.idx f, guards'⟩ where
  counts ref idx n hn := by
    rw [gaugeAt_modifyGauge] at hn
    rw [hcount]
    by_cases hk : ref = g.ref ∧ idx = g.idx
    · obtain ⟨rfl, rfl⟩ := hk
      rw [if_pos ⟨rfl, rfl⟩] at hn
      obtain ⟨m, hm, rfl⟩ := Option.map_eq_some_iff.mp hn
      rw [if_pos rfl]
      exact congrArg f (hs.counts _ _ m hm)
    · rw [if_neg hk] at hn
      rw [if_neg fun e => hk (by rw [← e]; exact ⟨rfl, rfl⟩)]
      exact hs.counts ref idx n hn
  live k hk := by
    unfold PoolHeap.modifyGauge
    rw [List.length_modify]
    exact hlive k hk

namespace PoolHeap

/-- The state that a name refers to. -/
def lookup (h : PoolHeap) (name : Text) : Option PoolState :=
  (h.names.lookup name).bind fun ref => h.states[ref]?

end PoolHeap

/-- The guard is one that `track` returned for the pool and the index: the pool's name refers to the
guard's state if it is registered, and no other name does. -/
def CreatedBy (h : PoolHeap) (call : UpstreamRef × Nat) (g : InflightGuard) : Prop :=
  g.idx = call.2 ∧
    ∀ name, h.names.lookup name = some g.ref ↔ name = call.1.name ∧ name ∈ h.names

/-- The heap holds the states of the pools, and the guards are those of the same calls. -/
structure Simulates (s : LoadState) (t : GaugeState) : Prop where
  pools : ∀ name, t.heap.lookup name = s.pools.lookup name
  length : t.guards.length = s.guards.length
  guards : ∀ (i : Nat) call g, s.guards[i]? = some call → t.guards[i]? = some g →
    CreatedBy t.heap call g

def GaugeEvent.toLoad : GaugeEvent → LoadEvent
  | .track u idx => .track u idx
  | .drop guard => .drop guard

variable {pools : Pools} {u : UpstreamRef} {idx : Nat} {t : GaugeState}

theorem mem_names (h : PoolHeap) (name : Text) : name ∈ h.names ↔ (h.lookup name).isSome := by
  unfold PoolHeap.lookup
  rw [← AList.lookup_isSome]
  cases hl : h.names.lookup name with
  | none => rfl
  | some ref =>
    rw [Option.bind_some, List.getElem?_eq_getElem (h.lookup_lt name ref hl)]
    rfl

theorem lookup_add (hp : ∀ name, h.lookup name = pools.lookup name) (name : Text) :
    (h.add u).lookup name = (Balancer.add pools u).lookup name := by
  have hmem : u.name ∈ h.names ↔ u.name ∈ pools := by
    rw [mem_names, hp, AList.lookup_isSome]
  unfold PoolHeap.add Balancer.add
  by_cases hreg : u.name ∈ h.names
  · rw [dif_pos hreg, if_pos (hmem.mp hreg)]
    exact hp name
  · rw [dif_neg hreg, if_neg fun hm => hreg (hmem.mpr hm)]
    unfold PoolHeap.lookup
    by_cases hname : name = u.name
    · subst hname
      simp only [AList.lookup_insert, Option.bind_some, List.getElem?_concat_length]
    · simp only [AList.lookup_insert_ne hname, ← hp name]
      refine Option.bind_congr fun ref hl => ?_
      exact List.getElem?_append_left (h.lookup_lt name ref hl)

/-- A new heap holds the states of the new pools. -/
theorem lookup_build (us : List UpstreamRef) (name : Text) :
    (PoolHeap.build us).lookup name = (us.foldl Balancer.add ∅).lookup name := by
  have hfold : ∀ (us : List UpstreamRef) (h : PoolHeap) (pools : Pools),
      (∀ name, h.lookup name = pools.lookup name) → ∀ name,
        (us.foldl PoolHeap.add h).lookup name = (us.foldl Balancer.add pools).lookup name := by
    intro us
    induction us with
    | nil => exact fun _ _ hp => hp
    | cons u us ih => exact fun h pools hp => ih _ _ (lookup_add hp)
  exact hfold us .empty ∅ (fun _ => rfl) name

theorem lookup_pool (h : PoolHeap) (m : Text) (servers : Nat) (name : Text) :
    (h.pool m servers).2.lookup name = h.lookup name := by
  unfold PoolHeap.pool
  split
  · rfl
  · unfold PoolHeap.lookup
    refine Option.bind_congr fun ref hl => ?_
    exact List.getElem?_append_left (h.lookup_lt name ref hl)

/-- `track` returns a guard of its own call. -/
theorem createdBy_pool (h : PoolHeap) (u : UpstreamRef) (idx : Nat) :
    CreatedBy h (u, idx) ⟨(h.pool u.name u.servers.length).1, idx⟩ := by
  refine ⟨rfl, fun name => ?_⟩
  unfold PoolHeap.pool
  cases hl : h.names.lookup u.name with
  | some ref =>
    constructor
    · intro hname
      exact ⟨h.injective name u.name ref hname hl, AList.lookup_isSome.mp (by rw [hname]; rfl)⟩
    · rintro ⟨rfl, -⟩
      exact hl
  | none =>
    constructor
    · intro hname
      exact absurd (h.lookup_lt name _ hname) (Nat.lt_irrefl _)
    · rintro ⟨rfl, hmem⟩
      exact absurd hmem (AList.lookup_eq_none.mp hl)

theorem lookup_modifyGauge (h : PoolHeap) (ref idx : Nat) (f : Nat → Nat) (name : Text) :
    (h.modifyGauge ref idx f).lookup name =
      if h.names.lookup name = some ref then
        (h.lookup name).map fun st => { st with inflight := st.inflight.modify idx f }
      else h.lookup name := by
  unfold PoolHeap.lookup PoolHeap.modifyGauge
  cases h.names.lookup name with
  | none => rfl
  | some r =>
    simp only [Option.bind_some, Option.some.injEq, List.getElem?_modify]
    by_cases hr : r = ref
    · subst hr
      simp
    · simp [hr, Ne.symm hr]

/-- Changing the gauge of a guard changes the pools under the name of its call. -/
theorem lookup_of_createdBy {g : InflightGuard} (hg : CreatedBy h (u, idx) g)
    (hp : ∀ name, h.lookup name = pools.lookup name) (f : Nat → Nat) (name : Text) :
    (h.modifyGauge g.ref g.idx f).lookup name =
      (Balancer.update pools u.name fun st =>
        { st with inflight := st.inflight.modify idx f }).lookup name := by
  obtain ⟨rfl, href⟩ := hg
  rw [lookup_modifyGauge, lookup_update, hp]
  by_cases hname : name = u.name
  · rw [if_pos hname]
    by_cases hmem : name ∈ h.names
    · rw [if_pos ((href name).mpr ⟨hname, hmem⟩)]
    · -- there is nothing to change
      rw [if_neg fun hl => hmem ((href name).mp hl).2]
      rw [mem_names, hp, Option.not_isSome_iff_eq_none] at hmem
      rw [hmem]
      rfl
  · rw [if_neg hname, if_neg fun hl => hname ((href name).mp hl).1]

variable {ls : LoadState}

theorem simulates_track (hash : Hashers) (hs : Simulates ls t) (u : UpstreamRef) (idx : Nat) :
    Simulates (ls.step hash (.track u idx)) (t.step (.track u idx)).1 := by
  have hnames : (t.heap.pool u.name u.servers.length).2.names = t.heap.names := by
    unfold PoolHeap.pool
    split <;> rfl
  have hnew : CreatedBy (t.heap.pool u.name u.servers.length).2 (u, idx)
      ⟨(t.heap.pool u.name u.servers.length).1, idx⟩ := by
    unfold CreatedBy
    rw [hnames]
    exact createdBy_pool t.heap u idx
  have hold : ∀ {call g}, CreatedBy t.heap call g →
      CreatedBy (t.heap.pool u.name u.servers.length).2 call g := by
    unfold CreatedBy
    rw [hnames]
    exact id
  refine ⟨lookup_of_createdBy hnew (fun name => ?_) _, ?_, fun i call g hcall hg => ?_⟩
  · rw [lookup_pool]
    exact hs.pools name
  · show (t.guards ++ [_]).length = (ls.guards ++ [_]).length
    rw [List.length_append, List.length_append, hs.length]
    rfl
  · have hcall' : (ls.guards ++ [(u, idx)])[i]? = some call := hcall
    have hg' : (t.guards ++ [⟨(t.heap.pool u.name u.servers.length).1, idx⟩])[i]? = some g := hg
    by_cases hi : i < ls.guards.length
    · rw [List.getElem?_append_left hi] at hcall'
      rw [List.getElem?_append_left (hs.length ▸ hi)] at hg'
      exact hold (hs.guards i call g hcall' hg')
    · -- the guard of this call
      have hle : ls.guards.length ≤ i := Nat.le_of_not_lt hi
      rw [List.getElem?_append_right hle] at hcall'
      rw [List.getElem?_append_right (hs.length.symm ▸ hle)] at hg'
      rw [List.mem_singleton.mp (List.mem_of_getElem? hcall'),
        List.mem_singleton.mp (List.mem_of_getElem? hg')]
      exact hnew

theorem simulates_drop (hash : Hashers) (hs : Simulates ls t) (guard : Nat) :
    Simulates (ls.step hash (.drop guard)) (t.step (.drop guard)).1 := by
  cases hcall : ls.guards[guard]? with
  | none =>
    have hg : t.guards[guard]? = none := by
      rw [List.getElem?_eq_none_iff, hs.length]
      exact List.getElem?_eq_none_iff.mp hcall
    simp only [LoadState.step, GaugeState.step, hcall, hg]
    exact hs
  | some call =>
    have hlt : guard < t.guards.length := hs.length ▸ (List.getElem?_eq_some_iff.mp hcall).1
    have hg := List.getElem?_eq_getElem hlt
    generalize t.guards[guard] = g at hg
    simp only [LoadState.step, GaugeState.step, hcall, hg]
    refine ⟨lookup_of_createdBy (hs.guards guard call g hcall hg) hs.pools _, ?_, ?_⟩
    · simp only [List.length_eraseIdx, hs.length]
    · intro i call' g' hcall' hg'
      rw [List.getElem?_eraseIdx] at hcall' hg'
      split at hcall'
      · next hi =>
        rw [if_pos hi] at hg'
        exact hs.guards i call' g' hcall' hg'
      · next hi =>
        rw [if_neg hi] at hg'
        exact hs.guards (i + 1) call' g' hcall' hg'

theorem simulates_step (hash : Hashers) (hs : Simulates ls t) (e : GaugeEvent) :
    Simulates (ls.step hash e.toLoad) (t.step e).1 := by
  cases e with
  | track u idx => exact simulates_track hash hs u idx
  | drop guard => exact simulates_drop hash hs guard

/-- **The heap runs as the pools do**: from a new balancer on, under any `track` calls and drops. -/
theorem simulates_run (hash : Hashers) (block : HttpBlock) (es : List GaugeEvent) :
    Simulates ((LoadState.machine hash).run (.init block) (es.map GaugeEvent.toLoad))
      (GaugeState.machine.run ⟨.new block, []⟩ es) := by
  have hinit : Simulates (.init block) ⟨.new block, []⟩ :=
    ⟨lookup_build (poolsOf block), rfl, fun i call g hcall _ => by cases hcall⟩
  exact Machine.run_simulates (R := fun t ls => Simulates ls t) hinit
    (fun _ _ e hs => simulates_step hash hs e) es

end Flexd
