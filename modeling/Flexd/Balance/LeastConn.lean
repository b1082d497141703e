import Flexd.Balance
import Flexd.Config.Validate
import Flexd.Lib.Machine
import Mathlib.Data.List.Perm.Basic

/-!
# Least connections

The `least-conn` strategy orders the servers of a pool by their weighted load,
read off the gauges of the pool's name. `loadMachine` is the balancer together
with the guards that are live, under any sequence of `track`, guard drops and
selections. `leastConn_ordered` says that the order is by the load that the
pool itself has put on its servers, as long as nobody else counts on the
gauges of its name.
-/

namespace Flexd

open Lib

/-! ## Stable sorting -/

section Sorting

variable {r : Nat → Nat → Prop} [DecidableRel r] [Std.Total r] [IsTrans Nat r]

/-- In order, and the smaller number first where two are equivalent. -/
def Stably (r : Nat → Nat → Prop) (a b : Nat) : Prop := r a b ∧ (r b a → a < b)

theorem pairwise_orderedInsert {a : Nat} {l : List Nat} (ha : ∀ x ∈ l, a < x)
    (hl : l.Pairwise (Stably r)) : (l.orderedInsert r a).Pairwise (Stably r) := by
  induction l with
  | nil => simp
  | cons b l ih =>
    obtain ⟨hb, hl'⟩ := List.pairwise_cons.mp hl
    by_cases hab : r a b
    · rw [List.orderedInsert_cons, if_pos hab]
      refine List.pairwise_cons.mpr ⟨fun x hx => ⟨?_, fun _ => ha x hx⟩, hl⟩
      rcases List.mem_cons.mp hx with rfl | hx
      · exact hab
      · exact trans_of r hab (hb x hx).1
    · rw [List.orderedInsert_cons, if_neg hab]
      refine List.pairwise_cons.mpr ⟨fun x hx => ?_, ih (fun x hx => ha x (by simp [hx])) hl'⟩
      rcases (List.mem_orderedInsert r).mp hx with rfl | hx
      · exact ⟨(total_of r b x).resolve_right hab, fun h => absurd h hab⟩
      · exact hb x hx

/-- The insertion sort of an ascending list is stable. -/
theorem pairwise_insertionSort {l : List Nat} (hl : l.Pairwise (· < ·)) :
    (l.insertionSort r).Pairwise (Stably r) := by
  induction l with
  | nil => simp
  | cons a l ih =>
    obtain ⟨ha, hl'⟩ := List.pairwise_cons.mp hl
    rw [List.insertionSort_cons]
    exact pairwise_orderedInsert (fun x hx => ha x ((List.mem_insertionSort r).mp hx)) (ih hl')

end Sorting

/-! ## Weighted loads -/

/-- One load is at most another, each per weight. -/
def LoadLe (load weight : Nat → Nat) (i j : Nat) : Prop :=
  (load i + 1) * weight j ≤ (load j + 1) * weight i

instance (load weight : Nat → Nat) : DecidableRel (LoadLe load weight) :=
  fun _ _ => inferInstanceAs (Decidable (_ ≤ _))

instance (load weight : Nat → Nat) : Std.Total (LoadLe load weight) :=
  ⟨fun _ _ => Nat.le_total _ _⟩

theorem LoadLe.trans {load weight : Nat → Nat} (hw : ∀ i, 0 < weight i) {i j k : Nat}
    (hij : LoadLe load weight i j) (hjk : LoadLe load weight j k) : LoadLe load weight i k := by
  unfold LoadLe at hij hjk ⊢
  -- cross-multiply, and cancel the weight in the middle
  refine Nat.le_of_mul_le_mul_right ?_ (hw j)
  calc (load i + 1) * weight k * weight j
      = (load i + 1) * weight j * weight k := Nat.mul_right_comm _ _ _
    _ ≤ (load j + 1) * weight i * weight k := Nat.mul_le_mul_right _ hij
    _ = (load j + 1) * weight k * weight i := Nat.mul_right_comm _ _ _
    _ ≤ (load k + 1) * weight j * weight i := Nat.mul_le_mul_right _ hjk
    _ = (load k + 1) * weight i * weight j := Nat.mul_right_comm _ _ _

theorem UpstreamRef.weightOf_pos (u : UpstreamRef) (idx : Nat) : 0 < u.weightOf idx := by
  unfold weightOf
  cases u.servers[idx]? with
  | none => exact Nat.one_pos
  | some s => exact Nat.lt_of_lt_of_le Nat.one_pos (Nat.le_max_right _ _)

/-! ## The balancer and its guards -/

/-- The pools, and the guards that are live, by the arguments of their `track`. -/
structure LoadState where
  pools : Pools
  guards : List (UpstreamRef × Nat) := []

inductive LoadEvent where
  | track (u : UpstreamRef) (idx : Nat)
  /-- The drop of one of the live guards. -/
  | drop (guard : Nat)
  | pick (u : UpstreamRef) (client : IpAddr)

namespace LoadState

def step (hash : Hashers) (s : LoadState) : LoadEvent → LoadState
  | .track u idx => ⟨Balancer.track s.pools u idx, s.guards ++ [(u, idx)]⟩
  | .drop guard =>
    match s.guards[guard]? with
    | some (u, idx) => ⟨Balancer.release s.pools u idx, s.guards.eraseIdx guard⟩
    | none => s
  | .pick u client => { s with pools := (Balancer.candidates hash s.pools u client).2 }

/-- The balancer of a block, under any events. -/
def machine (hash : Hashers) : Machine LoadState LoadEvent Unit := ⟨fun s e => (s.step hash e, ())⟩

def init (block : HttpBlock) : LoadState := { pools := Balancer.new block }

/-- The number of live guards that a pool holds on a server. -/
def load (s : LoadState) (u : UpstreamRef) (idx : Nat) : Nat := s.guards.count (u, idx)

end LoadState

/-- The pools of a block in the order they are registered. -/
def poolsOf (block : HttpBlock) : List UpstreamRef :=
  block.upstreams ++ inlineUpstreams block ++ block.connectUpstream.toList

/-- The number of gauges a name has: as many as its first pool has servers. -/
def gaugeCount (block : HttpBlock) (name : Text) : Nat :=
  (((poolsOf block).find? (·.name = name)).map (·.servers.length)).getD 0

/-- Events on the pools of a block. -/
def OfBlock (block : HttpBlock) : LoadEvent → Prop
  | .track v _ | .pick v _ => v ∈ poolsOf block
  | .drop _ => True

/-- On the servers of `u`, a `track` with its name is for `u` itself, and finds a gauge. -/
def CountsFor (block : HttpBlock) (u : UpstreamRef) : LoadEvent → Prop
  | .track v idx => v.name = u.name → idx < u.servers.length →
      v = u ∧ idx < gaugeCount block u.name
  | _ => True

/-- Every server before another one carries at most its load, and is the smaller index where the
loads are equal. -/
def OrderedByLoad (s : LoadState) (u : UpstreamRef) (order : List Nat) : Prop :=
  order.Pairwise fun i j =>
    (s.load u i + 1) * u.weightOf j ≤ (s.load u j + 1) * u.weightOf i ∧
      ((s.load u i + 1) * u.weightOf j = (s.load u j + 1) * u.weightOf i → i < j)

variable {hash : Hashers} {block : HttpBlock} {u : UpstreamRef} {pools : Pools} {s : LoadState}

/-! ## Gauges -/

/-- The gauges of a name. -/
def gauges (pools : Pools) (name : Text) : Option (List Nat) := (pools.lookup name).map (·.inflight)

theorem gauges_update {name m : Text} {f : PoolState → PoolState} {g : List Nat → List Nat}
    (hf : ∀ st, (f st).inflight = g st.inflight) :
    gauges (Balancer.update pools name f) m =
      if m = name then (gauges pools m).map g else gauges pools m := field_update hf

theorem gauges_track (pools : Pools) (v : UpstreamRef) (idx : Nat) (name : Text) :
    gauges (Balancer.track pools v idx) name =
      if name = v.name then (gauges pools name).map (·.modify idx (· + 1))
      else gauges pools name := gauges_update fun _ => rfl

theorem gauges_release (pools : Pools) (v : UpstreamRef) (idx : Nat) (name : Text) :
    gauges (Balancer.release pools v idx) name =
      if name = v.name then (gauges pools name).map (·.modify idx (· - 1))
      else gauges pools name := gauges_update fun _ => rfl

/-- A selection moves no gauge. -/
theorem gauges_candidates (hash : Hashers) (pools : Pools) (v : UpstreamRef) (client : IpAddr)
    (name : Text) :
    gauges (Balancer.candidates hash pools v client).2 name = gauges pools name := by
  rcases candidates_pools hash pools v client with hsame | hadvance
  · rw [hsame]
  · have hcursor : gauges (Balancer.update pools v.name fun st =>
        { st with rrCursor := st.rrCursor + 1 }) name =
        if name = v.name then (gauges pools name).map id else gauges pools name :=
      gauges_update fun _ => rfl
    rw [hadvance, hcursor]
    simp

theorem gauges_add (v : UpstreamRef) (name : Text) :
    gauges (Balancer.add pools v) name =
      (gauges pools name).or
        (if v.name = name then some (List.replicate v.servers.length 0) else none) := by
  unfold Balancer.add gauges
  by_cases hmem : v.name ∈ pools
  · rw [if_pos hmem]
    by_cases hv : v.name = name
    · subst hv
      obtain ⟨st, hst⟩ := Option.isSome_iff_exists.mp (AList.lookup_isSome.mpr hmem)
      simp [hst]
    · simp [hv]
  · rw [if_neg hmem]
    by_cases hv : v.name = name
    · subst hv
      simp [AList.lookup_eq_none.mpr hmem, AList.lookup_insert, Balancer.fresh]
    · simp [AList.lookup_insert_ne (Ne.symm hv), hv]

/-- The gauges a name starts with are those of its first pool, at zero. -/
theorem gauges_new (name : Text) :
    gauges (Balancer.new block) name =
      ((poolsOf block).find? (·.name = name)).map fun v => List.replicate v.servers.length 0 := by
  have hfold : ∀ (us : List UpstreamRef) (pools : Pools),
      gauges (us.foldl Balancer.add pools) name = (gauges pools name).or
        ((us.find? (·.name = name)).map fun v => List.replicate v.servers.length 0) := by
    intro us
    induction us with
    | nil => simp
    | cons v us ih =>
      intro pools
      rw [List.foldl_cons, ih, gauges_add, List.find?_cons]
      by_cases hv : v.name = name
      · simp [hv]
      · simp [hv]
  have hnone : gauges ∅ name = none := by simp [gauges]
  unfold Balancer.new
  rw [hfold, hnone, Option.none_or]
  rfl

/-- A gauge, 0 where there is none. -/
def gauge (pools : Pools) (name : Text) (idx : Nat) : Nat :=
  ((gauges pools name).bind (·[idx]?)).getD 0

/-! ## The gauges count the guards -/

/-- What a run keeps: the name has as many gauges as it started with, every live guard counts for
`u`, and on its servers the gauges are the loads. -/
structure Counted (block : HttpBlock) (u : UpstreamRef) (s : LoadState) : Prop where
  length : ((gauges s.pools u.name).map (·.length)).getD 0 = gaugeCount block u.name
  guards : ∀ g ∈ s.guards, CountsFor block u (.track g.1 g.2)
  exact : ∀ idx < u.servers.length, gauge s.pools u.name idx = s.load u idx

theorem counted_init : Counted block u (.init block) where
  length := by
    unfold LoadState.init gaugeCount
    simp only
    rw [gauges_new]
    cases (poolsOf block).find? (·.name = u.name) <;> simp
  guards := by simp [LoadState.init]
  exact := by
    intro idx _
    unfold LoadState.init gauge LoadState.load
    simp only
    rw [gauges_new]
    cases (poolsOf block).find? (·.name = u.name) with
    | none => simp
    | some v =>
      by_cases hlt : idx < v.servers.length
      · simp [hlt]
      · simp [hlt]

/-- A change of one gauge, by a function of its value. -/
theorem gauge_of_modify {pools' : Pools} {name : Text} {idx : Nat} {f : Nat → Nat}
    (h : gauges pools' name = (gauges pools name).map (·.modify idx f)) (k : Nat) :
    gauge pools' name k =
      if k = idx ∧ k < ((gauges pools name).map (·.length)).getD 0 then f (gauge pools name k)
      else gauge pools name k := by
  unfold gauge
  rw [h]
  cases gauges pools name with
  | none => simp
  | some g =>
    simp only [Option.map_some, Option.bind_some, Option.getD_some, List.getElem?_modify]
    by_cases hk : k = idx
    · subst hk
      by_cases hlt : k < g.length
      · simp [hlt]
      · simp [hlt]
    · simp [hk, Ne.symm hk]

theorem length_of_modify {pools' : Pools} {name : Text} {idx : Nat} {f : Nat → Nat}
    (h : gauges pools' name = (gauges pools name).map (·.modify idx f)) :
    ((gauges pools' name).map (·.length)).getD 0 = ((gauges pools name).map (·.length)).getD 0 := by
  rw [h]
  cases gauges pools name <;> simp

/-- A change of the gauge of one server keeps the count when the guards change alike. -/
theorem Counted.modify {v : UpstreamRef} {idx : Nat} {f : Nat → Nat} {pools' : Pools}
    {guards' : List (UpstreamRef × Nat)} (h : Counted block u s)
    (hcounts : CountsFor block u (.track v idx))
    (hgauges : gauges pools' u.name =
      if u.name = v.name then (gauges s.pools u.name).map (·.modify idx f)
      else gauges s.pools u.name)
    (hguards : ∀ g ∈ guards', CountsFor block u (.track g.1 g.2))
    (hload : ∀ k, guards'.count (u, k) = if v = u ∧ idx = k then f (s.load u k) else s.load u k) :
    Counted block u ⟨pools', guards'⟩ := by
  by_cases hname : u.name = v.name
  · rw [if_pos hname] at hgauges
    refine ⟨(length_of_modify hgauges).trans h.length, hguards, fun k hk => ?_⟩
    refine (gauge_of_modify hgauges k).trans ?_
    rw [LoadState.load, hload, h.length, h.exact k hk]
    by_cases he : k = idx
    · -- the guard is for `u`, and its server has a gauge
      subst he
      obtain ⟨hv, hlt⟩ := hcounts hname.symm hk
      rw [if_pos ⟨rfl, hlt⟩, if_pos ⟨hv, rfl⟩]
    · rw [if_neg fun hc => he hc.1, if_neg fun hc => he hc.2.symm]
  · rw [if_neg hname] at hgauges
    have hne : v ≠ u := fun e => hname (e ▸ rfl)
    refine ⟨(congrArg (fun g => (g.map List.length).getD 0) hgauges).trans h.length, hguards,
      fun k hk => ?_⟩
    rw [LoadState.load, hload, if_neg fun hc => hne hc.1, ← h.exact k hk]
    exact congrArg (fun g => (g.bind (·[k]?)).getD 0) hgauges

theorem counted_track {v : UpstreamRef} {idx : Nat} (h : Counted block u s)
    (hcounts : CountsFor block u (.track v idx)) :
    Counted block u (s.step hash (.track v idx)) := by
  refine h.modify hcounts (gauges_track s.pools v idx u.name) ?_ fun k => ?_
  · intro g hg
    rcases List.mem_append.mp hg with hg | hg
    · exact h.guards g hg
    · rw [List.mem_singleton.mp hg]; exact hcounts
  · simp only [List.count_append, List.count_singleton, Prod.mk.injEq, beq_iff_eq]
    split <;> rfl

theorem counted_release {v : UpstreamRef} {idx guard : Nat} (h : Counted block u s)
    (hg : s.guards[guard]? = some (v, idx)) :
    Counted block u ⟨Balancer.release s.pools v idx, s.guards.eraseIdx guard⟩ := by
  obtain ⟨hlt, hget⟩ := List.getElem?_eq_some_iff.mp hg
  have hcounts : CountsFor block u (.track v idx) := h.guards _ (hget ▸ List.getElem_mem hlt)
  refine h.modify hcounts (gauges_release s.pools v idx u.name)
    (fun g hmem => h.guards g (List.mem_of_mem_eraseIdx hmem)) fun k => ?_
  have hperm := (List.getElem_cons_eraseIdx_perm hlt).count_eq (u, k)
  rw [hget, List.count_cons] at hperm
  simp only [LoadState.load, ← hperm, beq_iff_eq, Prod.mk.injEq]
  split <;> rfl

/-- **One step** keeps the gauges at the loads. -/
theorem counted_step {e : LoadEvent} (h : Counted block u s) (he : CountsFor block u e) :
    Counted block u (s.step hash e) := by
  cases e with
  | track v idx => exact counted_track h he
  | drop guard =>
    cases hg : s.guards[guard]? with
    | none =>
      have hstep : s.step hash (.drop guard) = s := by simp only [LoadState.step, hg]
      rw [hstep]
      exact h
    | some g =>
      have hstep : s.step hash (.drop guard) =
          ⟨Balancer.release s.pools g.1 g.2, s.guards.eraseIdx guard⟩ := by
        simp only [LoadState.step, hg]
      rw [hstep]
      exact counted_release h hg
  | pick v client =>
    have hgauges := gauges_candidates hash s.pools v client u.name
    exact ⟨(congrArg (fun g => (g.map List.length).getD 0) hgauges).trans h.length, h.guards,
      fun k hk => (congrArg (fun g => (g.bind (·[k]?)).getD 0) hgauges).trans (h.exact k hk)⟩

/-! ## The order -/

/-- The loads that the strategy reads are the gauges. -/
theorem candidates_leastConn (hs : u.strategy = .leastConn) (hn : 2 ≤ u.servers.length)
    (client : IpAddr) :
    (Balancer.candidates hash pools u client).1 =
      (List.range u.servers.length).insertionSort (LoadLe (gauge pools u.name) u.weightOf) := by
  have hload : ∀ i, (Balancer.pool pools u.name u.servers.length).inflight[i]?.getD 0 =
      gauge pools u.name i := by
    intro i
    unfold Balancer.pool gauge gauges
    cases pools.lookup u.name with
    | none =>
      by_cases hi : i < u.servers.length
      · simp [Balancer.fresh, hi]
      · simp [Balancer.fresh, hi]
    | some st => simp
  unfold Balancer.candidates
  simp only
  rw [if_neg (by omega), if_neg (by omega), hs]
  simp only [hload]
  rfl

/-- Counted gauges put the servers in the order of the loads. -/
theorem orderedByLoad_of_counted (h : Counted block u s) (hs : u.strategy = .leastConn)
    (client : IpAddr) :
    OrderedByLoad s u (Balancer.candidates hash s.pools u client).1 := by
  by_cases hn : 2 ≤ u.servers.length
  · have htrans : IsTrans Nat (LoadLe (gauge s.pools u.name) u.weightOf) :=
      ⟨fun _ _ _ => LoadLe.trans u.weightOf_pos⟩
    unfold OrderedByLoad
    rw [candidates_leastConn hs hn]
    refine (pairwise_insertionSort List.pairwise_lt_range).imp_of_mem ?_
    intro i j hi hj hij
    rw [List.mem_insertionSort, List.mem_range] at hi hj
    unfold Stably LoadLe at hij
    rw [h.exact i hi, h.exact j hj] at hij
    exact ⟨hij.1, fun heq => hij.2 (Nat.le_of_eq heq.symm)⟩
  · -- there is nothing to order
    unfold OrderedByLoad Balancer.candidates
    simp only
    by_cases h0 : u.servers.length = 0
    · rw [if_pos h0]
      exact List.Pairwise.nil
    · rw [if_neg h0, if_pos (by omega)]
      exact List.pairwise_singleton _ _

/-- **Least connections orders by load**: in every state that the balancer of a block reaches while
the gauges of the pool's name count for this pool alone. -/
theorem leastConn_ordered (hs : u.strategy = .leastConn)
    (h : (LoadState.machine hash).Reach (CountsFor block u) (.init block) s) (client : IpAddr) :
    OrderedByLoad s u (Balancer.candidates hash s.pools u client).1 :=
  orderedByLoad_of_counted (h.inv counted_init fun _ _ => counted_step) hs client

namespace Sample

/-- A pool of two servers. -/
def pairPool (strategy : Strategy) : UpstreamRef where
  name := "app".toList
  servers := [{ address := "app1:80".toList }, { address := "app2:80".toList }]
  strategy := strategy

/-- A block with a shared pool, and the same servers under the same name in a location. -/
def twicePooled : HttpBlock where
  listen := [{ port := 80 }]
  upstreams := [pairPool .roundRobin]
  locations := [{ pattern := "/".toList, matchType := .startsWith,
                  handler := { handlerType := .proxy, upstream := some (pairPool .leastConn) } }]

/-- Hashers, which no strategy but `ip-hash` asks. -/
def zeroHash : Hashers := ⟨fun _ _ => 0, fun _ => 0⟩

/-- One request in flight on the first server of the pool. -/
def oneTracked (strategy : Strategy) : LoadState :=
  (LoadState.init twicePooled).step zeroHash (.track (pairPool strategy) 0)

end Sample

open Sample

theorem reach_oneTracked {I : LoadEvent → Prop} {strategy : Strategy}
    (h : I (.track (pairPool strategy) 0)) :
    (LoadState.machine zeroHash).Reach I (.init twicePooled) (oneTracked strategy) :=
  ⟨[.track (pairPool strategy) 0], by simpa using h, rfl⟩

theorem leastConn_ordered_inline :
    (pairPool .leastConn).strategy = .leastConn ∧
    (LoadState.machine zeroHash).Reach (CountsFor twicePooled (pairPool .leastConn))
      (.init twicePooled) (oneTracked .leastConn) ∧
    OrderedByLoad (oneTracked .leastConn) (pairPool .leastConn)
      (Balancer.candidates zeroHash (oneTracked .leastConn).pools (pairPool .leastConn)
        (.v4 ⟨127, 0, 0, 1⟩)).1 := by
  have hreach : (LoadState.machine zeroHash).Reach (CountsFor twicePooled (pairPool .leastConn))
      (.init twicePooled) (oneTracked .leastConn) :=
    reach_oneTracked fun _ _ => ⟨rfl, by decide +kernel⟩
  exact ⟨rfl, hreach, leastConn_ordered rfl hreach _⟩

/-- A request on the shared pool makes the location's pool prefer its second server. -/
theorem leastConn_counts_others :
    ¬ ∀ config : Config, config.validate .sample .bare = .ok () → ∀ block ∈ config.http,
      ∀ u ∈ poolsOf block, u.strategy = .leastConn → ∀ (hash : Hashers) (s : LoadState),
      (LoadState.machine hash).Reach (OfBlock block) (.init block) s → ∀ client : IpAddr,
      OrderedByLoad s u (Balancer.candidates hash s.pools u client).1 := by
  intro h
  have hreach : (LoadState.machine zeroHash).Reach (OfBlock twicePooled) (.init twicePooled)
      (oneTracked .roundRobin) := reach_oneTracked (List.mem_cons_self ..)
  have hordered := h { http := [twicePooled] } (by decide +kernel) twicePooled
    (List.mem_singleton.mpr rfl) (pairPool .leastConn) (by decide +kernel) rfl _ _ hreach
    (.v4 ⟨127, 0, 0, 1⟩)
  rw [candidates_leastConn rfl (by decide)] at hordered
  revert hordered
  unfold OrderedByLoad
  decide +kernel

end Flexd
