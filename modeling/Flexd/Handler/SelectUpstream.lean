import Flexd.AbSplit
import Flexd.Lib.Machine

/-!
# Picking the upstream pool of a proxy location

`selectUpstream` takes the pool of the A/B group the client is assigned to,
else the location's inline pool, else the first shared pool. The group name
comes from the router, which knows the last split of a name and shares one
table among sticky splits; the group itself is looked up in the first split of
that name. `selectUpstream_run_iff` says for which validated blocks no run of
requests makes the two disagree.
-/

namespace Flexd

open Lib

/-- The router of a block; a block without splits has none. -/
def abRouter (block : HttpBlock) : Option AbSplitRouter :=
  if block.abSplits.isEmpty then none else some (.new block.abSplits)

/-- The first split of a name. -/
def namedSplit (block : HttpBlock) (name : Text) : Option AbSplit :=
  block.abSplits.find? fun s => s.name = name

/-- The shared pool of a group, by the names of split and group. -/
def groupUpstream (block : HttpBlock) (splitName groupName : Text) : Option UpstreamRef := do
  let split ← namedSplit block splitName
  let group ← split.groups.find? fun g => g.name = groupName
  resolveUpstream block group.upstream

/-- The group name the client is assigned. -/
def resolveGroup (hash : Hashers) (block : HttpBlock) (splitName : Text) (client : IpAddr)
    (sessions : StickySessions) : Option Text × StickySessions :=
  match abRouter block with
  | some router => router.resolve hash sessions splitName client.text
  | none => (none, sessions)

def selectUpstream (hash : Hashers) (block : HttpBlock) (handler : Handler) (client : IpAddr)
    (sessions : StickySessions) : Except StatusCode UpstreamRef × StickySessions :=
  match handler.abSplit with
  | some splitName =>
    let (groupName, sessions) := resolveGroup hash block splitName client sessions
    match groupName.bind (groupUpstream block splitName) with
    | some u => (.ok u, sessions)
    | none => (.error .badGateway, sessions)
  | none =>
    match handler.upstream.or block.upstreams.head? with
    | some u => (.ok u, sessions)
    | none => (.error .badGateway, sessions)

variable {hash : Hashers} {block : HttpBlock} {handler : Handler} {client : IpAddr}
  {sessions : StickySessions}

theorem selectUpstream_split {s : Text} (h : handler.abSplit = some s) :
    selectUpstream hash block handler client sessions =
      (((resolveGroup hash block s client sessions).1.bind (groupUpstream block s)).elim
        (.error .badGateway) .ok,
      (resolveGroup hash block s client sessions).2) := by
  unfold selectUpstream
  simp only [h]
  split
  · next hu => rw [hu]; rfl
  · next hu => rw [hu]; rfl

theorem selectUpstream_noSplit (h : handler.abSplit = none) :
    (selectUpstream hash block handler client sessions).2 = sessions := by
  unfold selectUpstream
  simp only [h]
  split <;> rfl

/-- A found pool is the pool of a group of the split asked for. -/
theorem groupUpstream_eq_some {s n : Text} {u : UpstreamRef}
    (h : groupUpstream block s n = some u) :
    ∃ split, namedSplit block s = some split ∧
      ∃ g, split.groups.find? (fun g => g.name = n) = some g ∧
        resolveUpstream block g.upstream = some u := by
  unfold groupUpstream at h
  cases hs : namedSplit block s with
  | none => simp [hs] at h
  | some split =>
    cases hg : split.groups.find? fun g => g.name = n with
    | none => simp [hs, hg] at h
    | some g => exact ⟨split, rfl, g, hg, by simpa [hs, hg] using h⟩

/-! ## Runs -/

structure SelectCall where
  location : Location
  client : IpAddr

/-- Calls of `selectUpstream`, one after the other. -/
def selectMachine (hash : Hashers) (block : HttpBlock) :
    Machine StickySessions SelectCall (Handler × Except StatusCode UpstreamRef) where
  step sessions c :=
    let (result, sessions) := selectUpstream hash block c.location.handler c.client sessions
    (sessions, c.location.handler, result)

/-- The call is for a proxy location of the block. -/
def SelectCall.Valid (block : HttpBlock) (c : SelectCall) : Prop :=
  c.location ∈ block.locations ∧ c.location.handler.handlerType.isProxy = true

/-- The splits that the proxy locations ask for. -/
def usedSplits (block : HttpBlock) : List Text :=
  (block.locations.filter fun l => l.handler.handlerType.isProxy).filterMap fun l =>
    l.handler.abSplit

theorem mem_usedSplits {s : Text} : s ∈ usedSplits block ↔
    ∃ loc ∈ block.locations, loc.handler.handlerType.isProxy = true ∧
      loc.handler.abSplit = some s := by
  simp [usedSplits, and_assoc]

variable {ext : External} {env : HostEnv}

theorem routedSplit_of_used (h : validateBlock ext env block = .ok ()) {s : Text}
    (hs : s ∈ usedSplits block) : ∃ split ∈ block.abSplits,
      routedSplit block.abSplits s = some split ∧ totalWeight split.groups ≠ 0 := by
  obtain ⟨loc, hl, hp, hsplit⟩ := mem_usedSplits.mp hs
  have hdef := validateBlock_location h hl hp
  simp only [hsplit] at hdef
  obtain ⟨s', hs', rfl⟩ := hdef
  obtain ⟨split, hr⟩ : ∃ split, routedSplit block.abSplits s'.name = some split := by
    refine Option.isSome_iff_exists.mp ?_
    simp only [routedSplit, List.find?_isSome, List.mem_reverse, decide_eq_true_eq]
    exact ⟨s', hs', rfl⟩
  have hmem : split ∈ block.abSplits := List.mem_reverse.mp (List.mem_of_find?_eq_some hr)
  refine ⟨split, hmem, hr, ?_⟩
  rw [(validateBlock_split h hmem).1]
  decide

theorem resolveGroup_of_mem {split : AbSplit} (hs : split ∈ block.abSplits) (s : Text) :
    resolveGroup hash block s client sessions =
      (AbSplitRouter.new block.abSplits).resolve hash sessions s client.text := by
  have : block.abSplits.isEmpty = false := by
    cases h : block.abSplits with
    | nil => rw [h] at hs; cases hs
    | cons => rfl
  simp [resolveGroup, abRouter, this]

/-- **One call**: for a split in use, the router answers with an offered name, and the table
stays offered. -/
theorem resolveGroup_offered (h : validateBlock ext env block = .ok ()) {s : Text}
    (hs : s ∈ usedSplits block)
    (hinv : SessionsOffered block.abSplits (usedSplits block) sessions) (hash : Hashers)
    (client : IpAddr) :
    (∃ name, (resolveGroup hash block s client sessions).1 = some name ∧
      Offered block.abSplits (usedSplits block) s name) ∧
    SessionsOffered block.abSplits (usedSplits block)
      (resolveGroup hash block s client sessions).2 := by
  obtain ⟨split, hmem, hr, hw⟩ := routedSplit_of_used h hs
  rw [resolveGroup_of_mem hmem]
  exact resolve_offered hr hw hs hinv

/-- **A whole run** keeps every remembered name offered. -/
theorem sessionsOffered_of_reach (h : validateBlock ext env block = .ok ())
    (hr : (selectMachine hash block).Reach (SelectCall.Valid block) ∅ sessions) :
    SessionsOffered block.abSplits (usedSplits block) sessions := by
  refine hr.inv sessionsOffered_empty fun sessions c hinv hc => ?_
  show SessionsOffered _ _ (selectUpstream hash block c.location.handler c.client sessions).2
  cases hs : c.location.handler.abSplit with
  | none =>
    rw [selectUpstream_noSplit hs]
    exact hinv
  | some s =>
    rw [selectUpstream_split hs]
    exact (resolveGroup_offered h (mem_usedSplits.mpr ⟨_, hc.1, hc.2, hs⟩) hinv hash _).2

/-- Every offered name is answered in some state a run leads to. -/
theorem offered_of_reach (h : validateBlock ext env block = .ok ()) {s name : Text}
    (hs : s ∈ usedSplits block)
    (ho : Offered block.abSplits (usedSplits block) s name) (client : IpAddr) :
    ∃ hash sessions, (selectMachine hash block).Reach (SelectCall.Valid block) ∅ sessions ∧
      (resolveGroup hash block s client sessions).1 = some name := by
  obtain ⟨split, hmem, -, -⟩ := routedSplit_of_used h hs
  obtain ⟨hash, hnow | ⟨t, ht, hlater⟩⟩ := offered_reached client.text ho
  · refine ⟨hash, ∅, .refl, ?_⟩
    rw [resolveGroup_of_mem hmem]
    exact hnow
  · obtain ⟨loc, hl, hp, hsplit⟩ := mem_usedSplits.mp ht
    refine ⟨hash, _, Machine.Reach.step .refl (i := ⟨loc, client⟩) ⟨hl, hp⟩, ?_⟩
    show (resolveGroup hash block s client
      (selectUpstream hash block loc.handler client ∅).2).1 = some name
    rw [selectUpstream_split hsplit, resolveGroup_of_mem hmem, resolveGroup_of_mem hmem]
    exact hlater

/-- **What holds of every selection over every run** is what holds of the pool of every name the
router can answer. -/
theorem forall_selected_iff (h : validateBlock ext env block = .ok ()) {loc : Location}
    (hl : loc ∈ block.locations) (hp : loc.handler.handlerType.isProxy = true) {s : Text}
    (hs : loc.handler.abSplit = some s) (P : Except StatusCode UpstreamRef → Prop) :
    (∀ hash sessions, (selectMachine hash block).Reach (SelectCall.Valid block) ∅ sessions →
      ∀ client, P (selectUpstream hash block loc.handler client sessions).1) ↔
    ∀ name, Offered block.abSplits (usedSplits block) s name →
      P ((groupUpstream block s name).elim (.error .badGateway) .ok) := by
  have hused : s ∈ usedSplits block := mem_usedSplits.mpr ⟨loc, hl, hp, hs⟩
  constructor
  · intro hall name ho
    obtain ⟨hash, sessions, hr, hname⟩ := offered_of_reach h hused ho (.v4 ⟨192, 0, 2, 1⟩)
    have hsel := hall hash sessions hr (.v4 ⟨192, 0, 2, 1⟩)
    rw [selectUpstream_split hs, hname] at hsel
    exact hsel
  · intro hall hash sessions hr client
    obtain ⟨⟨name, hname, ho⟩, -⟩ := resolveGroup_offered h hused
      (sessionsOffered_of_reach h hr) hash client
    rw [selectUpstream_split hs, hname]
    exact hall name ho

/-! ## Staying inside a split -/

/-- The pool of a group of a split with that name. -/
def StaysInSplit (block : HttpBlock) (s : Text) (result : Except StatusCode UpstreamRef) : Prop :=
  ∃ split ∈ block.abSplits, split.name = s ∧ ∃ g ∈ split.groups, ∃ u,
    resolveUpstream block g.upstream = some u ∧ result = .ok u

/-- Every name the router can answer for a split in use is a group of the first split of that
name. -/
def SplitsCompatible (block : HttpBlock) : Prop :=
  ∀ s ∈ usedSplits block, ∀ name, Offered block.abSplits (usedSplits block) s name →
    ∃ split, namedSplit block s = some split ∧ ∃ g ∈ split.groups, g.name = name

/-- The pool of a name stays inside the split exactly when the first split has a group of that
name. -/
theorem staysInSplit_group_iff (h : validateBlock ext env block = .ok ()) {s name : Text} :
    StaysInSplit block s ((groupUpstream block s name).elim (.error .badGateway) .ok) ↔
      ∃ split, namedSplit block s = some split ∧ ∃ g ∈ split.groups, g.name = name := by
  constructor
  · rintro ⟨-, -, -, -, -, u, -, hres⟩
    cases hu : groupUpstream block s name with
    | none => rw [hu] at hres; cases hres
    | some u' =>
      obtain ⟨split, hn, g, hg, -⟩ := groupUpstream_eq_some hu
      have hname := List.find?_some hg
      exact ⟨split, hn, g, List.mem_of_find?_eq_some hg, by simpa using hname⟩
  · rintro ⟨split, hn, hgroup⟩
    obtain ⟨g, hfind⟩ : ∃ g, split.groups.find? (fun g => g.name = name) = some g := by
      refine Option.isSome_iff_exists.mp ?_
      simpa [List.find?_isSome] using hgroup
    have hsplit := List.mem_of_find?_eq_some hn
    have hg := List.mem_of_find?_eq_some hfind
    obtain ⟨u, hu⟩ := (validateBlock_split h hsplit).2 g hg
    have hname := List.find?_some hn
    refine ⟨split, hsplit, by simpa using hname, g, hg, u, hu, ?_⟩
    simp [groupUpstream, hn, hfind, hu]

/-- **Over every run, A/B routing stays inside the split asked for exactly when the names the
router can answer are groups of that split.** -/
theorem selectUpstream_run_iff {config : Config} (h : config.validate ext env = .ok ())
    (hb : block ∈ config.http) :
    (∀ hash sessions, (selectMachine hash block).Reach (SelectCall.Valid block) ∅ sessions →
      ∀ c : SelectCall, c.Valid block → ∀ s, c.location.handler.abSplit = some s →
        StaysInSplit block s
          (selectUpstream hash block c.location.handler c.client sessions).1) ↔
    SplitsCompatible block := by
  have hv := validateBlock_of_validate h hb
  constructor
  · intro hall s hs name ho
    obtain ⟨loc, hl, hp, hsplit⟩ := mem_usedSplits.mp hs
    have hloc := (forall_selected_iff hv hl hp hsplit (StaysInSplit block s)).mp
      fun hash sessions hr client => hall hash sessions hr ⟨loc, client⟩ ⟨hl, hp⟩ s hsplit
    exact (staysInSplit_group_iff hv).mp (hloc name ho)
  · intro hcompat hash sessions hr c hc s hsplit
    have hs : s ∈ usedSplits block := mem_usedSplits.mpr ⟨_, hc.1, hc.2, hsplit⟩
    exact (forall_selected_iff hv hc.1 hc.2 hsplit (StaysInSplit block s)).mpr
      (fun name ho => (staysInSplit_group_iff hv).mpr (hcompat s hs name ho))
      hash sessions hr c.client

namespace Sample

/-- A split with one group, named after the split. -/
def stickySplit (name : Text) : AbSplit :=
  { name := name, sticky := true
    groups := [{ name := name, upstream := "pool".toList, weight := 100 }] }

def splitLocation (name : Text) : Location :=
  { pattern := '/' :: name, handler := { handlerType := .proxy, abSplit := some name } }

/-- A block whose locations `/a`, `/b` and so on each have a sticky split of their own. -/
def splitBlock (names : List Text) : HttpBlock where
  listen := [{ port := 80 }]
  locations := names.map splitLocation
  abSplits := names.map stickySplit
  upstreams := [{ name := "pool".toList, servers := [{ address := "app:8080".toList }] }]

end Sample

open Sample

theorem selectUpstream_run_iff_one_split :
    Config.validate .sample .bare { http := [splitBlock ["a".toList]] } = .ok () ∧
    ((∀ hash sessions, (selectMachine hash (splitBlock ["a".toList])).Reach
        (SelectCall.Valid (splitBlock ["a".toList])) ∅ sessions →
      ∀ c : SelectCall, c.Valid (splitBlock ["a".toList]) →
        ∀ s, c.location.handler.abSplit = some s → StaysInSplit (splitBlock ["a".toList]) s
          (selectUpstream hash (splitBlock ["a".toList]) c.location.handler c.client sessions).1) ↔
    SplitsCompatible (splitBlock ["a".toList])) := by
  have hv : Config.validate .sample .bare { http := [splitBlock ["a".toList]] } = .ok () := by
    decide
  exact ⟨hv, selectUpstream_run_iff hv (List.mem_singleton.mpr rfl)⟩

/-- A client that `/a` has assigned to its group is refused at `/b`. -/
theorem selectUpstream_leaves_split :
    ¬ ∀ (config : Config) (block : HttpBlock), config.validate .sample .bare = .ok () →
      block ∈ config.http →
      ∀ hash sessions, (selectMachine hash block).Reach (SelectCall.Valid block) ∅ sessions →
      ∀ c : SelectCall, c.Valid block → ∀ s, c.location.handler.abSplit = some s →
        StaysInSplit block s
          (selectUpstream hash block c.location.handler c.client sessions).1 := by
  intro h
  have hfirst : SelectCall.Valid (splitBlock ["a".toList, "b".toList])
      ⟨splitLocation "a".toList, .v4 ⟨192, 0, 2, 1⟩⟩ := ⟨by decide, rfl⟩
  obtain ⟨-, -, -, -, -, u, -, hres⟩ := h { http := [splitBlock ["a".toList, "b".toList]] } _
    (by decide) (List.mem_singleton.mpr rfl) (.const 0) _ (Machine.Reach.step .refl hfirst)
    ⟨splitLocation "b".toList, .v4 ⟨192, 0, 2, 1⟩⟩ ⟨by decide, rfl⟩ "b".toList rfl
  have hrefused : (selectUpstream (.const 0) (splitBlock ["a".toList, "b".toList])
      (splitLocation "b".toList).handler (.v4 ⟨192, 0, 2, 1⟩)
      (selectUpstream (.const 0) (splitBlock ["a".toList, "b".toList])
        (splitLocation "a".toList).handler (.v4 ⟨192, 0, 2, 1⟩) ∅).2).1 =
      .error .badGateway := by rfl
  change (selectUpstream (.const 0) (splitBlock ["a".toList, "b".toList])
      (splitLocation "b".toList).handler (.v4 ⟨192, 0, 2, 1⟩)
      (selectUpstream (.const 0) (splitBlock ["a".toList, "b".toList])
        (splitLocation "a".toList).handler (.v4 ⟨192, 0, 2, 1⟩) ∅).2).1 = .ok u at hres
  rw [hrefused] at hres
  cases hres

end Flexd
