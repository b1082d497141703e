import Flexd.Config.Validate
import Flexd.Lib.BoundedTable

/-!
# The A/B router

`resolve` assigns a session to a group of a split by a hash over the
cumulative weights. Sticky splits remember the assignment, in one table that
all of them share: a session known to any sticky split keeps that group name
in every other. `Offered` says which names a split can answer with;
`resolve_offered` is what one call returns and preserves, and
`offered_reached` says that each offered name is answered in some run.
-/

namespace Flexd

open Lib

/-- `MAX_STICKY_SESSIONS`. -/
def maxStickySessions : Nat := 10000

structure AbSplitConfig where
  groups : List AbGroup
  totalWeight : UInt32
  sticky : Bool

/-- The splits by name. -/
abbrev AbSplitRouter := AList fun _ : Text => AbSplitConfig

/-- The group name of each known session. -/
abbrev StickySessions := AList fun _ : Text => Text

def AbSplit.config (split : AbSplit) : AbSplitConfig :=
  ⟨split.groups, Flexd.totalWeight split.groups, split.sticky⟩

namespace AbSplitRouter

/-- `AbSplitRouter::new`: a later split of the same name replaces an earlier one. -/
def new (splits : List AbSplit) : AbSplitRouter :=
  splits.foldl (fun m split => m.insert split.name split.config) ∅

/-- The first group whose cumulative weight, in 32 bits, exceeds the point. -/
def pickGroup (point : UInt32) : List AbGroup → UInt32 → Option AbGroup
  | [], _ => none
  | g :: groups, cumulative =>
    if point < cumulative + g.weight then some g
    else pickGroup point groups (cumulative + g.weight)

/-- Remember a session; a full table is cleared first. -/
def remember (sessions : StickySessions) (sessionId name : Text) : StickySessions :=
  (if maxStickySessions ≤ sessions.entries.length then ∅ else sessions).insert sessionId name

def resolve (hash : Hashers) (router : AbSplitRouter) (sessions : StickySessions)
    (splitName sessionId : Text) : Option Text × StickySessions :=
  match router.lookup splitName with
  | none => (none, sessions)
  | some config =>
    match (if config.sticky then sessions.lookup sessionId else none) with
    | some name => (some name, sessions)
    | none =>
      if config.totalWeight = 0 then (none, sessions)
      else
        let point := (hash.session sessionId splitName).toUInt32 % config.totalWeight
        match pickGroup point config.groups 0 with
        | some g =>
          (some g.name, if config.sticky then remember sessions sessionId g.name else sessions)
        | none => (config.groups.head?.map (·.name), sessions)

end AbSplitRouter

/-- The split the router knows under a name: the last one. -/
def routedSplit (splits : List AbSplit) (name : Text) : Option AbSplit :=
  splits.reverse.find? fun s => s.name = name

theorem lookup_new (splits : List AbSplit) (name : Text) :
    (AbSplitRouter.new splits).lookup name = (routedSplit splits name).map AbSplit.config := by
  have hgen : ∀ (splits : List AbSplit),
      (splits.foldr (fun split (m : AbSplitRouter) => m.insert split.name split.config) ∅).lookup
        name = (splits.find? fun s => s.name = name).map AbSplit.config := by
    intro splits
    induction splits with
    | nil => simp
    | cons split splits ih =>
      by_cases h : split.name = name
      · subst h
        simp
      · simp only [List.foldr_cons, List.find?_cons, h, decide_false]
        rw [AList.lookup_insert_ne (Ne.symm h)]
        exact ih
  unfold AbSplitRouter.new routedSplit
  rw [← List.foldr_reverse]
  exact hgen splits.reverse

/-- With a positive total, every point below it falls to some group. -/
theorem pickGroup_isSome {point : UInt32} {groups : List AbGroup} {cumulative : UInt32}
    (hne : groups ≠ []) (h : point < cumulative + totalWeight groups) :
    ∃ g, AbSplitRouter.pickGroup point groups cumulative = some g := by
  induction groups generalizing cumulative with
  | nil => exact absurd rfl hne
  | cons g groups ih =>
    simp only [AbSplitRouter.pickGroup]
    split
    · exact ⟨g, rfl⟩
    · next hlt =>
      have hsum : totalWeight (g :: groups) = g.weight + totalWeight groups := by
        simp [totalWeight]
      rw [hsum, ← UInt32.add_assoc] at h
      refine ih ?_ h
      rintro rfl
      simp [totalWeight] at h
      exact hlt h

/-! ## One call -/

section Resolve

variable {hash : Hashers} {splits : List AbSplit} {sessions : StickySessions}
  {splitName id : Text} {split : AbSplit}

theorem lookup_of_routed (hs : routedSplit splits splitName = some split) :
    (AbSplitRouter.new splits).lookup splitName = some split.config := by
  rw [lookup_new, hs]
  rfl

/-- A sticky split answers with what it remembers. -/
theorem resolve_remembered {name : Text} (hs : routedSplit splits splitName = some split)
    (hsticky : split.sticky = true) (hlook : sessions.lookup id = some name) :
    (AbSplitRouter.new splits).resolve hash sessions splitName id = (some name, sessions) := by
  have hconfig : split.config.sticky = true := hsticky
  unfold AbSplitRouter.resolve
  simp only [lookup_of_routed hs, hconfig, if_true, hlook]

/-- Any other session is assigned the group its point falls to, and remembered if the split is
sticky. -/
theorem resolve_assigned {g : AbGroup} (hs : routedSplit splits splitName = some split)
    (hnew : split.sticky = true → sessions.lookup id = none) (hw : totalWeight split.groups ≠ 0)
    (hg : AbSplitRouter.pickGroup ((hash.session id splitName).toUInt32 % totalWeight split.groups)
      split.groups 0 = some g) :
    (AbSplitRouter.new splits).resolve hash sessions splitName id =
      (some g.name,
        if split.sticky then AbSplitRouter.remember sessions id g.name else sessions) := by
  have hnone : (if split.config.sticky then sessions.lookup id else none) = none := by
    split
    next hsticky => exact hnew hsticky
    · rfl
  have htotal : ¬split.config.totalWeight = 0 := hw
  have hpick : AbSplitRouter.pickGroup
      ((hash.session id splitName).toUInt32 % split.config.totalWeight) split.config.groups 0 =
        some g := hg
  unfold AbSplitRouter.resolve
  simp only [lookup_of_routed hs, hnone, if_neg htotal, hpick]
  rfl

end Resolve

/-! ## What a split can answer -/

/-- Some hash assigns a group of that name. -/
def Assignable (split : AbSplit) (name : Text) : Prop :=
  ∃ point < totalWeight split.groups, ∃ g,
    AbSplitRouter.pickGroup point split.groups 0 = some g ∧ g.name = name

section Offered

variable (splits : List AbSplit) (used : List Text)

/-- A sticky split in use can put the name into the table. -/
def StickyOffered (name : Text) : Prop :=
  ∃ t ∈ used, ∃ split, routedSplit splits t = some split ∧ split.sticky = true ∧
    Assignable split name

/-- The names a split can answer with, when the splits `used` are asked. -/
def Offered (splitName name : Text) : Prop :=
  ∃ split, routedSplit splits splitName = some split ∧
    (Assignable split name ∨ split.sticky = true ∧ StickyOffered splits used name)

/-- Every remembered name was assigned by a sticky split in use. -/
def SessionsOffered (sessions : StickySessions) : Prop :=
  ∀ id name, sessions.lookup id = some name → StickyOffered splits used name

end Offered

variable {splits : List AbSplit} {used : List Text} {sessions : StickySessions}

theorem sessionsOffered_empty : SessionsOffered splits used ∅ := by
  intro id name h
  simp at h

theorem SessionsOffered.remember (h : SessionsOffered splits used sessions) {name : Text}
    (hn : StickyOffered splits used name) (id : Text) :
    SessionsOffered splits used (AbSplitRouter.remember sessions id name) := by
  intro k n hk
  have hins : (insertBounded maxStickySessions sessions id name).lookup k = some n := hk
  rcases lookup_insertBounded hins with ⟨-, rfl⟩ | hk
  · exact hn
  · exact h k n hk

/-- **One call**: a split that is defined and whose weights do not sum to 0 always answers, with
an offered name, and what is remembered stays offered. -/
theorem resolve_offered {hash : Hashers} {splitName id : Text} {split : AbSplit}
    (hs : routedSplit splits splitName = some split) (hw : totalWeight split.groups ≠ 0)
    (hu : splitName ∈ used) (h : SessionsOffered splits used sessions) :
    (∃ name, ((AbSplitRouter.new splits).resolve hash sessions splitName id).1 = some name ∧
      Offered splits used splitName name) ∧
    SessionsOffered splits used
      ((AbSplitRouter.new splits).resolve hash sessions splitName id).2 := by
  by_cases hremembered : ∃ name, split.sticky = true ∧ sessions.lookup id = some name
  · obtain ⟨name, hsticky, hlook⟩ := hremembered
    rw [resolve_remembered hs hsticky hlook]
    exact ⟨⟨name, rfl, split, hs, .inr ⟨hsticky, h id name hlook⟩⟩, h⟩
  · have hnew : split.sticky = true → sessions.lookup id = none := by
      intro hsticky
      rw [Option.eq_none_iff_forall_ne_some]
      exact fun name hlook => hremembered ⟨name, hsticky, hlook⟩
    have hpoint : (hash.session id splitName).toUInt32 % totalWeight split.groups <
        totalWeight split.groups := UInt32.mod_lt _ (UInt32.pos_iff_ne_zero.mpr hw)
    have hne : split.groups ≠ [] := by
      intro e
      rw [e] at hw
      exact hw rfl
    have hreach : (hash.session id splitName).toUInt32 % totalWeight split.groups <
        0 + totalWeight split.groups := by
      rw [UInt32.zero_add]
      exact hpoint
    obtain ⟨g, hg⟩ := pickGroup_isSome hne hreach
    have hass : Assignable split g.name := ⟨_, hpoint, g, hg, rfl⟩
    rw [resolve_assigned hs hnew hw hg]
    refine ⟨⟨g.name, rfl, split, hs, .inl hass⟩, ?_⟩
    split
    · next hst => exact h.remember ⟨splitName, hu, split, hs, hst, hass⟩ id
    · exact h

/-- The hash that sends every session to one point. -/
def Hashers.const (point : UInt32) : Hashers := ⟨fun _ _ => point.toUInt64, fun _ => 0⟩

/-- A fresh session is assigned the group its point falls to, and remembered if the split is
sticky. -/
theorem resolve_const {point : UInt32} {splitName : Text} (id : Text) {split : AbSplit}
    {g : AbGroup} (hs : routedSplit splits splitName = some split)
    (hp : point < totalWeight split.groups)
    (hg : AbSplitRouter.pickGroup point split.groups 0 = some g) :
    (AbSplitRouter.new splits).resolve (.const point) ∅ splitName id =
      (some g.name, if split.sticky then AbSplitRouter.remember ∅ id g.name else ∅) := by
  have hw : totalWeight split.groups ≠ 0 := by
    intro e
    rw [e] at hp
    exact absurd hp (UInt32.not_lt_zero)
  have hmod : (Hashers.const point |>.session id splitName).toUInt32 % totalWeight split.groups =
      point := by
    have hcast : (Hashers.const point |>.session id splitName).toUInt32 = point :=
      UInt32.toUInt32_toUInt64 point
    rw [hcast]
    exact UInt32.mod_eq_of_lt hp
  rw [← hmod] at hg
  exact resolve_assigned hs (fun _ => AList.lookup_empty id) hw hg

/-- **Every offered name is answered** to a session that has asked at most one split before. -/
theorem offered_reached {splitName name : Text} (id : Text)
    (h : Offered splits used splitName name) :
    ∃ hash, ((AbSplitRouter.new splits).resolve hash ∅ splitName id).1 = some name ∨
      ∃ t ∈ used, ((AbSplitRouter.new splits).resolve hash
        ((AbSplitRouter.new splits).resolve hash ∅ t id).2 splitName id).1 = some name := by
  obtain ⟨split, hs, hass | ⟨hst, t, ht, split', hs', hst', hass⟩⟩ := h
  · obtain ⟨point, hp, g, hg, rfl⟩ := hass
    exact ⟨.const point, .inl (by rw [resolve_const id hs hp hg])⟩
  · obtain ⟨point, hp, g, hg, rfl⟩ := hass
    refine ⟨.const point, .inr ⟨t, ht, ?_⟩⟩
    rw [resolve_const id hs' hp hg, if_pos hst']
    have hrem : (AbSplitRouter.remember ∅ id g.name).lookup id = some g.name :=
      AList.lookup_insert _
    exact congrArg Prod.fst (resolve_remembered hs hst hrem)

/-! ## Weights that wrap around -/

/-- The sum of the weights, as numbers. -/
def exactWeight (groups : List AbGroup) : Nat := groups.foldr (fun g sum => g.weight.toNat + sum) 0

/-- Validation and the router see the sum modulo `2 ^ 32`. -/
theorem toNat_totalWeight (groups : List AbGroup) :
    (totalWeight groups).toNat = exactWeight groups % UInt32.size := by
  induction groups with
  | nil => rfl
  | cons g groups ih =>
    have hsum : totalWeight (g :: groups) = g.weight + totalWeight groups := rfl
    have hexact : exactWeight (g :: groups) = g.weight.toNat + exactWeight groups := rfl
    rw [hsum, hexact, UInt32.toNat_add, ih]
    exact Nat.add_mod_mod _ _ _

/-- **In a validated configuration the weights of every split sum to 100 exactly when no sum leaves
32 bits.** -/
theorem exactWeight_iff {ext : External} {env : HostEnv} {config : Config}
    (h : config.validate ext env = .ok ()) :
    (∀ block ∈ config.http, ∀ split ∈ block.abSplits, exactWeight split.groups = 100) ↔
      ∀ block ∈ config.http, ∀ split ∈ block.abSplits,
        exactWeight split.groups < UInt32.size := by
  have hmod : ∀ block ∈ config.http, ∀ split ∈ block.abSplits,
      exactWeight split.groups % UInt32.size = 100 := by
    intro block hb split hs
    obtain ⟨hw, -⟩ := validateBlock_split (validateBlock_of_validate h hb) hs
    rw [← toNat_totalWeight, hw]
    rfl
  constructor
  · intro hall block hb split hs
    rw [hall block hb split hs]
    decide
  · intro hlt block hb split hs
    rw [← hmod block hb split hs, Nat.mod_eq_of_lt (hlt block hb split hs)]

namespace Sample

/-- A server with one split of two groups. -/
def weightedBlock (a b : UInt32) : HttpBlock where
  listen := [{ port := 80 }]
  upstreams := [{ name := "app".toList, servers := [{ address := "app:80".toList }] }]
  abSplits := [{ name := "ab".toList, groups := [⟨"a".toList, "app".toList, a⟩,
    ⟨"b".toList, "app".toList, b⟩] }]

end Sample

open Sample

theorem exactWeight_iff_halves :
    Config.validate .sample .bare { http := [weightedBlock 50 50] } = .ok () ∧
    ((∀ block ∈ [weightedBlock 50 50], ∀ split ∈ block.abSplits, exactWeight split.groups = 100) ↔
      ∀ block ∈ [weightedBlock 50 50], ∀ split ∈ block.abSplits,
        exactWeight split.groups < UInt32.size) :=
  have hvalid : Config.validate .sample .bare { http := [weightedBlock 50 50] } = .ok () := by
    decide
  ⟨hvalid, exactWeight_iff hvalid⟩

/-- Two weights that sum to `2 ^ 32 + 100` are accepted. -/
theorem wrapped_weights_accepted :
    ¬ ∀ config : Config, config.validate .sample .bare = .ok () → ∀ block ∈ config.http,
      ∀ split ∈ block.abSplits, exactWeight split.groups = 100 := by
  intro h
  have hsum := h { http := [weightedBlock 4294967295 101] } (by decide) _
    (List.mem_singleton.mpr rfl) _ (List.mem_singleton.mpr rfl)
  revert hsum
  decide

end Flexd
