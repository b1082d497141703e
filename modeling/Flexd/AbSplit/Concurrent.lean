import Flexd.AbSplit
import Flexd.Lib.Machine

/-!
# Concurrent assignments

Any number of `resolve` calls share one sticky table. A call of a sticky split
is a locked lookup, the computation of the group and a locked insertion, which
clears a full table first; between these points the other calls run.
`assign` is the assignment without the table. With one sticky split at most, a
call returns nothing else, whatever the order of the steps
(`sticky_transparent`).
-/

namespace Flexd

open Lib

/-- The group that the hash assigns a session to. -/
def AbSplitConfig.assign (hash : Hashers) (config : AbSplitConfig) (splitName sessionId : Text) :
    Option Text :=
  if config.totalWeight = 0 then none
  else
    let point := (hash.session sessionId splitName).toUInt32 % config.totalWeight
    match AbSplitRouter.pickGroup point config.groups 0 with
    | some g => some g.name
    | none => config.groups.head?.map (·.name)

namespace AbSplitRouter

/-- The assignment of a session in a split, without the table. -/
def assign (hash : Hashers) (router : AbSplitRouter) (splitName sessionId : Text) : Option Text :=
  (router.lookup splitName).bind fun config => config.assign hash splitName sessionId

/-- Where a `resolve` call stands. -/
inductive ResolveCall where
  /-- The lookup found nothing, or was not made. -/
  | missed (splitName sessionId : Text) (config : AbSplitConfig)
  /-- The group is computed and not yet remembered. -/
  | assigned (splitName sessionId name : Text)
  | returned (splitName sessionId : Text) (result : Option Text)

/-- The table, and every call made so far. -/
structure StickyState where
  sessions : StickySessions
  calls : List ResolveCall

def StickyState.init : StickyState := ⟨∅, []⟩

/-- A step of one call. `locked` is whether the lock is obtained; a poisoned one is passed over. -/
inductive StickyInput where
  | call (splitName sessionId : Text) (locked : Bool)
  | compute (id : Nat)
  | insert (id : Nat) (locked : Bool)

variable (hash : Hashers) (router : AbSplitRouter)

/-- A call until it has looked into the table. -/
def lookupCall (sessions : StickySessions) (splitName sessionId : Text) (locked : Bool) :
    ResolveCall :=
  match router.lookup splitName with
  | none => .returned splitName sessionId none
  | some config =>
    match (if config.sticky && locked then sessions.lookup sessionId else none) with
    | some name => .returned splitName sessionId (some name)
    | none => .missed splitName sessionId config

/-- The computation, up to the return or the second lock. -/
def computeCall (splitName sessionId : Text) (config : AbSplitConfig) : ResolveCall :=
  if config.totalWeight = 0 then .returned splitName sessionId none
  else
    let point := (hash.session sessionId splitName).toUInt32 % config.totalWeight
    match pickGroup point config.groups 0 with
    | some g =>
      if config.sticky then .assigned splitName sessionId g.name
      else .returned splitName sessionId (some g.name)
    | none => .returned splitName sessionId (config.groups.head?.map (·.name))

def stickyStep (s : StickyState) : StickyInput → StickyState
  | .call splitName sessionId locked =>
    { s with calls := s.calls ++ [lookupCall router s.sessions splitName sessionId locked] }
  | .compute id =>
    match s.calls[id]? with
    | some (.missed splitName sessionId config) =>
      { s with calls := s.calls.set id (computeCall hash splitName sessionId config) }
    | _ => s
  | .insert id locked =>
    match s.calls[id]? with
    | some (.assigned splitName sessionId name) =>
      ⟨if locked then remember s.sessions sessionId name else s.sessions,
        s.calls.set id (.returned splitName sessionId (some name))⟩
    | _ => s

def stickyMachine : Machine StickyState StickyInput Unit :=
  ⟨fun s i => (stickyStep hash router s i, ())⟩

/-- On an empty table `resolve` is the assignment. -/
theorem resolve_empty (splitName sessionId : Text) :
    (router.resolve hash ∅ splitName sessionId).1 = router.assign hash splitName sessionId := by
  unfold resolve assign AbSplitConfig.assign
  cases router.lookup splitName with
  | none => rfl
  | some config =>
    have hnone : (if config.sticky then (∅ : StickySessions).lookup sessionId else none) =
        none := by
      split <;> simp
    simp only [hnone, Option.bind_some]
    by_cases hw : config.totalWeight = 0
    · simp only [if_pos hw]
    · simp only [if_neg hw]
      cases pickGroup ((hash.session sessionId splitName).toUInt32 % config.totalWeight)
        config.groups 0 <;> rfl

/-- **A call that no other call interrupts is the sequential one.** -/
theorem stickyRun_uninterrupted (s : StickyState) (splitName sessionId : Text) :
    let id := s.calls.length
    let s' := (stickyMachine hash router).run s
      [.call splitName sessionId true, .compute id, .insert id true]
    let seq := router.resolve hash s.sessions splitName sessionId
    s'.sessions = seq.2 ∧ s'.calls[id]? = some (.returned splitName sessionId seq.1) := by
  simp only [Machine.run, stickyMachine, stickyStep, lookupCall, resolve]
  cases router.lookup splitName with
  | none => simp
  | some config =>
    simp only [Bool.and_true]
    cases (if config.sticky then s.sessions.lookup sessionId else none) with
    | some name => simp
    | none =>
      simp only [List.getElem?_concat_length, computeCall]
      by_cases hw : config.totalWeight = 0
      · simp [hw]
      · simp only [if_neg hw]
        cases pickGroup ((hash.session sessionId splitName).toUInt32 % config.totalWeight)
            config.groups 0 with
        | none => simp
        | some g => cases config.sticky <;> simp

/-! ## The invariant -/

/-- At most one split is sticky. -/
def OneSticky : Prop :=
  ∀ t t' config config', router.lookup t = some config → router.lookup t' = some config' →
    config.sticky = true → config'.sticky = true → t = t'

/-- What a call has found out so far is what the hash assigns. -/
def CallSound : ResolveCall → Prop
  | .missed t _ config => router.lookup t = some config
  | .assigned t k name =>
    router.assign hash t k = some name ∧ ∃ config, router.lookup t = some config ∧
      config.sticky = true
  | .returned t k result => result = router.assign hash t k

/-- The table holds what the hash assigns in the sticky split, and no more than it has room for. -/
structure StickyInv (s : StickyState) : Prop where
  size : s.sessions.entries.length ≤ maxStickySessions
  table : ∀ t config, router.lookup t = some config → config.sticky = true →
    Agrees (router.assign hash t) s.sessions
  calls : ∀ c ∈ s.calls, CallSound hash router c

variable {hash router} {s : StickyState}

theorem stickyInv_init : StickyInv hash router .init where
  size := Nat.zero_le _
  table _ _ _ _ := agrees_empty
  calls c hc := by cases hc

theorem lookupCall_sound (h : StickyInv hash router s) (t k : Text) (locked : Bool) :
    CallSound hash router (lookupCall router s.sessions t k locked) := by
  unfold lookupCall
  cases hl : router.lookup t with
  | none => simp [CallSound, assign, hl]
  | some config =>
    simp only
    cases hk : (if config.sticky && locked then s.sessions.lookup k else none) with
    | none => exact hl
    | some name =>
      -- a hit, so the split is the sticky one
      split at hk
      · next hcond =>
        have hsticky : config.sticky = true := (Bool.and_eq_true _ _ ▸ hcond).1
        exact (h.table t config hl hsticky k name hk).symm
      · cases hk

theorem computeCall_sound {t : Text} {config : AbSplitConfig} (hl : router.lookup t = some config)
    (k : Text) : CallSound hash router (computeCall hash t k config) := by
  have hassign : router.assign hash t k = config.assign hash t k := by
    rw [assign, hl, Option.bind_some]
  unfold AbSplitConfig.assign at hassign
  unfold computeCall
  by_cases hw : config.totalWeight = 0
  · rw [if_pos hw] at hassign ⊢
    exact hassign.symm
  · rw [if_neg hw] at hassign ⊢
    cases hg : pickGroup ((hash.session k t).toUInt32 % config.totalWeight) config.groups 0 with
    | none =>
      simp only [hg] at hassign ⊢
      exact hassign.symm
    | some g =>
      simp only [hg] at hassign ⊢
      cases hsticky : config.sticky with
      | true => exact ⟨hassign, config, hl, hsticky⟩
      | false => exact hassign.symm

/-- Calls are sound after one of them has moved on. -/
theorem StickyInv.set (h : StickyInv hash router s) {c : ResolveCall} (id : Nat)
    (hc : CallSound hash router c) : ∀ d ∈ s.calls.set id c, CallSound hash router d := by
  intro d hd
  rcases List.mem_or_eq_of_mem_set hd with hd | rfl
  · exact h.calls d hd
  · exact hc

/-- Every step keeps the invariant. -/
theorem StickyInv.step (hone : OneSticky router) (h : StickyInv hash router s) (i : StickyInput) :
    StickyInv hash router (stickyStep hash router s i) := by
  cases i with
  | call t k locked =>
    refine ⟨h.size, h.table, fun c hc => ?_⟩
    rcases List.mem_append.mp hc with hc | hc
    · exact h.calls c hc
    · rw [List.mem_singleton.mp hc]
      exact lookupCall_sound h t k locked
  | compute id =>
    simp only [stickyStep]
    split
    · next t k config hid =>
      have hl := h.calls _ (List.mem_of_getElem? hid)
      exact ⟨h.size, h.table, h.set id (computeCall_sound hl k)⟩
    · exact h
  | insert id locked =>
    simp only [stickyStep]
    split
    · next t k name hid =>
      obtain ⟨hname, config, hl, hsticky⟩ := h.calls _ (List.mem_of_getElem? hid)
      have hcalls := h.set id (c := .returned t k (some name)) hname.symm
      cases locked with
      | false => exact ⟨h.size, h.table, hcalls⟩
      | true =>
        refine ⟨length_insertBounded_le (by decide), fun t' config' hl' hsticky' => ?_, hcalls⟩
        -- the call is one of the only sticky split
        obtain rfl := hone t t' config config' hl hl' hsticky hsticky'
        exact (h.table t config hl hsticky).insertBounded hname
    · exact h

/-- **The table does not show**: with one sticky split at most, whatever the order of the steps of
the calls, each of them returns what the hash assigns, and the table stays within its bound. -/
theorem sticky_transparent (hash : Hashers) (router : AbSplitRouter) (hone : OneSticky router)
    (is : List StickyInput) :
    let s := (stickyMachine hash router).run .init is
    (∀ t k result, .returned t k result ∈ s.calls → result = router.assign hash t k) ∧
    s.sessions.entries.length ≤ maxStickySessions := by
  have h : StickyInv hash router ((stickyMachine hash router).run .init is) :=
    Machine.run_inv (StickyInv hash router) stickyInv_init (fun _ i h => h.step hone i) is
  exact ⟨fun t k result hc => h.calls _ hc, h.size⟩

/-- A block's splits of which one name at most is sticky. -/
theorem oneSticky_new {splits : List AbSplit}
    (h : ∀ split ∈ splits, ∀ split' ∈ splits, split.sticky = true → split'.sticky = true →
      split.name = split'.name) : OneSticky (.new splits) := by
  have hrouted : ∀ t config, (AbSplitRouter.new splits).lookup t = some config →
      ∃ split ∈ splits, split.name = t ∧ split.config = config := by
    intro t config hl
    rw [lookup_new] at hl
    obtain ⟨split, hs, rfl⟩ := Option.map_eq_some_iff.mp hl
    have hname : split.name = t := by simpa using List.find?_some hs
    exact ⟨split, List.mem_reverse.mp (List.mem_of_find?_eq_some hs), hname, rfl⟩
  intro t t' config config' hl hl' hsticky hsticky'
  obtain ⟨split, hs, rfl, rfl⟩ := hrouted t config hl
  obtain ⟨split', hs', rfl, rfl⟩ := hrouted t' config' hl'
  exact h split hs split' hs' hsticky hsticky'

end AbSplitRouter

namespace Sample

/-- A sticky split, and one that is not. -/
def mixedSplits : List AbSplit :=
  [{ name := "pin".toList, sticky := true
     groups := [⟨"a".toList, "app".toList, 40⟩, ⟨"b".toList, "app".toList, 60⟩] },
    { name := "free".toList, sticky := false, groups := [⟨"c".toList, "app".toList, 100⟩] }]

/-- Two calls of one session, the second begun before the first has remembered its group. -/
def crossedCalls : List AbSplitRouter.StickyInput :=
  [.call "pin".toList "u".toList true, .compute 0, .call "pin".toList "u".toList true,
    .insert 0 true, .compute 1, .insert 1 true]

end Sample

open Sample AbSplitRouter

theorem sticky_transparent_mixed :
    OneSticky (.new mixedSplits) ∧
    let s := (stickyMachine (.const 50) (.new mixedSplits)).run .init crossedCalls
    (∀ t k result, .returned t k result ∈ s.calls →
      result = (AbSplitRouter.new mixedSplits).assign (.const 50) t k) ∧
    s.sessions.entries.length ≤ maxStickySessions :=
  have hone : OneSticky (.new mixedSplits) := oneSticky_new (by decide)
  ⟨hone, sticky_transparent (.const 50) _ hone crossedCalls⟩

end Flexd
