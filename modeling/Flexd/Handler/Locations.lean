import Flexd.Handler.Dispatch
import Flexd.Lib.Scan
import Mathlib.Data.List.Find

/-!
# The precedence of locations

`findLocation` scans the locations once: an exact or regex match wins at once,
and prefix locations compete by the length of their pattern.
`findLocation_precedence` says which location that selects, for any list and
any path, and that the order of prefix locations with distinct patterns does not
matter.
-/

namespace Flexd

open Lib

namespace CompiledLocation

/-- An exact match of the path, or a compiled regex that matches it. -/
def wins (path : Text) (c : CompiledLocation) : Bool :=
  match c.location.matchType with
  | .exact => c.location.pattern = path
  | .regex => c.regex.any fun re => re.isMatch path
  | _ => false

/-- A prefix location. -/
def competes (c : CompiledLocation) : Bool := c.location.matchType = .startsWith

/-- A prefix location with a non-empty pattern that the path starts with. -/
def Covers (path : Text) (c : CompiledLocation) : Prop :=
  c.location.matchType = .startsWith ∧ c.location.pattern ≠ [] ∧
    c.location.pattern.isPrefixOf path

/-- The length of the pattern that counts, in bytes. -/
def coverLen (path : Text) (c : CompiledLocation) : Nat :=
  if c.location.matchType = .startsWith ∧ c.location.pattern.isPrefixOf path then
    byteLen c.location.pattern
  else 0

end CompiledLocation

open CompiledLocation

/-- The longest of the covering locations, and the first among the longest. -/
def LongestCovering (path : Text) (locations : List CompiledLocation) (c : CompiledLocation) :
    Prop :=
  ∃ pre post, locations = pre ++ c :: post ∧ c.Covers path ∧
    (∀ d ∈ pre, d.Covers path → byteLen d.location.pattern < byteLen c.location.pattern) ∧
    ∀ d ∈ post, d.Covers path → byteLen d.location.pattern ≤ byteLen c.location.pattern

/-- The second list has the prefix locations of the first one in another order, no two of them with
one pattern, and the other locations in the same order. -/
structure Reordered (locations locations' : List CompiledLocation) : Prop where
  others : locations.filter (!·.competes) = locations'.filter (!·.competes)
  perm : (locations.filter (·.competes)).Perm (locations'.filter (·.competes))
  distinct : ((locations.filter (·.competes)).map (·.location.pattern)).Nodup

variable {path : Text} {locations locations' : List CompiledLocation} {c d : CompiledLocation}

theorem findLocationFrom_eq_scan (path : Text) (cs : List CompiledLocation)
    (best : Option CompiledLocation) (n : Nat) :
    findLocationFrom path cs best n = scan (wins path) (coverLen path) cs best n := by
  induction cs generalizing best n with
  | nil => rfl
  | cons c cs ih =>
    rw [findLocationFrom, scan]
    cases hm : c.location.matchType with
    | exact =>
      have hlen : coverLen path c = 0 := by simp [coverLen, hm]
      simp [wins, hm, hlen, ih]
    | startsWith =>
      have hwins : ¬wins path c = true := by simp [wins, hm]
      rw [if_neg hwins]
      by_cases hp : c.location.pattern.isPrefixOf path = true
      · have hlen : coverLen path c = byteLen c.location.pattern := if_pos ⟨hm, hp⟩
        rw [hlen]
        simp only [hp, true_and]
        split <;> exact ih _ _
      · have hlen : coverLen path c = 0 := if_neg fun h => hp h.2
        rw [hlen, if_neg (Nat.not_lt_zero n)]
        refine (if_neg fun h => hp h.1).trans (ih _ _)
    | regex =>
      have hlen : coverLen path c = 0 := by simp [coverLen, hm]
      cases hre : c.regex with
      | none => simp [wins, hm, hre, hlen, ih]
      | some re => simp [wins, hm, hre, hlen, ih]
    | unknown name =>
      have hlen : coverLen path c = 0 := by simp [coverLen, hm]
      simp [wins, hm, hlen, ih]

/-! ## Lengths of covering patterns -/

theorem byteLen_eq_zero {t : Text} : byteLen t = 0 ↔ t = [] := by
  cases t with
  | nil => simp
  | cons c t =>
    have hsize := c.utf8Size_pos
    simp only [byteLen_cons, reduceCtorEq, iff_false]
    omega

theorem Covers.coverLen (h : c.Covers path) : coverLen path c = byteLen c.location.pattern :=
  if_pos ⟨h.1, h.2.2⟩

theorem coverLen_pos : 0 < coverLen path c ↔ c.Covers path := by
  constructor
  · intro h
    by_cases hc : c.location.matchType = .startsWith ∧ c.location.pattern.isPrefixOf path
    · rw [coverLen, if_pos hc] at h
      exact ⟨hc.1, fun he => absurd h (by simp [he]), hc.2⟩
    · rw [coverLen, if_neg hc] at h
      exact absurd h (Nat.lt_irrefl 0)
  · intro h
    rw [Covers.coverLen h]
    exact Nat.pos_of_ne_zero fun he => h.2.1 (byteLen_eq_zero.mp he)

theorem coverLen_eq_zero (h : ¬c.Covers path) : coverLen path c = 0 :=
  Nat.eq_zero_of_not_pos fun hpos => h (coverLen_pos.mp hpos)

theorem longestCovering_iff :
    LongestCovering path locations c ↔
      FirstBest (coverLen path) locations c ∧ 0 < coverLen path c := by
  constructor
  · rintro ⟨pre, post, rfl, hc, hpre, hpost⟩
    refine ⟨⟨pre, post, rfl, fun d hd => ?_, fun d hd => ?_⟩, coverLen_pos.mpr hc⟩
    · rw [Covers.coverLen hc]
      by_cases hcover : d.Covers path
      · rw [Covers.coverLen hcover]
        exact hpre d hd hcover
      · rw [coverLen_eq_zero hcover, ← Covers.coverLen hc]
        exact coverLen_pos.mpr hc
    · rw [Covers.coverLen hc]
      by_cases hcover : d.Covers path
      · rw [Covers.coverLen hcover]
        exact hpost d hd hcover
      · rw [coverLen_eq_zero hcover]
        exact Nat.zero_le _
  · rintro ⟨⟨pre, post, rfl, hpre, hpost⟩, hpos⟩
    have hc := coverLen_pos.mp hpos
    refine ⟨pre, post, rfl, hc, fun d hd hcover => ?_, fun d hd hcover => ?_⟩
    · have hlt := hpre d hd
      rwa [Covers.coverLen hcover, Covers.coverLen hc] at hlt
    · have hle := hpost d hd
      rwa [Covers.coverLen hcover, Covers.coverLen hc] at hle

/-- Two patterns that start the same path are equal if they are equally long. -/
theorem pattern_inj (hc : c.Covers path) (hd : d.Covers path)
    (h : coverLen path c = coverLen path d) : c.location.pattern = d.location.pattern := by
  rw [Covers.coverLen hc, Covers.coverLen hd] at h
  have hstart := List.isPrefixOf_iff_prefix.mp hc.2.2
  have hstart' := List.isPrefixOf_iff_prefix.mp hd.2.2
  -- one of them continues the other, by no byte
  have hsame : ∀ {s t : Text}, s <+: t → byteLen s = byteLen t → s = t := by
    rintro s _ ⟨r, rfl⟩ hlen
    rw [byteLen_append] at hlen
    have hr : byteLen r = 0 := by omega
    rw [byteLen_eq_zero.mp hr, List.append_nil]
  rcases List.prefix_or_prefix_of_prefix hstart hstart' with hpre | hpre
  · exact hsame hpre h
  · exact (hsame hpre h.symm).symm

/-! ## Reordering -/

theorem competes_of_covers (h : c.Covers path) : c.competes = true := by
  simp [competes, h.1]

theorem not_competes_of_wins (h : wins path c = true) : c.competes = false := by
  unfold wins at h
  unfold competes
  split at h
  · next hm => simp [hm]
  · next hm => simp [hm]
  · exact absurd h (by simp)

/-- The order of prefix locations does not matter to the first winner. -/
theorem Reordered.find_wins (h : Reordered locations locations') :
    locations.find? (wins path) = locations'.find? (wins path) := by
  have hothers : ∀ l : List CompiledLocation,
      l.find? (wins path) = (l.filter (!·.competes)).find? (wins path) := by
    intro l
    rw [List.find?_filter]
    refine List.find?_congr fun c _ => ?_
    by_cases hw : wins path c = true
    · simp [hw, not_competes_of_wins hw]
    · simp [hw]
  rw [hothers locations, hothers locations', h.others]

theorem Reordered.symm (h : Reordered locations locations') : Reordered locations' locations :=
  ⟨h.others.symm, h.perm.symm, (h.perm.map _).nodup_iff.mp h.distinct⟩

/-- No two covering locations are equally long. -/
theorem Reordered.pairwise_coverLen (h : Reordered locations locations') :
    locations.Pairwise fun a b => 0 < coverLen path a → coverLen path a ≠ coverLen path b := by
  have hpatterns := List.pairwise_map.mp h.distinct
  rw [List.pairwise_filter] at hpatterns
  refine hpatterns.imp fun {a b} hne hpos heq => ?_
  have ha := coverLen_pos.mp hpos
  have hb := coverLen_pos.mp (heq ▸ hpos)
  exact hne (competes_of_covers ha) (competes_of_covers hb) (pattern_inj ha hb heq)

/-- The covering locations are the same. -/
theorem Reordered.mem_of_covers (h : Reordered locations locations') (hc : c.Covers path)
    (hmem : c ∈ locations) : c ∈ locations' :=
  (List.mem_filter.mp (h.perm.subset
    (List.mem_filter.mpr ⟨hmem, competes_of_covers hc⟩))).1

theorem Reordered.longestCovering (h : Reordered locations locations')
    (hc : LongestCovering path locations c) : LongestCovering path locations' c := by
  rw [longestCovering_iff] at hc ⊢
  obtain ⟨hbest, hpos⟩ := hc
  have hcovers := coverLen_pos.mp hpos
  refine ⟨(firstBest_iff h.symm.pairwise_coverLen hpos).mpr
    ⟨h.mem_of_covers hcovers hbest.mem, fun d hd => ?_⟩, hpos⟩
  by_cases hcover : d.Covers path
  · exact hbest.le d (h.symm.mem_of_covers hcover hd)
  · rw [coverLen_eq_zero hcover]
    exact Nat.zero_le _

/-- Without a winner, the answer is the first of the longest covering locations. -/
theorem findLocation_iff (h : locations.find? (wins path) = none) :
    findLocation locations path = some c ↔ LongestCovering path locations c := by
  rw [findLocation, findLocationFrom_eq_scan, scan_eq_some_iff h, longestCovering_iff]
  simp

/-- **The precedence of locations**: the first exact or regex match of the list; without one the
first of the longest non-empty prefixes of the path; and nothing if there is none. Reordering prefix
locations with distinct patterns changes nothing. -/
theorem findLocation_precedence (locations : List CompiledLocation) (path : Text) :
    (∀ c, locations.find? (wins path) = some c → findLocation locations path = some c) ∧
    (locations.find? (wins path) = none →
      (∀ c, findLocation locations path = some c ↔ LongestCovering path locations c) ∧
      (findLocation locations path = none ↔ ∀ c ∈ locations, ¬c.Covers path)) ∧
    ∀ locations', Reordered locations locations' →
      findLocation locations' path = findLocation locations path := by
  have hwin : ∀ {l : List CompiledLocation} {c}, l.find? (wins path) = some c →
      findLocation l path = some c := by
    intro l c h
    rw [findLocation, findLocationFrom_eq_scan]
    exact scan_of_find h
  refine ⟨fun c => hwin, fun h => ⟨fun c => findLocation_iff h, ?_⟩, fun locations' hre => ?_⟩
  · rw [findLocation, findLocationFrom_eq_scan, scan_eq_none_iff h]
    refine forall₂_congr fun c _ => ?_
    rw [← coverLen_pos, Nat.pos_iff_ne_zero, not_not]
  · cases h : locations.find? (wins path) with
    | some c => rw [hwin h, hwin (hre.find_wins ▸ h)]
    | none =>
      have h' : locations'.find? (wins path) = none := hre.find_wins ▸ h
      refine Option.ext fun c => ?_
      rw [findLocation_iff h, findLocation_iff h']
      exact ⟨hre.symm.longestCovering, hre.longestCovering⟩

end Flexd
