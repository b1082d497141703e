import Flexd.AbSplit
import Flexd.Lib.Spans

/-!
# The shares of a split

A split that is not sticky assigns a session by the residue of its hash modulo
the sum of the weights. While that sum fits into 32 bits, the groups cut the
residues into consecutive spans, each as wide as the weight of its group
(`resolve_shares`).
-/

namespace Flexd

open Lib

namespace AbSplitRouter

/-- The position at which the loop of `resolve` returns, `none` where it falls through. -/
def pickIndex (point : UInt32) : List AbGroup → UInt32 → Option Nat
  | [], _ => none
  | g :: groups, cumulative =>
    if point < cumulative + g.weight then some 0
    else (pickIndex point groups (cumulative + g.weight)).map (· + 1)

/-- The residue that assigns a session, modulo a total weight. -/
def hashResidue (hash : Hashers) (splitName sessionId : Text) (total : Nat) : Nat :=
  (hash.session sessionId splitName).toUInt32.toNat % total

end AbSplitRouter

open AbSplitRouter

theorem pickGroup_eq_pickIndex (point : UInt32) (groups : List AbGroup) (cumulative : UInt32) :
    pickGroup point groups cumulative =
      (pickIndex point groups cumulative).bind fun i => groups[i]? := by
  induction groups generalizing cumulative with
  | nil => rfl
  | cons g groups ih =>
    rw [pickGroup, pickIndex]
    split
    · rfl
    · rw [ih]
      cases pickIndex point groups (cumulative + g.weight) <;> rfl

theorem sum_weights (groups : List AbGroup) :
    (groups.map (·.weight.toNat)).sum = exactWeight groups := by
  induction groups with
  | nil => rfl
  | cons g groups ih =>
    rw [List.map_cons, List.sum_cons, ih]
    rfl

/-- While no sum wraps around, the loop searches the spans of the weights. -/
theorem pickIndex_eq_spanIndex {point : UInt32} {groups : List AbGroup} {cumulative : UInt32}
    (hfit : cumulative.toNat + exactWeight groups < UInt32.size) (hle : cumulative ≤ point) :
    pickIndex point groups cumulative =
      spanIndex (groups.map (·.weight.toNat)) (point.toNat - cumulative.toNat) := by
  induction groups generalizing cumulative with
  | nil => rfl
  | cons g groups ih =>
    have hexact : exactWeight (g :: groups) = g.weight.toNat + exactWeight groups := rfl
    have hadd : (cumulative + g.weight).toNat = cumulative.toNat + g.weight.toNat := by
      rw [UInt32.toNat_add]
      exact Nat.mod_eq_of_lt (show _ < UInt32.size by omega)
    have hlt : point < cumulative + g.weight ↔
        point.toNat - cumulative.toNat < g.weight.toNat := by
      rw [UInt32.le_iff_toNat_le] at hle
      rw [UInt32.lt_iff_toNat_lt, hadd]
      omega
    rw [pickIndex, List.map_cons, spanIndex]
    by_cases h : point < cumulative + g.weight
    · rw [if_pos h, if_pos (hlt.mp h)]
    · rw [if_neg h, if_neg fun h' => h (hlt.mpr h'), ih (by omega) (UInt32.not_lt.mp h), hadd,
        Nat.sub_sub]

theorem pickIndex_residue {groups : List AbGroup} {r : Nat}
    (hfit : exactWeight groups < UInt32.size) (hr : r < exactWeight groups) :
    pickIndex (UInt32.ofNat r) groups 0 = spanIndex (groups.map (·.weight.toNat)) r := by
  rw [pickIndex_eq_spanIndex (by simpa using hfit) UInt32.zero_le]
  congr 1
  rw [UInt32.toNat_ofNat', Nat.mod_eq_of_lt (Nat.lt_trans hr hfit)]
  rfl

theorem count_pickIndex {groups : List AbGroup} (hfit : exactWeight groups < UInt32.size)
    (i : Nat) :
    (List.range (exactWeight groups)).countP
        (fun r => pickIndex (UInt32.ofNat r) groups 0 = some i) =
      (groups[i]?.map (·.weight.toNat)).getD 0 := by
  have hspans := count_spanIndex (groups.map (·.weight.toNat)) i
  rw [sum_weights, List.getElem?_map, Nat.count] at hspans
  rw [← hspans]
  refine List.countP_congr fun r hr => ?_
  rw [pickIndex_residue hfit (List.mem_range.mp hr)]

/-- A residue falls to a group with a weight. -/
theorem pickIndex_isSome {groups : List AbGroup} {r : Nat}
    (hfit : exactWeight groups < UInt32.size) (hr : r < exactWeight groups) :
    ∃ i g, pickIndex (UInt32.ofNat r) groups 0 = some i ∧ groups[i]? = some g ∧ 0 < g.weight := by
  have hsome : (spanIndex (groups.map (·.weight.toNat)) r).isSome := by
    rw [spanIndex_isSome, sum_weights]
    exact hr
  obtain ⟨i, hi⟩ := Option.isSome_iff_exists.mp hsome
  obtain ⟨w, hw, hpos⟩ := spanIndex_width hi
  rw [List.getElem?_map] at hw
  obtain ⟨g, hg, rfl⟩ := Option.map_eq_some_iff.mp hw
  exact ⟨i, g, (pickIndex_residue hfit hr).trans hi, hg, UInt32.lt_iff_toNat_lt.mpr hpos⟩

/-- The point of a session is its residue modulo the sum of the weights. -/
theorem point_eq_residue {groups : List AbGroup} (hash : Hashers) (splitName id : Text)
    (hpos : 0 < exactWeight groups) (hfit : exactWeight groups < UInt32.size) :
    (hash.session id splitName).toUInt32 % totalWeight groups =
      UInt32.ofNat (hashResidue hash splitName id (exactWeight groups)) := by
  have htotal : (totalWeight groups).toNat = exactWeight groups := by
    rw [toNat_totalWeight, Nat.mod_eq_of_lt hfit]
  have hlt : hashResidue hash splitName id (exactWeight groups) < UInt32.size :=
    Nat.lt_trans (Nat.mod_lt _ hpos) hfit
  refine UInt32.toNat_inj.mp ?_
  rw [UInt32.toNat_mod, htotal, UInt32.toNat_ofNat', Nat.mod_eq_of_lt hlt]
  rfl

/-- **The groups share the residues by weight**: a split that is not sticky and whose weights sum to
`T` in 32 bits answers, for every session, with the group its residue below `T` falls to, and never
by the fallback; group `i` is given as many residues as its weight. -/
theorem resolve_shares {splits : List AbSplit} {splitName : Text} {split : AbSplit}
    (hs : routedSplit splits splitName = some split) (hsticky : split.sticky = false)
    (hpos : 0 < exactWeight split.groups) (hfit : exactWeight split.groups < UInt32.size) :
    (∀ hash sessions id,
      hashResidue hash splitName id (exactWeight split.groups) < exactWeight split.groups ∧
      ∃ i g, pickIndex (UInt32.ofNat (hashResidue hash splitName id (exactWeight split.groups)))
          split.groups 0 = some i ∧
        split.groups[i]? = some g ∧ 0 < g.weight ∧
        (AbSplitRouter.new splits).resolve hash sessions splitName id = (some g.name, sessions)) ∧
    (∀ i, (List.range (exactWeight split.groups)).countP
        (fun r => pickIndex (UInt32.ofNat r) split.groups 0 = some i) =
      (split.groups[i]?.map (·.weight.toNat)).getD 0) := by
  refine ⟨fun hash sessions id => ?_, count_pickIndex hfit⟩
  have hr : hashResidue hash splitName id (exactWeight split.groups) < exactWeight split.groups :=
    Nat.mod_lt _ hpos
  obtain ⟨i, g, hi, hg, hweight⟩ := pickIndex_isSome hfit hr
  refine ⟨hr, i, g, hi, hg, hweight, ?_⟩
  have htotal : totalWeight split.groups ≠ 0 := by
    intro h
    have hzero : (totalWeight split.groups).toNat = 0 := congrArg UInt32.toNat h
    rw [toNat_totalWeight, Nat.mod_eq_of_lt hfit] at hzero
    omega
  have hgroup : pickGroup ((hash.session id splitName).toUInt32 % totalWeight split.groups)
      split.groups 0 = some g := by
    rw [point_eq_residue hash splitName id hpos hfit, pickGroup_eq_pickIndex, hi]
    exact hg
  rw [resolve_assigned hs (by simp [hsticky]) htotal hgroup, hsticky]
  rfl

namespace Sample

/-- A split of three groups, the second without a weight. -/
def threeWay : AbSplit where
  name := "ab".toList
  groups := [⟨"a".toList, "app".toList, 30⟩, ⟨"b".toList, "app".toList, 0⟩,
    ⟨"c".toList, "app".toList, 70⟩]
  sticky := false

end Sample

open Sample

theorem resolve_shares_three :
    routedSplit [threeWay] threeWay.name = some threeWay ∧ threeWay.sticky = false ∧
    0 < exactWeight threeWay.groups ∧ exactWeight threeWay.groups < UInt32.size ∧
    ∀ i, (List.range (exactWeight threeWay.groups)).countP
        (fun r => pickIndex (UInt32.ofNat r) threeWay.groups 0 = some i) =
      (threeWay.groups[i]?.map (·.weight.toNat)).getD 0 := by
  have hs : routedSplit [threeWay] threeWay.name = some threeWay := by decide
  have hpos : 0 < exactWeight threeWay.groups := by decide
  have hfit : exactWeight threeWay.groups < UInt32.size := by decide
  exact ⟨hs, rfl, hpos, hfit, (resolve_shares hs rfl hpos hfit).2⟩

end Flexd
