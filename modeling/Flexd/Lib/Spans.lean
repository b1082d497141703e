import Mathlib.Data.Nat.Periodic

/-!
# Consecutive spans

A list of widths cuts the points from 0 on into consecutive spans. `spanIndex`
is the position of the span that a point lies in. Below the sum of the widths
every point lies in a span (`spanIndex_isSome`), and span `i` holds as many of
these points as it is wide (`count_spanIndex`). Modulo the sum the same holds
of as many consecutive points from anywhere on (`count_spanIndex_mod`).
-/

namespace Flexd.Lib

/-- The position of the span that holds the point, `none` past the last span. -/
def spanIndex : List Nat → Nat → Option Nat
  | [], _ => none
  | w :: ws, point => if point < w then some 0 else (spanIndex ws (point - w)).map (· + 1)

theorem count_congr {p q : Nat → Prop} [DecidablePred p] [DecidablePred q] {n : Nat}
    (h : ∀ k < n, (p k ↔ q k)) : n.count p = n.count q :=
  Nat.le_antisymm (Nat.count_mono_left fun k hk => (h k hk).mp)
    (Nat.count_mono_left fun k hk => (h k hk).mpr)

variable {ws : List Nat} {point i : Nat}

theorem spanIndex_isSome : (spanIndex ws point).isSome ↔ point < ws.sum := by
  induction ws generalizing point with
  | nil => simp [spanIndex]
  | cons w ws ih =>
    rw [spanIndex, List.sum_cons]
    split
    · next h => exact iff_of_true rfl (by omega)
    · next h =>
      rw [Option.isSome_map, ih]
      omega

/-- Only a span with a width holds points. -/
theorem spanIndex_width (h : spanIndex ws point = some i) : ∃ w, ws[i]? = some w ∧ 0 < w := by
  induction ws generalizing point i with
  | nil => cases h
  | cons w ws ih =>
    rw [spanIndex] at h
    split at h
    · next hlt =>
      cases h
      exact ⟨w, rfl, Nat.zero_lt_of_lt hlt⟩
    · obtain ⟨j, hj, rfl⟩ := Option.map_eq_some_iff.mp h
      exact ih hj

theorem spanIndex_lt_length (h : spanIndex ws point = some i) : i < ws.length := by
  obtain ⟨w, hw, -⟩ := spanIndex_width h
  exact (List.getElem?_eq_some_iff.mp hw).1

/-- **Every span is as wide as it says**: of the points below the sum of the widths, span `i` holds
its width. -/
theorem count_spanIndex (ws : List Nat) (i : Nat) :
    ws.sum.count (fun point => spanIndex ws point = some i) = ws[i]?.getD 0 := by
  induction ws generalizing i with
  | nil => rfl
  | cons w ws ih =>
    -- the points of the first span, then those of the others, shifted
    have hhead : w.count (fun point => spanIndex (w :: ws) point = some i) =
        w.count fun _ => i = 0 := by
      refine count_congr fun point hp => ?_
      rw [spanIndex, if_pos hp, Option.some.injEq]
      exact eq_comm
    have htail : ws.sum.count (fun point => spanIndex (w :: ws) (w + point) = some i) =
        ws.sum.count fun point => (spanIndex ws point).map (· + 1) = some i := by
      refine count_congr fun point _ => ?_
      rw [spanIndex, if_neg (by omega), Nat.add_sub_cancel_left]
    rw [List.sum_cons, Nat.count_add, hhead, htail]
    cases i with
    | zero => simp
    | succ i =>
      simpa using ih i

/-- Over one period, it does not matter where a count starts. -/
theorem count_mod_window (p : Nat → Prop) [DecidablePred p] (start period : Nat) :
    period.count (fun k => p ((start + k) % period)) = period.count fun k => p k := by
  induction start with
  | zero => exact count_congr fun k hk => by rw [Nat.zero_add, Nat.mod_eq_of_lt hk]
  | succ start ih =>
    -- the window that starts one later ends one later, on the same residue
    have hshift : period.count (fun k => p ((start + 1 + k) % period)) =
        period.count fun k => p ((start + (k + 1)) % period) :=
      count_congr fun k _ => by rw [Nat.add_assoc, Nat.add_comm 1 k]
    have hboth := (Nat.count_succ' (fun k => p ((start + k) % period)) period).symm.trans
      (Nat.count_succ _ period)
    simp only [Nat.add_zero, Nat.add_mod_right] at hboth
    rw [hshift, ← ih]
    exact Nat.add_right_cancel hboth

/-- **In any window too**, modulo the sum. -/
theorem count_spanIndex_mod (ws : List Nat) (start i : Nat) :
    ws.sum.count (fun k => spanIndex ws ((start + k) % ws.sum) = some i) = ws[i]?.getD 0 :=
  (count_mod_window _ start ws.sum).trans (count_spanIndex ws i)

end Flexd.Lib
