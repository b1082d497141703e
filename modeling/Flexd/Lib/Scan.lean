import Mathlib.Data.List.Basic

/-!
# A scan with early wins

`scan wins score` goes through a list once. An entry that wins is the answer at
once; otherwise the entries compete by their score, against a best one that is
only replaced by a strictly better one. `scan_of_find` and `scan_eq_some_iff`
say what that computes: the first winner, or else the first of the best.
-/

namespace Flexd.Lib

variable {α : Type*}

/-- The first entry that wins, or else the best so far after the rest of the list. -/
def scan (wins : α → Bool) (score : α → Nat) : List α → Option α → Nat → Option α
  | [], best, _ => best
  | c :: cs, best, bestScore =>
    if wins c then some c
    else if bestScore < score c then scan wins score cs (some c) (score c)
    else scan wins score cs best bestScore

/-- An entry that beats all entries before it and is not beaten after it. -/
def FirstBest (score : α → Nat) (l : List α) (c : α) : Prop :=
  ∃ pre post, l = pre ++ c :: post ∧ (∀ d ∈ pre, score d < score c) ∧ ∀ d ∈ post, score d ≤ score c

variable {wins : α → Bool} {score : α → Nat} {l l' : List α} {c : α}

theorem FirstBest.mem (h : FirstBest score l c) : c ∈ l := by
  obtain ⟨pre, post, rfl, -⟩ := h
  simp

theorem FirstBest.le (h : FirstBest score l c) : ∀ d ∈ l, score d ≤ score c := by
  obtain ⟨pre, post, rfl, hpre, hpost⟩ := h
  intro d hd
  rcases List.mem_append.mp hd with hd | hd
  · exact Nat.le_of_lt (hpre d hd)
  rcases List.mem_cons.mp hd with rfl | hd
  · exact Nat.le_refl _
  · exact hpost d hd

theorem firstBest_cons {d : α} :
    FirstBest score (d :: l) c ↔
      d = c ∧ (∀ e ∈ l, score e ≤ score c) ∨ score d < score c ∧ FirstBest score l c := by
  constructor
  · rintro ⟨pre, post, hl, hpre, hpost⟩
    cases pre with
    | nil =>
      obtain ⟨rfl, rfl⟩ := List.cons.inj hl
      exact .inl ⟨rfl, hpost⟩
    | cons e pre =>
      obtain ⟨rfl, rfl⟩ := List.cons.inj hl
      exact .inr ⟨hpre d (List.mem_cons_self ..), pre, post, rfl,
        fun e he => hpre e (List.mem_cons_of_mem _ he), hpost⟩
  · rintro (⟨rfl, hrest⟩ | ⟨hd, pre, post, rfl, hpre, hpost⟩)
    · exact ⟨[], l, rfl, by simp, hrest⟩
    · exact ⟨d :: pre, post, rfl, List.forall_mem_cons.mpr ⟨hd, hpre⟩, hpost⟩

/-- **A winner is the answer**, whatever the best so far. -/
theorem scan_of_find {best : Option α} {n : Nat} (h : l.find? wins = some c) :
    scan wins score l best n = some c := by
  induction l generalizing best n with
  | nil => cases h
  | cons d l ih =>
    rw [scan]
    by_cases hd : wins d = true
    · rw [List.find?_cons_of_pos hd] at h
      rw [if_pos hd]
      exact h
    · rw [List.find?_cons_of_neg hd] at h
      rw [if_neg hd]
      split <;> exact ih h

/-- **Without a winner** the answer is the first of the best, if that is better than the best so
far, which is the answer otherwise. -/
theorem scan_eq_some_iff {best : Option α} {n : Nat} (h : l.find? wins = none) :
    scan wins score l best n = some c ↔
      FirstBest score l c ∧ n < score c ∨ best = some c ∧ ∀ d ∈ l, score d ≤ n := by
  induction l generalizing best n with
  | nil => simp [scan, FirstBest]
  | cons d l ih =>
    rw [List.find?_eq_none, List.forall_mem_cons, ← List.find?_eq_none] at h
    rw [scan, if_neg h.1, firstBest_cons, List.forall_mem_cons]
    by_cases hd : n < score d
    · -- the entry becomes the best so far
      rw [if_pos hd, ih h.2]
      constructor
      · rintro (⟨hbest, hlt⟩ | ⟨hdc, hrest⟩)
        · exact .inl ⟨.inr ⟨hlt, hbest⟩, Nat.lt_trans hd hlt⟩
        · cases hdc
          exact .inl ⟨.inl ⟨rfl, hrest⟩, hd⟩
      · rintro (⟨⟨rfl, hrest⟩ | ⟨hlt, hbest⟩, -⟩ | ⟨-, hle, -⟩)
        · exact .inr ⟨rfl, hrest⟩
        · exact .inl ⟨hbest, hlt⟩
        · exact absurd hd (Nat.not_lt.mpr hle)
    · have hle : score d ≤ n := Nat.not_lt.mp hd
      rw [if_neg hd, ih h.2]
      constructor
      · rintro (⟨hbest, hlt⟩ | ⟨hb, hrest⟩)
        · exact .inl ⟨.inr ⟨Nat.lt_of_le_of_lt hle hlt, hbest⟩, hlt⟩
        · exact .inr ⟨hb, hle, hrest⟩
      · rintro (⟨⟨rfl, -⟩ | ⟨-, hbest⟩, hlt⟩ | ⟨hb, -, hrest⟩)
        · exact absurd hlt hd
        · exact .inl ⟨hbest, hlt⟩
        · exact .inr ⟨hb, hrest⟩

theorem scan_some_ne_none {d : α} {n : Nat} : scan wins score l (some d) n ≠ none := by
  induction l generalizing d n with
  | nil => exact Option.some_ne_none d
  | cons e l ih =>
    rw [scan]
    split
    · exact Option.some_ne_none e
    split <;> exact ih

/-- Without a winner, nothing is the answer exactly when nothing scores. -/
theorem scan_eq_none_iff (h : l.find? wins = none) :
    scan wins score l none 0 = none ↔ ∀ d ∈ l, score d = 0 := by
  have hgen : ∀ {l : List α} {n : Nat}, l.find? wins = none →
      (scan wins score l none n = none ↔ ∀ d ∈ l, score d ≤ n) := by
    intro l
    induction l with
    | nil => simp [scan]
    | cons d l ih =>
      intro n h
      rw [List.find?_eq_none, List.forall_mem_cons, ← List.find?_eq_none] at h
      rw [scan, if_neg h.1, List.forall_mem_cons]
      by_cases hd : n < score d
      · rw [if_pos hd]
        exact iff_of_false scan_some_ne_none fun hall => absurd hd (Nat.not_lt.mpr hall.1)
      · rw [if_neg hd, ih h.2]
        exact (and_iff_right (Nat.not_lt.mp hd)).symm
  rw [hgen h]
  simp only [Nat.le_zero]

/-- Where no two entries share a score other than 0, the first of the best is the best. -/
theorem firstBest_iff (hdistinct : l.Pairwise fun a b => 0 < score a → score a ≠ score b)
    (hpos : 0 < score c) : FirstBest score l c ↔ c ∈ l ∧ ∀ d ∈ l, score d ≤ score c := by
  constructor
  · exact fun h => ⟨h.mem, h.le⟩
  · rintro ⟨hmem, hle⟩
    obtain ⟨pre, post, rfl⟩ := List.append_of_mem hmem
    refine ⟨pre, post, rfl, fun d hd => ?_, fun d hd => hle d (by simp [hd])⟩
    refine Nat.lt_of_le_of_ne (hle d (by simp [hd])) fun he => ?_
    have hne := (List.pairwise_append.mp hdistinct).2.2 d hd c (List.mem_cons_self ..)
    exact hne (he ▸ hpos) he

end Flexd.Lib
