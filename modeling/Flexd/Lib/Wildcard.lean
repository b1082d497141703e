import Mathlib.Data.List.Basic

/-!
# Wildcard names

A pattern is a name, or an apex behind a star and a separator, as in
`*.example.com`. `PatternCovers` says which names it stands for, whatever the
symbols are; a matcher is right when it decides `PatternCovers`.
-/

namespace Flexd.Lib

/-- A pattern covers itself, and a wildcard its apex and whatever ends in the apex after a
separator. -/
inductive PatternCovers {α : Type} (star sep : α) : List α → List α → Prop where
  | itself (name : List α) : PatternCovers star sep name name
  | apex (apex : List α) : PatternCovers star sep (star :: sep :: apex) apex
  | under (front apex : List α) :
      PatternCovers star sep (star :: sep :: apex) (front ++ sep :: apex)

variable {α β : Type} {star sep : α} {pattern apex name : List α}

/-- The test of a wildcard, with the names it covers by their ending. -/
theorem patternCovers_wildcard :
    PatternCovers star sep (star :: sep :: apex) name ↔
      name = star :: sep :: apex ∨ name = apex ∨ sep :: apex <:+ name := by
  constructor
  · rintro (_ | _ | ⟨front, _⟩)
    · exact .inl rfl
    · exact .inr (.inl rfl)
    · exact .inr (.inr ⟨front, rfl⟩)
  · rintro (rfl | rfl | ⟨front, rfl⟩)
    · exact .itself _
    · exact .apex _
    · exact .under front apex

/-- The test of a pattern that is no wildcard. -/
theorem patternCovers_plain (h : ∀ apex, pattern ≠ star :: sep :: apex) :
    PatternCovers star sep pattern name ↔ pattern = name := by
  constructor
  · rintro (_ | _ | _)
    · rfl
    · exact absurd rfl (h _)
    · exact absurd rfl (h _)
  · rintro rfl
    exact .itself _

/-- Whatever is done to the symbols one by one, a name stays covered. -/
theorem PatternCovers.map (f : α → β) (h : PatternCovers star sep pattern name) :
    PatternCovers (f star) (f sep) (pattern.map f) (name.map f) := by
  cases h with
  | itself => exact .itself _
  | apex => exact .apex _
  | under front apex =>
    rw [List.map_append]
    exact .under (front.map f) (apex.map f)

/-- A pattern has the symbols of each name it covers, beside its own two. -/
theorem PatternCovers.mem (h : PatternCovers star sep pattern name) {a : α} (ha : a ∈ pattern) :
    a = star ∨ a = sep ∨ a ∈ name := by
  cases h with
  | itself => exact .inr (.inr ha)
  | apex => simpa using ha
  | under front apex =>
    simp only [List.mem_cons] at ha
    rcases ha with ha | ha | ha
    · exact .inl ha
    · exact .inr (.inl ha)
    · exact .inr (.inr (by simp [ha]))

end Flexd.Lib
