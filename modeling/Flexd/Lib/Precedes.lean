import Mathlib.Data.List.Basic

/-!
# What comes first in a trace

`Precedes p q l` says that every entry of `l` with `q` comes after one with `p`,
and `Follows p q l` that it comes directly after one. Both are put together from
the parts of a trace, by `precedes_append` and `follows_append`.
-/

namespace Flexd.Lib

variable {α : Type*} {p q : α → Prop} {a : α} {l l₁ l₂ : List α}

/-- Every entry with `q` comes after one with `p`. -/
def Precedes (p q : α → Prop) (l : List α) : Prop :=
  ∀ pre b post, l = pre ++ b :: post → q b → ∃ a ∈ pre, p a

theorem precedes_of_forall_not (h : ∀ b ∈ l, ¬ q b) : Precedes p q l := by
  rintro pre b post rfl hb
  exact absurd hb (h b (List.mem_append_right pre List.mem_cons_self))

theorem precedes_nil : Precedes p q [] := precedes_of_forall_not (by simp)

theorem precedes_append :
    Precedes p q (l₁ ++ l₂) ↔ Precedes p q l₁ ∧ ((∃ a ∈ l₁, p a) ∨ Precedes p q l₂) := by
  constructor
  · intro h
    refine ⟨fun pre b post hl hb => h pre b (post ++ l₂) (by simp [hl]) hb, ?_⟩
    by_cases hp : ∃ a ∈ l₁, p a
    · exact .inl hp
    · refine .inr fun pre b post hl hb => ?_
      obtain ⟨a, ha, hpa⟩ := h (l₁ ++ pre) b post (by simp [hl]) hb
      rcases List.mem_append.mp ha with h₁ | h₂
      · exact absurd ⟨a, h₁, hpa⟩ hp
      · exact ⟨a, h₂, hpa⟩
  · rintro ⟨h₁, h₂⟩ pre b post hl hb
    rcases List.append_eq_append_iff.mp hl with ⟨mid, rfl, hmid⟩ | ⟨mid, hmid, hrest⟩
    · -- the entry is in the second part
      rcases h₂ with ⟨a, ha, hpa⟩ | h₂
      · exact ⟨a, List.mem_append_left mid ha, hpa⟩
      · obtain ⟨a, ha, hpa⟩ := h₂ mid b post hmid hb
        exact ⟨a, List.mem_append_right l₁ ha, hpa⟩
    · cases mid with
      | nil =>
        -- it begins the second part
        rw [List.append_nil] at hmid
        subst hmid
        rcases h₂ with ⟨a, ha, hpa⟩ | h₂
        · exact ⟨a, ha, hpa⟩
        · obtain ⟨a, ha, -⟩ := h₂ [] b post (by simpa using hrest.symm) hb
          cases ha
      | cons x mid =>
        obtain ⟨rfl, -⟩ := List.cons.inj hrest
        exact h₁ pre b mid hmid hb

theorem precedes_cons (hq : ¬ q a) : Precedes p q (a :: l) ↔ p a ∨ Precedes p q l := by
  have hone : Precedes p q [a] := precedes_of_forall_not (by simpa using hq)
  rw [← List.singleton_append, precedes_append]
  simp [hone]

/-! ## Directly after -/

/-- Every entry with `q` comes directly after one with `p`. -/
def Follows (p q : α → Prop) (l : List α) : Prop :=
  ∀ pre b post, l = pre ++ b :: post → q b → ∃ pre' a, pre = pre' ++ [a] ∧ p a

theorem Follows.imp {p' : α → Prop} (h : Follows p q l) (hp : ∀ a, p a → p' a) :
    Follows p' q l := by
  intro pre b post hl hb
  obtain ⟨pre', a, rfl, hpa⟩ := h pre b post hl hb
  exact ⟨pre', a, rfl, hp a hpa⟩

theorem follows_of_forall_not (h : ∀ b ∈ l, ¬ q b) : Follows p q l := by
  rintro pre b post rfl hb
  exact absurd hb (h b (List.mem_append_right pre List.mem_cons_self))

theorem follows_nil : Follows p q [] := follows_of_forall_not (by simp)

theorem follows_append (h₁ : Follows p q l₁) (h₂ : Follows p q l₂) : Follows p q (l₁ ++ l₂) := by
  intro pre b post hl hb
  rcases List.append_eq_append_iff.mp hl with ⟨mid, rfl, hmid⟩ | ⟨mid, hmid, hrest⟩
  · obtain ⟨pre', a, rfl, hpa⟩ := h₂ mid b post hmid hb
    exact ⟨l₁ ++ pre', a, (List.append_assoc _ _ _).symm, hpa⟩
  · cases mid with
    | nil =>
      obtain ⟨pre', a, hnil, -⟩ := h₂ [] b post (by simpa using hrest.symm) hb
      exact absurd hnil (by simp)
    | cons x mid =>
      obtain ⟨rfl, -⟩ := List.cons.inj hrest
      exact h₁ pre b mid hmid hb

/-- An entry at the end of others, all of which may come before it. -/
theorem follows_concat (hne : l ≠ []) (hp : ∀ a ∈ l, p a) (hq : ∀ a ∈ l, ¬ q a) (b : α) :
    Follows p q (l ++ [b]) := by
  intro pre b' post hl hb
  rcases List.eq_nil_or_concat post with rfl | ⟨post', x, rfl⟩
  · obtain ⟨rfl, -⟩ := List.append_inj' hl rfl
    exact ⟨_, _, (List.dropLast_append_getLast hne).symm, hp _ (List.getLast_mem hne)⟩
  · have hsplit : l ++ [b] = (pre ++ b' :: post') ++ [x] := by simpa using hl
    obtain ⟨rfl, -⟩ := List.append_inj' hsplit rfl
    exact absurd hb (hq b' (by simp))

end Flexd.Lib
