import Mathlib.Data.List.Basic

/-!
# Checks that stop at the first violation

A check is an `Except ε Unit`: it passes, or names the first violation.
`require` tests one condition, `checkAll` runs a check over a list in order.
A sequence passes exactly when each of its parts does (`andThen_ok`,
`checkAll_ok`, `bind_ok`), so what a passed check guarantees is read off part
by part.
-/

namespace Flexd.Lib

variable {ε α : Type*}

/-- Pass if `b`, else fail with `e`. -/
def require (b : Bool) (e : ε) : Except ε Unit := if b then .ok () else .error e

/-- Run the first check, and the second if the first passed. -/
def andThen (c d : Except ε Unit) : Except ε Unit :=
  match c with
  | .ok _ => d
  | .error e => .error e

/-- Run a check on every element, in order, up to the first violation. -/
def checkAll (f : α → Except ε Unit) : List α → Except ε Unit
  | [] => .ok ()
  | x :: xs => andThen (f x) (checkAll f xs)

/-- Run checks in order up to the first violation. -/
def checkSeq (cs : List (Except ε Unit)) : Except ε Unit := checkAll id cs

theorem require_ok {b : Bool} {e : ε} : require b e = .ok () ↔ b = true := by
  cases b <;> simp [require]

theorem andThen_ok {c d : Except ε Unit} : andThen c d = .ok () ↔ c = .ok () ∧ d = .ok () := by
  cases c <;> simp [andThen]

theorem checkAll_ok {f : α → Except ε Unit} {l : List α} :
    checkAll f l = .ok () ↔ ∀ x ∈ l, f x = .ok () := by
  induction l with
  | nil => simp [checkAll]
  | cons x xs ih => simp [checkAll, andThen_ok, ih]

theorem checkSeq_ok {cs : List (Except ε Unit)} :
    checkSeq cs = .ok () ↔ ∀ c ∈ cs, c = .ok () := checkAll_ok

/-- A sequence yields a value exactly when its parts do, one after the other. -/
theorem bind_ok {ε α β : Type} {c : Except ε α} {k : α → Except ε β} {r : β} :
    c >>= k = .ok r ↔ ∃ a, c = .ok a ∧ k a = .ok r := by
  constructor
  · intro h
    cases c with
    | error e => cases h
    | ok a => exact ⟨a, rfl, h⟩
  · rintro ⟨a, rfl, h⟩
    exact h

/-- A sequence fails in its first part, or after it. -/
theorem bind_error {ε α β : Type} {c : Except ε α} {k : α → Except ε β} {e : ε} :
    c >>= k = .error e ↔ c = .error e ∨ ∃ a, c = .ok a ∧ k a = .error e := by
  constructor
  · intro h
    cases c with
    | error e' => cases h; exact .inl rfl
    | ok a => exact .inr ⟨a, rfl, h⟩
  · rintro (rfl | ⟨a, rfl, h⟩)
    · rfl
    · exact h

theorem require_error {b : Bool} {e r : ε} (h : require b e = .error r) : r = e := by
  cases b <;> cases h
  rfl

end Flexd.Lib
