import Flexd.Lib.Precedes

/-!
# Computations that leave a trace

`Traced δ ε α` is a computation that does things to the outside world and may
fail: its deeds so far stay done. The rules say what a composed computation
does, returns, and does in which order, by what its parts do.
-/

namespace Flexd.Lib

/-- What a computation does, in order, and what it returns. -/
structure Traced (δ ε α : Type) where
  deeds : List δ
  result : Except ε α

namespace Traced

variable {δ ε α β : Type}

def bind (x : Traced δ ε α) (f : α → Traced δ ε β) : Traced δ ε β :=
  match x.result with
  | .ok a => ⟨x.deeds ++ (f a).deeds, (f a).result⟩
  | .error e => ⟨x.deeds, .error e⟩

instance : Monad (Traced δ ε) where
  pure a := ⟨[], .ok a⟩
  bind := Traced.bind

def note (d : δ) : Traced δ ε Unit := ⟨[d], .ok ()⟩

/-- Go on with a value, if there is one. -/
def require (o : Option α) (e : ε) : Traced δ ε α :=
  match o with
  | some a => ⟨[], .ok a⟩
  | none => ⟨[], .error e⟩

/-- Go on only if a condition holds. -/
def check (b : Bool) (e : ε) : Traced δ ε Unit := ⟨[], if b then .ok () else .error e⟩

variable {x : Traced δ ε α} {f : α → Traced δ ε β}

@[simp] theorem deeds_pure (a : α) : (pure a : Traced δ ε α).deeds = [] := rfl

@[simp] theorem result_pure (a : α) : (pure a : Traced δ ε α).result = .ok a := rfl

@[simp] theorem deeds_note (d : δ) : (note d : Traced δ ε Unit).deeds = [d] := rfl

@[simp] theorem result_note (d : δ) : (note d : Traced δ ε Unit).result = .ok () := rfl

@[simp] theorem deeds_require (o : Option α) (e : ε) : (require o e : Traced δ ε α).deeds = [] := by
  cases o <;> rfl

@[simp] theorem result_require {o : Option α} {e : ε} {a : α} :
    (require o e : Traced δ ε α).result = .ok a ↔ o = some a := by
  cases o <;> simp [require]

@[simp] theorem deeds_check (b : Bool) (e : ε) : (check b e : Traced δ ε Unit).deeds = [] := rfl

@[simp] theorem result_check {b : Bool} {e : ε} {u : Unit} :
    (check b e : Traced δ ε Unit).result = .ok u ↔ b = true := by
  cases b <;> simp [check]

/-- A composition whose first part returns. -/
theorem bind_of_ok {a : α} (h : x.result = .ok a) :
    x >>= f = ⟨x.deeds ++ (f a).deeds, (f a).result⟩ := by
  show Traced.bind x f = _
  rw [Traced.bind, h]

/-- A composition whose first part fails. -/
theorem bind_of_error {e : ε} (h : x.result = .error e) : x >>= f = ⟨x.deeds, .error e⟩ := by
  show Traced.bind x f = _
  rw [Traced.bind, h]

theorem result_bind {b : β} :
    (x >>= f).result = .ok b ↔ ∃ a, x.result = .ok a ∧ (f a).result = .ok b := by
  cases h : x.result with
  | ok a => simp [bind_of_ok h]
  | error e => simp [bind_of_error h]

theorem mem_bind {d : δ} :
    d ∈ (x >>= f).deeds ↔ d ∈ x.deeds ∨ ∃ a, x.result = .ok a ∧ d ∈ (f a).deeds := by
  cases h : x.result with
  | ok a => simp [bind_of_ok h]
  | error e => simp [bind_of_error h]

/-- An order of deeds, part by part. -/
theorem precedes_bind {p q : δ → Prop} :
    Precedes p q (x >>= f).deeds ↔ Precedes p q x.deeds ∧
      ∀ a, x.result = .ok a → (∃ d ∈ x.deeds, p d) ∨ Precedes p q (f a).deeds := by
  cases h : x.result with
  | ok a => simp [bind_of_ok h, precedes_append]
  | error e => simp [bind_of_error h]

end Traced

end Flexd.Lib
