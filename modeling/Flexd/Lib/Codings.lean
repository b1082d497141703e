import Mathlib.Data.List.TakeWhile
import Mathlib.Logic.Function.Iterate
import Mathlib.Logic.Nontrivial.Defs

/-!
# Layers of codings

A text is wrapped in layers of codings, and `unwrap` undoes them one after the
other, from the outside in. Each decoder is partial. Where only one of the
decoders is known, `unwrap_determined_iff` says when the layers alone determine
what is inside.
-/

namespace Flexd.Lib

variable {C B : Type*}

/-- Undo the layers, the outermost first. -/
def unwrap (dec : C → B → Option B) : List C → B → Option B
  | [], b => some b
  | c :: cs, b => (dec c b).bind (unwrap dec cs)

/-- One decoder a number of times. -/
def decodeTimes (d : B → Option B) : Nat → B → Option B
  | 0, b => some b
  | n + 1, b => (d b).bind (decodeTimes d n)

variable [DecidableEq C] {dec : C → B → Option B} {d : B → Option B} {g : C}

/-- The layers up to the first other coding come off first. -/
theorem unwrap_eq_bind (hg : dec g = d) (cs : List C) (b : B) :
    unwrap dec cs b =
      (decodeTimes d (cs.takeWhile (· = g)).length b).bind
        (unwrap dec (cs.dropWhile (· = g))) := by
  induction cs generalizing b with
  | nil => rfl
  | cons c cs ih =>
    by_cases hc : c = g
    · subst hc
      rw [List.takeWhile_cons_of_pos (by simp), List.dropWhile_cons_of_pos (by simp), unwrap,
        List.length_cons, decodeTimes, hg, Option.bind_assoc]
      exact Option.bind_congr fun b' _ => ih b'
    · rw [List.takeWhile_cons_of_neg (by simpa using hc),
        List.dropWhile_cons_of_neg (by simpa using hc)]
      rfl

/-- What is wrapped often enough, and put back in place of every other layer, comes out wrapped a
number of times that the layers tell. -/
theorem unwrap_iterate {e : B → B} (he : ∀ x, d (e x) = some x) (N : Nat) :
    ∀ (cs : List C) (n : Nat), cs.length ≤ n → cs.length ≤ N → ∃ m, ∀ w,
      unwrap (fun c => if c = g then d else fun _ => some (e^[N] w)) cs (e^[n] w) =
        some (e^[m] w) := by
  intro cs
  induction cs with
  | nil => exact fun n _ _ => ⟨n, fun _ => rfl⟩
  | cons c cs ih =>
    intro n hn hN
    rw [List.length_cons] at hn hN
    by_cases hc : c = g
    · obtain ⟨k, rfl⟩ := Nat.exists_eq_succ_of_ne_zero (Nat.ne_of_gt (Nat.lt_of_lt_of_le
        (Nat.succ_pos _) hn))
      obtain ⟨m, hm⟩ := ih k (by omega) (by omega)
      refine ⟨m, fun w => ?_⟩
      rw [unwrap, if_pos hc, Function.iterate_succ_apply', he, Option.bind_some]
      exact hm w
    · obtain ⟨m, hm⟩ := ih N (by omega) (by omega)
      refine ⟨m, fun w => ?_⟩
      rw [unwrap, if_neg hc, Option.bind_some]
      exact hm w

theorem ne_of_dropWhile_eq_cons {cs rest : List C} {c : C}
    (h : cs.dropWhile (· = g) = c :: rest) : c ≠ g := by
  have hhead := List.head?_dropWhile_not (fun c => decide (c = g)) cs
  rw [h] at hhead
  simpa using hhead

/-- Under another coding there can be two texts, of which one does not lead to `out`. -/
theorem exists_unwrap_ne [Nontrivial B] (hsurj : ∀ x, ∃ b, d b = some x) {cs rest : List C} {c : C}
    (hrest : cs.dropWhile (· = g) = c :: rest) {b y : B}
    (hpeel : decodeTimes d (cs.takeWhile (· = g)).length b = some y) (out : B) :
    ∃ dec : C → B → Option B, dec g = d ∧ ∃ x, unwrap dec cs b = some x ∧ x ≠ out := by
  obtain ⟨e, he⟩ := Classical.skolem.mp hsurj
  have hinj : Function.Injective e := by
    intro x y hxy
    rw [← Option.some_inj, ← he x, hxy, he]
  obtain ⟨m, hm⟩ := unwrap_iterate (g := g) he rest.length rest rest.length
    (Nat.le_refl _) (Nat.le_refl _)
  obtain ⟨w, hw⟩ : ∃ w, e^[m] w ≠ out := by
    obtain ⟨w, w', hne⟩ := exists_pair_ne B
    by_cases h : e^[m] w = out
    · exact ⟨w', fun h' => hne (hinj.iterate m (h.trans h'.symm))⟩
    · exact ⟨w, h⟩
  refine ⟨fun c => if c = g then d else fun _ => some (e^[rest.length] w), if_pos rfl, _, ?_, hw⟩
  rw [unwrap_eq_bind (g := g) (if_pos rfl), hpeel, hrest, Option.bind_some, unwrap,
    if_neg (ne_of_dropWhile_eq_cons hrest), Option.bind_some]
  exact hm w

/-- **What the layers determine**: whatever the decoders of the other codings, nothing but `out` is
inside, exactly when the outer layers of the known coding do not come off, or there are no others
and `out` is inside these. -/
theorem unwrap_determined_iff [Nontrivial B] (hsurj : ∀ x, ∃ b, d b = some x) (cs : List C)
    (b out : B) :
    (∀ dec : C → B → Option B, dec g = d → ∀ x, unwrap dec cs b = some x → x = out) ↔
      decodeTimes d (cs.takeWhile (· = g)).length b = none ∨
        (∀ c ∈ cs, c = g) ∧ decodeTimes d (cs.takeWhile (· = g)).length b = some out := by
  constructor
  · intro h
    cases hpeel : decodeTimes d (cs.takeWhile (· = g)).length b with
    | none => exact .inl rfl
    | some y =>
      right
      cases hrest : cs.dropWhile (· = g) with
      | nil =>
        have hall : ∀ c ∈ cs, c = g := by simpa using hrest
        refine ⟨hall, congrArg some (h (fun _ => d) rfl y ?_)⟩
        rw [unwrap_eq_bind rfl, hpeel, hrest]
        rfl
      | cons c rest =>
        obtain ⟨dec, hdec, x, hx, hne⟩ := exists_unwrap_ne hsurj hrest hpeel out
        exact absurd (h dec hdec x hx) hne
  · rintro (hnone | ⟨hall, hsome⟩) dec hg x hx
    · rw [unwrap_eq_bind hg, hnone] at hx
      cases hx
    · have hrest : cs.dropWhile (· = g) = [] := by simpa using hall
      rw [unwrap_eq_bind hg, hsome, hrest] at hx
      cases hx
      rfl

end Flexd.Lib
