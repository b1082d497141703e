import Mathlib.Data.List.Basic
import Mathlib.Data.List.Induction

/-!
# Runs of a state machine with outputs

`Machine σ ι ω` steps a state on an input and emits an output. `run` is the
state after a list of inputs, `outputs` what was emitted on the way, and
`Reach M I s₀ s` says that inputs satisfying `I` lead from `s₀` to `s`.
`run_inv` and `Reach.inv` are the invariant rules, `run_outputs_inv` the one for
a state together with what was emitted on the way to it, and `run_simulates` the
rule for two machines in step. `forall_prefix_iff` turns safety along a run into
a condition on its steps; `forall_mem_outputs` turns a statement about every
output of a run into one about a step from the state its prefix reaches.
`run_refines` is for a machine whose every step is a few steps of another,
`outputs_unaffected` for one that only some inputs make take a step of another.
`run_rank` counts down to what a run is bound to reach, and `countP_le_budget`
what a run may still do.
-/

namespace Flexd.Lib

/-- A deterministic state machine with outputs. -/
structure Machine (σ ι ω : Type*) where
  step : σ → ι → σ × ω

namespace Machine

variable {σ ι ω : Type*}

/-- The state after the inputs. -/
def run (M : Machine σ ι ω) : σ → List ι → σ
  | s, [] => s
  | s, i :: is => M.run (M.step s i).1 is

/-- The outputs along the inputs. -/
def outputs (M : Machine σ ι ω) : σ → List ι → List ω
  | _, [] => []
  | s, i :: is => (M.step s i).2 :: M.outputs (M.step s i).1 is

variable {M : Machine σ ι ω}

theorem run_append (s : σ) (is js : List ι) : M.run s (is ++ js) = M.run (M.run s is) js := by
  induction is generalizing s with
  | nil => rfl
  | cons i is ih => exact ih _

theorem outputs_append (s : σ) (is js : List ι) :
    M.outputs s (is ++ js) = M.outputs s is ++ M.outputs (M.run s is) js := by
  induction is generalizing s with
  | nil => rfl
  | cons i is ih => exact congrArg (_ :: ·) (ih _)

/-- **The invariant rule over a run**: what holds at the start and is kept by every step holds after
any inputs. -/
theorem run_inv (Inv : σ → Prop) {s : σ} (h0 : Inv s)
    (hstep : ∀ s i, Inv s → Inv (M.step s i).1) (is : List ι) : Inv (M.run s is) := by
  induction is generalizing s with
  | nil => exact h0
  | cons i is ih => exact ih (hstep s i h0)

/-- **The simulation rule**: states that correspond keep corresponding when the second machine
takes the inputs of the first, translated, if they do over every step. -/
theorem run_simulates {τ κ υ : Type*} {N : Machine τ κ υ} {R : σ → τ → Prop} {f : ι → κ} {s : σ}
    {t : τ} (h0 : R s t) (hstep : ∀ s t i, R s t → R (M.step s i).1 (N.step t (f i)).1)
    (is : List ι) : R (M.run s is) (N.run t (is.map f)) := by
  induction is generalizing s t with
  | nil => exact h0
  | cons i is ih => exact ih (hstep s t i h0)

/-- **The refinement rule**: where every step is some steps of the second machine, seen through
`abs`, a whole run is a run of the second machine. -/
theorem run_refines {τ κ υ : Type*} {N : Machine τ κ υ} {abs : σ → τ} {J : σ → Prop}
    (hkeep : ∀ s i, J s → J (M.step s i).1)
    (hstep : ∀ s i, J s → ∃ js, abs (M.step s i).1 = N.run (abs s) js) {s : σ} (hJ : J s)
    (is : List ι) : ∃ js, abs (M.run s is) = N.run (abs s) js := by
  induction is generalizing s with
  | nil => exact ⟨[], rfl⟩
  | cons i is ih =>
    obtain ⟨js, hjs⟩ := hstep s i hJ
    obtain ⟨ks, hks⟩ := ih (hkeep s i hJ)
    refine ⟨js ++ ks, ?_⟩
    rw [run_append, ← hjs]
    exact hks

/-- **The rule of non-interference**: where the inputs that the second machine sees make both take
one step with one output, and the others change nothing that it has and show nothing, a run shows
the outputs of the second machine on what it sees. -/
theorem outputs_unaffected {τ κ υ : Type*} {N : Machine τ κ υ} (abs : σ → τ) {see : ι → Option κ}
    {out : ω → Option υ}
    (hseen : ∀ s i k, see i = some k → abs (M.step s i).1 = (N.step (abs s) k).1 ∧
      out (M.step s i).2 = some (N.step (abs s) k).2)
    (hunseen : ∀ s i, see i = none → abs (M.step s i).1 = abs s ∧ out (M.step s i).2 = none)
    (s : σ) (is : List ι) :
    (M.outputs s is).filterMap out = N.outputs (abs s) (is.filterMap see) := by
  induction is generalizing s with
  | nil => rfl
  | cons i is ih =>
    show ((M.step s i).2 :: M.outputs (M.step s i).1 is).filterMap out = _
    cases hi : see i with
    | none =>
      obtain ⟨habs, hout⟩ := hunseen s i hi
      rw [List.filterMap_cons_none hout, List.filterMap_cons_none hi, ih, habs]
    | some k =>
      obtain ⟨habs, hout⟩ := hseen s i k hi
      rw [List.filterMap_cons_some hout, List.filterMap_cons_some hi, ih, habs]
      rfl

/-- **The progress rule**: a rank that no step raises and every input of a kind lowers is at most
what the inputs of the kind leave of it. -/
theorem run_rank (rank : σ → Nat) (mine : ι → Bool) {J : σ → Prop}
    (hkeep : ∀ s i, J s → J (M.step s i).1)
    (hall : ∀ s i, J s → rank (M.step s i).1 ≤ rank s)
    (hmine : ∀ s i, J s → mine i = true → rank (M.step s i).1 ≤ rank s - 1) {s : σ} (hJ : J s)
    (is : List ι) : rank (M.run s is) ≤ rank s - is.countP mine := by
  induction is generalizing s with
  | nil => exact Nat.le_refl _
  | cons i is ih =>
    have hrest := ih (hkeep s i hJ)
    show rank (M.run (M.step s i).1 is) ≤ _
    rw [List.countP_cons]
    by_cases hi : mine i = true
    · have := hmine s i hJ hi
      rw [if_pos hi]
      omega
    · have := hall s i hJ
      rw [if_neg hi]
      omega

/-- **The budget rule**: where a step that does something of a kind takes one from a budget and no
step adds to it, a run does it at most as often as the budget says. -/
theorem countP_le_budget (budget : σ → Nat) (spends : ι → ω → Bool) {J : σ → Prop}
    (hkeep : ∀ s i, J s → J (M.step s i).1)
    (hstep : ∀ s i, J s →
      budget (M.step s i).1 + (if spends i (M.step s i).2 then 1 else 0) ≤ budget s)
    {s : σ} (hJ : J s) (is : List ι) :
    (is.zip (M.outputs s is)).countP (fun e => spends e.1 e.2) ≤ budget s := by
  induction is generalizing s with
  | nil => exact Nat.zero_le _
  | cons i is ih =>
    have hrest := ih (hkeep s i hJ)
    have hfirst := hstep s i hJ
    show ((i, (M.step s i).2) :: is.zip (M.outputs (M.step s i).1 is)).countP _ ≤ _
    rw [List.countP_cons]
    exact Nat.le_trans (Nat.add_le_add_right hrest _) hfirst

/-- **The invariant rule with history**: what holds of the initial state and no output, and is
kept by every step that adds its output, holds of every run. -/
theorem run_outputs_inv {J : List ω → σ → Prop} {I : ι → Prop} {s₀ : σ} (h0 : J [] s₀)
    (hstep : ∀ os s i, J os s → I i → J (os ++ [(M.step s i).2]) (M.step s i).1)
    {is : List ι} (his : ∀ i ∈ is, I i) : J (M.outputs s₀ is) (M.run s₀ is) := by
  induction is using List.reverseRecOn with
  | nil => exact h0
  | append_singleton is i ih =>
    rw [outputs_append, run_append]
    exact hstep _ _ i (ih fun j hj => his j (by simp [hj])) (his i (by simp))

/-- **Safety along a run, step by step**: where a step keeps `P` exactly when `C` holds of the
state before it and the input, `P` holds all along a run exactly when `C` does at every step. The
side condition `J` is kept by every step. -/
theorem forall_prefix_iff {P J : σ → Prop} {C : σ → ι → Prop} {s : σ} {is : List ι} (hP : P s)
    (hJ : J s) (hkeep : ∀ s i, J s → J (M.step s i).1)
    (hstep : ∀ s i, J s → P s → (P (M.step s i).1 ↔ C s i)) :
    (∀ pre, pre <+: is → P (M.run s pre)) ↔
      ∀ pre i post, is = pre ++ i :: post → C (M.run s pre) i := by
  induction is generalizing s with
  | nil =>
    constructor
    · intro _ pre i post e
      simp at e
    · intro _ pre hpre
      rw [List.prefix_nil.mp hpre]
      exact hP
  | cons j js ih =>
    constructor
    · intro h pre i post e
      have hj : P (M.step s j).1 := h [j] (List.cons_prefix_cons.mpr ⟨rfl, List.nil_prefix⟩)
      cases pre with
      | nil =>
        simp only [List.nil_append, List.cons.injEq] at e
        rw [← e.1]
        exact (hstep s j hJ hP).mp hj
      | cons k pre =>
        simp only [List.cons_append, List.cons.injEq] at e
        rw [← e.1]
        refine (ih hj (hkeep s j hJ)).mp ?_ pre i post e.2
        intro pre' hpre'
        exact h (j :: pre') (List.cons_prefix_cons.mpr ⟨rfl, hpre'⟩)
    · intro h pre hpre
      cases pre with
      | nil => exact hP
      | cons k pre =>
        obtain ⟨rfl, htail⟩ := List.cons_prefix_cons.mp hpre
        have hj : P (M.step s k).1 := (hstep s k hJ hP).mpr (h [] k js rfl)
        refine (ih hj (hkeep s k hJ)).mpr ?_ pre htail
        intro pre' i post e
        exact h (k :: pre') i post (by rw [e]; rfl)

/-- Every output of a run comes from a step at the state its prefix reaches. -/
theorem forall_mem_outputs {Q : ω → Prop} {s : σ} {is : List ι} :
    (∀ o ∈ M.outputs s is, Q o) ↔
      ∀ pre i post, is = pre ++ i :: post → Q (M.step (M.run s pre) i).2 := by
  induction is generalizing s with
  | nil => simp [outputs]
  | cons j js ih =>
    simp only [outputs, List.mem_cons, forall_eq_or_imp, ih]
    constructor
    · rintro ⟨h0, h⟩ pre i post e
      cases pre with
      | nil =>
        simp only [List.nil_append, List.cons.injEq] at e
        rw [← e.1]
        exact h0
      | cons k pre =>
        simp only [List.cons_append, List.cons.injEq] at e
        rw [← e.1]
        exact h pre i post e.2
    · intro h
      exact ⟨h [] j js rfl, fun pre i post e => h (j :: pre) i post (by rw [e]; rfl)⟩

/-- What every step says of its input and output, every run says of each pair of them. -/
theorem forall_mem_zip_outputs {Q : ι → ω → Prop} (hstep : ∀ s i, Q i (M.step s i).2) (s : σ)
    (is : List ι) : ∀ e ∈ is.zip (M.outputs s is), Q e.1 e.2 := by
  induction is generalizing s with
  | nil => nofun
  | cons i is ih =>
    intro e he
    rcases List.mem_cons.mp he with rfl | he
    · exact hstep s i
    · exact ih _ e he

/-- Inputs satisfying `I` lead from `s₀` to `s`. -/
def Reach (M : Machine σ ι ω) (I : ι → Prop) (s₀ s : σ) : Prop :=
  ∃ is, (∀ i ∈ is, I i) ∧ M.run s₀ is = s

variable {I : ι → Prop} {s₀ s : σ}

theorem Reach.refl : Reach M I s₀ s₀ := ⟨[], by simp, rfl⟩

theorem Reach.step {i : ι} (h : Reach M I s₀ s) (hi : I i) : Reach M I s₀ (M.step s i).1 := by
  obtain ⟨is, his, rfl⟩ := h
  refine ⟨is ++ [i], ?_, by rw [run_append]; rfl⟩
  intro j hj
  rcases List.mem_append.mp hj with hj | hj
  · exact his j hj
  · rw [List.mem_singleton.mp hj]
    exact hi

/-- **The invariant rule**: what holds at the start and is kept by every step holds in every
reachable state. -/
theorem Reach.inv {Inv : σ → Prop} (h : Reach M I s₀ s) (h0 : Inv s₀)
    (hstep : ∀ s i, Inv s → I i → Inv (M.step s i).1) : Inv s := by
  obtain ⟨is, his, rfl⟩ := h
  induction is generalizing s₀ with
  | nil => exact h0
  | cons i is ih =>
    exact ih (hstep s₀ i h0 (his i (by simp))) fun j hj => his j (by simp [hj])

end Machine

end Flexd.Lib
