import Flexd.Lib.Machine

/-!
# The connection cap

One counter is shared by every accept loop and every connection task. A loop
that takes a slot adds to it, and a loop that finds the cap reached takes its
addition back in a second step; a task gives its slot back when its guard is
dropped. The steps are the single atomic operations, in any order.
`connections_capped` says what holds in every state they lead to.
-/

namespace Flexd

open Lib

/-- `MAX_CONNECTIONS`. -/
def maxConnections : UInt64 := 10000

/-- The most elements a vector of listeners can have. -/
def isizeMax : Nat := 9223372036854775807

/-- How many accept loops a server has. -/
structure LoopCount where
  n : Nat
  le : n ≤ isizeMax

/-- Where an accept loop is in `acquire_connection`. -/
inductive Acquiring where
  | idle
  /-- Its `fetch_add` found the cap reached; the addition is still to be undone. -/
  | refusing
  deriving DecidableEq

/-- A connection task, up to the drop of its `ConnectionGuard` and after it. -/
inductive ConnectionTask where
  | serving
  | dropped
  deriving DecidableEq

/-- An operation on the counter, with the value it found. -/
inductive AtomicOp where
  | fetchAdd (prev : UInt64)
  | fetchSub (prev : UInt64)
  | none
  deriving DecidableEq

structure LimitState where
  activeConnections : UInt64
  loops : List Acquiring
  tasks : List ConnectionTask

inductive LimitStep where
  /-- A loop accepts a connection and calls `acquire_connection`. -/
  | acquire (loop : Nat)
  /-- A loop that was refused undoes its addition and goes on. -/
  | undo (loop : Nat)
  /-- A task ends, which drops its guard. -/
  | release (task : Nat)

namespace LimitState

def init (loops : LoopCount) : LimitState := ⟨0, List.replicate loops.n .idle, []⟩

/-- The connections that hold a slot. -/
def held (s : LimitState) : Nat := s.tasks.count .serving

/-- The refused acquisitions that have not undone their addition. -/
def pending (s : LimitState) : Nat := s.loops.count .refusing

def step (s : LimitState) : LimitStep → LimitState × AtomicOp
  | .acquire i =>
    if s.loops[i]? = some .idle then
      let prev := s.activeConnections
      if maxConnections ≤ prev then
        (⟨prev + 1, s.loops.set i .refusing, s.tasks⟩, .fetchAdd prev)
      else (⟨prev + 1, s.loops, s.tasks ++ [.serving]⟩, .fetchAdd prev)
    else (s, .none)
  | .undo i =>
    if s.loops[i]? = some .refusing then
      let prev := s.activeConnections
      (⟨prev - 1, s.loops.set i .idle, s.tasks⟩, .fetchSub prev)
    else (s, .none)
  | .release j =>
    if s.tasks[j]? = some .serving then
      let prev := s.activeConnections
      (⟨prev - 1, s.loops, s.tasks.set j .dropped⟩, .fetchSub prev)
    else (s, .none)

def machine : Machine LimitState LimitStep AtomicOp := ⟨step⟩

end LimitState

/-! ## The invariant -/

/-- The counter is what is held and what is pending; no slot is held beyond the cap. -/
structure LimitInv (loops : LoopCount) (s : LimitState) : Prop where
  loops_length : s.loops.length = loops.n
  counter : s.activeConnections.toNat = s.held + s.pending
  capped : s.held ≤ maxConnections.toNat

variable {loops : LoopCount} {s : LimitState}

theorem limitInv_init (loops : LoopCount) : LimitInv loops (.init loops) where
  loops_length := List.length_replicate
  counter := by simp [LimitState.init, LimitState.held, LimitState.pending, List.count_replicate]
  capped := Nat.zero_le _

theorem count_set_of_getElem? {α : Type*} [DecidableEq α] {l : List α} {i : Nat} {a b : α}
    (h : l[i]? = some a) (hne : a ≠ b) :
    (l.set i b).count b = l.count b + 1 ∧ (l.set i b).count a + 1 = l.count a := by
  obtain ⟨hi, hget⟩ := List.getElem?_eq_some_iff.mp h
  have hmem : 0 < l.count a := List.count_pos_iff.mpr (hget ▸ List.getElem_mem hi)
  rw [List.count_set hi, List.count_set hi, hget]
  simp only [beq_self_eq_true, if_true, beq_iff_eq, hne, Ne.symm hne, if_false]
  omega

/-- The counter is far from the end of its type. -/
theorem LimitInv.counter_lt (h : LimitInv loops s) :
    s.activeConnections.toNat + 1 < UInt64.size := by
  have hpend : s.pending ≤ s.loops.length := List.count_le_length
  have hcap := h.capped
  have hn := loops.le
  have hmax : maxConnections.toNat = 10000 := rfl
  rw [h.counter]
  rw [h.loops_length] at hpend
  simp only [isizeMax] at hn
  simp only [UInt64.size]
  omega

/-- An addition for one more slot or one more refusal. -/
theorem LimitInv.added (h : LimitInv loops s) {ls : List Acquiring} {ts : List ConnectionTask}
    (hlen : ls.length = s.loops.length)
    (hone : ts.count .serving + ls.count .refusing = s.held + s.pending + 1)
    (hcap : ts.count .serving ≤ maxConnections.toNat) :
    LimitInv loops ⟨s.activeConnections + 1, ls, ts⟩ where
  loops_length := hlen.trans h.loops_length
  counter := by
    have hadd : (s.activeConnections + 1).toNat = s.activeConnections.toNat + 1 :=
      (UInt64.toNat_add _ _).trans (Nat.mod_eq_of_lt h.counter_lt)
    exact hadd.trans ((congrArg (· + 1) h.counter).trans hone.symm)
  capped := hcap

/-- A subtraction for a slot or a refusal that is over finds the addition made for it. -/
theorem LimitInv.removed (h : LimitInv loops s) {ls : List Acquiring} {ts : List ConnectionTask}
    (hlen : ls.length = s.loops.length)
    (hone : ts.count .serving + ls.count .refusing + 1 = s.held + s.pending)
    (hcap : ts.count .serving ≤ s.held) :
    LimitInv loops ⟨s.activeConnections - 1, ls, ts⟩ ∧ 0 < s.activeConnections.toNat := by
  have hcounter : s.activeConnections.toNat = ts.count .serving + ls.count .refusing + 1 :=
    h.counter.trans hone.symm
  have hpos : 0 < s.activeConnections.toNat := by omega
  have hsub : (s.activeConnections - 1).toNat = s.activeConnections.toNat - 1 :=
    UInt64.toNat_sub_of_le _ 1 (UInt64.le_iff_toNat_le.mpr hpos)
  refine ⟨⟨hlen.trans h.loops_length, ?_, Nat.le_trans hcap h.capped⟩, hpos⟩
  rw [hsub, hcounter]
  rfl

/-- **One operation** keeps the invariant, and a subtraction finds something to take away. -/
theorem LimitInv.step (h : LimitInv loops s) (i : LimitStep) :
    LimitInv loops (s.step i).1 ∧ ∀ prev, (s.step i).2 = .fetchSub prev → 0 < prev.toNat := by
  cases i with
  | acquire i =>
    simp only [LimitState.step]
    split
    · next hi =>
      split
      · next hmax =>
        obtain ⟨hcount, -⟩ := count_set_of_getElem? hi (b := .refusing) (by decide)
        refine ⟨h.added (List.length_set ..) ?_ h.capped, nofun⟩
        rw [hcount]
        rfl
      · next hmax =>
        -- below the cap, as the counter is at least what is held
        have hlt : s.held + s.pending < maxConnections.toNat := by
          rw [← h.counter]
          simpa [UInt64.le_iff_toNat_le] using hmax
        have hone : (s.tasks ++ [ConnectionTask.serving]).count .serving = s.held + 1 := by
          rw [List.count_append, List.count_singleton_self, LimitState.held]
        refine ⟨h.added rfl ?_ ?_, nofun⟩
        · rw [hone, LimitState.pending]
          omega
        · rw [hone]
          omega
    · exact ⟨h, nofun⟩
  | undo i =>
    simp only [LimitState.step]
    split
    · next hi =>
      obtain ⟨-, hcount⟩ := count_set_of_getElem? hi (b := .idle) (by decide)
      have hone : s.tasks.count .serving + (s.loops.set i .idle).count .refusing + 1 =
          s.held + s.pending := congrArg (s.held + ·) hcount
      obtain ⟨hinv, hpos⟩ := h.removed (List.length_set ..) hone (Nat.le_refl _)
      exact ⟨hinv, by rintro prev ⟨⟩; exact hpos⟩
    · exact ⟨h, nofun⟩
  | release j =>
    simp only [LimitState.step]
    split
    · next hj =>
      obtain ⟨-, hcount⟩ := count_set_of_getElem? hj (b := .dropped) (by decide)
      have hone : (s.tasks.set j .dropped).count .serving + s.loops.count .refusing + 1 =
          s.held + s.pending := by
        rw [LimitState.held, LimitState.pending, ← hcount]
        omega
      obtain ⟨hinv, hpos⟩ := h.removed rfl hone (Nat.le.intro hcount)
      exact ⟨hinv, by rintro prev ⟨⟩; exact hpos⟩
    · exact ⟨h, nofun⟩

theorem limitInv_run (loops : LoopCount) (is : List LimitStep) :
    LimitInv loops (LimitState.machine.run (.init loops) is) :=
  Machine.run_inv (LimitInv loops) (limitInv_init loops) (fun _ i h => (h.step i).1) is

/-- **The cap holds under every interleaving**: the slots held never exceed it, the counter is the
slots held and the additions to be undone, no subtraction finds the counter at 0, and when no loop
is in the middle of an acquisition the counter is the slots held. -/
theorem connections_capped (loops : LoopCount) (is : List LimitStep) :
    let s := LimitState.machine.run (.init loops) is
    s.held ≤ maxConnections.toNat ∧ s.activeConnections.toNat = s.held + s.pending ∧
      (∀ prev, .fetchSub prev ∈ LimitState.machine.outputs (.init loops) is → 0 < prev.toNat) ∧
      ((∀ l ∈ s.loops, l = .idle) → s.activeConnections.toNat = s.held) := by
  intro s
  have h := limitInv_run loops is
  refine ⟨h.capped, h.counter, ?_, ?_⟩
  · intro prev hprev
    have hall : ∀ o ∈ LimitState.machine.outputs (.init loops) is,
        ∀ prev, o = .fetchSub prev → 0 < prev.toNat := by
      rw [Machine.forall_mem_outputs]
      intro pre i post _
      exact ((limitInv_run loops pre).step i).2
    exact hall _ hprev prev rfl
  · intro hidle
    have hpend : s.pending = 0 := by
      refine List.count_eq_zero.mpr fun hm => ?_
      cases hidle _ hm
    rw [h.counter, hpend, Nat.add_zero]

end Flexd
