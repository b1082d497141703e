import Flexd.Lib.Machine
import Mathlib.Data.Nat.Find
import Mathlib.Order.Bounds.Defs

/-!
# Rate limiting of HTTP/2 resets

`recordReset` counts the resets of a connection and signals when there are more
than `max`. It has one count and the time it was started at, and starts anew
with the first reset that comes more than a window later (`windowStart`).
Whatever it signals is a flood (`recordReset_sound`); a flood that such a
restart falls into may go unnoticed, and `floodsCaught_iff` says when.
-/

namespace Flexd

open Lib

/-- The state behind the lock. -/
structure WindowState where
  count : Nat
  started : Nat

/-- The limits of a tracker; times are in nanoseconds. -/
structure ResetTracker where
  max : Nat
  window : Nat

namespace ResetTracker

/-- `ResetTracker::new` at a time. -/
def fresh (now : Nat) : WindowState := ⟨0, now⟩

/-- Record a reset, and whether there are too many. -/
def recordReset (r : ResetTracker) (st : WindowState) (now : Nat) : WindowState × Bool :=
  let st := if r.window < now - st.started then ⟨0, now⟩ else st
  let st := { st with count := st.count + 1 }
  (st, r.max < st.count)

/-- A tracker, reset after reset. -/
def machine (r : ResetTracker) : Machine WindowState Nat Bool := ⟨r.recordReset⟩

/-- The reset at `t` is signalled after those at `pre`. -/
def Signals (r : ResetTracker) (started : Nat) (pre : List Nat) (t : Nat) : Prop :=
  (r.machine.step (r.machine.run (fresh started) pre) t).2 = true

end ResetTracker

/-- The start of the count after resets at these times. -/
def windowStart (window : Nat) (started : Nat) (times : List Nat) : Nat :=
  times.foldl (fun started t => if window < t - started then t else started) started

/-- A time in the interval of length `window` that ends at `b`. -/
def InWindow (window b t : Nat) : Prop := t ≤ b ∧ b ≤ t + window

instance (window b t : Nat) : Decidable (InWindow window b t) :=
  inferInstanceAs (Decidable (t ≤ b ∧ b ≤ t + window))

open ResetTracker

variable {r : ResetTracker} {started : Nat} {times : List Nat}

/-! ## The count -/

theorem windowStart_append (window s : Nat) (p q : List Nat) :
    windowStart window s (p ++ q) = windowStart window (windowStart window s p) q :=
  List.foldl_append

/-- Resets within the window do not start it anew. -/
theorem windowStart_eq_self {window s : Nat} {p : List Nat} (h : ∀ t ∈ p, t ≤ s + window) :
    windowStart window s p = s := by
  induction p with
  | nil => rfl
  | cons t p ih =>
    have ht : ¬window < t - s := by
      have := h t List.mem_cons_self
      omega
    show windowStart window (if window < t - s then t else s) p = s
    rw [if_neg ht]
    exact ih fun u hu => h u (List.mem_cons_of_mem t hu)

/-- After resets at `p` the count is that of the resets since its start, which are the ones since
the last restart. -/
structure Counts (r : ResetTracker) (started : Nat) (p : List Nat) (s : WindowState) : Prop where
  start : s.started = windowStart r.window started p
  mem : s.started ∈ started :: p
  recent : ∀ t ∈ p, t ≤ s.started + r.window
  count : s.count = p.countP (s.started ≤ ·)

/-- A reset after the window starts the count anew: all the others came before. -/
theorem Counts.restart {p : List Nat} {s : WindowState} (h : Counts r started p s) {t : Nat}
    (hp : ∀ u ∈ p, u ≤ t) (hlate : r.window < t - s.started) :
    Counts r started (p ++ [t]) ⟨1, t⟩ := by
  refine ⟨?_, by simp, fun u hu => ?_, ?_⟩
  · rw [windowStart_append, ← h.start]
    exact (if_pos hlate).symm
  · rcases List.mem_append.mp hu with hu | hu
    · exact Nat.le_trans (hp u hu) (Nat.le_add_right _ _)
    · rw [List.mem_singleton.mp hu]
      exact Nat.le_add_right _ _
  · have hzero : p.countP (t ≤ ·) = 0 := by
      refine List.countP_eq_zero.mpr fun u hu => ?_
      have := h.recent u hu
      simp only [decide_eq_true_eq]
      omega
    rw [List.countP_append, hzero]
    simp

/-- A reset within the window is counted. -/
theorem Counts.count_on {p : List Nat} {s : WindowState} (h : Counts r started p s) {t : Nat}
    (hle : s.started ≤ t) (hlate : ¬ r.window < t - s.started) :
    Counts r started (p ++ [t]) ⟨s.count + 1, s.started⟩ := by
  refine ⟨?_, ?_, fun u hu => ?_, ?_⟩
  · rw [windowStart_append, ← h.start]
    exact (if_neg hlate).symm
  · rcases List.mem_cons.mp h.mem with e | hm
    · exact List.mem_cons.mpr (.inl e)
    · exact List.mem_cons_of_mem _ (List.mem_append_left _ hm)
  · rcases List.mem_append.mp hu with hu | hu
    · exact h.recent u hu
    · rw [List.mem_singleton.mp hu]
      show t ≤ s.started + r.window
      omega
  · rw [List.countP_append, ← h.count, List.countP_singleton, if_pos (by simpa using hle)]

/-- **One reset**, not earlier than those before it. -/
theorem Counts.recordReset {p : List Nat} {s : WindowState} (h : Counts r started p s) {t : Nat}
    (hstart : started ≤ t) (hp : ∀ u ∈ p, u ≤ t) :
    Counts r started (p ++ [t]) (r.recordReset s t).1 := by
  by_cases hlate : r.window < t - s.started
  · have hstep : (r.recordReset s t).1 = ⟨1, t⟩ := by
      simp only [ResetTracker.recordReset, if_pos hlate]
    rw [hstep]
    exact h.restart hp hlate
  · have hstep : (r.recordReset s t).1 = ⟨s.count + 1, s.started⟩ := by
      simp only [ResetTracker.recordReset, if_neg hlate]
    have hle : s.started ≤ t := by
      rcases List.mem_cons.mp h.mem with e | hm
      · exact e ▸ hstart
      · exact hp _ hm
    rw [hstep]
    exact h.count_on hle hlate

/-- **A run** over resets in the order of their times. -/
theorem counts_run (hmono : (started :: times).Pairwise (· ≤ ·)) :
    Counts r started times (r.machine.run (fresh started) times) := by
  induction times using List.reverseRecOn with
  | nil => exact ⟨rfl, List.mem_cons_self, by simp, rfl⟩
  | append_singleton p t ih =>
    rw [← List.cons_append, List.pairwise_append] at hmono
    obtain ⟨hp, -, hlast⟩ := hmono
    rw [Machine.run_append]
    exact (ih hp).recordReset (hlast _ List.mem_cons_self t (by simp))
      fun u hu => hlast u (List.mem_cons_of_mem _ hu) t (by simp)

/-- Up to a reset, the times are in order, and it is the last of them. -/
theorem pairwise_upTo {pre post : List Nat} {t : Nat}
    (hmono : (started :: (pre ++ t :: post)).Pairwise (· ≤ ·)) :
    (started :: (pre ++ [t])).Pairwise (· ≤ ·) ∧ ∀ u ∈ pre ++ [t], u ≤ t := by
  have hsub : (started :: (pre ++ [t])).Sublist (started :: (pre ++ t :: post)) :=
    List.Sublist.cons_cons _ (List.Sublist.append (List.Sublist.refl _) (by simp))
  refine ⟨hmono.sublist hsub, fun u hu => ?_⟩
  rcases List.mem_append.mp hu with hu | hu
  · exact (List.pairwise_append.mp hmono.of_cons).2.2 u hu t List.mem_cons_self
  · exact Nat.le_of_eq (List.mem_singleton.mp hu)

/-- A reset is signalled when more than `max` resets have come since the start of the count. -/
theorem signals_iff {pre post : List Nat} {t : Nat}
    (hmono : (started :: (pre ++ t :: post)).Pairwise (· ≤ ·)) :
    r.Signals started pre t ↔
      r.max < (pre ++ [t]).countP (windowStart r.window started (pre ++ [t]) ≤ ·) := by
  have h : Counts r started (pre ++ [t]) (r.machine.run (fresh started) (pre ++ [t])) :=
    counts_run (pairwise_upTo hmono).1
  rw [← h.start, ← h.count, Machine.run_append]
  exact decide_eq_true_iff

/-- **Only floods are signalled**: on a reset that is signalled, more than `max` resets lie in the
window that ends with it. -/
theorem recordReset_sound (hmono : (started :: times).Pairwise (· ≤ ·)) :
    ∀ pre t post, times = pre ++ t :: post → r.Signals started pre t →
      r.max < (pre ++ [t]).countP (InWindow r.window t ·) := by
  rintro pre t post rfl hsignal
  obtain ⟨hpre, hlast⟩ := pairwise_upTo hmono
  have h : Counts r started (pre ++ [t]) (r.machine.run (fresh started) (pre ++ [t])) :=
    counts_run hpre
  refine Nat.lt_of_lt_of_le ((signals_iff hmono).mp hsignal) ?_
  rw [← h.start]
  refine List.countP_mono_left fun u hu hstart => ?_
  have ht : t ≤ (r.machine.run (fresh started) (pre ++ [t])).started + r.window :=
    h.recent t (by simp)
  have hs : (r.machine.run (fresh started) (pre ++ [t])).started ≤ u := by simpa using hstart
  exact decide_eq_true ⟨hlast u hu, by omega⟩

/-! ## Floods -/

/-- More than `max` resets lie in the interval of length `window` that ends at `b`. -/
def ResetTracker.Flood (r : ResetTracker) (times : List Nat) (b : Nat) : Prop :=
  r.max < times.countP (InWindow r.window b ·)

/-- Every flood has been signalled by the last of its resets. -/
def ResetTracker.FloodsCaught (r : ResetTracker) (started : Nat) (times : List Nat) : Prop :=
  ∀ b, r.Flood times b →
    ∃ pre t post, times = pre ++ t :: post ∧ t ≤ b ∧ r.Signals started pre t

/-- The resets up to a time. -/
def upTo (times : List Nat) (b : Nat) : List Nat := times.filter (· ≤ b)

/-- Resets in order come up to a time and then after it. -/
theorem upTo_append {b : Nat} (hmono : times.Pairwise (· ≤ ·)) :
    ∃ post, times = upTo times b ++ post ∧ ∀ t ∈ post, b < t := by
  induction times with
  | nil => exact ⟨[], rfl, by simp⟩
  | cons t ts ih =>
    obtain ⟨hfirst, hts⟩ := List.pairwise_cons.mp hmono
    by_cases ht : t ≤ b
    · obtain ⟨post, he, hpost⟩ := ih hts
      refine ⟨post, ?_, hpost⟩
      rw [upTo, List.filter_cons_of_pos (by simpa using ht), List.cons_append]
      exact congrArg (t :: ·) he
    · have hall : ∀ u ∈ t :: ts, b < u := by
        intro u hu
        rcases List.mem_cons.mp hu with rfl | hu
        · omega
        · have := hfirst u hu
          omega
      have hnil : upTo (t :: ts) b = [] := by
        refine List.filter_eq_nil_iff.mpr fun u hu => ?_
        have := hall u hu
        simpa using this
      exact ⟨t :: ts, by rw [hnil, List.nil_append], hall⟩

/-- A flood that is signalled is signalled when it begins, from the resets since the last start of
the count. -/
theorem first_flood_counted (hmono : (started :: times).Pairwise (· ≤ ·)) {b : Nat}
    (hcaught : r.FloodsCaught started times) (hb : IsLeast {b | r.Flood times b} b) :
    r.max < (upTo times b).countP (windowStart r.window started (upTo times b) ≤ ·) := by
  obtain ⟨pre, t, post, rfl, htb, hsignal⟩ := hcaught b hb.1
  -- a signal is a flood, and this is the first one
  have hflood : r.Flood (pre ++ t :: post) t := by
    refine Nat.lt_of_lt_of_le (recordReset_sound hmono pre t post rfl hsignal) ?_
    exact List.Sublist.countP_le (List.Sublist.append (List.Sublist.refl _) (by simp))
  obtain rfl : t = b := Nat.le_antisymm htb (hb.2 hflood)
  obtain ⟨hpre, hlast⟩ := pairwise_upTo hmono
  -- what else comes up to now comes now
  obtain ⟨rest, hrest⟩ : ∃ rest, upTo (pre ++ t :: post) t = (pre ++ [t]) ++ rest := by
    have hkeep : (pre ++ [t]).filter (· ≤ t) = pre ++ [t] :=
      List.filter_eq_self.mpr fun u hu => by simpa using hlast u hu
    refine ⟨post.filter (· ≤ t), ?_⟩
    rw [upTo, List.append_cons, List.filter_append, hkeep]
  have hties : ∀ u ∈ rest, u ≤ t := by
    intro u hu
    have hmem : u ∈ upTo (pre ++ t :: post) t := by
      rw [hrest]
      exact List.mem_append_right _ hu
    simpa using (List.mem_filter.mp hmem).2
  have h : Counts r started (pre ++ [t]) (r.machine.run (fresh started) (pre ++ [t])) :=
    counts_run hpre
  have hstart : windowStart r.window started (upTo (pre ++ t :: post) t) =
      windowStart r.window started (pre ++ [t]) := by
    rw [hrest, windowStart_append]
    refine windowStart_eq_self fun u hu => ?_
    rw [← h.start]
    exact Nat.le_trans (hties u hu) (h.recent t (by simp))
  rw [hstart, hrest]
  refine Nat.lt_of_lt_of_le ((signals_iff hmono).mp hsignal) ?_
  exact List.Sublist.countP_le (List.sublist_append_left _ _)

/-- **Floods are caught** exactly when, at the first moment that more than `max` resets lie within
one window, more than `max` resets have come since the last restart of the count. -/
theorem floodsCaught_iff (hmono : (started :: times).Pairwise (· ≤ ·)) :
    r.FloodsCaught started times ↔
      ∀ b, IsLeast {b | r.Flood times b} b →
        r.max < (upTo times b).countP (windowStart r.window started (upTo times b) ≤ ·) := by
  refine ⟨fun hcaught b hb => first_flood_counted hmono hcaught hb, fun hfirst b hb => ?_⟩
  classical
  have hex : ∃ b, r.Flood times b := ⟨b, hb⟩
  have hleast : IsLeast {b | r.Flood times b} (Nat.find hex) :=
    ⟨Nat.find_spec hex, fun c hc => Nat.find_min' hex hc⟩
  have hcount := hfirst _ hleast
  have hle : Nat.find hex ≤ b := Nat.find_min' hex hb
  generalize Nat.find hex = b₀ at hcount hle
  obtain ⟨post, he, -⟩ := upTo_append (b := b₀) hmono.of_cons
  rcases List.eq_nil_or_concat (upTo times b₀) with hnil | ⟨pre, t, hlast⟩
  · rw [hnil] at hcount
    cases hcount
  · have ht : t ≤ b₀ := by
      have hmem : t ∈ upTo times b₀ := by rw [hlast]; simp
      simpa using (List.mem_filter.mp hmem).2
    rw [hlast] at hcount
    have hsplit : times = pre ++ t :: post := by
      rw [he, hlast]
      simp
    refine ⟨pre, t, post, hsplit, Nat.le_trans ht hle, ?_⟩
    rw [hsplit] at hmono
    rw [signals_iff hmono]
    simpa using hcount

namespace Sample

/-- Two resets in ten seconds are allowed. -/
def twoInTen : ResetTracker := ⟨2, 10000000000⟩

/-- A time in seconds. -/
def seconds (n : Nat) : Nat := n * 1000000000

/-- Four resets within three seconds, on both sides of a restart. -/
def straddling : List Nat := [seconds 9, seconds 10, seconds 11, seconds 12]

/-- Four resets within three seconds, from the start on. -/
def burst : List Nat := [seconds 1, seconds 2, seconds 3, seconds 4]

end Sample

open Sample

theorem recordReset_sound_burst :
    (0 :: burst).Pairwise (· ≤ ·) ∧ twoInTen.Signals 0 [seconds 1, seconds 2] (seconds 3) ∧
      2 < ([seconds 1, seconds 2] ++ [seconds 3]).countP
        (InWindow twoInTen.window (seconds 3) ·) := by
  have hmono : (0 :: burst).Pairwise (· ≤ ·) := by decide
  have hsignal : twoInTen.Signals 0 [seconds 1, seconds 2] (seconds 3) := by
    show _ = _
    decide
  exact ⟨hmono, hsignal, recordReset_sound hmono _ _ [seconds 4] rfl hsignal⟩

theorem floodsCaught_iff_straddling :
    (0 :: straddling).Pairwise (· ≤ ·) ∧
      (twoInTen.FloodsCaught 0 straddling ↔
        ∀ b, IsLeast {b | twoInTen.Flood straddling b} b →
          2 < (upTo straddling b).countP
            (windowStart twoInTen.window 0 (upTo straddling b) ≤ ·)) :=
  have hmono : (0 :: straddling).Pairwise (· ≤ ·) := by decide
  ⟨hmono, floodsCaught_iff hmono⟩

/-- A restart between the second and the third of four resets hides the flood. -/
theorem straddling_flood_missed :
    ¬ ∀ (r : ResetTracker) (started : Nat) (times : List Nat),
      (started :: times).Pairwise (· ≤ ·) → r.FloodsCaught started times := by
  intro h
  have hflood : twoInTen.Flood straddling (seconds 12) := by
    show _ < _
    decide
  obtain ⟨pre, t, post, he, -, hsignal⟩ :=
    h twoInTen 0 straddling (by decide) (seconds 12) hflood
  have hnone : ∀ o ∈ twoInTen.machine.outputs (fresh 0) straddling, o = false := by decide
  have := Machine.forall_mem_outputs.mp hnone pre t post he
  rw [Signals, this] at hsignal
  cases hsignal

end Flexd
