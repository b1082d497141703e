import Flexd.Security.RateLimit

/-!
# HTTP/2 connections

`serve_http2` gives every request a guard, which records a reset when it is
dropped before the response is there, and past the allowed rate wakes the
`select!` that serves the connection. `http2_limits` says for every run of a
connection which peers are cut off: none that never exceeds the rate, and
everyone who exceeds twice the rate. Requests that get their response do not
count.
-/

namespace Flexd

open Lib

/-- `http2_max_reset_rate`. -/
structure ResetRateLimit where
  count : Nat
  windowSeconds : Nat
  deriving DecidableEq

def defaultResetRate : ResetRateLimit := ⟨100, 10⟩

/-- The tracker of a connection, by what the block configures. -/
def ResetTracker.ofRate (rate : Option ResetRateLimit) : ResetTracker :=
  let rate := rate.getD defaultResetRate
  ⟨rate.count, rate.windowSeconds * 1000000000⟩

/-! ## Connections -/

inductive Http2Phase where
  /-- In the `select!`. -/
  | serving
  /-- After `graceful_shutdown`. -/
  | draining
  | closed
  deriving DecidableEq

structure Http2State where
  now : Nat
  tracker : WindowState
  /-- The `select!` has been notified. -/
  kill : Bool := false
  phase : Http2Phase := .serving
  /-- The requests whose futures are there. -/
  requests : List Nat := []

inductive Http2Action where
  /-- A stream is accepted, and the service called. -/
  | opens (id : Nat)
  /-- The handler returns: the guard is marked completed, and dropped. -/
  | completes (id : Nat)
  /-- The request's future is dropped before. -/
  | drops (id : Nat)
  /-- The `select!` is polled. -/
  | wakes
  /-- The connection ends. -/
  | ends

/-- An action, and the time that passes before it. -/
structure Http2Input where
  after : Nat
  action : Http2Action

inductive Http2Event where
  | opened (id : Nat)
  | completed (id : Nat)
  | reset (id at_ : Nat)
  deriving DecidableEq

namespace Http2State

def start (now : Nat) : Http2State := { now, tracker := ResetTracker.fresh now }

/-- `StreamDropGuard::drop`. Only a waiting `select!` is notified. -/
def dropGuard (r : ResetTracker) (s : Http2State) (id : Nat) (completed : Bool) : Http2State :=
  let s := { s with requests := s.requests.erase id }
  if completed then s
  else
    let (tracker, tooMany) := r.recordReset s.tracker s.now
    { s with tracker, kill := s.kill || (tooMany && s.phase = .serving) }

def act (r : ResetTracker) (s : Http2State) : Http2Action → Http2State × Option Http2Event
  | .opens id =>
    if s.phase ≠ .closed ∧ id ∉ s.requests then
      ({ s with requests := id :: s.requests }, some (.opened id))
    else (s, none)
  | .completes id =>
    if id ∈ s.requests then (s.dropGuard r id true, some (.completed id)) else (s, none)
  | .drops id =>
    if id ∈ s.requests then (s.dropGuard r id false, some (.reset id s.now)) else (s, none)
  | .wakes =>
    if s.phase = .serving ∧ s.kill = true then ({ s with phase := .draining }, none) else (s, none)
  | .ends => ({ s with phase := .closed }, none)

def machine (r : ResetTracker) : Machine Http2State Http2Input (Option Http2Event) where
  step s i := act r { s with now := s.now + i.after } i.action

end Http2State

/-- The times of the resets. -/
def resetTimes (es : List (Option Http2Event)) : List Nat :=
  es.filterMap fun
    | some (.reset _ t) => some t
    | _ => none

def openedCount (es : List (Option Http2Event)) : Nat :=
  es.countP fun
    | some (.opened _) => true
    | _ => false

def completedCount (es : List (Option Http2Event)) : Nat :=
  es.countP fun
    | some (.completed _) => true
    | _ => false

/-! ## Floods that are not missed -/

variable {r : ResetTracker} {started : Nat} {times : List Nat}

/-- No reset is signalled. -/
def ResetTracker.Silent (r : ResetTracker) (started : Nat) (times : List Nat) : Prop :=
  ∀ pre t post, times = pre ++ t :: post → ¬ r.Signals started pre t

/-- A signal means that more than `max` resets lie in the window that ends with it. -/
theorem flood_of_signals (hmono : (started :: times).Pairwise (· ≤ ·)) {pre post : List Nat}
    {t : Nat} (he : times = pre ++ t :: post) (hsignal : r.Signals started pre t) :
    r.max < times.countP (InWindow r.window t ·) := by
  subst he
  obtain ⟨hpre, hlast⟩ := pairwise_upTo hmono
  have h : Counts r started (pre ++ [t])
      (r.machine.run (ResetTracker.fresh started) (pre ++ [t])) :=
    counts_run hpre
  have hrecent := h.recent t (by simp)
  have hcount := (signals_iff hmono).mp hsignal
  rw [← h.start] at hcount
  refine Nat.lt_of_lt_of_le hcount (Nat.le_trans (List.countP_mono_left fun u hu hstart => ?_)
    (List.Sublist.countP_le (List.Sublist.append (List.Sublist.refl pre) (by simp))))
  have hle := of_decide_eq_true hstart
  exact decide_eq_true ⟨hlast u hu, by omega⟩

/-- The count since its last start is within the limit, if nothing is signalled. -/
theorem ResetTracker.Silent.count_le (h : r.Silent started times)
    (hmono : (started :: times).Pairwise (· ≤ ·)) {p post : List Nat} (he : times = p ++ post) :
    p.countP (windowStart r.window started p ≤ ·) ≤ r.max := by
  subst he
  rcases List.eq_nil_or_concat' p with rfl | ⟨pre, t, rfl⟩
  · exact Nat.zero_le _
  · rw [List.append_assoc, List.singleton_append] at hmono
    have hno := h pre t post (by simp)
    rw [signals_iff hmono] at hno
    exact Nat.le_of_not_lt hno

/-- The count has been started at the beginning, or anew by a reset more than a window after the
start before. -/
theorem windowStart_cases (window s : Nat) (p : List Nat) :
    windowStart window s p = s ∨ ∃ p₁ p₂, p = p₁ ++ windowStart window s p :: p₂ ∧
      window < windowStart window s p - windowStart window s p₁ := by
  induction p using List.reverseRecOn with
  | nil => exact .inl rfl
  | append_singleton p t ih =>
    have hlast : windowStart window s (p ++ [t]) =
        if window < t - windowStart window s p then t else windowStart window s p := by
      rw [windowStart_append]
      rfl
    rw [hlast]
    split
    · next hlate => exact .inr ⟨p, [], rfl, hlate⟩
    · rcases ih with h | ⟨p₁, p₂, he, hlate⟩
      · exact .inl h
      · exact .inr ⟨p₁, p₂ ++ [t], by rw [← List.cons_append, ← List.append_assoc, ← he], hlate⟩

theorem countP_le_add (P Q : Nat → Bool) (l : List Nat) :
    l.countP P ≤ l.countP Q + l.countP fun t => P t && !Q t := by
  induction l with
  | nil => exact Nat.le_refl 0
  | cons t l ih =>
    rw [List.countP_cons, List.countP_cons, List.countP_cons]
    cases P t <;> cases Q t <;> simp <;> omega

/-- **A flood of twice the limit is signalled**: one restart falls into a window at most, and
neither of the two counts exceeds the limit. -/
theorem flood_le_of_silent (hmono : (started :: times).Pairwise (· ≤ ·))
    (h : r.Silent started times) (b : Nat) :
    times.countP (InWindow r.window b ·) ≤ 2 * r.max := by
  obtain ⟨post, he, hpost⟩ := upTo_append (b := b) hmono.of_cons
  have hle : ∀ u ∈ upTo times b, u ≤ b := fun u hu => by simpa using (List.mem_filter.mp hu).2
  generalize upTo times b = p at he hle
  have hout : times.countP (InWindow r.window b ·) = p.countP (InWindow r.window b ·) := by
    have hzero : post.countP (InWindow r.window b ·) = 0 :=
      List.countP_eq_zero.mpr fun u hu hin => by
        have := hpost u hu
        have := (of_decide_eq_true hin).1
        omega
    rw [he, List.countP_append, hzero, Nat.add_zero]
  have hafter := h.count_le hmono he
  -- those of the window that are not counted since the last start
  have hbefore : p.countP (fun t => InWindow r.window b t &&
      !decide (windowStart r.window started p ≤ t)) ≤ r.max := by
    have hp_mono : (started :: p).Pairwise (· ≤ ·) := by
      rw [he, ← List.cons_append] at hmono
      exact (List.pairwise_append.mp hmono).1
    rcases windowStart_cases r.window started p with hs | ⟨p₁, p₂, hp, hlate⟩
    · have hzero : p.countP (fun t => InWindow r.window b t &&
          !decide (windowStart r.window started p ≤ t)) = 0 :=
        List.countP_eq_zero.mpr fun u hu => by
          have := (List.pairwise_cons.mp hp_mono).1 u hu
          simp [hs, this]
      omega
    · generalize windowStart r.window started p = s at hp hlate
      have hs : s ≤ b := hle s (by simp [hp])
      have hlater : ∀ u ∈ p₂, s ≤ u := by
        rw [hp] at hp_mono
        exact (List.pairwise_cons.mp (List.pairwise_append.mp hp_mono.of_cons).2.1).1
      have hfirst : p₁.countP (fun t => InWindow r.window b t && !decide (s ≤ t)) ≤
          p₁.countP (windowStart r.window started p₁ ≤ ·) :=
        List.countP_mono_left fun u _ hu => by
          simp only [Bool.and_eq_true, decide_eq_true_eq] at hu
          have := hu.1.2
          exact decide_eq_true (by omega)
      have hrest : (s :: p₂).countP (fun t => InWindow r.window b t && !decide (s ≤ t)) = 0 :=
        List.countP_eq_zero.mpr fun u hu => by
          have : s ≤ u := by
            rcases List.mem_cons.mp hu with rfl | hu
            · exact Nat.le_refl u
            · exact hlater u hu
          simp [this]
      have hcount : p₁.countP (windowStart r.window started p₁ ≤ ·) ≤ r.max :=
        h.count_le hmono (by rw [he, hp, List.append_assoc])
      rw [hp, List.countP_append, hrest, Nat.add_zero]
      exact Nat.le_trans hfirst hcount
  have hsplit := countP_le_add (InWindow r.window b ·) (windowStart r.window started p ≤ ·) p
  omega

theorem silent_concat {t : Nat} :
    r.Silent started (times ++ [t]) ↔ r.Silent started times ∧ ¬ r.Signals started times t := by
  constructor
  · intro h
    exact ⟨fun pre u post he => h pre u (post ++ [t]) (by rw [he]; simp), h times t [] rfl⟩
  · rintro ⟨h, ht⟩ pre u post he
    rcases List.eq_nil_or_concat' post with rfl | ⟨post, v, rfl⟩
    · obtain ⟨rfl, hlast⟩ := List.append_inj' he rfl
      cases hlast
      exact ht
    · rw [← List.cons_append, ← List.append_assoc] at he
      exact h pre u post (List.append_inj' he rfl).1

/-! ## Runs of a connection -/

/-- What a connection has recorded and counted after these events. -/
structure Http2Inv (r : ResetTracker) (started : Nat) (es : List (Option Http2Event))
    (s : Http2State) : Prop where
  mono : (started :: resetTimes es).Pairwise (· ≤ ·)
  past : ∀ t ∈ started :: resetTimes es, t ≤ s.now
  tracked : s.tracker = r.machine.run (ResetTracker.fresh started) (resetTimes es)
  killed : s.kill = true → ¬ r.Silent started (resetTimes es)
  silent : s.phase = .closed ∨ s.kill = true ∨ r.Silent started (resetTimes es)
  drained : s.phase = .draining → s.kill = true
  counted : openedCount es = completedCount es + (resetTimes es).length + s.requests.length

/-- An event that is no reset leaves the resets as they are. -/
theorem resetTimes_concat (es : List (Option Http2Event)) {o : Option Http2Event}
    (h : resetTimes [o] = []) : resetTimes (es ++ [o]) = resetTimes es := by
  show List.filterMap _ (es ++ [o]) = _
  rw [List.filterMap_append]
  show resetTimes es ++ resetTimes [o] = _
  rw [h, List.append_nil]

theorem Http2Inv.wait {es : List (Option Http2Event)} {s : Http2State} (h : Http2Inv r started es s)
    (after : Nat) : Http2Inv r started es { s with now := s.now + after } :=
  { h with past := fun t ht => Nat.le_trans (h.past t ht) (Nat.le_add_right _ _) }

/-- A step without a reset. -/
theorem Http2Inv.frame {es es' : List (Option Http2Event)} {s s' : Http2State}
    (h : Http2Inv r started es s) (hes : resetTimes es' = resetTimes es) (hnow : s'.now = s.now)
    (htracker : s'.tracker = s.tracker) (hkill : s'.kill = s.kill)
    (hphase : s'.phase = s.phase ∨ s'.phase = .closed ∨ s'.phase = .draining ∧ s.kill = true)
    (hcount : openedCount es' =
      completedCount es' + (resetTimes es').length + s'.requests.length) :
    Http2Inv r started es' s' := by
  refine ⟨hes ▸ h.mono, by rw [hes, hnow]; exact h.past, by rw [hes, htracker]; exact h.tracked,
    by rw [hes, hkill]; exact h.killed, ?_, ?_, hcount⟩
  · rw [hes, hkill]
    rcases hphase with he | he | ⟨-, he⟩
    · rw [he]
      exact h.silent
    · exact .inl he
    · exact .inr (.inl he)
  · rw [hkill]
    rcases hphase with he | he | ⟨-, he⟩
    · rw [he]
      exact h.drained
    · rw [he]
      exact nofun
    · exact fun _ => he

theorem openedCount_concat (es : List (Option Http2Event)) (o : Option Http2Event) :
    openedCount (es ++ [o]) = openedCount es + openedCount [o] := List.countP_append

theorem completedCount_concat (es : List (Option Http2Event)) (o : Option Http2Event) :
    completedCount (es ++ [o]) = completedCount es + completedCount [o] := List.countP_append

/-- Nothing happens. -/
theorem Http2Inv.quiet {es : List (Option Http2Event)} {s : Http2State}
    (h : Http2Inv r started es s) : Http2Inv r started (es ++ [none]) s := by
  refine h.frame (resetTimes_concat es rfl) rfl rfl rfl (.inl rfl) ?_
  rw [resetTimes_concat es rfl, openedCount_concat, completedCount_concat]
  exact h.counted

/-- A request's future is dropped before its response: the reset is recorded. -/
theorem Http2Inv.reset {es : List (Option Http2Event)} {s : Http2State}
    (h : Http2Inv r started es s) {id : Nat} (hid : id ∈ s.requests) :
    Http2Inv r started (es ++ [some (.reset id s.now)]) (s.dropGuard r id false) := by
  have htimes : resetTimes (es ++ [some (.reset id s.now)]) = resetTimes es ++ [s.now] := by
    simp [resetTimes]
  have hsignal : r.Signals started (resetTimes es) s.now ↔
      (r.recordReset s.tracker s.now).2 = true := by
    rw [h.tracked]
    rfl
  have hlen : (s.requests.erase id).length + 1 = s.requests.length := by
    have := List.length_pos_of_mem hid
    rw [List.length_erase_of_mem hid]
    omega
  refine ⟨?_, ?_, ?_, fun hkill => ?_, ?_, fun hd => ?_, ?_⟩
  · rw [htimes, ← List.cons_append, List.pairwise_append]
    exact ⟨h.mono, List.pairwise_singleton _ _, fun t ht u hu =>
      List.mem_singleton.mp hu ▸ h.past t ht⟩
  · intro t ht
    rw [htimes, ← List.cons_append, List.mem_append] at ht
    rcases ht with ht | ht
    · exact h.past t ht
    · exact Nat.le_of_eq (List.mem_singleton.mp ht)
  · rw [htimes, Machine.run_append, ← h.tracked]
    rfl
  · rw [htimes, silent_concat, hsignal]
    rintro ⟨hsilent, hno⟩
    rcases Bool.or_eq_true_iff.mp hkill with hk | hk
    · exact h.killed hk hsilent
    · exact hno (Bool.and_eq_true_iff.mp hk).1
  · rw [htimes, silent_concat, hsignal]
    show s.phase = .closed ∨ (s.kill || ((r.recordReset s.tracker s.now).2 &&
      decide (s.phase = .serving))) = true ∨ _
    rcases h.silent with hc | hk | hsilent
    · exact .inl hc
    · exact .inr (.inl (by rw [hk]; rfl))
    · cases hp : s.phase with
      | closed => exact .inl rfl
      | draining => exact .inr (.inl (by rw [h.drained hp]; rfl))
      | serving =>
        cases hs : (r.recordReset s.tracker s.now).2 with
        | true => exact .inr (.inl (by simp))
        | false => exact .inr (.inr ⟨hsilent, by simp⟩)
  · show (s.kill || _) = true
    rw [h.drained hd]
    rfl
  · rw [openedCount_concat, completedCount_concat, htimes, List.length_append]
    show openedCount es + 0 = completedCount es + 0 + _ + (s.requests.erase id).length
    have := h.counted
    rw [List.length_singleton]
    omega

theorem Http2Inv.act {es : List (Option Http2Event)} {s : Http2State} (h : Http2Inv r started es s)
    (a : Http2Action) : Http2Inv r started (es ++ [(s.act r a).2]) (s.act r a).1 := by
  cases a with
  | opens id =>
    simp only [Http2State.act]
    split
    · refine h.frame (resetTimes_concat es rfl) rfl rfl rfl (.inl rfl) ?_
      rw [resetTimes_concat es rfl, openedCount_concat, completedCount_concat]
      have := h.counted
      show openedCount es + 1 = completedCount es + 0 + _ + (s.requests.length + 1)
      omega
    · exact h.quiet
  | completes id =>
    simp only [Http2State.act]
    split
    · next hid =>
      refine h.frame (resetTimes_concat es rfl) rfl rfl rfl (.inl rfl) ?_
      rw [resetTimes_concat es rfl, openedCount_concat, completedCount_concat]
      have := h.counted
      have hpos := List.length_pos_of_mem hid
      show openedCount es + 0 = completedCount es + 1 + _ + (s.requests.erase id).length
      rw [List.length_erase_of_mem hid]
      omega
    · exact h.quiet
  | drops id =>
    simp only [Http2State.act]
    split
    · next hid => exact h.reset hid
    · exact h.quiet
  | wakes =>
    simp only [Http2State.act]
    split
    · next hw =>
      refine h.frame (resetTimes_concat es rfl) rfl rfl rfl (.inr (.inr ⟨rfl, hw.2⟩)) ?_
      rw [resetTimes_concat es rfl, openedCount_concat, completedCount_concat]
      exact h.counted
    · exact h.quiet
  | ends =>
    refine h.frame (resetTimes_concat es rfl) rfl rfl rfl (.inr (.inl rfl)) ?_
    rw [resetTimes_concat es rfl, openedCount_concat, completedCount_concat]
    exact h.counted

theorem http2Inv_run (r : ResetTracker) (started : Nat) (is : List Http2Input) :
    Http2Inv r started ((Http2State.machine r).outputs (.start started) is)
      ((Http2State.machine r).run (.start started) is) := by
  refine Machine.run_outputs_inv (I := fun _ => True) ?_ (fun es s i h _ => (h.wait i.after).act
    i.action) (by simp)
  exact ⟨List.pairwise_singleton _ _, fun t ht => Nat.le_of_eq (List.mem_singleton.mp ht), rfl,
    nofun, .inr (.inr (by simp [ResetTracker.Silent, resetTimes])), nofun, rfl⟩

/-- **Who is cut off**, in every run of a connection. It is told to shut down only if more than
the allowed number of requests were reset within one window, and it is told to if more than twice
as many were, unless it has ended by then. Only requests that are dropped before their response
count, and every request that is opened either gets its response, or counts once, or is there. -/
theorem http2_limits (rate : Option ResetRateLimit) (started : Nat) (is : List Http2Input) :
    let r := ResetTracker.ofRate rate
    let es := (Http2State.machine r).outputs (.start started) is
    let s := (Http2State.machine r).run (.start started) is
    (s.kill = true → ∃ b, r.max < (resetTimes es).countP (InWindow r.window b ·)) ∧
    ((∃ b, 2 * r.max < (resetTimes es).countP (InWindow r.window b ·)) →
      s.phase = .closed ∨ s.kill = true) ∧
    (s.phase = .draining → s.kill = true) ∧
    openedCount es = completedCount es + (resetTimes es).length + s.requests.length := by
  intro r es s
  have h : Http2Inv r started es s := http2Inv_run r started is
  refine ⟨fun hkill => ?_, ?_, h.drained, h.counted⟩
  · obtain ⟨pre, t, post, he, hsignal⟩ : ∃ pre t post,
        resetTimes es = pre ++ t :: post ∧ r.Signals started pre t := by
      by_contra hno
      refine h.killed hkill fun pre t post he hsignal => hno ⟨pre, t, post, he, hsignal⟩
    exact ⟨t, flood_of_signals h.mono he hsignal⟩
  · rintro ⟨b, hb⟩
    rcases h.silent with hc | hk | hsilent
    · exact .inl hc
    · exact .inr hk
    · exact absurd (flood_le_of_silent h.mono hsilent b) (Nat.not_le_of_lt hb)

end Flexd
