import Flexd.Server.Daemon

/-!
# Shutting down

A SIGTERM or SIGINT is one message on the shutdown channel, for which every
task has subscribed before the signal handler could send it. `ShutInv` says so
of every reachable state. Once it is sent a task accepts at most what it was
already polling for (`last_accept_after_terminate`), and stops within four steps
of its own, however the steps of the tasks interleave (`stops_after_terminate`).
-/

namespace Flexd

open Lib

variable {ext : External} {s : DaemonState}

/-- Every receiver waits for the first shutdown, and there is one once the handler has passed it
on. -/
structure ShutInv (s : DaemonState) : Prop where
  sent : s.shutdown.sent.length = if s.signal = .terminated then 1 else 0
  http : ∀ t ∈ s.http, t.shut = 0
  side : ∀ t ∈ s.side, t.shut = 0

theorem shutInv_init (first : ConfigFile) : ShutInv (.init first) where
  sent := rfl
  http t ht := by cases ht
  side t ht := by cases ht

/-- A receiver that waits for the first message has it once it is sent. -/
theorem isSome_recv_zero (c : Broadcast Unit) (h : c.sent.length ≤ 1) :
    (c.recv 1 0).isSome = decide (c.sent.length = 1) := by
  unfold Broadcast.recv
  rw [if_neg (by omega)]
  obtain hnil | hone : c.sent.length = 0 ∨ c.sent.length = 1 := by omega
  · simp [List.length_eq_zero_iff.mp hnil]
  · obtain ⟨u, hu⟩ := List.length_eq_one_iff.mp hone
    simp [hu]

theorem ShutInv.recv (h : ShutInv s) :
    (s.shutdown.recv 1 0).isSome = decide (s.signal = .terminated) := by
  have hsent := h.sent
  by_cases hsig : s.signal = .terminated
  · rw [if_pos hsig] at hsent
    rw [isSome_recv_zero _ (by omega)]
    simp [hsent, hsig]
  · rw [if_neg hsig] at hsent
    rw [isSome_recv_zero _ (by omega)]
    simp [hsent, hsig]

theorem shut_sideStep (shutdown : Broadcast Unit) (t : SideTask) (ready issued : Bool) :
    (t.step shutdown ready issued).1.shut = t.shut := by
  unfold SideTask.step
  cases t.phase with
  | waiting =>
    simp only
    split <;> rfl
  | polled =>
    simp only
    split
    · split <;> rfl
    · rfl
  | issuing => rfl
  | stopped => rfl

theorem shut_after (ext : External) (config : Config) (reload : Broadcast Unit) (t : HttpTask)
    (e : HttpStep) : (t.after ext config reload e).shut = t.shut := by
  cases e <;> rfl

/-- A move of the signal handler other than the last one. -/
theorem ShutInv.signalled {s' : DaemonState} (h : ShutInv s)
    (hkeep : s'.shutdown = s.shutdown ∧ s'.http = s.http ∧ s'.side = s.side)
    (hsig : s.signal ≠ .terminated) (hsig' : s'.signal ≠ .terminated) :
    ShutInv s' ∧ (s.signal = .terminated → s'.signal = .terminated) := by
  obtain ⟨hshutdown, hhttp, hside⟩ := hkeep
  refine ⟨⟨?_, hhttp ▸ h.http, hside ▸ h.side⟩, fun ht => absurd ht hsig⟩
  rw [hshutdown, h.sent, if_neg hsig, if_neg hsig']

/-- **Every step** keeps the invariant, and once the handler has passed a shutdown on it is
done. -/
theorem ShutInv.step (h : ShutInv s) (i : DaemonInput) :
    ShutInv (s.step ext i).1 ∧
      (s.signal = .terminated → (s.step ext i).1.signal = .terminated) := by
  have hstep := step_steps ext s i
  generalize (s.step ext i).1 = s', (s.step ext i).2 = o at hstep
  have hsent := h.sent
  cases hstep with
  | stutter => exact ⟨h, id⟩
  | spawn files idx directive t hsig ht =>
    refine ⟨⟨hsent, ?_, h.side⟩, id⟩
    intro u hu
    rcases List.mem_append.mp hu with hu | hu
    · exact h.http u hu
    · unfold DaemonState.spawned at ht
      split at ht
      · cases ht
      · obtain ⟨loop, -, rfl⟩ := Option.map_eq_some_iff.mp ht
        rw [List.mem_singleton.mp hu]
        -- nothing has been sent while `run` starts its tasks
        simpa [hsig, Broadcast.subscribe] using hsent
  | spawnSide kind hsig =>
    refine ⟨⟨hsent, h.http, ?_⟩, id⟩
    intro u hu
    rcases List.mem_append.mp hu with hu | hu
    · exact h.side u hu
    · rw [List.mem_singleton.mp hu]
      simpa [hsig, Broadcast.subscribe] using hsent
  | handle phase hsig hp =>
    refine h.signalled ⟨rfl, rfl, rfl⟩ (by simp [hsig]) ?_
    rcases hp with rfl | rfl <;> simp
  | terminate hsig =>
    rw [hsig] at hsent
    refine ⟨⟨?_, h.http, h.side⟩, fun _ => rfl⟩
    simpa [Broadcast.send] using hsent
  | hangup path hsig => exact h.signalled ⟨rfl, rfl, rfl⟩ (by simp [hsig]) (by simp)
  | loaded path config hsig hv => exact h.signalled ⟨rfl, rfl, rfl⟩ (by simp [hsig]) (by simp)
  | rejected path hsig => exact h.signalled ⟨rfl, rfl, rfl⟩ (by simp [hsig]) (by simp)
  | swap config hsig => exact h.signalled ⟨rfl, rfl, rfl⟩ (by simp [hsig]) (by simp)
  | send hsig => exact h.signalled ⟨rfl, rfl, rfl⟩ (by simp [hsig]) (by simp)
  | http i ready files t e ht hrun he =>
    refine ⟨⟨hsent, ?_, h.side⟩, id⟩
    intro u hu
    rcases List.mem_or_eq_of_mem_set hu with hu | rfl
    · exact h.http u hu
    · rw [shut_after]
      exact h.http t (List.mem_of_getElem? ht)
  | side i ready issued t t' o ht he =>
    refine ⟨⟨hsent, h.http, ?_⟩, id⟩
    intro u hu
    rcases List.mem_or_eq_of_mem_set hu with hu | rfl
    · exact h.side u hu
    · have hshut := shut_sideStep s.shutdown t ready issued
      rw [he] at hshut
      exact hshut.trans (h.side t (List.mem_of_getElem? ht))

/-- The shutdown has been passed on. -/
def Terminated (s : DaemonState) : Prop := ShutInv s ∧ s.signal = .terminated

theorem Terminated.step (h : Terminated s) (i : DaemonInput) : Terminated (s.step ext i).1 :=
  ⟨(h.1.step i).1, (h.1.step i).2 h.2⟩

theorem Terminated.recv (h : Terminated s) {n : Nat} (hn : n = 0) :
    (s.shutdown.recv 1 n).isSome = true := by
  rw [hn, h.1.recv, h.2]
  rfl

theorem shutInv_run (first : ConfigFile) (is : List DaemonInput) :
    ShutInv ((DaemonState.machine ext).run (.init first) is) :=
  Machine.run_inv ShutInv (shutInv_init first) (fun _ i h => (h.step i).1) is

/-! ## What a task does once it is passed on -/

/-- A step of the listener at `i`. -/
def DaemonInput.isHttp (i : Nat) : DaemonInput → Bool
  | .http j _ _ => j = i
  | _ => false

/-- A step of the side task at `i`. -/
def DaemonInput.isSide (i : Nat) : DaemonInput → Bool
  | .side j _ _ => j = i
  | _ => false

/-- **What a step does to a listener** when nothing is started any more: the listener's own step
while it runs, and otherwise nothing. -/
theorem http_cases (ext : External) (hsig : s.signal = .terminated) (k : Nat) (i : DaemonInput) :
    ((s.step ext i).1.http[k]? = s.http[k]? ∧ (i.isHttp k = true →
      (s.step ext i).2 = none ∧ ∀ t, s.http[k]? = some t → t.running = false)) ∨
    ∃ t ready files, i.isHttp k = true ∧ s.http[k]? = some t ∧ t.running = true ∧
      (s.step ext i).1.http[k]? = some (t.after ext s.config.toConfig s.reload
        (t.next s.reload s.shutdown ready files)) ∧
      (s.step ext i).2 = t.event (t.next s.reload s.shutdown ready files) := by
  cases i with
  | http j ready files =>
    cases hstep : s.httpStep j ready files with
    | none =>
      have hsame : s.step ext (.http j ready files) = (s, none) := by
        simp only [DaemonState.step, hstep]
      rw [hsame]
      refine .inl ⟨rfl, fun hj => ⟨rfl, fun t ht => ?_⟩⟩
      obtain rfl : j = k := by simpa [DaemonInput.isHttp] using hj
      simpa [DaemonState.httpStep, ht] using hstep
    | some r =>
      obtain ⟨t, e⟩ := r
      obtain ⟨ht, hrun, rfl⟩ := steps_of_httpStep hstep
      simp only [DaemonState.step, hstep]
      by_cases hj : j = k
      · subst hj
        refine .inr ⟨t, ready, files, by simp [DaemonInput.isHttp], ht, hrun, ?_, rfl⟩
        exact List.getElem?_set_self (List.getElem?_eq_some_iff.mp ht).1
      · exact .inl ⟨List.getElem?_set_ne hj, by simp [DaemonInput.isHttp, hj]⟩
  | side j ready issued =>
    refine .inl ⟨?_, by simp [DaemonInput.isHttp]⟩
    simp only [DaemonState.step]
    split
    · rfl
    · split <;> rfl
  | _ => exact .inl ⟨by simp [DaemonState.step, hsig], by simp [DaemonInput.isHttp]⟩

/-- **What a step does to a side task** then. -/
theorem side_cases (ext : External) (hsig : s.signal = .terminated) (k : Nat) (i : DaemonInput) :
    ((s.step ext i).1.side[k]? = s.side[k]? ∧ (i.isSide k = true →
      (s.step ext i).2 = none ∧ s.side[k]? = none)) ∨
    ∃ t ready issued, i.isSide k = true ∧ s.side[k]? = some t ∧
      (s.step ext i).1.side[k]? = some (t.step s.shutdown ready issued).1 ∧
      (s.step ext i).2 = if (t.step s.shutdown ready issued).2 = .accepted
        then some (.sideAccepted t.kind) else none := by
  cases i with
  | side j ready issued =>
    cases ht : s.side[j]? with
    | none =>
      have hsame : s.step ext (.side j ready issued) = (s, none) := by
        simp only [DaemonState.step, ht]
      rw [hsame]
      refine .inl ⟨rfl, fun hj => ⟨rfl, ?_⟩⟩
      obtain rfl : j = k := by simpa [DaemonInput.isSide] using hj
      exact ht
    | some t =>
      simp only [DaemonState.step, ht]
      by_cases hj : j = k
      · subst hj
        have hset : ∀ t', (s.side.set j t')[j]? = some t' := fun t' =>
          List.getElem?_set_self (List.getElem?_eq_some_iff.mp ht).1
        refine .inr ⟨t, ready, issued, by simp [DaemonInput.isSide], ht, ?_⟩
        cases (t.step s.shutdown ready issued).2 <;> simp [hset]
      · refine .inl ⟨?_, by simp [DaemonInput.isSide, hj]⟩
        split <;> exact List.getElem?_set_ne hj
  | http j ready files =>
    refine .inl ⟨?_, by simp [DaemonInput.isSide]⟩
    simp only [DaemonState.step]
    split <;> rfl
  | _ => exact .inl ⟨by simp [DaemonState.step, hsig], by simp [DaemonInput.isSide]⟩

/-- A listener in the middle of a reload goes on with it. -/
theorem next_received {t : HttpTask} (h : t.loop.phase = .received) (ready : Ready)
    (files : TlsFiles) : t.next s.reload s.shutdown ready files = .loop .read := by
  simp [HttpTask.next, h]

theorem next_read {t : HttpTask} {config : Config} (h : t.loop.phase = .read config)
    (ready : Ready) (files : TlsFiles) :
    t.next s.reload s.shutdown ready files = .loop (.apply files) := by
  simp [HttpTask.next, h]

/-- Whatever `accept` has, the `select!` begins anew. -/
theorem after_accept (ext : External) (s : DaemonState) {t : HttpTask}
    (hphase : t.loop.phase = .waiting) (hpoll : t.poll = .accept) (ready : Ready)
    (files : TlsFiles) :
    let t' := t.after ext s.config.toConfig s.reload (t.next s.reload s.shutdown ready files)
    t'.loop.phase = .waiting ∧ t'.poll = .shutdown := by
  unfold HttpTask.next
  rw [hphase, hpoll]
  cases ready <;> simp [HttpTask.after, LoopState.step, LoopState.event, hphase]

/-- A listener that polls for a shutdown stops. -/
theorem Terminated.stops (ext : External) (h : Terminated s) {t : HttpTask} (ht : t ∈ s.http)
    (hphase : t.loop.phase = .waiting) (hpoll : t.poll = .shutdown) (ready : Ready)
    (files : TlsFiles) :
    t.next s.reload s.shutdown ready files = .loop .shutdown ∧
      (t.after ext s.config.toConfig s.reload (.loop .shutdown)).running = false := by
  have hnext : t.next s.reload s.shutdown ready files = .loop .shutdown := by
    simp [HttpTask.next, hphase, hpoll, h.recv (h.1.http t ht)]
  have hstop : (t.loop.loop.step ext .shutdown).running = false := by
    cases t.loop.loop with
    | tcp l st =>
      cases hst : st.running <;> simp [HttpLoop.step, HttpLoop.running, Listener.step, hst]
    | quic l st =>
      cases hst : st.running <;> simp [HttpLoop.step, HttpLoop.running, QuicListener.step, hst]
  refine ⟨hnext, ?_⟩
  simp [HttpTask.after, HttpTask.running, LoopState.step, LoopState.event, hphase, hstop]

/-! ## What is still accepted -/

/-- Something has been accepted. -/
def DaemonEvent.isAccept : DaemonEvent → Bool
  | .accepted _ _ | .sideAccepted _ => true
  | _ => false

/-- The listener is in its `select!`, past the branch of a shutdown. -/
def HttpTask.mayAccept (t : HttpTask) : Bool :=
  match t.loop.phase with
  | .waiting => t.running && t.poll != .shutdown
  | _ => false

/-- So is the stream or mail listener. -/
def SideTask.mayAccept (t : SideTask) : Bool := t.phase = .polled ∧ t.kind ≠ .renewal

/-- How often the tasks of these inputs accept, along the inputs with what they show. -/
def accepts (mine : DaemonInput → Bool) (steps : List (DaemonInput × Option DaemonEvent)) : Nat :=
  steps.countP fun e => mine e.1 && e.2.any DaemonEvent.isAccept

/-- Whether the listener at `k` may still accept. -/
def DaemonState.httpMay (k : Nat) (s : DaemonState) : Bool := (s.http[k]?).any HttpTask.mayAccept

def DaemonState.sideMay (k : Nat) (s : DaemonState) : Bool := (s.side[k]?).any SideTask.mayAccept

theorem mayAccept_of_stopped {t : HttpTask} (h : t.running = false) : t.mayAccept = false := by
  unfold HttpTask.mayAccept
  rw [h]
  split <;> rfl

/-- A `select!` that begins anew polls for a shutdown first. -/
theorem mayAccept_anew {t : HttpTask} (h : t.poll = .shutdown) : t.mayAccept = false := by
  unfold HttpTask.mayAccept
  rw [h]
  split <;> simp

/-- **A listener's step** accepts only past the branch of a shutdown, which it then polls anew. -/
theorem Terminated.accept_http (ext : External) (h : Terminated s) {t : HttpTask}
    (ht : t ∈ s.http) (hrun : t.running = true) (ready : Ready) (files : TlsFiles) :
    let e := t.next s.reload s.shutdown ready files
    (t.after ext s.config.toConfig s.reload e).mayAccept.toNat +
      ((t.event e).any DaemonEvent.isAccept).toNat ≤ t.mayAccept.toNat := by
  have hmay (hphase : t.loop.phase = .waiting) (hpoll : t.poll ≠ .shutdown) :
      t.mayAccept = true := by simp [HttpTask.mayAccept, hphase, hpoll, hrun]
  cases hphase : t.loop.phase with
  | waiting =>
    cases hpoll : t.poll with
    | shutdown =>
      obtain ⟨hnext, hstop⟩ := h.stops ext ht hphase hpoll ready files
      simp [hnext, mayAccept_of_stopped hstop, HttpTask.event]
    | reload =>
      have hshow : (t.event (t.next s.reload s.shutdown ready files)).any
          DaemonEvent.isAccept = false := by
        unfold HttpTask.next
        rw [hphase, hpoll]
        simp only
        split <;> rfl
      simp only [hmay hphase (by simp [hpoll]), hshow]
      exact Bool.toNat_le _
    | accept =>
      have hafter := mayAccept_anew (after_accept ext s hphase hpoll ready files).2
      simp only [hmay hphase (by simp [hpoll]), hafter]
      simpa using Bool.toNat_le _
  | received =>
    simp [next_received hphase, HttpTask.event, HttpTask.after, HttpTask.mayAccept,
      LoopState.step, hphase]
  | read config =>
    simp [next_read hphase, HttpTask.event, HttpTask.after, HttpTask.mayAccept, LoopState.step,
      hphase]

/-- **A side task's step** does so too. -/
theorem Terminated.accept_side (h : Terminated s) {t : SideTask} (ht : t ∈ s.side)
    (ready issued : Bool) :
    let r := t.step s.shutdown ready issued
    r.1.mayAccept.toNat + (decide (r.2 = .accepted)).toNat ≤ t.mayAccept.toNat := by
  have hrecv := h.recv (h.1.side t ht)
  unfold SideTask.step SideTask.mayAccept
  cases hphase : t.phase with
  | waiting => simp [hrecv]
  | polled => cases ready <;> cases hkind : t.kind <;> simp
  | issuing => cases issued <;> simp
  | stopped => simp [hphase]

theorem Terminated.spends_http (ext : External) (h : Terminated s) (k : Nat) (i : DaemonInput) :
    ((s.step ext i).1.httpMay k).toNat +
      (if i.isHttp k && (s.step ext i).2.any DaemonEvent.isAccept then 1 else 0) ≤
        (s.httpMay k).toNat := by
  unfold DaemonState.httpMay
  obtain ⟨hkeep, hown⟩ | ⟨t, ready, files, hi, ht, hrun, hafter, hshow⟩ := http_cases ext h.2 k i
  · rw [hkeep]
    by_cases hi : i.isHttp k = true
    · simp [(hown hi).1]
    · simp [hi]
  · have hle := h.accept_http ext (List.mem_of_getElem? ht) hrun ready files
    rw [hafter, hshow, ht, hi, Bool.true_and]
    cases hshown : (t.event (t.next s.reload s.shutdown ready files)).any
      DaemonEvent.isAccept <;> simpa [hshown] using hle

theorem Terminated.spends_side (ext : External) (h : Terminated s) (k : Nat) (i : DaemonInput) :
    ((s.step ext i).1.sideMay k).toNat +
      (if i.isSide k && (s.step ext i).2.any DaemonEvent.isAccept then 1 else 0) ≤
        (s.sideMay k).toNat := by
  unfold DaemonState.sideMay
  obtain ⟨hkeep, hown⟩ | ⟨t, ready, issued, hi, ht, hafter, hshow⟩ := side_cases ext h.2 k i
  · rw [hkeep]
    by_cases hi : i.isSide k = true
    · simp [(hown hi).1]
    · simp [hi]
  · have hle := h.accept_side (List.mem_of_getElem? ht) ready issued
    rw [hafter, hshow, ht, hi, Bool.true_and]
    by_cases ho : (t.step s.shutdown ready issued).2 = .accepted
    · simpa [ho, DaemonEvent.isAccept] using hle
    · simpa [ho] using hle

/-- **After a SIGTERM or SIGINT** a task accepts at most once more, in any order of steps, and
nothing at all where its poll had not gone past the shutdown receiver. -/
theorem last_accept_after_terminate (ext : External) (first : ConfigFile)
    (before after : List DaemonInput) :
    let s := (DaemonState.machine ext).run (.init first) before
    let steps := after.zip ((DaemonState.machine ext).outputs s after)
    s.signal = .terminated →
      (∀ k, accepts (DaemonInput.isHttp k) steps ≤ (s.httpMay k).toNat) ∧
      ∀ k, accepts (DaemonInput.isSide k) steps ≤ (s.sideMay k).toNat := by
  intro s steps hsig
  have hs : Terminated s := ⟨shutInv_run first before, hsig⟩
  have hkeep : ∀ s i, Terminated s → Terminated ((DaemonState.machine ext).step s i).1 :=
    fun s i h => h.step i
  constructor
  · intro k
    exact Machine.countP_le_budget (fun s => (s.httpMay k).toNat)
      (fun i o => i.isHttp k && o.any DaemonEvent.isAccept) hkeep
      (fun s i h => h.spends_http ext k i) hs after
  · intro k
    exact Machine.countP_le_budget (fun s => (s.sideMay k).toNat)
      (fun i o => i.isSide k && o.any DaemonEvent.isAccept) hkeep
      (fun s i h => h.spends_side ext k i) hs after

/-! ## Every task stops -/

/-- How many steps a listener takes at most before it stops. -/
def HttpTask.rank (t : HttpTask) : Nat :=
  if t.running then
    match t.loop.phase, t.poll with
    | .waiting, .shutdown => 1
    | .waiting, .accept => 2
    | .read _, _ => 2
    | .received, _ => 3
    | .waiting, .reload => 4
  else 0

def SidePhase.rank : SidePhase → Nat
  | .stopped => 0
  | .waiting => 1
  | .issuing => 2
  | .polled => 3

theorem HttpTask.rank_le (t : HttpTask) : t.rank ≤ 4 := by
  unfold HttpTask.rank
  split
  · split <;> omega
  · omega

theorem SidePhase.rank_le (p : SidePhase) : p.rank ≤ 3 := by
  cases p <;> simp [rank]

theorem running_of_rank {t : HttpTask} (h : t.rank = 0) : t.running = false := by
  unfold HttpTask.rank at h
  split at h
  · split at h <;> cases h
  · next hrun => simpa using hrun

theorem stopped_of_rank {p : SidePhase} (h : p.rank = 0) : p = .stopped := by
  cases p with
  | stopped => rfl
  | _ => cases h

theorem rank_of_stopped {t : HttpTask} (h : t.running = false) : t.rank = 0 := by
  simp [HttpTask.rank, h]

/-- A listener whose `select!` begins anew is one step from its end. -/
theorem rank_anew {t : HttpTask} (hphase : t.loop.phase = .waiting) (hpoll : t.poll = .shutdown) :
    t.rank ≤ 1 := by
  unfold HttpTask.rank
  rw [hphase, hpoll]
  split <;> simp

/-- **A listener's step** brings it closer to its end. -/
theorem Terminated.rank_http (ext : External) (h : Terminated s) {t : HttpTask} (ht : t ∈ s.http)
    (hrun : t.running = true) (ready : Ready) (files : TlsFiles) :
    (t.after ext s.config.toConfig s.reload (t.next s.reload s.shutdown ready files)).rank ≤
      t.rank - 1 := by
  have hloop : t.loop.loop.running = true := hrun
  cases hphase : t.loop.phase with
  | waiting =>
    cases hpoll : t.poll with
    | shutdown =>
      obtain ⟨hnext, hstop⟩ := h.stops ext ht hphase hpoll ready files
      rw [hnext, rank_of_stopped hstop]
      exact Nat.zero_le _
    | reload =>
      have hrank : t.rank = 4 := by simp [HttpTask.rank, hphase, hpoll, hrun]
      by_cases hrecv : (s.reload.recv 1 t.loop.next).isSome = true
      · obtain ⟨r, hr⟩ := Option.isSome_iff_exists.mp hrecv
        have hnext : t.next s.reload s.shutdown ready files = .loop .recv := by
          simp [HttpTask.next, hphase, hpoll, hrecv]
        rw [hrank, hnext]
        simp [HttpTask.after, HttpTask.rank, HttpTask.running, LoopState.step, hphase, hloop, hr]
      · have hnext : t.next s.reload s.shutdown ready files = .moved .accept := by
          simp [HttpTask.next, hphase, hpoll, hrecv]
        rw [hrank, hnext]
        simp [HttpTask.after, HttpTask.rank, HttpTask.running, hphase, hloop]
    | accept =>
      have hrank : t.rank = 2 := by simp [HttpTask.rank, hphase, hpoll, hrun]
      obtain ⟨hphase', hpoll'⟩ := after_accept ext s hphase hpoll ready files
      rw [hrank]
      exact rank_anew hphase' hpoll'
  | received =>
    rw [next_received hphase]
    simp [HttpTask.after, HttpTask.rank, HttpTask.running, LoopState.step, hphase, hloop]
  | read config =>
    have hrank : t.rank = 2 := by simp [HttpTask.rank, hphase, hrun]
    rw [hrank, next_read hphase]
    exact rank_anew (by simp [HttpTask.after, LoopState.step, hphase]) rfl

/-- **A side task's step** brings it closer to its end. -/
theorem Terminated.rank_side (h : Terminated s) {t : SideTask} (ht : t ∈ s.side)
    (ready issued : Bool) :
    (t.step s.shutdown ready issued).1.phase.rank ≤ t.phase.rank - 1 := by
  have hrecv := h.recv (h.1.side t ht)
  unfold SideTask.step
  cases hphase : t.phase with
  | waiting => simp [hrecv, SidePhase.rank]
  | polled => cases ready <;> cases t.kind <;> simp [SidePhase.rank]
  | issuing => simp [SidePhase.rank]
  | stopped => simp [SidePhase.rank, hphase]

/-- The rank of the listener at `i`. -/
def DaemonState.httpRank (i : Nat) (s : DaemonState) : Nat := (s.http[i]?).elim 0 HttpTask.rank

/-- The rank of the side task at `i`. -/
def DaemonState.sideRank (i : Nat) (s : DaemonState) : Nat :=
  (s.side[i]?).elim 0 fun t => t.phase.rank

theorem httpRank_le (k : Nat) (s : DaemonState) : s.httpRank k ≤ 4 := by
  unfold DaemonState.httpRank
  cases s.http[k]? with
  | none => exact Nat.zero_le _
  | some t => exact t.rank_le

theorem sideRank_le (k : Nat) (s : DaemonState) : s.sideRank k ≤ 3 := by
  unfold DaemonState.sideRank
  cases s.side[k]? with
  | none => exact Nat.zero_le _
  | some t => exact t.phase.rank_le

/-- A task's rank falls by its own steps, and by no other. -/
theorem Terminated.httpRank_step (ext : External) (h : Terminated s) (k : Nat) (i : DaemonInput) :
    (s.step ext i).1.httpRank k ≤ s.httpRank k - (if i.isHttp k then 1 else 0) := by
  unfold DaemonState.httpRank
  obtain ⟨hkeep, hown⟩ | ⟨t, ready, files, hi, ht, hrun, hafter, -⟩ := http_cases ext h.2 k i
  · rw [hkeep]
    by_cases hi : i.isHttp k = true
    · cases ht : s.http[k]? with
      | none => exact Nat.zero_le _
      | some t => simp [rank_of_stopped ((hown hi).2 t ht)]
    · simp [hi]
  · rw [hafter, ht, if_pos hi]
    exact h.rank_http ext (List.mem_of_getElem? ht) hrun ready files

theorem Terminated.sideRank_step (ext : External) (h : Terminated s) (k : Nat) (i : DaemonInput) :
    (s.step ext i).1.sideRank k ≤ s.sideRank k - (if i.isSide k then 1 else 0) := by
  unfold DaemonState.sideRank
  obtain ⟨hkeep, hown⟩ | ⟨t, ready, issued, hi, ht, hafter, -⟩ := side_cases ext h.2 k i
  · rw [hkeep]
    by_cases hi : i.isSide k = true
    · simp [(hown hi).2]
    · simp [hi]
  · rw [hafter, ht, if_pos hi]
    exact h.rank_side (List.mem_of_getElem? ht) ready issued

/-- **After a SIGTERM or SIGINT every task stops**, in any order of steps: a listener once it has
gone on four times, any other task once it has gone on three times. -/
theorem stops_after_terminate (ext : External) (first : ConfigFile)
    (before after : List DaemonInput) :
    ((DaemonState.machine ext).run (.init first) before).signal = .terminated →
      (∀ k, 4 ≤ after.countP (DaemonInput.isHttp k) → ∀ t,
        ((DaemonState.machine ext).run (.init first) (before ++ after)).http[k]? = some t →
          t.running = false) ∧
      ∀ k, 3 ≤ after.countP (DaemonInput.isSide k) → ∀ t,
        ((DaemonState.machine ext).run (.init first) (before ++ after)).side[k]? = some t →
          t.phase = .stopped := by
  intro hsig
  rw [Machine.run_append]
  have hs : Terminated ((DaemonState.machine ext).run (.init first) before) :=
    ⟨shutInv_run first before, hsig⟩
  generalize (DaemonState.machine ext).run (.init first) before = s at hs
  have hkeep : ∀ s i, Terminated s → Terminated ((DaemonState.machine ext).step s i).1 :=
    fun s i h => h.step i
  constructor
  · intro k hk t ht
    have hrun := Machine.run_rank (M := DaemonState.machine ext) (DaemonState.httpRank k)
      (DaemonInput.isHttp k) hkeep (fun s i h => (h.httpRank_step ext k i).trans (Nat.sub_le _ _))
      (fun s i h hi => (h.httpRank_step ext k i).trans_eq (by rw [if_pos hi])) hs after
    have hle := httpRank_le k s
    have hzero : ((DaemonState.machine ext).run s after).httpRank k = 0 := by omega
    unfold DaemonState.httpRank at hzero
    rw [ht] at hzero
    exact running_of_rank hzero
  · intro k hk t ht
    have hrun := Machine.run_rank (M := DaemonState.machine ext) (DaemonState.sideRank k)
      (DaemonInput.isSide k) hkeep (fun s i h => (h.sideRank_step ext k i).trans (Nat.sub_le _ _))
      (fun s i h hi => (h.sideRank_step ext k i).trans_eq (by rw [if_pos hi])) hs after
    have hle := sideRank_le k s
    have hzero : ((DaemonState.machine ext).run s after).sideRank k = 0 := by omega
    unfold DaemonState.sideRank at hzero
    rw [ht] at hzero
    exact stopped_of_rank hzero

open Sample

/-- A server with a listener and a renewal, whose polls have gone past the shutdown receiver when a
SIGTERM reaches them. -/
def terminatedInputs : List DaemonInput :=
  [.spawn noFiles 0 0, .spawnSide .renewal, .handleSignals true, .http 0 .pending noFiles,
    .side 0 true false, .terminate]

/-- What the listener does then: it accepts the connection that it was polling for, and stops. -/
def lastInputs : List DaemonInput :=
  [.http 0 .pending noFiles, .http 0 (.conn plainConn) noFiles, .http 0 (.conn plainConn) noFiles]

theorem last_accept_after_terminate_sample :
    accepts (DaemonInput.isHttp 0) (lastInputs.zip ((DaemonState.machine .sample).outputs
      ((DaemonState.machine .sample).run alphaDaemon terminatedInputs) lastInputs)) = 1 := by
  refine Nat.le_antisymm ?_ (by decide)
  exact (last_accept_after_terminate .sample alphaDaemon.config terminatedInputs lastInputs rfl).1 0

theorem stops_after_terminate_sample :
    ∃ t ∈ ((DaemonState.machine .sample).run alphaDaemon (terminatedInputs ++
      [.side 0 true false, .side 0 false false, .side 0 false false])).side,
        t.phase = .stopped := by
  refine ⟨⟨.renewal, .stopped, 0⟩, List.mem_singleton.mpr rfl, ?_⟩
  exact (stops_after_terminate .sample alphaDaemon.config terminatedInputs
    [.side 0 true false, .side 0 false false, .side 0 false false] rfl).2 0 (by decide)
    ⟨.renewal, .stopped, 0⟩ rfl

end Flexd
