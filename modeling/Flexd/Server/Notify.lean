import Flexd.Lib.Broadcast
import Flexd.Server.HttpLoop

/-!
# Reload notifications

A SIGHUP swaps the configuration behind its lock and then sends on the reload
channel, which holds one message; renewals send on it too. A listener that
receives anything, be it that it lagged, reads the configuration and swaps its
block. The machine takes these as separate steps, in any order, of any number
of reloads, renewals and listeners. `LoopInv` is the invariant: a listener
that is not up to date has a message coming, is handling one, or a reload has
yet to send.
-/

namespace Flexd

open Lib

/-- Where a listener stands with a reload. -/
inductive Phase where
  /-- In its `select!`. -/
  | waiting
  /-- A receive has completed. -/
  | received
  /-- The configuration has been read. -/
  | read (config : Config)

structure LoopState where
  loop : HttpLoop
  /-- The position of its receiver. -/
  next : Nat
  phase : Phase

inductive LoopStep where
  | recv
  | read
  | apply (files : TlsFiles)
  | accepted (conn : Conn)
  | acceptError
  | shutdown

namespace LoopState

/-- What else completes a `select!`. -/
def event (ext : External) (l : LoopState) (e : AcceptEvent) : LoopState :=
  match l.phase with
  | .waiting => { l with loop := l.loop.step ext e }
  | _ => l

def step (ext : External) (config : Config) (channel : Broadcast Unit) (l : LoopState) :
    LoopStep → LoopState
  | .recv =>
    match l.phase, l.loop.running, channel.recv 1 l.next with
    | .waiting, true, some (_, next) => ⟨l.loop, next, .received⟩
    | _, _, _ => l
  | .read =>
    match l.phase with
    | .received => { l with phase := .read config }
    | _ => l
  | .apply files =>
    match l.phase with
    | .read config => ⟨l.loop.step ext (.reload config files), l.next, .waiting⟩
    | _ => l
  | .accepted conn => l.event ext (.accepted conn)
  | .acceptError => l.event ext .acceptError
  | .shutdown => l.event ext .shutdown

end LoopState

structure NotifyState where
  /-- What `Server::run` read when it began. -/
  snapshot : Config
  /-- What is behind the lock. -/
  config : Config
  channel : Broadcast Unit := {}
  /-- The reloads that have written and not yet sent. -/
  unsent : Nat := 0
  /-- The signal handler runs. -/
  signals : Bool := false
  loops : List LoopState := []

inductive NotifyInput where
  /-- `Server::run` starts the listener of a block's listen directive. -/
  | spawn (files : TlsFiles) (idx directive : Nat)
  /-- `Server::run` starts the signal handler, once every listener is started. -/
  | handleSignals
  /-- A SIGHUP swaps the configuration. -/
  | write (config : Config)
  /-- A SIGHUP sends. -/
  | send
  /-- A renewal sends. -/
  | renewed
  /-- A listener takes a step. -/
  | loop (i : Nat) (e : LoopStep)

namespace NotifyState

def step (ext : External) (s : NotifyState) : NotifyInput → NotifyState
  | .spawn files idx directive =>
    if s.signals then s
    else
      match s.snapshot.http[idx]? with
      | none => s
      | some block =>
        match (block.listen[directive]?).bind (HttpLoop.start ext files block idx) with
        | none => s
        | some loop => { s with loops := s.loops ++ [⟨loop, s.channel.subscribe, .waiting⟩] }
  | .handleSignals => { s with signals := true }
  | .write config => if s.signals then { s with config, unsent := s.unsent + 1 } else s
  | .send =>
    if 0 < s.unsent then { s with channel := s.channel.send (), unsent := s.unsent - 1 } else s
  | .renewed => { s with channel := s.channel.send () }
  | .loop i e =>
    match s.loops[i]? with
    | none => s
    | some l => { s with loops := s.loops.set i (l.step ext s.config s.channel e) }

def machine (ext : External) : Machine NotifyState NotifyInput Unit :=
  ⟨fun s i => (s.step ext i, ())⟩

/-- A server that has just read its configuration. -/
def init (config : Config) : NotifyState where
  snapshot := config
  config := config

end NotifyState

/-! ## The invariant -/

variable {ext : External}

/-- The listener serves the block of its index, if there is one, in the configuration. -/
def Matches (config : Config) (loop : HttpLoop) : Prop :=
  ∀ block, config.http[loop.blockIdx]? = some block → loop.httpBlock = block

/-- What a listener owes to the configuration, by the phase it is in. -/
def LoopState.Current (config : Config) (l : LoopState) : Prop :=
  match l.phase with
  | .waiting => Matches config l.loop
  | .received => True
  | .read read => read = config

/-- A listener that is not current still runs into a message. -/
structure LoopInv (config : Config) (channel : Broadcast Unit) (unsent : Nat) (l : LoopState) :
    Prop where
  behind : l.next ≤ channel.sent.length
  fresh : l.loop.running = true → 0 < unsent ∨ channel.Pending l.next ∨ l.Current config

theorem matches_reload {loop : HttpLoop} (hr : loop.running = true) (config : Config)
    (files : TlsFiles) : Matches config (loop.step ext (.reload config files)) := by
  intro block hb
  rw [HttpLoop.blockIdx_step] at hb
  rw [(HttpLoop.httpBlock_reload ext hr config files).2, hb]
  rfl

section Step

variable {config : Config} {channel : Broadcast Unit} {unsent : Nat} {l : LoopState}

theorem LoopInv.event (h : LoopInv config channel unsent l) {e : AcceptEvent}
    (he : ∀ config files, e ≠ .reload config files) :
    LoopInv config channel unsent (l.event ext e) := by
  unfold LoopState.event
  split
  case h_2 => exact h
  case h_1 hp =>
    refine ⟨h.behind, fun hrun => ?_⟩
    have hr := HttpLoop.running_of_step hrun
    refine (h.fresh hr).imp id (Or.imp id ?_)
    unfold LoopState.Current
    simp only [hp]
    intro hm block hb
    rw [HttpLoop.blockIdx_step] at hb
    rw [HttpLoop.httpBlock_step_eq he]
    exact hm block hb

/-- **A listener's step** keeps its invariant. -/
theorem LoopInv.step (h : LoopInv config channel unsent l) (e : LoopStep) :
    LoopInv config channel unsent (l.step ext config channel e) := by
  cases e with
  | accepted conn => exact h.event (by simp)
  | acceptError => exact h.event (by simp)
  | shutdown => exact h.event (by simp)
  | recv =>
    simp only [LoopState.step]
    split
    · next hrecv => exact ⟨Broadcast.recv_le hrecv, fun _ => .inr (.inr trivial)⟩
    · exact h
  | read =>
    simp only [LoopState.step]
    split
    · exact ⟨h.behind, fun _ => .inr (.inr rfl)⟩
    · exact h
  | apply files =>
    simp only [LoopState.step]
    split
    case h_2 => exact h
    case h_1 read hp =>
      refine ⟨h.behind, fun hrun => ?_⟩
      have hr := HttpLoop.running_of_step hrun
      refine (h.fresh hr).imp id (Or.imp id ?_)
      -- What was read is the configuration still, unless there is news.
      unfold LoopState.Current
      simp only [hp]
      rintro rfl
      exact matches_reload hr read files

end Step

/-- The invariant of the whole server. -/
structure NotifyInv (s : NotifyState) : Prop where
  startup : s.signals = false → s.config = s.snapshot
  loop : ∀ l ∈ s.loops, LoopInv s.config s.channel s.unsent l

theorem notifyInv_init (config : Config) : NotifyInv (.init config) where
  startup _ := rfl
  loop l hl := by cases hl

/-- A message for every listener. -/
theorem LoopInv.send {config : Config} {channel : Broadcast Unit} {unsent : Nat} {l : LoopState}
    (h : LoopInv config channel unsent l) (unsent' : Nat) :
    LoopInv config (channel.send ()) unsent' l where
  behind := by
    have := h.behind
    simp only [Broadcast.send, List.length_append]
    omega
  fresh _ := .inr (.inl (Broadcast.pending_send h.behind ()))

/-- A listener starts with the block it is started for and nothing pending. -/
theorem loopInv_start {config : Config} {files : TlsFiles} {block : HttpBlock} {idx : Nat}
    {listen : ListenDirective} {loop : HttpLoop} (hb : config.http[idx]? = some block)
    (hstart : HttpLoop.start ext files block idx listen = some loop) (channel : Broadcast Unit)
    (unsent : Nat) : LoopInv config channel unsent ⟨loop, channel.subscribe, .waiting⟩ where
  behind := le_rfl
  fresh _ := by
    obtain ⟨-, hblock, hidx, -⟩ := HttpLoop.start_spec hstart
    refine .inr (.inr ?_)
    intro b hc
    rw [hidx, hb] at hc
    rw [hblock, Option.some.inj hc]

/-- **Every step** of the server keeps the invariant. -/
theorem NotifyInv.step {s : NotifyState} (h : NotifyInv s) (i : NotifyInput) :
    NotifyInv (s.step ext i) := by
  cases i with
  | spawn files idx directive =>
    simp only [NotifyState.step]
    split
    · exact h
    · next hsig =>
      split
      · exact h
      · next block hb =>
        split
        · exact h
        · next loop hstart =>
          refine ⟨h.startup, fun l hl => ?_⟩
          rcases List.mem_append.mp hl with hl | hl
          · exact h.loop l hl
          · obtain rfl := List.mem_singleton.mp hl
            obtain ⟨listen, -, hstart⟩ := Option.bind_eq_some_iff.mp hstart
            -- Until the signal handler runs, the configuration is the one read at the start.
            rw [← h.startup (by simpa using hsig)] at hb
            exact loopInv_start hb hstart s.channel s.unsent
  | handleSignals => exact ⟨fun hs => (by cases hs), h.loop⟩
  | write config =>
    simp only [NotifyState.step]
    split
    · next hsig =>
      refine ⟨fun hs => ?_, fun l hl => ⟨(h.loop l hl).behind, fun _ => .inl (Nat.succ_pos _)⟩⟩
      rw [hsig] at hs
      cases hs
    · exact h
  | send =>
    simp only [NotifyState.step]
    split
    · exact ⟨h.startup, fun l hl => (h.loop l hl).send _⟩
    · exact h
  | renewed => exact ⟨h.startup, fun l hl => (h.loop l hl).send _⟩
  | loop i e =>
    simp only [NotifyState.step]
    split
    · exact h
    · next l hl =>
      refine ⟨h.startup, fun k hk => ?_⟩
      rcases List.mem_or_eq_of_mem_set hk with hk | rfl
      · exact h.loop k hk
      · exact (h.loop l (List.mem_of_getElem? hl)).step e

/-- **No reload is lost**: in every interleaving, when no reload is between its write and its
send, a running listener with nothing pending and nothing in hand serves the block of its index
in the current configuration. -/
theorem notify_no_reload_lost (ext : External) (config : Config) (is : List NotifyInput) :
    let s := (NotifyState.machine ext).run (.init config) is
    s.unsent = 0 → ∀ l ∈ s.loops, l.loop.running = true → ¬ s.channel.Pending l.next →
      l.phase = .waiting →
      ∀ block, s.config.http[l.loop.blockIdx]? = some block → l.loop.httpBlock = block := by
  intro s hunsent l hl hr hpend hphase
  have hinv : NotifyInv s := Machine.run_inv NotifyInv (notifyInv_init config)
    (fun _ i h => h.step i) is
  rcases (hinv.loop l hl).fresh hr with h | h | h
  · omega
  · exact absurd h hpend
  · unfold LoopState.Current at h
    rw [hphase] at h
    exact h

open Sample

/-- A SIGHUP replaces the one block of a server, whose listener then follows. -/
def followed : NotifyState :=
  (NotifyState.machine .sample).run (.init { http := [alphaBlock] })
    [.spawn noFiles 0 0, .handleSignals, .write { http := [betaBlock] }, .send, .loop 0 .recv,
      .loop 0 .read, .loop 0 (.apply noFiles)]

theorem notify_no_reload_lost_followed :
    followed.unsent = 0 ∧ ∃ l ∈ followed.loops, l.loop.running = true ∧
      ¬ followed.channel.Pending l.next ∧ l.phase = .waiting ∧ l.loop.httpBlock = betaBlock := by
  have hpend : ¬ followed.channel.Pending 1 := Nat.lt_irrefl 1
  refine ⟨rfl, ⟨.tcp ⟨alphaBlock, 0, false, none⟩ ⟨true, betaBlock, none⟩, 1, .waiting⟩,
    List.mem_singleton.mpr rfl, rfl, hpend, rfl, ?_⟩
  exact notify_no_reload_lost .sample { http := [alphaBlock] }
    [.spawn noFiles 0 0, .handleSignals, .write { http := [betaBlock] }, .send, .loop 0 .recv,
      .loop 0 .read, .loop 0 (.apply noFiles)] rfl
    ⟨.tcp ⟨alphaBlock, 0, false, none⟩ ⟨true, betaBlock, none⟩, 1, .waiting⟩
    (List.mem_singleton.mpr rfl) rfl hpend rfl betaBlock rfl

end Flexd
