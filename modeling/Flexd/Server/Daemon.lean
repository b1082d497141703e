import Flexd.Config.Load
import Flexd.Server.Notify

/-!
# The server and its signals

`Server::run` starts a task for each listener and renewal, and then the signal
handler, which a SIGHUP takes through reading, loading, swapping and announcing
a configuration, and a SIGTERM or SIGINT ends with a message on the shutdown
channel. Every task polls for a shutdown first, for a reload next, and only then
accepts; other tasks run between two of these polls too. The machine takes the
steps of all of them in any order; `refines_notify` says that, seen without its
files and signals, it is the machine of the reload notifications.
-/

namespace Flexd

open Lib

/-! ## Tasks -/

/-- What `accept` has when it is polled. -/
inductive Ready where
  | pending
  | conn (conn : Conn)
  | error

/-- The branch of its `select!` that a task polls next: they are polled one after the other. -/
inductive Poll where
  | shutdown | reload | accept
  deriving DecidableEq

/-- An HTTP listener with its receiver of shutdowns. -/
structure HttpTask where
  loop : LoopState
  shut : Nat
  poll : Poll := .shutdown

/-- What else `run` waits for. -/
inductive SideKind where
  | stream | mail | renewal
  deriving DecidableEq

inductive SidePhase where
  /-- In its `select!`, which polls for a shutdown first. -/
  | waiting
  /-- It has found none, and polls what it waits for. -/
  | polled
  /-- In `issue_with_retry`. -/
  | issuing
  | stopped
  deriving DecidableEq

structure SideTask where
  kind : SideKind
  phase : SidePhase
  shut : Nat
  deriving DecidableEq

/-- What a listener does: it goes on to another branch, or a step of its loop. -/
inductive HttpStep where
  | moved (poll : Poll)
  | loop (e : LoopStep)

namespace HttpTask

def running (t : HttpTask) : Bool := t.loop.loop.running

/-- What the loop does next: its `select!` is biased, and polled anew when nothing was there. -/
def next (reload shutdown : Broadcast Unit) (t : HttpTask) (ready : Ready) (files : TlsFiles) :
    HttpStep :=
  match t.loop.phase with
  | .waiting =>
    match t.poll with
    | .shutdown => if (shutdown.recv 1 t.shut).isSome then .loop .shutdown else .moved .reload
    | .reload => if (reload.recv 1 t.loop.next).isSome then .loop .recv else .moved .accept
    | .accept =>
      match ready with
      | .pending => .moved .shutdown
      | .conn conn => .loop (.accepted conn)
      | .error => .loop .acceptError
  | .received => .loop .read
  | .read _ => .loop (.apply files)

/-- The listener after it. -/
def after (ext : External) (config : Config) (reload : Broadcast Unit) (t : HttpTask) :
    HttpStep → HttpTask
  | .moved poll => { t with poll }
  | .loop e => { t with loop := t.loop.step ext config reload e, poll := .shutdown }

end HttpTask

/-- What a step of a side task does. -/
inductive SideOutcome where
  | quiet
  | accepted
  /-- A renewed certificate is announced on the reload channel. -/
  | renewed
  deriving DecidableEq

namespace SideTask

/-- `ready` is whether a connection is there or a check finds the certificate due, `issued` how an
issuance ends. -/
def step (shutdown : Broadcast Unit) (t : SideTask) (ready issued : Bool) :
    SideTask × SideOutcome :=
  match t.phase with
  | .waiting =>
    if (shutdown.recv 1 t.shut).isSome then ({ t with phase := .stopped }, .quiet)
    else ({ t with phase := .polled }, .quiet)
  | .polled =>
    if ready then
      match t.kind with
      | .stream | .mail => ({ t with phase := .waiting }, .accepted)
      | .renewal => ({ t with phase := .issuing }, .quiet)
    else ({ t with phase := .waiting }, .quiet)
  | .issuing => ({ t with phase := .waiting }, if issued then .renewed else .quiet)
  | .stopped => (t, .quiet)

end SideTask

/-! ## The machine -/

/-- Where the signal handler is. -/
inductive SignalPhase where
  | notStarted
  /-- In its `select!`. -/
  | waiting
  /-- A SIGHUP has read the configuration, and this is the path it makes of it. -/
  | hangup (path : Text)
  /-- The file is loaded. -/
  | loaded (config : ConfigFile)
  /-- The configuration is swapped. -/
  | swapped
  /-- A SIGTERM or SIGINT has been passed on. -/
  | terminated
  /-- No signal could be registered. -/
  | failed
  deriving DecidableEq

structure DaemonState where
  /-- What `Server::run` read when it began. -/
  snapshot : ConfigFile
  /-- What is behind the lock. -/
  config : ConfigFile
  reload : Broadcast Unit := {}
  shutdown : Broadcast Unit := {}
  signal : SignalPhase := .notStarted
  http : List HttpTask := []
  side : List SideTask := []

inductive DaemonInput where
  /-- `Server::run` starts the listener of a block's listen directive. -/
  | spawn (files : TlsFiles) (idx directive : Nat)
  /-- It starts a stream or mail listener, or a renewal. -/
  | spawnSide (kind : SideKind)
  /-- It starts the signal handler, once everything else is started. -/
  | handleSignals (registered : Bool)
  /-- SIGTERM or SIGINT. -/
  | terminate
  /-- SIGHUP. -/
  | hangup
  /-- The signal handler goes on to load the file. -/
  | load (env : LoadEnv)
  /-- It goes on to swap the configuration. -/
  | swap
  /-- It goes on to announce it. -/
  | send
  /-- An HTTP listener goes on. -/
  | http (i : Nat) (ready : Ready) (files : TlsFiles)
  /-- Another task goes on. -/
  | side (i : Nat) (ready issued : Bool)

inductive DaemonEvent where
  | swapped (config : ConfigFile)
  | accepted (block : HttpBlock) (conn : Conn)
  | sideAccepted (kind : SideKind)
  | terminated

/-- What an HTTP listener's step shows. -/
def HttpTask.event (t : HttpTask) : HttpStep → Option DaemonEvent
  | .loop (.accepted conn) => some (.accepted t.loop.loop.httpBlock conn)
  | _ => none

namespace DaemonState

/-- The listener started for a listen directive. -/
def spawned (ext : External) (s : DaemonState) (files : TlsFiles) (idx directive : Nat) :
    Option HttpTask :=
  match s.snapshot.http[idx]? with
  | none => none
  | some block =>
    ((block.listen[directive]?).bind (HttpLoop.start ext files block idx)).map fun loop =>
      { loop := ⟨loop, s.reload.subscribe, .waiting⟩, shut := s.shutdown.subscribe }

/-- The step of an HTTP listener, if it runs. -/
def httpStep (s : DaemonState) (i : Nat) (ready : Ready) (files : TlsFiles) :
    Option (HttpTask × HttpStep) :=
  match s.http[i]? with
  | none => none
  | some t => if t.running then some (t, t.next s.reload s.shutdown ready files) else none

def step (ext : External) (s : DaemonState) : DaemonInput → DaemonState × Option DaemonEvent
  | .spawn files idx directive =>
    match s.signal, s.spawned ext files idx directive with
    | .notStarted, some t => ({ s with http := s.http ++ [t] }, none)
    | _, _ => (s, none)
  | .spawnSide kind =>
    match s.signal with
    | .notStarted => ({ s with side := s.side ++ [⟨kind, .waiting, s.shutdown.subscribe⟩] }, none)
    | _ => (s, none)
  | .handleSignals registered =>
    match s.signal with
    | .notStarted => ({ s with signal := if registered then .waiting else .failed }, none)
    | _ => (s, none)
  | .terminate =>
    match s.signal with
    | .waiting =>
      ({ s with signal := .terminated, shutdown := s.shutdown.send () }, some .terminated)
    | _ => (s, none)
  | .hangup =>
    match s.signal, s.config.global.pidFile with
    | .waiting, some pidFile => ({ s with signal := .hangup (reloadPath pidFile) }, none)
    -- without a PID file there is no path to load
    | _, _ => (s, none)
  | .load env =>
    match s.signal with
    | .hangup path =>
      match ConfigFile.load ext env path with
      | .ok config => ({ s with signal := .loaded config }, none)
      | .error _ => ({ s with signal := .waiting }, none)
    | _ => (s, none)
  | .swap =>
    match s.signal with
    | .loaded config => ({ s with config, signal := .swapped }, some (.swapped config))
    | _ => (s, none)
  | .send =>
    match s.signal with
    | .swapped => ({ s with reload := s.reload.send (), signal := .waiting }, none)
    | _ => (s, none)
  | .http i ready files =>
    match s.httpStep i ready files with
    | none => (s, none)
    | some (t, e) =>
      ({ s with http := s.http.set i (t.after ext s.config.toConfig s.reload e) }, t.event e)
  | .side i ready issued =>
    match s.side[i]? with
    | none => (s, none)
    | some t =>
      let (t', o) := t.step s.shutdown ready issued
      let s' := { s with side := s.side.set i t' }
      match o with
      | .quiet => (s', none)
      | .accepted => (s', some (.sideAccepted t.kind))
      | .renewed => ({ s' with reload := s.reload.send () }, none)

def machine (ext : External) : Machine DaemonState DaemonInput (Option DaemonEvent) :=
  ⟨step ext⟩

/-- A server that has just read its configuration. -/
def init (config : ConfigFile) : DaemonState where
  snapshot := config
  config := config

end DaemonState

/-! ## The command line -/

structure Args where
  config : Option Text := none
  test : Bool := false

/-- What `main` goes on with. -/
inductive Started where
  | checked
  | serving (s : DaemonState)

/-- `main`, up to what it serves. -/
def start (ext : External) (env : LoadEnv) (args : Args) : Except LoadError Started :=
  match ConfigFile.load ext env (args.config.getD "./flexd.conf".toList) with
  | .error e => .error e
  | .ok config => .ok (if args.test then .checked else .serving (.init config))

/-- What is served is what has been loaded. -/
theorem start_eq_serving {ext : External} {env : LoadEnv} {args : Args} {s : DaemonState}
    (h : start ext env args = .ok (.serving s)) :
    ∃ config : ConfigFile, Validated ext config.toConfig ∧ s = .init config := by
  unfold start at h
  split at h
  · cases h
  · next config hload =>
    cases ht : args.test with
    | true => simp [ht] at h
    | false =>
      simp only [ht, Bool.false_eq_true, if_false, Except.ok.injEq, Started.serving.injEq] at h
      exact ⟨config, validated_of_load hload, h.symm⟩

/-! ## What a step can do -/

variable {ext : External} {s : DaemonState}

/-- **Every step**, by what it changes and shows. -/
inductive Steps (ext : External) (s : DaemonState) : DaemonState → Option DaemonEvent → Prop where
  | stutter : Steps ext s s none
  | spawn (files : TlsFiles) (idx directive : Nat) (t : HttpTask) (hsig : s.signal = .notStarted)
      (ht : s.spawned ext files idx directive = some t) :
      Steps ext s { s with http := s.http ++ [t] } none
  | spawnSide (kind : SideKind) (hsig : s.signal = .notStarted) :
      Steps ext s { s with side := s.side ++ [⟨kind, .waiting, s.shutdown.subscribe⟩] } none
  | handle (phase : SignalPhase) (hsig : s.signal = .notStarted)
      (hp : phase = .waiting ∨ phase = .failed) : Steps ext s { s with signal := phase } none
  | terminate (hsig : s.signal = .waiting) :
      Steps ext s { s with signal := .terminated, shutdown := s.shutdown.send () }
        (some .terminated)
  | hangup (path : Text) (hsig : s.signal = .waiting) :
      Steps ext s { s with signal := .hangup path } none
  | loaded (path : Text) (config : ConfigFile) (hsig : s.signal = .hangup path)
      (hv : Validated ext config.toConfig) : Steps ext s { s with signal := .loaded config } none
  | rejected (path : Text) (hsig : s.signal = .hangup path) :
      Steps ext s { s with signal := .waiting } none
  | swap (config : ConfigFile) (hsig : s.signal = .loaded config) :
      Steps ext s { s with config, signal := .swapped } (some (.swapped config))
  | send (hsig : s.signal = .swapped) :
      Steps ext s { s with reload := s.reload.send (), signal := .waiting } none
  | http (i : Nat) (ready : Ready) (files : TlsFiles) (t : HttpTask) (e : HttpStep)
      (ht : s.http[i]? = some t) (hrun : t.running = true)
      (he : t.next s.reload s.shutdown ready files = e) :
      Steps ext s { s with http := s.http.set i (t.after ext s.config.toConfig s.reload e) }
        (t.event e)
  | side (i : Nat) (ready issued : Bool) (t t' : SideTask) (o : SideOutcome)
      (ht : s.side[i]? = some t) (he : t.step s.shutdown ready issued = (t', o)) :
      Steps ext s { s with
        side := s.side.set i t'
        reload := if o = .renewed then s.reload.send () else s.reload }
        (if o = .accepted then some (.sideAccepted t.kind) else none)

theorem steps_of_httpStep {i : Nat} {ready : Ready} {files : TlsFiles} {t : HttpTask}
    {e : HttpStep} (h : s.httpStep i ready files = some (t, e)) :
    s.http[i]? = some t ∧ t.running = true ∧ t.next s.reload s.shutdown ready files = e := by
  unfold DaemonState.httpStep at h
  split at h
  · cases h
  · next t' ht =>
    split at h
    · next hrun =>
      cases h
      exact ⟨ht, hrun, rfl⟩
    · cases h

theorem step_steps (ext : External) (s : DaemonState) (i : DaemonInput) :
    Steps ext s (s.step ext i).1 (s.step ext i).2 := by
  cases i with
  | spawn files idx directive =>
    simp only [DaemonState.step]
    split
    · next hsig ht => exact .spawn files idx directive _ hsig ht
    · exact .stutter
  | spawnSide kind =>
    simp only [DaemonState.step]
    split
    · next hsig => exact .spawnSide kind hsig
    · exact .stutter
  | handleSignals registered =>
    simp only [DaemonState.step]
    split
    · next hsig => exact .handle _ hsig (by cases registered <;> simp)
    · exact .stutter
  | terminate =>
    simp only [DaemonState.step]
    split
    · next hsig => exact .terminate hsig
    · exact .stutter
  | hangup =>
    simp only [DaemonState.step]
    split
    · next hsig _ => exact .hangup _ hsig
    · exact .stutter
  | load env =>
    simp only [DaemonState.step]
    split
    · next path hsig =>
      split
      · next config hload => exact .loaded path config hsig (validated_of_load hload)
      · exact .rejected path hsig
    · exact .stutter
  | swap =>
    simp only [DaemonState.step]
    split
    · next config hsig => exact .swap config hsig
    · exact .stutter
  | send =>
    simp only [DaemonState.step]
    split
    · next hsig => exact .send hsig
    · exact .stutter
  | http i ready files =>
    simp only [DaemonState.step]
    split
    · exact .stutter
    · next t e h =>
      obtain ⟨ht, hrun, he⟩ := steps_of_httpStep h
      exact .http i ready files t e ht hrun he
  | side i ready issued =>
    simp only [DaemonState.step]
    split
    · exact .stutter
    · next t ht =>
      rcases hp : t.step s.shutdown ready issued with ⟨t', o⟩
      have hside : Steps ext s _ _ := .side i ready issued t t' o ht hp
      cases o <;> simpa using hside

namespace Sample

/-- A configuration file that has the one block at first, and then the other. -/
def fileEnv (block : HttpBlock) : LoadEnv where
  json _ := none
  toml _ := some { http := [block], global := { pidFile := some "flexd.pid".toList } }
  readToString _ := some []
  host := .bare

/-- The server of the one block, started. -/
def alphaDaemon : DaemonState :=
  .init { http := [alphaBlock], global := { pidFile := some "flexd.pid".toList } }

end Sample

end Flexd
