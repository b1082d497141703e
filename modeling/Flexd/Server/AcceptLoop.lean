import Flexd.Config.Validate
import Flexd.Lib.Machine
import Flexd.Tls

/-!
# The accept loop

A listener is a state machine over what its `select!` receives: shutdown,
reloads, connections. It serves through a TLS acceptor where it has one, and
otherwise hands the raw stream to the HTTP/1 parser, also when the listener is
a TLS one. `acceptLoop_raw_iff` says for every run when that happens.
-/

namespace Flexd

open Lib

/-! ## Listeners -/

/-- The ACME manager of a block, as the accept loop uses it. -/
structure AcmeManager where
  certDir : Text
  deriving DecidableEq

namespace AcmeManager

def certPath (m : AcmeManager) : Text := m.certDir ++ "/cert.pem".toList
def keyPath (m : AcmeManager) : Text := m.certDir ++ "/key.pem".toList

end AcmeManager

structure Listener where
  httpBlock : HttpBlock
  blockIdx : Nat
  isTls : Bool
  acme : Option AcmeManager

/-- The manager of a block with ACME enabled. -/
def acmeManager (block : HttpBlock) : Option AcmeManager :=
  match block.ssl.bind (·.acme) with
  | some acme => if acme.enabled then some ⟨acme.certDir⟩ else none
  | none => none

/-- Whether a listen directive makes a TCP listener for HTTP, and whether over TLS. -/
def Protocol.tcpListener : Protocol → Option Bool
  | .tcp | .http => some false
  | .tls | .https => some true
  | _ => none

/-- The HTTP listeners `Server::run` serves with an accept loop. -/
def listeners (config : Config) : List Listener :=
  config.http.zipIdx.flatMap fun (block, idx) =>
    block.listen.filterMap fun listen =>
      listen.protocol.tcpListener.map fun isTls => ⟨block, idx, isTls, acmeManager block⟩

/-! ## Line endings -/

/-- The position of the first blank line. -/
def crlfCrlf : Bytes → Option Nat
  | [] => none
  | b :: rest =>
    if [13, 10, 13, 10].isPrefixOf (b :: rest) then some 0 else (crlfCrlf rest).map (· + 1)

/-- Whether a line feed follows something else than a carriage return. -/
def bareLfAfter : Option UInt8 → Bytes → Bool
  | _, [] => false
  | prev, b :: rest => (b = 10 && prev ≠ some 13) || bareLfAfter (some b) rest

/-- `has_bare_lf`: a bare line feed in the header section. -/
def hasBareLf (buf : Bytes) : Bool :=
  bareLfAfter none (buf.take (((crlfCrlf buf).map (· + 4)).getD buf.length))

/-! ## The loop -/

inductive Handshake where
  | completed (h2 : Bool)
  | failed
  | timedOut
  deriving DecidableEq

/-- An accepted connection: what the limits say, how a TLS handshake on it would go, and the first
bytes a plain read gives (none on an error or a timeout). -/
structure Conn where
  memoryPressure : Bool
  slotAcquired : Bool
  handshake : Handshake
  peek : Option Bytes
  deriving DecidableEq

/-- What becomes of the bytes of a connection. -/
inductive Served where
  /-- They are parsed as HTTP/1 as they come. -/
  | rawHttp1
  | tlsHttp1
  | tlsHttp2
  /-- They reach no parser. -/
  | closed
  deriving DecidableEq

inductive AcceptEvent where
  | shutdown
  | reload (config : Config) (files : TlsFiles)
  | accepted (conn : Conn)
  | acceptError

structure AcceptState where
  running : Bool
  httpBlock : HttpBlock
  tlsAcceptor : Option TlsAcceptor

namespace Listener

variable (ext : External) (l : Listener)

/-- The acceptor of a block, by its ssl section or the ACME manager. -/
def build (ssl : SslSettings) (files : TlsFiles) : Except TlsError TlsAcceptor :=
  match l.acme with
  | some m => buildTlsAcceptorAcme ext files m.certPath m.keyPath ssl.protocols
  | none => buildTlsAcceptor ext files ssl

/-- The acceptor after a build: without an ssl section the old one stays, and a failed build
leaves none. -/
def rebuild (block : HttpBlock) (files : TlsFiles) (old : Option TlsAcceptor) :
    Option TlsAcceptor :=
  if l.isTls then
    match block.ssl with
    | some ssl => (l.build ext ssl files).toOption
    | none => old
  else old

def start (files : TlsFiles) : AcceptState :=
  ⟨true, l.httpBlock, l.rebuild ext l.httpBlock files none⟩

/-- `serve_http1_with_bare_lf_check`: the peeked bytes go to the parser unless there are none or
they have a bare line feed. -/
def servePlain (conn : Conn) : Served :=
  match conn.peek with
  | none => .closed
  | some buf => if buf = [] then .closed else if hasBareLf buf then .closed else .rawHttp1

def serve (acceptor : Option TlsAcceptor) (conn : Conn) : Served :=
  -- `send_503` runs the HTTP/1 parser on the stream it refuses
  if conn.memoryPressure then .rawHttp1
  else if !conn.slotAcquired then .rawHttp1
  else
    match acceptor with
    | some _ =>
      match conn.handshake with
      | .completed h2 => if h2 then .tlsHttp2 else .tlsHttp1
      | .failed | .timedOut => .closed
    | none => servePlain conn

def step (st : AcceptState) (e : AcceptEvent) : AcceptState × Option Served :=
  if st.running then
    match e with
    | .shutdown => ({ st with running := false }, none)
    | .reload config files =>
      match config.http[l.blockIdx]? with
      | some block => (⟨true, block, l.rebuild ext block files st.tlsAcceptor⟩, none)
      | none => (st, none)
    | .accepted conn => (st, some (serve st.tlsAcceptor conn))
    | .acceptError => (st, none)
  else (st, none)

/-- The accept loop of a listener. -/
def acceptLoop : Machine AcceptState AcceptEvent (Option Served) := ⟨l.step ext⟩

/-! ## Builds along a run -/

/-- Whether a build for a block succeeds; none if the block has no ssl section to build from. -/
def attempt (block : HttpBlock) (files : TlsFiles) : Option Bool :=
  block.ssl.map fun ssl => (l.build ext ssl files).toBool

/-- The build an event causes. -/
def attemptOf : AcceptEvent → Option Bool
  | .reload config files => (config.http[l.blockIdx]?).bind fun block => l.attempt ext block files
  | _ => none

/-- Whether the last build, at start-up or at a reload, succeeded. -/
def armed (files : TlsFiles) (evs : List AcceptEvent) : Bool :=
  ((evs.filterMap (l.attemptOf ext)).getLast?).getD ((l.attempt ext l.httpBlock files).getD false)

end Listener

/-- The connection is refused with 503. -/
def Conn.refused (conn : Conn) : Bool := conn.memoryPressure || !conn.slotAcquired

/-- A plain read gives something to parse. -/
def Conn.parsable (conn : Conn) : Bool := Listener.servePlain conn = .rawHttp1

variable {ext : External} {l : Listener}

/-- When the raw bytes of a connection are parsed. -/
theorem serve_eq_raw {acceptor : Option TlsAcceptor} {conn : Conn} :
    Listener.serve acceptor conn = .rawHttp1 ↔
      conn.refused = true ∨ acceptor.isSome = false ∧ conn.parsable = true := by
  unfold Listener.serve Conn.refused Conn.parsable
  cases conn.memoryPressure with
  | true => simp
  | false =>
    cases conn.slotAcquired with
    | false => simp
    | true =>
      cases acceptor with
      | none => simp
      | some a =>
        simp only [Bool.false_eq_true, if_false, Bool.not_true, Option.isSome_some, false_and,
          Bool.or_self, or_self, iff_false, Bool.true_eq_false]
        split
        · split <;> simp
        · simp
        · simp

/-- A build leaves an acceptor exactly when it succeeds. -/
theorem rebuild_isSome (ht : l.isTls = true) (block : HttpBlock) (files : TlsFiles)
    (old : Option TlsAcceptor) :
    (l.rebuild ext block files old).isSome = (l.attempt ext block files).getD old.isSome := by
  unfold Listener.rebuild Listener.attempt
  rw [if_pos ht]
  cases block.ssl with
  | none => rfl
  | some ssl =>
    cases h : l.build ext ssl files <;> simp [h, Except.toOption, Except.toBool]

/-- **One event** of a running loop: it stops, it goes on with the block of a reload, or it goes on
as it was. -/
theorem step_cases (ext : External) (l : Listener) {st : AcceptState} (hr : st.running = true)
    (e : AcceptEvent) :
    (e = .shutdown ∧ (l.step ext st e).1 = { st with running := false }) ∨
    (∃ config files block, e = .reload config files ∧ config.http[l.blockIdx]? = some block ∧
      (l.step ext st e).1 = ⟨true, block, l.rebuild ext block files st.tlsAcceptor⟩) ∨
    (e ≠ .shutdown ∧ l.attemptOf ext e = none ∧ (l.step ext st e).1 = st) := by
  unfold Listener.step
  rw [if_pos hr]
  cases e with
  | shutdown => exact .inl ⟨rfl, rfl⟩
  | accepted conn => exact .inr (.inr ⟨nofun, rfl, rfl⟩)
  | acceptError => exact .inr (.inr ⟨nofun, rfl, rfl⟩)
  | reload config files =>
    simp only [Listener.attemptOf]
    cases hb : config.http[l.blockIdx]? with
    | none => exact .inr (.inr ⟨nofun, rfl, rfl⟩)
    | some block => exact .inr (.inl ⟨config, files, block, rfl, hb, rfl⟩)

theorem step_stopped (ext : External) (l : Listener) {st : AcceptState} (hr : st.running = false)
    (e : AcceptEvent) : l.step ext st e = (st, none) := by
  simp [Listener.step, hr]

/-- Only a running loop serves, and only what it accepts. -/
theorem step_output {st : AcceptState} {e : AcceptEvent} {o : Served}
    (h : (l.step ext st e).2 = some o) :
    ∃ conn, e = .accepted conn ∧ st.running = true ∧ o = Listener.serve st.tlsAcceptor conn := by
  unfold Listener.step at h
  by_cases hr : st.running = true
  · rw [if_pos hr] at h
    cases e with
    | shutdown => cases h
    | acceptError => cases h
    | accepted conn => cases h; exact ⟨conn, rfl, hr, rfl⟩
    | reload config files =>
      simp only at h
      split at h <;> cases h
  · rw [if_neg hr] at h
    cases h

theorem run_stopped (ext : External) (l : Listener) {st : AcceptState} (hr : st.running = false)
    (evs : List AcceptEvent) : (l.acceptLoop ext).run st evs = st := by
  induction evs with
  | nil => rfl
  | cons e evs ih =>
    show (l.acceptLoop ext).run (l.step ext st e).1 evs = st
    rw [step_stopped ext l hr, ih]

/-- **A loop runs** until it is shut down. -/
theorem run_running (ext : External) (l : Listener) {st : AcceptState} (hr : st.running = true)
    (evs : List AcceptEvent) :
    ((l.acceptLoop ext).run st evs).running = true ↔ AcceptEvent.shutdown ∉ evs := by
  induction evs generalizing st with
  | nil => simp [Machine.run, hr]
  | cons e evs ih =>
    show ((l.acceptLoop ext).run (l.step ext st e).1 evs).running = true ↔ _
    obtain ⟨rfl, hst⟩ | ⟨config, files, block, rfl, -, hst⟩ | ⟨he, -, hst⟩ :=
      step_cases ext l hr e
    · rw [hst, run_stopped ext l rfl]
      simp
    · rw [hst, ih rfl]
      simp
    · rw [hst, ih hr]
      simp [Ne.symm he]

/-- **What every build keeps** holds of the acceptor all along a run. -/
theorem acceptor_run {P : Option TlsAcceptor → Prop} (h0 : P none)
    (hbuild : ∀ block files old, P old → P (l.rebuild ext block files old)) (files : TlsFiles)
    (evs : List AcceptEvent) : P ((l.acceptLoop ext).run (l.start ext files) evs).tlsAcceptor := by
  refine Machine.run_inv (fun st : AcceptState => P st.tlsAcceptor) (hbuild _ _ _ h0) ?_ evs
  intro st e hst
  show P (l.step ext st e).1.tlsAcceptor
  by_cases hr : st.running = true
  · obtain ⟨-, h⟩ | ⟨_, _, _, -, -, h⟩ | ⟨-, -, h⟩ := step_cases ext l hr e
    · rw [h]
      exact hst
    · rw [h]
      exact hbuild _ _ _ hst
    · rw [h]
      exact hst
  · rw [step_stopped ext l (by simpa using hr)]
    exact hst

/-- A listener that is no TLS one never has an acceptor. -/
theorem run_plain (hp : l.isTls = false) (files : TlsFiles) (evs : List AcceptEvent) :
    ((l.acceptLoop ext).run (l.start ext files) evs).tlsAcceptor = none := by
  refine acceptor_run (P := (· = none)) rfl ?_ files evs
  intro block files old hold
  simpa [Listener.rebuild, hp] using hold

theorem armed_concat (files : TlsFiles) (evs : List AcceptEvent) (e : AcceptEvent) :
    l.armed ext files (evs ++ [e]) = (l.attemptOf ext e).getD (l.armed ext files evs) := by
  unfold Listener.armed
  rw [List.filterMap_append]
  cases h : l.attemptOf ext e with
  | none => simp [h]
  | some b => simp [h]

/-- **The last build decides** whether a TLS listener that runs has an acceptor. -/
theorem run_armed (ht : l.isTls = true) (files : TlsFiles) {evs : List AcceptEvent}
    (hs : AcceptEvent.shutdown ∉ evs) :
    ((l.acceptLoop ext).run (l.start ext files) evs).tlsAcceptor.isSome =
      l.armed ext files evs := by
  induction evs using List.reverseRecOn with
  | nil => exact rebuild_isSome ht l.httpBlock files none
  | append_singleton evs e ih =>
    rw [List.mem_append, not_or] at hs
    have hstart : (l.start ext files).running = true := rfl
    have hr := (run_running ext l hstart evs).mpr hs.1
    rw [Machine.run_append, armed_concat, ← ih hs.1]
    generalize (l.acceptLoop ext).run (l.start ext files) evs = st at hr
    show (l.step ext st e).1.tlsAcceptor.isSome = _
    obtain ⟨rfl, -⟩ | ⟨config, files', block, rfl, hb, hst⟩ | ⟨-, hatt, hst⟩ :=
      step_cases ext l hr e
    · exact absurd (List.mem_singleton.mpr rfl) hs.2
    · rw [hst, rebuild_isSome ht, Listener.attemptOf, hb]
      rfl
    · rw [hst, hatt]
      rfl

/-- **Over every run of a TLS listener, raw bytes are never parsed exactly when every connection
before shutdown is admitted and finds the last build to have succeeded, or sends nothing to
parse.** -/
theorem acceptLoop_raw_iff (ht : l.isTls = true) (files : TlsFiles) (evs : List AcceptEvent) :
    (∀ o ∈ (l.acceptLoop ext).outputs (l.start ext files) evs, o ≠ some .rawHttp1) ↔
    ∀ pre conn post, evs = pre ++ .accepted conn :: post → AcceptEvent.shutdown ∉ pre →
      conn.refused = false ∧ (l.armed ext files pre = true ∨ conn.parsable = false) := by
  have hrun : ∀ pre, ((l.acceptLoop ext).run (l.start ext files) pre).running = true ↔
      AcceptEvent.shutdown ∉ pre := run_running ext l rfl
  have hserve : ∀ pre conn, AcceptEvent.shutdown ∉ pre →
      (Listener.serve ((l.acceptLoop ext).run (l.start ext files) pre).tlsAcceptor conn ≠
        .rawHttp1 ↔
      conn.refused = false ∧ (l.armed ext files pre = true ∨ conn.parsable = false)) := by
    intro pre conn hs
    rw [← run_armed ht files hs, Ne, serve_eq_raw]
    generalize ((l.acceptLoop ext).run (l.start ext files) pre).tlsAcceptor.isSome = armed
    cases conn.refused <;> cases conn.parsable <;> cases armed <;> simp
  rw [Machine.forall_mem_outputs]
  constructor
  · intro hall pre conn post he hs
    refine (hserve pre conn hs).mp fun hraw => hall pre _ post he ?_
    show (l.step ext _ _).2 = _
    simp [Listener.step, (hrun pre).mpr hs, hraw]
  · intro hcond pre e post he hraw
    obtain ⟨conn, rfl, hr, ho⟩ := step_output hraw
    -- the loop still runs, so nothing before has shut it down
    have hs := (hrun pre).mp hr
    exact (hserve pre conn hs).mpr (hcond pre conn post he hs) ho.symm

namespace Sample

/-- A TLS listener without an ssl section. -/
def bareTlsBlock : HttpBlock where
  listen := [{ port := 443, protocol := .tls }]

def bareTlsListener : Listener := ⟨bareTlsBlock, 0, true, none⟩

/-- Files that do not open. -/
def noFiles : TlsFiles :=
  ⟨fun _ => false, fun _ => none, fun _ => none, fun _ => none, fun _ _ => false, fun _ => false⟩

/-- A TLS listener with a certificate. -/
def certListener : Listener :=
  ⟨{ bareTlsBlock with
    ssl := some { certificate := some "c.pem".toList, certificateKey := some "k.pem".toList } },
    0, true, none⟩

/-- Files that hold a certificate and a key that belong together. -/
def certFiles : TlsFiles :=
  ⟨fun _ => true, fun _ => some [[1]], fun _ => some [[2]], fun _ => none, fun _ _ => true,
    fun _ => true⟩

/-- A connection whose first read gives a request line. -/
def plainConn : Conn := ⟨false, true, .failed, some (utf8 "GET / HTTP/1.1\r\n\r\n".toList)⟩

end Sample

open Sample

theorem acceptLoop_raw_iff_certificate :
    certListener.isTls = true ∧
    ((∀ o ∈ (certListener.acceptLoop .sample).outputs (certListener.start .sample certFiles)
        [.accepted plainConn], o ≠ some .rawHttp1) ↔
    ∀ pre conn post, [.accepted plainConn] = pre ++ .accepted conn :: post →
      AcceptEvent.shutdown ∉ pre → conn.refused = false ∧
        (certListener.armed .sample certFiles pre = true ∨ conn.parsable = false)) :=
  ⟨rfl, acceptLoop_raw_iff rfl certFiles [.accepted plainConn]⟩

/-- A validated TLS listener without an ssl section serves plain HTTP. -/
theorem acceptLoop_serves_plaintext :
    ¬ ∀ config : Config, config.validate .sample .bare = .ok () →
      ∀ l ∈ listeners config, l.isTls = true → ∀ (files : TlsFiles) (evs : List AcceptEvent),
      ∀ o ∈ (l.acceptLoop .sample).outputs (l.start .sample files) evs, o ≠ some .rawHttp1 := by
  intro h
  exact h { http := [bareTlsBlock] } (by decide) bareTlsListener (List.mem_singleton.mpr rfl) rfl
    noFiles [.accepted plainConn] _ (List.mem_singleton.mpr rfl) (by decide)

end Flexd
