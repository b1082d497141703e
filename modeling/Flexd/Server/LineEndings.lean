import Flexd.Server.AcceptLoop

/-!
# Line endings over a connection

A client's bytes come in reads. A plain connection is looked at once, in the
first read of at most 4096 bytes, and what follows it goes to the parser through
a guard that only gives the first read back (`polls_conserve`); a TLS connection
is not looked at, and neither is one that is refused with 503.
`bareLfRejected_iff` says, for every stream and every way of cutting it, when a
line feed without its carriage return is turned away.
-/

namespace Flexd

open Lib

/-! ## Reads -/

/-- What is still to come on a socket, read by read. -/
abbrev Socket := List Bytes

namespace Socket

/-- A read into a buffer of `cap` bytes; what does not fit stays for the next read. -/
def read (cap : Nat) : Socket → Bytes × Socket
  | [] => ([], [])
  | chunk :: rest =>
    (chunk.take cap, if chunk.length ≤ cap then rest else chunk.drop cap :: rest)

/-- A read takes bytes off the stream and leaves the others in order. -/
theorem read_conserves (cap : Nat) (s : Socket) :
    (s.read cap).1 ++ (s.read cap).2.flatten = s.flatten := by
  cases s with
  | nil => rfl
  | cons chunk rest =>
    simp only [read]
    split
    · rename_i h
      simp [List.take_of_length_le h]
    · simp [← List.append_assoc]

end Socket

/-- A stream whose first read was taken off and is given back. -/
structure BareLfGuard where
  inner : Socket
  prefixBuf : Bytes
  prefixPos : Nat
  rejected : Bool

namespace BareLfGuard

def new (inner : Socket) (prefixBuf : Bytes) (rejected : Bool) : BareLfGuard :=
  ⟨inner, prefixBuf, 0, rejected⟩

/-- `poll_read` into a buffer with room for `remaining` bytes. -/
def pollRead (g : BareLfGuard) (remaining : Nat) : BareLfGuard × Bytes :=
  if g.rejected then (g, [])
  else if g.prefixPos < g.prefixBuf.length then
    let rest := g.prefixBuf.drop g.prefixPos
    let toCopy := min rest.length remaining
    ({ g with prefixPos := g.prefixPos + toCopy }, rest.take toCopy)
  else
    let (bytes, inner) := g.inner.read remaining
    ({ g with inner := inner }, bytes)

/-- The parser polls with whatever room its buffer has. -/
def reader : Machine BareLfGuard Nat Bytes := ⟨pollRead⟩

/-- The bytes still to be given out. -/
def rest (g : BareLfGuard) : Bytes :=
  if g.rejected then [] else g.prefixBuf.drop g.prefixPos ++ g.inner.flatten

/-- **One poll** takes its bytes off the front of what is still to be given out. -/
theorem pollRead_conserves (g : BareLfGuard) (remaining : Nat) :
    (g.pollRead remaining).2 ++ (g.pollRead remaining).1.rest = g.rest := by
  unfold pollRead rest
  by_cases hr : g.rejected = true
  · simp [hr]
  · by_cases hp : g.prefixPos < g.prefixBuf.length
    · simp only [hr, hp, if_true, Bool.false_eq_true, if_false]
      rw [← List.append_assoc, ← List.drop_drop, List.take_append_drop]
    · have hdrop : g.prefixBuf.drop g.prefixPos = [] := List.drop_eq_nil_of_le (by omega)
      simp only [hr, hp, Bool.false_eq_true, if_false, hdrop, List.nil_append]
      exact Socket.read_conserves remaining g.inner

/-- **However the parser polls**, it gets the stream in order and nothing else. -/
theorem polls_conserve (g : BareLfGuard) (rooms : List Nat) :
    (reader.outputs g rooms).flatten ++ (reader.run g rooms).rest = g.rest := by
  induction rooms generalizing g with
  | nil => rfl
  | cons room rooms ih =>
    show ((g.pollRead room).2 ++ (reader.outputs (g.pollRead room).1 rooms).flatten) ++
      (reader.run (g.pollRead room).1 rooms).rest = g.rest
    rw [List.append_assoc, ih, pollRead_conserves]

end BareLfGuard

/-! ## Clients -/

/-- The size of the peek buffer. -/
def peekSize : Nat := 4096

/-- A client of a listener: its connection, and its bytes as the reads of the server return them. -/
structure Client where
  memoryPressure : Bool
  slotAcquired : Bool
  handshake : Handshake
  reads : Socket
  /-- A read that returns nothing is the end of the stream. -/
  reads_ne : ∀ chunk ∈ reads, chunk ≠ []
  /-- The first plain read fails or gives nothing for five seconds. -/
  idle : Bool

namespace Client

variable (c : Client)

def stream : Bytes := c.reads.flatten

/-- The first read of a plain connection. -/
def peek : Bytes := (c.reads.read peekSize).1

def conn : Conn :=
  ⟨c.memoryPressure, c.slotAcquired, c.handshake, if c.idle then none else some c.peek⟩

/-- What the parser reads of a connection that passed the check. -/
def guard : BareLfGuard := .new (c.reads.read peekSize).2 c.peek false

/-- The guard gives the whole stream. -/
theorem guard_rest : c.guard.rest = c.stream := Socket.read_conserves peekSize c.reads

/-- The first read gives nothing exactly at the end of the stream. -/
theorem peek_eq_nil : c.peek = [] ↔ c.reads = [] := by
  unfold peek Socket.read
  cases h : c.reads with
  | nil => simp
  | cons chunk rest =>
    have hne : chunk ≠ [] := c.reads_ne chunk (h ▸ List.mem_cons_self)
    simp [peekSize, hne]

end Client

/-! ## What becomes of the requests -/

inductive RequestOutcome where
  /-- It reaches the handler. -/
  | handled
  /-- It is answered by the server itself. -/
  | answered (status : StatusCode)
  /-- The connection is closed before it is read. -/
  | unread
  deriving DecidableEq

/-- The raw 400 answers the first request and closes the connection. -/
def badRequestFirst : List Bytes → List (Bytes × RequestOutcome)
  | [] => []
  | request :: rest => (request, .answered .badRequest) :: rest.map (·, .unread)

namespace Listener

variable (ext : External) (l : Listener)

/-- What becomes of each request of a client that connects now. `sections` are the header
sections of the requests that the HTTP/1 parser hands on from a stream. -/
def outcomes (sections : Bytes → List Bytes) (st : AcceptState) (c : Client) :
    List (Bytes × RequestOutcome) :=
  match (l.step ext st (.accepted c.conn)).2 with
  | none => (sections c.stream).map (·, .unread)
  | some .rawHttp1 =>
    if c.conn.refused then (sections c.stream).map (·, .answered .serviceUnavailable)
    else (sections c.guard.rest).map (·, .handled)
  | some .tlsHttp1 => (sections c.stream).map (·, .handled)
  -- an HTTP/2 connection has no HTTP/1 header section
  | some .tlsHttp2 => (sections c.stream).map (·, .unread)
  | some .closed =>
    if st.tlsAcceptor.isNone && c.conn.peek.any hasBareLf then
      badRequestFirst (sections c.stream)
    else (sections c.stream).map (·, .unread)

end Listener

/-- A request with a bare line feed in its header section is answered 400, if it is read at all. -/
def BareLfRejected (os : List (Bytes × RequestOutcome)) : Prop :=
  ∀ r ∈ os, bareLfAfter none r.1 = true → r.2 = .answered .badRequest ∨ r.2 = .unread

/-- No header section has a bare line feed. -/
def Strict (requests : List Bytes) : Prop := ∀ r ∈ requests, bareLfAfter none r = false

theorem bareLfRejected_unread (requests : List Bytes) :
    BareLfRejected (requests.map (·, .unread)) := by
  intro r hr _
  obtain ⟨_, -, rfl⟩ := List.mem_map.mp hr
  exact .inr rfl

theorem bareLfRejected_badRequestFirst (requests : List Bytes) :
    BareLfRejected (badRequestFirst requests) := by
  cases requests with
  | nil => intro r hr; cases hr
  | cons request rest =>
    intro r hr hbare
    rcases List.mem_cons.mp hr with rfl | hr
    · exact .inl rfl
    · exact bareLfRejected_unread rest r hr hbare

/-- Where the requests are let through or refused otherwise, none may have a bare line feed. -/
theorem bareLfRejected_map {o : RequestOutcome} (h400 : o ≠ .answered .badRequest)
    (hread : o ≠ .unread) (requests : List Bytes) :
    BareLfRejected (requests.map (·, o)) ↔ Strict requests := by
  constructor
  · intro h r hr
    cases hb : bareLfAfter none r with
    | false => rfl
    | true =>
      rcases h (r, o) (List.mem_map.mpr ⟨r, hr, rfl⟩) hb with ho | ho
      · exact absurd ho h400
      · exact absurd ho hread
  · intro h r hr hbare
    obtain ⟨s, hs, rfl⟩ := List.mem_map.mp hr
    rw [h s hs] at hbare
    cases hbare

/-! ## One connection -/

variable {ext : External} {l : Listener}

theorem step_accepted {st : AcceptState} (hr : st.running = true) (conn : Conn) :
    (l.step ext st (.accepted conn)).2 = some (Listener.serve st.tlsAcceptor conn) := by
  simp [Listener.step, hr]

theorem serve_plain {conn : Conn} (h : conn.refused = false) :
    Listener.serve none conn = Listener.servePlain conn := by
  simp only [Conn.refused, Bool.or_eq_false_iff, Bool.not_eq_false'] at h
  simp [Listener.serve, h.1, h.2]

theorem serve_tls {conn : Conn} (h : conn.refused = false) (a : TlsAcceptor) :
    Listener.serve (some a) conn =
      match conn.handshake with
      | .completed h2 => if h2 then .tlsHttp2 else .tlsHttp1
      | .failed | .timedOut => .closed := by
  simp only [Conn.refused, Bool.or_eq_false_iff, Bool.not_eq_false'] at h
  cases hh : conn.handshake <;> simp [Listener.serve, h.1, h.2, hh]

/-- An admitted connection that is not parsed as HTTP/1: over TLS it does not come to that, a plain
one is silent or shows a bare line feed in its first read. -/
def Client.TurnedAway (c : Client) (tls : Bool) : Prop :=
  if tls then c.handshake ≠ .completed false
  else c.idle = true ∨ c.reads = [] ∨ hasBareLf c.peek = true

/-- The check of a plain connection. -/
theorem servePlain_conn (c : Client) :
    (c.TurnedAway false → Listener.servePlain c.conn = .closed) ∧
      (¬ c.TurnedAway false → Listener.servePlain c.conn = .rawHttp1) := by
  simp only [Client.TurnedAway, ← c.peek_eq_nil, Listener.servePlain, Client.conn]
  cases c.idle with
  | true => simp
  | false =>
    by_cases hnil : c.peek = []
    · simp [hnil]
    · cases hlf : hasBareLf c.peek <;> simp [hnil, hlf]

variable {sections : Bytes → List Bytes} {st : AcceptState} {c : Client}

/-- A connection that is closed has its first request answered 400, or none read. -/
theorem rejected_of_closed (h : (l.step ext st (.accepted c.conn)).2 = some .closed) :
    BareLfRejected (l.outcomes ext sections st c) := by
  unfold Listener.outcomes
  rw [h]
  simp only
  split
  · exact bareLfRejected_badRequestFirst _
  · exact bareLfRejected_unread _

/-- **A refused connection**: each of its requests is answered 503. -/
theorem rejected_refused (hr : st.running = true) (href : c.conn.refused = true) :
    BareLfRejected (l.outcomes ext sections st c) ↔ Strict (sections c.stream) := by
  unfold Listener.outcomes
  rw [step_accepted hr, serve_eq_raw.mpr (.inl href)]
  simp only [href, if_true]
  exact bareLfRejected_map (by decide) (by decide) _

/-- **A plain connection** that is admitted. -/
theorem rejected_plain (hr : st.running = true) (hacc : st.tlsAcceptor = none)
    (hadm : c.conn.refused = false) :
    BareLfRejected (l.outcomes ext sections st c) ↔
      Strict (sections c.stream) ∨ c.TurnedAway false := by
  have hout : (l.step ext st (.accepted c.conn)).2 = some (Listener.servePlain c.conn) := by
    rw [step_accepted hr, hacc, serve_plain hadm]
  by_cases haway : c.TurnedAway false
  · rw [(servePlain_conn c).1 haway] at hout
    exact iff_of_true (rejected_of_closed hout) (.inr haway)
  · rw [(servePlain_conn c).2 haway] at hout
    unfold Listener.outcomes
    rw [hout]
    simp only [hadm, Bool.false_eq_true, if_false, c.guard_rest, haway, or_false]
    exact bareLfRejected_map (by decide) (by decide) _

/-- **A TLS connection** that is admitted. -/
theorem rejected_tls (hr : st.running = true) {a : TlsAcceptor} (hacc : st.tlsAcceptor = some a)
    (hadm : c.conn.refused = false) :
    BareLfRejected (l.outcomes ext sections st c) ↔
      Strict (sections c.stream) ∨ c.TurnedAway true := by
  have hout : (l.step ext st (.accepted c.conn)).2 = _ := step_accepted hr c.conn
  rw [hacc, serve_tls hadm] at hout
  have hhand : c.conn.handshake = c.handshake := rfl
  rw [hhand] at hout
  cases hh : c.handshake with
  | completed h2 =>
    rw [hh] at hout
    unfold Listener.outcomes Client.TurnedAway
    rw [hout]
    cases h2 with
    | true => simp [hh, bareLfRejected_unread]
    | false =>
      simp only [hh, if_true, Bool.false_eq_true, if_false, ne_eq, not_true_eq_false, or_false]
      exact bareLfRejected_map (by decide) (by decide) _
  | failed =>
    rw [hh] at hout
    exact iff_of_true (rejected_of_closed hout) (.inr (by simp [Client.TurnedAway, hh]))
  | timedOut =>
    rw [hh] at hout
    exact iff_of_true (rejected_of_closed hout) (.inr (by simp [Client.TurnedAway, hh]))

/-! ## Every run -/

/-- **Over every run of a listener, every stream and every way of cutting it: a bare line feed is
turned away exactly when no request has one, or the loop is shut down, or the connection is
admitted and closed before it is parsed.** -/
theorem bareLfRejected_iff (ext : External) (l : Listener) (sections : Bytes → List Bytes)
    (files : TlsFiles) (pre : List AcceptEvent) (c : Client) :
    BareLfRejected
      (l.outcomes ext sections ((l.acceptLoop ext).run (l.start ext files) pre) c) ↔
    Strict (sections c.stream) ∨ AcceptEvent.shutdown ∈ pre ∨
      (c.conn.refused = false ∧ c.TurnedAway (l.isTls && l.armed ext files pre)) := by
  have hrun : ((l.acceptLoop ext).run (l.start ext files) pre).running = true ↔ _ :=
    run_running ext l rfl pre
  by_cases hs : AcceptEvent.shutdown ∈ pre
  · have hstop : ((l.acceptLoop ext).run (l.start ext files) pre).running = false := by
      simpa [hs] using hrun
    refine iff_of_true ?_ (.inr (.inl hs))
    unfold Listener.outcomes
    rw [step_stopped ext l hstop]
    exact bareLfRejected_unread _
  · have hr := hrun.mpr hs
    simp only [hs, false_or]
    cases href : c.conn.refused with
    | true => simpa using rejected_refused hr href
    | false =>
      simp only [true_and]
      cases htls : l.isTls with
      | false => exact rejected_plain hr (run_plain htls files pre) href
      | true =>
        rw [Bool.true_and, ← run_armed htls files hs]
        cases hacc : ((l.acceptLoop ext).run (l.start ext files) pre).tlsAcceptor with
        | none => exact rejected_plain hr hacc href
        | some a => exact rejected_tls hr hacc href

namespace Sample

/-- The header sections of requests without bodies, as a parser reads them that takes a line feed
alone for the end of a line and skips blank lines before a request. `request` is what it has of
the current one, and `line` says whether something stands on the current line. -/
def lenientSections (request : Bytes) (line : Bool) : Bytes → List Bytes
  | [] => []
  | b :: rest =>
    if b = 10 then
      if line then lenientSections (request ++ [b]) false rest
      else if request = [] then lenientSections [] false rest
      else (request ++ [b]) :: lenientSections [] false rest
    else if b = 13 then
      if request = [] then lenientSections [] false rest
      else lenientSections (request ++ [b]) line rest
    else lenientSections (request ++ [b]) true rest

/-- A plain listener. -/
def plainBlock : HttpBlock where
  listen := [{ port := 80, protocol := .http }]

def plainListener : Listener := ⟨plainBlock, 0, false, none⟩

/-- A request whose lines end in line feeds alone. -/
def bareLfRequest : Bytes := utf8 "GET / HTTP/1.1\nHost: a\n\n".toList

/-- It comes in one read. -/
def oneRead : Client where
  memoryPressure := false
  slotAcquired := true
  handshake := .failed
  reads := [bareLfRequest]
  reads_ne := by decide
  idle := false

/-- Its first byte comes in a read of its own. -/
def twoReads : Client :=
  { oneRead with
    reads := [bareLfRequest.take 1, bareLfRequest.drop 1]
    reads_ne := by decide }

end Sample

open Sample

/-- In one read it is answered 400. -/
example : plainListener.outcomes .sample (lenientSections [] false)
    (plainListener.start .sample noFiles) oneRead =
    [(bareLfRequest, .answered .badRequest)] := by decide

/-- A validated plain listener hands a request with bare line feeds to the handler. -/
theorem split_read_passes_bareLf :
    ¬ ∀ config : Config, config.validate .sample .bare = .ok () → ∀ l ∈ listeners config,
      ∀ (files : TlsFiles) (pre : List AcceptEvent) (c : Client),
      BareLfRejected (l.outcomes .sample (lenientSections [] false)
        ((l.acceptLoop .sample).run (l.start .sample files) pre) c) := by
  intro h
  have hsplit := h { http := [plainBlock] } (by decide) plainListener (List.mem_singleton.mpr rfl)
    noFiles [] twoReads (bareLfRequest, .handled) (by decide) (by decide)
  revert hsplit
  decide

end Flexd
