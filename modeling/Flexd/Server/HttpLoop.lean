import Flexd.Server.AcceptLoop

/-!
# QUIC listeners, and the HTTP listeners of either kind

The QUIC loop swaps its block on a reload like the accept loop does, but its
endpoint keeps the configuration it was started with. `HttpLoop` is a listener
of either kind while it runs; `httpBlock_reload` says what a reload makes it
serve, whichever kind it is.
-/

namespace Flexd

open Lib

/-- Whether a listen directive binds a QUIC socket. -/
def Protocol.isQuic : Protocol → Bool
  | .quic | .h3 | .http3 => true
  | _ => false

structure QuicListener where
  httpBlock : HttpBlock
  blockIdx : Nat
  acme : Option AcmeManager

structure QuicState where
  running : Bool
  httpBlock : HttpBlock
  quicConfig : QuicConfig

namespace QuicListener

variable (l : QuicListener)

/-- The QUIC configuration of the block, none without an ssl section or on a failed build. -/
def build (files : TlsFiles) : Option QuicConfig :=
  l.httpBlock.ssl.bind fun ssl =>
    match l.acme with
    | some m => (buildQuinnFromPaths files m.certPath m.keyPath).toOption
    | none => (buildQuinnServerConfig files ssl).toOption

/-- The loop's state when it starts to accept; none where it ends with an error before. -/
def start (files : TlsFiles) : Option QuicState :=
  (l.build files).map fun quicConfig => ⟨true, l.httpBlock, quicConfig⟩

def step (st : QuicState) (e : AcceptEvent) : QuicState :=
  if st.running then
    match e with
    | .shutdown => { st with running := false }
    | .reload config _ =>
      match config.http[l.blockIdx]? with
      | some block => { st with httpBlock := block }
      | none => st
    | .accepted _ => st
    | .acceptError => st
  else st

end QuicListener

/-! ## Either kind -/

/-- A listener that serves: an accept loop or a QUIC loop, with its state. -/
inductive HttpLoop where
  | tcp (l : Listener) (st : AcceptState)
  | quic (l : QuicListener) (st : QuicState)

namespace HttpLoop

/-- The loop `Server::run` starts for a listen directive of a block, none where it starts none:
the protocol is unknown, or it is QUIC and the block does not enable it or cannot build it. -/
def start (ext : External) (files : TlsFiles) (block : HttpBlock) (idx : Nat)
    (listen : ListenDirective) : Option HttpLoop :=
  match listen.protocol.tcpListener with
  | some isTls =>
    let l : Listener := ⟨block, idx, isTls, acmeManager block⟩
    some (.tcp l (l.start ext files))
  | none =>
    if listen.protocol.isQuic && block.http3 then
      let l : QuicListener := ⟨block, idx, acmeManager block⟩
      (l.start files).map (.quic l)
    else none

def blockIdx : HttpLoop → Nat
  | .tcp l _ => l.blockIdx
  | .quic l _ => l.blockIdx

def acme : HttpLoop → Option AcmeManager
  | .tcp l _ => l.acme
  | .quic l _ => l.acme

def running : HttpLoop → Bool
  | .tcp _ st => st.running
  | .quic _ st => st.running

/-- The block new connections are handled with. -/
def httpBlock : HttpLoop → HttpBlock
  | .tcp _ st => st.httpBlock
  | .quic _ st => st.httpBlock

def step (ext : External) : HttpLoop → AcceptEvent → HttpLoop
  | .tcp l st, e => .tcp l (l.step ext st e).1
  | .quic l st, e => .quic l (l.step st e)

/-- The chain a handshake on the listener presents, none where there is no TLS. -/
def present (tlsAlpn : Text → Option (List Bytes)) (hello : ClientHello) :
    HttpLoop → Option (List Bytes)
  | .tcp _ st => st.tlsAcceptor.bind fun a => a.present tlsAlpn hello
  | .quic _ st => some [st.quicConfig.cert]

variable {ext : External}

@[simp] theorem blockIdx_step (loop : HttpLoop) (e : AcceptEvent) :
    (loop.step ext e).blockIdx = loop.blockIdx := by
  cases loop <;> rfl

/-- **A reload**, on a listener of either kind: it goes on with the block of its index, or with
the one it had when there is none. -/
theorem httpBlock_reload (ext : External) {loop : HttpLoop} (h : loop.running = true)
    (config : Config) (files : TlsFiles) :
    (loop.step ext (.reload config files)).running = true ∧
      (loop.step ext (.reload config files)).httpBlock =
        (config.http[loop.blockIdx]?).getD loop.httpBlock := by
  cases loop with
  | tcp l st =>
    have hr : st.running = true := h
    simp only [step, running, httpBlock, blockIdx, Listener.step, hr, if_true]
    cases config.http[l.blockIdx]? with
    | none => exact ⟨hr, rfl⟩
    | some block => exact ⟨rfl, rfl⟩
  | quic l st =>
    have hr : st.running = true := h
    simp only [step, running, httpBlock, blockIdx, QuicListener.step, hr, if_true]
    cases config.http[l.blockIdx]? with
    | none => exact ⟨hr, rfl⟩
    | some block => exact ⟨rfl, rfl⟩

/-- The loop after a shutdown. -/
def stop : HttpLoop → HttpLoop
  | .tcp l st => .tcp l { st with running := false }
  | .quic l st => .quic l { st with running := false }

@[simp] theorem httpBlock_stop (loop : HttpLoop) : loop.stop.httpBlock = loop.httpBlock := by
  cases loop <;> rfl

theorem step_of_not_running {loop : HttpLoop} (h : loop.running = false) (e : AcceptEvent) :
    loop.step ext e = loop := by
  cases loop with
  | tcp l st =>
    have hr : st.running = false := h
    simp [step, Listener.step, hr]
  | quic l st =>
    have hr : st.running = false := h
    simp [step, QuicListener.step, hr]

/-- **Between reloads** a listener goes on as it is, or stops. -/
theorem step_of_ne_reload {loop : HttpLoop} {e : AcceptEvent}
    (h : ∀ config files, e ≠ .reload config files) :
    loop.step ext e = loop ∨ loop.step ext e = loop.stop := by
  cases hr : loop.running with
  | false => exact .inl (step_of_not_running hr e)
  | true =>
    cases loop with
    | tcp l st =>
      have hr : st.running = true := hr
      cases e with
      | reload config files => exact absurd rfl (h config files)
      | shutdown => exact .inr (by simp [step, stop, Listener.step, hr])
      | accepted conn => exact .inl (by simp [step, Listener.step, hr])
      | acceptError => exact .inl (by simp [step, Listener.step, hr])
    | quic l st =>
      have hr : st.running = true := hr
      cases e with
      | reload config files => exact absurd rfl (h config files)
      | shutdown => exact .inr (by simp [step, stop, QuicListener.step, hr])
      | accepted conn => exact .inl (by simp [step, QuicListener.step, hr])
      | acceptError => exact .inl (by simp [step, QuicListener.step, hr])

/-- Between reloads a listener keeps its block. -/
theorem httpBlock_step_eq {loop : HttpLoop} {e : AcceptEvent}
    (h : ∀ config files, e ≠ .reload config files) :
    (loop.step ext e).httpBlock = loop.httpBlock := by
  rcases step_of_ne_reload h with hst | hst
  · rw [hst]
  · rw [hst, httpBlock_stop]

theorem running_of_step {loop : HttpLoop} {e : AcceptEvent}
    (h : (loop.step ext e).running = true) : loop.running = true := by
  cases hr : loop.running with
  | true => rfl
  | false => rwa [step_of_not_running hr, hr] at h

theorem start_spec {files : TlsFiles} {block : HttpBlock} {idx : Nat} {listen : ListenDirective}
    {loop : HttpLoop} (h : start ext files block idx listen = some loop) :
    loop.running = true ∧ loop.httpBlock = block ∧ loop.blockIdx = idx ∧
      loop.acme = acmeManager block := by
  unfold start at h
  split at h
  · cases h
    exact ⟨rfl, rfl, rfl, rfl⟩
  · split at h
    · obtain ⟨st, hst, rfl⟩ := Option.map_eq_some_iff.mp h
      obtain ⟨c, -, rfl⟩ := Option.map_eq_some_iff.mp hst
      exact ⟨rfl, rfl, rfl, rfl⟩
    · cases h

end HttpLoop

namespace Sample

/-- Two servers, each on a port of its own. -/
def alphaBlock : HttpBlock where
  listen := [{ port := 8080 }]
  serverName := ["alpha".toList]

def betaBlock : HttpBlock where
  listen := [{ port := 8081 }]
  serverName := ["beta".toList]

/-- The accept loop of a server at the first position, before any reload. -/
def firstLoop (block : HttpBlock) : HttpLoop :=
  .tcp ⟨block, 0, false, none⟩ ⟨true, block, none⟩

end Sample

end Flexd
