import Flexd.Server.HttpLoop

/-!
# Renewed certificates

A renewal writes the new chain to `cert.pem` and then signals a reload, upon
which the listeners are to present it. The machine here is one listener of a
block with ACME, the files, and what the listener owes: the chain stored when
it processed a reload that was signalled after a renewal. The accept loop
loads the files again; the QUIC loop does not.
`presentsDue_iff` says which runs keep what is owed.
-/

namespace Flexd

open Lib

namespace HttpLoop

/-- The chain a listener presents to ordinary clients. -/
def chain : HttpLoop → Option (List Bytes)
  | .tcp _ st => st.tlsAcceptor.map (·.chain)
  | .quic _ st => some [st.quicConfig.cert]

theorem present_eq_chain (loop : HttpLoop) (tlsAlpn : Text → Option (List Bytes))
    {hello : ClientHello} (h : hello.acmeAlpn = false) :
    loop.present tlsAlpn hello = loop.chain := by
  cases loop with
  | tcp l st =>
    simp only [present, chain]
    cases st.tlsAcceptor with
    | none => rfl
    | some a => exact a.present_ordinary tlsAlpn h
  | quic l st => rfl

/-- The listener serves over TLS, with the certificates of the manager. -/
def Serves (m : AcmeManager) : HttpLoop → Prop
  | .tcp l _ => l.isTls = true ∧ l.acme = some m
  | .quic l _ => l.acme = some m

/-- The listener is an accept loop, and the configuration has a block with an ssl section at its
index. -/
def Rebuilds (config : Config) : HttpLoop → Prop
  | .tcp l _ => ∃ block, config.http[l.blockIdx]? = some block ∧ block.ssl.isSome = true
  | .quic _ _ => False

variable {ext : External}

@[simp] theorem chain_stop (loop : HttpLoop) : loop.stop.chain = loop.chain := by
  cases loop <;> rfl

/-- Only a reload changes the chain. -/
theorem chain_step_eq {loop : HttpLoop} {e : AcceptEvent}
    (h : ∀ config files, e ≠ .reload config files) : (loop.step ext e).chain = loop.chain := by
  rcases step_of_ne_reload h with hst | hst
  · rw [hst]
  · rw [hst, chain_stop]

/-- **One reload** with files that load: the chain is the stored one exactly when the listener
builds its acceptor again, or had that chain before. -/
theorem chain_reload_iff {m : AcmeManager} {loop : HttpLoop} (hs : loop.Serves m)
    (hr : loop.running = true) {files : TlsFiles} {stored : List Bytes} {key : Bytes}
    (hload : loadCertifiedKey files m.certPath m.keyPath = .ok (stored, key)) (config : Config) :
    (loop.step ext (.reload config files)).chain = some stored ↔
      loop.Rebuilds config ∨ loop.chain = some stored := by
  cases loop with
  | quic l st =>
    have hr : st.running = true := hr
    simp only [step, chain, Rebuilds, false_or, QuicListener.step, hr, if_true]
    cases config.http[l.blockIdx]? <;> rfl
  | tcp l st =>
    obtain ⟨htls, hacme⟩ := hs
    have hr : st.running = true := hr
    simp only [step, chain, Rebuilds, Listener.step, hr, if_true]
    cases hc : config.http[l.blockIdx]? with
    | none => simp
    | some block =>
      simp only [Listener.rebuild, htls, if_true, Option.some.injEq, exists_eq_left']
      cases hssl : block.ssl with
      | none => simp
      | some ssl =>
        simp [Listener.build, hacme, buildTlsAcceptorAcme, hload, Except.toOption, bind,
          Except.bind, pure, Except.pure]

end HttpLoop

/-! ## Runs -/

inductive RenewalEvent where
  /-- `try_issue` has stored a new certificate: the files from here on. -/
  | persisted (files : TlsFiles)
  /-- A reload is signalled. -/
  | sent
  /-- The listener processes a reload and finds this configuration. -/
  | processed (config : Config)
  | accepted (conn : Conn)
  | shutdown

structure RenewalState where
  loop : HttpLoop
  files : TlsFiles
  /-- A certificate has been renewed. -/
  renewed : Bool := false
  /-- A reload has been signalled since. -/
  signalled : Bool := false
  /-- The chain owed to clients: the one stored when such a reload was processed. -/
  due : Option (List Bytes) := none

namespace RenewalState

variable (ext : External) (m : AcmeManager)

/-- The chain in `cert.pem`, none unless the files load. -/
def stored (s : RenewalState) : Option (List Bytes) :=
  (loadCertifiedKey s.files m.certPath m.keyPath).toOption.map (·.1)

def step (s : RenewalState) : RenewalEvent → RenewalState
  | .persisted files => { s with files, renewed := true }
  | .sent => { s with signalled := s.renewed }
  | .processed config =>
    if s.loop.running then
      { s with
        loop := s.loop.step ext (.reload config s.files)
        due := if s.signalled then s.stored m else none }
    else s
  | .accepted conn => { s with loop := s.loop.step ext (.accepted conn) }
  | .shutdown => { s with loop := s.loop.step ext .shutdown }

def machine : Machine RenewalState RenewalEvent Unit := ⟨fun s e => (s.step ext m e, ())⟩

/-- Every handshake without the challenge protocol presents the chain that is owed. -/
def PresentsDue (s : RenewalState) : Prop :=
  ∀ stored, s.due = some stored → ∀ tlsAlpn hello, hello.acmeAlpn = false →
    s.loop.present tlsAlpn hello = some stored

/-- If the event is a reload that makes a chain due, the listener is an accept loop with a block
to build from, or presents that chain already. -/
def Renews (s : RenewalState) (e : RenewalEvent) : Prop :=
  ∀ config stored, e = .processed config → s.loop.running = true → s.signalled = true →
    s.stored m = some stored → s.loop.Rebuilds config ∨ s.loop.chain = some stored

variable {ext m}

theorem presentsDue_iff_chain {s : RenewalState} :
    s.PresentsDue ↔ ∀ stored, s.due = some stored → s.loop.chain = some stored := by
  constructor
  · intro h stored hd
    have hello := h stored hd (fun _ => none) ⟨none, none⟩ rfl
    rwa [HttpLoop.present_eq_chain _ _ rfl] at hello
  · intro h stored hd tlsAlpn hello ha
    rw [HttpLoop.present_eq_chain _ _ ha]
    exact h stored hd

theorem serves_step {s : RenewalState} (h : s.loop.Serves m) (e : AcceptEvent) :
    (s.loop.step ext e).Serves m := by
  cases hl : s.loop <;> rw [hl] at h <;> exact h

/-- A stored chain loads with its key. -/
theorem load_of_stored {s : RenewalState} {chain : List Bytes} (h : s.stored m = some chain) :
    ∃ key, loadCertifiedKey s.files m.certPath m.keyPath = .ok (chain, key) := by
  unfold stored at h
  cases hk : loadCertifiedKey s.files m.certPath m.keyPath with
  | error e =>
    rw [hk] at h
    cases h
  | ok p =>
    rw [hk] at h
    cases h
    exact ⟨p.2, rfl⟩

/-- **One event** keeps the owed chain presented exactly when it renews. -/
theorem presentsDue_step {s : RenewalState} (hs : s.loop.Serves m) (h : s.PresentsDue)
    (e : RenewalEvent) : (s.step ext m e).PresentsDue ↔ s.Renews m e := by
  rw [presentsDue_iff_chain] at h ⊢
  have hother : ∀ e : RenewalEvent, (∀ config, e ≠ .processed config) → s.Renews m e :=
    fun e he config _ h => absurd h (he config)
  cases e with
  | persisted files => exact iff_of_true h (hother _ fun _ => by simp)
  | sent => exact iff_of_true h (hother _ fun _ => by simp)
  | accepted conn =>
    refine iff_of_true ?_ (hother _ fun _ => by simp)
    intro stored hd
    exact (HttpLoop.chain_step_eq (by simp)).trans (h stored hd)
  | shutdown =>
    refine iff_of_true ?_ (hother _ fun _ => by simp)
    intro stored hd
    exact (HttpLoop.chain_step_eq (by simp)).trans (h stored hd)
  | processed config =>
    cases hr : s.loop.running with
    | false =>
      refine iff_of_true ?_ ?_
      · simp only [step, hr]
        exact h
      · intro _ _ _ hrun
        rw [hr] at hrun
        cases hrun
    | true =>
      have hreload : ∀ stored, s.stored m = some stored →
          ((s.loop.step ext (.reload config s.files)).chain = some stored ↔
            s.loop.Rebuilds config ∨ s.loop.chain = some stored) := by
        intro stored hst
        obtain ⟨key, hload⟩ := load_of_stored hst
        exact HttpLoop.chain_reload_iff hs hr hload config
      simp only [step, hr, if_true, Renews, RenewalEvent.processed.injEq]
      constructor
      · rintro hall _ stored rfl - hsig hst
        refine (hreload stored hst).mp (hall stored ?_)
        rw [if_pos hsig]
        exact hst
      · intro hren stored hd
        split at hd
        · next hsig => exact (hreload stored hd).mpr (hren config stored rfl trivial hsig hd)
        · cases hd

end RenewalState

/-- **Along every run of a listener with ACME, handshakes present the renewed chain exactly when
each reload that is to bring it finds an accept loop with a block to build from**, or finds that
chain presented already. -/
theorem presentsDue_iff {ext : External} {m : AcmeManager} {loop : HttpLoop}
    (hs : loop.Serves m) (files : TlsFiles) (evs : List RenewalEvent) :
    (∀ pre, pre <+: evs →
      ((RenewalState.machine ext m).run { loop, files } pre).PresentsDue) ↔
    ∀ pre e post, evs = pre ++ e :: post →
      ((RenewalState.machine ext m).run { loop, files } pre).Renews m e := by
  apply Machine.forall_prefix_iff (J := fun s : RenewalState => s.loop.Serves m)
  · intro stored hd
    cases hd
  · exact hs
  · intro s e h
    cases e with
    | persisted files => exact h
    | sent => exact h
    | accepted conn => exact RenewalState.serves_step h _
    | shutdown => exact RenewalState.serves_step h _
    | processed config =>
      simp only [RenewalState.machine, RenewalState.step]
      split
      · exact RenewalState.serves_step h _
      · exact h
  · intro s e hj hp
    exact RenewalState.presentsDue_step hj hp e

namespace Sample

/-- A server with ACME on a TLS and a QUIC listener. -/
def acmeBlock : HttpBlock where
  listen := [{ port := 443, protocol := .tls }, { port := 443, protocol := .quic }]
  ssl := some { acme := some { enabled := true } }
  http3 := true

/-- The manager of the server. -/
def acmeFiles : AcmeManager := ⟨"./acme".toList⟩

/-- Its files after a renewal: a chain of two certificates. -/
def renewedFiles : TlsFiles := { certFiles with certs := fun _ => some [[3], [4]] }

def acmeTlsLoop : HttpLoop :=
  let l : Listener := ⟨acmeBlock, 0, true, some acmeFiles⟩
  .tcp l (l.start .sample certFiles)

def acmeQuicLoop : HttpLoop :=
  .quic ⟨acmeBlock, 0, some acmeFiles⟩ ⟨true, acmeBlock, ⟨[1], [2]⟩⟩

end Sample

open Sample

theorem presentsDue_iff_tls :
    acmeTlsLoop.Serves acmeFiles ∧
    ((∀ pre, pre <+: [.persisted renewedFiles, .sent, .processed { http := [acmeBlock] }] →
      ((RenewalState.machine .sample acmeFiles).run
        { loop := acmeTlsLoop, files := certFiles } pre).PresentsDue) ↔
    ∀ pre e post, [.persisted renewedFiles, .sent, .processed { http := [acmeBlock] }] =
        pre ++ e :: post →
      ((RenewalState.machine .sample acmeFiles).run
        { loop := acmeTlsLoop, files := certFiles } pre).Renews acmeFiles e) := by
  have hs : acmeTlsLoop.Serves acmeFiles := ⟨rfl, rfl⟩
  exact ⟨hs, presentsDue_iff hs certFiles _⟩

/-- A QUIC listener goes on with the certificate it was started with. -/
theorem quic_presents_old_chain :
    ¬ ∀ block idx listen files loop m, acmeManager block = some m →
      HttpLoop.start .sample files block idx listen = some loop → loop.Serves m →
      ∀ evs pre, pre <+: evs →
        ((RenewalState.machine .sample m).run { loop, files } pre).PresentsDue := by
  intro h
  have hend := h acmeBlock 0 { port := 443, protocol := .quic } certFiles acmeQuicLoop acmeFiles rfl
    rfl rfl _ [.persisted renewedFiles, .sent, .processed { http := [acmeBlock] }]
    List.prefix_rfl [[3], [4]] rfl (fun _ => none) ⟨none, none⟩ rfl
  revert hend
  decide

end Flexd
