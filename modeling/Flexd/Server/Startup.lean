import Flexd.Server.AcceptLoop

/-!
# Challenges and the order of start-up

`Server::run` starts the listeners that need no issued certificate, then goes
through the blocks with ACME, in any order: it waits for the certificate of a
block, starts the block's TLS listeners, and leaves renewals to a background
task. A challenge that `try_issue` declares ready should find a listener of
its block that answers it. `challenges_answerable_iff` says for every run
which challenges do.
-/

namespace Flexd

open Lib

/-! ## Challenges -/

inductive ChallengeType where
  | http01 | tlsAlpn01 | dns01
  deriving DecidableEq

def ChallengeType.ofName (name : Text) : Option ChallengeType :=
  if name = "http-01".toList then some .http01
  else if name = "tls-alpn-01".toList then some .tlsAlpn01
  else if name = "dns-01".toList then some .dns01
  else none

/-- The first configured challenge type the CA offers. -/
def pickChallenge (types : List Text) (offered : List ChallengeType) : Option ChallengeType :=
  types.findSome? fun name => (ChallengeType.ofName name).bind fun want =>
    if offered.any (· = want) then some want else none

/-- The ACME section of a block, if it is enabled. -/
def acmeOf (config : Config) (idx : Nat) : Option AcmeConfig :=
  match (config.http[idx]?).bind fun block => block.ssl.bind (·.acme) with
  | some acme => if acme.enabled then some acme else none
  | none => none

/-! ## Listeners and their loops -/

/-- The TCP listener of the `j`-th listen directive of a block. -/
def listenerAt (config : Config) (idx j : Nat) : Option Listener := do
  let block ← config.http[idx]?
  let listen ← block.listen[j]?
  let isTls ← listen.protocol.tcpListener
  return ⟨block, idx, isTls, acmeManager block⟩

/-- The listener is bound at once and served after issuance. -/
def Listener.deferred (l : Listener) : Bool := l.isTls && l.acme.isSome

/-- An accept loop: the files it was started with, and what it has received since. -/
structure AcceptRun where
  files : TlsFiles
  events : List AcceptEvent := []

def AcceptRun.state (ext : External) (l : Listener) (run : AcceptRun) : AcceptState :=
  (l.acceptLoop ext).run (l.start ext run.files) run.events

/-! ## The server -/

structure ServerState where
  /-- The accept loops, by block and listen directive. -/
  loops : Nat → Nat → Option AcceptRun
  /-- The block whose certificate start-up waits for. -/
  issuing : Option Nat := none
  /-- The blocks whose certificate is there. -/
  issued : List Nat := []
  /-- The blocks with a renewal under way. -/
  renewing : List Nat := []

inductive ServerInput where
  /-- Start-up goes on to the certificate of a block. -/
  | ensure (idx : Nat)
  /-- `ensure_cert` returns: the files from which the block's listeners are started. -/
  | ensured (files : TlsFiles)
  /-- A block's renewal begins, and ends. -/
  | renew (idx : Nat)
  | renewed (idx : Nat)
  /-- `try_issue` for a block comes to an authorization, with the challenges it offers. -/
  | authorization (idx : Nat) (offered : List ChallengeType)
  /-- An accept loop receives something. -/
  | loop (idx j : Nat) (e : AcceptEvent)

namespace ServerState

/-- After the listeners that are not deferred have been started. -/
def start (config : Config) (files : TlsFiles) : ServerState where
  loops idx j := (listenerAt config idx j).bind fun l => if l.deferred then none else some { files }

/-- Start the deferred listeners of a block. -/
def serveDeferred (config : Config) (s : ServerState) (idx : Nat) (files : TlsFiles) :
    Nat → Nat → Option AcceptRun :=
  fun i j => if i = idx then
    match listenerAt config idx j with
    | some l => if l.deferred then some { files } else s.loops i j
    | none => s.loops i j
  else s.loops i j

/-- One step of the server, and the challenge it declares ready. -/
def step (config : Config) (s : ServerState) :
    ServerInput → ServerState × Option (Nat × ChallengeType)
  | .ensure idx =>
    if s.issuing.isNone && !s.issued.any (· = idx) && (acmeOf config idx).isSome then
      ({ s with issuing := some idx }, none)
    else (s, none)
  | .ensured files =>
    match s.issuing with
    | some idx => ({ s with
        loops := s.serveDeferred config idx files
        issuing := none
        issued := idx :: s.issued }, none)
    | none => (s, none)
  | .renew idx =>
    if s.issued.any (· = idx) then ({ s with renewing := idx :: s.renewing }, none) else (s, none)
  | .renewed idx => ({ s with renewing := s.renewing.filter (· ≠ idx) }, none)
  | .authorization idx offered =>
    if s.issuing = some idx || s.renewing.any (· = idx) then
      (s, (acmeOf config idx).bind fun acme =>
        (pickChallenge acme.challengeTypes offered).map fun kind => (idx, kind))
    else (s, none)
  | .loop idx j e =>
    match s.loops idx j with
    | some run => ({ s with
        loops := fun i k => if i = idx ∧ k = j then some { run with events := run.events ++ [e] }
          else s.loops i k }, none)
    | none => (s, none)

def machine (config : Config) : Machine ServerState ServerInput (Option (Nat × ChallengeType)) :=
  ⟨step config⟩

/-! ## Answering -/

/-- Some accept loop of the block answers the challenge: one with the challenge store in its
handler, over TLS with the challenge resolver for TLS-ALPN-01. DNS-01 is not answered by the
server. -/
def Answerable (ext : External) (config : Config) (s : ServerState) (idx : Nat) :
    ChallengeType → Prop
  | .http01 => ∃ j l run, listenerAt config idx j = some l ∧ s.loops idx j = some run ∧
      l.acme.isSome = true ∧ (run.state ext l).running = true
  | .tlsAlpn01 => ∃ j l run a, listenerAt config idx j = some l ∧ s.loops idx j = some run ∧
      l.acme.isSome = true ∧ (run.state ext l).running = true ∧
      (run.state ext l).tlsAcceptor = some a ∧ a.challenges = true
  | .dns01 => True

/-- For HTTP-01 the block has a listener, and a plain one unless its certificate is there, that
has not been shut down; for TLS-ALPN-01 its certificate is there, and a TLS listener has not been
shut down and its last acceptor was built. -/
def Prepared (ext : External) (config : Config) (s : ServerState) (idx : Nat) :
    ChallengeType → Prop
  | .http01 => ∃ j l, listenerAt config idx j = some l ∧ (l.isTls = false ∨ idx ∈ s.issued) ∧
      ∀ run, s.loops idx j = some run → AcceptEvent.shutdown ∉ run.events
  | .tlsAlpn01 => ∃ j l, listenerAt config idx j = some l ∧ l.isTls = true ∧ idx ∈ s.issued ∧
      ∀ run, s.loops idx j = some run → AcceptEvent.shutdown ∉ run.events ∧
        l.armed ext run.files run.events = true
  | .dns01 => True

end ServerState

/-! ## One accept loop -/

variable {ext : External} {l : Listener}

/-- A loop runs until it is shut down. -/
theorem acceptRun_running (run : AcceptRun) :
    (run.state ext l).running = true ↔ AcceptEvent.shutdown ∉ run.events :=
  run_running ext l rfl run.events

/-- Only a TLS listener has an acceptor, and with ACME it has the challenge resolver. -/
def AcceptorOf (l : Listener) (acceptor : Option TlsAcceptor) : Prop :=
  ∀ a, acceptor = some a → l.isTls = true ∧ (l.acme.isSome = true → a.challenges = true)

theorem acceptorOf_rebuild {old : Option TlsAcceptor} (h : AcceptorOf l old) (block : HttpBlock)
    (files : TlsFiles) : AcceptorOf l (l.rebuild ext block files old) := by
  unfold Listener.rebuild
  split
  · next htls =>
    split
    · next ssl =>
      intro a ha
      refine ⟨htls, fun hacme => ?_⟩
      obtain ⟨m, hm⟩ := Option.isSome_iff_exists.mp hacme
      simp only [Listener.build, hm, buildTlsAcceptorAcme] at ha
      cases hl : loadCertifiedKey files m.certPath m.keyPath with
      | error e => rw [hl] at ha; cases ha
      | ok p => rw [hl] at ha; cases ha; rfl
    · exact h
  · exact h

theorem acceptorOf_run (run : AcceptRun) : AcceptorOf l (run.state ext l).tlsAcceptor :=
  acceptor_run (P := AcceptorOf l) nofun (fun _ _ _ h => acceptorOf_rebuild h _ _) run.files
    run.events

/-- A TLS loop that runs has an acceptor exactly when its last build succeeded. -/
theorem acceptRun_armed (htls : l.isTls = true) {run : AcceptRun}
    (hs : AcceptEvent.shutdown ∉ run.events) :
    (run.state ext l).tlsAcceptor.isSome = l.armed ext run.files run.events :=
  run_armed htls run.files hs

/-! ## Every run -/

variable {config : Config}

/-- Which listeners have a loop: those that need no certificate, and those of issued blocks. -/
def LoopsStarted (config : Config) (s : ServerState) : Prop :=
  ∀ idx j l, listenerAt config idx j = some l →
    ((s.loops idx j).isSome = true ↔ l.deferred = false ∨ idx ∈ s.issued)

theorem loopsStarted_start (config : Config) (files : TlsFiles) :
    LoopsStarted config (.start config files) := by
  intro idx j l hl
  simp only [ServerState.start, hl, Option.bind_some, List.not_mem_nil, or_false]
  cases l.deferred <;> simp

/-- A block's deferred listeners are started beside those that have a loop already. -/
theorem isSome_serveDeferred (s : ServerState) (idx : Nat) (files : TlsFiles) {i j : Nat}
    {l : Listener} (hl : listenerAt config i j = some l) :
    (s.serveDeferred config idx files i j).isSome = true ↔
      (s.loops i j).isSome = true ∨ i = idx ∧ l.deferred = true := by
  unfold ServerState.serveDeferred
  by_cases hi : i = idx
  · subst hi
    rw [if_pos rfl, hl]
    cases hd : l.deferred <;> simp [hd]
  · simp [hi]

theorem LoopsStarted.step {s : ServerState} (h : LoopsStarted config s) (i : ServerInput) :
    LoopsStarted config (s.step config i).1 := by
  cases i with
  | ensure idx =>
    simp only [ServerState.step]
    split <;> exact h
  | renew idx =>
    simp only [ServerState.step]
    split <;> exact h
  | renewed idx => exact h
  | authorization idx offered =>
    simp only [ServerState.step]
    split <;> exact h
  | ensured files =>
    simp only [ServerState.step]
    split
    · next idx hidx =>
      intro i j l hl
      rw [isSome_serveDeferred s idx files hl, h i j l hl, List.mem_cons]
      cases l.deferred <;> simp [or_comm]
    · exact h
  | loop idx j e =>
    simp only [ServerState.step]
    split
    · next run hrun =>
      intro i k l hl
      rw [← h i k l hl]
      simp only
      split
      · next hik =>
        rw [hik.1, hik.2, hrun]
        simp
      · rfl
    · exact h

/-- The listeners of a block with ACME have its challenge store. -/
theorem acme_of_listenerAt {idx j : Nat} {acme : AcmeConfig} {l : Listener}
    (ha : acmeOf config idx = some acme) (hl : listenerAt config idx j = some l) :
    l.acme.isSome = true := by
  unfold listenerAt at hl
  obtain ⟨block, hb, hl⟩ := Option.bind_eq_some_iff.mp hl
  obtain ⟨listen, -, hl⟩ := Option.bind_eq_some_iff.mp hl
  obtain ⟨isTls, -, hl⟩ := Option.bind_eq_some_iff.mp hl
  cases hl
  unfold acmeOf at ha
  rw [hb, Option.bind_some] at ha
  unfold acmeManager
  cases hs : block.ssl.bind (·.acme) with
  | none => rw [hs] at ha; cases ha
  | some a =>
    rw [hs] at ha
    simp only at ha ⊢
    split at ha
    · next he => simp [he]
    · cases ha

/-- With ACME the deferred listeners of a block are its TLS ones. -/
theorem deferred_of_listenerAt {idx j : Nat} {acme : AcmeConfig} {l : Listener}
    (ha : acmeOf config idx = some acme) (hl : listenerAt config idx j = some l) :
    l.deferred = l.isTls := by
  simp [Listener.deferred, acme_of_listenerAt ha hl]

section

variable {s : ServerState} {idx : Nat} {acme : AcmeConfig}

/-- **An HTTP-01 challenge** of a block with ACME. -/
theorem answerable_http01_iff (hs : LoopsStarted config s) (ha : acmeOf config idx = some acme) :
    s.Answerable ext config idx .http01 ↔ s.Prepared ext config idx .http01 := by
  constructor
  · rintro ⟨j, l, run, hl, hrun, -, hr⟩
    refine ⟨j, l, hl, ?_, ?_⟩
    · rw [← deferred_of_listenerAt ha hl]
      exact (hs idx j l hl).mp (by rw [hrun]; rfl)
    · intro run' hrun'
      cases hrun.symm.trans hrun'
      exact (acceptRun_running run).mp hr
  · rintro ⟨j, l, hl, hwhen, hup⟩
    rw [← deferred_of_listenerAt ha hl] at hwhen
    obtain ⟨run, hrun⟩ := Option.isSome_iff_exists.mp ((hs idx j l hl).mpr hwhen)
    exact ⟨j, l, run, hl, hrun, acme_of_listenerAt ha hl,
      (acceptRun_running run).mpr (hup run hrun)⟩

/-- **A TLS-ALPN-01 challenge** of a block with ACME. -/
theorem answerable_tlsAlpn01_iff (hs : LoopsStarted config s)
    (ha : acmeOf config idx = some acme) :
    s.Answerable ext config idx .tlsAlpn01 ↔ s.Prepared ext config idx .tlsAlpn01 := by
  constructor
  · rintro ⟨j, l, run, a, hl, hrun, -, hr, hacc, -⟩
    have htls := (acceptorOf_run run a hacc).1
    have hup := (acceptRun_running run).mp hr
    refine ⟨j, l, hl, htls, ?_, ?_⟩
    · have hwhen := (hs idx j l hl).mp (by rw [hrun]; rfl)
      rw [deferred_of_listenerAt ha hl, htls] at hwhen
      exact hwhen.resolve_left (by simp)
    · intro run' hrun'
      cases hrun.symm.trans hrun'
      refine ⟨hup, ?_⟩
      rw [← acceptRun_armed htls hup, hacc]
      rfl
  · rintro ⟨j, l, hl, htls, hiss, hup⟩
    obtain ⟨run, hrun⟩ := Option.isSome_iff_exists.mp ((hs idx j l hl).mpr (.inr hiss))
    obtain ⟨hshut, harmed⟩ := hup run hrun
    rw [← acceptRun_armed htls hshut] at harmed
    obtain ⟨a, hacc⟩ := Option.isSome_iff_exists.mp harmed
    have hacme := acme_of_listenerAt ha hl
    exact ⟨j, l, run, a, hl, hrun, hacme, (acceptRun_running run).mpr hshut, hacc,
      (acceptorOf_run run a hacc).2 hacme⟩

/-- **One challenge** of a block with ACME. -/
theorem answerable_iff (hs : LoopsStarted config s) (ha : acmeOf config idx = some acme)
    (kind : ChallengeType) :
    s.Answerable ext config idx kind ↔ s.Prepared ext config idx kind := by
  cases kind with
  | dns01 => exact Iff.rfl
  | http01 => exact answerable_http01_iff hs ha
  | tlsAlpn01 => exact answerable_tlsAlpn01_iff hs ha

end

/-- A challenge is declared ready for a block with ACME. -/
theorem acmeOf_of_ready {s : ServerState} {i : ServerInput} {idx : Nat} {kind : ChallengeType}
    (h : (s.step config i).2 = some (idx, kind)) : ∃ acme, acmeOf config idx = some acme := by
  cases i with
  | authorization idx' offered =>
    simp only [ServerState.step] at h
    split at h
    · obtain ⟨acme, ha, hk⟩ := Option.bind_eq_some_iff.mp h
      obtain ⟨k, -, hk⟩ := Option.map_eq_some_iff.mp hk
      cases hk
      exact ⟨acme, ha⟩
    · cases h
  | ensure idx' =>
    simp only [ServerState.step] at h
    split at h <;> cases h
  | ensured files =>
    simp only [ServerState.step] at h
    split at h <;> cases h
  | renew idx' =>
    simp only [ServerState.step] at h
    split at h <;> cases h
  | renewed idx' => cases h
  | loop idx' j e =>
    simp only [ServerState.step] at h
    split at h <;> cases h

/-- **In every run of the server, the challenges declared ready can be answered exactly when each
is prepared**: HTTP-01 by a listener that is plain or whose block is issued, TLS-ALPN-01 by a TLS
listener of an issued block. -/
theorem challenges_answerable_iff (ext : External) (config : Config) (files : TlsFiles)
    (is : List ServerInput) :
    (∀ pre i post, is = pre ++ i :: post → ∀ idx kind,
      ((ServerState.machine config).step ((ServerState.machine config).run
        (.start config files) pre) i).2 = some (idx, kind) →
      ((ServerState.machine config).run (.start config files) pre).Answerable ext config idx kind) ↔
    ∀ pre i post, is = pre ++ i :: post → ∀ idx kind,
      ((ServerState.machine config).step ((ServerState.machine config).run
        (.start config files) pre) i).2 = some (idx, kind) →
      ((ServerState.machine config).run (.start config files) pre).Prepared ext config idx
        kind := by
  have hstarted : ∀ pre, LoopsStarted config
      ((ServerState.machine config).run (.start config files) pre) :=
    Machine.run_inv (LoopsStarted config) (loopsStarted_start config files) fun _ i h => h.step i
  refine forall_congr' fun pre => forall_congr' fun i => forall_congr' fun post =>
    forall_congr' fun _ => forall_congr' fun idx => forall_congr' fun kind =>
    imp_congr_right fun hready => ?_
  obtain ⟨acme, ha⟩ := acmeOf_of_ready hready
  exact answerable_iff (hstarted pre) ha kind

namespace Sample

/-- A server with ACME and a TLS listener alone. -/
def alpnBlock : HttpBlock where
  listen := [{ port := 443, protocol := .tls }]
  serverName := ["example.com".toList]
  ssl := some { acme := some {
    enabled := true
    email := "a@b".toList
    challengeTypes := ["tls-alpn-01".toList]
    httpChallengePort := some 8080
    agreeTos := true } }

end Sample

open Sample

/-- At the first issuance no listener answers TLS-ALPN-01. -/
theorem first_issuance_unanswerable :
    ¬ ∀ config : Config, config.validate .sample .bare = .ok () →
      ∀ (files : TlsFiles) (is pre : List ServerInput) (i : ServerInput) (post : List ServerInput),
      is = pre ++ i :: post → ∀ idx kind,
      ((ServerState.machine config).step ((ServerState.machine config).run
        (.start config files) pre) i).2 = some (idx, kind) →
      ((ServerState.machine config).run (.start config files) pre).Answerable .sample config idx
        kind := by
  intro h
  have hready := h { http := [alpnBlock] } (by decide) noFiles
    [.ensure 0, .authorization 0 [.tlsAlpn01]] [.ensure 0] (.authorization 0 [.tlsAlpn01]) [] rfl
    0 .tlsAlpn01 rfl
  obtain ⟨j, l, run, a, hl, hrun, -⟩ := hready
  cases j with
  | zero => cases hrun
  | succ j => cases hl

end Flexd
