import Flexd.Acme.Persist
import Flexd.Acme.Retry
import Flexd.Lib.Traced
import Flexd.Server.Startup

/-!
# Issuing a certificate

`try_issue` opens an account with the CA, places an order, answers a challenge
for every authorization that is not valid yet, has the order finalized and
stores the certificate. What the CA and the system answer is a parameter, so
the theorems hold for every CA. `tryIssue_protocol` says what is done in which
order, and `ensureCert_files` what the certificate directory holds after all
attempts.
-/

namespace Flexd

open Lib

/-! ## The CA -/

/-- An authorization of an order, with its challenges of known types and their tokens. -/
structure Authorization where
  valid : Bool
  /-- The DNS name, none for another kind of identifier. -/
  identifier : Option Text
  challenges : List (ChallengeType × Text)

/-- The token of the first challenge of a type. -/
def Authorization.token (a : Authorization) (kind : ChallengeType) : Option Text :=
  (a.challenges.find? fun c => c.1 = kind).map (·.2)

inductive OrderStatus where
  | pending | ready | processing | valid | invalid
  deriving DecidableEq

/-- A TLS-ALPN-01 challenge certificate: its name and its acme-identifier extension. -/
structure ChallengeCert where
  domain : Text
  digest : Bytes
  deriving DecidableEq

/-- What one attempt meets, as far as it gets: whether calls succeed, and what they give. -/
structure IssueEnv where
  /-- The HTTP client, with the extra root certificate. -/
  client : Bool
  readToString : Text → Option Text
  decodeB64 : Text → Option Bytes
  account : Bool
  /-- The authorizations of the new order, none where one cannot be fetched. -/
  order : Option (List (Option Authorization))
  keyAuth : Text → Text
  digest : Text → Bytes
  dnsValue : Text → Text
  /-- The challenge certificate for a name can be made. -/
  challengeCert : Text → Bool
  webhookClient : Bool
  /-- The status of the webhook's response for an authorization. -/
  webhook : Nat → Option StatusCode
  setsReady : Nat → Bool
  status : Option OrderStatus
  /-- The generated key. -/
  keyPem : Option Bytes
  /-- A signing request for the names can be made. -/
  csr : Bool
  finalizes : Bool
  certificate : Option Text
  certDir : Bool
  /-- The number of steps of storing the certificate that are done before one fails. -/
  writes : Option Nat

/-- What an attempt does that others can see. -/
inductive AcmeDeed where
  | newAccount (contact : Text) (agreed : Bool) (endpoint : Text) (eab : Option (Text × Bytes))
  | newOrder (domains : List Text)
  | putHttp01 (token keyAuth : Text)
  | putTlsAlpn (sni : Text) (cert : ChallengeCert)
  | postDns (url : Text) (authorization : Option Text) (domain token value : Text)
  | setReady (i : Nat) (kind : ChallengeType) (token : Text)
  | pollReady
  | finalize (domains : List Text) (keyPem : Bytes)
  | pollCertificate
  | file (op : FileOp)
  deriving DecidableEq

inductive IssueError where
  | client
  | eabRead (path : Text)
  | eabDecode
  | account
  | noDomains
  | newOrder
  | fetchAuthorization
  | unsupportedIdentifier
  | notOffered (domain : Text)
  | unavailable (kind : ChallengeType) (domain : Text)
  | digestLength (n : Nat)
  | challengeCert
  | noWebhook
  | webhookClient
  | authHeader (path : Text)
  | webhook
  | setReady
  | pollReady
  | notReady (status : OrderStatus)
  | keyPair
  | csr
  | finalize
  | certificate
  | certDir
  | write
  deriving DecidableEq

abbrev Issuing := Traced AcmeDeed IssueError

/-! ## Challenges -/

variable (env : IssueEnv) (cfg : AcmeConfig)

/-- `build_tls_alpn_cert`. -/
def buildTlsAlpnCert (domain : Text) (digest : Bytes) : Issuing ChallengeCert := do
  Traced.check (digest.length = 32) (.digestLength digest.length)
  Traced.check (env.challengeCert domain) .challengeCert
  return ⟨domain, digest⟩

/-- `StatusCode::is_success`. -/
def StatusCode.isSuccess (s : StatusCode) : Bool := 200 ≤ s.code && s.code < 300

/-- The `Authorization` header for the webhook, from its file. -/
def webhookHeader : Option Text → Issuing (Option Text)
  | none => pure none
  | some path => do
    let value ← Traced.require (env.readToString path) (.authHeader path)
    return some (trim value)

/-- `post_dns_webhook`, for the `i`-th authorization. -/
def postDnsWebhook (i : Nat) (domain token value : Text) : Issuing Unit := do
  let webhook ← Traced.require cfg.dnsWebhook .noWebhook
  Traced.check env.webhookClient .webhookClient
  let header ← webhookHeader env webhook.authHeader
  Traced.note (.postDns webhook.url header domain token value)
  let status ← Traced.require (env.webhook i) .webhook
  Traced.check status.isSuccess .webhook

/-- Put the response to a challenge where the CA will look for it. -/
def stageChallenge (i : Nat) (domain : Text) (kind : ChallengeType) (token : Text) : Issuing Unit :=
  match kind with
  | .http01 => Traced.note (.putHttp01 token (env.keyAuth token))
  | .tlsAlpn01 => do
    let cert ← buildTlsAlpnCert env domain (env.digest token)
    Traced.note (.putTlsAlpn domain cert)
  | .dns01 => postDnsWebhook env cfg i domain token (env.dnsValue token)

/-- The body of the loop over the authorizations. -/
def answerAuthorization (i : Nat) (a : Authorization) : Issuing Unit :=
  if a.valid then pure ()
  else do
    let domain ← Traced.require a.identifier .unsupportedIdentifier
    let kind ← Traced.require (pickChallenge cfg.challengeTypes (a.challenges.map (·.1)))
      (.notOffered domain)
    let token ← Traced.require (a.token kind) (.unavailable kind domain)
    stageChallenge env cfg i domain kind token
    Traced.note (.setReady i kind token)
    Traced.check (env.setsReady i) .setReady

def answerAuthorizations : Nat → List (Option Authorization) → Issuing Unit
  | _, [] => pure ()
  | i, a :: rest => do
    let a ← Traced.require a .fetchAuthorization
    answerAuthorization env cfg i a
    answerAuthorizations (i + 1) rest

/-! ## An attempt -/

/-- `AcmeManager::domains`. -/
def acmeDomains (serverNames : List Text) : List Text :=
  if cfg.domains = [] then serverNames else cfg.domains

/-- `load_eab`. -/
def loadEab : Issuing (Option (Text × Bytes)) :=
  match cfg.eab with
  | none => pure none
  | some eab => do
    let b64 ← Traced.require (env.readToString eab.hmacKey) (.eabRead eab.hmacKey)
    let key ← Traced.require (env.decodeB64 (trim b64)) .eabDecode
    return some (eab.kid, key)

/-- The account and the order: the order's authorizations. -/
def placeOrder (domains : List Text) : Issuing (List (Option Authorization)) := do
  Traced.check env.client .client
  let eab ← loadEab env cfg
  Traced.note (.newAccount ("mailto:".toList ++ cfg.email) cfg.agreeTos cfg.caEndpoint eab)
  Traced.check env.account .account
  Traced.check (!domains.isEmpty) .noDomains
  Traced.note (.newOrder domains)
  Traced.require env.order .newOrder

/-- The order's certificate, and the key it is for. -/
def obtainCertificate (domains : List Text) : Issuing (Text × Bytes) := do
  Traced.note .pollReady
  let status ← Traced.require env.status .pollReady
  Traced.check (status = .ready) (.notReady status)
  let keyPem ← Traced.require env.keyPem .keyPair
  Traced.check env.csr .csr
  Traced.note (.finalize domains keyPem)
  Traced.check env.finalizes .finalize
  Traced.note .pollCertificate
  let chain ← Traced.require env.certificate .certificate
  return (chain, keyPem)

/-- `write_cert`, as far as it gets. -/
def storeCertificate (chain : Text) (keyPem : Bytes) : Issuing Unit := do
  Traced.check env.certDir .certDir
  let ops := writeCert (utf8 chain) keyPem
  match env.writes with
  | none => ⟨ops.map .file, .ok ()⟩
  | some n => ⟨(ops.take n).map .file, .error .write⟩

def tryIssue (serverNames : List Text) : Issuing Unit := do
  let domains := acmeDomains cfg serverNames
  let authorizations ← placeOrder env cfg domains
  answerAuthorizations env cfg 0 authorizations
  let (chain, keyPem) ← obtainCertificate env domains
  storeCertificate env chain keyPem

/-- `issue_with_retry` from an attempt on, with `left` more to come. -/
def issueAttempts (envs : Nat → IssueEnv) (serverNames : List Text) : Nat → Nat → Issuing Unit
  | 0, attempt => tryIssue (envs attempt) cfg serverNames
  | left + 1, attempt =>
    let r := tryIssue (envs attempt) cfg serverNames
    match r.result with
    | .ok () => r
    | .error _ =>
      let next := issueAttempts envs serverNames left (attempt + 1)
      ⟨r.deeds ++ next.deeds, next.result⟩

/-- `ensure_cert`. -/
def ensureCert (usable : Bool) (envs : Nat → IssueEnv) (serverNames : List Text) : Issuing Unit :=
  if usable then pure () else issueAttempts cfg envs serverNames (maxAttempts - 1) 1

/-! ## The parts of an attempt -/

variable {env : IssueEnv} {cfg : AcmeConfig} {domains : List Text} {d : AcmeDeed}

theorem mem_placeOrder (h : d ∈ (placeOrder env cfg domains).deeds) :
    (∃ contact agreed endpoint eab, d = .newAccount contact agreed endpoint eab) ∨
      d = .newOrder domains := by
  have heab : d ∉ (loadEab env cfg).deeds := by
    unfold loadEab
    cases cfg.eab with
    | none => simp
    | some eab => simp [Traced.mem_bind]
  simp only [placeOrder, Traced.mem_bind, Traced.deeds_check, Traced.deeds_note,
    Traced.deeds_require, List.not_mem_nil, List.mem_singleton, heab, false_or] at h
  obtain ⟨-, -, eab, -, rfl | ⟨-, -, -, -, -, -, rfl | ⟨-, -, h⟩⟩⟩ := h
  · exact .inl ⟨_, _, _, _, rfl⟩
  · exact .inr rfl
  · cases h

theorem result_placeOrder {authorizations : List (Option Authorization)}
    (h : (placeOrder env cfg domains).result = .ok authorizations) :
    env.order = some authorizations ∧ domains ≠ [] := by
  simp only [placeOrder, Traced.result_bind, Traced.result_check, Traced.result_require] at h
  obtain ⟨-, -, eab, -, -, -, -, -, -, hne, -, -, horder⟩ := h
  exact ⟨horder, by simpa using hne⟩

theorem mem_obtainCertificate (h : d ∈ (obtainCertificate env domains).deeds) :
    d = .pollReady ∨ d = .pollCertificate ∨
      env.status = some .ready ∧
        ∃ keyPem, env.keyPem = some keyPem ∧ d = .finalize domains keyPem := by
  simp only [obtainCertificate, Traced.mem_bind, Traced.deeds_check, Traced.deeds_note,
    Traced.deeds_require, Traced.deeds_pure, Traced.result_require, Traced.result_check,
    List.not_mem_nil, List.mem_singleton, false_or, and_false, exists_false, or_false] at h
  rcases h with rfl | ⟨-, -, status, hstatus, -, hready, keyPem, hkey, -, -, rfl |
    ⟨-, -, -, -, rfl⟩⟩
  · exact .inl rfl
  · obtain rfl : status = .ready := by simpa using hready
    exact .inr (.inr ⟨hstatus, keyPem, hkey, rfl⟩)
  · exact .inr (.inl rfl)

theorem result_obtainCertificate {chain : Text} {keyPem : Bytes}
    (h : (obtainCertificate env domains).result = .ok (chain, keyPem)) :
    env.certificate = some chain ∧
      .finalize domains keyPem ∈ (obtainCertificate env domains).deeds := by
  simp only [obtainCertificate, Traced.result_bind, Traced.result_check, Traced.result_require,
    Traced.result_note, Traced.result_pure, Except.ok.injEq, Prod.mk.injEq] at h
  obtain ⟨-, -, status, hstatus, u, hready, key, hkey, v, hcsr, w, -, -, -, -, -, c, hc, rfl,
    rfl⟩ := h
  refine ⟨hc, ?_⟩
  simp only [obtainCertificate, Traced.mem_bind, Traced.deeds_note, Traced.result_require,
    Traced.result_check, List.mem_singleton]
  exact .inr ⟨(), rfl, .inr ⟨status, hstatus, .inr ⟨u, hready, .inr ⟨key, hkey, .inr ⟨v, hcsr,
    .inl rfl⟩⟩⟩⟩⟩

/-- An order is finalized after it was found ready. -/
theorem precedes_obtainCertificate :
    Precedes (· = .pollReady) (fun d => ∃ domains keyPem, d = .finalize domains keyPem)
      (obtainCertificate env domains).deeds := by
  refine Traced.precedes_bind.mpr ⟨precedes_of_forall_not ?_, fun _ _ =>
    .inl ⟨_, List.mem_singleton_self _, rfl⟩⟩
  rintro d hd ⟨domains, keyPem, rfl⟩
  cases List.mem_singleton.mp hd

/-- The steps on files among the deeds. -/
def fileOps (ds : List AcmeDeed) : List FileOp :=
  ds.filterMap fun
    | .file op => some op
    | _ => none

theorem fileOps_map (ops : List FileOp) : fileOps (ops.map .file) = ops := by
  simp [fileOps, List.filterMap_map]

theorem storeCertificate_deeds (env : IssueEnv) (chain : Text) (keyPem : Bytes) :
    ∃ ops, (storeCertificate env chain keyPem).deeds = ops.map .file ∧
      ops <+: writeCert (utf8 chain) keyPem ∧
      ((storeCertificate env chain keyPem).result = .ok () →
        ops = writeCert (utf8 chain) keyPem) := by
  unfold storeCertificate
  cases hdir : env.certDir with
  | false => exact ⟨[], rfl, List.nil_prefix, nofun⟩
  | true =>
    rw [Traced.bind_of_ok (a := ()) (by simp)]
    cases env.writes with
    | none => exact ⟨_, rfl, List.prefix_rfl, fun _ => rfl⟩
    | some n => exact ⟨_, rfl, List.take_prefix n _, nofun⟩

/-! ## Answering challenges -/

/-- The deed that stages the response to a challenge. -/
def StagedBy (env : IssueEnv) (cfg : AcmeConfig) (domain token : Text) :
    ChallengeType → AcmeDeed → Prop
  | .http01, d => d = .putHttp01 token (env.keyAuth token)
  | .tlsAlpn01, d => d = .putTlsAlpn domain ⟨domain, env.digest token⟩
  | .dns01, d => ∃ webhook header, cfg.dnsWebhook = some webhook ∧
      d = .postDns webhook.url header domain token (env.dnsValue token)

variable {i : Nat} {domain token : Text} {kind : ChallengeType}

theorem deeds_webhookHeader (o : Option Text) : (webhookHeader env o).deeds = [] := by
  cases o with
  | none => rfl
  | some path =>
    refine List.eq_nil_iff_forall_not_mem.mpr fun d hd => ?_
    simp [webhookHeader, Traced.mem_bind] at hd

theorem stagedBy_of_mem (h : d ∈ (stageChallenge env cfg i domain kind token).deeds) :
    StagedBy env cfg domain token kind d := by
  cases kind with
  | http01 => exact List.mem_singleton.mp h
  | tlsAlpn01 =>
    simp only [stageChallenge, buildTlsAlpnCert, Traced.mem_bind, Traced.result_bind,
      Traced.deeds_check, Traced.deeds_pure, Traced.deeds_note, Traced.result_pure,
      List.not_mem_nil, List.mem_singleton, false_or, and_false, exists_false,
      Except.ok.injEq] at h
    obtain ⟨cert, ⟨-, -, -, -, rfl⟩, rfl⟩ := h
    rfl
  | dns01 =>
    simp only [stageChallenge, postDnsWebhook, Traced.mem_bind, Traced.deeds_check,
      Traced.deeds_note, Traced.deeds_require, Traced.result_require, deeds_webhookHeader,
      List.not_mem_nil, List.mem_singleton, false_or, and_false, exists_false, or_false] at h
    obtain ⟨webhook, hw, -, -, header, -, rfl⟩ := h
    exact ⟨webhook, header, hw, rfl⟩

theorem deeds_stageChallenge_ne_nil
    (h : (stageChallenge env cfg i domain kind token).result = .ok ()) :
    (stageChallenge env cfg i domain kind token).deeds ≠ [] := by
  cases kind with
  | http01 => exact List.cons_ne_nil _ _
  | tlsAlpn01 =>
    obtain ⟨cert, hcert, -⟩ := Traced.result_bind.mp h
    exact List.ne_nil_of_mem (Traced.mem_bind.mpr (.inr ⟨cert, hcert, List.mem_singleton_self _⟩))
  | dns01 =>
    simp only [stageChallenge, postDnsWebhook, Traced.result_bind, Traced.result_require,
      Traced.result_check] at h
    obtain ⟨webhook, hw, u, hclient, header, hheader, -⟩ := h
    refine List.ne_nil_of_mem
      (a := .postDns webhook.url header domain token (env.dnsValue token)) ?_
    simp only [stageChallenge, postDnsWebhook, Traced.mem_bind, Traced.result_require,
      Traced.result_check, Traced.deeds_note]
    exact .inr ⟨webhook, hw, .inr ⟨u, hclient, .inr ⟨header, hheader,
      .inl (List.mem_singleton_self _)⟩⟩⟩

/-- The authorizations declared ready. -/
def readied (ds : List AcmeDeed) : List Nat :=
  ds.filterMap fun
    | .setReady i _ _ => some i
    | _ => none

theorem readied_append (ds ds' : List AcmeDeed) : readied (ds ++ ds') = readied ds ++ readied ds' :=
  List.filterMap_append

theorem readied_eq_nil {ds : List AcmeDeed} (h : ∀ i kind token, .setReady i kind token ∉ ds) :
    readied ds = [] := by
  refine List.filterMap_eq_nil_iff.mpr fun d hd => ?_
  cases d with
  | setReady i kind token => exact absurd hd (h i kind token)
  | _ => rfl

theorem setReady_not_mem_stageChallenge (j : Nat) (kind' : ChallengeType) (token' : Text) :
    .setReady j kind' token' ∉ (stageChallenge env cfg i domain kind token).deeds := by
  intro h
  have hs := stagedBy_of_mem h
  cases kind with
  | http01 => cases hs
  | tlsAlpn01 => cases hs
  | dns01 => obtain ⟨webhook, header, -, hs⟩ := hs; cases hs

/-- The challenge of the `i`-th authorization that is to be answered, and the deed that stages
the response to it. -/
def Stages (env : IssueEnv) (cfg : AcmeConfig) (a : Authorization) (kind : ChallengeType)
    (token : Text) (d : AcmeDeed) : Prop :=
  a.valid = false ∧ ∃ domain, a.identifier = some domain ∧
    pickChallenge cfg.challengeTypes (a.challenges.map (·.1)) = some kind ∧
    a.token kind = some token ∧ StagedBy env cfg domain token kind d

/-- What is done for an authorization that is not valid: nothing, an attempt at staging the
response to its challenge that fails, or the response is staged and then it is declared ready. -/
theorem answerAuthorization_cases (i : Nat) {a : Authorization} (hv : a.valid = false) :
    let r := answerAuthorization env cfg i a
    (r.deeds = [] ∧ r.result ≠ .ok ()) ∨
    ∃ domain kind token, a.identifier = some domain ∧
      pickChallenge cfg.challengeTypes (a.challenges.map (·.1)) = some kind ∧
      a.token kind = some token ∧
      ((r.deeds = (stageChallenge env cfg i domain kind token).deeds ∧ r.result ≠ .ok ()) ∨
        ((stageChallenge env cfg i domain kind token).result = .ok () ∧
          r.deeds = (stageChallenge env cfg i domain kind token).deeds ++
            [.setReady i kind token])) := by
  intro r
  have hr : r = (do
      let domain ← Traced.require a.identifier .unsupportedIdentifier
      let kind ← Traced.require (pickChallenge cfg.challengeTypes (a.challenges.map (·.1)))
        (.notOffered domain)
      let token ← Traced.require (a.token kind) (.unavailable kind domain)
      stageChallenge env cfg i domain kind token
      Traced.note (.setReady i kind token)
      Traced.check (env.setsReady i) .setReady) := if_neg (by rw [hv]; decide)
  rw [hr]
  cases hid : a.identifier with
  | none => exact .inl ⟨rfl, nofun⟩
  | some domain =>
    rw [Traced.bind_of_ok rfl]
    cases hpick : pickChallenge cfg.challengeTypes (a.challenges.map (·.1)) with
    | none => exact .inl ⟨rfl, nofun⟩
    | some kind =>
      rw [Traced.bind_of_ok rfl]
      cases htok : a.token kind with
      | none => exact .inl ⟨rfl, nofun⟩
      | some token =>
        rw [Traced.bind_of_ok rfl]
        refine .inr ⟨domain, kind, token, rfl, rfl, htok, ?_⟩
        cases hst : (stageChallenge env cfg i domain kind token).result with
        | error e => exact .inl (by rw [Traced.bind_of_error hst]; exact ⟨rfl, nofun⟩)
        | ok u => exact .inr ⟨rfl, by rw [Traced.bind_of_ok hst]; rfl⟩

/-- **One authorization**: if it is not valid, it is declared ready, once, directly after the
response to its challenge has been staged. -/
structure AnswerSpec (env : IssueEnv) (cfg : AcmeConfig) (i : Nat) (a : Authorization) : Prop where
  follows : ∀ j kind token, Follows (fun d => j = i ∧ Stages env cfg a kind token d)
    (· = .setReady j kind token) (answerAuthorization env cfg i a).deeds
  readied_initial : readied (answerAuthorization env cfg i a).deeds <+: if a.valid then [] else [i]
  readied_all : (answerAuthorization env cfg i a).result = .ok () →
    readied (answerAuthorization env cfg i a).deeds = if a.valid then [] else [i]

theorem answerAuthorization_spec (env : IssueEnv) (cfg : AcmeConfig) (i : Nat) (a : Authorization) :
    AnswerSpec env cfg i a := by
  cases hv : a.valid with
  | true =>
    have hr : answerAuthorization env cfg i a = pure () := if_pos hv
    exact ⟨fun j kind token => by rw [hr]; exact follows_nil, by rw [hr]; exact List.nil_prefix,
      fun _ => by rw [hr, hv]; rfl⟩
  | false =>
    rcases answerAuthorization_cases i hv with ⟨hd, hres⟩ | ⟨domain, kind, token, hid, hpick, htok,
      ⟨hd, hres⟩ | ⟨hstaged, hd⟩⟩
    · exact ⟨fun j kind token => by rw [hd]; exact follows_nil, by rw [hd]; exact List.nil_prefix,
        fun hok => absurd hok hres⟩
    · have hno : ∀ j kind' token',
          .setReady j kind' token' ∉ (stageChallenge env cfg i domain kind token).deeds :=
        setReady_not_mem_stageChallenge
      refine ⟨fun j kind' token' => ?_, ?_, fun hok => absurd hok hres⟩
      · rw [hd]
        exact follows_of_forall_not fun b hb hq => hno _ _ _ (hq ▸ hb)
      · rw [hd, readied_eq_nil hno]
        exact List.nil_prefix
    · have hready : readied (answerAuthorization env cfg i a).deeds = [i] := by
        rw [hd, readied_append, readied_eq_nil setReady_not_mem_stageChallenge]
        rfl
      refine ⟨fun j kind' token' => ?_, ?_, fun _ => ?_⟩
      · rw [hd]
        have hno : ∀ d ∈ (stageChallenge env cfg i domain kind token).deeds,
            ¬ d = .setReady j kind' token' :=
          fun d hmem hq => setReady_not_mem_stageChallenge _ _ _ (hq ▸ hmem)
        by_cases heq : AcmeDeed.setReady i kind token = .setReady j kind' token'
        · cases heq
          exact follows_concat (deeds_stageChallenge_ne_nil hstaged) (fun d hmem =>
            ⟨rfl, hv, domain, hid, hpick, htok, stagedBy_of_mem hmem⟩) hno _
        · refine follows_append (follows_of_forall_not hno)
            (follows_of_forall_not fun b hb hq => ?_)
          exact heq ((List.mem_singleton.mp hb).symm.trans hq)
      · rw [hready, hv]
        exact List.prefix_rfl
      · rw [hready, hv]
        rfl

/-- The authorizations of an order that are to be answered, from the `i`-th on. -/
def pendingFrom : Nat → List (Option Authorization) → List Nat
  | _, [] => []
  | i, a :: rest =>
    (if a.any (!·.valid) then [i] else []) ++ pendingFrom (i + 1) rest

theorem le_of_mem_pendingFrom {i j : Nat} {rest : List (Option Authorization)}
    (h : j ∈ pendingFrom i rest) : i ≤ j := by
  induction rest generalizing i with
  | nil => cases h
  | cons a rest ih =>
    rcases List.mem_append.mp h with h | h
    · split at h
      · exact (List.mem_singleton.mp h).ge
      · cases h
    · have := ih h
      omega

theorem mem_readied {ds : List AcmeDeed} {j : Nat} {kind : ChallengeType} {token : Text}
    (h : .setReady j kind token ∈ ds) : j ∈ readied ds := List.mem_filterMap.mpr ⟨_, h, rfl⟩

/-- **All authorizations**: those that are not valid are declared ready in their order, each once
and directly after the response to its challenge has been staged. -/
structure AnswersSpec (env : IssueEnv) (cfg : AcmeConfig) (i : Nat)
    (rest : List (Option Authorization)) : Prop where
  follows : ∀ j kind token,
    Follows (fun d => ∃ a, rest[j]? = some (some a) ∧ Stages env cfg a kind token d)
      (· = .setReady (i + j) kind token) (answerAuthorizations env cfg i rest).deeds
  readied_initial : readied (answerAuthorizations env cfg i rest).deeds <+: pendingFrom i rest
  readied_all : (answerAuthorizations env cfg i rest).result = .ok () →
    readied (answerAuthorizations env cfg i rest).deeds = pendingFrom i rest

theorem answerAuthorizations_spec (env : IssueEnv) (cfg : AcmeConfig) (i : Nat)
    (rest : List (Option Authorization)) : AnswersSpec env cfg i rest := by
  induction rest generalizing i with
  | nil => exact ⟨fun _ _ _ => follows_nil, List.nil_prefix, fun _ => rfl⟩
  | cons a rest ih =>
    cases a with
    | none =>
      have hr : answerAuthorizations env cfg i (none :: rest) = ⟨[], .error .fetchAuthorization⟩ :=
        rfl
      exact ⟨fun _ _ _ => by rw [hr]; exact follows_nil, by rw [hr]; exact List.nil_prefix,
        fun hok => by rw [hr] at hok; cases hok⟩
    | some a =>
      obtain ⟨hprec, hpre, hall⟩ := answerAuthorization_spec env cfg i a
      have hone : ∀ j kind token, Follows
          (fun d => ∃ a', (some a :: rest)[j]? = some (some a') ∧ Stages env cfg a' kind token d)
          (· = .setReady (i + j) kind token) (answerAuthorization env cfg i a).deeds :=
        fun j kind token => (hprec (i + j) kind token).imp fun d hd => by
          obtain rfl : j = 0 := by omega
          exact ⟨a, rfl, hd.2⟩
      have hpend : pendingFrom i (some a :: rest) =
          (if a.valid then [] else [i]) ++ pendingFrom (i + 1) rest := by
        cases hv : a.valid <;> simp [pendingFrom, hv]
      have hr : answerAuthorizations env cfg i (some a :: rest) =
          (do answerAuthorization env cfg i a; answerAuthorizations env cfg (i + 1) rest) := rfl
      cases hres : (answerAuthorization env cfg i a).result with
      | error e =>
        rw [Traced.bind_of_error hres] at hr
        refine ⟨fun j kind token => ?_, ?_, fun hok => ?_⟩
        · rw [hr]
          exact hone j kind token
        · rw [hr, hpend]
          exact hpre.trans (List.prefix_append _ _)
        · rw [hr] at hok
          cases hok
      | ok u =>
        rw [Traced.bind_of_ok hres] at hr
        obtain ⟨ihprec, ihpre, ihall⟩ := ih (i + 1)
        refine ⟨fun j kind token => ?_, ?_, fun hok => ?_⟩
        · rw [hr]
          refine follows_append (hone j kind token) ?_
          cases j with
          | zero =>
            -- the rest of the authorizations are further up
            refine follows_of_forall_not fun b hb hq => ?_
            have hle := le_of_mem_pendingFrom (ihpre.subset (mem_readied (hq ▸ hb)))
            omega
          | succ j =>
            rw [show i + (j + 1) = i + 1 + j by omega]
            exact ihprec j kind token
        · rw [hr, hpend, readied_append, hall hres]
          exact (List.prefix_append_right_inj _).mpr ihpre
        · rw [hr] at hok
          rw [hr, hpend, readied_append, hall hres, ihall hok]

/-! ## An attempt -/

/-- The part of an attempt in which something is done. -/
def AcmeDeed.phase : AcmeDeed → Nat
  | .newAccount .. | .newOrder _ => 0
  | .putHttp01 .. | .putTlsAlpn .. | .postDns .. | .setReady .. => 1
  | .pollReady | .finalize .. | .pollCertificate => 2
  | .file _ => 3

theorem phase_placeOrder (h : d ∈ (placeOrder env cfg domains).deeds) : d.phase = 0 := by
  rcases mem_placeOrder h with ⟨_, _, _, _, rfl⟩ | rfl <;> rfl

theorem phase_obtainCertificate (h : d ∈ (obtainCertificate env domains).deeds) : d.phase = 2 := by
  rcases mem_obtainCertificate h with rfl | rfl | ⟨-, _, -, rfl⟩ <;> rfl

theorem phase_storeCertificate {chain : Text} {keyPem : Bytes}
    (h : d ∈ (storeCertificate env chain keyPem).deeds) : d.phase = 3 := by
  obtain ⟨ops, hops, -⟩ := storeCertificate_deeds env chain keyPem
  rw [hops] at h
  obtain ⟨op, -, rfl⟩ := List.mem_map.mp h
  rfl

/-- What is done to answer challenges. -/
theorem mem_answerAuthorization {i : Nat} {a : Authorization}
    (h : d ∈ (answerAuthorization env cfg i a).deeds) :
    (∃ kind token, d = .setReady i kind token) ∨
      ∃ domain token kind, StagedBy env cfg domain token kind d := by
  cases hv : a.valid with
  | true =>
    rw [show answerAuthorization env cfg i a = pure () from if_pos hv] at h
    cases h
  | false =>
    rcases answerAuthorization_cases i hv with ⟨hd, -⟩ | ⟨domain, kind, token, -, -, -,
      ⟨hd, -⟩ | ⟨-, hd⟩⟩
    · rw [hd] at h
      cases h
    · rw [hd] at h
      exact .inr ⟨_, _, _, stagedBy_of_mem h⟩
    · rw [hd] at h
      rcases List.mem_append.mp h with h | h
      · exact .inr ⟨_, _, _, stagedBy_of_mem h⟩
      · exact .inl ⟨_, _, List.mem_singleton.mp h⟩

theorem mem_answerAuthorizations {i : Nat} {rest : List (Option Authorization)}
    (h : d ∈ (answerAuthorizations env cfg i rest).deeds) :
    (∃ j kind token, d = .setReady j kind token) ∨
      ∃ domain token kind, StagedBy env cfg domain token kind d := by
  induction rest generalizing i with
  | nil => cases h
  | cons a rest ih =>
    obtain h | ⟨a, -, h⟩ := Traced.mem_bind.mp h
    · rw [Traced.deeds_require] at h
      cases h
    · obtain h | ⟨-, -, h⟩ := Traced.mem_bind.mp h
      · exact (mem_answerAuthorization h).imp_left fun ⟨kind, token, hd⟩ => ⟨i, kind, token, hd⟩
      · exact ih h

theorem phase_answerAuthorizations {i : Nat} {rest : List (Option Authorization)}
    (h : d ∈ (answerAuthorizations env cfg i rest).deeds) : d.phase = 1 := by
  rcases mem_answerAuthorizations h with ⟨_, _, _, rfl⟩ | ⟨domain, token, kind, hs⟩
  · rfl
  · cases kind with
    | http01 => cases hs; rfl
    | tlsAlpn01 => cases hs; rfl
    | dns01 => obtain ⟨_, _, -, rfl⟩ := hs; rfl

theorem precedes_of_phase {p q : AcmeDeed → Prop} {ds : List AcmeDeed} {n m : Nat}
    (hds : ∀ d ∈ ds, d.phase = n) (hq : ∀ d, q d → d.phase = m) (hne : n ≠ m) :
    Precedes p q ds :=
  precedes_of_forall_not fun d hd hqd => hne ((hds d hd).symm.trans (hq d hqd))

theorem follows_of_phase {p q : AcmeDeed → Prop} {ds : List AcmeDeed} {n m : Nat}
    (hds : ∀ d ∈ ds, d.phase = n) (hq : ∀ d, q d → d.phase = m) (hne : n ≠ m) :
    Follows p q ds :=
  follows_of_forall_not fun d hd hqd => hne ((hds d hd).symm.trans (hq d hqd))

/-- The parts of an attempt, each empty if one before it fails. -/
structure AttemptParts (env : IssueEnv) (cfg : AcmeConfig) (domains : List Text)
    (answered obtained stored : List AcmeDeed) : Prop where
  answering : answered = [] ∨
    answered = (answerAuthorizations env cfg 0 (env.order.getD [])).deeds
  obtaining : obtained = [] ∨ obtained = (obtainCertificate env domains).deeds ∧ domains ≠ [] ∧
    readied answered = pendingFrom 0 (env.order.getD [])
  storing : stored = [] ∨ ∃ chain keyPem, env.certificate = some chain ∧
    .finalize domains keyPem ∈ obtained ∧ stored = (storeCertificate env chain keyPem).deeds

section

variable {answered obtained stored : List AcmeDeed}

theorem AttemptParts.phase_answered (h : AttemptParts env cfg domains answered obtained stored) :
    ∀ d ∈ answered, d.phase = 1 := by
  intro d hd
  rcases h.answering with rfl | rfl
  · cases hd
  · exact phase_answerAuthorizations hd

theorem AttemptParts.phase_obtained (h : AttemptParts env cfg domains answered obtained stored) :
    ∀ d ∈ obtained, d.phase = 2 := by
  intro d hd
  rcases h.obtaining with rfl | ⟨rfl, -⟩
  · cases hd
  · exact phase_obtainCertificate hd

theorem AttemptParts.phase_stored (h : AttemptParts env cfg domains answered obtained stored) :
    ∀ d ∈ stored, d.phase = 3 := by
  intro d hd
  rcases h.storing with rfl | ⟨chain, keyPem, -, -, rfl⟩
  · cases hd
  · exact phase_storeCertificate hd

end

theorem tryIssue_parts (env : IssueEnv) (cfg : AcmeConfig) (serverNames : List Text) :
    ∃ answered obtained stored,
      AttemptParts env cfg (acmeDomains cfg serverNames) answered obtained stored ∧
      (tryIssue env cfg serverNames).deeds =
        (placeOrder env cfg (acmeDomains cfg serverNames)).deeds ++
          (answered ++ (obtained ++ stored)) ∧
      ((tryIssue env cfg serverNames).result = .ok () → ∃ chain keyPem,
        env.certificate = some chain ∧ .finalize (acmeDomains cfg serverNames) keyPem ∈ obtained ∧
        stored = (writeCert (utf8 chain) keyPem).map .file) := by
  unfold tryIssue
  cases hplace : (placeOrder env cfg (acmeDomains cfg serverNames)).result with
  | error e =>
    exact ⟨[], [], [], ⟨.inl rfl, .inl rfl, .inl rfl⟩, by simp [Traced.bind_of_error hplace],
      by simp [Traced.bind_of_error hplace]⟩
  | ok authorizations =>
    obtain ⟨horder, hne⟩ := result_placeOrder hplace
    have hget : env.order.getD [] = authorizations := by rw [horder]; rfl
    have hspec := answerAuthorizations_spec env cfg 0 authorizations
    simp only [Traced.bind_of_ok hplace]
    cases hans : (answerAuthorizations env cfg 0 authorizations).result with
    | error e =>
      exact ⟨_, [], [], ⟨.inr (by rw [hget]), .inl rfl, .inl rfl⟩, by
        simp [Traced.bind_of_error hans], by simp [Traced.bind_of_error hans]⟩
    | ok u =>
      have hall := hspec.readied_all hans
      simp only [Traced.bind_of_ok hans]
      cases hobt : (obtainCertificate env (acmeDomains cfg serverNames)).result with
      | error e =>
        exact ⟨_, _, [], ⟨.inr (by rw [hget]), .inr ⟨rfl, hne, by rw [hget, hall]⟩, .inl rfl⟩, by
          simp [Traced.bind_of_error hobt], by simp [Traced.bind_of_error hobt]⟩
      | ok p =>
        obtain ⟨hcert, hfin⟩ := result_obtainCertificate hobt
        simp only [Traced.bind_of_ok hobt]
        refine ⟨_, _, _, ⟨.inr (by rw [hget]), .inr ⟨rfl, hne, by rw [hget, hall]⟩,
          .inr ⟨p.1, p.2, hcert, hfin, rfl⟩⟩, rfl, fun hok => ?_⟩
        obtain ⟨ops, hops, -, hall⟩ := storeCertificate_deeds env p.1 p.2
        exact ⟨p.1, p.2, hcert, hfin, by rw [hops, hall hok]⟩

/-- A deed of an attempt is of the part of its phase. -/
theorem AttemptParts.mem {domains : List Text} {answered obtained stored deeds : List AcmeDeed}
    (h : AttemptParts env cfg domains answered obtained stored)
    (hdeeds : deeds = (placeOrder env cfg domains).deeds ++ (answered ++ (obtained ++ stored)))
    (hd : d ∈ deeds) : d.phase = 0 ∨ d.phase = 1 ∧ d ∈ answered ∨ d.phase = 2 ∧ d ∈ obtained ∨
      d.phase = 3 ∧ d ∈ stored := by
  rw [hdeeds, List.mem_append, List.mem_append, List.mem_append] at hd
  rcases hd with hd | hd | hd | hd
  · exact .inl (phase_placeOrder hd)
  · exact .inr (.inl ⟨h.phase_answered d hd, hd⟩)
  · exact .inr (.inr (.inl ⟨h.phase_obtained d hd, hd⟩))
  · exact .inr (.inr (.inr ⟨h.phase_stored d hd, hd⟩))

/-- A challenge is declared ready right after its response was staged. -/
theorem tryIssue_follows (env : IssueEnv) (cfg : AcmeConfig) (serverNames : List Text) (i : Nat)
    (kind : ChallengeType) (token : Text) :
    Follows (fun d => ∃ a, (env.order.getD [])[i]? = some (some a) ∧ Stages env cfg a kind token d)
      (· = .setReady i kind token) (tryIssue env cfg serverNames).deeds := by
  obtain ⟨answered, obtained, stored, hparts, hdeeds, -⟩ := tryIssue_parts env cfg serverNames
  have hready : ∀ d : AcmeDeed, d = .setReady i kind token → d.phase = 1 := fun d hd => hd ▸ rfl
  rw [hdeeds]
  refine follows_append (follows_of_phase (fun d hd => phase_placeOrder hd) hready (by decide))
    (follows_append ?_ (follows_append (follows_of_phase hparts.phase_obtained hready (by decide))
      (follows_of_phase hparts.phase_stored hready (by decide))))
  rcases hparts.answering with rfl | rfl
  · exact follows_nil
  · have h := (answerAuthorizations_spec env cfg 0 (env.order.getD [])).follows i kind token
    rwa [Nat.zero_add] at h

/-- The pending authorizations are declared ready in order, all of them before the order is
polled. -/
theorem tryIssue_readied (env : IssueEnv) (cfg : AcmeConfig) (serverNames : List Text) :
    readied (tryIssue env cfg serverNames).deeds <+: pendingFrom 0 (env.order.getD []) ∧
    (.pollReady ∈ (tryIssue env cfg serverNames).deeds →
      readied (tryIssue env cfg serverNames).deeds = pendingFrom 0 (env.order.getD [])) := by
  obtain ⟨answered, obtained, stored, hparts, hdeeds, -⟩ := tryIssue_parts env cfg serverNames
  have hreadied : readied (tryIssue env cfg serverNames).deeds = readied answered := by
    have hnil {ds : List AcmeDeed} {n : Nat} (hds : ∀ d ∈ ds, d.phase = n) (hn : n ≠ 1) :
        readied ds = [] := readied_eq_nil fun _ _ _ hd => hn (hds _ hd).symm
    rw [hdeeds, readied_append, readied_append, readied_append,
      hnil (fun d hd => phase_placeOrder hd) (by decide), hnil hparts.phase_obtained (by decide),
      hnil hparts.phase_stored (by decide)]
    simp
  rw [hreadied]
  constructor
  · rcases hparts.answering with rfl | rfl
    · exact List.nil_prefix
    · exact (answerAuthorizations_spec env cfg 0 (env.order.getD [])).readied_initial
  · intro hpoll
    obtain h0 | ⟨h1, -⟩ | ⟨-, hmem⟩ | ⟨h3, -⟩ := hparts.mem hdeeds hpoll
    · cases h0
    · cases h1
    · rcases hparts.obtaining with rfl | ⟨-, -, hall⟩
      · cases hmem
      · exact hall
    · cases h3

/-- An order is finalized for the block's domains, once the CA has found it ready. -/
theorem tryIssue_finalize (env : IssueEnv) (cfg : AcmeConfig) (serverNames : List Text) :
    (∀ domains keyPem, .finalize domains keyPem ∈ (tryIssue env cfg serverNames).deeds →
      env.status = some .ready ∧ domains = acmeDomains cfg serverNames ∧ domains ≠ []) ∧
    Precedes (· = .pollReady) (fun d => ∃ domains keyPem, d = .finalize domains keyPem)
      (tryIssue env cfg serverNames).deeds := by
  obtain ⟨answered, obtained, stored, hparts, hdeeds, -⟩ := tryIssue_parts env cfg serverNames
  constructor
  · intro domains keyPem hfin
    obtain h0 | ⟨h1, -⟩ | ⟨-, hmem⟩ | ⟨h3, -⟩ := hparts.mem hdeeds hfin
    · cases h0
    · cases h1
    · rcases hparts.obtaining with rfl | ⟨rfl, hne, -⟩
      · cases hmem
      · rcases mem_obtainCertificate hmem with h | h | ⟨hstatus, key, -, h⟩
        · cases h
        · cases h
        · cases h
          exact ⟨hstatus, rfl, hne⟩
    · cases h3
  · have hfin : ∀ d : AcmeDeed, (∃ domains keyPem, d = .finalize domains keyPem) → d.phase = 2 := by
      rintro _ ⟨_, _, rfl⟩
      rfl
    rw [hdeeds]
    refine precedes_append.mpr ⟨precedes_of_phase (fun d hd => phase_placeOrder hd) hfin
      (by decide), .inr (precedes_append.mpr
        ⟨precedes_of_phase hparts.phase_answered hfin (by decide), .inr (precedes_append.mpr
          ⟨?_, .inr (precedes_of_phase hparts.phase_stored hfin (by decide))⟩)⟩)⟩
    rcases hparts.obtaining with rfl | ⟨rfl, -⟩
    · exact precedes_nil
    · exact precedes_obtainCertificate

/-- Files are written with a certificate from the CA, after the order was finalized. -/
theorem tryIssue_stores {serverNames : List Text} {op : FileOp}
    (hop : .file op ∈ (tryIssue env cfg serverNames).deeds) : env.certificate.isSome ∧
      Precedes (fun d => ∃ domains keyPem, d = .finalize domains keyPem) (· = .file op)
        (tryIssue env cfg serverNames).deeds := by
  obtain ⟨answered, obtained, stored, hparts, hdeeds, -⟩ := tryIssue_parts env cfg serverNames
  have hfile : ∀ d : AcmeDeed, d = .file op → d.phase = 3 := fun d hd => hd ▸ rfl
  rcases hparts.storing with rfl | ⟨chain, keyPem, hcert, hfin, -⟩
  · obtain h0 | ⟨h1, -⟩ | ⟨h2, -⟩ | ⟨-, hmem⟩ := hparts.mem hdeeds hop
    · cases h0
    · cases h1
    · cases h2
    · cases hmem
  · refine ⟨by rw [hcert]; rfl, ?_⟩
    rw [hdeeds]
    exact precedes_append.mpr ⟨precedes_of_phase (fun d hd => phase_placeOrder hd) hfile
      (by decide), .inr (precedes_append.mpr
        ⟨precedes_of_phase hparts.phase_answered hfile (by decide), .inr (precedes_append.mpr
          ⟨precedes_of_phase hparts.phase_obtained hfile (by decide),
            .inl ⟨_, hfin, _, _, rfl⟩⟩)⟩)⟩

/-- **The protocol of an attempt**, whatever the CA answers. -/
theorem tryIssue_protocol (env : IssueEnv) (cfg : AcmeConfig) (serverNames : List Text) :
    let deeds := (tryIssue env cfg serverNames).deeds
    let authorizations := env.order.getD []
    (∀ i kind token,
      Follows (fun d => ∃ a, authorizations[i]? = some (some a) ∧ Stages env cfg a kind token d)
        (· = .setReady i kind token) deeds) ∧
    readied deeds <+: pendingFrom 0 authorizations ∧
    (.pollReady ∈ deeds → readied deeds = pendingFrom 0 authorizations) ∧
    (∀ domains keyPem, .finalize domains keyPem ∈ deeds →
      env.status = some .ready ∧ domains = acmeDomains cfg serverNames ∧ domains ≠ []) ∧
    Precedes (· = .pollReady) (fun d => ∃ domains keyPem, d = .finalize domains keyPem) deeds ∧
    ∀ op, .file op ∈ deeds → env.certificate.isSome ∧
      Precedes (fun d => ∃ domains keyPem, d = .finalize domains keyPem) (· = .file op) deeds := by
  obtain ⟨hinitial, hall⟩ := tryIssue_readied env cfg serverNames
  obtain ⟨hfinal, hpolled⟩ := tryIssue_finalize env cfg serverNames
  exact ⟨tryIssue_follows env cfg serverNames, hinitial, hall, hfinal, hpolled,
    fun op => tryIssue_stores⟩

/-- A deed of the part that answers challenges. -/
theorem mem_tryIssue {serverNames : List Text}
    (h : d ∈ (tryIssue env cfg serverNames).deeds) (hphase : d.phase = 1) :
    (∃ j kind token, d = .setReady j kind token) ∨
      ∃ domain token kind, StagedBy env cfg domain token kind d := by
  obtain ⟨answered, obtained, stored, hparts, hdeeds, -⟩ := tryIssue_parts env cfg serverNames
  obtain h0 | ⟨-, hmem⟩ | ⟨h2, -⟩ | ⟨h3, -⟩ := hparts.mem hdeeds h
  · omega
  · rcases hparts.answering with rfl | rfl
    · cases hmem
    · exact mem_answerAuthorizations hmem
  · omega
  · omega

/-! ## All attempts -/

theorem fileOps_append (ds ds' : List AcmeDeed) : fileOps (ds ++ ds') = fileOps ds ++ fileOps ds' :=
  List.filterMap_append

theorem fileOps_of_phase {ds : List AcmeDeed} {n : Nat} (hds : ∀ d ∈ ds, d.phase = n)
    (hn : n ≠ 3) : fileOps ds = [] := by
  refine List.filterMap_eq_nil_iff.mpr fun d hd => ?_
  cases d with
  | file op => exact absurd (hds _ hd).symm hn
  | _ => rfl

/-- **What an attempt writes**: nothing without a certificate from the CA, and the certificate and
its key if it succeeds. -/
theorem tryIssue_files (env : IssueEnv) (cfg : AcmeConfig) (serverNames : List Text) :
    (env.certificate = none → fileOps (tryIssue env cfg serverNames).deeds = []) ∧
    ((tryIssue env cfg serverNames).result = .ok () → ∃ chain keyPem,
      env.certificate = some chain ∧
      .finalize (acmeDomains cfg serverNames) keyPem ∈ (tryIssue env cfg serverNames).deeds ∧
      fileOps (tryIssue env cfg serverNames).deeds = writeCert (utf8 chain) keyPem) := by
  obtain ⟨answered, obtained, stored, hparts, hdeeds, hok⟩ := tryIssue_parts env cfg serverNames
  have hfiles : fileOps (tryIssue env cfg serverNames).deeds = fileOps stored := by
    rw [hdeeds, fileOps_append, fileOps_append, fileOps_append,
      fileOps_of_phase hparts.phase_answered (by decide),
      fileOps_of_phase hparts.phase_obtained (by decide),
      fileOps_of_phase (fun d hd => phase_placeOrder hd) (by decide)]
    rfl
  refine ⟨fun hnone => ?_, fun hres => ?_⟩
  · rw [hfiles]
    rcases hparts.storing with rfl | ⟨chain, keyPem, hcert, -⟩
    · rfl
    · rw [hnone] at hcert
      cases hcert
  · obtain ⟨chain, keyPem, hcert, hfin, hstored⟩ := hok hres
    refine ⟨chain, keyPem, hcert, ?_, by rw [hfiles, hstored, fileOps_map]⟩
    rw [hdeeds]
    exact List.mem_append_right _ (List.mem_append_right _ (List.mem_append_left _ hfin))

/-- An attempt whose writes do not fail writes nothing unless it succeeds. -/
theorem tryIssue_unwritten {env : IssueEnv} (hwrites : env.writes = none) (cfg : AcmeConfig)
    (serverNames : List Text) {e : IssueError}
    (h : (tryIssue env cfg serverNames).result = .error e) :
    fileOps (tryIssue env cfg serverNames).deeds = [] := by
  have hplaced : fileOps (placeOrder env cfg (acmeDomains cfg serverNames)).deeds = [] :=
    fileOps_of_phase (fun d hd => phase_placeOrder hd) (by decide)
  unfold tryIssue at h ⊢
  cases hplace : (placeOrder env cfg (acmeDomains cfg serverNames)).result with
  | error e => rw [Traced.bind_of_error hplace, hplaced]
  | ok authorizations =>
    have hanswered : fileOps (answerAuthorizations env cfg 0 authorizations).deeds = [] :=
      fileOps_of_phase (fun d hd => phase_answerAuthorizations hd) (by decide)
    simp only [Traced.bind_of_ok hplace, fileOps_append, hplaced, List.nil_append] at h ⊢
    cases hans : (answerAuthorizations env cfg 0 authorizations).result with
    | error e => rw [Traced.bind_of_error hans, hanswered]
    | ok u =>
      have hobtained : fileOps (obtainCertificate env (acmeDomains cfg serverNames)).deeds = [] :=
        fileOps_of_phase (fun d hd => phase_obtainCertificate hd) (by decide)
      simp only [Traced.bind_of_ok hans, fileOps_append, hanswered, List.nil_append] at h ⊢
      cases hobt : (obtainCertificate env (acmeDomains cfg serverNames)).result with
      | error e => rw [Traced.bind_of_error hobt, hobtained]
      | ok p =>
        simp only [Traced.bind_of_ok hobt, fileOps_append, hobtained, List.nil_append] at h ⊢
        -- without a directory nothing is written, and with it everything
        unfold storeCertificate at h ⊢
        cases hdir : env.certDir with
        | false => rfl
        | true =>
          rw [hdir, hwrites, Traced.bind_of_ok (a := ()) (by simp)] at h
          cases h

/-- **The attempts from one on**: they write nothing without a certificate from the CA, and if
they succeed then one of them does and writes last. -/
theorem issueAttempts_files (cfg : AcmeConfig) (envs : Nat → IssueEnv) (serverNames : List Text)
    (left attempt : Nat) :
    let r := issueAttempts cfg envs serverNames left attempt
    ((∀ k, k ≤ left → (envs (attempt + k)).certificate = none) → fileOps r.deeds = []) ∧
    (r.result = .ok () → ∃ k before, k ≤ left ∧
      (∀ j, j < k → (tryIssue (envs (attempt + j)) cfg serverNames).result ≠ .ok ()) ∧
      (tryIssue (envs (attempt + k)) cfg serverNames).result = .ok () ∧
      fileOps r.deeds =
        before ++ fileOps (tryIssue (envs (attempt + k)) cfg serverNames).deeds) := by
  induction left generalizing attempt with
  | zero =>
    exact ⟨fun hnone => (tryIssue_files _ _ _).1 (hnone 0 (Nat.le_refl 0)),
      fun hok => ⟨0, [], Nat.le_refl 0, by simp, hok, rfl⟩⟩
  | succ left ih =>
    unfold issueAttempts
    cases hres : (tryIssue (envs attempt) cfg serverNames).result with
    | ok u =>
      refine ⟨fun hnone => ?_, fun _ => ⟨0, [], Nat.zero_le _, by simp, hres, ?_⟩⟩
      · simp only [hres]
        exact (tryIssue_files _ _ _).1 (hnone 0 (Nat.zero_le _))
      · simp only [hres]
        rfl
    | error e =>
      obtain ⟨ihnone, ihok⟩ := ih (attempt + 1)
      simp only [hres, fileOps_append]
      refine ⟨fun hnone => ?_, fun hok => ?_⟩
      · rw [(tryIssue_files (envs attempt) _ _).1 (hnone 0 (Nat.zero_le _)), ihnone fun k hk => ?_]
        · rfl
        · rw [show attempt + 1 + k = attempt + (k + 1) by omega]
          exact hnone (k + 1) (by omega)
      · obtain ⟨k, before, hk, hfail, hsucc, hops⟩ := ihok hok
        rw [show attempt + 1 + k = attempt + (k + 1) by omega] at hsucc hops
        refine ⟨k + 1, fileOps (tryIssue (envs attempt) cfg serverNames).deeds ++ before, by omega,
          fun j hj => ?_, hsucc, by rw [hops, List.append_assoc]⟩
        cases j with
        | zero => simp [hres]
        | succ j =>
          rw [show attempt + (j + 1) = attempt + 1 + j by omega]
          exact hfail j (by omega)

theorem issueAttempts_unwritten {envs : Nat → IssueEnv} (hwrites : ∀ n, (envs n).writes = none)
    (cfg : AcmeConfig) (serverNames : List Text) (left attempt : Nat) {e : IssueError}
    (h : (issueAttempts cfg envs serverNames left attempt).result = .error e) :
    fileOps (issueAttempts cfg envs serverNames left attempt).deeds = [] := by
  induction left generalizing attempt with
  | zero => exact tryIssue_unwritten (hwrites attempt) cfg serverNames h
  | succ left ih =>
    unfold issueAttempts at h ⊢
    cases hres : (tryIssue (envs attempt) cfg serverNames).result with
    | ok u =>
      simp only [hres] at h
      cases h
    | error e' =>
      simp only [hres] at h ⊢
      rw [fileOps_append, tryIssue_unwritten (hwrites attempt) cfg serverNames hres,
        ih (attempt + 1) h]
      rfl

/-- A certificate and a key that are written in full are there, both private. -/
theorem runOps_writeCert_full (umask : UInt32) (dir : CertDir) (chainPem keyPem : Bytes) :
    let after := runOps umask dir (writeCert chainPem keyPem)
    after .cert = some ⟨chainPem, 0o600, .this⟩ ∧ after .key = some ⟨keyPem, 0o600, .this⟩ := by
  have hlen : (writeCert chainPem keyPem).length =
      chainPem.length + 2 + (keyPem.length + 2) := by
    simp [writeCert, length_writeSecret]
  obtain ⟨hcert, hkey⟩ := runOps_writeCert umask dir chainPem keyPem
    (writeCert chainPem keyPem).length
  rw [List.take_length] at hcert hkey
  exact ⟨hcert.trans (fileAfter_of_le (by omega)), hkey.trans (fileAfter_of_le (by omega))⟩

/-- **Attempts that succeed** leave what the first that does has got, with its key. -/
theorem issueAttempts_stored {cfg : AcmeConfig} {envs : Nat → IssueEnv} {serverNames : List Text}
    {left attempt : Nat} (umask : UInt32) (dir : CertDir)
    (h : (issueAttempts cfg envs serverNames left attempt).result = .ok ()) :
    let after := runOps umask dir (fileOps (issueAttempts cfg envs serverNames left attempt).deeds)
    ∃ k chain keyPem, k ≤ left ∧
      (∀ j, j < k → (tryIssue (envs (attempt + j)) cfg serverNames).result ≠ .ok ()) ∧
      (tryIssue (envs (attempt + k)) cfg serverNames).result = .ok () ∧
      (envs (attempt + k)).certificate = some chain ∧
      .finalize (acmeDomains cfg serverNames) keyPem ∈
        (tryIssue (envs (attempt + k)) cfg serverNames).deeds ∧
      after .cert = some ⟨utf8 chain, 0o600, .this⟩ ∧
      after .key = some ⟨keyPem, 0o600, .this⟩ := by
  obtain ⟨k, before, hk, hfail, hok, hops⟩ := (issueAttempts_files _ _ _ _ _).2 h
  obtain ⟨chain, keyPem, hcert, hfin, hfiles⟩ := (tryIssue_files _ _ _).2 hok
  obtain ⟨hc, hkey⟩ := runOps_writeCert_full umask (runOps umask dir before) (utf8 chain) keyPem
  refine ⟨k, chain, keyPem, hk, hfail, hok, hcert, hfin, ?_, ?_⟩
  · rw [hops, hfiles, runOps_append]
    exact hc
  · rw [hops, hfiles, runOps_append]
    exact hkey

/-- **Issuance is closed to failures.** If `ensure_cert` succeeds, a certificate that loads was
there and the directory is as it was, or an attempt, the first that succeeds, got one from the CA
for the block's domains, and the directory holds it with the key it was signed for, both private.
Without a certificate from the CA the directory is as it was, and `ensure_cert` fails unless it
loads. -/
theorem ensureCert_files (reader : PemReader) (cfg : AcmeConfig) (envs : Nat → IssueEnv)
    (serverNames : List Text) (umask : UInt32) (dir : CertDir) :
    let usable := hasUsableCert reader ⟨cfg.certDir⟩ dir
    let r := ensureCert cfg usable envs serverNames
    let after := runOps umask dir (fileOps r.deeds)
    (r.result = .ok () → usable = true ∧ after = dir ∨
      ∃ n chain keyPem, 1 ≤ n ∧ n ≤ maxAttempts ∧
        (∀ m, 1 ≤ m → m < n → (tryIssue (envs m) cfg serverNames).result ≠ .ok ()) ∧
        (tryIssue (envs n) cfg serverNames).result = .ok () ∧
        (envs n).certificate = some chain ∧
        .finalize (acmeDomains cfg serverNames) keyPem ∈
          (tryIssue (envs n) cfg serverNames).deeds ∧
        after .cert = some ⟨utf8 chain, 0o600, .this⟩ ∧
        after .key = some ⟨keyPem, 0o600, .this⟩) ∧
    ((∀ n, 1 ≤ n → n ≤ maxAttempts → (envs n).certificate = none) →
      after = dir ∧ (r.result = .ok () ↔ usable = true)) := by
  intro usable r after
  have hr : r = if usable then pure ()
      else issueAttempts cfg envs serverNames (maxAttempts - 1) 1 := rfl
  cases husable : usable with
  | true =>
    rw [husable, if_pos rfl] at hr
    have hafter : after = dir := by
      show runOps umask dir (fileOps r.deeds) = dir
      rw [hr]
      rfl
    exact ⟨fun _ => .inl ⟨rfl, hafter⟩, fun _ => ⟨hafter, by rw [hr]; exact iff_of_true rfl rfl⟩⟩
  | false =>
    rw [husable, if_neg (by decide)] at hr
    have hmax : maxAttempts = 5 := rfl
    have hstored (hres : r.result = .ok ()) := by
      rw [hr] at hres
      exact issueAttempts_stored umask dir hres
    refine ⟨fun hres => ?_, fun hall => ?_⟩
    · obtain ⟨k, chain, keyPem, hk, hfail, hsucc, hcert, hfin, hc, hkey⟩ := hstored hres
      rw [← hr] at hc hkey
      refine .inr ⟨1 + k, chain, keyPem, by omega, by omega, fun m hm hlt => ?_, hsucc, hcert,
        hfin, hc, hkey⟩
      rw [show m = 1 + (m - 1) by omega]
      exact hfail (m - 1) (by omega)
    · have hzero : after = dir := by
        show runOps umask dir (fileOps r.deeds) = dir
        rw [hr, (issueAttempts_files cfg envs serverNames _ _).1 fun k hk =>
          hall (1 + k) (by omega) (by omega)]
        rfl
      refine ⟨hzero, iff_of_false (fun hres => ?_) (by decide)⟩
      obtain ⟨k, chain, -, hk, -, -, hcert, -⟩ := hstored hres
      rw [hall (1 + k) (by omega) (by omega)] at hcert
      cases hcert

namespace Sample

def issueConfig : AcmeConfig := { enabled := true, email := "a@b".toList, agreeTos := true }

/-- A CA that asks for one name by HTTP-01 and grants it; the certificate is not stored. -/
def issueEnv : IssueEnv where
  client := true
  readToString _ := none
  decodeB64 _ := none
  account := true
  order := some [some ⟨false, some "example.com".toList, [(.http01, "tok".toList)]⟩]
  keyAuth token := token ++ ".thumb".toList
  digest _ := []
  dnsValue _ := []
  challengeCert _ := true
  webhookClient := true
  webhook _ := none
  setsReady _ := true
  status := some .ready
  keyPem := some [1]
  csr := true
  finalizes := true
  certificate := some "chain".toList
  certDir := true
  writes := some 0

end Sample

end Flexd
