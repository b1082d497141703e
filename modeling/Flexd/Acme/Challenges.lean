import Flexd.Acme.Issue
import Flexd.Handler.Entry

/-!
# Challenges in the store

An attempt puts the responses to its challenges into the block's store, which
the request handler reads for HTTP-01 and the certificate resolver for
TLS-ALPN-01. `challenge_answered` says that a challenge which is declared ready
is answered from then on, whatever else the server does meanwhile; nothing
else shows what is in the store.
-/

namespace Flexd

open Lib

structure ChallengeStore where
  http01 : AList fun _ : Text => Text := ∅
  tlsAlpn : AList fun _ : Text => ChallengeCert := ∅

namespace ChallengeStore

def putHttp01 (s : ChallengeStore) (token keyAuth : Text) : ChallengeStore :=
  { s with http01 := s.http01.insert token keyAuth }

def getHttp01 (s : ChallengeStore) (token : Text) : Option Text := s.http01.lookup token

def putTlsAlpn (s : ChallengeStore) (sni : Text) (cert : ChallengeCert) : ChallengeStore :=
  { s with tlsAlpn := s.tlsAlpn.insert sni cert }

def getTlsAlpn (s : ChallengeStore) (sni : Text) : Option ChallengeCert := s.tlsAlpn.lookup sni

def hasTlsAlpn (s : ChallengeStore) : Bool := !s.tlsAlpn.entries.isEmpty

/-- What a deed of an attempt does to the store of its block. -/
def after (s : ChallengeStore) : AcmeDeed → ChallengeStore
  | .putHttp01 token keyAuth => s.putHttp01 token keyAuth
  | .putTlsAlpn sni cert => s.putTlsAlpn sni cert
  | _ => s

def afterAll (s : ChallengeStore) (ds : List AcmeDeed) : ChallengeStore := ds.foldl after s

theorem afterAll_append (s : ChallengeStore) (ds ds' : List AcmeDeed) :
    s.afterAll (ds ++ ds') = (s.afterAll ds).afterAll ds' := List.foldl_append

/-- The staged certificates by name, as a resolver presents them. -/
def chains (der : ChallengeCert → Bytes) (s : ChallengeStore) (sni : Text) : Option (List Bytes) :=
  (s.getTlsAlpn sni).map fun cert => [der cert]

/-- A response that is there stays, if no deed puts another. -/
theorem getHttp01_afterAll {s : ChallengeStore} {token keyAuth : Text}
    (h : s.getHttp01 token = some keyAuth) {ds : List AcmeDeed}
    (hds : ∀ k, .putHttp01 token k ∈ ds → k = keyAuth) :
    (s.afterAll ds).getHttp01 token = some keyAuth := by
  induction ds generalizing s with
  | nil => exact h
  | cons d ds ih =>
    refine ih ?_ fun k hk => hds k (List.mem_cons_of_mem d hk)
    cases d with
    | putHttp01 token' k =>
      show (s.http01.insert token' k).lookup token = some keyAuth
      by_cases ht : token = token'
      · subst ht
        rw [AList.lookup_insert, hds k List.mem_cons_self]
      · rw [AList.lookup_insert_ne ht]
        exact h
    | _ => exact h

end ChallengeStore

/-! ## Answers -/

/-- An attempt has one response to a token. -/
theorem keyAuth_of_putHttp01 (env : IssueEnv) (cfg : AcmeConfig) (serverNames : List Text)
    {token k : Text} (h : .putHttp01 token k ∈ (tryIssue env cfg serverNames).deeds) :
    k = env.keyAuth token := by
  rcases mem_tryIssue h rfl with ⟨_, _, _, hd⟩ | ⟨domain, token', kind, hs⟩
  · cases hd
  · cases kind with
    | http01 => cases hs; rfl
    | tlsAlpn01 => cases hs
    | dns01 => obtain ⟨_, _, -, hd⟩ := hs; cases hd

/-- The service of a block with a challenge store. -/
def HandlerService.withChallenges (svc : HandlerService) (store : ChallengeStore) :
    HandlerService := { svc with acmeStore := some store.getHttp01 }

/-- The answer to a request for a token. -/
theorem acmeChallengeResponse_token (ext : External) (svc : HandlerService)
    (store : ChallengeStore) {token : Text} (hne : token ≠ []) (hslash : '/' ∉ token) :
    (svc.withChallenges store).acmeChallengeResponse ext (HandlerService.acmePath ++ token) =
      match store.getHttp01 token with
      | some keyAuth =>
        some ⟨.ok, insertStr [] .contentType "application/octet-stream".toList, utf8 keyAuth⟩
      | none => some (HandlerService.errorResponse ext .notFound) := by
  have hacme : HandlerService.acmePath.isPrefixOf (HandlerService.acmePath ++ token) = true := by
    rw [List.isPrefixOf_iff_prefix]
    exact List.prefix_append _ _
  unfold HandlerService.acmeChallengeResponse HandlerService.withChallenges
  cases hget : store.getHttp01 token <;> simp [hacme, hne, hslash, hget]

/-- A request for a token whose response is in the store. -/
theorem handle_of_getHttp01 {ext : External} {svc : HandlerService} {store : ChallengeStore}
    {token keyAuth : Text} (hget : store.getHttp01 token = some keyAuth) (hne : token ≠ [])
    (hslash : '/' ∉ token) {req : Incoming}
    (hpath : req.uri.path = HandlerService.acmePath ++ token) (client : IpAddr) (world : World)
    (st : ServiceState) :
    let handled := (svc.withChallenges store).handle ext req client world st
    handled.state = st ∧ handled.response = some
      ⟨.ok, insertStr [] .contentType "application/octet-stream".toList, utf8 keyAuth⟩ := by
  have hacme := acmeChallengeResponse_token ext svc store hne hslash
  rw [hget, ← hpath] at hacme
  unfold HandlerService.handle
  simp only [hacme]
  exact ⟨trivial, trivial⟩

/-- A handshake for a name whose challenge certificate has just been put. -/
theorem present_putTlsAlpn (store : ChallengeStore) (domain : Text) (cert : ChallengeCert)
    (der : ChallengeCert → Bytes) {acceptor : TlsAcceptor} {hello : ClientHello}
    (hacceptor : acceptor.challenges = true) (hhello : hello.acmeAlpn = true)
    (hname : hello.serverName = some domain) :
    acceptor.present ((store.putTlsAlpn domain cert).chains der) hello = some [der cert] := by
  rw [TlsAcceptor.present, if_pos hacceptor, acmeResolve, if_pos hhello, hname]
  show ((store.tlsAlpn.insert domain cert).lookup domain).map (fun cert => [der cert]) = _
  rw [AList.lookup_insert]
  rfl

/-- **A challenge that an attempt declares ready is answered.** For HTTP-01 the handler answers
every request for the token with the key authorization, from then on to the end of the attempt,
whatever else is asked of it. For TLS-ALPN-01 a handshake that asks for the challenge of the
authorization's name is presented the certificate for its key authorization. -/
theorem challenge_answered (ext : External) (env : IssueEnv) (cfg : AcmeConfig)
    (serverNames : List Text) (store : ChallengeStore) {pre post : List AcmeDeed} {i : Nat}
    {kind : ChallengeType} {token : Text}
    (h : (tryIssue env cfg serverNames).deeds = pre ++ .setReady i kind token :: post) :
    match kind with
    | .http01 => token ≠ [] → '/' ∉ token → ∀ later, later <+: post →
        ∀ (svc : HandlerService) (req : Incoming) (client : IpAddr) (world : World)
          (st : ServiceState), req.uri.path = HandlerService.acmePath ++ token →
        let handled := (svc.withChallenges (store.afterAll (pre ++ later))).handle ext req client
          world st
        handled.state = st ∧ handled.response = some
          ⟨.ok, insertStr [] .contentType "application/octet-stream".toList,
            utf8 (env.keyAuth token)⟩
    | .tlsAlpn01 => ∃ a domain, (env.order.getD [])[i]? = some (some a) ∧
        a.identifier = some domain ∧
        ∀ (der : ChallengeCert → Bytes) (acceptor : TlsAcceptor) (hello : ClientHello),
        acceptor.challenges = true → hello.acmeAlpn = true → hello.serverName = some domain →
        acceptor.present ((store.afterAll pre).chains der) hello =
          some [der ⟨domain, env.digest token⟩]
    | .dns01 => True := by
  obtain ⟨before, d, rfl, a, ha, hstages⟩ :=
    tryIssue_follows env cfg serverNames i kind token pre _ post h rfl
  obtain ⟨-, domain, hid, -, -, hby⟩ := hstages
  cases kind with
  | http01 =>
    intro hne hslash later hlater svc req client world st hpath
    obtain rfl : d = .putHttp01 token (env.keyAuth token) := hby
    have hget : (store.afterAll (before ++ [.putHttp01 token (env.keyAuth token)] ++
        later)).getHttp01 token = some (env.keyAuth token) := by
      have hput : ((store.afterAll before).putHttp01 token (env.keyAuth token)).getHttp01 token =
          some (env.keyAuth token) := AList.lookup_insert _
      rw [ChallengeStore.afterAll_append, ChallengeStore.afterAll_append]
      refine ChallengeStore.getHttp01_afterAll hput fun k hk => ?_
      refine keyAuth_of_putHttp01 env cfg serverNames ?_
      rw [h]
      exact List.mem_append_right _ (List.mem_cons_of_mem _ (hlater.subset hk))
    exact handle_of_getHttp01 hget hne hslash hpath client world st
  | tlsAlpn01 =>
    obtain rfl : d = .putTlsAlpn domain ⟨domain, env.digest token⟩ := hby
    refine ⟨a, domain, ha, hid, fun der acceptor hello hacceptor hhello hname => ?_⟩
    rw [ChallengeStore.afterAll_append]
    exact present_putTlsAlpn (store.afterAll before) domain _ der hacceptor hhello hname
  | dns01 => trivial

open Sample

theorem challenge_answered_http01 :
    (tryIssue issueEnv issueConfig ["example.com".toList]).deeds =
      [.newAccount "mailto:a@b".toList true issueConfig.caEndpoint none,
        .newOrder ["example.com".toList], .putHttp01 "tok".toList "tok.thumb".toList] ++
      .setReady 0 .http01 "tok".toList :: [.pollReady, .finalize ["example.com".toList] [1],
        .pollCertificate] ∧
    ("tok".toList ≠ [] → '/' ∉ "tok".toList → ∀ later,
      later <+: [.pollReady, .finalize ["example.com".toList] [1], .pollCertificate] →
      ∀ (svc : HandlerService) (req : Incoming) (client : IpAddr) (world : World)
        (st : ServiceState), req.uri.path = HandlerService.acmePath ++ "tok".toList →
      let handled := (svc.withChallenges (ChallengeStore.afterAll {}
        ([.newAccount "mailto:a@b".toList true issueConfig.caEndpoint none,
          .newOrder ["example.com".toList], .putHttp01 "tok".toList "tok.thumb".toList] ++
          later))).handle .sample req client world st
      handled.state = st ∧ handled.response = some
        ⟨.ok, insertStr [] .contentType "application/octet-stream".toList,
          utf8 (issueEnv.keyAuth "tok".toList)⟩) := by
  have h : (tryIssue issueEnv issueConfig ["example.com".toList]).deeds =
      [.newAccount "mailto:a@b".toList true issueConfig.caEndpoint none,
        .newOrder ["example.com".toList], .putHttp01 "tok".toList "tok.thumb".toList] ++
      .setReady 0 .http01 "tok".toList :: [.pollReady, .finalize ["example.com".toList] [1],
        .pollCertificate] := rfl
  exact ⟨h, challenge_answered .sample issueEnv issueConfig ["example.com".toList] {} h⟩

/-! ## What everyone else sees -/

/-- The service of a block without ACME. -/
def HandlerService.withoutChallenges (svc : HandlerService) : HandlerService :=
  { svc with acmeStore := none }

section

variable {ext : External} {svc : HandlerService} {store : ChallengeStore}

theorem failover_withChallenges (u : UpstreamRef) (req : Request) (client : IpAddr)
    (net : Nat → Attempt) (order : List Nat) (status : StatusCode) (st : ServiceState) :
    (svc.withChallenges store).failover ext u req client net order status st =
      svc.withoutChallenges.failover ext u req client net order status st := by
  induction order generalizing status st with
  | nil => rfl
  | cons idx rest ih =>
    unfold HandlerService.failover
    simp only [ih]
    rfl

theorem handleCollected_withChallenges (req : Request) (client : IpAddr) (world : World)
    (st : ServiceState) :
    (svc.withChallenges store).handleCollected ext req client world st =
      svc.withoutChallenges.handleCollected ext req client world st := by
  unfold HandlerService.handleCollected HandlerService.process HandlerService.route
    HandlerService.dispatch HandlerService.dispatchProxy
  simp only [failover_withChallenges]
  rfl

theorem handle_withChallenges {req : Incoming}
    (hpath : HandlerService.acmePath.isPrefixOf req.uri.path = false) (client : IpAddr)
    (world : World) (st : ServiceState) :
    (svc.withChallenges store).handle ext req client world st =
      svc.withoutChallenges.handle ext req client world st := by
  have hwith : (svc.withChallenges store).acmeChallengeResponse ext req.uri.path = none := by
    unfold HandlerService.acmeChallengeResponse HandlerService.withChallenges
    simp [hpath]
  have hwithout : svc.withoutChallenges.acmeChallengeResponse ext req.uri.path = none := rfl
  unfold HandlerService.handle
  simp only [hwith, hwithout, handleCollected_withChallenges]
  rfl

theorem handleH3_withChallenges (req : Request) (client : IpAddr) (world : World)
    (st : ServiceState) :
    (svc.withChallenges store).handleH3 ext req client world st =
      svc.withoutChallenges.handleH3 ext req client world st := by
  unfold HandlerService.handleH3
  simp only [handleCollected_withChallenges]
  rfl

/-- A challenge changes nothing. -/
theorem handle_challenge_state {req : Incoming}
    (hpath : HandlerService.acmePath.isPrefixOf req.uri.path = true) (client : IpAddr)
    (world : World) (st : ServiceState) :
    ((svc.withChallenges store).handle ext req client world st).state = st := by
  have hsome : ((svc.withChallenges store).acmeChallengeResponse ext req.uri.path).isSome =
      true := by
    unfold HandlerService.acmeChallengeResponse HandlerService.withChallenges
    simp only [hpath, if_true]
    split
    · rfl
    · split <;> rfl
  obtain ⟨resp, hresp⟩ := Option.isSome_iff_exists.mp hsome
  unfold HandlerService.handle
  simp only [hresp]

end

/-- The request is for a challenge. -/
def Call.isChallenge : Call → Bool
  | .http req _ _ => HandlerService.acmePath.isPrefixOf req.uri.path
  | .h3 .. => false

/-- A block with ACME goes on: its issuance does something, or a request is served. -/
inductive AcmeInput where
  | deed (d : AcmeDeed)
  | call (c : Call)

/-- The request, if it is not for a challenge. -/
def AcmeInput.ordinary : AcmeInput → Option Call
  | .deed _ => none
  | .call c => if c.isChallenge then none else some c

inductive AcmeOutput where
  | quiet
  | challenge (h : Handled)
  | ordinary (h : Handled)

/-- What is shown to others than the CA. -/
def AcmeOutput.shown : AcmeOutput → Option Handled
  | .ordinary h => some h
  | _ => none

/-- The service of a block with ACME, while certificates are issued for it. -/
def acmeService (ext : External) (svc : HandlerService) :
    Machine (ChallengeStore × ServiceState) AcmeInput AcmeOutput where
  step s
    | .deed d => ((s.1.after d, s.2), .quiet)
    | .call c =>
      let r := (serviceMachine ext (svc.withChallenges s.1)).step s.2 c
      ((s.1, r.1), if c.isChallenge then .challenge r.2 else .ordinary r.2)

/-- **Issuance is not seen by any other request**: in every interleaving of the deeds of issuances
with requests, the requests that are not for challenges are handled as they are, in their order, by
a service without ACME. -/
theorem challenges_invisible (ext : External) (svc : HandlerService) (store : ChallengeStore)
    (st : ServiceState) (is : List AcmeInput) :
    ((acmeService ext svc).outputs (store, st) is).filterMap AcmeOutput.shown =
      (serviceMachine ext svc.withoutChallenges).outputs st (is.filterMap AcmeInput.ordinary) := by
  refine Machine.outputs_unaffected Prod.snd (fun s i c hi => ?_) (fun s i hi => ?_)
    (store, st) is
  · cases i with
    | deed d => cases hi
    | call c' =>
      cases hc : c'.isChallenge with
      | true => simp [AcmeInput.ordinary, hc] at hi
      | false =>
        obtain rfl : c' = c := by simpa [AcmeInput.ordinary, hc] using hi
        have hstep : (serviceMachine ext (svc.withChallenges s.1)).step s.2 c' =
            (serviceMachine ext svc.withoutChallenges).step s.2 c' := by
          cases c' with
          | http req client world =>
            simp only [serviceMachine, handle_withChallenges hc]
          | h3 req client world => simp only [serviceMachine, handleH3_withChallenges]
        simp only [acmeService, hc, hstep, AcmeOutput.shown]
        exact ⟨trivial, rfl⟩
  · cases i with
    | deed d => exact ⟨rfl, rfl⟩
    | call c =>
      cases hc : c.isChallenge with
      | false => simp [AcmeInput.ordinary, hc] at hi
      | true =>
        cases c with
        | h3 req client world => cases hc
        | http req client world =>
          refine ⟨handle_challenge_state hc client world s.2, ?_⟩
          simp only [acmeService, hc]
          rfl

end Flexd
