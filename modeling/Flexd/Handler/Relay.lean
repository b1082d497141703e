import Flexd.Handler.Distribution
import Flexd.Handler.Mediation

/-!
# Relayed responses

What a client is answered when its request has been sent upstream: the response
of the server it was sent to last, as far as `Relays` allows, or the plain page
of one of three statuses. Nothing else of what upstreams answer is passed on.
-/

namespace Flexd

open Lib HandlerService

/-- A response relays what an upstream answered: the status, the whole body within the cap and,
name by name, the values of all headers but the hop-by-hop and the nominated ones. The block's own
HSTS stands in where the upstream sets none. -/
structure Relays (svc : HandlerService) (up : UpstreamResponse) (resp : Response) : Prop where
  status : resp.status = up.status
  body : up.body = some resp.body
  bounded : resp.body.length ≤ svc.proxy.maxResponseSize
  unambiguous : up.headers.containsKey .contentLength = true →
    up.headers.containsKey .transferEncoding = false
  headers : ∀ n, n ≠ .strictTransportSecurity → resp.headers.getAll n =
    if n ∈ nominatedNames up.headers ∨ n ∈ hopByHop then [] else up.headers.getAll n
  hsts : resp.headers.getAll .strictTransportSecurity =
    if .strictTransportSecurity ∈ nominatedNames up.headers ∨
        up.headers.getAll .strictTransportSecurity = [] then svc.hsts.toList
    else up.headers.getAll .strictTransportSecurity

/-- What the client is told when no upstream response is relayed. -/
def gatewayErrors : List StatusCode := [.forbidden, .badGateway, .gatewayTimeout]

variable {ext : External} {svc : HandlerService} {req : Request} {client : IpAddr}

/-! ## One exchange -/

theorem receive_ok {p : ProxyClient} {up : UpstreamResponse} {resp : Response}
    (h : p.receive up = .ok resp) : ∃ body, up.body = some body ∧
      body.length ≤ p.maxResponseSize ∧ resp = ⟨up.status, stripHopByHop up.headers, body⟩ ∧
      (up.headers.containsKey .contentLength && up.headers.containsKey .transferEncoding) =
        false := by
  unfold ProxyClient.receive at h
  cases hframing : up.headers.containsKey .contentLength &&
      up.headers.containsKey .transferEncoding with
  | true =>
    rw [hframing] at h
    cases h
  | false =>
    rw [hframing, if_neg Bool.false_ne_true] at h
    cases hbody : up.body with
    | none =>
      rw [hbody] at h
      cases h
    | some body =>
      simp only [hbody] at h
      split at h
      · next hle =>
        exact ⟨body, rfl, hle, (Except.ok.inj h).symm, rfl⟩
      · cases h

theorem receive_error {p : ProxyClient} {up : UpstreamResponse} {e : ProxyError}
    (h : p.receive up = .error e) : e = .status .badGateway := by
  unfold ProxyClient.receive at h
  split at h
  · cases h; rfl
  split at h
  · split at h
    · cases h
    · cases h; rfl
  · cases h; rfl

theorem finalize_body (resp : Response) : (svc.finalize resp).body = resp.body := by
  unfold finalize
  split <;> rfl

theorem getAll_finalize {n : HeaderName} (hn : n ≠ .strictTransportSecurity) (resp : Response) :
    (svc.finalize resp).headers.getAll n = resp.headers.getAll n := by
  unfold finalize
  split
  · exact MultiMap.getAll_insertIfAbsent_ne _ hn _
  · rfl

theorem getAll_finalize_hsts (resp : Response) :
    (svc.finalize resp).headers.getAll .strictTransportSecurity =
      if resp.headers.getAll .strictTransportSecurity = [] then svc.hsts.toList
      else resp.headers.getAll .strictTransportSecurity := by
  unfold finalize
  split
  · next v hv =>
    rw [MultiMap.getAll_insertIfAbsent_self, hv]
    rfl
  · next hnone =>
    rw [hnone]
    split
    · assumption
    · rfl

/-- Finished, a received response relays the upstream's. -/
theorem relays_finalize {up : UpstreamResponse} {resp : Response}
    (h : svc.proxy.receive up = .ok resp) : Relays svc up (svc.finalize resp) := by
  obtain ⟨body, hbody, hle, rfl, hframing⟩ := receive_ok h
  refine ⟨by rw [finalize_status], by rw [finalize_body, hbody], by rwa [finalize_body],
    by simpa using hframing, fun n hn => ?_, ?_⟩
  · rw [getAll_finalize hn]
    dsimp only
    rw [getAll_stripHopByHop]
  · have hsts : HeaderName.strictTransportSecurity ∉ hopByHop := by decide
    have hown := getAll_stripHopByHop up.headers .strictTransportSecurity
    rw [getAll_finalize_hsts]
    simp only [hown, hsts, or_false]
    by_cases hnom : HeaderName.strictTransportSecurity ∈ nominatedNames up.headers <;>
      simp [hnom]

section

variable {p : ProxyClient} {o : SendOutcome} {resp : Response} {s : StatusCode}

theorem conclude_ok (h : p.conclude o = .ok resp) :
    ∃ up, o = .response up ∧ p.receive up = .ok resp := by
  cases o with
  | response up => exact ⟨up, rfl, h⟩
  | _ => cases h

theorem conclude_status (h : p.conclude o = .error (.status s)) : s ∈ gatewayErrors := by
  cases o with
  | timeout => cases h; decide
  | connectError => cases h
  | transportError => cases h; decide
  | response up =>
    cases receive_error h
    decide

variable {addr scheme : Text} {cache : Cache} {att : Attempt}

theorem buildRequest_error (h : p.buildRequest ext addr req client scheme = .error s) :
    s = .badGateway := by
  unfold ProxyClient.buildRequest at h
  cases huri : upstreamUri ext addr req.uri with
  | error s' =>
    rw [huri] at h
    cases h
    unfold upstreamUri at huri
    split at huri
    · cases huri
    · cases huri; rfl
  | ok uri =>
    rw [huri] at h
    cases hheaders : p.upstreamHeaders addr req.headers client scheme with
    | ok headers =>
      rw [hheaders] at h
      cases h
    | error s' =>
      rw [hheaders] at h
      cases h
      unfold ProxyClient.upstreamHeaders at hheaders
      split at hheaders
      · cases hheaders
      split at hheaders
      · cases hheaders
      · cases hheaders; rfl

/-- A call of `forward` gives a response only from the exchange. -/
theorem forward_ok (h : (p.forward ext addr req client scheme cache att).result = .ok resp) :
    ∃ up m, att.outcome = .response up ∧ p.receive up = .ok resp ∧
      p.buildRequest ext addr req client scheme = .ok m ∧
      (p.forward ext addr req client scheme cache att).sent = [m] := by
  unfold ProxyClient.forward at h ⊢
  cases hbuild : p.buildRequest ext addr req client scheme with
  | error s =>
    rw [hbuild] at h
    cases h
  | ok m =>
    rw [hbuild] at h
    have hres : p.conclude att.outcome = .ok resp := by
      simp only [ProxyClient.send] at h
      split at h
      · exact h
      split at h
      · exact h
      · cases h
    obtain ⟨up, hup, hreceive⟩ := conclude_ok hres
    exact ⟨up, m, hup, hreceive, rfl, send_sent m⟩

/-- A status that a call of `forward` ends with. -/
theorem forward_status
    (h : (p.forward ext addr req client scheme cache att).result = .error (.status s)) :
    s ∈ gatewayErrors := by
  unfold ProxyClient.forward at h
  cases hbuild : p.buildRequest ext addr req client scheme with
  | error s' =>
    rw [hbuild] at h
    cases h
    rw [buildRequest_error hbuild]
    decide
  | ok m =>
    rw [hbuild] at h
    simp only [ProxyClient.send] at h
    split at h
    · exact conclude_status h
    split at h
    · exact conclude_status h
    · by_cases hout : att.outcome = .timeout
      · simp only [hout, if_true] at h
        cases h
        decide
      · simp only [hout, if_false] at h
        cases h

end

/-! ## The sweep -/

/-- Whatever a service selects for one of its locations is a pool of its block. -/
def OwnPools (svc : HandlerService) : Prop :=
  ∀ path c, findLocation svc.locations path = some c → ∀ client sessions u sessions',
    selectUpstream svc.hash svc.httpBlock c.location.handler client sessions = (.ok u, sessions') →
      u ∈ poolsOf svc.httpBlock

theorem ownPools_new (hash : Hashers) (block : HttpBlock) (acmeStore : Option (Text → Option Text))
    (isTls : Bool) : OwnPools (.new ext hash block acmeStore isTls) :=
  fun _ _ hc _ _ _ _ hsel => mem_poolsOf_of_selectUpstream (location_of_findLocation hc) hsel

/-- A server of one of the block's pools, at an address that the block allows, has answered with
`up` the last of the requests that were sent. -/
def Answered (ext : External) (svc : HandlerService) (client : IpAddr) (net : Nat → Attempt)
    (sent : List UpstreamRequest) (up : UpstreamResponse) : Prop :=
  ∃ (u : UpstreamRef) (idx : Nat) (server : UpstreamServer) (req : Request) (m : UpstreamRequest),
    u ∈ poolsOf svc.httpBlock ∧ u.servers[idx]? = some server ∧
      isUpstreamAllowed ext server.address svc.httpBlock.upstreamAllowedNetworks = .ok () ∧
      (net idx).outcome = .response up ∧ sent.getLast? = some m ∧
      svc.proxy.buildRequest ext server.address req client svc.scheme = .ok m

/-- An outcome holds what was answered last, received, or one of the three statuses. -/
def Exchanged (ext : External) (svc : HandlerService) (client : IpAddr) (net : Nat → Attempt)
    (o : Outcome) : Prop :=
  (∃ up resp, Answered ext svc client net o.sent up ∧ svc.proxy.receive up = .ok resp ∧
    o.result = .ok resp) ∨ ∃ s ∈ gatewayErrors, o.result = .error (.status s)

/-- **What a sweep ends with.** -/
theorem failover_exchanged {u : UpstreamRef} (hu : u ∈ poolsOf svc.httpBlock)
    {net : Nat → Attempt} {order : List Nat} {last : StatusCode} (hlast : last ∈ gatewayErrors)
    (st : ServiceState) :
    Exchanged ext svc client net (svc.failover ext u req client net order last st) := by
  induction order generalizing last st with
  | nil => exact .inr ⟨last, hlast, rfl⟩
  | cons idx rest ih =>
    simp only [failover]
    split
    · exact ih hlast st
    next server hserver =>
    split
    · exact ih (by decide) st
    next hallowed =>
    split
    · next resp hresp =>
      obtain ⟨up, m, hup, hreceive, hbuild, hsent⟩ := forward_ok hresp
      have hlast := congrArg List.getLast? hsent
      exact .inl ⟨up, resp, ⟨u, idx, server, req, m, hu, hserver, hallowed, hup, hlast, hbuild⟩,
        hreceive, rfl⟩
    · -- a server that was not reached has answered nothing
      refine (ih (by decide) _).imp_left ?_
      rintro ⟨up, resp, ⟨u, idx, server, req, m, hu, hserver, hallowed, hup, hlast, hbuild⟩, hrest⟩
      refine ⟨up, resp, ⟨u, idx, server, req, m, hu, hserver, hallowed, hup, ?_, hbuild⟩, hrest⟩
      rw [List.getLast?_append, hlast]
      rfl
    · next s hs => exact .inr ⟨s, forward_status hs, rfl⟩

theorem dispatchProxy_exchanged {handler : Handler} {net : Nat → Attempt} {st : ServiceState}
    (hown : ∀ u sessions, selectUpstream svc.hash svc.httpBlock handler client st.sessions =
      (.ok u, sessions) → u ∈ poolsOf svc.httpBlock)
    (h : (svc.dispatchProxy ext handler req client net st).sent ≠ []) :
    Exchanged ext svc client net (svc.dispatchProxy ext handler req client net st) := by
  unfold dispatchProxy at h ⊢
  split at h
  · exact absurd rfl h
  · next u sessions hsel => exact failover_exchanged (hown u sessions hsel) (by decide) _

theorem route_exchanged (hown : OwnPools svc) {path : Text} {world : World} {st : ServiceState}
    (h : (svc.route ext path req client world st).sent ≠ []) :
    Exchanged ext svc client world.net (svc.route ext path req client world st) := by
  unfold route at h ⊢
  split at h
  · next c hc =>
    have hselects := fun u => hown path c hc client st.sessions u
    unfold dispatch at h ⊢
    split at h
    · split at h <;> exact absurd rfl h
    · exact dispatchProxy_exchanged hselects h
    · exact dispatchProxy_exchanged hselects h
    · exact absurd rfl h
    · split at h <;> exact absurd rfl h
    · exact absurd rfl h
    · exact absurd rfl h
  · split at h <;> exact absurd rfl h

theorem process_exchanged (hown : OwnPools svc) {world : World} {st : ServiceState}
    (h : (svc.process ext req client world st).sent ≠ []) :
    Exchanged ext svc client world.net (svc.process ext req client world st) := by
  unfold process at h ⊢
  split at h
  · exact absurd rfl h
  · exact absurd rfl h
  · exact route_exchanged hown h

/-! ## Every run -/

def Call.peer : Call → IpAddr
  | .http _ client _ => client
  | .h3 _ client _ => client

def Call.world : Call → World
  | .http _ _ world => world
  | .h3 _ _ world => world

/-- What a client is answered whose request has been sent upstream. -/
def Relayed (ext : External) (svc : HandlerService) (c : Call) (h : Handled) : Prop :=
  ∃ resp, h.response = some resp ∧
    ((∃ up, Answered ext svc c.peer c.world.net h.sent up ∧ Relays svc up resp) ∨
      ∃ s ∈ gatewayErrors, resp = svc.finalize (errorResponse ext s))

/-- What is made of an exchange is relayed or a gateway error. -/
theorem relayed_of_exchanged {c : Call} {h : Handled} {o : Outcome}
    (he : Exchanged ext svc c.peer c.world.net o) (hresp : h.response = svc.respond ext o)
    (hsent : h.sent = o.sent) : Relayed ext svc c h := by
  rw [Relayed, hresp, hsent]
  rcases he with ⟨up, resp, hanswered, hreceive, hres⟩ | ⟨s, hs, hres⟩
  · exact ⟨svc.finalize resp, by rw [respond, hres],
      .inl ⟨up, hanswered, relays_finalize hreceive⟩⟩
  · exact ⟨_, by rw [respond, hres]; rfl, .inr ⟨s, hs, rfl⟩⟩

theorem step_relayed (hown : OwnPools svc) {st : ServiceState} {c : Call}
    (h : ((serviceMachine ext svc).step st c).2.sent ≠ []) :
    Relayed ext svc c ((serviceMachine ext svc).step st c).2 := by
  cases c with
  | http req client world =>
    simp only [serviceMachine, handle] at h ⊢
    split at h
    · exact absurd rfl h
    split at h
    · exact absurd rfl h
    next hconnect =>
    rw [if_neg hconnect]
    split at h
    · exact absurd rfl h
    split at h
    · exact absurd rfl h
    · exact relayed_of_exchanged (process_exchanged hown h) rfl rfl
  | h3 req client world =>
    simp only [serviceMachine, handleH3] at h ⊢
    split at h
    · exact absurd rfl h
    · exact relayed_of_exchanged (process_exchanged hown h) rfl rfl

/-- **Nothing of the upstreams gets through but what is relayed.** In every run of the service of a
block, a client whose request has been sent upstream is answered with the response of the allowed
server of the block that it was sent to last, as far as `Relays` says, or with the block's own page
for 403, 502 or 504. -/
theorem responses_relayed (ext : External) (hash : Hashers) (block : HttpBlock)
    (acmeStore : Option (Text → Option Text)) (isTls : Bool) (st : ServiceState)
    (is : List Call) :
    let svc := HandlerService.new ext hash block acmeStore isTls
    ∀ e ∈ is.zip ((serviceMachine ext svc).outputs st is), e.2.sent ≠ [] →
      Relayed ext svc e.1 e.2 := by
  intro svc
  have hown : OwnPools svc := ownPools_new hash block acmeStore isTls
  exact Machine.forall_mem_zip_outputs (Q := fun c h => h.sent ≠ [] → Relayed ext svc c h)
    (fun _ _ => step_relayed hown) st is

namespace Sample

/-- A world whose upstreams answer with two bytes and close the connection. -/
def answering : World where
  __ := World.refusing
  net _ := ⟨⟨0, none, 0⟩, true, [], .response ⟨.ok, insertStr [] .connection "close".toList,
    some [111, 107]⟩⟩

/-- A call for `/` that is proxied. -/
def answeredCall : Call := .h3 (.get []) (.v4 ⟨203, 0, 113, 9⟩) answering

end Sample

open Sample

theorem responses_relayed_answer : ∃ h,
    (serviceMachine geoExternal geoService).outputs (.init geoBlock) [answeredCall] = [h] ∧
      Relayed geoExternal geoService answeredCall h := by
  have hone : ((serviceMachine geoExternal geoService).step (.init geoBlock)
      answeredCall).2.sent.length = 1 := by decide +kernel
  refine ⟨_, rfl, responses_relayed geoExternal (.const 0) geoBlock none false (.init geoBlock)
    [answeredCall] (answeredCall, _) List.mem_cons_self ?_⟩
  exact List.ne_nil_of_length_eq_add_one hone

end Flexd
