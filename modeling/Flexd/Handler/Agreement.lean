import Flexd.Handler.Entry

/-!
# Agreement of the entry points

A request whose URI carries an authority can arrive at `handle` or at
`handleH3`. The second reconciles `Host` with the authority, the first does
not: `entryPointsAgree_iff` says that the two give the same answers to exactly
the requests whose `Host` is the authority already.
-/

namespace Flexd

open Lib HandlerService

/-- A collected request, with its body still to be read. -/
def Request.incoming (req : Request) : Incoming :=
  ⟨req.method, req.uri, req.version, req.headers, ⟨req.body, false⟩⟩

/-- The host that `handle` applies the host policy to. -/
def policyHost (req : Request) : Option Text := HeaderMap.getStr req.headers .host

/-- The host that `handleH3` applies the host policy to. -/
def policyHostH3 (req : Request) : Option Text :=
  (reconcileHost req.uri req.headers).bind (HeaderMap.getStr · .host)

def IsBadRequest (resp : Option Response) : Prop := resp.map (·.status) = some .badRequest

/-- Every service gives the same response at both entry points; without `Host` both apply the
policy to the authority, and a `Host` other than the authority is a bad request at both. -/
def EntryPointsAgree (ext : External) (req : Request) (authority : Authority) : Prop :=
  ∀ hash block acmeStore isTls client world st,
    req.body.length ≤ (HandlerService.new ext hash block acmeStore isTls).maxBody →
    ((HandlerService.new ext hash block acmeStore isTls).handle ext req.incoming client world
        st).response =
      ((HandlerService.new ext hash block acmeStore isTls).handleH3 ext req client world
        st).response ∧
    (req.headers.get .host = none →
      policyHost req = some authority.text ∧ policyHostH3 req = some authority.text) ∧
    (∀ v, req.headers.get .host = some v → v.bytes ≠ utf8 authority.text →
      IsBadRequest ((HandlerService.new ext hash block acmeStore isTls).handle ext req.incoming
        client world st).response ∧
      IsBadRequest ((HandlerService.new ext hash block acmeStore isTls).handleH3 ext req client
        world st).response)

/-- The first `Host` is the authority. -/
def HostIs (headers : HeaderMap) (authority : Authority) : Prop :=
  ∃ v, headers.get .host = some v ∧ v.bytes = utf8 authority.text

variable {ext : External} {svc : HandlerService} {req : Request} {client : IpAddr} {world : World}
  {st : ServiceState} {authority : Authority}

theorem Authority.visible (authority : Authority) :
    ∀ c ∈ authority.text, 32 ≤ c.toNat ∧ c.toNat ≤ 126 := by
  intro c hc
  have := List.all_eq_true.mp authority.valid c hc
  simp only [isAuthorityChar, Bool.and_eq_true, decide_eq_true_eq] at this
  omega

theorem reconcileHost_of_hostIs (ha : req.uri.authority = some authority)
    (h : HostIs req.headers authority) : reconcileHost req.uri req.headers = some req.headers := by
  obtain ⟨v, hv, hb⟩ := h
  simp [reconcileHost, ha, hv, HeaderValue.toStr_ascii authority.visible hb]

/-- The status of the pipeline's response. -/
def collectedStatus (ext : External) (svc : HandlerService) (req : Request) (client : IpAddr)
    (world : World) (st : ServiceState) : Option StatusCode :=
  (svc.handleCollected ext req client world st).1.map (·.status)

/-- Outside CONNECT and ACME, `handle` answers a body under the cap as the pipeline does: the
checks it makes before reading the body are the pipeline's first. -/
theorem handle_response (hm : req.method ≠ .connect)
    (hacme : acmePath.isPrefixOf req.uri.path = false)
    (hbody : req.body.length ≤ svc.maxBody) :
    (svc.handle ext req.incoming client world st).response =
      (svc.handleCollected ext req client world st).1 := by
  have hnone : svc.acmeChallengeResponse ext req.uri.path = none := by
    unfold acmeChallengeResponse
    split
    · rfl
    · rw [hacme]; rfl
  have hcollect : svc.collect ⟨req.body, false⟩ = .ok req.body := by
    simp [collect, Nat.not_lt.mpr hbody]
  unfold handle
  simp only [Request.incoming, hnone, hm, if_false]
  cases hs : svc.securityChecks ext req.headers req.version req.uri.path with
  | error r => simp only [handleCollected, respond, process, admission, hs, bind, Except.bind]
  | ok _ => simp only [hcollect]

theorem handleH3_response {headers : HeaderMap}
    (hr : reconcileHost req.uri req.headers = some headers) :
    (svc.handleH3 ext req client world st).response =
      (svc.handleCollected ext { req with headers } client world st).1 := by
  simp only [handleH3, hr]

/-! ## A `Host` that is not the authority -/

/-- The status of a refused request. -/
theorem collectedStatus_error {r : Refusal} (h : svc.admission ext req client = .error r) :
    collectedStatus ext svc req client world st = r.code := by
  unfold collectedStatus handleCollected process
  simp only [h, respond]
  cases r.code with
  | none => rfl
  | some s => simp [finalize_status, errorResponse]

/-- Too many headers are refused before anything else. -/
theorem collectedStatus_tooManyHeaders (h : svc.tooManyHeaders req.headers = true) :
    collectedStatus ext svc req client world st = some .requestHeaderFieldsTooLarge := by
  refine collectedStatus_error (r := .status .requestHeaderFieldsTooLarge) ?_
  simp [admission, securityChecks, h, bind, Except.bind]

/-- A service that has nothing to serve. -/
def Idle (svc : HandlerService) : Prop :=
  svc.rewriter = [] ∧ svc.locations = [] ∧ svc.httpBlock.root = none

/-- Within the header limits, no check refuses with 431. -/
theorem securityChecks_within {version : Version} {path : Text} {headers : HeaderMap} {r : Refusal}
    (hc : svc.tooManyHeaders headers = false) (hs : svc.headersTooLarge headers = false)
    (h : svc.securityChecks ext headers version path = .error r) :
    r.code ≠ some .requestHeaderFieldsTooLarge := by
  unfold securityChecks at h
  simp only [hc, hs, Bool.false_eq_true, if_false] at h
  split at h
  · cases h; decide
  split at h
  · cases h; decide
  split at h
  · cases h; decide
  split at h
  · cases h; decide
  split at h
  · cases h
  · cases h; decide
  · cases h; decide

/-- A service with nothing to serve answers 431 only for its header limits. -/
theorem collectedStatus_idle (hi : Idle svc) (hc : svc.tooManyHeaders req.headers = false)
    (hs : svc.headersTooLarge req.headers = false) :
    collectedStatus ext svc req client world st ≠ some .requestHeaderFieldsTooLarge := by
  have hrewrite : ∀ req, svc.applyRewrites ext req = .ok (.routed req.uri.path req) := by
    intro req
    simp [applyRewrites, hi.1, RewriteEngine.apply]
  cases ha : svc.admission ext req client with
  | ok admitted =>
    have hrouted : ∃ path req', admitted = .routed path req' := by
      simp only [admission, bind_ok, hrewrite] at ha
      obtain ⟨-, -, -, -, req₁, -, -, -, -, -, admitted', hr, he⟩ := ha
      cases hr
      cases he
      exact ⟨_, _, rfl⟩
    obtain ⟨path, req', rfl⟩ := hrouted
    have hroute : (svc.process ext req client world st).result = .error (.status .notFound) := by
      simp [process, ha, route, hi.2.1, hi.2.2, findLocation, findLocationFrom]
    simp [collectedStatus, handleCollected, respond, hroute, Refusal.code, finalize_status,
      errorResponse, StatusCode.notFound, StatusCode.requestHeaderFieldsTooLarge]
  | error r =>
    rw [collectedStatus_error ha]
    simp only [admission, bind_error, hrewrite] at ha
    rcases ha with ha | ⟨-, -, ha | ⟨-, -, ha | ⟨req₁, -, ha | ⟨-, -, ha | ⟨-, -, ha | ha⟩⟩⟩⟩⟩
    · exact securityChecks_within hc hs ha
    · rw [require_error ha]
      decide
    · obtain ⟨s, hd, rfl⟩ := orRefuse_error ha
      rw [maybeDecompress_error hd]
      decide
    · rw [require_error ha]
      decide
    · rw [require_error ha]
      decide
    · cases ha
    · obtain ⟨admitted, -, he⟩ := ha
      cases he

/-! ## The theorem -/

/-- A header that is absent is added to the end. -/
theorem length_insert_of_absent {headers : HeaderMap} {n : HeaderName} {v : HeaderValue}
    (h : headers.get n = none) : (headers.insert n v).length = headers.length + 1 := by
  have hall : ∀ e ∈ headers, e.1 ≠ n := by
    intro e he hn
    have hmem : e.2 ∈ headers.getAll n := List.mem_filterMap.mpr ⟨e, he, by simp [hn]⟩
    rw [List.head?_eq_none_iff.mp h] at hmem
    cases hmem
  have hremove : headers.remove n = headers :=
    List.filter_eq_self.mpr fun e he => by simpa using hall e he
  rw [MultiMap.insert, hremove]
  simp

/-- A block that serves nothing and admits just the given headers and body. -/
def tightBlock (maxHeaders : Nat) (req : Request) : HttpBlock where
  listen := []
  maxHeaderCount := some maxHeaders
  maxHeaderSize := some (headerSize req.headers)
  maxBodySize := some req.body.length

def tightService (ext : External) (maxHeaders : Nat) (req : Request) : HandlerService :=
  .new ext (.const 0) (tightBlock maxHeaders req) none false

/-- A block that serves nothing and takes any host. -/
def openBlock (req : Request) : HttpBlock where
  __ := tightBlock req.headers.length req
  hostHeaderPolicy := .any
  rejectAmbiguousFraming := false
  rejectHeadersWithControlChars := false

/-- **Without `Host`, some service answers differently**: one whose header limit the added `Host`
exceeds. -/
theorem responses_differ_of_absent (ha : req.uri.authority = some authority)
    (hm : req.method ≠ .connect) (hacme : acmePath.isPrefixOf req.uri.path = false)
    (hhost : req.headers.get .host = none) :
    ((tightService ext req.headers.length req).handle ext req.incoming client world st).response ≠
      ((tightService ext req.headers.length req).handleH3 ext req client world st).response := by
  obtain ⟨v, hv, -⟩ := HeaderValue.fromStr_ascii authority.visible
  have hrec : reconcileHost req.uri req.headers = some (req.headers.insert .host v) := by
    simp [reconcileHost, ha, hhost, insertStr, hv]
  rw [handle_response hm hacme (Nat.le_refl _), handleH3_response hrec]
  intro he
  have hidle : Idle (tightService ext req.headers.length req) := ⟨rfl, rfl, rfl⟩
  apply collectedStatus_idle hidle (decide_eq_false (Nat.lt_irrefl _))
    (decide_eq_false (Nat.lt_irrefl _))
  unfold collectedStatus
  rw [he]
  refine collectedStatus_tooManyHeaders (decide_eq_true ?_)
  show req.headers.length < (req.headers.insert .host v).length
  rw [length_insert_of_absent hhost]
  omega

/-- **The entry points agree on a request exactly when its `Host` is its authority.** -/
theorem entryPointsAgree_iff (ha : req.uri.authority = some authority)
    (hm : req.method ≠ .connect) (hacme : acmePath.isPrefixOf req.uri.path = false) :
    EntryPointsAgree ext req authority ↔ HostIs req.headers authority := by
  constructor
  · intro hall
    cases hhost : req.headers.get .host with
    | none =>
      exact absurd (hall (.const 0) (tightBlock req.headers.length req) none false
        (.v4 ⟨192, 0, 2, 1⟩) .refusing (.init (tightBlock req.headers.length req))
        (Nat.le_refl _)).1 (responses_differ_of_absent ha hm hacme hhost)
    | some v =>
      refine ⟨v, hhost, ?_⟩
      by_contra hne
      have hbad : ∀ block : HttpBlock,
          req.body.length ≤ (HandlerService.new ext (.const 0) block none false).maxBody →
          collectedStatus ext (.new ext (.const 0) block none false) req (.v4 ⟨192, 0, 2, 1⟩)
            .refusing (.init block) = some .badRequest := by
        intro block hbody
        have h400 := ((hall (.const 0) block none false (.v4 ⟨192, 0, 2, 1⟩) .refusing
          (.init block) hbody).2.2 v hhost hne).1
        rwa [handle_response hm hacme hbody] at h400
      by_cases hopen : collectedStatus ext (.new ext (.const 0) (openBlock req) none false) req
          (.v4 ⟨192, 0, 2, 1⟩) .refusing (.init (openBlock req)) = some .badRequest
      · -- its path or its framing is bad for every block, but a header limit is asked before these
        have hpos : 0 < req.headers.length := by
          cases hh : req.headers with
          | nil => rw [hh] at hhost; cases hhost
          | cons e rest => exact Nat.succ_pos _
        have h431 : collectedStatus ext (tightService ext 0 req) req (.v4 ⟨192, 0, 2, 1⟩) .refusing
            (.init (tightBlock 0 req)) = some .requestHeaderFieldsTooLarge :=
          collectedStatus_tooManyHeaders (decide_eq_true hpos)
        have := (hbad (tightBlock 0 req) (Nat.le_refl _)).symm.trans h431
        revert this
        decide
      · -- `handle` does not compare the two: a block that takes any host calls nothing bad here
        exact hopen (hbad (openBlock req) (Nat.le_refl _))
  · intro hhost hash block acmeStore isTls client world st hbody
    obtain ⟨v, hv, hb⟩ := hhost
    refine ⟨?_, fun hnone => ?_, fun v' hv' hne => ?_⟩
    · rw [handle_response hm hacme hbody,
        handleH3_response (reconcileHost_of_hostIs ha ⟨v, hv, hb⟩)]
    · rw [hv] at hnone
      cases hnone
    · rw [hv] at hv'
      cases hv'
      exact absurd hb hne

namespace Sample

def exampleAuthority : Authority := ⟨"example.com".toList, by decide, by decide⟩

/-- `GET https://example.com/` over HTTP/2, with the given headers. -/
def getExample (headers : HeaderMap) : Request :=
  { Request.get headers with
    uri := ⟨some "https".toList, some exampleAuthority, some .slash⟩
    version := .http2 }

def hostExample : HeaderMap := [(.host, ⟨utf8 "example.com".toList, by decide⟩)]

/-- A block that serves `example.com` and nothing else. -/
def exampleBlock : HttpBlock where
  listen := [{ port := 443, protocol := .tls }]
  serverName := ["example.com".toList]
  locations := [{ pattern := ['/'], handler := { handlerType := .return } }]

end Sample

open Sample

theorem entryPointsAgree_iff_example :
    (getExample hostExample).uri.authority = some exampleAuthority ∧
    (EntryPointsAgree .sample (getExample hostExample) exampleAuthority ↔
      HostIs (getExample hostExample).headers exampleAuthority) := by
  have ha : (getExample hostExample).uri.authority = some exampleAuthority := rfl
  exact ⟨ha, entryPointsAgree_iff ha (by decide) (by decide)⟩

/-- Without `Host`, a request for the block's own name is refused by one entry point and served by
the other. -/
theorem entryPoints_disagree_without_host :
    ¬ ∀ (req : Request) (authority : Authority), req.uri.authority = some authority →
      req.method ≠ .connect → acmePath.isPrefixOf req.uri.path = false →
      EntryPointsAgree .sample req authority := by
  intro h
  have := (h (getExample []) exampleAuthority rfl (by decide) (by decide) (.const 0) exampleBlock
    none true (.v4 ⟨192, 0, 2, 1⟩) .refusing (.init exampleBlock) (Nat.zero_le _)).1
  revert this
  decide

end Flexd
