import Flexd.Handler.Entry

/-!
# Responses and the access log

A request is served by `handle` on a TCP connection, and on a QUIC connection
by the task of its stream, which collects the body before it calls
`handleH3`. A response should leave with one log entry of its status, and
from a TLS listener with HSTS. `accounted_iff` names the two return paths that
skip a step: the ACME answer and the overflow of an HTTP/3 body.
-/

namespace Flexd

open Lib HandlerService

/-! ## The task of an HTTP/3 stream -/

/-- What `recv_data` yields of a body: its contiguous pieces in order, and whether an error ends
them. -/
structure RecvStream where
  segments : List Bytes
  failed : Bool

/-- A body collected from a stream. -/
inductive CollectedH3 where
  | body (bytes : Bytes)
  | overflow
  | failed
  deriving DecidableEq

/-- The receive loop; the cap is checked after each piece. -/
def collectH3 (maxBody : Nat) (failed : Bool) : Bytes → List Bytes → CollectedH3
  | body, [] => if failed then .failed else .body body
  | body, segment :: rest =>
    if maxBody < (body ++ segment).length then .overflow
    else collectH3 maxBody failed (body ++ segment) rest

/-- The answer to a body that overflows, built in the task itself. -/
def overflowResponse : Response := ⟨.payloadTooLarge, [], utf8 "413 Payload Too Large\n".toList⟩

/-- One request stream of `serve_http3`. -/
def serveHttp3 (ext : External) (svc : HandlerService) (req : Request) (stream : RecvStream)
    (client : IpAddr) (world : World) (st : ServiceState) : Handled :=
  match collectH3 (svc.httpBlock.maxBodySize.getD (10 * 1024 * 1024)) stream.failed []
      stream.segments with
  | .overflow => { response := some overflowResponse, state := st, logs := [] }
  | .failed => { response := none, state := st, logs := [] }
  | .body body => svc.handleH3 ext { req with body } client world st

/-- A request on its connection: plain or TLS over TCP, with the challenge store of the block, or
QUIC, which has none. -/
inductive Arrival where
  | tcp (isTls : Bool) (acmeStore : Option (Text → Option Text)) (req : Incoming)
  | quic (req : Request) (stream : RecvStream)

namespace Arrival

/-- Whether the listener is TLS or QUIC. -/
def secure : Arrival → Bool
  | .tcp isTls _ _ => isTls
  | .quic _ _ => true

/-- `serve_http1`, `serve_http2` and `serve_http3` on one request. -/
def serve (ext : External) (hash : Hashers) (block : HttpBlock) (client : IpAddr) (world : World)
    (st : ServiceState) : Arrival → Handled
  | .tcp isTls acmeStore req =>
    (HandlerService.new ext hash block acmeStore isTls).handle ext req client world st
  | .quic req stream =>
    serveHttp3 ext (.new ext hash block none true) req stream client world st

/-- Neither a challenge to a TLS listener that answers challenges and has HSTS, nor a body over the
cap of its stream. -/
def Ordinary (block : HttpBlock) : Arrival → Prop
  | .tcp isTls acmeStore req =>
    ¬ (acmeStore.isSome = true ∧ acmePath.isPrefixOf req.uri.path = true ∧ isTls = true ∧
      block.hstsMaxAge.isSome = true)
  | .quic _ stream =>
    stream.segments.flatten.length ≤ block.maxBodySize.getD (10 * 1024 * 1024)

end Arrival

/-! ## Accounted responses -/

/-- There is one log entry, of the status that is sent. -/
def LoggedOnce (h : Handled) (resp : Response) : Prop := ∃ e, h.logs = [e] ∧ e.status = resp.status

/-- A response that is sent is logged once, and satisfies `Q`. -/
def Sends (Q : Response → Prop) (h : Handled) : Prop :=
  ∀ resp, h.response = some resp → LoggedOnce h resp ∧ Q resp

/-- A response that is sent is logged once, and carries HSTS where it is configured. -/
def Accounted (block : HttpBlock) (secure : Bool) : Handled → Prop :=
  Sends fun resp => secure = true → block.hstsMaxAge.isSome = true →
    resp.headers.containsKey .strictTransportSecurity = true

/-- A response that has been through `finalize`. -/
def HandlerService.Finalized (svc : HandlerService) (resp : Response) : Prop :=
  ∃ r, resp = svc.finalize r

variable {ext : External} {hash : Hashers} {block : HttpBlock} {svc : HandlerService}
  {client : IpAddr} {world : World} {st : ServiceState}

/-! ## HSTS -/

theorem ascii_of_mem_decimal {n : Nat} {c : Char} (h : c ∈ decimal n) :
    32 ≤ c.toNat ∧ c.toNat ≤ 126 := by
  have hd : c.isDigit = true := Nat.isDigit_of_mem_toDigits (b := 10) (by decide) (by decide) h
  rw [Char.isDigit, Bool.and_eq_true, decide_eq_true_eq, decide_eq_true_eq] at hd
  have h48 : 48 ≤ c.toNat := hd.1
  have h57 : c.toNat ≤ 57 := hd.2
  omega

theorem hsts_value (secs : Nat) :
    ∃ v, HeaderValue.fromStr
      ("max-age=".toList ++ decimal secs ++ "; includeSubDomains".toList) = some v := by
  have hall : ("max-age=".toList ++ "; includeSubDomains".toList).all
      (fun c => 32 ≤ c.toNat ∧ c.toNat ≤ 126) = true := by decide
  have hlit : ∀ c ∈ "max-age=".toList ++ "; includeSubDomains".toList,
      32 ≤ c.toNat ∧ c.toNat ≤ 126 :=
    fun c hc => of_decide_eq_true (List.all_eq_true.mp hall c hc)
  have hascii : ∀ c ∈ "max-age=".toList ++ decimal secs ++ "; includeSubDomains".toList,
      32 ≤ c.toNat ∧ c.toNat ≤ 126 := by
    intro c hc
    rw [List.mem_append, List.mem_append] at hc
    rcases hc with (hc | hc) | hc
    · exact hlit c (List.mem_append.mpr (.inl hc))
    · exact ascii_of_mem_decimal hc
    · exact hlit c (List.mem_append.mpr (.inr hc))
  obtain ⟨v, hv, -⟩ := HeaderValue.fromStr_ascii hascii
  exact ⟨v, hv⟩

/-- A secure listener has a value to stamp exactly when one is configured. -/
theorem hsts_new (store : Option (Text → Option Text)) (isTls : Bool) :
    (HandlerService.new ext hash block store isTls).hsts.isSome =
      (isTls && block.hstsMaxAge.isSome) := by
  have hdef : (HandlerService.new ext hash block store isTls).hsts =
      (if isTls then block.hstsMaxAge else none).bind fun secs =>
        HeaderValue.fromStr
          ("max-age=".toList ++ decimal secs ++ "; includeSubDomains".toList) := rfl
  rw [hdef]
  cases isTls with
  | false => rfl
  | true =>
    cases block.hstsMaxAge with
    | none => rfl
    | some secs =>
      obtain ⟨v, hv⟩ := hsts_value secs
      rw [if_pos rfl, Option.bind_some, hv]
      rfl

theorem hsts_of_finalized {resp : Response} (h : svc.Finalized resp) (hs : svc.hsts.isSome = true) :
    resp.headers.containsKey .strictTransportSecurity = true := by
  obtain ⟨r, rfl⟩ := h
  obtain ⟨v, hv⟩ := Option.isSome_iff_exists.mp hs
  unfold HandlerService.finalize
  rw [hv, MultiMap.containsKey_iff]
  simp only [MultiMap.getAll_insertIfAbsent_self]
  split
  · simp
  · assumption

/-! ## The return paths -/

theorem respond_finalized {o : Outcome} {resp : Response} (h : svc.respond ext o = some resp) :
    svc.Finalized resp := by
  unfold respond at h
  split at h
  · cases h; exact ⟨_, rfl⟩
  · obtain ⟨s, -, rfl⟩ := Option.map_eq_some_iff.mp h
    exact ⟨_, rfl⟩

/-- Every answer to CONNECT is a simple response. -/
theorem handleConnect_finalized (uri : Uri) :
    svc.Finalized (svc.handleConnect ext uri world st).1 := by
  unfold handleConnect
  split
  · exact ⟨_, rfl⟩
  split
  · exact ⟨_, rfl⟩
  split
  · exact ⟨_, rfl⟩
  split
  · exact ⟨_, rfl⟩
  split
  · exact ⟨_, rfl⟩
  · simp only
    split
    · exact ⟨_, rfl⟩
    · exact ⟨_, rfl⟩

/-- The answer to a challenge is there exactly for the challenge paths, and it has no HSTS. -/
theorem acmeChallengeResponse_isSome (path : Text) :
    (svc.acmeChallengeResponse ext path).isSome =
      (svc.acmeStore.isSome && acmePath.isPrefixOf path) := by
  unfold acmeChallengeResponse
  cases svc.acmeStore with
  | none => rfl
  | some store =>
    by_cases hp : acmePath.isPrefixOf path = true
    · simp only [hp, if_true]
      split
      · rfl
      · split <;> rfl
    · simp only [hp]
      rfl

theorem acmeChallengeResponse_plain {path : Text} {resp : Response}
    (h : svc.acmeChallengeResponse ext path = some resp) :
    resp.headers.containsKey .strictTransportSecurity = false := by
  unfold acmeChallengeResponse at h
  split at h
  · cases h
  split at h
  · simp only at h
    split at h
    · cases h; rfl
    split at h
    · cases h; rfl
    · cases h; rfl
  · cases h

section Sends

variable {Q Q' : Response → Prop} {h : Handled}

theorem Sends.imp (hs : Sends Q h) (hQ : ∀ resp, Q resp → Q' resp) : Sends Q' h :=
  fun resp hr => ⟨(hs resp hr).1, hQ resp (hs resp hr).2⟩

/-- A result that logs the response it has. -/
theorem sends_of_option {r : Option Response} {log : Response → LogEntry} {conns sent}
    (hlog : ∀ resp, (log resp).status = resp.status) (hQ : ∀ resp, r = some resp → Q resp) :
    Sends Q ⟨r, st, r.toList.flatMap fun resp => [log resp], conns, sent⟩ := by
  rintro resp ⟨rfl⟩
  exact ⟨⟨_, rfl, hlog resp⟩, hQ resp rfl⟩

theorem sends_of_some {r : Response} {log : Response → LogEntry} {conns sent}
    (hlog : ∀ resp, (log resp).status = resp.status) (hQ : Q r) :
    Sends Q ⟨some r, st, [log r], conns, sent⟩ := by
  rintro resp ⟨rfl⟩
  exact ⟨⟨_, rfl, hlog r⟩, hQ⟩

end Sends

/-- Over TCP, what is no challenge gets a finalized response. -/
theorem handle_sends {req : Incoming} (hacme : svc.acmeChallengeResponse ext req.uri.path = none) :
    Sends svc.Finalized (svc.handle ext req client world st) := by
  unfold handle
  simp only [hacme]
  split
  · exact sends_of_some (fun _ => rfl) (handleConnect_finalized _)
  split
  · refine sends_of_option (fun _ => rfl) fun resp hr => ?_
    obtain ⟨s, -, rfl⟩ := Option.map_eq_some_iff.mp hr
    exact ⟨_, rfl⟩
  split
  · exact sends_of_some (fun _ => rfl) ⟨_, rfl⟩
  · exact sends_of_option (fun _ => rfl) fun resp hr => respond_finalized hr

/-- A challenge gets its answer as it is. -/
theorem handle_challenge {req : Incoming} {resp : Response} (client : IpAddr) (world : World)
    (st : ServiceState)
    (hacme : svc.acmeChallengeResponse ext req.uri.path = some resp) :
    (svc.handle ext req client world st).response = some resp ∧
      Sends (· = resp) (svc.handle ext req client world st) := by
  unfold handle
  simp only [hacme]
  exact ⟨trivial, sends_of_some (fun _ => rfl) rfl⟩

theorem handleH3_sends (req : Request) :
    Sends svc.Finalized (svc.handleH3 ext req client world st) := by
  unfold handleH3
  split
  · exact sends_of_some (fun _ => rfl) ⟨_, rfl⟩
  · exact sends_of_option (fun _ => rfl) fun resp hr => respond_finalized hr

/-- The receive loop overflows exactly on more bytes than the cap. -/
theorem collectH3_eq {maxBody : Nat} (failed : Bool) {body : Bytes} (hb : body.length ≤ maxBody)
    (segments : List Bytes) :
    collectH3 maxBody failed body segments =
      if maxBody < (body ++ segments.flatten).length then .overflow
      else if failed then .failed else .body (body ++ segments.flatten) := by
  induction segments generalizing body with
  | nil =>
    rw [List.flatten_nil, List.append_nil, if_neg (Nat.not_lt.mpr hb)]
    rfl
  | cons segment rest ih =>
    rw [collectH3, List.flatten_cons, ← List.append_assoc]
    by_cases hover : maxBody < (body ++ segment).length
    · rw [if_pos hover, if_pos]
      rw [List.length_append]
      omega
    · rw [if_neg hover, ih (Nat.le_of_not_lt hover)]

/-! ## Accounting -/

/-- A finalized response carries HSTS where it should. -/
theorem hsts_accounted {store : Option (Text → Option Text)} {isTls : Bool} {resp : Response}
    (h : (HandlerService.new ext hash block store isTls).Finalized resp) :
    isTls = true → block.hstsMaxAge.isSome = true →
      resp.headers.containsKey .strictTransportSecurity = true := by
  intro htls hmax
  refine hsts_of_finalized h ?_
  rw [hsts_new, htls, hmax]
  rfl

theorem accounted_tcp (isTls : Bool) (store : Option (Text → Option Text)) (req : Incoming) :
    Accounted block isTls
        ((HandlerService.new ext hash block store isTls).handle ext req client world st) ↔
      ¬ (store.isSome = true ∧ acmePath.isPrefixOf req.uri.path = true ∧ isTls = true ∧
        block.hstsMaxAge.isSome = true) := by
  have hsome : ((HandlerService.new ext hash block store isTls).acmeChallengeResponse ext
      req.uri.path).isSome = (store.isSome && acmePath.isPrefixOf req.uri.path) :=
    acmeChallengeResponse_isSome req.uri.path
  cases hacme : (HandlerService.new ext hash block store isTls).acmeChallengeResponse ext
      req.uri.path with
  | none =>
    rw [hacme] at hsome
    refine iff_of_true ((handle_sends hacme).imp fun resp => hsts_accounted) ?_
    rintro ⟨hstore, hpath, -⟩
    rw [hstore, hpath] at hsome
    cases hsome
  | some resp =>
    rw [hacme, Option.isSome_some, eq_comm, Bool.and_eq_true] at hsome
    obtain ⟨hresp, hsends⟩ := handle_challenge client world st hacme
    have hplain := acmeChallengeResponse_plain hacme
    constructor
    · rintro haccount ⟨-, -, htls, hmax⟩
      have hkey := (haccount resp hresp).2 htls hmax
      rw [hplain] at hkey
      cases hkey
    · intro hnot
      refine hsends.imp ?_
      rintro _ rfl htls hmax
      exact absurd ⟨hsome.1, hsome.2, htls, hmax⟩ hnot

theorem accounted_quic (req : Request) (stream : RecvStream) :
    Accounted block true
        (serveHttp3 ext (.new ext hash block none true) req stream client world st) ↔
      stream.segments.flatten.length ≤ block.maxBodySize.getD (10 * 1024 * 1024) := by
  have hcap : (HandlerService.new ext hash block none true).httpBlock = block := rfl
  unfold serveHttp3
  rw [hcap, collectH3_eq stream.failed (Nat.zero_le _), List.nil_append]
  by_cases hover : block.maxBodySize.getD (10 * 1024 * 1024) < stream.segments.flatten.length
  · -- the bare 413 leaves no log entry
    rw [if_pos hover]
    refine iff_of_false (fun haccount => ?_) (Nat.not_le.mpr hover)
    obtain ⟨e, he, -⟩ := (haccount overflowResponse rfl).1
    cases he
  · rw [if_neg hover]
    refine iff_of_true ?_ (Nat.not_lt.mp hover)
    by_cases hfail : stream.failed = true
    · rw [if_pos hfail]
      rintro resp ⟨⟩
    · rw [if_neg hfail]
      exact (handleH3_sends _).imp fun resp => hsts_accounted

/-- **Accounting** holds of every request, whatever the state and the world, but for a challenge
that a TLS listener answers without its HSTS, and for an HTTP/3 body that overflows. -/
theorem accounted_iff (ext : External) (hash : Hashers) (block : HttpBlock) (client : IpAddr)
    (world : World) (st : ServiceState) (a : Arrival) :
    Accounted block a.secure (a.serve ext hash block client world st) ↔ a.Ordinary block := by
  cases a with
  | tcp isTls store req => exact accounted_tcp isTls store req
  | quic req stream => exact accounted_quic req stream

namespace Sample

/-- Bodies of at most one byte. -/
def smallBlock : HttpBlock where
  listen := [{ port := 443 }]
  maxBodySize := some 1

/-- A body of two. -/
def largeArrival : Arrival := .quic (.get []) ⟨[[0, 0]], false⟩

end Sample

/-- A body that overflows is answered behind the back of the access log. -/
theorem overflow_not_logged :
    ¬ ∀ (block : HttpBlock) (client : IpAddr) (world : World) (st : ServiceState) (a : Arrival),
      Accounted block a.secure
        (a.serve .sample ⟨fun _ _ => 0, fun _ => 0⟩ block client world st) := by
  intro h
  have hall := h Sample.smallBlock (.v4 ⟨127, 0, 0, 1⟩) .refusing (.init Sample.smallBlock)
    Sample.largeArrival
  exact absurd (accounted_quic _ _ |>.mp hall) (by decide)

end Flexd
