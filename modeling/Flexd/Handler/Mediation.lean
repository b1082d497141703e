import Flexd.Handler.Entry
import Flexd.Handler.GeoIp

/-!
# Refused requests leave no trace

`Admissible` states what a block asks of a request: bounds on its headers and
body, unambiguous framing, a clean path, an accepted host and method. A call
whose request is not admissible is refused before anything is done for it, with
one of four statuses. So in a run of the service the refused calls could as
well not have been made (`refused_leave_no_trace`).
-/

namespace Flexd

open Lib HandlerService

/-- What a block asks of a request. -/
structure Admissible (ext : External) (svc : HandlerService) (req : Request) : Prop where
  headerCount : req.headers.length ≤ svc.httpBlock.maxHeaderCount.getD 100
  headerBytes : headerSize req.headers ≤ svc.httpBlock.maxHeaderSize.getD 8192
  declared : ∀ n, declaredLength req.headers = some n → n ≤ svc.maxBody
  version : req.version = .http10 → req.headers.containsKey .transferEncoding = false
  framing : svc.httpBlock.rejectAmbiguousFraming = true →
    (req.headers.getAll .contentLength).length ≤ 1 ∧
      (req.headers.containsKey .contentLength = true →
        req.headers.containsKey .transferEncoding = false)
  lineBreaks : svc.httpBlock.rejectHeadersWithControlChars = true →
    ∀ e ∈ req.headers, 13 ∉ e.2.bytes ∧ 10 ∉ e.2.bytes
  path : validateUri ext req.uri.path = .ok
  body : req.body.length ≤ svc.maxBody
  host : validateHost ext (HeaderMap.getStr req.headers .host) svc.httpBlock = true
  method : req.method ∈ [.get, .head, .post, .put, .delete, .patch, .options]

/-- The statuses of refused requests. -/
def refusals : List StatusCode :=
  [.badRequest, .methodNotAllowed, .payloadTooLarge, .requestHeaderFieldsTooLarge]

/-- A refusal before anything is done: a status, or the panic of a path that cuts a character. -/
def Refusal.Early (r : Refusal) : Prop := r = .panicked ∨ ∃ s ∈ refusals, r = .status s

variable {ext : External} {svc : HandlerService} {req : Request} {client : IpAddr}

/-! ## Checks -/

theorem securityChecks_ok {headers : HeaderMap} {version : Version} {path : Text}
    (h : svc.securityChecks ext headers version path = .ok ()) :
    svc.tooManyHeaders headers = false ∧ svc.headersTooLarge headers = false ∧
      svc.declaredTooLarge headers = false ∧ badVersionFraming version headers = false ∧
      (svc.httpBlock.rejectAmbiguousFraming && ambiguousFraming headers) = false ∧
      (svc.httpBlock.rejectHeadersWithControlChars && hasLineBreaks headers) = false ∧
      validateUri ext path = .ok := by
  unfold securityChecks at h
  split at h
  · cases h
  next hcount =>
  split at h
  · cases h
  next hsize =>
  split at h
  · cases h
  next hdeclared =>
  split at h
  · cases h
  next hversion =>
  split at h
  · cases h
  next hframing =>
  split at h
  · cases h
  next hbreaks =>
  split at h
  · next hpath =>
    simp only [Bool.not_eq_true] at hcount hsize hdeclared hversion hframing hbreaks
    exact ⟨hcount, hsize, hdeclared, hversion, hframing, hbreaks, hpath⟩
  · cases h
  · cases h

theorem securityChecks_early {headers : HeaderMap} {version : Version} {path : Text} {r : Refusal}
    (h : svc.securityChecks ext headers version path = .error r) : r.Early := by
  have hstatus {s : StatusCode} (hs : s ∈ refusals) : (Refusal.status s).Early := .inr ⟨s, hs, rfl⟩
  unfold securityChecks at h
  split at h
  · cases h; exact hstatus (by decide)
  split at h
  · cases h; exact hstatus (by decide)
  split at h
  · cases h; exact hstatus (by decide)
  split at h
  · cases h; exact hstatus (by decide)
  split at h
  · cases h; exact hstatus (by decide)
  split at h
  · cases h; exact hstatus (by decide)
  split at h
  · cases h
  · cases h; exact hstatus (by decide)
  · cases h; exact .inl rfl

/-- What gets past the checks, the cap, the host policy and the method is admissible. -/
theorem admissible_of_checks (hchecks : svc.securityChecks ext req.headers req.version
      req.uri.path = .ok ()) (hbody : req.body.length ≤ svc.maxBody)
    (hhost : validateHost ext (HeaderMap.getStr req.headers .host) svc.httpBlock = true)
    (hmethod : checkMethodAllowed req.method = true) : Admissible ext svc req := by
  obtain ⟨hcount, hsize, hdeclared, hversion, hframing, hbreaks, hpath⟩ :=
    securityChecks_ok hchecks
  refine ⟨by simpa [tooManyHeaders] using hcount, by simpa [headersTooLarge] using hsize,
    fun n hn => ?_, fun hv => ?_, fun hf => ?_, fun hb e he => ?_, hpath, hbody, hhost, ?_⟩
  · simpa [declaredTooLarge, hn] using hdeclared
  · simpa [badVersionFraming, hv] using hversion
  · simpa [ambiguousFraming, hf, and_comm] using hframing
  · have hbytes : ∀ b ∈ e.2.bytes, ¬ (b = 13 ∨ b = 10) := by
      simp only [hb, Bool.true_and, hasLineBreaks, List.any_eq_false, Bool.not_eq_true] at hbreaks
      intro b hmem
      simpa using hbreaks e he b hmem
    exact ⟨fun hmem => hbytes _ hmem (.inl rfl), fun hmem => hbytes _ hmem (.inr rfl)⟩
  · cases hm : req.method <;> simp_all [checkMethodAllowed]

/-- Decompression leaves the host alone. -/
theorem host_maybeDecompress {req' : Request} (h : svc.maybeDecompress ext req = .ok req') :
    HeaderMap.getStr req'.headers .host = HeaderMap.getStr req.headers .host := by
  have hget : req'.headers.getAll .host = req.headers.getAll .host := by
    rcases (maybeDecompress_ok h).2.2 with hh | hh
    · rw [hh]
    · rw [hh, MultiMap.getAll_remove_ne _ (by decide)]
  rw [HeaderMap.getStr, HeaderMap.getStr, MultiMap.get, MultiMap.get, hget]

/-- **What is not admissible is refused early.** -/
theorem admission_of_not_admissible (h : ¬ Admissible ext svc req) (client : IpAddr) :
    ∃ r : Refusal, r.Early ∧ svc.admission ext req client = .error r := by
  have hstatus {s : StatusCode} (hs : s ∈ refusals) : (Refusal.status s).Early := .inr ⟨s, hs, rfl⟩
  unfold admission
  cases hchecks : svc.securityChecks ext req.headers req.version req.uri.path with
  | error r => exact ⟨r, securityChecks_early hchecks, rfl⟩
  | ok u =>
    by_cases hbody : req.body.length ≤ svc.maxBody
    · cases hd : svc.maybeDecompress ext req with
      | error s =>
        rw [maybeDecompress_error hd]
        refine ⟨.status .payloadTooLarge, hstatus (by decide), ?_⟩
        simp [hbody, require, orRefuse, bind, Except.bind]
      | ok req' =>
        cases hhost : validateHost ext (HeaderMap.getStr req'.headers .host) svc.httpBlock with
        | false =>
          refine ⟨.status .badRequest, hstatus (by decide), ?_⟩
          simp [hbody, hhost, require, orRefuse, bind, Except.bind]
        | true =>
          cases hmethod : checkMethodAllowed req'.method with
          | false =>
            refine ⟨.status .methodNotAllowed, hstatus (by decide), ?_⟩
            simp [hbody, hhost, hmethod, require, orRefuse, bind, Except.bind]
          | true =>
            rw [host_maybeDecompress hd] at hhost
            rw [(maybeDecompress_ok hd).1] at hmethod
            exact absurd (admissible_of_checks hchecks hbody hhost hmethod) h
    · refine ⟨.status .payloadTooLarge, hstatus (by decide), ?_⟩
      simp [hbody, require, bind, Except.bind]

/-! ## Calls -/

/-- The call is for a request that has to be admissible, and is not: it is no challenge, no
CONNECT, and its body ends well, or it comes over HTTP/3. -/
def Call.Refused (ext : External) (svc : HandlerService) : Call → Prop
  | .http req _ _ => svc.acmeChallengeResponse ext req.uri.path = none ∧ req.method ≠ .connect ∧
      (req.body.failed = true ∨
        ¬ Admissible ext svc ⟨req.method, req.uri, req.version, req.headers, req.body.bytes⟩)
  | .h3 req _ _ => ∀ headers, reconcileHost req.uri req.headers = some headers →
      ¬ Admissible ext svc { req with headers }

/-- The same call in another world. -/
def Call.inWorld (world : World) : Call → Call
  | .http req client _ => .http req client world
  | .h3 req client _ => .h3 req client world

/-- The entry that a call which gets past CONNECT leaves in the access log. -/
def Call.log (resp : Response) : Call → List LogEntry
  | .http req client _ => [logEntry client req.method req.uri.path req.headers resp]
  | .h3 req client _ => [logEntry client req.method req.uri.path req.headers resp]

/-- The response to a refusal. -/
def refusalResponse (ext : External) (svc : HandlerService) (r : Refusal) : Option Response :=
  r.code.map fun s => svc.finalize (errorResponse ext s)

theorem status_refusalResponse {r : Refusal} (h : r.Early) {resp : Response}
    (hresp : refusalResponse ext svc r = some resp) : resp.status ∈ refusals := by
  obtain ⟨s, hs, rfl⟩ := Option.map_eq_some_iff.mp hresp
  rw [finalize_status]
  rcases h with rfl | ⟨s', hs', rfl⟩
  · cases hs
  · cases hs
    exact hs'

theorem collect_ok {body : IncomingBody} {bytes : Bytes} (h : svc.collect body = .ok bytes) :
    bytes = body.bytes ∧ body.failed = false := by
  unfold collect at h
  split at h
  · cases h
  split at h
  · cases h
  · next hfailed =>
    cases h
    exact ⟨rfl, by simpa using hfailed⟩

theorem collect_early {body : IncomingBody} {s : StatusCode} (h : svc.collect body = .error s) :
    (Refusal.status s).Early := by
  unfold collect at h
  split at h
  · cases h; exact .inr ⟨_, by decide, rfl⟩
  split at h
  · cases h; exact .inr ⟨_, by decide, rfl⟩
  · cases h

/-- What becomes of a request that is not admissible does not depend on the world or the state. -/
theorem process_of_not_admissible (h : ¬ Admissible ext svc req) (client : IpAddr) :
    ∃ r : Refusal, r.Early ∧ ∀ world st,
      svc.process ext req client world st = { result := .error r, state := st } := by
  obtain ⟨r, hearly, hr⟩ := admission_of_not_admissible h client
  refine ⟨r, hearly, fun world st => ?_⟩
  unfold process
  simp only [hr]

/-- **A refused call** gets the same response in every world and state, is logged, and does
nothing else. -/
theorem step_of_refused {c : Call} (h : c.Refused ext svc) :
    ∃ r : Refusal, r.Early ∧ ∀ world st,
      (serviceMachine ext svc).step st (c.inWorld world) =
        (st, { response := refusalResponse ext svc r, state := st
               logs := (refusalResponse ext svc r).toList.flatMap c.log }) := by
  cases c with
  | http req client world =>
    obtain ⟨hacme, hconnect, h⟩ := h
    cases hchecks : svc.securityChecks ext req.headers req.version req.uri.path with
    | error r =>
      refine ⟨r, securityChecks_early hchecks, fun world st => ?_⟩
      simp only [serviceMachine, Call.inWorld, handle, hacme, hconnect, if_false, hchecks]
      rfl
    | ok u =>
      cases hcollect : svc.collect req.body with
      | error s =>
        refine ⟨.status s, collect_early hcollect, fun world st => ?_⟩
        simp only [serviceMachine, Call.inWorld, handle, hacme, hconnect, if_false, hchecks,
          hcollect]
        rfl
      | ok body =>
        obtain ⟨rfl, hfailed⟩ := collect_ok hcollect
        have hnot := h.resolve_left (by simp [hfailed])
        obtain ⟨r, hearly, hprocess⟩ := process_of_not_admissible hnot client
        refine ⟨r, hearly, fun world st => ?_⟩
        simp only [serviceMachine, Call.inWorld, handle, hacme, hconnect, if_false, hchecks,
          hcollect, handleCollected, hprocess, respond]
        rfl
  | h3 req client world =>
    cases hhost : reconcileHost req.uri req.headers with
    | none =>
      refine ⟨.status .badRequest, .inr ⟨_, by decide, rfl⟩, fun world st => ?_⟩
      simp only [serviceMachine, Call.inWorld, handleH3, hhost]
      rfl
    | some headers =>
      obtain ⟨r, hearly, hprocess⟩ := process_of_not_admissible (h headers hhost) client
      refine ⟨r, hearly, fun world st => ?_⟩
      simp only [serviceMachine, Call.inWorld, handleH3, hhost, handleCollected, hprocess, respond]
      rfl

/-! ## What is sent -/

/-- The most that a body is decompressed to. -/
def decompressionCap (svc : HandlerService) : Nat :=
  svc.httpBlock.maxDecompressionSize.getD (10 * 1024 * 1024)

theorem maybeDecompress_sized {req' : Request} (h : svc.maybeDecompress ext req = .ok req') :
    req'.body = req.body ∨ req'.body.length ≤ decompressionCap svc := by
  unfold maybeDecompress at h
  split at h
  · simp only at h
    split at h
    · cases h; exact .inl rfl
    split at h
    · cases h; exact .inl rfl
    split at h
    · cases h
    next hsize =>
    split at h
    · cases h
    · cases h; exact .inr (Nat.le_of_not_lt hsize)
  · cases h; exact .inl rfl

theorem applyRewrites_method {path : Text} {req' : Request}
    (h : svc.applyRewrites ext req = .ok (.routed path req')) :
    req'.method = req.method ∧ req'.body = req.body := by
  unfold applyRewrites at h
  split at h
  · cases hr : orRefuse (redirectResponse _ _) <;> rw [hr] at h <;> cases h
  · split at h
    · cases hs : orRefuse (setPath ext req.uri _) with
      | error e => rw [hs] at h; cases h
      | ok uri => rw [hs] at h; cases h; exact ⟨rfl, rfl⟩
    · cases h
    · cases h
  · cases h; exact ⟨rfl, rfl⟩

/-- The method and the body that are sent upstream have been let through. -/
theorem process_sent_sized {world : World} {st : ServiceState} {m : UpstreamRequest}
    (h : m ∈ (svc.process ext req client world st).sent) : checkMethodAllowed m.method = true ∧
      m.method = req.method ∧ m.body.length ≤ max svc.maxBody (decompressionCap svc) := by
  obtain ⟨path, req', addr, hadm, hm⟩ := process_sent h
  have hbuilt : m.method = req'.method ∧ m.body = req'.body := by
    unfold ProxyClient.buildRequest at hm
    cases hu : upstreamUri ext addr req'.uri with
    | error s => rw [hu] at hm; cases hm
    | ok uri =>
      cases hh : svc.proxy.upstreamHeaders addr req'.headers client svc.scheme with
      | error s => rw [hu, hh] at hm; cases hm
      | ok headers => rw [hu, hh] at hm; cases hm; exact ⟨rfl, rfl⟩
  unfold admission at hadm
  simp only [bind_ok] at hadm
  obtain ⟨-, -, _, hbody, req₁, hd, -, -, _, hmethod, admitted, hr, he⟩ := hadm
  cases admitted with
  | answered resp => cases he
  | routed path₁ req₂ =>
    cases he
    have hd := orRefuse_ok.mp hd
    obtain ⟨hm₂, hb₂⟩ := applyRewrites_method hr
    have hsame : req₁.method = req.method := (maybeDecompress_ok hd).1
    have hbody : req.body.length ≤ svc.maxBody := of_decide_eq_true (require_ok.mp hbody)
    refine ⟨?_, ?_, ?_⟩
    · rw [hbuilt.1]
      show checkMethodAllowed req₂.method = true
      rw [hm₂]
      exact require_ok.mp hmethod
    · rw [hbuilt.1]
      show req₂.method = req.method
      rw [hm₂, hsame]
    · rw [hbuilt.2]
      show req₂.body.length ≤ _
      rw [hb₂]
      rcases maybeDecompress_sized hd with hb | hb
      · rw [hb]
        omega
      · omega

/-- What a call sends, `process` sends. -/
theorem step_sent {c : Call} {st : ServiceState} {m : UpstreamRequest}
    (h : m ∈ ((serviceMachine ext svc).step st c).2.sent) :
    ∃ req client world, m ∈ (svc.process ext req client world st).sent := by
  cases c with
  | http req client world =>
    simp only [serviceMachine, handle] at h
    split at h
    · cases h
    split at h
    · cases h
    split at h
    · cases h
    split at h
    · cases h
    · exact ⟨_, _, _, h⟩
  | h3 req client world =>
    simp only [serviceMachine, handleH3] at h
    split at h
    · cases h
    · exact ⟨_, _, _, h⟩

/-! ## Every run -/

open Classical in
/-- The service, as those see it whose calls are not refused. -/
noncomputable def unrefused (ext : External) (svc : HandlerService) :
    Machine ServiceState Call (Option Handled) where
  step st c :=
    (((serviceMachine ext svc).step st c).1,
      if c.Refused ext svc then none else some ((serviceMachine ext svc).step st c).2)

/-- A refused call leaves the state as it is. -/
theorem step_state_of_refused {c : Call} (h : c.Refused ext svc) (st : ServiceState) :
    ((serviceMachine ext svc).step st c).1 = st := by
  obtain ⟨r, -, hstep⟩ := step_of_refused h
  cases c with
  | http req client world => exact congrArg Prod.fst (hstep world st)
  | h3 req client world => exact congrArg Prod.fst (hstep world st)

open Classical in
/-- The other calls of a run are handled as if the refused ones had not been made. -/
theorem outputs_unrefused (st : ServiceState) (is : List Call) :
    ((unrefused ext svc).outputs st is).filterMap id =
      (serviceMachine ext svc).outputs st (is.filter fun c => ¬ c.Refused ext svc) := by
  have hfilter : is.filter (fun c => ¬ c.Refused ext svc) =
      is.filterMap fun c => if c.Refused ext svc then none else some c := by
    rw [← List.filterMap_eq_filter]
    refine List.filterMap_congr fun c _ => ?_
    by_cases hc : c.Refused ext svc <;> simp [hc, Option.guard]
  rw [hfilter]
  refine Machine.outputs_unaffected id (fun s c k hk => ?_) (fun s c hk => ?_) st is
  · by_cases hc : c.Refused ext svc
    · simp [hc] at hk
    · obtain rfl : c = k := by simpa [hc] using hk
      simp [unrefused, hc]
  · by_cases hc : c.Refused ext svc
    · simp [unrefused, hc, step_state_of_refused hc]
    · simp [hc] at hk

/-- The methods that are let through. -/
theorem checkMethodAllowed_eq_true {method : Method} (h : checkMethodAllowed method = true) :
    method ∈ [.get, .head, .post, .put, .delete, .patch, .options] := by
  cases method <;> simp_all [checkMethodAllowed]

open Classical in
/-- **Refused requests leave no trace.** In every run of a service over both entry points, a call
that is refused (which over HTTP/1 and HTTP/2 no challenge and no CONNECT is) gets one of four
statuses (or none, where its path makes the check panic), the same in every state of the service
and whatever the upstreams and the files are, and changes nothing; all other calls are handled as
if it had not been made. And whatever is sent upstream has an allowed method and a body within the
caps. -/
theorem refused_leave_no_trace (ext : External) (svc : HandlerService) (st : ServiceState)
    (is : List Call) :
    (∀ c ∈ is, c.Refused ext svc → ∃ r : Refusal,
      (∀ resp, refusalResponse ext svc r = some resp → resp.status ∈ refusals) ∧
      ∀ world st, (serviceMachine ext svc).step st (c.inWorld world) =
        (st, { response := refusalResponse ext svc r, state := st
               logs := (refusalResponse ext svc r).toList.flatMap c.log })) ∧
    ((unrefused ext svc).outputs st is).filterMap id =
      (serviceMachine ext svc).outputs st (is.filter fun c => ¬ c.Refused ext svc) ∧
    ∀ h ∈ (serviceMachine ext svc).outputs st is, ∀ m ∈ h.sent,
      m.method ∈ [.get, .head, .post, .put, .delete, .patch, .options] ∧
        m.body.length ≤ max svc.maxBody (decompressionCap svc) := by
  refine ⟨fun c _ hc => ?_, outputs_unrefused st is,
    Machine.forall_mem_outputs.mpr fun pre c post _ m hm => ?_⟩
  · obtain ⟨r, hearly, hstep⟩ := step_of_refused hc
    exact ⟨r, fun resp => status_refusalResponse hearly, hstep⟩
  · obtain ⟨req, client, world, hm⟩ := step_sent hm
    obtain ⟨hallowed, -, hbody⟩ := process_sent_sized hm
    exact ⟨checkMethodAllowed_eq_true hallowed, hbody⟩

end Flexd
