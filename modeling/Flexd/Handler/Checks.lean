import Flexd.Handler.Service
import Flexd.Security.HostPolicy

/-!
# Admission of a request

Everything `process` does before it routes: the header and framing checks,
the body cap, decompression, the host policy, the method, rewrites, the
GeoIP stamp. `admission` runs them in order; it touches no state.
-/

namespace Flexd

open Lib

namespace HandlerService

variable (ext : External) (svc : HandlerService)

/-- The bytes a header line takes. -/
def headerSize (headers : HeaderMap) : Nat :=
  headers.foldl (fun sum e => sum + (e.1.text.length + e.2.bytes.length + 2)) 0

/-- The declared body length, if it is a number. -/
def declaredLength (headers : HeaderMap) : Option Nat :=
  (HeaderMap.getStr headers .contentLength).bind parseUsize

def tooManyHeaders (headers : HeaderMap) : Bool :=
  svc.httpBlock.maxHeaderCount.getD 100 < headers.length

def headersTooLarge (headers : HeaderMap) : Bool :=
  svc.httpBlock.maxHeaderSize.getD 8192 < headerSize headers

def declaredTooLarge (headers : HeaderMap) : Bool :=
  (declaredLength headers).any fun n => svc.maxBody < n

/-- HTTP/1.0 has no transfer coding. -/
def badVersionFraming (version : Version) (headers : HeaderMap) : Bool :=
  version = .http10 && headers.containsKey .transferEncoding

/-- A length and a transfer coding, or several lengths. -/
def ambiguousFraming (headers : HeaderMap) : Bool :=
  (headers.containsKey .contentLength && headers.containsKey .transferEncoding) ||
    1 < (headers.getAll .contentLength).length

def hasLineBreaks (headers : HeaderMap) : Bool :=
  headers.any fun e => e.2.bytes.any fun b => b = 13 || b = 10

/-- `security_checks`: what every entry point asks of headers, version and path. -/
def securityChecks (headers : HeaderMap) (version : Version) (path : Text) : Except Refusal Unit :=
  if svc.tooManyHeaders headers then .error (.status .requestHeaderFieldsTooLarge)
  else if svc.headersTooLarge headers then .error (.status .requestHeaderFieldsTooLarge)
  else if svc.declaredTooLarge headers then .error (.status .payloadTooLarge)
  else if badVersionFraming version headers then .error (.status .badRequest)
  else if svc.httpBlock.rejectAmbiguousFraming && ambiguousFraming headers then
    .error (.status .badRequest)
  else if svc.httpBlock.rejectHeadersWithControlChars && hasLineBreaks headers then
    .error (.status .badRequest)
  else
    match validateUri ext path with
    | .ok => .ok ()
    | .rejected _ => .error (.status .badRequest)
    | .panicked => .error .panicked

/-- Whether the first `Content-Encoding` value mentions gzip. -/
def isGzip (headers : HeaderMap) : Bool :=
  (HeaderMap.getStr headers .contentEncoding).any fun v => "gzip".toList <:+: ext.toLowercase v

/-- What the decoder yields under the cap of one byte more than `maxSize`, none on an error. -/
def gunzipCapped (maxSize : Nat) (body : Bytes) : Option Bytes :=
  let (out, failed) := ext.gunzip body
  let cap := (maxSize + 1) % UInt64.size
  if failed && out.length < cap then none else some (out.take cap)

def maybeDecompress (req : Request) : Except StatusCode Request :=
  if isGzip ext req.headers then
    let maxRatio := svc.httpBlock.maxDecompressionRatio.getD 10
    let maxSize := svc.httpBlock.maxDecompressionSize.getD (10 * 1024 * 1024)
    if req.body = [] then .ok req
    else
      match gunzipCapped ext maxSize req.body with
      | none => .ok req
      | some out =>
        if maxSize < out.length then .error .payloadTooLarge
        else if maxRatio < out.length / max req.body.length 1 then .error .payloadTooLarge
        else .ok { req with headers := req.headers.remove .contentEncoding, body := out }
  else .ok req

/-- Replace the path of a URI, keeping its query. -/
def setPath (uri : Uri) (newPath : Text) : Except StatusCode Uri :=
  let pq := match uri.query with
    | some q => newPath ++ '?' :: q
    | none => newPath
  match ext.pathAndQuery pq with
  | none => .error .badRequest
  | some pq =>
    match Uri.fromParts { uri with pathAndQuery := some pq } with
    | some uri => .ok uri
    | none => .error .internalServerError

/-! ## The GeoIP stamp -/

def geoCountry : HeaderName := ⟨"x-geoip-country".toList, by decide⟩
def geoCity : HeaderName := ⟨"x-geoip-city".toList, by decide⟩
def geoContinent : HeaderName := ⟨"x-geoip-continent".toList, by decide⟩

/-- `GEO_HEADERS`. -/
def geoHeaders : List HeaderName := [geoCountry, geoCity, geoContinent]

/-- Insert a looked-up field, if there is one. -/
def putGeo (headers : HeaderMap) (n : HeaderName) : Option Text → HeaderMap
  | some v => insertStr headers n v
  | none => headers

def stampGeoip (headers : HeaderMap) (ip : IpAddr) : HeaderMap :=
  let headers := headers.removeAll geoHeaders
  match svc.geoip.bind (· ip) with
  | none => headers
  | some info =>
    putGeo (putGeo (putGeo headers geoCountry info.isoCode) geoCity info.city) geoContinent
      info.continent

def checkMethodAllowed : Method → Bool
  | .get | .head | .post | .put | .delete | .patch | .options => true
  | _ => false

/-! ## Admission -/

/-- A request that has been admitted: answered already, or routed by a path. -/
inductive Admitted where
  | answered (resp : Response)
  | routed (path : Text) (req : Request)

/-- A status as a refusal. -/
def orRefuse {α : Type} : Except StatusCode α → Except Refusal α
  | .ok a => .ok a
  | .error s => .error (.status s)

/-- The rewrite step: a redirect is the answer, an internal rewrite changes the path. -/
def applyRewrites (req : Request) : Except Refusal Admitted :=
  match svc.rewriter.apply req.uri.path with
  | some (.redirect target status) => (orRefuse (redirectResponse target status)).map .answered
  | some (.internal newPath) =>
    match validateUri ext newPath with
    | .ok =>
      (orRefuse (setPath ext req.uri newPath)).map fun uri => .routed newPath { req with uri }
    | .rejected _ => .error (.status .badRequest)
    | .panicked => .error .panicked
  | none => .ok (.routed req.uri.path req)

/-- Stamp a request that is to be routed. -/
def Admitted.stamp (client : IpAddr) : Admitted → Admitted
  | .answered resp => .answered resp
  | .routed path req => .routed path { req with headers := svc.stampGeoip req.headers client }

def admission (req : Request) (client : IpAddr) : Except Refusal Admitted := do
  svc.securityChecks ext req.headers req.version req.uri.path
  require (req.body.length ≤ svc.maxBody) (.status .payloadTooLarge)
  let req ← orRefuse (svc.maybeDecompress ext req)
  require (validateHost ext (HeaderMap.getStr req.headers .host) svc.httpBlock)
    (.status .badRequest)
  require (checkMethodAllowed req.method) (.status .methodNotAllowed)
  let admitted ← svc.applyRewrites ext req
  return admitted.stamp svc client

end HandlerService

open HandlerService

variable {ext : External} {svc : HandlerService} {req : Request} {client : IpAddr}

theorem orRefuse_ok {α : Type} {r : Except StatusCode α} {a : α} :
    orRefuse r = .ok a ↔ r = .ok a := by
  cases r <;> simp [orRefuse]

/-- Decompression does nothing, replaces the body and drops `Content-Encoding`, or refuses what
grows too large. -/
theorem maybeDecompress_cases (ext : External) (svc : HandlerService) (req : Request) :
    svc.maybeDecompress ext req = .ok req ∨
      (∃ body, svc.maybeDecompress ext req =
        .ok { req with headers := req.headers.remove .contentEncoding, body := body }) ∨
      svc.maybeDecompress ext req = .error .payloadTooLarge := by
  unfold maybeDecompress
  split
  · simp only
    split
    · exact .inl rfl
    split
    · exact .inl rfl
    split
    · exact .inr (.inr rfl)
    split
    · exact .inr (.inr rfl)
    · exact .inr (.inl ⟨_, rfl⟩)
  · exact .inl rfl

/-- Decompression touches `Content-Encoding` and the body alone. -/
theorem maybeDecompress_ok {req' : Request} (h : svc.maybeDecompress ext req = .ok req') :
    req'.method = req.method ∧ req'.uri = req.uri ∧
      (req'.headers = req.headers ∨ req'.headers = req.headers.remove .contentEncoding) := by
  rcases maybeDecompress_cases ext svc req with hsame | ⟨body, hbody⟩ | hlarge
  · cases hsame.symm.trans h
    exact ⟨rfl, rfl, .inl rfl⟩
  · cases hbody.symm.trans h
    exact ⟨rfl, rfl, .inr rfl⟩
  · cases hlarge.symm.trans h

theorem orRefuse_error {α : Type} {r : Except StatusCode α} {e : Refusal}
    (h : orRefuse r = .error e) : ∃ s, r = .error s ∧ e = .status s := by
  cases r with
  | ok a => cases h
  | error s => cases h; exact ⟨s, rfl, rfl⟩

theorem maybeDecompress_error {s : StatusCode} (h : svc.maybeDecompress ext req = .error s) :
    s = .payloadTooLarge := by
  rcases maybeDecompress_cases ext svc req with hsame | ⟨body, hbody⟩ | hlarge
  · cases hsame.symm.trans h
  · cases hbody.symm.trans h
  · cases hlarge.symm.trans h
    rfl

/-- The rewrite step leaves the headers as they are. -/
theorem applyRewrites_routed {path : Text} {req' : Request}
    (h : svc.applyRewrites ext req = .ok (.routed path req')) : req'.headers = req.headers := by
  unfold applyRewrites at h
  split at h
  · cases hr : orRefuse (redirectResponse _ _) <;> rw [hr] at h <;> cases h
  · split at h
    · cases hs : orRefuse (setPath ext req.uri _) with
      | error e => rw [hs] at h; cases h
      | ok uri => rw [hs] at h; cases h; rfl
    · cases h
    · cases h
  · cases h; rfl

/-- A routed request has the headers it came with, but for `Content-Encoding`, and the stamp. -/
theorem admission_routed {path : Text} {req' : Request}
    (h : svc.admission ext req client = .ok (.routed path req')) :
    ∃ headers : HeaderMap, req'.headers = svc.stampGeoip headers client ∧
      ∀ n, n ≠ .contentEncoding → headers.getAll n = req.headers.getAll n := by
  unfold admission at h
  simp only [bind_ok] at h
  obtain ⟨-, -, -, -, req₁, hd, -, -, -, -, admitted, hr, he⟩ := h
  obtain ⟨-, -, hh⟩ := maybeDecompress_ok (orRefuse_ok.mp hd)
  cases admitted with
  | answered resp => cases he
  | routed path₁ req₂ =>
    cases he
    refine ⟨req₂.headers, rfl, fun n hn => ?_⟩
    rw [applyRewrites_routed hr]
    rcases hh with hh | hh
    · rw [hh]
    · rw [hh, MultiMap.getAll_remove_ne _ hn]

end Flexd
