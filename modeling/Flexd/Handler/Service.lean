import Flexd.Balance
import Flexd.Handler.SelectUpstream
import Flexd.Proxy.Client
import Flexd.Rewrite
import Flexd.StaticFile

/-!
# The handler service

What a listener builds once from its block (`HandlerService.new`), what
changes from request to request (`ServiceState`), and what the world does
while one request is served (`World`). A request is answered, refused with a
status, or makes the task panic; `Refusal` names the refusals that are the
configuration's fault.
-/

namespace Flexd

open Lib

/-- A location with its regex compiled. -/
structure CompiledLocation where
  location : Location
  regex : Option Regex

def compileLocation (ext : External) (l : Location) : CompiledLocation :=
  ⟨l, if l.matchType = .regex then ext.regex l.pattern else none⟩

structure HandlerService where
  httpBlock : HttpBlock
  /-- The HTTP-01 key authorizations by token, of a block with ACME enabled. -/
  acmeStore : Option (Text → Option Text)
  proxy : ProxyClient
  geoip : Option (IpAddr → Option GeoIpInfo)
  rewriter : RewriteEngine
  locations : List CompiledLocation
  scheme : Text
  hsts : Option HeaderValue
  maxBody : Nat
  /-- The hashers behind the balancer and the A/B router. -/
  hash : Hashers

def HandlerService.new (ext : External) (hash : Hashers) (block : HttpBlock)
    (acmeStore : Option (Text → Option Text)) (isTls : Bool) : HandlerService where
  httpBlock := block
  acmeStore := acmeStore
  proxy :=
    { resolver :=
        ⟨parseNetworks ext block.upstreamAllowedNetworks, block.dnsCacheTtlSeconds.getD 30⟩
      maxResponseSize := block.maxUpstreamResponseSize.getD (100 * 1024 * 1024)
      trustedProxies := parseNetworks ext block.trustedProxies
      applyAttributionPolicy := block.normalizeHeadersBeforeProxy }
  geoip := block.geoipDb.bind ext.geoip
  rewriter := .new ext block.rewrites
  locations := block.locations.map (compileLocation ext)
  scheme := if isTls then "https".toList else "http".toList
  hsts :=
    (if isTls then block.hstsMaxAge else none).bind fun secs =>
      HeaderValue.fromStr ("max-age=".toList ++ decimal secs ++ "; includeSubDomains".toList)
  maxBody := block.maxBodySize.getD (10 * 1024 * 1024)
  hash := hash

/-- The state a service keeps between requests: the resolver's cache, the balancer's pools, the
router's sticky sessions. -/
structure ServiceState where
  cache : Cache
  pools : Pools
  sessions : StickySessions

def ServiceState.init (block : HttpBlock) : ServiceState := ⟨∅, Balancer.new block, ∅⟩

/-- What the world does while one request is served. -/
structure World where
  /-- The upstream exchange with each server of the pool. -/
  net : Nat → Attempt
  fs : FileSystem
  /-- The resolver's lookup for a CONNECT target. -/
  connectLookup : Lookup
  /-- Whether a tunnel's connection attempts succeed in time, one after the other. -/
  connects : Nat → Bool

/-- A world without files, in which every server refuses the connection. -/
def World.refusing : World where
  net _ := .refused
  fs := ⟨fun _ => false, fun _ _ => .error .enoent, fun _ => none, fun _ => none⟩
  connectLookup := ⟨0, none, 0⟩
  connects _ := false

/-- Why a request is not answered as it asks. -/
inductive Refusal where
  | status (s : StatusCode)
  | missingRoot
  | missingTarget
  | unknownHandler
  | panicked
  deriving DecidableEq

/-- The status a refusal is answered with; a panic is not answered. -/
def Refusal.code : Refusal → Option StatusCode
  | .status s => some s
  | .missingRoot => some .internalServerError
  | .missingTarget => some .internalServerError
  | .unknownHandler => some .notImplemented
  | .panicked => none

/-- The result of serving a request, and what happened on the way. -/
structure Outcome where
  result : Except Refusal Response
  state : ServiceState
  conns : List SocketAddr := []
  sent : List UpstreamRequest := []

namespace HandlerService

variable (ext : External) (svc : HandlerService)

/-! ## Responses -/

/-- Stamp HSTS, unless the response has it. -/
def finalize (resp : Response) : Response :=
  match svc.hsts with
  | some hsts => { resp with headers := resp.headers.insertIfAbsent .strictTransportSecurity hsts }
  | none => resp

theorem finalize_status (resp : Response) : (svc.finalize resp).status = resp.status := by
  unfold finalize
  split <;> rfl

def textPlain : Text := "text/plain; charset=utf-8".toList

def simpleResponse (status : StatusCode) (body : Text) : Response :=
  svc.finalize ⟨status, if body = [] then [] else insertStr [] .contentType textPlain, utf8 body⟩

theorem simpleResponse_status (status : StatusCode) (body : Text) :
    (svc.simpleResponse status body).status = status := finalize_status svc _

def errorResponse (status : StatusCode) : Response :=
  ⟨status, insertStr [] .contentType textPlain,
    utf8 (decimal status.code ++ ' ' :: (ext.canonicalReason status).getD "Error".toList ++ ['\n'])⟩

def redirectResponse (target : Text) (status : UInt16) : Except StatusCode Response :=
  match HeaderValue.fromStr target with
  | some location =>
    .ok ⟨(StatusCode.fromU16 status).getD .movedPermanently, [(.location, location)], []⟩
  | none => .error .internalServerError

/-- The prefix of the challenge paths. -/
def acmePath : Text := "/.well-known/acme-challenge/".toList

/-- The answer to an HTTP-01 challenge, none for every other path. -/
def acmeChallengeResponse (uriPath : Text) : Option Response :=
  match svc.acmeStore with
  | none => none
  | some store =>
    if acmePath.isPrefixOf uriPath then
      let token := uriPath.drop acmePath.length
      if token = [] ∨ '/' ∈ token then some (errorResponse ext .notFound)
      else
        match store token with
        | some keyAuth =>
          some ⟨.ok, insertStr [] .contentType "application/octet-stream".toList, utf8 keyAuth⟩
        | none => some (errorResponse ext .notFound)
    else none

end HandlerService

end Flexd
