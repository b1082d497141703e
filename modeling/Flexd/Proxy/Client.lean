import Flexd.Http.Authority
import Flexd.Resolver
import Flexd.Security.Headers

/-!
# The upstream client

`ProxyClient.forward` sends one buffered request to one upstream address and
buffers the response. What the network does during the call is an `Attempt`:
the resolver's lookup, whether an idle connection is reused, which of the
offered addresses the connector tries, and how the exchange ends. The result
records the connections that were opened and the request that was sent.
-/

namespace Flexd

open Lib

structure ProxyClient where
  resolver : PinningResolver
  maxResponseSize : Nat
  trustedProxies : List IpNetwork
  applyAttributionPolicy : Bool

/-- Why a forward attempt failed. -/
inductive ProxyError where
  | connect
  | status (s : StatusCode)
  deriving DecidableEq

structure UpstreamRequest where
  method : Method
  uri : UpstreamUri
  headers : HeaderMap
  body : Bytes
  deriving DecidableEq

structure UpstreamResponse where
  status : StatusCode
  headers : HeaderMap
  /-- None when the body could not be read to its end. -/
  body : Option Bytes
  deriving DecidableEq

/-- How the exchange with the upstream ends. -/
inductive SendOutcome where
  | timeout
  | connectError
  | transportError
  | response (r : UpstreamResponse)
  deriving DecidableEq

/-- What the network does during one call of `forward`. -/
structure Attempt where
  lookup : Lookup
  /-- An idle pooled connection is reused. -/
  pooled : Bool
  /-- The positions of the addresses the connector tries, in order. -/
  picks : List Nat
  outcome : SendOutcome

/-- The first address tried refuses the connection. -/
def Attempt.refused : Attempt := ⟨⟨0, none, 0⟩, false, [0], .connectError⟩

structure Forward where
  result : Except ProxyError Response
  cache : Cache
  /-- The TCP connections opened. -/
  conns : List SocketAddr
  /-- The request handed to the client, if it came to that. -/
  sent : List UpstreamRequest

/-- The path and query a request is forwarded with. -/
def targetText (uri : Uri) : Text :=
  match uri.pathAndQuery with
  | some pq => pq.text
  | none => ['/']

/-- The upstream URI: the text `http://`, the address and the request target, parsed again. -/
def upstreamUri (ext : External) (addr : Text) (uri : Uri) : Except StatusCode UpstreamUri :=
  if ext.uriAccepts (addr ++ targetText uri) then .ok (readUpstreamUri (addr ++ targetText uri))
  else .error .badGateway

namespace ProxyClient

variable (p : ProxyClient)

/-- The headers after hop-by-hop stripping, without the declared length, attribution
rewritten. -/
def cleanHeaders (headers : HeaderMap) (client : IpAddr) (scheme : Text) : HeaderMap :=
  let originalHost := headers.get .host
  let headers := (stripHopByHop headers).remove .contentLength
  if p.applyAttributionPolicy then
    applyForwardingPolicy headers client scheme originalHost p.trustedProxies
  else headers

/-- The headers sent upstream: the client's `Host`, or the upstream address when it sent none. -/
def upstreamHeaders (addr : Text) (headers : HeaderMap) (client : IpAddr) (scheme : Text) :
    Except StatusCode HeaderMap :=
  match headers.get .host with
  | some host => .ok ((p.cleanHeaders headers client scheme).insert .host host)
  | none =>
    match HeaderValue.fromStr addr with
    | some host => .ok ((p.cleanHeaders headers client scheme).insert .host host)
    | none => .error .badGateway

/-- The request `forward` hands to the client. -/
def buildRequest (ext : External) (addr : Text) (req : Request) (client : IpAddr)
    (scheme : Text) : Except StatusCode UpstreamRequest := do
  let uri ← upstreamUri ext addr req.uri
  let headers ← p.upstreamHeaders addr req.headers client scheme
  return ⟨req.method, uri, headers, req.body⟩

/-- Where the connector may connect: an IP literal itself, otherwise the resolver's answer. -/
def connectorAddrs (cache : Cache) (uri : UpstreamUri) (l : Lookup) :
    Except ResolveError (List SocketAddr) × Cache :=
  match parseIp uri.host with
  | some ip => (.ok [⟨ip, uri.port⟩], cache)
  | none =>
    match p.resolver.resolveChecked cache uri.host l with
    | (.ok addrs, cache) => (.ok (addrs.map fun sa => ⟨sa.ip, uri.port⟩), cache)
    | (.error e, cache) => (.error e, cache)

/-- What becomes of a received response: ambiguous framing and over-long bodies are refused. -/
def receive (r : UpstreamResponse) : Except ProxyError Response :=
  if r.headers.containsKey .contentLength && r.headers.containsKey .transferEncoding then
    .error (.status .badGateway)
  else
    match r.body with
    | some body =>
      if body.length ≤ p.maxResponseSize then .ok ⟨r.status, stripHopByHop r.headers, body⟩
      else .error (.status .badGateway)
    | none => .error (.status .badGateway)

def conclude : SendOutcome → Except ProxyError Response
  | .timeout => .error (.status .gatewayTimeout)
  | .connectError => .error .connect
  | .transportError => .error (.status .badGateway)
  | .response r => p.receive r

/-- Send a request that has been built. -/
def send (cache : Cache) (req : UpstreamRequest) (att : Attempt) : Forward :=
  if att.pooled then ⟨p.conclude att.outcome, cache, [], [req]⟩
  else
    match p.connectorAddrs cache req.uri att.lookup with
    | (.ok addrs, cache) =>
      ⟨p.conclude att.outcome, cache, att.picks.filterMap (addrs[·]?), [req]⟩
    | (.error _, cache) =>
      -- a failed resolution is a connect error, unless the deadline passed first
      ⟨.error (if att.outcome = .timeout then .status .gatewayTimeout else .connect), cache, [],
        [req]⟩

def forward (ext : External) (addr : Text) (req : Request) (client : IpAddr) (scheme : Text)
    (cache : Cache) (att : Attempt) : Forward :=
  match p.buildRequest ext addr req client scheme with
  | .ok upstreamReq => p.send cache upstreamReq att
  | .error s => ⟨.error (.status s), cache, [], []⟩

end ProxyClient

variable {p : ProxyClient} {ext : External} {addr : Text} {req : Request} {client : IpAddr}
  {scheme : Text} {cache : Cache} {att : Attempt}

theorem send_sent (m : UpstreamRequest) : (p.send cache m att).sent = [m] := by
  unfold ProxyClient.send
  split
  · rfl
  · split <;> rfl

/-- What is sent is what was built. -/
theorem forward_sent {m : UpstreamRequest} :
    m ∈ (p.forward ext addr req client scheme cache att).sent ↔
      p.buildRequest ext addr req client scheme = .ok m := by
  unfold ProxyClient.forward
  cases h : p.buildRequest ext addr req client scheme with
  | error s => simp
  | ok m' => simp [send_sent, eq_comm]

theorem buildRequest_ok {m : UpstreamRequest}
    (h : p.buildRequest ext addr req client scheme = .ok m) :
    upstreamUri ext addr req.uri = .ok m.uri ∧
      p.upstreamHeaders addr req.headers client scheme = .ok m.headers := by
  unfold ProxyClient.buildRequest at h
  cases hu : upstreamUri ext addr req.uri with
  | error s => rw [hu] at h; cases h
  | ok u =>
    cases hh : p.upstreamHeaders addr req.headers client scheme with
    | error s => rw [hu, hh] at h; cases h
    | ok hs =>
      rw [hu, hh] at h
      cases h
      exact ⟨rfl, rfl⟩

/-- A name that is no framing, hop-by-hop or attribution header is sent on as it is, unless it is
nominated. -/
theorem getAll_cleanHeaders {headers : HeaderMap} {n : HeaderName} (ha : n ∉ attribution)
    (hh : n ∉ hopByHop) (hcl : n ≠ .contentLength) :
    (p.cleanHeaders headers client scheme).getAll n =
      if n ∈ nominatedNames headers then [] else headers.getAll n := by
  have hbase : ((stripHopByHop headers).remove .contentLength).getAll n =
      if n ∈ nominatedNames headers then [] else headers.getAll n := by
    rw [MultiMap.getAll_remove_ne _ hcl, getAll_stripHopByHop]
    simp only [hh, or_false]
  unfold ProxyClient.cleanHeaders
  simp only
  split
  · rw [getAll_applyForwardingPolicy ha, hbase]
  · exact hbase

/-- The headers sent are the cleaned ones under some `Host`. -/
theorem upstreamHeaders_eq {headers sent : HeaderMap}
    (h : p.upstreamHeaders addr headers client scheme = .ok sent) :
    ∃ host, sent = (p.cleanHeaders headers client scheme).insert .host host := by
  unfold ProxyClient.upstreamHeaders at h
  split at h
  · next host _ => cases h; exact ⟨host, rfl⟩
  · split at h
    · next host _ => cases h; exact ⟨host, rfl⟩
    · cases h

end Flexd
