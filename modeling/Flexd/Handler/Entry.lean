import Flexd.Handler.Dispatch

/-!
# The entry points

`handle` serves a request of an HTTP/1 or HTTP/2 connection, whose body is
still to be read; `handleH3` one of an HTTP/3 connection, whose body has been
collected. Both end in `handleCollected`. `serviceMachine` is the service as a
state machine over the calls of either.
-/

namespace Flexd

open Lib

/-- A body that is still to be read: the bytes that arrive, and whether an error ends them. -/
structure IncomingBody where
  bytes : Bytes
  failed : Bool

structure Incoming where
  method : Method
  uri : Uri
  version : Version
  headers : HeaderMap
  body : IncomingBody

/-- The arguments of one `AccessLogger::log` call. -/
structure LogEntry where
  remoteAddr : Text
  method : Method
  target : Text
  status : StatusCode
  bytesSent : Nat
  userAgent : Text
  deriving DecidableEq

/-- What became of a call: the response, none when the task panicked, and everything that
happened on the way. -/
structure Handled where
  response : Option Response
  state : ServiceState
  logs : List LogEntry
  conns : List SocketAddr := []
  sent : List UpstreamRequest := []

namespace HandlerService

variable (ext : External) (svc : HandlerService)

def userAgentOf (headers : HeaderMap) : Text := (HeaderMap.getStr headers .userAgent).getD ['-']

def logEntry (client : IpAddr) (method : Method) (target : Text) (headers : HeaderMap)
    (resp : Response) : LogEntry :=
  ⟨client.text, method, target, resp.status, resp.body.length, userAgentOf headers⟩

/-- The response to an outcome. -/
def respond (o : Outcome) : Option Response :=
  match o.result with
  | .ok resp => some (svc.finalize resp)
  | .error r => r.code.map fun s => svc.finalize (errorResponse ext s)

def handleCollected (req : Request) (client : IpAddr) (world : World) (st : ServiceState) :
    Option Response × Outcome :=
  let o := svc.process ext req client world st
  (svc.respond ext o, o)

/-- `Limited::collect`: the whole body, under the cap. -/
def collect (body : IncomingBody) : Except StatusCode Bytes :=
  if svc.maxBody < body.bytes.length then .error .payloadTooLarge
  else if body.failed then .error .badRequest
  else .ok body.bytes

/-! ## CONNECT -/

def connectTargetPermitted (host : Text) (port : UInt16) (authority : Text) : Bool :=
  match svc.httpBlock.connectAllowedTargets with
  | some targets => targets.any fun t =>
      let (tHost, tPort) := splitHostPort t
      eqIgnoreAsciiCase tHost host && tPort.all (· = port)
  | none =>
    match svc.httpBlock.connectUpstream with
    | some up => up.servers.any fun s =>
        let (sHost, sPort) := splitHostPort s.address
        eqIgnoreAsciiCase s.address authority || (eqIgnoreAsciiCase sHost host && sPort = some port)
    | none => false

/-- The vetted addresses of a CONNECT target, none where it is not permitted. -/
def vetConnect (host : Text) (port : UInt16) (l : Lookup) (cache : Cache) :
    Option (List SocketAddr) × Cache :=
  match parseIp host with
  | some ip =>
    if ipAllowed ip (parseNetworks ext svc.httpBlock.upstreamAllowedNetworks) then
      (some [⟨ip, port⟩], cache)
    else (none, cache)
  | none =>
    match svc.proxy.resolver.resolveChecked cache host l with
    | (.ok addrs, cache) => (some (addrs.map fun sa => ⟨sa.ip, port⟩), cache)
    | (.error _, cache) => (none, cache)

/-- The loop over the vetted addresses: the connection attempts, and whether the last of them
gave a stream. -/
def attempts (connects : Nat → Bool) : List SocketAddr → List SocketAddr × Bool
  | [] => ([], false)
  | a :: as =>
    if connects 0 then ([a], true)
    else
      let (tried, upstream) := attempts (fun n => connects (n + 1)) as
      (a :: tried, upstream)

def handleConnect (uri : Uri) (world : World) (st : ServiceState) :
    Response × ServiceState × List SocketAddr :=
  if !svc.httpBlock.allowConnect then
    (svc.simpleResponse .methodNotAllowed "405 Method Not Allowed\n".toList, st, [])
  else
    match uri.authority with
    | none => (svc.simpleResponse .badRequest
        "CONNECT requires an authority-form target\n".toList, st, [])
    | some authority =>
      match splitHostPort authority.text with
      | (_, none) => (svc.simpleResponse .badRequest
          "CONNECT target must include an explicit port\n".toList, st, [])
      | (host, some port) =>
        if !svc.connectTargetPermitted host port authority.text then
          (svc.simpleResponse .forbidden "CONNECT target not permitted\n".toList, st, [])
        else
          match svc.vetConnect ext host port world.connectLookup st.cache with
          | (none, cache) => (svc.simpleResponse .forbidden
              "CONNECT target not permitted\n".toList, { st with cache }, [])
          | (some vetted, cache) =>
            let (tried, upstream) := attempts world.connects vetted
            (if upstream then svc.simpleResponse .ok []
              else svc.simpleResponse .badGateway "502 Bad Gateway\n".toList,
              { st with cache }, tried)

/-! ## Entry points -/

def handle (req : Incoming) (client : IpAddr) (world : World) (st : ServiceState) : Handled :=
  let log target resp := [logEntry client req.method target req.headers resp]
  match svc.acmeChallengeResponse ext req.uri.path with
  | some resp => { response := some resp, state := st, logs := log req.uri.path resp }
  | none =>
    if req.method = .connect then
      let (resp, st, conns) := svc.handleConnect ext req.uri world st
      { response := some resp, state := st, logs := log req.uri.text resp, conns := conns }
    else
      match svc.securityChecks ext req.headers req.version req.uri.path with
      | .error r =>
        let resp := r.code.map fun s => svc.finalize (errorResponse ext s)
        { response := resp, state := st, logs := resp.toList.flatMap (log req.uri.path) }
      | .ok () =>
        match svc.collect req.body with
        | .error s =>
          let resp := svc.finalize (errorResponse ext s)
          { response := some resp, state := st, logs := log req.uri.path resp }
        | .ok body =>
          let (resp, o) := svc.handleCollected ext
            ⟨req.method, req.uri, req.version, req.headers, body⟩ client world st
          { response := resp, state := o.state, logs := resp.toList.flatMap (log req.uri.path)
            conns := o.conns, sent := o.sent }

/-- The headers after `Host` has been reconciled with `:authority`, none when they conflict. -/
def reconcileHost (uri : Uri) (headers : HeaderMap) : Option HeaderMap :=
  match uri.authority with
  | none => some headers
  | some authority =>
    match headers.get .host with
    | some h =>
      let host := h.toStr.getD []
      if host ≠ [] ∧ host ≠ authority.text then none else some headers
    | none => some (insertStr headers .host authority.text)

def handleH3 (req : Request) (client : IpAddr) (world : World) (st : ServiceState) : Handled :=
  let log resp := [logEntry client req.method req.uri.path req.headers resp]
  match reconcileHost req.uri req.headers with
  | none =>
    let resp := svc.finalize (errorResponse ext .badRequest)
    { response := some resp, state := st, logs := log resp }
  | some headers =>
    let (resp, o) := svc.handleCollected ext { req with headers } client world st
    { response := resp, state := o.state, logs := resp.toList.flatMap log
      conns := o.conns, sent := o.sent }

end HandlerService

/-- A call of one of the entry points, and the world it runs in. -/
inductive Call where
  | http (req : Incoming) (client : IpAddr) (world : World)
  | h3 (req : Request) (client : IpAddr) (world : World)

/-- The service, call after call. -/
def serviceMachine (ext : External) (svc : HandlerService) : Machine ServiceState Call Handled where
  step st c :=
    let h := match c with
      | .http req client world => svc.handle ext req client world st
      | .h3 req client world => svc.handleH3 ext req client world st
    (h.state, h)

/-- The states of a service after any calls. -/
def Reachable (ext : External) (svc : HandlerService) (st : ServiceState) : Prop :=
  (serviceMachine ext svc).Reach (fun _ => True) (.init svc.httpBlock) st

end Flexd
