import Flexd.Handler.Checks

/-!
# Routing and dispatch

`findLocation` picks the location of a path, `dispatch` runs its handler, and
`dispatchProxy` tries the servers of the selected pool in the balancer's order
until one gives a final outcome. `tried` lists the addresses that a sweep
reaches when every server refuses the connection.
-/

namespace Flexd

open Lib

/-- The location of a path, given the best match so far: an exact or regex match wins at once,
otherwise the longest matching pattern, in bytes, and among equal ones the first. -/
def findLocationFrom (path : Text) :
    List CompiledLocation → Option CompiledLocation → Nat → Option CompiledLocation
  | [], best, _ => best
  | c :: cs, best, bestLen =>
    match c.location.matchType with
    | .exact => if c.location.pattern = path then some c else findLocationFrom path cs best bestLen
    | .startsWith =>
      if c.location.pattern.isPrefixOf path ∧ bestLen < byteLen c.location.pattern then
        findLocationFrom path cs (some c) (byteLen c.location.pattern)
      else findLocationFrom path cs best bestLen
    | .regex =>
      match c.regex with
      | some re => if re.isMatch path then some c else findLocationFrom path cs best bestLen
      | none => findLocationFrom path cs best bestLen
    | .unknown _ => findLocationFrom path cs best bestLen

def findLocation (locations : List CompiledLocation) (path : Text) : Option CompiledLocation :=
  findLocationFrom path locations none 0

namespace HandlerService

variable (ext : External) (svc : HandlerService)

/-- The proxy loop over the candidate indices that are left. -/
def failover (u : UpstreamRef) (req : Request) (client : IpAddr) (net : Nat → Attempt) :
    List Nat → StatusCode → ServiceState → Outcome
  | [], lastStatus, st => ⟨.error (.status lastStatus), st, [], []⟩
  | idx :: rest, lastStatus, st =>
    match u.servers[idx]? with
    | none => failover u req client net rest lastStatus st
    | some server =>
      match isUpstreamAllowed ext server.address svc.httpBlock.upstreamAllowedNetworks with
      | .error _ => failover u req client net rest .forbidden st
      | .ok () =>
        let tracked := Balancer.track st.pools u idx
        let f := svc.proxy.forward ext server.address req client svc.scheme st.cache (net idx)
        let st := { st with cache := f.cache, pools := Balancer.release tracked u idx }
        match f.result with
        | .ok resp => ⟨.ok resp, st, f.conns, f.sent⟩
        | .error .connect =>
          let o := failover u req client net rest .badGateway st
          { o with conns := f.conns ++ o.conns, sent := f.sent ++ o.sent }
        | .error (.status s) => ⟨.error (.status s), st, f.conns, f.sent⟩

def dispatchProxy (handler : Handler) (req : Request) (client : IpAddr) (net : Nat → Attempt)
    (st : ServiceState) : Outcome :=
  match selectUpstream svc.hash svc.httpBlock handler client st.sessions with
  | (.error s, sessions) => { result := .error (.status s), state := { st with sessions } }
  | (.ok u, sessions) =>
    let (order, pools) := Balancer.candidates svc.hash st.pools u client
    svc.failover ext u req client net order .badGateway { st with pools, sessions }

/-- A file as an outcome; the state does not change. -/
def serveStatic (root path : Text) (world : World) (st : ServiceState) : Outcome :=
  { result := orRefuse (StaticFile.serveFile world.fs root path), state := st }

/-- The root of a static location: its own, or the block's. -/
def staticRoot (handler : Handler) : Option Text := handler.root.or svc.httpBlock.root

def dispatch (handler : Handler) (path : Text) (req : Request) (client : IpAddr) (world : World)
    (st : ServiceState) : Outcome :=
  match handler.handlerType with
  | .static =>
    match svc.staticRoot handler with
    | some root => serveStatic root path world st
    | none => { result := .error .missingRoot, state := st }
  | .proxy | .reverseProxy => svc.dispatchProxy ext handler req client world.net st
  | .return =>
    { result := .ok ⟨(StatusCode.fromU16 (handler.status.getD 200)).getD .ok,
        insertStr [] .contentType textPlain, utf8 (handler.target.getD [])⟩
      state := st }
  | .redirect =>
    match handler.target with
    | some target =>
      { result := orRefuse (redirectResponse target (handler.status.getD 301)), state := st }
    | none => { result := .error .missingTarget, state := st }
  | .deny => { result := .error (.status .forbidden), state := st }
  | .unknown _ => { result := .error .unknownHandler, state := st }

/-- What `process` does with an admitted request. -/
def route (path : Text) (req : Request) (client : IpAddr) (world : World) (st : ServiceState) :
    Outcome :=
  match findLocation svc.locations path with
  | some c => svc.dispatch ext c.location.handler path req client world st
  | none =>
    match svc.httpBlock.root with
    | some root => serveStatic root path world st
    | none => { result := .error (.status .notFound), state := st }

def process (req : Request) (client : IpAddr) (world : World) (st : ServiceState) : Outcome :=
  match svc.admission ext req client with
  | .error r => { result := .error r, state := st }
  | .ok (.answered resp) => { result := .ok resp, state := st }
  | .ok (.routed path req) => svc.route ext path req client world st

end HandlerService

end Flexd
