import Flexd.Balance.LeastConn
import Flexd.Handler.Dispatch

/-!
# Failover

`dispatchProxy` goes through the candidates and calls `forward` on those that
the filter accepts, until one call ends in anything but a connect failure.
`failoverLogged` is the same loop with a log of its calls, and `FailsOver` says
what the log may be: `dispatchProxy_failsOver` is for every pool, every state of
the balancer and every outcome of the network.
-/

namespace Flexd

open Lib

/-- A call of `forward`, with the index of the server and what came of it. -/
structure ForwardCall where
  idx : Nat
  address : Text
  req : Request
  client : IpAddr
  scheme : Text
  out : Forward

/-- What a call of `forward` is for the loop: the end, or a reason to try the next server. -/
def ForwardCall.final (c : ForwardCall) : Option (Except Refusal Response) :=
  match c.out.result with
  | .ok resp => some (.ok resp)
  | .error .connect => none
  | .error (.status s) => some (.error (.status s))

namespace HandlerService

variable (ext : External) (svc : HandlerService)

/-- `failover`, with its calls of `forward`. -/
def failoverLogged (u : UpstreamRef) (req : Request) (client : IpAddr) (net : Nat → Attempt) :
    List Nat → StatusCode → ServiceState → Outcome × List ForwardCall
  | [], lastStatus, st => (⟨.error (.status lastStatus), st, [], []⟩, [])
  | idx :: rest, lastStatus, st =>
    match u.servers[idx]? with
    | none => failoverLogged u req client net rest lastStatus st
    | some server =>
      match isUpstreamAllowed ext server.address svc.httpBlock.upstreamAllowedNetworks with
      | .error _ => failoverLogged u req client net rest .forbidden st
      | .ok () =>
        let tracked := Balancer.track st.pools u idx
        let f := svc.proxy.forward ext server.address req client svc.scheme st.cache (net idx)
        let call : ForwardCall := ⟨idx, server.address, req, client, svc.scheme, f⟩
        let st := { st with cache := f.cache, pools := Balancer.release tracked u idx }
        match f.result with
        | .ok resp => (⟨.ok resp, st, f.conns, f.sent⟩, [call])
        | .error .connect =>
          let (o, calls) := failoverLogged u req client net rest .badGateway st
          ({ o with conns := f.conns ++ o.conns, sent := f.sent ++ o.sent }, call :: calls)
        | .error (.status s) => (⟨.error (.status s), st, f.conns, f.sent⟩, [call])

/-- `dispatchProxy`, with its calls of `forward`. -/
def dispatchLogged (handler : Handler) (req : Request) (client : IpAddr) (net : Nat → Attempt)
    (st : ServiceState) : Outcome × List ForwardCall :=
  match selectUpstream svc.hash svc.httpBlock handler client st.sessions with
  | (.error s, sessions) => ({ result := .error (.status s), state := { st with sessions } }, [])
  | (.ok u, sessions) =>
    let (order, pools) := Balancer.candidates svc.hash st.pools u client
    svc.failoverLogged ext u req client net order .badGateway { st with pools, sessions }

/-- The filter accepts the server's address. -/
def accepts (u : UpstreamRef) (idx : Nat) : Bool :=
  u.servers[idx]?.any fun server =>
    (isUpstreamAllowed ext server.address svc.httpBlock.upstreamAllowedNetworks).isOk

/-- The status when every call failed to connect: 403 if the last candidate was refused, 502 if it
was tried. -/
def exhausted (u : UpstreamRef) (order : List Nat) (lastStatus : StatusCode) : StatusCode :=
  match order.getLast? with
  | none => lastStatus
  | some idx => if svc.accepts ext u idx then .badGateway else .forbidden

end HandlerService

/-- The call is on the server's address, with the request as it came. -/
def CallsServer (ext : External) (svc : HandlerService) (u : UpstreamRef) (req : Request)
    (client : IpAddr) (net : Nat → Attempt) (c : ForwardCall) : Prop :=
  u.servers[c.idx]?.map (·.address) = some c.address ∧
    c.req = req ∧ c.client = client ∧ c.scheme = svc.scheme ∧
    ∃ cache, c.out = svc.proxy.forward ext c.address c.req c.client c.scheme cache (net c.idx)

/-- The loop over the candidates `order` made the calls and ended with the outcome. -/
structure FailsOver (ext : External) (svc : HandlerService) (u : UpstreamRef) (req : Request)
    (client : IpAddr) (net : Nat → Attempt) (order : List Nat) (lastStatus : StatusCode)
    (o : Outcome) (calls : List ForwardCall) : Prop where
  same : ∀ c ∈ calls, CallsServer ext svc u req client net c
  /-- The calls are on the accepted candidates, in their order. -/
  inOrder : calls.map (·.idx) <+: order.filter (svc.accepts ext u)
  /-- Only after a connect failure is there a next call. -/
  retried : ∀ c ∈ calls.dropLast, c.out.result = .error .connect
  /-- The last call is final, or all the accepted candidates failed to connect. -/
  ended : (∃ c, calls.getLast? = some c ∧ c.final = some o.result) ∨
    calls.map (·.idx) = order.filter (svc.accepts ext u) ∧
      (∀ c ∈ calls, c.out.result = .error .connect) ∧
      o.result = .error (.status (svc.exhausted ext u order lastStatus))
  /-- What went upstream went there in these calls. -/
  sent : o.sent = calls.flatMap (·.out.sent)

variable {ext : External} {svc : HandlerService} {u : UpstreamRef} {req : Request}
  {client : IpAddr} {net : Nat → Attempt}

/-- The log is a log of the loop. -/
theorem failoverLogged_fst (order : List Nat) (last : StatusCode) (st : ServiceState) :
    (svc.failoverLogged ext u req client net order last st).1 =
      svc.failover ext u req client net order last st := by
  induction order generalizing last st with
  | nil => rfl
  | cons idx rest ih =>
    cases hs : u.servers[idx]? with
    | none =>
      simp only [HandlerService.failoverLogged, HandlerService.failover, hs]
      exact ih _ _
    | some server =>
      cases hok : isUpstreamAllowed ext server.address svc.httpBlock.upstreamAllowedNetworks with
      | error e =>
        simp only [HandlerService.failoverLogged, HandlerService.failover, hs, hok]
        exact ih _ _
      | ok _ =>
        simp only [HandlerService.failoverLogged, HandlerService.failover, hs, hok, ← ih]
        obtain ⟨result, cache, conns, sent⟩ :=
          svc.proxy.forward ext server.address req client svc.scheme st.cache (net idx)
        rcases result with (_ | s) | resp <;> rfl

theorem dispatchLogged_fst (handler : Handler) (st : ServiceState) :
    (svc.dispatchLogged ext handler req client net st).1 =
      svc.dispatchProxy ext handler req client net st := by
  unfold HandlerService.dispatchLogged HandlerService.dispatchProxy
  rcases selectUpstream svc.hash svc.httpBlock handler client st.sessions with ⟨s | u, sessions⟩
  · rfl
  · exact failoverLogged_fst _ _ _

/-! ## The loop -/

section Loop

variable {order rest : List Nat} {idx : Nat} {last : StatusCode} {st : ServiceState}
  {o : Outcome} {calls : List ForwardCall} {server : UpstreamServer}

theorem HandlerService.exhausted_cons (svc : HandlerService) (idx : Nat) (rest : List Nat)
    (last : StatusCode) :
    svc.exhausted ext u (idx :: rest) last =
      svc.exhausted ext u rest (if svc.accepts ext u idx then .badGateway else .forbidden) := by
  unfold exhausted
  cases rest with
  | nil => rfl
  | cons next rest =>
    rw [List.getLast?_cons_cons, List.getLast?_eq_some_getLast (List.cons_ne_nil next rest)]

/-- A candidate that is refused changes the status that is left at the end. -/
theorem FailsOver.refused (h : FailsOver ext svc u req client net rest .forbidden o calls)
    (hidx : svc.accepts ext u idx = false) :
    FailsOver ext svc u req client net (idx :: rest) last o calls := by
  have hfilter : (idx :: rest).filter (svc.accepts ext u) = rest.filter (svc.accepts ext u) :=
    List.filter_cons_of_neg (by rw [hidx]; exact Bool.false_ne_true)
  have hstatus : svc.exhausted ext u (idx :: rest) last = svc.exhausted ext u rest .forbidden := by
    rw [svc.exhausted_cons, hidx]
    rfl
  refine ⟨h.same, ?_, h.retried, ?_, h.sent⟩
  · rw [hfilter]
    exact h.inOrder
  · rw [hfilter, hstatus]
    exact h.ended

/-- After a connect failure the loop goes on. -/
theorem FailsOver.retry {call : ForwardCall}
    (h : FailsOver ext svc u req client net rest .badGateway o calls)
    (hidx : svc.accepts ext u call.idx = true)
    (hcall : CallsServer ext svc u req client net call)
    (hconnect : call.out.result = .error .connect) (conns : List SocketAddr) :
    FailsOver ext svc u req client net (call.idx :: rest) last
      { o with conns := conns, sent := call.out.sent ++ o.sent } (call :: calls) := by
  have hfilter : (call.idx :: rest).filter (svc.accepts ext u) =
      call.idx :: rest.filter (svc.accepts ext u) := List.filter_cons_of_pos hidx
  have hstatus : svc.exhausted ext u (call.idx :: rest) last =
      svc.exhausted ext u rest .badGateway := by
    rw [svc.exhausted_cons, hidx]
    rfl
  refine ⟨List.forall_mem_cons.mpr ⟨hcall, h.same⟩, ?_, ?_, ?_, ?_⟩
  · rw [hfilter, List.map_cons]
    exact List.cons_prefix_cons.mpr ⟨rfl, h.inOrder⟩
  · intro c hc
    cases calls with
    | nil => cases hc
    | cons next calls =>
      rcases List.mem_cons.mp hc with rfl | hc
      · exact hconnect
      · exact h.retried c hc
  · rcases h.ended with ⟨c, hlast, hfinal⟩ | ⟨hall, hconnects, hresult⟩
    · refine .inl ⟨c, ?_, hfinal⟩
      cases calls with
      | nil => cases hlast
      | cons next calls => rw [List.getLast?_cons_cons]; exact hlast
    · right
      rw [hfilter, hstatus, List.map_cons, hall]
      exact ⟨rfl, List.forall_mem_cons.mpr ⟨hconnect, hconnects⟩, hresult⟩
  · rw [List.flatMap_cons, h.sent]

/-- Any other outcome ends it. -/
theorem FailsOver.done {call : ForwardCall} {result : Except Refusal Response}
    (hidx : svc.accepts ext u call.idx = true)
    (hcall : CallsServer ext svc u req client net call)
    (hfinal : call.final = some result) (st : ServiceState) (conns : List SocketAddr) :
    FailsOver ext svc u req client net (call.idx :: rest) last
      ⟨result, st, conns, call.out.sent⟩ [call] := by
  refine ⟨by simpa using hcall, ?_, by simp, .inl ⟨call, rfl, hfinal⟩, by simp⟩
  rw [List.filter_cons_of_pos hidx]
  exact List.cons_prefix_cons.mpr ⟨rfl, List.nil_prefix⟩

/-- **The loop**, over any candidates that are servers of the pool. -/
theorem failoverLogged_failsOver (horder : ∀ i ∈ order, i < u.servers.length) (last : StatusCode)
    (st : ServiceState) :
    FailsOver ext svc u req client net order last
      (svc.failoverLogged ext u req client net order last st).1
      (svc.failoverLogged ext u req client net order last st).2 := by
  induction order generalizing last st with
  | nil =>
    simp only [HandlerService.failoverLogged]
    exact ⟨by simp, List.nil_prefix, by simp, .inr ⟨rfl, by simp, rfl⟩, rfl⟩
  | cons idx rest ih =>
    obtain ⟨hlt, hrest⟩ := List.forall_mem_cons.mp horder
    have hs := List.getElem?_eq_getElem hlt
    generalize u.servers[idx] = server at hs
    cases hok : isUpstreamAllowed ext server.address svc.httpBlock.upstreamAllowedNetworks with
    | error e =>
      have hidx : svc.accepts ext u idx = false := by
        simp [HandlerService.accepts, hs, hok, Except.isOk, Except.toBool]
      simp only [HandlerService.failoverLogged, hs, hok]
      exact (ih hrest .forbidden st).refused hidx
    | ok _ =>
      have hidx : svc.accepts ext u idx = true := by
        simp [HandlerService.accepts, hs, hok, Except.isOk, Except.toBool]
      have hcall : CallsServer ext svc u req client net ⟨idx, server.address, req, client,
          svc.scheme, svc.proxy.forward ext server.address req client svc.scheme st.cache
            (net idx)⟩ :=
        ⟨by rw [hs]; rfl, rfl, rfl, rfl, st.cache, rfl⟩
      simp only [HandlerService.failoverLogged, hs, hok]
      generalize svc.proxy.forward ext server.address req client svc.scheme st.cache (net idx) = f
        at hcall
      obtain ⟨result, cache, conns, sent⟩ := f
      rcases result with (_ | s) | resp
      · exact (ih hrest .badGateway _).retry hidx hcall rfl _
      · exact FailsOver.done hidx hcall rfl _ _
      · exact FailsOver.done hidx hcall rfl _ _

/-- A guard that is taken and dropped leaves the gauges as they were. -/
theorem gauges_track_release (pools : Pools) (u : UpstreamRef) (idx : Nat) (name : Text) :
    gauges (Balancer.release (Balancer.track pools u idx) u idx) name = gauges pools name := by
  rw [gauges_release, gauges_track]
  split
  · have hundo : ∀ g : List Nat, (g.modify idx (· + 1)).modify idx (· - 1) = g := by
      intro g
      rw [List.modify_modify_eq]
      exact List.modify_id idx g
    rw [Option.map_map]
    exact (congrArg (Option.map · _) (funext hundo)).trans Option.map_id'
  · rfl

/-- The loop leaves the gauges as they were. -/
theorem failover_gauges (order : List Nat) (last : StatusCode) (st : ServiceState) (name : Text) :
    gauges (svc.failover ext u req client net order last st).state.pools name =
      gauges st.pools name := by
  induction order generalizing last st with
  | nil => rfl
  | cons idx rest ih =>
    cases hs : u.servers[idx]? with
    | none =>
      simp only [HandlerService.failover, hs]
      exact ih _ _
    | some server =>
      cases hok : isUpstreamAllowed ext server.address svc.httpBlock.upstreamAllowedNetworks with
      | error e =>
        simp only [HandlerService.failover, hs, hok]
        exact ih _ _
      | ok _ =>
        simp only [HandlerService.failover, hs, hok]
        split
        · exact gauges_track_release st.pools u idx name
        · exact (ih _ _).trans (gauges_track_release st.pools u idx name)
        · exact gauges_track_release st.pools u idx name

end Loop

/-- **Failover sends a request at most once**: for every pool, state and network, `forward` is
called on the accepted candidates in their order, at most once each and with the same request, up to
the first outcome that is no connect failure; that outcome is the answer, or 403 or 502 if there is
none; and the gauges are left as they were. -/
theorem dispatchProxy_failsOver {handler : Handler} {st : ServiceState} {sessions : StickySessions}
    (hu : selectUpstream svc.hash svc.httpBlock handler client st.sessions = (.ok u, sessions)) :
    let order := (Balancer.candidates svc.hash st.pools u client).1
    let o := svc.dispatchProxy ext handler req client net st
    ∃ calls, svc.dispatchLogged ext handler req client net st = (o, calls) ∧
      FailsOver ext svc u req client net order .badGateway o calls ∧
      (calls.map (·.idx)).Nodup ∧
      ∀ name, gauges o.state.pools name = gauges st.pools name := by
  intro order o
  have horder : ∀ i ∈ order, i < u.servers.length := fun i => mem_candidates.mp
  have hloop : svc.dispatchLogged ext handler req client net st =
      svc.failoverLogged ext u req client net order .badGateway
        { st with pools := (Balancer.candidates svc.hash st.pools u client).2, sessions } := by
    unfold HandlerService.dispatchLogged
    rw [hu]
  have ho : (svc.dispatchLogged ext handler req client net st).1 = o :=
    dispatchLogged_fst handler st
  have hspec : FailsOver ext svc u req client net order .badGateway o
      (svc.dispatchLogged ext handler req client net st).2 := by
    rw [← ho, hloop]
    exact failoverLogged_failsOver horder _ _
  refine ⟨_, Prod.ext ho rfl, hspec, ?_, fun name => ?_⟩
  · have hnodup : order.Nodup :=
      (candidates_perm svc.hash st.pools u client).nodup_iff.mpr List.nodup_range
    exact hspec.inOrder.sublist.nodup (hnodup.filter _)
  · rw [← ho, hloop, failoverLogged_fst, failover_gauges]
    exact gauges_candidates svc.hash st.pools u client name

namespace Sample

/-- A block whose shared pool has two servers. -/
def pairBlock : HttpBlock where
  listen := [{ port := 80 }]
  upstreams := [pairPool .roundRobin]

def pairService : HandlerService := .new .sample zeroHash pairBlock none false

end Sample

open Sample

/-- With both servers down, both are tried. -/
theorem dispatchProxy_failsOver_down :
    selectUpstream pairService.hash pairService.httpBlock { handlerType := .proxy }
      (.v4 ⟨127, 0, 0, 1⟩) ∅ = (.ok (pairPool .roundRobin), ∅) ∧
    ∃ calls o, FailsOver .sample pairService (pairPool .roundRobin) (.get []) (.v4 ⟨127, 0, 0, 1⟩)
      (fun _ => .refused) [0, 1] .badGateway o calls ∧ (calls.map (·.idx)).Nodup := by
  have hu : selectUpstream pairService.hash pairService.httpBlock { handlerType := .proxy }
      (.v4 ⟨127, 0, 0, 1⟩) ∅ = (.ok (pairPool .roundRobin), ∅) := rfl
  have horder : (Balancer.candidates pairService.hash (ServiceState.init pairBlock).pools
      (pairPool .roundRobin) (.v4 ⟨127, 0, 0, 1⟩)).1 = [0, 1] := by decide +kernel
  obtain ⟨calls, -, hcalls, hnodup, -⟩ := @dispatchProxy_failsOver .sample pairService
    (pairPool .roundRobin) (.get []) (.v4 ⟨127, 0, 0, 1⟩) (fun _ => .refused)
    { handlerType := .proxy } (.init pairBlock) ∅ hu
  rw [horder] at hcalls
  exact ⟨hu, calls, _, hcalls, hnodup⟩

end Flexd
