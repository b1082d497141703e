import Flexd.Balance.Fairness
import Flexd.Handler.Entry
import Flexd.Handler.Failover
import Flexd.Handler.Servable

/-!
# How requests are distributed

The balancer as part of the service. A call that is proxied selects once from
one pool and tries its servers in the order selected (`step_pick`); any other
call leaves the balancer alone. So a run of the service is a run of the
balancer (`run_selects`): its gauges are back where they were after every
call, and what a pool is asked for goes to its servers by their weights
(`service_fair`).
-/

namespace Flexd

open Lib HandlerService

/-! ## What a call selects -/

/-- The request of a call, where the call gets as far as `process`. -/
def Call.collected (ext : External) (svc : HandlerService) :
    Call → Option (Request × IpAddr × World)
  | .http req client world =>
    match svc.acmeChallengeResponse ext req.uri.path with
    | some _ => none
    | none =>
      if req.method = .connect then none
      else
        match svc.securityChecks ext req.headers req.version req.uri.path with
        | .error _ => none
        | .ok () =>
          match svc.collect req.body with
          | .error _ => none
          | .ok body => some (⟨req.method, req.uri, req.version, req.headers, body⟩, client, world)
  | .h3 req client world =>
    (reconcileHost req.uri req.headers).map fun headers => ({ req with headers }, client, world)

/-- The handler that proxies a request, and the request as it is proxied. -/
def HandlerService.proxied (ext : External) (svc : HandlerService) (req : Request)
    (client : IpAddr) : Option (Handler × Request) :=
  match svc.admission ext req client with
  | .ok (.routed path req') =>
    match findLocation svc.locations path with
    | some c =>
      if c.location.handler.handlerType.isProxy then some (c.location.handler, req') else none
    | none => none
  | _ => none

/-- The pool of a handler, and the order its servers are tried in. -/
def HandlerService.pick (svc : HandlerService) (handler : Handler) (client : IpAddr)
    (st : ServiceState) : Option (UpstreamRef × List Nat) :=
  match selectUpstream svc.hash svc.httpBlock handler client st.sessions with
  | (.ok u, _) => some (u, (Balancer.candidates svc.hash st.pools u client).1)
  | (.error _, _) => none

/-- What a call selects, if it is proxied. -/
def Call.pick (ext : External) (svc : HandlerService) (st : ServiceState) (c : Call) :
    Option (UpstreamRef × List Nat) :=
  (c.collected ext svc).bind fun (req, client, _) =>
    (svc.proxied ext req client).bind fun (handler, _) => svc.pick handler client st

section

variable (ext : External) (svc : HandlerService)

theorem dispatchProxy_pick (handler : Handler) (req : Request) (client : IpAddr)
    (net : Nat → Attempt) (st : ServiceState) :
    let o := svc.dispatchProxy ext handler req client net st
    (svc.pick handler client st = none ∧ o.sent = [] ∧ o.state.pools = st.pools) ∨
    ∃ u mid, mid.pools = (Balancer.candidates svc.hash st.pools u client).2 ∧
      svc.pick handler client st = some (u, (Balancer.candidates svc.hash st.pools u client).1) ∧
      o = svc.failover ext u req client net (Balancer.candidates svc.hash st.pools u client).1
        .badGateway mid := by
  unfold dispatchProxy pick
  cases selectUpstream svc.hash svc.httpBlock handler client st.sessions with
  | mk selected sessions =>
  cases selected with
  | error s => exact .inl ⟨rfl, rfl, rfl⟩
  | ok u => exact .inr ⟨u, _, rfl, rfl, rfl⟩

theorem pick_eq_some {handler : Handler} {client : IpAddr} {st : ServiceState}
    {p : UpstreamRef × List Nat} (h : svc.pick handler client st = some p) :
    ∃ sessions, selectUpstream svc.hash svc.httpBlock handler client st.sessions =
      (.ok p.1, sessions) := by
  unfold pick at h
  split at h
  · next u sessions hsel =>
    cases h
    exact ⟨sessions, hsel⟩
  · cases h

/-- A handler that does not proxy sends nothing and changes nothing. -/
theorem dispatch_proxies (handler : Handler) (path : Text) (req : Request) (client : IpAddr)
    (world : World) (st : ServiceState) :
    let o := svc.dispatch ext handler path req client world st
    (handler.handlerType.isProxy = false ∧ o.sent = [] ∧ o.state = st) ∨
    (handler.handlerType.isProxy = true ∧
      o = svc.dispatchProxy ext handler req client world.net st) := by
  unfold dispatch
  cases handler.handlerType with
  | proxy => exact .inr ⟨rfl, rfl⟩
  | reverseProxy => exact .inr ⟨rfl, rfl⟩
  | static => cases svc.staticRoot handler <;> exact .inl ⟨rfl, rfl, rfl⟩
  | redirect => cases handler.target <;> exact .inl ⟨rfl, rfl, rfl⟩
  | _ => exact .inl ⟨rfl, rfl, rfl⟩

/-- A request that is not proxied sends nothing and changes nothing; any other is dispatched. -/
theorem process_proxied (req : Request) (client : IpAddr) (world : World) (st : ServiceState) :
    let o := svc.process ext req client world st
    (svc.proxied ext req client = none ∧ o.sent = [] ∧ o.state = st) ∨
    ∃ handler req', svc.proxied ext req client = some (handler, req') ∧
      o = svc.dispatchProxy ext handler req' client world.net st := by
  unfold process proxied
  cases svc.admission ext req client with
  | error r => exact .inl ⟨rfl, rfl, rfl⟩
  | ok admitted =>
    cases admitted with
    | answered resp => exact .inl ⟨rfl, rfl, rfl⟩
    | routed path req' =>
      simp only [route]
      cases findLocation svc.locations path with
      | none => cases svc.httpBlock.root <;> exact .inl ⟨rfl, rfl, rfl⟩
      | some c =>
        rcases dispatch_proxies ext svc c.location.handler path req' client world st with
          ⟨hproxy, hsent, hstate⟩ | ⟨hproxy, hdispatch⟩
        · exact .inl ⟨if_neg (by simp [hproxy]), hsent, hstate⟩
        · exact .inr ⟨c.location.handler, req', if_pos hproxy, hdispatch⟩

theorem handleConnect_pools (uri : Uri) (world : World) (st : ServiceState) :
    (svc.handleConnect ext uri world st).2.1.pools = st.pools := by
  unfold handleConnect
  split
  · rfl
  split
  · rfl
  split
  · rfl
  split
  · rfl
  split
  · rfl
  · rfl

/-- A call that does not get as far as `process` sends nothing and leaves the balancer alone. -/
theorem step_collected (st : ServiceState) (c : Call) :
    let out := (serviceMachine ext svc).step st c
    (c.collected ext svc = none ∧ out.2.sent = [] ∧ out.1.pools = st.pools) ∨
    ∃ req client world, c.collected ext svc = some (req, client, world) ∧
      out.2.sent = (svc.process ext req client world st).sent ∧
      out.1 = (svc.process ext req client world st).state := by
  cases c with
  | http req client world =>
    simp only [serviceMachine, handle, Call.collected]
    cases svc.acmeChallengeResponse ext req.uri.path with
    | some resp => exact .inl ⟨rfl, rfl, rfl⟩
    | none =>
      by_cases hconnect : req.method = .connect
      · simp only [hconnect, if_true]
        exact .inl ⟨trivial, trivial, handleConnect_pools ext svc req.uri world st⟩
      · simp only [hconnect, if_false]
        cases svc.securityChecks ext req.headers req.version req.uri.path with
        | error r => exact .inl ⟨rfl, rfl, rfl⟩
        | ok u =>
          cases svc.collect req.body with
          | error s => exact .inl ⟨rfl, rfl, rfl⟩
          | ok body => exact .inr ⟨_, _, _, rfl, rfl, rfl⟩
  | h3 req client world =>
    simp only [serviceMachine, handleH3, Call.collected]
    cases reconcileHost req.uri req.headers with
    | none => exact .inl ⟨rfl, rfl, rfl⟩
    | some headers => exact .inr ⟨_, _, _, rfl, rfl, rfl⟩

/-- **What a call does with the balancer**: nothing, or one selection from one pool, whose order is
the one in which its servers are tried. -/
theorem step_pick (st : ServiceState) (c : Call) :
    let out := (serviceMachine ext svc).step st c
    (c.pick ext svc st = none ∧ out.2.sent = [] ∧ out.1.pools = st.pools) ∨
    ∃ u client req net mid, mid.pools = (Balancer.candidates svc.hash st.pools u client).2 ∧
      let order := (Balancer.candidates svc.hash st.pools u client).1
      c.pick ext svc st = some (u, order) ∧
      out.2.sent = (svc.failover ext u req client net order .badGateway mid).sent ∧
      out.1 = (svc.failover ext u req client net order .badGateway mid).state := by
  intro out
  rcases step_collected ext svc st c with
    ⟨hnone, hsent, hpools⟩ | ⟨req, client, world, hsome, hsent, hstate⟩
  · exact .inl ⟨by rw [Call.pick, hnone]; rfl, hsent, hpools⟩
  rcases process_proxied ext svc req client world st with
    ⟨hnone, hnothing, hsame⟩ | ⟨handler, req', hproxied, hdispatch⟩
  · refine .inl ⟨?_, hsent.trans hnothing, congrArg ServiceState.pools (hstate.trans hsame)⟩
    rw [Call.pick, hsome]
    exact congrArg (Option.bind · _) hnone
  rw [hdispatch] at hsent hstate
  have hpick : c.pick ext svc st = svc.pick handler client st := by
    rw [Call.pick, hsome]
    exact congrArg (Option.bind · _) hproxied
  rcases dispatchProxy_pick ext svc handler req' client world.net st with
    ⟨hnone, hnothing, hsame⟩ | ⟨u, mid, hmid, horder, hloop⟩
  · exact .inl ⟨hpick.trans hnone, hsent.trans hnothing,
      (congrArg ServiceState.pools hstate).trans hsame⟩
  · rw [hloop] at hsent hstate
    exact .inr ⟨u, client, req', world.net, mid, hmid, hpick.trans horder, hsent, hstate⟩

/-- The service, with what its calls select. -/
def pickMachine : Machine ServiceState Call (Option (UpstreamRef × List Nat)) where
  step st c := (((serviceMachine ext svc).step st c).1, c.pick ext svc st)

/-- The selections of a run. -/
def picks (st : ServiceState) (is : List Call) : List (UpstreamRef × List Nat) :=
  ((pickMachine ext svc).outputs st is).filterMap id

end

variable {ext : External} {svc : HandlerService} {u : UpstreamRef}

/-! ## The balancer of a run -/

/-- The balancer with no guard live. -/
def LoadState.idle (pools : Pools) : LoadState := { pools }

/-- The events lead from the one idle balancer to the other, and the selections among them answer
as given. -/
def Selects (hash : Hashers) (pools : Pools) (es : List LoadEvent) (pools' : Pools)
    (answers : List (UpstreamRef × List Nat)) : Prop :=
  (LoadState.selections hash).run (.idle pools) es = .idle pools' ∧
    ((LoadState.selections hash).outputs (.idle pools) es).filterMap id = answers

theorem selects_nil (hash : Hashers) (pools : Pools) : Selects hash pools [] pools [] := ⟨rfl, rfl⟩

theorem Selects.append {hash : Hashers} {p₁ p₂ p₃ : Pools} {es₁ es₂ : List LoadEvent}
    {as₁ as₂ : List (UpstreamRef × List Nat)} (h₁ : Selects hash p₁ es₁ p₂ as₁)
    (h₂ : Selects hash p₂ es₂ p₃ as₂) : Selects hash p₁ (es₁ ++ es₂) p₃ (as₁ ++ as₂) := by
  refine ⟨by rw [Machine.run_append, h₁.1, h₂.1], ?_⟩
  rw [Machine.outputs_append, List.filterMap_append, h₁.1, h₁.2, h₂.2]

theorem selects_pick (hash : Hashers) (pools : Pools) (u : UpstreamRef) (client : IpAddr) :
    Selects hash pools [.pick u client] (Balancer.candidates hash pools u client).2
      [(u, (Balancer.candidates hash pools u client).1)] := ⟨rfl, rfl⟩

/-- A guard taken and dropped. -/
theorem selects_track (hash : Hashers) (pools : Pools) (u : UpstreamRef) (idx : Nat) :
    Selects hash pools [.track u idx, .drop 0]
      (Balancer.release (Balancer.track pools u idx) u idx) [] := ⟨rfl, rfl⟩

/-- A sweep takes and drops a guard for each server that it tries. -/
theorem failover_selects (ext : External) (svc : HandlerService) (u : UpstreamRef) (req : Request)
    (client : IpAddr) (net : Nat → Attempt) (order : List Nat) (last : StatusCode)
    (st : ServiceState) :
    ∃ es, Selects svc.hash st.pools es
      (svc.failover ext u req client net order last st).state.pools [] := by
  induction order generalizing last st with
  | nil => exact ⟨[], selects_nil _ _⟩
  | cons idx rest ih =>
    have htrack := selects_track svc.hash st.pools u idx
    simp only [failover]
    split
    · exact ih last st
    next server _ =>
    split
    · exact ih .forbidden st
    split
    · exact ⟨_, htrack⟩
    · obtain ⟨es, hes⟩ := ih .badGateway
        ⟨(svc.proxy.forward ext server.address req client svc.scheme st.cache (net idx)).cache,
          Balancer.release (Balancer.track st.pools u idx) u idx, st.sessions⟩
      exact ⟨_, htrack.append hes⟩
    · exact ⟨_, htrack⟩

/-- **A run of the service is a run of the balancer**, which answers what the calls select. -/
theorem run_selects (ext : External) (svc : HandlerService) (st : ServiceState) (is : List Call) :
    ∃ es, Selects svc.hash st.pools es ((pickMachine ext svc).run st is).pools
      (picks ext svc st is) := by
  induction is generalizing st with
  | nil => exact ⟨[], selects_nil _ _⟩
  | cons c is ih =>
    have hcons : picks ext svc st (c :: is) = (c.pick ext svc st).toList ++
        picks ext svc ((serviceMachine ext svc).step st c).1 is := by
      unfold picks
      cases h : c.pick ext svc st <;> simp [Machine.outputs, pickMachine, h]
    rw [hcons]
    obtain ⟨es, hes⟩ := ih ((serviceMachine ext svc).step st c).1
    rcases step_pick ext svc st c with ⟨hnone, -, hpools⟩ |
      ⟨u, client, req, net, mid, hmid, hpick, -, hstate⟩
    · rw [hnone]
      rw [hpools] at hes
      exact ⟨es, hes⟩
    · rw [hpick]
      obtain ⟨loop, hloop⟩ := failover_selects ext svc u req client net
        (Balancer.candidates svc.hash st.pools u client).1 .badGateway mid
      rw [hmid, ← hstate] at hloop
      exact ⟨_, ((selects_pick svc.hash st.pools u client).append hloop).append hes⟩

/-! ## Shares of the servers -/

/-- The servers that come first in what is selected from a pool. -/
def firstsOf (u : UpstreamRef) (ps : List (UpstreamRef × List Nat)) : List Nat :=
  ps.filterMap fun p => if p.1 = u then p.2.head? else none

/-- The number of selections from a pool. -/
def shareOf (u : UpstreamRef) (ps : List (UpstreamRef × List Nat)) : Nat := ps.countP (·.1 = u)

theorem firsts_eq_firstsOf (answers : List (Option (UpstreamRef × List Nat))) :
    firsts u answers = firstsOf u (answers.filterMap id) := by
  rw [firsts, firstsOf, List.filterMap_filterMap]
  rfl

/-- The selections among the events are those answered: as many from each pool, and from no other
pool. -/
theorem selections_picks (hash : Hashers) (s : LoadState) (es : List LoadEvent) :
    let answers := ((LoadState.selections hash).outputs s es).filterMap id
    es.countP (·.picks u) = shareOf u answers ∧
      ∀ v client, LoadEvent.pick v client ∈ es → ∃ p ∈ answers, p.1 = v := by
  induction es generalizing s with
  | nil => exact ⟨rfl, fun v client hv => by cases hv⟩
  | cons e es ih =>
    obtain ⟨hcount, hmem⟩ := ih ((LoadState.selections hash).step s e).1
    cases e with
    | pick v client =>
      refine ⟨?_, fun w client' hw => ?_⟩
      · rw [List.countP_cons, hcount]
        simp [Machine.outputs, LoadState.selections, LoadState.answer, shareOf,
          LoadEvent.picks, List.countP_cons]
      · rcases List.mem_cons.mp hw with hw | hw
        · cases hw
          exact ⟨_, List.mem_cons_self, rfl⟩
        · obtain ⟨p, hp, he⟩ := hmem w client' hw
          exact ⟨p, List.mem_cons_of_mem _ hp, he⟩
    | track v idx =>
      exact ⟨hcount, fun w client hw => hmem w client (by simpa using hw)⟩
    | drop guard =>
      exact ⟨hcount, fun w client hw => hmem w client (by simpa using hw)⟩

/-- Where every selection from a pool of this name is from this pool, its share is served at
consecutive points. -/
theorem Selects.firstsOf {hash : Hashers} {pools pools' : Pools} {es : List LoadEvent}
    {ps : List (UpstreamRef × List Nat)} (h : Selects hash pools es pools' ps) {start : UInt64}
    (hs : u.strategy = .roundRobin) (hn : 2 ≤ u.servers.length)
    (hcursor : cursor pools u.name = some start)
    (hown : ∀ p ∈ ps, p.1.name = u.name → p.1 = u) :
    firstsOf u ps = (List.range (shareOf u ps)).map fun k =>
      u.indexForPoint ((start + UInt64.ofNat k).toNat % u.totalWeight) := by
  obtain ⟨hcount, hmem⟩ := selections_picks hash (u := u) (.idle pools) es
  rw [h.2] at hcount hmem
  have hnames : ∀ e ∈ es, OwnName u e := by
    intro e he
    cases e with
    | pick v client =>
      obtain ⟨p, hp, rfl⟩ := hmem v client he
      exact hown p hp
    | _ => trivial
  rw [← h.2, ← firsts_eq_firstsOf, firsts_run hs hn hcursor hnames, hcount, h.2]

/-- A round of consecutive points has each server as often as its weight says. -/
theorem count_round (hn : u.servers ≠ []) {start : Nat}
    (hwrap : start + u.totalWeight ≤ UInt64.size) (i : Nat) :
    ((List.range u.totalWeight).map fun k =>
      u.indexForPoint ((UInt64.ofNat (start + k)).toNat % u.totalWeight)).count i =
        (u.servers[i]?.map (·.effectiveWeight)).getD 0 := by
  have hpoint : ∀ k < u.totalWeight, (u.indexForPoint
      ((UInt64.ofNat (start + k)).toNat % u.totalWeight) = i ↔
        spanIndex u.weights ((start + k) % u.weights.sum) = some i) := by
    intro k hk
    have hsome := loopIndex_eq_some hn (Nat.mod_lt (start + k) (totalWeight_pos u))
    rw [loopIndex_eq_spanIndex, totalWeight_eq_sum hn] at hsome
    rw [UInt64.toNat_ofNat', Nat.mod_eq_of_lt (Nat.lt_of_lt_of_le (Nat.add_lt_add_left hk _) hwrap),
      totalWeight_eq_sum hn, hsome, Option.some.injEq]
  calc _ = u.totalWeight.count fun k =>
          u.indexForPoint ((UInt64.ofNat (start + k)).toNat % u.totalWeight) = i := by
        rw [List.count, List.countP_map, Nat.count]
        rfl
    _ = u.weights.sum.count
          fun k => spanIndex u.weights ((start + k) % u.weights.sum) = some i := by
        rw [count_congr hpoint, totalWeight_eq_sum hn]
    _ = u.weights[i]?.getD 0 := count_spanIndex_mod u.weights start i
    _ = (u.servers[i]?.map (·.effectiveWeight)).getD 0 := by
        rw [UpstreamRef.weights, List.getElem?_map]

/-! ## The service of a block -/

section Block

variable {hash : Hashers} {block : HttpBlock} {acmeStore : Option (Text → Option Text)}
  {isTls : Bool}

theorem cursor_add (pools : Pools) (v : UpstreamRef) (name : Text) :
    cursor (Balancer.add pools v) name =
      (cursor pools name).or (if v.name = name then some 0 else none) := by
  unfold Balancer.add cursor
  by_cases hmem : v.name ∈ pools
  · rw [if_pos hmem]
    by_cases hv : v.name = name
    · obtain ⟨st, hst⟩ := Option.isSome_iff_exists.mp (AList.lookup_isSome.mpr hmem)
      rw [hv] at hst
      simp [hst]
    · simp [hv]
  · rw [if_neg hmem]
    by_cases hv : v.name = name
    · rw [hv] at hmem
      simp [hv, AList.lookup_eq_none.mpr hmem, AList.lookup_insert, Balancer.fresh]
    · simp [AList.lookup_insert_ne (Ne.symm hv), hv]

theorem cursor_foldl_add (us : List UpstreamRef) (pools : Pools) (name : Text) :
    cursor (us.foldl Balancer.add pools) name =
      (cursor pools name).or (if ∃ v ∈ us, v.name = name then some 0 else none) := by
  induction us generalizing pools with
  | nil => simp
  | cons v us ih =>
    rw [List.foldl_cons, ih, cursor_add]
    by_cases hv : v.name = name
    · cases hc : cursor pools name <;> simp [hv]
    · simp [hv]

/-- Every pool of a block starts at cursor 0. -/
theorem cursor_new (hu : u ∈ poolsOf block) : cursor (Balancer.new block) u.name = some 0 := by
  unfold Balancer.new
  rw [cursor_foldl_add, if_pos ⟨u, hu, rfl⟩]
  rfl

/-- Only a handler of the block proxies. -/
theorem location_of_proxied {req req' : Request} {client : IpAddr} {handler : Handler}
    (h : (HandlerService.new ext hash block acmeStore isTls).proxied ext req client =
      some (handler, req')) : ∃ loc ∈ block.locations, loc.handler = handler := by
  unfold proxied at h
  split at h
  · split at h
    · next c hc =>
      split at h
      · cases h
        exact ⟨_, location_of_findLocation hc, rfl⟩
      · cases h
    · cases h
  · cases h

/-- A location's handler selects from the block's own pools or its inline one. -/
theorem mem_poolsOf_of_selectUpstream {loc : Location} (hloc : loc ∈ block.locations)
    {client : IpAddr} {sessions sessions' : StickySessions}
    (h : selectUpstream hash block loc.handler client sessions = (.ok u, sessions')) :
    u ∈ poolsOf block := by
  have hshared : ∀ {v : UpstreamRef}, v ∈ block.upstreams → v ∈ poolsOf block :=
    fun hv => List.mem_append_left _ (List.mem_append_left _ hv)
  unfold selectUpstream at h
  split at h
  · next s _ =>
    simp only at h
    split at h
    · next u' hgroup =>
      cases h
      obtain ⟨name, -, hgroup⟩ := Option.bind_eq_some_iff.mp hgroup
      obtain ⟨_, _, _, _, hu⟩ := groupUpstream_eq_some hgroup
      exact hshared (List.mem_of_find?_eq_some hu)
    · cases h
  · split at h
    · next u' hor =>
      cases h
      rcases Option.or_eq_some_iff.mp hor with hinline | ⟨-, hhead⟩
      · exact List.mem_append_left _ (List.mem_append_right _
          (List.mem_filterMap.mpr ⟨loc, hloc, hinline⟩))
      · exact hshared (List.mem_of_mem_head? hhead)
    · cases h

/-- A selected pool is one of the block. -/
theorem mem_poolsOf_of_pick {st : ServiceState} {c : Call} {p : UpstreamRef × List Nat}
    (h : c.pick ext (.new ext hash block acmeStore isTls) st = some p) : p.1 ∈ poolsOf block := by
  obtain ⟨⟨req, client, world⟩, -, h⟩ := Option.bind_eq_some_iff.mp h
  obtain ⟨⟨handler, req'⟩, hproxied, h⟩ := Option.bind_eq_some_iff.mp h
  obtain ⟨loc, hloc, rfl⟩ := location_of_proxied hproxied
  obtain ⟨sessions, hsel⟩ := pick_eq_some _ h
  exact mem_poolsOf_of_selectUpstream hloc hsel

theorem mem_poolsOf_of_picks {st : ServiceState} {is : List Call} {p : UpstreamRef × List Nat}
    (h : p ∈ picks ext (.new ext hash block acmeStore isTls) st is) : p.1 ∈ poolsOf block := by
  obtain ⟨o, ho, rfl⟩ := List.mem_filterMap.mp h
  have hall : ∀ o ∈ (pickMachine ext (.new ext hash block acmeStore isTls)).outputs st is,
      ∀ p, o = some p → p.1 ∈ poolsOf block :=
    Machine.forall_mem_outputs.mpr fun pre c post _ p hp => mem_poolsOf_of_pick hp
  exact hall _ ho p rfl

theorem picks_append (st : ServiceState) (is js : List Call) :
    picks ext svc st (is ++ js) =
      picks ext svc st is ++ picks ext svc ((pickMachine ext svc).run st is) js := by
  rw [picks, Machine.outputs_append, List.filterMap_append]
  rfl

theorem firstsOf_append (ps qs : List (UpstreamRef × List Nat)) :
    firstsOf u (ps ++ qs) = firstsOf u ps ++ firstsOf u qs := List.filterMap_append

theorem shareOf_append (ps qs : List (UpstreamRef × List Nat)) :
    shareOf u (ps ++ qs) = shareOf u ps + shareOf u qs := List.countP_append

/-- No run moves a gauge for good. -/
theorem gauges_run (st : ServiceState) (is : List Call) (name : Text) :
    gauges ((pickMachine ext svc).run st is).pools name = gauges st.pools name := by
  refine Machine.run_inv (fun s : ServiceState => gauges s.pools name = gauges st.pools name) rfl
    (fun s c hs => ?_) is
  rw [← hs]
  rcases step_pick ext svc s c with ⟨-, -, hpools⟩ |
    ⟨u, client, req, net, mid, hmid, -, -, hstate⟩
  · exact congrArg (gauges · name) hpools
  · rw [show ((pickMachine ext svc).step s c).1 = _ from hstate, failover_gauges, hmid,
      gauges_candidates]

/-- What a call sends is sent as it selects: without a selection nothing, otherwise what a sweep
over the order selected sends. -/
def SentAsPicked (ext : External) (svc : HandlerService) (st : ServiceState) (c : Call) : Prop :=
  let sent := ((serviceMachine ext svc).step st c).2.sent
  (c.pick ext svc st = none ∧ sent = []) ∨
    ∃ u order client req net mid, c.pick ext svc st = some (u, order) ∧
      sent = (svc.failover ext u req client net order .badGateway mid).sent

/-- **A service shares its requests out by the weights.** In every run of the service of a block,
whatever is refused, served otherwise or sent to other pools in between, of as many requests to a
round-robin pool as its weights sum to, each of its servers is the first to be tried for as many as
its weight says; requests are sent in the orders selected, and no gauge is left raised. -/
theorem service_fair (hu : u ∈ poolsOf block) (hown : ∀ v ∈ poolsOf block, v.name = u.name → v = u)
    (hs : u.strategy = .roundRobin) (hn : 2 ≤ u.servers.length) (before round : List Call) :
    let svc := HandlerService.new ext hash block acmeStore isTls
    let st := (pickMachine ext svc).run (.init block) before
    let ps := picks ext svc st round
    shareOf u ps = u.totalWeight →
    shareOf u (picks ext svc (.init block) before) + u.totalWeight ≤ UInt64.size →
    (∀ i, (firstsOf u ps).count i = (u.servers[i]?.map (·.effectiveWeight)).getD 0) ∧
      (∀ st c, SentAsPicked ext svc st c) ∧
      ∀ name, gauges ((pickMachine ext svc).run st round).pools name =
        gauges (Balancer.new block) name := by
  intro svc st ps hround hwrap
  refine ⟨fun i => ?_, fun st c => ?_, fun name => ?_⟩
  · have hcursor : cursor (ServiceState.init block).pools u.name = some 0 := cursor_new hu
    have hnames (is : List Call) : ∀ p ∈ picks ext svc (.init block) is,
        p.1.name = u.name → p.1 = u := fun p hp => hown p.1 (mem_poolsOf_of_picks hp)
    have hpoints (is : List Call) : firstsOf u (picks ext svc (.init block) is) =
        (List.range (shareOf u (picks ext svc (.init block) is))).map fun k =>
          u.indexForPoint ((UInt64.ofNat k).toNat % u.totalWeight) := by
      obtain ⟨es, hes⟩ := run_selects ext svc (.init block) is
      simpa using hes.firstsOf hs hn hcursor (hnames is)
    -- the points of the round are those after the points of what was before
    have hboth := hpoints (before ++ round)
    rw [picks_append, firstsOf_append, hpoints before, shareOf_append, List.range_add,
      List.map_append, List.append_cancel_left_eq, List.map_map] at hboth
    have hne : u.servers ≠ [] := List.ne_nil_of_length_pos (by omega)
    rw [show firstsOf u ps = _ from hboth, hround]
    exact count_round hne hwrap i
  · rcases step_pick ext svc st c with ⟨hnone, hsent, -⟩ |
      ⟨u, client, req, net, mid, -, hpick, hsent, -⟩
    · exact .inl ⟨hnone, hsent⟩
    · exact .inr ⟨u, _, client, req, net, mid, hpick, hsent⟩
  · rw [gauges_run, gauges_run]
    rfl

end Block

namespace Sample

/-- A block that proxies everything to a pool with the weights 2 and 0. -/
def weightedService : HandlerService :=
  .new .sample zeroHash
    { listen := [{ port := 80 }]
      hostHeaderPolicy := .any
      locations := [{ pattern := ['/'], handler := { handlerType := .proxy } }]
      upstreams := [weightedPool] } none false

/-- A request that finds all servers down. -/
def downCall : Call := .h3 (.get []) (.v4 ⟨203, 0, 113, 9⟩) .refusing

end Sample

open Sample

theorem service_fair_weighted :
    let st := (pickMachine .sample weightedService).run (.init weightedService.httpBlock) [downCall]
    ∀ i, (firstsOf weightedPool (picks .sample weightedService st
      [downCall, downCall, downCall])).count i =
        (weightedPool.servers[i]?.map (·.effectiveWeight)).getD 0 := by
  have hround : shareOf weightedPool (picks .sample weightedService
      ((pickMachine .sample weightedService).run (.init weightedService.httpBlock) [downCall])
      [downCall, downCall, downCall]) = weightedPool.totalWeight := by decide +kernel
  have hwrap : shareOf weightedPool (picks .sample weightedService
      (.init weightedService.httpBlock) [downCall]) + weightedPool.totalWeight ≤ UInt64.size := by
    decide +kernel
  have hmem : weightedPool ∈ poolsOf weightedService.httpBlock := by decide +kernel
  have hown : ∀ v ∈ poolsOf weightedService.httpBlock, v.name = weightedPool.name →
      v = weightedPool := by decide +kernel
  exact (service_fair hmem hown rfl (by decide) [downCall] [downCall, downCall, downCall]
    hround hwrap).1

end Flexd
