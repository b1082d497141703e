import Flexd.Config.LoadFilter
import Flexd.Handler.Entry

/-!
# Where proxied connections go

Three parsers look at a server address: `splitHostPort` in the filter, the
URI parser of the client, and the resolver. The filter passes what it does
not read as an IP literal, and the client connects straight to what it does
read as one. `dispatchProxy_contained_iff` says that this is the only gap: in
every reachable state a proxied request stays inside the allowlist exactly
when no address of its sweep is a denied literal to the client alone.
-/

namespace Flexd

open Lib

/-- The host the client reads out of an address and a request target. -/
def uriHost (addr : Text) (uri : Uri) : Text := (readUpstreamUri (addr ++ targetText uri)).host

namespace HandlerService

variable (ext : External) (svc : HandlerService)

/-- The addresses tried when every server refuses the connection: the ones the filter accepts, up
to the first for which no request can be built. -/
def tried (u : UpstreamRef) (req : Request) (client : IpAddr) : List Nat → List Text
  | [] => []
  | idx :: rest =>
    match u.servers[idx]? with
    | none => tried u req client rest
    | some server =>
      match isUpstreamAllowed ext server.address svc.httpBlock.upstreamAllowedNetworks with
      | .error _ => tried u req client rest
      | .ok () =>
        match svc.proxy.buildRequest ext server.address req client svc.scheme with
        | .error _ => []
        | .ok _ => server.address :: tried u req client rest

/-- The addresses a proxied request can be sent to, in the balancer's order. -/
def sweep (handler : Handler) (req : Request) (client : IpAddr) (st : ServiceState) : List Text :=
  match (selectUpstream svc.hash svc.httpBlock handler client st.sessions).1 with
  | .error _ => []
  | .ok u => svc.tried ext u req client (Balancer.candidates svc.hash st.pools u client).1

end HandlerService

/-! ## One forward -/

section Forward

variable {p : ProxyClient} {ext : External} {addr : Text} {req : Request} {client : IpAddr}
  {scheme : Text} {cache : Cache} {att : Attempt}

theorem uri_of_buildRequest {m : UpstreamRequest}
    (h : p.buildRequest ext addr req client scheme = .ok m) :
    m.uri = readUpstreamUri (addr ++ targetText req.uri) := by
  have hu := (buildRequest_ok h).1
  unfold upstreamUri at hu
  split at hu
  · injection hu with hu
    exact hu.symm
  · cases hu

/-- The connector's addresses are vetted, unless the host is a denied literal. -/
theorem connectorAddrs_vetted (hc : CacheVetted p.resolver.allowed cache) (uri : UpstreamUri)
    (l : Lookup) :
    CacheVetted p.resolver.allowed (p.connectorAddrs cache uri l).2 ∧
      (¬ Denied p.resolver.allowed uri.host → ∀ addrs,
        (p.connectorAddrs cache uri l).1 = .ok addrs →
        ∀ sa ∈ addrs, ipAllowed sa.ip p.resolver.allowed = true) := by
  unfold ProxyClient.connectorAddrs
  split
  · next ip hip =>
    refine ⟨hc, fun hd addrs ha sa hsa => ?_⟩
    cases ha
    rw [List.mem_singleton.mp hsa]
    by_contra hf
    exact hd ⟨ip, hip, by simpa using hf⟩
  · have hcache := hc.resolveChecked uri.host l
    split
    · next addrs cache' heq =>
      rw [heq] at hcache
      refine ⟨hcache, fun _ addrs' ha sa hsa => ?_⟩
      cases ha
      obtain ⟨sa', hsa', rfl⟩ := List.mem_map.mp hsa
      exact resolveChecked_allowed hc (by rw [heq]) sa' hsa'
    · next heq =>
      rw [heq] at hcache
      exact ⟨hcache, fun _ addrs ha => by cases ha⟩

/-- **One forward** keeps the cache vetted and, unless the host is a denied literal, connects to
allowed addresses alone. -/
theorem forward_vetted (hc : CacheVetted p.resolver.allowed cache) (ext : External) (addr : Text)
    (req : Request) (client : IpAddr) (scheme : Text) (att : Attempt) :
    CacheVetted p.resolver.allowed (p.forward ext addr req client scheme cache att).cache ∧
      (¬ Denied p.resolver.allowed (uriHost addr req.uri) →
        ∀ sa ∈ (p.forward ext addr req client scheme cache att).conns,
          ipAllowed sa.ip p.resolver.allowed = true) := by
  unfold ProxyClient.forward
  cases hm : p.buildRequest ext addr req client scheme with
  | error s => exact ⟨hc, fun _ sa hsa => by cases hsa⟩
  | ok m =>
    have huri := uri_of_buildRequest hm
    obtain ⟨hcache, hconn⟩ := connectorAddrs_vetted hc m.uri att.lookup
    simp only [ProxyClient.send]
    split
    · exact ⟨hc, fun _ sa hsa => by cases hsa⟩
    split
    · next addrs cache' heq =>
      rw [heq] at hcache hconn
      refine ⟨hcache, fun hd sa hsa => ?_⟩
      obtain ⟨i, -, hi⟩ := List.mem_filterMap.mp hsa
      exact hconn (by rw [huri]; exact hd) addrs rfl sa (List.mem_of_getElem? hi)
    · next heq =>
      rw [heq] at hcache
      exact ⟨hcache, fun _ sa hsa => by cases hsa⟩

/-- A refused forward is a connect failure, and has tried the literal the client reads. -/
theorem forward_refused {m : UpstreamRequest}
    (hm : p.buildRequest ext addr req client scheme = .ok m) (cache : Cache) :
    (p.forward ext addr req client scheme cache .refused).result = .error .connect ∧
      ∀ ip, parseIp (uriHost addr req.uri) = some ip →
        ∃ sa ∈ (p.forward ext addr req client scheme cache .refused).conns, sa.ip = ip := by
  have huri := uri_of_buildRequest hm
  have hhost : m.uri.host = uriHost addr req.uri := by rw [huri]; rfl
  unfold ProxyClient.forward
  rw [hm]
  simp only [ProxyClient.send, Attempt.refused, Bool.false_eq_true, if_false]
  constructor
  · split <;> rfl
  · intro ip hip
    rw [← hhost] at hip
    simp [ProxyClient.connectorAddrs, hip]

end Forward

/-! ## The sweep -/

section Sweep

variable {ext : External} {svc : HandlerService} {u : UpstreamRef} {req : Request}
  {client : IpAddr}

/-- Every address tried has passed the filter. -/
theorem accepted_of_tried {order : List Nat} {addr : Text}
    (h : addr ∈ svc.tried ext u req client order) :
    isUpstreamAllowed ext addr svc.httpBlock.upstreamAllowedNetworks = .ok () := by
  induction order with
  | nil => cases h
  | cons idx rest ih =>
    simp only [HandlerService.tried] at h
    split at h
    · exact ih h
    split at h
    · exact ih h
    · next hok =>
      split at h
      · cases h
      · rcases List.mem_cons.mp h with rfl | h
        · exact hok
        · exact ih h

/-- **The whole sweep** keeps the cache vetted and, if no address tried is a denied literal to the
client, connects to allowed addresses alone. -/
theorem failover_vetted {order : List Nat} {net : Nat → Attempt} (last : StatusCode)
    (st : ServiceState) (hc : CacheVetted svc.proxy.resolver.allowed st.cache) :
    CacheVetted svc.proxy.resolver.allowed
        (svc.failover ext u req client net order last st).state.cache ∧
      ((∀ addr ∈ svc.tried ext u req client order,
        ¬ Denied svc.proxy.resolver.allowed (uriHost addr req.uri)) →
      ∀ sa ∈ (svc.failover ext u req client net order last st).conns,
        ipAllowed sa.ip svc.proxy.resolver.allowed = true) := by
  induction order generalizing last st with
  | nil => exact ⟨hc, fun _ sa hsa => by cases hsa⟩
  | cons idx rest ih =>
    cases hs : u.servers[idx]? with
    | none =>
      simp only [HandlerService.failover, HandlerService.tried, hs]
      exact ih _ _ hc
    | some server =>
      cases hok : isUpstreamAllowed ext server.address svc.httpBlock.upstreamAllowedNetworks with
      | error e =>
        simp only [HandlerService.failover, HandlerService.tried, hs, hok]
        exact ih _ _ hc
      | ok _ =>
        obtain ⟨hcache, hconn⟩ := forward_vetted hc ext server.address req client svc.scheme
          (net idx)
        simp only [HandlerService.failover, HandlerService.tried, hs, hok]
        cases hm : svc.proxy.buildRequest ext server.address req client svc.scheme with
        | error s =>
          simp only [ProxyClient.forward, hm]
          exact ⟨hc, fun _ sa hsa => by cases hsa⟩
        | ok m =>
          simp only [List.mem_cons, forall_eq_or_imp]
          split
          · exact ⟨hcache, fun hd => hconn hd.1⟩
          · obtain ⟨ihc, ihconn⟩ := ih .badGateway { st with
              cache := (svc.proxy.forward ext server.address req client svc.scheme st.cache
                (net idx)).cache
              pools := Balancer.release (Balancer.track st.pools u idx) u idx } hcache
            refine ⟨ihc, fun hd sa hsa => ?_⟩
            rcases List.mem_append.mp hsa with hsa | hsa
            · exact hconn hd.1 sa hsa
            · exact ihconn hd.2 sa hsa
          · exact ⟨hcache, fun hd => hconn hd.1⟩

/-- When every server refuses, the sweep connects to every literal the client reads in an address
tried. -/
theorem failover_refused {order : List Nat} (last : StatusCode) (st : ServiceState)
    {addr : Text} {ip : IpAddr} (ha : addr ∈ svc.tried ext u req client order)
    (hip : parseIp (uriHost addr req.uri) = some ip) :
    ∃ sa ∈ (svc.failover ext u req client (fun _ => .refused) order last st).conns, sa.ip = ip := by
  induction order generalizing last st with
  | nil => cases ha
  | cons idx rest ih =>
    cases hs : u.servers[idx]? with
    | none =>
      simp only [HandlerService.failover, HandlerService.tried, hs] at ha ⊢
      exact ih _ _ ha
    | some server =>
      cases hok : isUpstreamAllowed ext server.address svc.httpBlock.upstreamAllowedNetworks with
      | error e =>
        simp only [HandlerService.failover, HandlerService.tried, hs, hok] at ha ⊢
        exact ih _ _ ha
      | ok _ =>
        simp only [HandlerService.failover, HandlerService.tried, hs, hok] at ha ⊢
        cases hm : svc.proxy.buildRequest ext server.address req client svc.scheme with
        | error s =>
          rw [hm] at ha
          cases ha
        | ok m =>
          rw [hm] at ha
          obtain ⟨hres, hconn⟩ := forward_refused hm st.cache
          simp only [hres, List.mem_append]
          rcases List.mem_cons.mp ha with rfl | ha
          · obtain ⟨sa, hsa, he⟩ := hconn ip hip
            exact ⟨sa, .inl hsa, he⟩
          · obtain ⟨sa, hsa, he⟩ := ih .badGateway _ ha
            exact ⟨sa, .inr hsa, he⟩

end Sweep

/-! ## Whole runs -/

section Runs

variable {ext : External} {svc : HandlerService} {req : Request} {client : IpAddr}
  {st : ServiceState}

/-- The cache of a state is vetted under the allowlist of the service. -/
def Vetted (svc : HandlerService) (st : ServiceState) : Prop :=
  CacheVetted svc.proxy.resolver.allowed st.cache

theorem Vetted.dispatchProxy (h : Vetted svc st) (handler : Handler) (net : Nat → Attempt) :
    Vetted svc (svc.dispatchProxy ext handler req client net st).state := by
  unfold HandlerService.dispatchProxy
  split
  · exact h
  · next u sessions _ => exact (failover_vetted _ ⟨st.cache, _, sessions⟩ h).1

theorem Vetted.route (h : Vetted svc st) (path : Text) (world : World) :
    Vetted svc (svc.route ext path req client world st).state := by
  unfold HandlerService.route
  split
  · unfold HandlerService.dispatch
    split
    · split <;> exact h
    · exact h.dispatchProxy _ _
    · exact h.dispatchProxy _ _
    · exact h
    · split <;> exact h
    · exact h
    · exact h
  · split <;> exact h

theorem Vetted.process (h : Vetted svc st) (world : World) :
    Vetted svc (svc.process ext req client world st).state := by
  unfold HandlerService.process
  split
  · exact h
  · exact h
  · exact h.route _ _

theorem Vetted.handleConnect (h : Vetted svc st) (uri : Uri) (world : World) :
    Vetted svc (svc.handleConnect ext uri world st).2.1 := by
  unfold HandlerService.handleConnect
  split
  · exact h
  split
  · exact h
  split
  · exact h
  split
  · exact h
  · next host port _ _ =>
    have hv : CacheVetted svc.proxy.resolver.allowed
        (svc.vetConnect ext host port world.connectLookup st.cache).2 := by
      have hr := CacheVetted.resolveChecked h host world.connectLookup
      unfold HandlerService.vetConnect
      split
      · split <;> exact h
      · split
        · next heq => rw [heq] at hr; exact hr
        · next heq => rw [heq] at hr; exact hr
    split
    · next heq => rw [heq] at hv; exact hv
    · next heq => rw [heq] at hv; exact hv

/-- **One call** of either entry point keeps the cache vetted. -/
theorem Vetted.step (h : Vetted svc st) (c : Call) :
    Vetted svc ((serviceMachine ext svc).step st c).1 := by
  cases c with
  | http req client world =>
    show Vetted svc (svc.handle ext req client world st).state
    unfold HandlerService.handle
    split
    · exact h
    split
    · exact h.handleConnect _ _
    split
    · exact h
    split
    · exact h
    · exact h.process _
  | h3 req client world =>
    show Vetted svc (svc.handleH3 ext req client world st).state
    unfold HandlerService.handleH3
    split
    · exact h
    · exact h.process _

theorem Reachable.vetted (h : Reachable ext svc st) : Vetted svc st :=
  h.inv (cacheVetted_empty _) fun _ c hv _ => hv.step c

end Runs

/-- **In every reachable state, a proxied request connects to allowed addresses alone, whatever
the network does, exactly when every address of its sweep that is a denied literal to the client
is one to the filter.** -/
theorem dispatchProxy_contained_iff {ext : External} {hash : Hashers} {block : HttpBlock}
    {acmeStore : Option (Text → Option Text)} {isTls : Bool} {st : ServiceState}
    (hr : Reachable ext (.new ext hash block acmeStore isTls) st) (handler : Handler)
    (req : Request) (client : IpAddr) :
    (∀ net, ∀ sa ∈ ((HandlerService.new ext hash block acmeStore isTls).dispatchProxy ext handler
        req client net st).conns,
      ipAllowed sa.ip (parseNetworks ext block.upstreamAllowedNetworks) = true) ↔
    ∀ addr ∈ (HandlerService.new ext hash block acmeStore isTls).sweep ext handler req client st,
      Denied (parseNetworks ext block.upstreamAllowedNetworks) (uriHost addr req.uri) →
      Denied (parseNetworks ext block.upstreamAllowedNetworks) (splitHostPort addr).1 := by
  have hv := hr.vetted
  simp only [HandlerService.dispatchProxy, HandlerService.sweep]
  cases hsel : selectUpstream (HandlerService.new ext hash block acmeStore isTls).hash
      (HandlerService.new ext hash block acmeStore isTls).httpBlock handler client st.sessions with
  | mk result sessions =>
    cases result with
    | error s => simp
    | ok u =>
      simp only
      constructor
      · rintro hall addr ha ⟨ip, hip, hdeny⟩
        obtain ⟨sa, hsa, rfl⟩ := failover_refused .badGateway ⟨st.cache, _, sessions⟩ ha hip
        have := hall (fun _ => .refused) sa hsa
        rw [hdeny] at this
        cases this
      · intro hcond net sa hsa
        refine (failover_vetted _ ⟨st.cache, _, sessions⟩ hv).2 ?_ sa hsa
        intro addr ha hd
        exact (isUpstreamAllowed_iff ext).mp (accepted_of_tried ha) (hcond addr ha hd)

namespace Sample

/-- The plain HTTP service of a block. -/
def service (block : HttpBlock) : HandlerService := .new .sample (.const 0) block none false

def proxyHandler : Handler := { handlerType := .proxy }

end Sample

open Sample

theorem dispatchProxy_contained_iff_named :
    Reachable .sample (service (sharedPoolBlock "app:8080".toList))
        (.init (sharedPoolBlock "app:8080".toList)) ∧
    ((∀ net, ∀ sa ∈ ((service (sharedPoolBlock "app:8080".toList)).dispatchProxy .sample
        proxyHandler (.get []) (.v4 ⟨192, 0, 2, 1⟩) net
        (.init (sharedPoolBlock "app:8080".toList))).conns,
      ipAllowed sa.ip (parseNetworks .sample none) = true) ↔
    ∀ addr ∈ (service (sharedPoolBlock "app:8080".toList)).sweep .sample proxyHandler (.get [])
        (.v4 ⟨192, 0, 2, 1⟩) (.init (sharedPoolBlock "app:8080".toList)),
      Denied (parseNetworks .sample none) (uriHost addr (Request.get []).uri) →
      Denied (parseNetworks .sample none) (splitHostPort addr).1) := by
  have hr : Reachable .sample (service (sharedPoolBlock "app:8080".toList))
      (.init (sharedPoolBlock "app:8080".toList)) := .refl
  exact ⟨hr, dispatchProxy_contained_iff hr _ _ _⟩

/-- A trailing slash hides the loopback address from the filter, not from the client. -/
theorem dispatchProxy_reaches_loopback :
    ¬ ∀ (config : Config) (block : HttpBlock), config.validate .sample .bare = .ok () →
      block ∈ config.http → ∀ st, Reachable .sample (service block) st →
      ∀ loc ∈ block.locations, ∀ (req : Request) (client : IpAddr) (net : Nat → Attempt),
      ∀ sa ∈ ((service block).dispatchProxy .sample loc.handler req client net st).conns,
        ipAllowed sa.ip (parseNetworks .sample block.upstreamAllowedNetworks) = true := by
  intro h
  have := h { http := [sharedPoolBlock "127.0.0.1/".toList] } (sharedPoolBlock "127.0.0.1/".toList)
    (by decide) (by simp) _ .refl _ (List.mem_singleton.mpr rfl) (.get []) (.v4 ⟨192, 0, 2, 1⟩)
    (fun _ => .refused) ⟨.v4 ⟨127, 0, 0, 1⟩, 80⟩
  revert this
  decide

end Flexd
