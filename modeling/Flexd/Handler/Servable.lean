import Flexd.Handler.Dispatch

/-!
# Configurations that can be served

Validation and dispatch each say which fields a handler needs.
`alwaysServed_iff` compares them: for a location of a validated block,
`Servable` is what validation leaves open, and what dispatch relies on.
-/

namespace Flexd

open Lib HandlerService

/-- A refusal that is the configuration's fault. -/
def ConfigFault (r : Except Refusal Response) : Prop :=
  r = .error .unknownHandler ∨ r = .error .missingRoot ∨ r = .error .missingTarget

/-- No request and no history makes dispatch fail for lack of configuration, and every selected
pool has a server to try. -/
def AlwaysServed (ext : External) (block : HttpBlock) (handler : Handler) (path : Text) : Prop :=
  (∀ hash acmeStore isTls req client world st,
    ¬ ConfigFault ((HandlerService.new ext hash block acmeStore isTls).dispatch ext handler path req
      client world st).result) ∧
  (handler.handlerType.isProxy = true →
    ∀ hash sessions, (selectMachine hash block).Reach (SelectCall.Valid block) ∅ sessions →
    ∀ client u, (selectUpstream hash block handler client sessions).1 = .ok u →
      u.servers ≠ [] ∧ ∀ pools, (Balancer.candidates hash pools u client).1 ≠ [])

/-- A handler has what its type needs: a known type, a root, a target, and servers in its inline
pool or in the pool of every group that its split can answer. -/
def Servable (block : HttpBlock) (handler : Handler) : Prop :=
  match handler.handlerType with
  | .static => handler.root.isSome ∨ block.root.isSome
  | .redirect => handler.target.isSome
  | .return | .deny => True
  | .unknown _ => False
  | .proxy | .reverseProxy =>
    match handler.abSplit with
    | none => ∀ u, handler.upstream = some u → u.servers ≠ []
    | some s => ∀ name, Offered block.abSplits (usedSplits block) s name →
        ∀ u, groupUpstream block s name = some u → u.servers ≠ []

variable {ext : External} {env : HostEnv} {block : HttpBlock} {handler : Handler}

/-- A selected location is one of the table. -/
theorem mem_of_findLocationFrom {path : Text} {cs : List CompiledLocation}
    {best : Option CompiledLocation} {n : Nat} {c : CompiledLocation}
    (h : findLocationFrom path cs best n = some c) : c ∈ cs ∨ best = some c := by
  induction cs generalizing best n with
  | nil => exact .inr h
  | cons d cs ih =>
    have hrest : ∀ {best' n'}, findLocationFrom path cs best' n' = some c →
        (best' = best ∨ best' = some d) → c ∈ d :: cs ∨ best = some c := by
      intro best' n' hf hb
      rcases ih hf with hc | hc
      · exact .inl (List.mem_cons_of_mem _ hc)
      · rcases hb with rfl | rfl
        · exact .inr hc
        · cases hc
          exact .inl List.mem_cons_self
    simp only [findLocationFrom] at h
    split at h
    · split at h
      · cases h; exact .inl List.mem_cons_self
      · exact hrest h (.inl rfl)
    · split at h
      · exact hrest h (.inr rfl)
      · exact hrest h (.inl rfl)
    · split at h
      · split at h
        · cases h; exact .inl List.mem_cons_self
        · exact hrest h (.inl rfl)
      · exact hrest h (.inl rfl)
    · exact hrest h (.inl rfl)

theorem location_of_findLocation {path : Text} {c : CompiledLocation}
    (h : findLocation (block.locations.map (compileLocation ext)) path = some c) :
    c.location ∈ block.locations := by
  rcases mem_of_findLocationFrom h with hc | hc
  · obtain ⟨l, hl, rfl⟩ := List.mem_map.mp hc
    exact hl
  · cases hc

/-- The proxy loop refuses with a status of its own. -/
theorem failover_not_fault {svc : HandlerService} {u : UpstreamRef} {req : Request}
    {client : IpAddr} {net : Nat → Attempt} {order : List Nat} {last : StatusCode}
    {st : ServiceState} :
    ¬ ConfigFault (svc.failover ext u req client net order last st).result := by
  induction order generalizing last st with
  | nil => simp [failover, ConfigFault]
  | cons idx rest ih =>
    simp only [failover]
    split
    · exact ih
    split
    · exact ih
    split
    · simp [ConfigFault]
    · exact ih
    · simp [ConfigFault]

theorem dispatchProxy_not_fault {svc : HandlerService} {req : Request} {client : IpAddr}
    {net : Nat → Attempt} {st : ServiceState} :
    ¬ ConfigFault (svc.dispatchProxy ext handler req client net st).result := by
  unfold dispatchProxy
  split
  · simp [ConfigFault]
  · exact failover_not_fault

theorem orRefuse_not_fault (r : Except StatusCode Response) : ¬ ConfigFault (orRefuse r) := by
  cases r <;> simp [ConfigFault, orRefuse]

/-- A pool with a server always has a candidate. -/
theorem candidates_ne_nil {hash : Hashers} {u : UpstreamRef} {client : IpAddr}
    (h : u.servers ≠ []) (pools : Pools) : (Balancer.candidates hash pools u client).1 ≠ [] := by
  have h0 : 0 ∈ (Balancer.candidates hash pools u client).1 :=
    mem_candidates.mpr (List.length_pos_iff.mpr h)
  exact List.ne_nil_of_mem h0

/-- Without a split, the pool is the inline one or the first shared one, and validation has seen
servers in one of them. -/
theorem inline_nonempty_iff {loc : Location} (hv : validateBlock ext env block = .ok ())
    (hl : loc ∈ block.locations) (hp : loc.handler.handlerType.isProxy = true)
    (hs : loc.handler.abSplit = none) :
    (∀ hash sessions, (selectMachine hash block).Reach (SelectCall.Valid block) ∅ sessions →
      ∀ client u, (selectUpstream hash block loc.handler client sessions).1 = .ok u →
        u.servers ≠ []) ↔
    ∀ u, loc.handler.upstream = some u → u.servers ≠ [] := by
  constructor
  · intro hall u hu
    refine hall (.const 0) ∅ .refl (.v4 ⟨192, 0, 2, 1⟩) u ?_
    simp [selectUpstream, hs, hu]
  · intro hinline hash sessions _ client u hsel
    have hdef := validateBlock_location hv hl hp
    unfold selectUpstream at hsel
    cases hu : loc.handler.upstream with
    | some u' =>
      simp only [hs, hu, Option.some_or] at hsel
      cases hsel
      exact hinline u hu
    | none =>
      simp only [hs, hu, Option.none_or] at hdef hsel
      rcases hdef with ⟨u', hu', -⟩ | ⟨u', hu', hne⟩
      · cases hu'
      · rw [hu'] at hsel
        cases hsel
        exact hne

/-- **The pools of a proxy location**, over every run. -/
theorem pools_nonempty_iff {loc : Location} (hv : validateBlock ext env block = .ok ())
    (hl : loc ∈ block.locations) (hp : loc.handler.handlerType.isProxy = true) :
    (∀ hash sessions, (selectMachine hash block).Reach (SelectCall.Valid block) ∅ sessions →
      ∀ client u, (selectUpstream hash block loc.handler client sessions).1 = .ok u →
        u.servers ≠ []) ↔
    match loc.handler.abSplit with
    | none => ∀ u, loc.handler.upstream = some u → u.servers ≠ []
    | some s => ∀ name, Offered block.abSplits (usedSplits block) s name →
        ∀ u, groupUpstream block s name = some u → u.servers ≠ [] := by
  cases hs : loc.handler.abSplit with
  | none => exact inline_nonempty_iff hv hl hp hs
  | some s =>
    rw [forall_selected_iff hv hl hp hs fun r => ∀ u, r = .ok u → u.servers ≠ []]
    refine forall_congr' fun name => imp_congr_right fun _ => ?_
    cases groupUpstream block s name <;> simp

/-- What dispatch needs of a handler, apart from servers. -/
def Configured (block : HttpBlock) (handler : Handler) : Prop :=
  match handler.handlerType with
  | .static => handler.root.isSome ∨ block.root.isSome
  | .redirect => handler.target.isSome
  | .unknown _ => False
  | _ => True

/-- **One dispatch** fails for lack of configuration exactly when the handler is not configured. -/
theorem dispatch_fault_iff {svc : HandlerService} {path : Text} {req : Request} {client : IpAddr}
    {world : World} {st : ServiceState} :
    ConfigFault (svc.dispatch ext handler path req client world st).result ↔
      ¬ Configured svc.httpBlock handler := by
  unfold dispatch Configured
  cases ht : handler.handlerType with
  | static =>
    simp only [staticRoot]
    cases handler.root with
    | some root => simpa [serveStatic] using orRefuse_not_fault _
    | none =>
      cases svc.httpBlock.root with
      | some root => simpa [serveStatic] using orRefuse_not_fault _
      | none => simp [ConfigFault]
  | redirect =>
    cases handler.target with
    | some target => simpa using orRefuse_not_fault _
    | none => simp [ConfigFault]
  | unknown name => simp [ConfigFault]
  | proxy => simpa using dispatchProxy_not_fault
  | reverseProxy => simpa using dispatchProxy_not_fault
  | «return» => simp [ConfigFault]
  | deny => simp [ConfigFault]

theorem dispatch_not_fault_iff {path : Text} :
    (∀ hash acmeStore isTls req client world st,
      ¬ ConfigFault ((HandlerService.new ext hash block acmeStore isTls).dispatch ext handler path
        req client world st).result) ↔ Configured block handler := by
  constructor
  · intro hall
    by_contra hn
    exact hall (.const 0) none false (.get []) (.v4 ⟨192, 0, 2, 1⟩) .refusing (.init block)
      (dispatch_fault_iff.mpr hn)
  · intro hc hash acmeStore isTls req client world st hf
    exact dispatch_fault_iff.mp hf hc

/-- **A location of a validated block is always served exactly when it is servable.** -/
theorem alwaysServed_iff {config : Config} (h : config.validate ext env = .ok ())
    (hb : block ∈ config.http) {path : Text} {c : CompiledLocation}
    (hc : findLocation (block.locations.map (compileLocation ext)) path = some c) :
    AlwaysServed ext block c.location.handler path ↔ Servable block c.location.handler := by
  have hv := validateBlock_of_validate h hb
  have hl := location_of_findLocation hc
  have hpool : (∀ hash sessions,
      (selectMachine hash block).Reach (SelectCall.Valid block) ∅ sessions →
      ∀ client u, (selectUpstream hash block c.location.handler client sessions).1 = .ok u →
        u.servers ≠ [] ∧ ∀ pools, (Balancer.candidates hash pools u client).1 ≠ []) ↔
      ∀ hash sessions, (selectMachine hash block).Reach (SelectCall.Valid block) ∅ sessions →
      ∀ client u, (selectUpstream hash block c.location.handler client sessions).1 = .ok u →
        u.servers ≠ [] := by
    refine ⟨fun hall hash sessions hr client u hu => (hall hash sessions hr client u hu).1,
      fun hall hash sessions hr client u hu => ?_⟩
    have hne := hall hash sessions hr client u hu
    exact ⟨hne, candidates_ne_nil hne⟩
  unfold AlwaysServed
  rw [dispatch_not_fault_iff, hpool]
  unfold Configured Servable
  by_cases hp : c.location.handler.handlerType.isProxy = true
  · rw [pools_nonempty_iff hv hl hp]
    cases ht : c.location.handler.handlerType <;> simp_all [HandlerType.isProxy]
  · cases ht : c.location.handler.handlerType <;> simp_all [HandlerType.isProxy]

namespace Sample

/-- A block with one handler, for every path. -/
def oneHandlerBlock (handler : Handler) : HttpBlock where
  listen := [{ port := 80 }]
  locations := [{ pattern := ['/'], handler := handler }]

end Sample

open Sample

theorem alwaysServed_iff_return :
    Config.validate .sample .bare { http := [oneHandlerBlock { handlerType := .return }] } =
      .ok () ∧
    (AlwaysServed .sample (oneHandlerBlock { handlerType := .return }) { handlerType := .return }
        "/x".toList ↔
      Servable (oneHandlerBlock { handlerType := .return }) { handlerType := .return }) := by
  have hv : Config.validate .sample .bare
      { http := [oneHandlerBlock { handlerType := .return }] } = .ok () := by decide
  have hf : findLocation ((oneHandlerBlock { handlerType := .return }).locations.map
      (compileLocation .sample)) "/x".toList =
      some (compileLocation .sample
        { pattern := ['/'], handler := { handlerType := .return } }) := rfl
  exact ⟨hv, alwaysServed_iff hv (List.mem_singleton.mpr rfl) hf⟩

/-- Validation passes a handler type that dispatch does not know. -/
theorem validated_not_served :
    ¬ ∀ (config : Config) (block : HttpBlock) (path : Text) (c : CompiledLocation),
      config.validate .sample .bare = .ok () → block ∈ config.http →
      findLocation (block.locations.map (compileLocation .sample)) path = some c →
      AlwaysServed .sample block c.location.handler path := by
  intro h
  obtain ⟨hserved, -⟩ := h
    { http := [oneHandlerBlock { handlerType := .unknown "fastcgi".toList }] } _ ['/'] _
    (by decide) (List.mem_singleton.mpr rfl) rfl
  exact hserved (.const 0) none false (.get []) (.v4 ⟨192, 0, 2, 1⟩) .refusing
    (.init (oneHandlerBlock { handlerType := .unknown "fastcgi".toList })) (.inl rfl)

end Flexd
