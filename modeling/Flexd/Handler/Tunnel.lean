import Flexd.Handler.Entry
import Flexd.Resolver.Concurrent

/-!
# Where CONNECT tunnels lead

`TunnelTo` collects what the source asks of a tunnel's target, from the
block's switch to the vetting of the address; the answer set in use for a
host is the cached one while it lasts, else the one just looked up.
`handleConnect_vetted` holds the connections of `handleConnect` against it,
with the cache as any interleaving of resolutions left it.
-/

namespace Flexd

open Lib HandlerService

section

variable (ext : External) (svc : HandlerService) (tr : List PinningResolver.Event) (cache : Cache)
  (l : Lookup)

/-- The answer set for a host that the resolver uses: one looked up earlier and still cached, or
the fresh one. -/
def AnswerInUse (host : Text) (addrs : List SocketAddr) : Prop :=
  ((PinningResolver.cached cache host l.lookupAt).1 = some addrs ∧
    .answered host (some addrs) ∈ tr) ∨
  ((PinningResolver.cached cache host l.lookupAt).1 = none ∧ l.answer = some addrs)

/-- The address is the host itself, or in an accepted answer set for it. -/
def AddressOf (nets : List IpNetwork) (host : Text) (ip : IpAddr) : Prop :=
  parseIp host = some ip ∨
    (parseIp host = none ∧ ∃ addrs, AnswerInUse tr cache l host addrs ∧
      (∀ sa ∈ addrs, ipAllowed sa.ip nets = true) ∧ ∃ sa ∈ addrs, sa.ip = ip)

/-- All that is asked of a tunnel to `sa`. -/
structure TunnelTo (uri : Uri) (sa : SocketAddr) : Prop where
  allowConnect : svc.httpBlock.allowConnect = true
  target : ∃ authority host, uri.authority = some authority ∧
    splitHostPort authority.text = (host, some sa.port) ∧
    svc.connectTargetPermitted host sa.port authority.text = true ∧
    ipAllowed sa.ip (parseNetworks ext svc.httpBlock.upstreamAllowedNetworks) = true ∧
    AddressOf tr cache l (parseNetworks ext svc.httpBlock.upstreamAllowedNetworks) host sa.ip

end

/-! ## The connection loop -/

theorem attempts_subset (connects : Nat → Bool) (addrs : List SocketAddr) :
    ∀ sa ∈ (attempts connects addrs).1, sa ∈ addrs := by
  induction addrs generalizing connects with
  | nil => simp [attempts]
  | cons a as ih =>
    intro sa hsa
    unfold attempts at hsa
    split at hsa
    · rw [List.mem_singleton.mp hsa]
      exact List.mem_cons_self
    · rcases List.mem_cons.mp hsa with rfl | hsa
      · exact List.mem_cons_self
      · exact List.mem_cons_of_mem _ (ih _ sa hsa)

/-- A stream comes from the last attempt. -/
theorem attempts_upstream {connects : Nat → Bool} {addrs : List SocketAddr}
    (h : (attempts connects addrs).2 = true) :
    ∃ n, (attempts connects addrs).1.length = n + 1 ∧ connects n = true := by
  induction addrs generalizing connects with
  | nil => cases h
  | cons a as ih =>
    unfold attempts at h ⊢
    split at h
    · next h0 =>
      rw [if_pos h0]
      exact ⟨0, rfl, h0⟩
    · next h0 =>
      rw [if_neg h0]
      obtain ⟨n, hn, hc⟩ := ih h
      exact ⟨n + 1, by simp [hn], hc⟩

/-! ## Vetting -/

variable {ext : External}

/-- The resolver's answers come from the history or from the lookup at hand. -/
theorem resolveChecked_inUse (r : PinningResolver) (is : List PinningResolver.Input)
    (host : Text) (l : Lookup) :
    match (r.resolveChecked (r.machine.run .init is).cache host l).1 with
    | .ok addrs => addrs ≠ [] ∧ (∀ sa ∈ addrs, ipAllowed sa.ip r.allowed = true) ∧
        AnswerInUse (r.machine.outputs .init is) (r.machine.run .init is).cache l host addrs
    | .error _ => ∀ addrs,
        AnswerInUse (r.machine.outputs .init is) (r.machine.run .init is).cache l host addrs →
        addrs ≠ [] → ¬ ∀ sa ∈ addrs, ipAllowed sa.ip r.allowed = true := by
  have hinv := r.cacheInv_run is
  generalize r.machine.run .init is = s at hinv ⊢
  generalize r.machine.outputs .init is = tr at hinv ⊢
  rw [PinningResolver.resolveChecked_eq]
  cases hc : PinningResolver.cached s.cache host l.lookupAt with
  | mk o cache =>
  cases o with
  | some addrs =>
    obtain ⟨-, entry, hl, rfl, -⟩ := PinningResolver.cached_eq_some hc
    have hv := hinv.entry host entry hl
    exact ⟨hv.nonempty, hv.allowed, .inl ⟨congrArg Prod.fst hc, hv.answered⟩⟩
  | none =>
    have hnone := congrArg Prod.fst hc
    cases hv : r.vet l.answer with
    | ok addrs =>
      obtain ⟨ha, hne, hall⟩ := PinningResolver.vet_eq_ok hv
      exact ⟨hne, hall, .inr ⟨hnone, ha⟩⟩
    | error e =>
      simp only
      intro addrs hu hne hall
      rcases hu with ⟨hsome, -⟩ | ⟨-, ha⟩
      · rw [hnone] at hsome
        cases hsome
      · rw [ha, PinningResolver.vet_eq_of_allowed hne hall] at hv
        cases hv

section

variable {svc : HandlerService} {nets : List IpNetwork} {is : List PinningResolver.Input}
  {host : Text} {port : UInt16} {l : Lookup}

/-- What vetting lets through is an address of the host. -/
theorem vetConnect_some
    (hnets : parseNetworks ext svc.httpBlock.upstreamAllowedNetworks = nets)
    (hr : svc.proxy.resolver.allowed = nets) {vetted : List SocketAddr}
    (h : (svc.vetConnect ext host port l (svc.proxy.resolver.machine.run .init is).cache).1 =
      some vetted) :
    vetted ≠ [] ∧ ∀ sa ∈ vetted, sa.port = port ∧ ipAllowed sa.ip nets = true ∧
      AddressOf (svc.proxy.resolver.machine.outputs .init is)
        (svc.proxy.resolver.machine.run .init is).cache l nets host sa.ip := by
  unfold vetConnect at h
  rw [hnets] at h
  split at h
  · next ip hip =>
    split at h
    · next ha =>
      cases h
      refine ⟨by simp, fun sa hsa => ?_⟩
      obtain rfl := List.mem_singleton.mp hsa
      exact ⟨rfl, ha, .inl hip⟩
    · cases h
  · next hip =>
    have huse := resolveChecked_inUse svc.proxy.resolver is host l
    split at h
    · next addrs cache heq =>
      cases h
      rw [heq, hr] at huse
      obtain ⟨hne, hall, hu⟩ := huse
      refine ⟨by simpa using hne, fun sa hsa => ?_⟩
      obtain ⟨a, ha, rfl⟩ := List.mem_map.mp hsa
      exact ⟨rfl, hall a ha, .inr ⟨hip, addrs, hu, hall, a, ha, rfl⟩⟩
    · cases h

/-- Where vetting refuses, no allowed address is one of the host. -/
theorem vetConnect_none
    (hnets : parseNetworks ext svc.httpBlock.upstreamAllowedNetworks = nets)
    (hr : svc.proxy.resolver.allowed = nets)
    (h : (svc.vetConnect ext host port l (svc.proxy.resolver.machine.run .init is).cache).1 =
      none) {ip : IpAddr} (ha : ipAllowed ip nets = true) :
    ¬ AddressOf (svc.proxy.resolver.machine.outputs .init is)
      (svc.proxy.resolver.machine.run .init is).cache l nets host ip := by
  unfold vetConnect at h
  rw [hnets] at h
  rintro (hip | ⟨hip, addrs, hu, hall, a, hmem, rfl⟩)
  · simp only [hip, ha, if_true] at h
    cases h
  · have huse := resolveChecked_inUse svc.proxy.resolver is host l
    simp only [hip] at h
    split at h
    · cases h
    · next heq =>
      rw [heq, hr] at huse
      exact huse addrs hu (List.ne_nil_of_mem hmem) hall

end

/-- The statuses a tunnel is refused with. -/
def connectRefusals : List StatusCode := [.badRequest, .forbidden, .methodNotAllowed]

/-- A CONNECT request passes the checks before its target is vetted. -/
structure AsksFor (svc : HandlerService) (uri : Uri) (authority : Authority) (host : Text)
    (port : UInt16) : Prop where
  allowConnect : svc.httpBlock.allowConnect = true
  authority_eq : uri.authority = some authority
  split : splitHostPort authority.text = (host, some port)
  permitted : svc.connectTargetPermitted host port authority.text = true

section

variable {svc : HandlerService} {uri : Uri} {world : World} {st : ServiceState}

/-- A request that fails a check is refused. -/
theorem handleConnect_refused (h : ∀ authority host port, ¬ AsksFor svc uri authority host port) :
    (svc.handleConnect ext uri world st).1.status ∈ connectRefusals ∧
      (svc.handleConnect ext uri world st).2.2 = [] := by
  unfold handleConnect
  split
  · exact ⟨by rw [simpleResponse_status]; decide, rfl⟩
  next hallow =>
  split
  · exact ⟨by rw [simpleResponse_status]; decide, rfl⟩
  next authority hauth =>
  split
  · exact ⟨by rw [simpleResponse_status]; decide, rfl⟩
  next host port hsplit =>
  split
  · exact ⟨by rw [simpleResponse_status]; decide, rfl⟩
  next hperm =>
  simp only [Bool.not_eq_true, Bool.not_eq_false'] at hallow hperm
  exact absurd ⟨hallow, hauth, hsplit, hperm⟩ (h authority host port)

/-- A request that passes goes on to the addresses that vetting lets through. -/
theorem handleConnect_of_asksFor (ext : External) (world : World) (st : ServiceState)
    {authority : Authority} {host : Text} {port : UInt16}
    (h : AsksFor svc uri authority host port) :
    match (svc.vetConnect ext host port world.connectLookup st.cache).1 with
    | none => (svc.handleConnect ext uri world st).1.status ∈ connectRefusals ∧
        (svc.handleConnect ext uri world st).2.2 = []
    | some vetted =>
      (svc.handleConnect ext uri world st).2.2 = (attempts world.connects vetted).1 ∧
      (svc.handleConnect ext uri world st).1.status =
        if (attempts world.connects vetted).2 then .ok else .badGateway := by
  simp only [handleConnect, h.allowConnect, h.authority_eq, h.split, h.permitted, Bool.not_true,
    Bool.false_eq_true, if_false]
  cases svc.vetConnect ext host port world.connectLookup st.cache with
  | mk vetted cache =>
  cases vetted with
  | none => exact ⟨by rw [simpleResponse_status]; decide, rfl⟩
  | some vetted =>
    refine ⟨rfl, ?_⟩
    simp only
    split <;> rw [simpleResponse_status]

/-- A CONNECT request is refused at one of the checks, or goes on to the vetted addresses. -/
theorem handleConnect_cases {out : Response × ServiceState × List SocketAddr}
    (hout : svc.handleConnect ext uri world st = out) :
    (out.1.status ∈ connectRefusals ∧ out.2.2 = [] ∧
      ∀ authority host port, AsksFor svc uri authority host port →
        (svc.vetConnect ext host port world.connectLookup st.cache).1 = none) ∨
    ∃ authority host port vetted, AsksFor svc uri authority host port ∧
      (svc.vetConnect ext host port world.connectLookup st.cache).1 = some vetted ∧
      out.2.2 = (attempts world.connects vetted).1 ∧
      out.1.status = if (attempts world.connects vetted).2 then .ok else .badGateway := by
  subst hout
  by_cases hasks : ∃ authority host port, AsksFor svc uri authority host port
  · obtain ⟨authority, host, port, hasks⟩ := hasks
    have hcases := handleConnect_of_asksFor ext world st hasks
    cases hvet : (svc.vetConnect ext host port world.connectLookup st.cache).1 with
    | some vetted =>
      rw [hvet] at hcases
      exact .inr ⟨authority, host, port, vetted, hasks, hvet, hcases⟩
    | none =>
      rw [hvet] at hcases
      refine .inl ⟨hcases.1, hcases.2, ?_⟩
      -- a request asks for one target
      intro authority' host' port' hasks'
      cases hasks.authority_eq.symm.trans hasks'.authority_eq
      cases hasks.split.symm.trans hasks'.split
      exact hvet
  · simp only [not_exists] at hasks
    obtain ⟨hstatus, hconns⟩ := handleConnect_refused hasks
    exact .inl ⟨hstatus, hconns, fun authority host port h => absurd h (hasks authority host port)⟩

/-- The status says whether the last attempt succeeded, and is no refusal. -/
theorem connected_status {up : Bool} {s : StatusCode} (h : s = if up then .ok else .badGateway) :
    s ∉ connectRefusals ∧ (s = .ok → up = true) := by
  subst h
  cases up with
  | true => exact ⟨by decide, fun _ => rfl⟩
  | false => exact ⟨by decide, fun hok => absurd hok (by decide)⟩

/-- After any history, a CONNECT request is refused for lack of a target, or its targets are
attempted. -/
theorem handleConnect_tunnels {is : List PinningResolver.Input} (uri : Uri) (world : World)
    (st : ServiceState)
    (hr : svc.proxy.resolver.allowed = parseNetworks ext svc.httpBlock.upstreamAllowedNetworks)
    (hcache : st.cache = (svc.proxy.resolver.machine.run .init is).cache) :
    ((svc.handleConnect ext uri world st).1.status ∈ connectRefusals ∧
      (svc.handleConnect ext uri world st).2.2 = [] ∧
      ∀ sa, ¬ TunnelTo ext svc (svc.proxy.resolver.machine.outputs .init is) st.cache
        world.connectLookup uri sa) ∨
    ∃ vetted, vetted ≠ [] ∧
      (∀ sa ∈ vetted, TunnelTo ext svc (svc.proxy.resolver.machine.outputs .init is) st.cache
        world.connectLookup uri sa) ∧
      (svc.handleConnect ext uri world st).2.2 = (attempts world.connects vetted).1 ∧
      (svc.handleConnect ext uri world st).1.status =
        if (attempts world.connects vetted).2 then .ok else .badGateway := by
  rcases handleConnect_cases (rfl : svc.handleConnect ext uri world st = _) with
    ⟨hstatus, hconns, hwhy⟩ | ⟨authority, host, port, vetted, hasks, hvet, hconns, hstatus⟩
  · refine .inl ⟨hstatus, hconns, ?_⟩
    rintro sa ⟨hallow, authority, host, hauth, hsplit, hperm, hip, haddr⟩
    have hnone := hwhy authority host sa.port ⟨hallow, hauth, hsplit, hperm⟩
    rw [hcache] at hnone haddr
    exact vetConnect_none rfl hr hnone hip haddr
  · rw [hcache] at hvet ⊢
    obtain ⟨hne, hok⟩ := vetConnect_some rfl hr hvet
    refine .inr ⟨vetted, hne, fun sa hsa => ?_, hconns, hstatus⟩
    obtain ⟨rfl, hall, haddr⟩ := hok sa hsa
    exact ⟨hasks.allowConnect, authority, host, hasks.authority_eq, hasks.split,
      hasks.permitted, hall, haddr⟩

end

/-- **CONNECT opens tunnels to vetted targets alone**: whatever resolutions came before and
whatever the DNS answers, each connection attempted meets every condition; none is attempted,
with a refusal for an answer, exactly when no address meets them; and `200` follows a successful
connect. -/
theorem handleConnect_vetted (ext : External) (hash : Hashers) (block : HttpBlock)
    (acmeStore : Option (Text → Option Text)) (isTls : Bool) (is : List PinningResolver.Input)
    (uri : Uri) (world : World) (pools : Pools) (sessions : StickySessions) :
    let svc := HandlerService.new ext hash block acmeStore isTls
    let tr := svc.proxy.resolver.machine.outputs .init is
    let cache := (svc.proxy.resolver.machine.run .init is).cache
    let out := svc.handleConnect ext uri world ⟨cache, pools, sessions⟩
    (∀ sa ∈ out.2.2, TunnelTo ext svc tr cache world.connectLookup uri sa) ∧
    ((out.2.2 = [] ∧ out.1.status ∈ connectRefusals) ↔
      ¬ ∃ sa, TunnelTo ext svc tr cache world.connectLookup uri sa) ∧
    (out.1.status = .ok → ∃ n, out.2.2.length = n + 1 ∧ world.connects n = true) := by
  intro svc tr cache out
  have hr : svc.proxy.resolver.allowed =
      parseNetworks ext svc.httpBlock.upstreamAllowedNetworks := rfl
  rcases handleConnect_tunnels uri world ⟨cache, pools, sessions⟩ hr rfl with
    ⟨hstatus, hconns, hno⟩ | ⟨vetted, hne, htun, hconns, hstatus⟩
  · refine ⟨?_, iff_of_true ⟨hconns, hstatus⟩ fun ⟨sa, hsa⟩ => hno sa hsa, ?_⟩
    · intro sa hsa
      rw [hconns] at hsa
      cases hsa
    · intro hok
      rw [hok] at hstatus
      exact absurd hstatus (by decide)
  · have hend := connected_status hstatus
    obtain ⟨sa, hsa⟩ := List.exists_mem_of_ne_nil vetted hne
    refine ⟨?_, iff_of_false (fun h => hend.1 h.2) fun h => h ⟨sa, htun sa hsa⟩, ?_⟩
    · intro sa hsa
      rw [hconns] at hsa
      exact htun sa (attempts_subset _ _ sa hsa)
    · intro hok
      rw [hconns]
      exact attempts_upstream (hend.2 hok)

end Flexd
