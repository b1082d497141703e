import Flexd.Config.Validate

/-!
# The load-time check and the request-time filter

Upstream addresses are judged twice: by `validateUpstreamAddress` when the
configuration is loaded, by `isUpstreamAllowed` when a request is proxied.
The two read the host differently, know different ranges, and the first runs
over the shared pools alone. `filters_agree_iff` says for which validated
blocks no configured address is refused at request time:
`EscapesLoadCheck` is what the load-time check lets through in a shared
pool, and in the other pools it lets everything through.
-/

namespace Flexd

open Lib

variable {ext : External} {env : HostEnv}

def sharedAddresses (block : HttpBlock) : List Text :=
  block.upstreams.flatMap fun u => u.servers.map (·.address)

/-- The addresses of the pools that are not shared: inline and CONNECT pools. -/
def privateAddresses (block : HttpBlock) : List Text :=
  (inlineUpstreams block ++ block.connectUpstream.toList).flatMap fun u =>
    u.servers.map (·.address)

/-- The literals the load-time check can object to: IPv4 in one of its ranges. -/
def knownAtLoad : IpAddr → Bool
  | .v4 ip => loadPrivate (.v4 ip)
  | .v6 _ => false

/-- A denied literal that is bracketed, IPv6, or IPv4 in a range the load-time check does not
know. -/
def EscapesLoadCheck (nets : List IpNetwork) (addr : Text) : Prop :=
  ∃ ip, parseIp (splitHostPort addr).1 = some ip ∧ ipAllowed ip nets = false ∧
    (addr.head? = some '[' ∨ knownAtLoad ip = false)

/-- Without brackets, both checks read the same IPv4 literal. -/
theorem loadHost_eq_of_v4 {addr : Text} {ip : Ipv4Addr} (hb : addr.head? ≠ some '[')
    (h : parseIp (splitHostPort addr).1 = some (.v4 ip)) :
    loadHost addr = (splitHostPort addr).1 := by
  have hcolon := parseIp_v4_no_colon h
  unfold splitHostPort at h hcolon ⊢
  split at hcolon
  · next rest => exact absurd rfl hb
  · split at hcolon
    · next hcount =>
      have hpos : 0 < addr.count ':' := by omega
      exact absurd (List.count_pos_iff.mp hpos) hcolon
    · next hcount =>
      simp only [hcount, if_false]
      cases hr : rsplitOnce ':' addr with
      | none => simp [loadHost, hr]
      | some p =>
        obtain ⟨host, port⟩ := p
        cases hp : parseU16 port with
        | some n => simp [loadHost, hr, hp]
        | none =>
          -- the whole address is the host, and it has the colon
          simp only [hr, hp] at hcolon
          rw [(rsplitOnce_eq_some.mp hr).1] at hcolon
          exact absurd (by simp) hcolon

/-- What the load-time check passes among the literals it knows, the allowlist covers. -/
theorem ipAllowed_of_validateUpstreamAddress {name addr : Text} {allowed : Option (List Text)}
    {ip : IpAddr} (h : validateUpstreamAddress ext name addr allowed = .ok ())
    (hip : parseIp (loadHost addr) = some ip) (hp : loadPrivate ip = true) :
    ipAllowed ip (parseNetworks ext allowed) = true := by
  unfold validateUpstreamAddress at h
  simp only [hip, hp, if_true] at h
  cases allowed with
  | none => cases h
  | some networks =>
    simp only [require_ok, List.any_eq_true] at h
    obtain ⟨net, hnet, hc⟩ := h
    unfold ipAllowed
    split
    · rfl
    · exact List.any_eq_true.mpr ⟨net, hnet, by simp [hc]⟩

theorem validateUpstreamAddress_of_validateBlock {block : HttpBlock}
    (h : validateBlock ext env block = .ok ()) {addr : Text} (ha : addr ∈ sharedAddresses block) :
    ∃ name, validateUpstreamAddress ext name addr block.upstreamAllowedNetworks = .ok () := by
  unfold validateBlock at h
  have hs := checkSeq_ok.mp h (checkAll (fun u => checkAll (fun s =>
    validateUpstreamAddress ext u.name s.address block.upstreamAllowedNetworks) u.servers)
    block.upstreams) (by simp)
  simp only [sharedAddresses, List.mem_flatMap, List.mem_map] at ha
  obtain ⟨u, hu, s, hsrv, rfl⟩ := ha
  exact ⟨u.name, checkAll_ok.mp (checkAll_ok.mp hs u hu) s hsrv⟩

/-- A shared address of a validated block is denied only if it escapes the load-time check. -/
theorem escapes_of_denied {block : HttpBlock} (h : validateBlock ext env block = .ok ())
    {addr : Text} (ha : addr ∈ sharedAddresses block)
    (hd : Denied (parseNetworks ext block.upstreamAllowedNetworks) (splitHostPort addr).1) :
    EscapesLoadCheck (parseNetworks ext block.upstreamAllowedNetworks) addr := by
  obtain ⟨ip, hip, hdeny⟩ := hd
  refine ⟨ip, hip, hdeny, ?_⟩
  by_contra hcon
  simp only [not_or, Bool.not_eq_false] at hcon
  obtain ⟨hb, hk⟩ := hcon
  cases ip with
  | v6 ip => cases hk
  | v4 ip =>
    obtain ⟨name, hv⟩ := validateUpstreamAddress_of_validateBlock h ha
    have hl : parseIp (loadHost addr) = some (.v4 ip) := by rw [loadHost_eq_of_v4 hb hip, hip]
    rw [ipAllowed_of_validateUpstreamAddress hv hl hk] at hdeny
    cases hdeny

/-- Exactly when the request-time filter accepts every configured address of a validated
block. -/
theorem filters_agree_iff {config : Config} {block : HttpBlock}
    (h : config.validate ext env = .ok ()) (hb : block ∈ config.http) :
    (∀ addr ∈ sharedAddresses block ++ privateAddresses block,
      isUpstreamAllowed ext addr block.upstreamAllowedNetworks = .ok ()) ↔
    (∀ addr ∈ sharedAddresses block,
      ¬ EscapesLoadCheck (parseNetworks ext block.upstreamAllowedNetworks) addr) ∧
    (∀ addr ∈ privateAddresses block,
      ¬ Denied (parseNetworks ext block.upstreamAllowedNetworks) (splitHostPort addr).1) := by
  simp only [isUpstreamAllowed_iff, List.mem_append, or_imp, forall_and]
  refine and_congr ⟨?_, ?_⟩ Iff.rfl
  · rintro hall addr ha ⟨ip, hip, hdeny, -⟩
    exact hall addr ha ⟨ip, hip, hdeny⟩
  · intro hall addr ha hd
    exact hall addr ha (escapes_of_denied (validateBlock_of_validate h hb) ha hd)

/-- A block that proxies everything to its one shared pool. -/
def sharedPoolBlock (addr : Text) : HttpBlock where
  listen := [{ port := 80 }]
  locations := [{ pattern := ['/'], handler := { handlerType := .proxy } }]
  upstreams := [{ name := "pool".toList, servers := [{ address := addr }] }]

theorem filters_agree_iff_public :
    Config.validate .sample .bare { http := [sharedPoolBlock "93.184.216.34:80".toList] } =
      .ok () ∧
    ((∀ addr ∈ sharedAddresses (sharedPoolBlock "93.184.216.34:80".toList) ++
        privateAddresses (sharedPoolBlock "93.184.216.34:80".toList),
      isUpstreamAllowed .sample addr none = .ok ()) ↔
    (∀ addr ∈ sharedAddresses (sharedPoolBlock "93.184.216.34:80".toList),
      ¬ EscapesLoadCheck (parseNetworks .sample none) addr) ∧
    (∀ addr ∈ privateAddresses (sharedPoolBlock "93.184.216.34:80".toList),
      ¬ Denied (parseNetworks .sample none) (splitHostPort addr).1)) := by
  have hv : Config.validate .sample .bare
      { http := [sharedPoolBlock "93.184.216.34:80".toList] } = .ok () := by decide
  exact ⟨hv, filters_agree_iff hv (List.mem_singleton.mpr rfl)⟩

/-- A bracketed loopback address passes validation and is refused at request time. -/
theorem filters_disagree_bracketed :
    ¬ ∀ (config : Config) (block : HttpBlock), config.validate .sample .bare = .ok () →
      block ∈ config.http → ∀ addr ∈ sharedAddresses block ++ privateAddresses block,
        isUpstreamAllowed .sample addr block.upstreamAllowedNetworks = .ok () := by
  intro h
  have := h { http := [sharedPoolBlock "[::1]:80".toList] } (sharedPoolBlock "[::1]:80".toList)
    (by decide) (by simp) "[::1]:80".toList (by decide)
  revert this
  decide

end Flexd
