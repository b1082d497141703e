import Flexd.Config.Schema
import Flexd.Lib.Check
import Flexd.Security.UpstreamFilter

/-!
# Validation of a configuration

`Config.validate` is the gate a configuration passes before a socket is
bound. Each section of the source function is a check of its own, and
`validateBlock` runs them in the source's order, so the first violation is
the one reported. The file system and the effective user are a `HostEnv`.
-/

namespace Flexd

open Lib

structure FileMeta where
  isFile : Bool
  mode : Nat

/-- What validation asks the operating system. -/
structure HostEnv where
  fileExists : Text → Bool
  metadata : Text → Option FileMeta
  effectiveRoot : Bool

/-- The violations, each with the data its message names. -/
inductive ConfigError where
  | abWeights (split : Text) (total : UInt32)
  | abUnknownUpstream (split group upstream : Text)
  | listenAddress (addr : Text)
  | strategy (upstream name : Text)
  | zeroWeight (upstream server : Text)
  | locationRegex (pattern : Text)
  | matchType (name : Text)
  | unknownSplit (pattern split : Text)
  | noServers (pattern : Text)
  | rewritePattern (pattern : Text)
  | rewriteFlag (pattern flag : Text)
  | trustedProxy (cidr : Text)
  | emptyConnectTarget
  | hostPolicy (name : Text)
  | listPolicy
  | allowedNetwork (cidr : Text)
  | upstreamUnlisted (upstream addr : Text)
  | upstreamNoList (upstream addr : Text)
  | prohibitedTls (proto : Text)
  | unsupportedTls (proto : Text)
  | acmeEmail
  | acmeTos
  | acmeDomain (domain : Text)
  | acmeStaging
  | acmePort (port : UInt16)
  | secretMissing (what path : Text)
  | secretNotFile (what path : Text)
  | secretMode (what path : Text) (mode : Nat)
  | eabKid
  | caRoot (path : Text)
  | dns01
  | certificate (path : Text)
  | certificateKey (path : Text)
  | connectUpstream
  | streamPort (i : Nat) (port : UInt16)
  | streamName (i : Nat)
  | streamServers (i : Nat) (upstream : Text)
  | streamListen (i : Nat) (addr : Text)
  | mailPort (port : UInt16)
  | mailName
  deriving DecidableEq

/-- The message of a violation, context first. -/
def ConfigError.message : ConfigError → Text
  | .abWeights s total => "A/B split '".toList ++ s ++ "' weights sum to ".toList ++
      decimal total.toNat ++ ", must be 100".toList
  | .abUnknownUpstream s g u => "A/B split '".toList ++ s ++ "' group '".toList ++ g ++
      "' references unknown upstream '".toList ++ u ++ "'".toList
  | .listenAddress a => "Invalid listen address: ".toList ++ a
  | .strategy u n => "Upstream '".toList ++ u ++ "' has unknown strategy '".toList ++ n ++
      "' (round-robin, least-conn, ip-hash)".toList
  | .zeroWeight u s => "Upstream '".toList ++ u ++ "' server '".toList ++ s ++
      "' has weight 0; weights must be >= 1".toList
  | .locationRegex p => "Invalid location regex: ".toList ++ p
  | .matchType n => "Unknown location match_type: ".toList ++ n
  | .unknownSplit p s => "Location '".toList ++ p ++ "' references unknown ab_split '".toList ++
      s ++ "'".toList
  | .noServers p => "Proxy location '".toList ++ p ++ "' has no upstream servers configured".toList
  | .rewritePattern p => "Invalid rewrite pattern: ".toList ++ p
  | .rewriteFlag p f => "Rewrite '".toList ++ p ++ "' has unknown flag '".toList ++ f ++
      "' (break, last, redirect, permanent)".toList
  | .trustedProxy c => "Invalid CIDR in trusted_proxies: ".toList ++ c
  | .emptyConnectTarget => "connect_allowed_targets contains an empty entry".toList
  | .hostPolicy n => "Invalid host_header_policy: ".toList ++ n
  | .listPolicy => "host_header_policy 'list' requires allowed_hosts or server_name".toList
  | .allowedNetwork c => "Invalid CIDR in upstream_allowed_networks: ".toList ++ c
  | .upstreamUnlisted u a => "Upstream '".toList ++ u ++ "' server '".toList ++ a ++
      "': Address ".toList ++ a ++ " is private/loopback and not in allowed networks".toList
  | .upstreamNoList u a => "Upstream '".toList ++ u ++ "' server '".toList ++ a ++
      "': Address ".toList ++ a ++
      " is in a private/loopback range and no upstream_allowed_networks is configured".toList
  | .prohibitedTls p => "Prohibited TLS protocol: ".toList ++ p ++ " (minimum TLSv1.2)".toList
  | .unsupportedTls p => "Unsupported SSL protocol: ".toList ++ p
  | .acmeEmail => "ACME enabled but email is empty".toList
  | .acmeTos => "ACME enabled but agree_tos is false".toList
  | .acmeDomain d => "ACME domain '".toList ++ d ++ "' not in server_name list".toList
  | .acmeStaging =>
      "ACME staging=true but production CA endpoint specified (Invariant 70)".toList
  | .acmePort p => "ACME http_challenge_port ".toList ++ decimal p.toNat ++
      " is privileged (<1024) but the daemon is not running as root (Invariant 72)".toList
  | .secretMissing w p => w ++ " secret file not found: ".toList ++ p
  | .secretNotFile w p => w ++ " path ".toList ++ p ++ " is not a regular file".toList
  | .secretMode w p m => w ++ " file ".toList ++ p ++ " has insecure permissions 0o".toList ++
      Nat.toDigits 8 m ++ "; must be 0600 or stricter (no group/other access)".toList
  | .eabKid => "ACME eab.kid is empty".toList
  | .caRoot p => "ACME ca_root file not found: ".toList ++ p
  | .dns01 => "ACME challenge_types includes 'dns-01' but no dns_webhook configured".toList
  | .certificate p => "TLS certificate file not found: ".toList ++ p
  | .certificateKey p => "TLS certificate key file not found: ".toList ++ p
  | .connectUpstream => "allow_connect=true but no connect_upstream specified".toList
  | .streamPort i p => "stream[".toList ++ decimal i ++ "]: listen port ".toList ++
      decimal p.toNat ++ " out of range".toList
  | .streamName i => "stream[".toList ++ decimal i ++ "]: upstream name is empty".toList
  | .streamServers i u => "stream[".toList ++ decimal i ++ "]: upstream '".toList ++ u ++
      "' has no servers".toList
  | .streamListen i a => "stream[".toList ++ decimal i ++ "]: invalid listen address ".toList ++ a
  | .mailPort p => "mail: listen port ".toList ++ decimal p.toNat ++ " out of range".toList
  | .mailName => "mail: upstream name is empty".toList

/-- The outcome of a check. -/
abbrev Check := Except ConfigError Unit

/-! ## The sections of a block -/

variable (ext : External) (env : HostEnv)

/-- The sum of the weights, in 32 bits. -/
def totalWeight (groups : List AbGroup) : UInt32 :=
  groups.foldr (fun g sum => g.weight + sum) 0

def checkAbSplit (block : HttpBlock) (split : AbSplit) : Check :=
  andThen
    (require (totalWeight split.groups = 100) (.abWeights split.name (totalWeight split.groups)))
    (checkAll (fun g => require (block.upstreams.any fun u => u.name = g.upstream)
      (.abUnknownUpstream split.name g.name g.upstream)) split.groups)

def checkListen (listen : ListenDirective) : Check :=
  match listen.address with
  | some addr => require (parseIp addr).isSome (.listenAddress addr)
  | none => .ok ()

def checkUpstream (upstream : UpstreamRef) : Check :=
  andThen
    (match upstream.strategy with
      | .unknown name => .error (.strategy upstream.name name)
      | _ => .ok ())
    (checkAll (fun s => require (s.weight ≠ 0) (.zeroWeight upstream.name s.address))
      upstream.servers)

/-- The inline pools of the locations. -/
def inlineUpstreams (block : HttpBlock) : List UpstreamRef :=
  block.locations.filterMap fun l => l.handler.upstream

def checkLocation (block : HttpBlock) (location : Location) : Check :=
  andThen
    (match location.matchType with
      | .exact | .startsWith => .ok ()
      | .regex => require (ext.regex location.pattern).isSome (.locationRegex location.pattern)
      | .unknown name => .error (.matchType name))
    (if location.handler.handlerType.isProxy then
      match location.handler.abSplit with
      | some split => require (block.abSplits.any fun s => s.name = split)
          (.unknownSplit location.pattern split)
      | none =>
        let hasInline := location.handler.upstream.any fun u => !u.servers.isEmpty
        let hasShared := block.upstreams.head?.any fun u => !u.servers.isEmpty
        require (hasInline || hasShared) (.noServers location.pattern)
    else .ok ())

def checkRewrite (rule : RewriteRule) : Check :=
  andThen (require (ext.regex rule.pattern).isSome (.rewritePattern rule.pattern))
    (match rule.flag with
      | .unknown flag => .error (.rewriteFlag rule.pattern flag)
      | _ => .ok ())

def checkHostPolicy (block : HttpBlock) : Check :=
  andThen
    (match block.hostHeaderPolicy with
      | .unknown name => .error (.hostPolicy name)
      | _ => .ok ())
    (require (!(block.hostHeaderPolicy = .list && (block.allowedHosts.getD []).isEmpty &&
      block.serverName.isEmpty)) .listPolicy)

/-- The ranges the load-time check knows. -/
def loadPrivate : IpAddr → Bool
  | .v4 ip => ip.isPrivate || ip.isLoopback || ip.isLinkLocal || ip.isMulticast
  | .v6 ip => ip.isLoopback || ip.isMulticast

/-- The host the load-time check reads: everything before the last colon. -/
def loadHost (addr : Text) : Text :=
  match rsplitOnce ':' addr with
  | some (host, _) => host
  | none => addr

def validateUpstreamAddress (upstream addr : Text) (allowed : Option (List Text)) : Check :=
  match parseIp (loadHost addr) with
  | some ip =>
    if loadPrivate ip then
      match allowed with
      | some networks => require ((networks.filterMap ext.network).any fun net => net.contains ip)
          (.upstreamUnlisted upstream addr)
      | none => .error (.upstreamNoList upstream addr)
    else .ok ()
  | none => .ok ()

def checkTlsProtocol (proto : Text) : Check :=
  let p := ext.toUppercase proto
  if p = "TLSV1.2".toList ∨ p = "TLSV1.3".toList then .ok ()
  else if p = "SSLV3".toList ∨ p = "TLSV1.0".toList ∨ p = "TLSV1.1".toList then
    .error (.prohibitedTls proto)
  else .error (.unsupportedTls proto)

/-- Whether a `server_name` entry covers a domain. -/
def matchesWildcard (pattern domain : Text) : Bool :=
  if "*.".toList.isPrefixOf pattern then
    (pattern.drop 1).isSuffixOf domain || domain = pattern.drop 2
  else pattern = domain

def checkSecretFile (path what : Text) : Check :=
  match env.metadata path with
  | none => .error (.secretMissing what path)
  | some m =>
    andThen (require m.isFile (.secretNotFile what path))
      (require (m.mode % 512 % 64 = 0) (.secretMode what path (m.mode % 512)))

def checkAcme (block : HttpBlock) (acme : AcmeConfig) : Check :=
  if acme.enabled then
    checkSeq [
      require (!acme.email.isEmpty) .acmeEmail,
      require acme.agreeTos .acmeTos,
      checkAll (fun d => require (block.serverName.any fun s => s = d || matchesWildcard s d)
        (.acmeDomain d)) acme.domains,
      require (!(acme.staging && "acme-v02.api.letsencrypt.org".toList <:+: acme.caEndpoint &&
        !("staging".toList <:+: acme.caEndpoint : Bool))) .acmeStaging,
      require (!(acme.httpChallengePort.getD 80 < 1024 && !env.effectiveRoot))
        (.acmePort (acme.httpChallengePort.getD 80)),
      (match acme.dnsWebhook.bind (·.authHeader) with
        | some path => checkSecretFile env path "dns_webhook.auth_header".toList
        | none => .ok ()),
      (match acme.eab with
        | some eab => andThen (require (!eab.kid.isEmpty) .eabKid)
            (checkSecretFile env eab.hmacKey "eab.hmac_key".toList)
        | none => .ok ()),
      (match acme.caRoot with
        | some path => require (env.fileExists path) (.caRoot path)
        | none => .ok ()),
      require (!(acme.challengeTypes.any (· = "dns-01".toList) && acme.dnsWebhook.isNone)) .dns01]
  else .ok ()

def checkSsl (block : HttpBlock) (ssl : SslSettings) : Check :=
  checkSeq [
    checkAll (checkTlsProtocol ext) ssl.protocols,
    (match ssl.acme with
      | some acme => checkAcme env block acme
      | none => .ok ()),
    (match ssl.certificate with
      | some path => require (env.fileExists path) (.certificate path)
      | none => .ok ()),
    (match ssl.certificateKey with
      | some path => require (env.fileExists path) (.certificateKey path)
      | none => .ok ())]

def validateBlock (block : HttpBlock) : Check :=
  checkSeq [
    checkAll (checkAbSplit block) block.abSplits,
    checkAll checkListen block.listen,
    checkAll checkUpstream block.upstreams,
    checkAll checkUpstream (inlineUpstreams block),
    checkAll checkUpstream block.connectUpstream.toList,
    checkAll (checkLocation ext block) block.locations,
    checkAll (checkRewrite ext) block.rewrites,
    checkAll (fun c => require (ext.network c).isSome (.trustedProxy c))
      (block.trustedProxies.getD []),
    checkAll (fun t => require (!(trim t).isEmpty) .emptyConnectTarget)
      (block.connectAllowedTargets.getD []),
    checkHostPolicy block,
    checkAll (fun c => require (ext.network c).isSome (.allowedNetwork c))
      (block.upstreamAllowedNetworks.getD []),
    checkAll (fun u => checkAll (fun s =>
      validateUpstreamAddress ext u.name s.address block.upstreamAllowedNetworks) u.servers)
      block.upstreams,
    (match block.ssl with
      | some ssl => checkSsl ext env block ssl
      | none => .ok ()),
    require (!(block.allowConnect && block.connectUpstream.isNone)) .connectUpstream]

/-! ## The other blocks -/

def validateStream (sb : StreamBlock) (i : Nat) : Check :=
  checkSeq [
    require (1 ≤ sb.listen.port) (.streamPort i sb.listen.port),
    require (!sb.upstream.name.isEmpty) (.streamName i),
    require (!sb.upstream.servers.isEmpty) (.streamServers i sb.upstream.name),
    (match sb.listen.address with
      | some addr => require (parseIp addr).isSome (.streamListen i addr)
      | none => .ok ())]

def validateMail (mail : MailBlock) : Check :=
  andThen (checkAll (fun ld => require (1 ≤ ld.port) (.mailPort ld.port)) mail.listen)
    (require (!mail.upstream.name.isEmpty) .mailName)

/-- `Config::validate`. -/
def Config.validate (config : Config) : Check :=
  checkSeq [
    checkAll (validateBlock ext env) config.http,
    checkAll (fun (sb, i) => validateStream sb i) config.stream.zipIdx,
    (match config.mail with
      | some mail => validateMail mail
      | none => .ok ())]

/-! ## What a validated configuration guarantees -/

section Validated

variable {ext : External} {env : HostEnv} {block : HttpBlock}

theorem validateBlock_of_validate {config : Config}
    (h : config.validate ext env = .ok ()) (hb : block ∈ config.http) :
    validateBlock ext env block = .ok () := by
  have := checkSeq_ok.mp h _ (List.mem_cons_self ..)
  exact checkAll_ok.mp this block hb

/-- The weights of a split sum to 100 in 32 bits, and its groups name shared pools. -/
theorem validateBlock_split (h : validateBlock ext env block = .ok ()) {split : AbSplit}
    (hs : split ∈ block.abSplits) :
    totalWeight split.groups = 100 ∧
      ∀ g ∈ split.groups, ∃ u, resolveUpstream block g.upstream = some u := by
  have hall := checkSeq_ok.mp h (checkAll (checkAbSplit block) block.abSplits) (by simp)
  obtain ⟨hw, hg⟩ := andThen_ok.mp (checkAll_ok.mp hall split hs)
  refine ⟨by simpa [require_ok] using hw, fun g hmem => ?_⟩
  have := require_ok.mp (checkAll_ok.mp hg g hmem)
  exact Option.isSome_iff_exists.mp (by simpa [resolveUpstream, List.find?_isSome] using this)

/-- A proxy location of a validated block has a split that is defined, or a pool. -/
theorem validateBlock_location (h : validateBlock ext env block = .ok ()) {loc : Location}
    (hl : loc ∈ block.locations) (hp : loc.handler.handlerType.isProxy = true) :
    match loc.handler.abSplit with
    | some split => ∃ s ∈ block.abSplits, s.name = split
    | none => (∃ u, loc.handler.upstream = some u ∧ u.servers ≠ []) ∨
        ∃ u, block.upstreams.head? = some u ∧ u.servers ≠ [] := by
  have hall := checkSeq_ok.mp h (checkAll (checkLocation ext block) block.locations) (by simp)
  have hloc := (andThen_ok.mp (checkAll_ok.mp hall loc hl)).2
  rw [if_pos hp] at hloc
  split
  · next split hs =>
    simp only [hs, require_ok] at hloc
    simpa using hloc
  · next hs =>
    simp only [hs, require_ok] at hloc
    simpa [Option.any_eq_true] using hloc

end Validated

/-- An environment without files. -/
def HostEnv.bare : HostEnv := ⟨fun _ => false, fun _ => none, false⟩

end Flexd
