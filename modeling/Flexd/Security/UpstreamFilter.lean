import Flexd.External

/-!
# SSRF filtering of upstream targets

`ipAllowed` decides whether an address may be reached: one in a restricted
range only when the operator's allowlist covers it. `isUpstreamAllowed`
applies it to the IP literals among configured addresses, as `splitHostPort`
reads them; whatever it cannot read as an IP literal passes as a host name.
-/

namespace Flexd

open Lib

/-- Split an authority into host and optional port. -/
def splitHostPort (addr : Text) : Text × Option UInt16 :=
  match addr with
  | '[' :: rest =>
    if ']' ∈ rest then
      (rest.takeWhile (· ≠ ']'),
        match (rest.dropWhile (· ≠ ']')).tail with
        | ':' :: p => parseU16 p
        | _ => none)
    else (addr, none)
  | _ =>
    -- more than one colon: a bare IPv6 literal
    if 1 < addr.count ':' then (addr, none)
    else
      match rsplitOnce ':' addr with
      | some (host, port) =>
        match parseU16 port with
        | some p => (host, some p)
        | none => (addr, none)
      | none => (addr, none)

def restrictedV4 (ip : Ipv4Addr) : Bool :=
  ip.isPrivate || ip.isLoopback || ip.isLinkLocal || ip.isMulticast || ip.isBroadcast ||
    ip.isUnspecified || ip.isDocumentation || ip.a = 0 || (ip.a = 100 && ip.b &&& 0xc0 = 64)

def restrictedV6 (ip : Ipv6Addr) : Bool :=
  match ip.toIpv4Mapped with
  | some mapped => restrictedV4 mapped
  | none =>
    ip.isLoopback || ip.isMulticast || ip.isUnspecified || ip.s0 &&& 0xfe00 = 0xfc00 ||
      ip.s0 &&& 0xffc0 = 0xfe80

def isRestricted : IpAddr → Bool
  | .v4 ip => restrictedV4 ip
  | .v6 ip => restrictedV6 ip

/-- An IPv4-mapped address in its IPv4 form, every other address as it is. -/
def canonical : IpAddr → IpAddr
  | .v6 ip => (ip.toIpv4Mapped.map IpAddr.v4).getD (.v6 ip)
  | ip => ip

def ipAllowed (ip : IpAddr) (allowed : List IpNetwork) : Bool :=
  if !isRestricted ip then true
  else allowed.any fun net => net.contains ip || net.contains (canonical ip)

variable (ext : External)

/-- Parse a CIDR allowlist, ignoring entries that fail to parse. -/
def parseNetworks (allowed : Option (List Text)) : List IpNetwork :=
  (allowed.getD []).filterMap ext.network

def isUpstreamAllowed (addr : Text) (allowed : Option (List Text)) : Except Text Unit :=
  match parseIp (splitHostPort addr).1 with
  | some ip =>
    if !ipAllowed ip (parseNetworks ext allowed) then
      .error ("Upstream ".toList ++ addr ++
        " is in a restricted range and not in upstream_allowed_networks".toList)
    else .ok ()
  | none => .ok ()

/-- The text is an IP literal that the allowlist does not admit. -/
def Denied (nets : List IpNetwork) (t : Text) : Prop :=
  ∃ ip, parseIp t = some ip ∧ ipAllowed ip nets = false

/-- The filter refuses an address exactly when it reads a denied IP literal in it. -/
theorem isUpstreamAllowed_iff {addr : Text} {allowed : Option (List Text)} :
    isUpstreamAllowed ext addr allowed = .ok () ↔
      ¬ Denied (parseNetworks ext allowed) (splitHostPort addr).1 := by
  unfold isUpstreamAllowed Denied
  cases h : parseIp (splitHostPort addr).1 with
  | none => simp
  | some ip => cases ha : ipAllowed ip (parseNetworks ext allowed) <;> simp [ha]

end Flexd
