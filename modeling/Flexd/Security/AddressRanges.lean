import Flexd.Lib.Networks
import Flexd.Security.UpstreamFilter

/-!
# The restricted ranges as networks

`isRestricted` mixes the address classes of the standard library with masks of
its own. `restrictedRanges` is the list of networks it stands for, and
`addressPolicy_exact` says so over both address spaces, and what an allowlist
adds to it.
-/

namespace Flexd

open Lib

/-- The restricted networks. -/
def restrictedRanges : List IpNetwork :=
  [.v4 ⟨0, 0, 0, 0⟩ ⟨8, by decide⟩, .v4 ⟨10, 0, 0, 0⟩ ⟨8, by decide⟩,
    .v4 ⟨100, 64, 0, 0⟩ ⟨10, by decide⟩, .v4 ⟨127, 0, 0, 0⟩ ⟨8, by decide⟩,
    .v4 ⟨169, 254, 0, 0⟩ ⟨16, by decide⟩, .v4 ⟨172, 16, 0, 0⟩ ⟨12, by decide⟩,
    .v4 ⟨192, 0, 2, 0⟩ ⟨24, by decide⟩, .v4 ⟨192, 168, 0, 0⟩ ⟨16, by decide⟩,
    .v4 ⟨198, 51, 100, 0⟩ ⟨24, by decide⟩, .v4 ⟨203, 0, 113, 0⟩ ⟨24, by decide⟩,
    .v4 ⟨224, 0, 0, 0⟩ ⟨4, by decide⟩, .v4 ⟨255, 255, 255, 255⟩ ⟨32, by decide⟩,
    .v6 ⟨0, 0, 0, 0, 0, 0, 0, 0⟩ ⟨128, by decide⟩, .v6 ⟨0, 0, 0, 0, 0, 0, 0, 1⟩ ⟨128, by decide⟩,
    .v6 ⟨0xfc00, 0, 0, 0, 0, 0, 0, 0⟩ ⟨7, by decide⟩,
    .v6 ⟨0xfe80, 0, 0, 0, 0, 0, 0, 0⟩ ⟨10, by decide⟩,
    .v6 ⟨0xff00, 0, 0, 0, 0, 0, 0, 0⟩ ⟨8, by decide⟩]

/-- Some network of the list contains the address. -/
def InNetworks (nets : List IpNetwork) (ip : IpAddr) : Prop := ∃ net ∈ nets, net.contains ip = true

theorem inNetworks_cons {net : IpNetwork} {nets : List IpNetwork} {ip : IpAddr} :
    InNetworks (net :: nets) ip ↔ net.contains ip = true ∨ InNetworks nets ip :=
  List.exists_mem_cons_iff ..

theorem not_inNetworks_nil (ip : IpAddr) : ¬ InNetworks [] ip := by
  rintro ⟨net, hnet, -⟩
  cases hnet

/-! ## The classes as ranges -/

theorem isMulticast_iff (ip : Ipv4Addr) :
    ip.isMulticast = true ↔ ip.a.toNat >>> 4 = (224 : UInt8).toNat >>> 4 := by
  have h224 : (224 : UInt8).toNat = 224 := rfl
  have h239 : (239 : UInt8).toNat = 239 := rfl
  rw [Ipv4Addr.isMulticast, Bool.and_eq_true, decide_eq_true_eq, decide_eq_true_eq,
    UInt8.le_iff_toNat_le, UInt8.le_iff_toNat_le, Nat.shiftRight_eq_div_pow,
    Nat.shiftRight_eq_div_pow, h224, h239]
  omega

theorem restrictedV4_iff (ip : Ipv4Addr) :
    restrictedV4 ip = true ↔ InNetworks restrictedRanges (.v4 ip) := by
  have hwhole : ∀ n, ip.a.toNat >>> 0 = UInt8.toNat n >>> 0 ↔ ip.a = n := fun n => UInt8.toNat_inj
  have hsecond : ∀ n, ip.b.toNat >>> 0 = UInt8.toNat n >>> 0 ↔ ip.b = n := fun n => UInt8.toNat_inj
  have hprivate : ip.b &&& 0xf0 = 16 ↔ ip.b.toNat >>> 4 = (16 : UInt8).toNat >>> 4 :=
    octet_mask_eq_iff 4 4 rfl rfl rfl
  have hcgnat : ip.b &&& 0xc0 = 64 ↔ ip.b.toNat >>> 6 = (64 : UInt8).toNat >>> 6 :=
    octet_mask_eq_iff 6 2 rfl rfl rfl
  have hv6 : ∀ net bits, (IpNetwork.v6 net bits).contains (.v4 ip) = false := fun _ _ => rfl
  simp only [restrictedRanges, inNetworks_cons, not_inNetworks_nil, hv6, or_false,
    Bool.false_eq_true, contains_first ⟨8, _⟩ 0 rfl, contains_first ⟨4, _⟩ 4 rfl,
    contains_second ⟨16, _⟩ 0 rfl (by decide), contains_second ⟨12, _⟩ 4 rfl (by decide),
    contains_second ⟨10, _⟩ 6 rfl (by decide), contains_third ⟨24, _⟩ rfl,
    contains_host_v4 ⟨32, _⟩ rfl, hwhole, hsecond]
  simp only [restrictedV4, Bool.or_eq_true, isMulticast_iff, Ipv4Addr.isPrivate,
    Ipv4Addr.isLoopback, Ipv4Addr.isLinkLocal, Ipv4Addr.isBroadcast, Ipv4Addr.isUnspecified,
    Ipv4Addr.isDocumentation, Bool.and_eq_true, decide_eq_true_eq, hcgnat, hprivate]
  simp only [and_assoc, or_assoc]
  -- the same ranges in another order; the unspecified address is in the first of them
  constructor
  · rintro (h | h | h | h | h | h | h | h | h | h | h | h | h) <;> simp [h]
  · rintro (h | h | h | h | h | h | h | h | h | h | h | h) <;> simp [h]

/-- The policy for an IPv6 address that is not mapped. -/
theorem restrictedV6_iff {ip : Ipv6Addr} (h : ip.toIpv4Mapped = none) :
    restrictedV6 ip = true ↔ InNetworks restrictedRanges (.v6 ip) := by
  have hlocal : ip.s0 &&& 0xfe00 = 0xfc00 ↔ ip.s0.toNat >>> 9 = (0xfc00 : UInt16).toNat >>> 9 :=
    group_mask_eq_iff 9 7 rfl rfl rfl
  have hlink : ip.s0 &&& 0xffc0 = 0xfe80 ↔ ip.s0.toNat >>> 6 = (0xfe80 : UInt16).toNat >>> 6 :=
    group_mask_eq_iff 6 10 rfl rfl rfl
  have hmulti : ip.s0 &&& 0xff00 = 0xff00 ↔ ip.s0.toNat >>> 8 = (0xff00 : UInt16).toNat >>> 8 :=
    group_mask_eq_iff 8 8 rfl rfl rfl
  have hv4 : ∀ net bits, (IpNetwork.v4 net bits).contains (.v6 ip) = false := fun _ _ => rfl
  simp only [restrictedRanges, inNetworks_cons, not_inNetworks_nil, hv4, or_false, false_or,
    Bool.false_eq_true, contains_group ⟨7, _⟩ 9 rfl, contains_group ⟨10, _⟩ 6 rfl,
    contains_group ⟨8, _⟩ 8 rfl, contains_host_v6 ⟨128, _⟩ rfl]
  simp only [restrictedV6, h, Bool.or_eq_true, Ipv6Addr.isLoopback, Ipv6Addr.isMulticast,
    Ipv6Addr.isUnspecified, decide_eq_true_eq, hlocal, hlink, hmulti, or_assoc]
  constructor
  · rintro (h | h | h | h | h) <;> simp [h]
  · rintro (h | h | h | h | h) <;> simp [h]

theorem isRestricted_iff (ip : IpAddr) :
    isRestricted ip = true ↔ InNetworks restrictedRanges (canonical ip) := by
  cases ip with
  | v4 ip => exact restrictedV4_iff ip
  | v6 ip =>
    cases hmapped : ip.toIpv4Mapped with
    | none =>
      rw [canonical, hmapped]
      exact restrictedV6_iff hmapped
    | some v4 =>
      rw [isRestricted, restrictedV6, canonical, hmapped]
      exact restrictedV4_iff v4

/-! ## The allowlist -/

theorem ipAllowed_iff {ip : IpAddr} {nets : List IpNetwork} :
    ipAllowed ip nets = true ↔
      isRestricted ip = false ∨ InNetworks nets ip ∨ InNetworks nets (canonical ip) := by
  have hany : (nets.any fun net => net.contains ip || net.contains (canonical ip)) = true ↔
      InNetworks nets ip ∨ InNetworks nets (canonical ip) := by
    simp only [List.any_eq_true, Bool.or_eq_true, and_or_left, exists_or]
    rfl
  unfold ipAllowed
  cases isRestricted ip with
  | false => simp
  | true => simpa using hany

/-- IPv4 networks contain no IPv6 address. -/
theorem not_inNetworks_v6 {nets : List IpNetwork} (h : ∀ net ∈ nets, ∃ a bits, net = .v4 a bits)
    (ip : Ipv6Addr) : ¬ InNetworks nets (.v6 ip) := by
  rintro ⟨net, hnet, hin⟩
  obtain ⟨a, bits, rfl⟩ := h net hnet
  cases hin

/-- **The address policy** is the restricted ranges, on the address or the IPv4 address that it
embeds; an allowlist adds what it covers, of either form; a longer one adds more; and one of IPv4
networks treats an IPv4 address and its mapped form alike. -/
theorem addressPolicy_exact (ip : IpAddr) (nets : List IpNetwork) :
    (isRestricted ip = true ↔ InNetworks restrictedRanges (canonical ip)) ∧
    (ipAllowed ip nets = true ↔
      isRestricted ip = false ∨ InNetworks nets ip ∨ InNetworks nets (canonical ip)) ∧
    (∀ nets', nets ⊆ nets' → ipAllowed ip nets = true → ipAllowed ip nets' = true) ∧
    ((∀ net ∈ nets, ∃ a bits, net = .v4 a bits) →
      ∀ v4 : Ipv4Addr, ipAllowed (.v4 v4) nets = ipAllowed (.v6 v4.toIpv6Mapped) nets) := by
  refine ⟨isRestricted_iff ip, ipAllowed_iff, fun nets' hsub => ?_, fun hv4 v4 => ?_⟩
  · have hmono : ∀ a, InNetworks nets a → InNetworks nets' a :=
      fun a ⟨net, hnet, hin⟩ => ⟨net, hsub hnet, hin⟩
    rw [ipAllowed_iff, ipAllowed_iff]
    exact Or.imp_right (Or.imp (hmono ip) (hmono (canonical ip)))
  · have hmapped : v4.toIpv6Mapped.toIpv4Mapped = some v4 := toIpv4Mapped_eq_some.mpr rfl
    have hcanonical : canonical (.v6 v4.toIpv6Mapped) = .v4 v4 := by
      rw [canonical, hmapped]
      rfl
    have hrestricted : isRestricted (.v6 v4.toIpv6Mapped) = isRestricted (.v4 v4) := by
      simp only [isRestricted, restrictedV6, hmapped]
    rw [Bool.eq_iff_iff, ipAllowed_iff, ipAllowed_iff, hcanonical, hrestricted]
    simp only [not_inNetworks_v6 hv4, false_or]
    exact or_congr_right (or_self_iff)

end Flexd
