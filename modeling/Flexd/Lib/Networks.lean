import Flexd.Lib.Ip
import Mathlib.Data.Nat.Bitwise

/-!
# Leading bits of addresses

An address is in a network when their leading bits agree. `contains_first`,
`contains_second` and `contains_third` say this about the octets that a network
of up to 8, 16 and 24 bits looks at, `contains_group` about the first group of an
IPv6 address. `and_high_eq_iff` is the same test written with a mask.
-/

namespace Flexd.Lib

/-! ## Numbers in a base, and masks -/

theorem mul_add_inj {b x x' y y' : Nat} (h : y < b) (h' : y' < b) :
    x * b + y = x' * b + y' ↔ x = x' ∧ y = y' := by
  constructor
  · intro heq
    have hdiv := congrArg (· / b) heq
    have hb : 0 < b := by omega
    simp only [Nat.mul_comm _ b, Nat.mul_add_div hb, Nat.div_eq_of_lt h, Nat.div_eq_of_lt h',
      Nat.add_zero] at hdiv
    subst hdiv
    exact ⟨rfl, Nat.add_left_cancel heq⟩
  · rintro ⟨rfl, rfl⟩
    rfl

/-- A mask of the bits from `k` on keeps those bits. -/
theorem and_high {n k m : Nat} (h : n < 2 ^ (m + k)) :
    n &&& ((2 ^ m - 1) <<< k) = (n >>> k) <<< k := by
  refine Nat.eq_of_testBit_eq fun i => ?_
  rw [Nat.testBit_and, Nat.testBit_shiftLeft, Nat.testBit_shiftLeft, Nat.testBit_two_pow_sub_one,
    Nat.testBit_shiftRight]
  by_cases hk : k ≤ i
  · rw [decide_eq_true hk, Bool.true_and, Bool.true_and, Nat.add_sub_cancel' hk]
    by_cases hm : i - k < m
    · rw [decide_eq_true hm, Bool.and_true]
    · have hbit : n.testBit i = false :=
        Nat.testBit_lt_two_pow (h.trans_le (Nat.pow_le_pow_right (by decide) (by omega)))
      rw [hbit, Bool.false_and]
  · rw [decide_eq_false hk, Bool.false_and, Bool.and_false, Bool.false_and]

theorem and_high_eq_iff {n v k m : Nat} (h : n < 2 ^ (m + k)) (hv : (v >>> k) <<< k = v) :
    n &&& ((2 ^ m - 1) <<< k) = v ↔ n >>> k = v >>> k := by
  rw [and_high h]
  constructor
  · intro heq
    rw [← heq, Nat.shiftLeft_shiftRight]
  · intro heq
    rw [heq, hv]

theorem octet_mask_eq_iff {b mask v : UInt8} (k m : Nat) (hwidth : m + k = 8)
    (hmask : mask.toNat = (2 ^ m - 1) <<< k) (hv : (v.toNat >>> k) <<< k = v.toNat) :
    b &&& mask = v ↔ b.toNat >>> k = v.toNat >>> k := by
  rw [← UInt8.toNat_inj, UInt8.toNat_and, hmask]
  exact and_high_eq_iff (hwidth ▸ b.toNat_lt) hv

theorem group_mask_eq_iff {s mask v : UInt16} (k m : Nat) (hwidth : m + k = 16)
    (hmask : mask.toNat = (2 ^ m - 1) <<< k) (hv : (v.toNat >>> k) <<< k = v.toNat) :
    s &&& mask = v ↔ s.toNat >>> k = v.toNat >>> k := by
  rw [← UInt16.toNat_inj, UInt16.toNat_and, hmask]
  exact and_high_eq_iff (hwidth ▸ s.toNat_lt) hv

/-! ## IPv4 -/

section V4

variable {ip : Ipv4Addr} {n m l : UInt8} (bits : Fin 33)

theorem contains_v4_iff {net : Ipv4Addr} : (IpNetwork.v4 net bits).contains (.v4 ip) = true ↔
    net.toNat >>> (32 - bits.val) = ip.toNat >>> (32 - bits.val) := decide_eq_true_iff

theorem toNat_shiftRight_24 (ip : Ipv4Addr) : ip.toNat >>> 24 = ip.a.toNat := by
  have := ip.b.toNat_lt
  have := ip.c.toNat_lt
  have := ip.d.toNat_lt
  rw [Nat.shiftRight_eq_div_pow, Ipv4Addr.toNat]
  omega

theorem toNat_shiftRight_16 (ip : Ipv4Addr) : ip.toNat >>> 16 = ip.a.toNat * 256 + ip.b.toNat := by
  have := ip.c.toNat_lt
  have := ip.d.toNat_lt
  rw [Nat.shiftRight_eq_div_pow, Ipv4Addr.toNat]
  omega

theorem toNat_shiftRight_8 (ip : Ipv4Addr) :
    ip.toNat >>> 8 = (ip.a.toNat * 256 + ip.b.toNat) * 256 + ip.c.toNat := by
  have := ip.d.toNat_lt
  rw [Nat.shiftRight_eq_div_pow, Ipv4Addr.toNat]
  omega

/-- A network that ends in the first octet. -/
theorem contains_first (k : Nat) (hbits : bits.val + k = 8) :
    (IpNetwork.v4 ⟨n, 0, 0, 0⟩ bits).contains (.v4 ip) = true ↔
      ip.a.toNat >>> k = n.toNat >>> k := by
  have hshift : 32 - bits.val = 24 + k := by omega
  rw [contains_v4_iff, hshift, Nat.shiftRight_add, Nat.shiftRight_add, toNat_shiftRight_24,
    toNat_shiftRight_24]
  exact eq_comm

/-- A network that ends in the second octet. -/
theorem contains_second (k : Nat) (hbits : bits.val + k = 16) (hk : k ≤ 8) :
    (IpNetwork.v4 ⟨n, m, 0, 0⟩ bits).contains (.v4 ip) = true ↔
      ip.a = n ∧ ip.b.toNat >>> k = m.toNat >>> k := by
  have hshift : 32 - bits.val = 16 + k := by omega
  rw [contains_v4_iff, hshift, Nat.shiftRight_add, Nat.shiftRight_add, toNat_shiftRight_16,
    toNat_shiftRight_16, ← UInt8.toNat_inj]
  have hsplit : ∀ a b : UInt8, (a.toNat * 256 + b.toNat) >>> k =
      a.toNat * 2 ^ (8 - k) + b.toNat >>> k := by
    intro a b
    have hpow : 256 = 2 ^ (8 - k) * 2 ^ k := by
      rw [← Nat.pow_add, Nat.sub_add_cancel hk]
    rw [Nat.shiftRight_eq_div_pow, Nat.shiftRight_eq_div_pow, hpow, ← Nat.mul_assoc, Nat.add_comm,
      Nat.add_mul_div_right _ _ (Nat.two_pow_pos k), Nat.add_comm]
  have hlow : ∀ b : UInt8, b.toNat >>> k < 2 ^ (8 - k) := by
    intro b
    rw [Nat.shiftRight_eq_div_pow, Nat.div_lt_iff_lt_mul (Nat.two_pow_pos k), ← Nat.pow_add,
      Nat.sub_add_cancel hk]
    exact b.toNat_lt
  rw [hsplit, hsplit, mul_add_inj (hlow _) (hlow _)]
  exact and_congr eq_comm eq_comm

/-- A network of the first three octets. -/
theorem contains_third (hbits : bits.val = 24) :
    (IpNetwork.v4 ⟨n, m, l, 0⟩ bits).contains (.v4 ip) = true ↔
      ip.a = n ∧ ip.b = m ∧ ip.c = l := by
  rw [contains_v4_iff, hbits, toNat_shiftRight_8, toNat_shiftRight_8,
    mul_add_inj l.toNat_lt ip.c.toNat_lt, mul_add_inj m.toNat_lt ip.b.toNat_lt, and_assoc]
  simp only [UInt8.toNat_inj, eq_comm]

/-- A network of one address. -/
theorem contains_host_v4 {net : Ipv4Addr} (hbits : bits.val = 32) :
    (IpNetwork.v4 net bits).contains (.v4 ip) = true ↔ ip = net := by
  obtain ⟨a, b, c, d⟩ := net
  obtain ⟨a', b', c', d'⟩ := ip
  rw [contains_v4_iff, hbits, Nat.shiftRight_zero, Nat.shiftRight_zero]
  simp only [Ipv4Addr.toNat]
  rw [mul_add_inj d.toNat_lt d'.toNat_lt, mul_add_inj c.toNat_lt c'.toNat_lt,
    mul_add_inj b.toNat_lt b'.toNat_lt]
  simp only [UInt8.toNat_inj, Ipv4Addr.mk.injEq, and_assoc, eq_comm]

end V4

/-! ## IPv6 -/

section V6

variable {ip net : Ipv6Addr} {n : UInt16} (bits : Fin 129)

theorem contains_v6_iff : (IpNetwork.v6 net bits).contains (.v6 ip) = true ↔
    net.toNat >>> (128 - bits.val) = ip.toNat >>> (128 - bits.val) := decide_eq_true_iff

theorem toNat_shiftRight_112 (ip : Ipv6Addr) : ip.toNat >>> 112 = ip.s0.toNat := by
  have := ip.s1.toNat_lt
  have := ip.s2.toNat_lt
  have := ip.s3.toNat_lt
  have := ip.s4.toNat_lt
  have := ip.s5.toNat_lt
  have := ip.s6.toNat_lt
  have := ip.s7.toNat_lt
  simp only [Nat.shiftRight_eq_div_pow, Ipv6Addr.toNat, Ipv6Addr.segments, List.foldl, UInt16.size]
  omega

/-- A network that ends in the first group. -/
theorem contains_group (k : Nat) (hbits : bits.val + k = 16) :
    (IpNetwork.v6 ⟨n, 0, 0, 0, 0, 0, 0, 0⟩ bits).contains (.v6 ip) = true ↔
      ip.s0.toNat >>> k = n.toNat >>> k := by
  have hshift : 128 - bits.val = 112 + k := by omega
  rw [contains_v6_iff, hshift, Nat.shiftRight_add, Nat.shiftRight_add, toNat_shiftRight_112,
    toNat_shiftRight_112]
  exact eq_comm

theorem contains_host_v6 (hbits : bits.val = 128) :
    (IpNetwork.v6 net bits).contains (.v6 ip) = true ↔ ip = net := by
  obtain ⟨a0, a1, a2, a3, a4, a5, a6, a7⟩ := net
  obtain ⟨b0, b1, b2, b3, b4, b5, b6, b7⟩ := ip
  rw [contains_v6_iff, hbits, Nat.shiftRight_zero, Nat.shiftRight_zero]
  simp only [Ipv6Addr.toNat, Ipv6Addr.segments, List.foldl, UInt16.size]
  simp only [mul_add_inj (UInt16.toNat_lt _) (UInt16.toNat_lt _), UInt16.toNat_inj,
    Ipv6Addr.mk.injEq, and_assoc, eq_comm, Nat.zero_mul, Nat.zero_add]

end V6

end Flexd.Lib
