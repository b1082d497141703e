import Flexd.Lib.Numerals

/-!
# IP addresses

Addresses, their textual forms and the address classes of the standard
library, and networks in CIDR form. `parseIp` is the reader of address
literals: four decimal octets without leading zeros, or up to eight
hexadecimal groups with at most one `::` and an optional dotted tail.
`Ipv4Addr.text` and `Ipv6Addr.text` are the canonical spellings.
-/

namespace Flexd.Lib

structure Ipv4Addr where
  (a b c d : UInt8)
  deriving DecidableEq, Repr

/-- An IPv6 address, as its eight 16-bit groups. -/
structure Ipv6Addr where
  (s0 s1 s2 s3 s4 s5 s6 s7 : UInt16)
  deriving DecidableEq, Repr

inductive IpAddr where
  | v4 (ip : Ipv4Addr)
  | v6 (ip : Ipv6Addr)
  deriving DecidableEq, Repr

/-! ## Reading literals -/

/-- A number of at most `maxDigits` digits, and the text after it. -/
def readNumber (radix maxDigits bound : Nat) (zeroPrefixed : Bool) (t : Text) :
    Option (Nat × Text) :=
  let ds := t.takeWhile fun c => (digitVal radix c).isSome
  if ds = [] ∨ maxDigits < ds.length then none
  else if !zeroPrefixed ∧ ds.head? = some '0' ∧ 1 < ds.length then none
  else
    match digits radix ds with
    | some n => if n < bound then some (n, t.drop ds.length) else none
    | none => none

def readChar (c : Char) : Text → Option Text
  | x :: t => if x = c then some t else none
  | [] => none

def readOctet (t : Text) : Option (UInt8 × Text) := do
  let (n, t) ← readNumber 10 3 256 false t
  return (UInt8.ofNat n, t)

def readIpv4 (t : Text) : Option (Ipv4Addr × Text) := do
  let (a, t) ← readOctet t
  let (b, t) ← readOctet (← readChar '.' t)
  let (c, t) ← readOctet (← readChar '.' t)
  let (d, t) ← readOctet (← readChar '.' t)
  return (⟨a, b, c, d⟩, t)

/-- Two octets as one group. -/
def groupOf (hi lo : UInt8) : UInt16 := UInt16.ofNat (256 * hi.toNat + lo.toNat)

/-- Up to `n` groups separated by colons; whether a dotted tail ended them; the text after. -/
def readGroups (first : Bool) : Nat → Text → List UInt16 × Bool × Text
  | 0, t => ([], false, t)
  | n + 1, t =>
    let sep := if first then some t else readChar ':' t
    -- a dotted tail fills two groups, so it needs two free slots
    match if 1 ≤ n then sep.bind readIpv4 else none with
    | some (v4, t') => ([groupOf v4.a v4.b, groupOf v4.c v4.d], true, t')
    | none =>
      match sep.bind (readNumber 16 4 UInt16.size true) with
      | some (g, t') =>
        let (gs, dotted, t'') := readGroups false n t'
        (UInt16.ofNat g :: gs, dotted, t'')
      | none => ([], false, t)

def Ipv6Addr.ofGroups (gs : List UInt16) : Ipv6Addr :=
  ⟨gs.getD 0 0, gs.getD 1 0, gs.getD 2 0, gs.getD 3 0, gs.getD 4 0, gs.getD 5 0, gs.getD 6 0,
    gs.getD 7 0⟩

def readIpv6 (t : Text) : Option (Ipv6Addr × Text) :=
  let (head, dotted, t) := readGroups true 8 t
  if head.length = 8 then some (.ofGroups head, t)
  else if dotted then none
  else do
    let t ← readChar ':' (← readChar ':' t)
    -- `::` stands for at least one group
    let (tail, _, t) := readGroups true (8 - (head.length + 1)) t
    let zeros := List.replicate (8 - head.length - tail.length) 0
    return (.ofGroups (head ++ zeros ++ tail), t)

/-- The address a literal denotes. -/
def parseIp (t : Text) : Option IpAddr :=
  match readIpv4 t with
  | some (ip, []) => some (.v4 ip)
  | some _ => none
  | none =>
    match readIpv6 t with
    | some (ip, []) => some (.v6 ip)
    | _ => none

example : parseIp "127.0.0.1".toList = some (.v4 ⟨127, 0, 0, 1⟩) := by decide
example : parseIp "::ffff:10.0.0.1".toList = some (.v6 ⟨0, 0, 0, 0, 0, 0xffff, 0x0a00, 1⟩) := by
  decide

theorem readNumber_consumed {radix maxDigits bound n : Nat} {z : Bool} {t rest : Text}
    (h : readNumber radix maxDigits bound z t = some (n, rest)) :
    ∃ ds, t = ds ++ rest ∧ ∀ c ∈ ds, (digitVal radix c).isSome = true := by
  unfold readNumber at h
  simp only at h
  split at h
  · cases h
  split at h
  · cases h
  split at h
  · split at h
    · cases h
      refine ⟨t.takeWhile fun c => (digitVal radix c).isSome, ?_, fun c hc => ?_⟩
      · exact (List.prefix_iff_eq_append.mp (List.takeWhile_prefix _)).symm
      · simpa using List.mem_takeWhile_imp hc
    · cases h
  · cases h

theorem readChar_consumed {c : Char} {t rest : Text} (h : readChar c t = some rest) :
    t = c :: rest := by
  cases t with
  | nil => cases h
  | cons x t =>
    simp only [readChar] at h
    split at h
    · next e => cases h; rw [e]
    · cases h

theorem readOctet_consumed {t rest : Text} {n : UInt8} (h : readOctet t = some (n, rest)) :
    ∃ ds, t = ds ++ rest ∧ ∀ c ∈ ds, (digitVal 10 c).isSome = true := by
  unfold readOctet at h
  simp only [Option.bind_eq_bind, Option.bind_eq_some_iff, Prod.exists] at h
  obtain ⟨n', r', hn, he⟩ := h
  cases he
  exact readNumber_consumed hn

/-- What is read in two steps is made of what each step reads. -/
theorem consumed_append {P : Char → Prop} {t u v : Text}
    (h₁ : ∃ ds, t = ds ++ u ∧ ∀ c ∈ ds, P c) (h₂ : ∃ ds, u = ds ++ v ∧ ∀ c ∈ ds, P c) :
    ∃ ds, t = ds ++ v ∧ ∀ c ∈ ds, P c := by
  obtain ⟨d₁, rfl, hd₁⟩ := h₁
  obtain ⟨d₂, rfl, hd₂⟩ := h₂
  exact ⟨d₁ ++ d₂, by simp, List.forall_mem_append.mpr ⟨hd₁, hd₂⟩⟩

/-- A dotted literal is read from decimal digits and dots. -/
theorem readIpv4_consumed {t rest : Text} {ip : Ipv4Addr} (h : readIpv4 t = some (ip, rest)) :
    ∃ ds, t = ds ++ rest ∧ ∀ c ∈ ds, (digitVal 10 c).isSome = true ∨ c = '.' := by
  have hoctet : ∀ {t rest : Text} {n : UInt8}, readOctet t = some (n, rest) →
      ∃ ds, t = ds ++ rest ∧ ∀ c ∈ ds, (digitVal 10 c).isSome = true ∨ c = '.' := by
    intro t rest n h
    obtain ⟨ds, ht, hds⟩ := readOctet_consumed h
    exact ⟨ds, ht, fun c hc => .inl (hds c hc)⟩
  have hdot : ∀ {t rest : Text}, readChar '.' t = some rest →
      ∃ ds, t = ds ++ rest ∧ ∀ c ∈ ds, (digitVal 10 c).isSome = true ∨ c = '.' :=
    fun h => ⟨['.'], readChar_consumed h, by simp⟩
  unfold readIpv4 at h
  simp only [Option.bind_eq_bind, Option.bind_eq_some_iff, Prod.exists] at h
  obtain ⟨a, t1, h1, t1', c1, b, t2, h2, t2', c2, c, t3, h3, t3', c3, d, t4, h4, he⟩ := h
  cases he
  have hfirst := consumed_append (hoctet h1) (hdot c1)
  have hsecond := consumed_append (hoctet h2) (hdot c2)
  have hthird := consumed_append (hoctet h3) (hdot c3)
  exact consumed_append hfirst (consumed_append hsecond (consumed_append hthird (hoctet h4)))

/-- A dotted literal has no colon. -/
theorem readIpv4_no_colon {t : Text} {ip : Ipv4Addr} (h : readIpv4 t = some (ip, [])) :
    ':' ∉ t := by
  obtain ⟨ds, rfl, hds⟩ := readIpv4_consumed h
  rw [List.append_nil]
  intro hc
  have := hds _ hc
  revert this
  decide

theorem parseIp_v4_no_colon {t : Text} {ip : Ipv4Addr} (h : parseIp t = some (.v4 ip)) :
    ':' ∉ t := by
  unfold parseIp at h
  split at h
  · next hr => cases h; exact readIpv4_no_colon hr
  · cases h
  · split at h <;> cases h

/-! ## The characters of a literal -/

/-- The characters that IP literals are written with. -/
def isIpChar (c : Char) : Bool := (digitVal 16 c).isSome || c = ':' || c = '.'

/-- `t` is `rest` after characters of a literal. -/
def IpConsumed (t rest : Text) : Prop := ∃ ds, t = ds ++ rest ∧ ∀ c ∈ ds, isIpChar c = true

theorem IpConsumed.refl (t : Text) : IpConsumed t t := ⟨[], rfl, by simp⟩

theorem IpConsumed.trans {t u v : Text} (h₁ : IpConsumed t u) (h₂ : IpConsumed u v) :
    IpConsumed t v := consumed_append h₁ h₂

theorem readNumber_ipConsumed {radix maxDigits bound n : Nat} {z : Bool} {t rest : Text}
    (hr : radix ≤ 16) (h : readNumber radix maxDigits bound z t = some (n, rest)) :
    IpConsumed t rest := by
  obtain ⟨ds, ht, hds⟩ := readNumber_consumed h
  refine ⟨ds, ht, fun c hc => ?_⟩
  rw [isIpChar, digitVal_isSome_mono hr (hds c hc)]
  rfl

theorem readChar_ipConsumed {c : Char} {t rest : Text} (hc : isIpChar c = true)
    (h : readChar c t = some rest) : IpConsumed t rest :=
  ⟨[c], readChar_consumed h, by simpa using hc⟩

theorem readIpv4_ipConsumed {t rest : Text} {ip : Ipv4Addr} (h : readIpv4 t = some (ip, rest)) :
    IpConsumed t rest := by
  obtain ⟨ds, ht, hds⟩ := readIpv4_consumed h
  refine ⟨ds, ht, fun c hc => ?_⟩
  rcases hds c hc with hdigit | rfl
  · rw [isIpChar, digitVal_isSome_mono (by decide) hdigit]
    rfl
  · decide

theorem readGroups_ipConsumed (first : Bool) (n : Nat) (t : Text) :
    IpConsumed t (readGroups first n t).2.2 := by
  induction n generalizing first t with
  | zero => exact .refl t
  | succ n ih =>
    have hsep : ∀ u, (if first then some t else readChar ':' t) = some u → IpConsumed t u := by
      intro u hu
      cases first with
      | true => cases hu; exact .refl t
      | false => exact readChar_ipConsumed (by decide) hu
    rw [readGroups]
    simp only
    split
    · next v4 t' hv4 =>
      split at hv4
      · obtain ⟨u, hu, hread⟩ := Option.bind_eq_some_iff.mp hv4
        exact (hsep u hu).trans (readIpv4_ipConsumed hread)
      · cases hv4
    · split
      · next g t' hg =>
        obtain ⟨u, hu, hread⟩ := Option.bind_eq_some_iff.mp hg
        exact (hsep u hu).trans <| (readNumber_ipConsumed (by decide) hread).trans (ih false t')
      · exact .refl t

theorem readIpv6_ipConsumed {t rest : Text} {ip : Ipv6Addr} (h : readIpv6 t = some (ip, rest)) :
    IpConsumed t rest := by
  have hhead := readGroups_ipConsumed true 8 t
  unfold readIpv6 at h
  simp only at h
  split at h
  · cases h; exact hhead
  split at h
  · cases h
  · simp only [Option.bind_eq_bind, Option.bind_eq_some_iff] at h
    obtain ⟨t₁, h₁, t₂, h₂, he⟩ := h
    cases he
    exact hhead.trans <| (readChar_ipConsumed (by decide) h₁).trans <|
      (readChar_ipConsumed (by decide) h₂).trans (readGroups_ipConsumed true _ t₂)

theorem parseIp_v6_chars {t : Text} {ip : Ipv6Addr} (h : parseIp t = some (.v6 ip)) :
    ∀ c ∈ t, isIpChar c = true := by
  have hread : readIpv6 t = some (ip, []) := by
    unfold parseIp at h
    split at h
    · cases h
    · cases h
    · split at h
      · next hr => cases h; exact hr
      · cases h
  obtain ⟨ds, ht, hds⟩ := readIpv6_ipConsumed hread
  rw [ht, List.append_nil]
  exact hds

/-! ## Writing -/

def Ipv4Addr.text (ip : Ipv4Addr) : Text :=
  decimal ip.a.toNat ++ '.' :: decimal ip.b.toNat ++ '.' :: decimal ip.c.toNat ++
    '.' :: decimal ip.d.toNat

def Ipv6Addr.segments (ip : Ipv6Addr) : List UInt16 :=
  [ip.s0, ip.s1, ip.s2, ip.s3, ip.s4, ip.s5, ip.s6, ip.s7]

/-- The embedded address of an IPv4-mapped address (`::ffff:a.b.c.d`). -/
def Ipv6Addr.toIpv4Mapped (ip : Ipv6Addr) : Option Ipv4Addr :=
  if ip.s0 = 0 ∧ ip.s1 = 0 ∧ ip.s2 = 0 ∧ ip.s3 = 0 ∧ ip.s4 = 0 ∧ ip.s5 = 0xffff then
    some ⟨UInt8.ofNat (ip.s6.toNat / 256), UInt8.ofNat (ip.s6.toNat % 256),
      UInt8.ofNat (ip.s7.toNat / 256), UInt8.ofNat (ip.s7.toNat % 256)⟩
  else none

/-- The IPv4-mapped form of an address. -/
def Ipv4Addr.toIpv6Mapped (ip : Ipv4Addr) : Ipv6Addr :=
  ⟨0, 0, 0, 0, 0, 0xffff, groupOf ip.a ip.b, groupOf ip.c ip.d⟩

theorem groupOf_toNat (hi lo : UInt8) : (groupOf hi lo).toNat = 256 * hi.toNat + lo.toNat := by
  have := hi.toNat_lt
  have := lo.toNat_lt
  rw [groupOf, UInt16.toNat_ofNat']
  omega

/-- The mapped addresses are the mapped forms. -/
theorem toIpv4Mapped_eq_some {ip : Ipv6Addr} {v4 : Ipv4Addr} :
    ip.toIpv4Mapped = some v4 ↔ ip = v4.toIpv6Mapped := by
  obtain ⟨a, b, c, d⟩ := v4
  obtain ⟨s0, s1, s2, s3, s4, s5, s6, s7⟩ := ip
  have hsplit : ∀ (s : UInt16) (hi lo : UInt8),
      UInt8.ofNat (s.toNat / 256) = hi ∧ UInt8.ofNat (s.toNat % 256) = lo ↔ s = groupOf hi lo := by
    intro s hi lo
    have := s.toNat_lt
    have := hi.toNat_lt
    have := lo.toNat_lt
    rw [← UInt8.toNat_inj, ← UInt8.toNat_inj, ← UInt16.toNat_inj, groupOf_toNat,
      UInt8.toNat_ofNat', UInt8.toNat_ofNat']
    omega
  simp only [Ipv6Addr.toIpv4Mapped, Ipv4Addr.toIpv6Mapped, Option.ite_none_right_eq_some,
    Option.some.injEq, Ipv4Addr.mk.injEq, Ipv6Addr.mk.injEq, and_assoc, ← hsplit]

/-- Start and length of the first longest run of zero groups. -/
def longestZeros (segs : List UInt16) : Nat × Nat :=
  (segs.zipIdx.foldl (fun (longest, current) (seg, i) =>
    if seg = 0 then
      let current : Nat × Nat := if current.2 = 0 then (i, 1) else (current.1, current.2 + 1)
      (if longest.2 < current.2 then current else longest, current)
    else (longest, (0, 0))) (((0, 0), (0, 0)) : (Nat × Nat) × (Nat × Nat))).1

/-- Groups in hexadecimal, separated by colons. -/
def groupsText (gs : List UInt16) : Text :=
  List.intercalate [':'] (gs.map fun g => Nat.toDigits 16 g.toNat)

def Ipv6Addr.text (ip : Ipv6Addr) : Text :=
  match ip.toIpv4Mapped with
  | some v4 => "::ffff:".toList ++ v4.text
  | none =>
    let (start, len) := longestZeros ip.segments
    if 1 < len then
      groupsText (ip.segments.take start) ++ "::".toList ++
        groupsText (ip.segments.drop (start + len))
    else groupsText ip.segments

def IpAddr.text : IpAddr → Text
  | .v4 ip => ip.text
  | .v6 ip => ip.text

theorem Ipv4Addr.text_isIpChar (ip : Ipv4Addr) : ∀ c ∈ ip.text, isIpChar c = true := by
  have hdecimal : ∀ {n : Nat} {c : Char}, c ∈ decimal n → isIpChar c = true := by
    intro n c hc
    rw [isIpChar, digitVal_of_mem_toDigits (by decide) (by decide) hc]
    rfl
  have hdot : isIpChar '.' = true := by decide
  intro c hc
  simp only [Ipv4Addr.text, List.mem_append, List.mem_cons] at hc
  rcases hc with ((hc | rfl | hc) | rfl | hc) | rfl | hc
  · exact hdecimal hc
  · exact hdot
  · exact hdecimal hc
  · exact hdot
  · exact hdecimal hc
  · exact hdot
  · exact hdecimal hc

theorem groupsText_isIpChar (gs : List UInt16) : ∀ c ∈ groupsText gs, isIpChar c = true := by
  intro c hc
  rcases mem_intercalate hc with hsep | ⟨part, hpart, hc⟩
  · rw [List.mem_singleton.mp hsep]
    decide
  · obtain ⟨g, -, rfl⟩ := List.mem_map.mp hpart
    rw [isIpChar, digitVal_of_mem_toDigits (by decide) (by decide) hc]
    rfl

theorem Ipv6Addr.text_isIpChar (ip : Ipv6Addr) : ∀ c ∈ ip.text, isIpChar c = true := by
  intro c hc
  unfold Ipv6Addr.text at hc
  split at hc
  · rcases List.mem_append.mp hc with hc | hc
    · exact List.all_eq_true.mp (show "::ffff:".toList.all isIpChar = true by decide) c hc
    · exact Ipv4Addr.text_isIpChar _ c hc
  · simp only at hc
    split at hc
    · rcases List.mem_append.mp hc with hc | hc
      · rcases List.mem_append.mp hc with hc | hc
        · exact groupsText_isIpChar _ c hc
        · exact List.all_eq_true.mp (show "::".toList.all isIpChar = true by decide) c hc
      · exact groupsText_isIpChar _ c hc
    · exact groupsText_isIpChar _ c hc

/-- Addresses are written in the characters that they are read from. -/
theorem IpAddr.text_isIpChar (ip : IpAddr) : ∀ c ∈ ip.text, isIpChar c = true := by
  cases ip with
  | v4 ip => exact ip.text_isIpChar
  | v6 ip => exact ip.text_isIpChar

/-! ## Classes -/

namespace Ipv4Addr

def isPrivate (ip : Ipv4Addr) : Bool :=
  ip.a = 10 || (ip.a = 172 && ip.b &&& 0xf0 = 16) || (ip.a = 192 && ip.b = 168)

def isLoopback (ip : Ipv4Addr) : Bool := ip.a = 127

def isLinkLocal (ip : Ipv4Addr) : Bool := ip.a = 169 && ip.b = 254

def isMulticast (ip : Ipv4Addr) : Bool := 224 ≤ ip.a && ip.a ≤ 239

def isBroadcast (ip : Ipv4Addr) : Bool := ip = ⟨255, 255, 255, 255⟩

def isUnspecified (ip : Ipv4Addr) : Bool := ip = ⟨0, 0, 0, 0⟩

def isDocumentation (ip : Ipv4Addr) : Bool :=
  (ip.a = 192 && ip.b = 0 && ip.c = 2) || (ip.a = 198 && ip.b = 51 && ip.c = 100) ||
    (ip.a = 203 && ip.b = 0 && ip.c = 113)

/-- The address as a 32-bit number. -/
def toNat (ip : Ipv4Addr) : Nat :=
  ((ip.a.toNat * 256 + ip.b.toNat) * 256 + ip.c.toNat) * 256 + ip.d.toNat

end Ipv4Addr

namespace Ipv6Addr

def isLoopback (ip : Ipv6Addr) : Bool := ip = ⟨0, 0, 0, 0, 0, 0, 0, 1⟩

def isUnspecified (ip : Ipv6Addr) : Bool := ip = ⟨0, 0, 0, 0, 0, 0, 0, 0⟩

def isMulticast (ip : Ipv6Addr) : Bool := ip.s0 &&& 0xff00 = 0xff00

/-- The address as a 128-bit number. -/
def toNat (ip : Ipv6Addr) : Nat := ip.segments.foldl (fun n s => n * UInt16.size + s.toNat) 0

end Ipv6Addr

/-! ## Networks -/

/-- A network: an address and the number of leading bits that count. -/
inductive IpNetwork where
  | v4 (ip : Ipv4Addr) (bits : Fin 33)
  | v6 (ip : Ipv6Addr) (bits : Fin 129)
  deriving DecidableEq, Repr

/-- Whether an address agrees with the network on its leading bits. -/
def IpNetwork.contains : IpNetwork → IpAddr → Bool
  | .v4 net bits, .v4 ip => net.toNat >>> (32 - bits.val) = ip.toNat >>> (32 - bits.val)
  | .v6 net bits, .v6 ip => net.toNat >>> (128 - bits.val) = ip.toNat >>> (128 - bits.val)
  | _, _ => false

end Flexd.Lib
