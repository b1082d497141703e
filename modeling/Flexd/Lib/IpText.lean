import Flexd.Lib.Ip
import Flexd.Lib.Numerals

/-!
# Reading addresses back

`parseIp_text`: the reader of literals inverts the canonical spellings. Octets
and groups end where no digit follows (`Stops`); a text without a dot has no
dotted tail; and the longest run of zero groups, which `::` stands for, is cut
out of the groups where it is (`longestZeros_run`).
-/

namespace Flexd.Lib

/-! ## Numbers inside a text -/

/-- No digit follows. -/
def Stops (radix : Nat) (t : Text) : Prop := ∀ c, t.head? = some c → digitVal radix c = none

theorem stops_nil (radix : Nat) : Stops radix [] := nofun

theorem stops_cons {radix : Nat} {c : Char} (h : digitVal radix c = none) (t : Text) :
    Stops radix (c :: t) := by
  intro x hx
  cases hx
  exact h

theorem takeWhile_of_stops {radix : Nat} {t : Text} (h : Stops radix t) :
    t.takeWhile (fun c => (digitVal radix c).isSome) = [] := by
  cases t with
  | nil => rfl
  | cons c t => rw [List.takeWhile_cons, h c rfl]; rfl

theorem Stops.mono {r radix : Nat} {t : Text} (h : Stops radix t) (hr : r ≤ radix) : Stops r t := by
  intro c hc
  cases hval : digitVal r c with
  | none => rfl
  | some v =>
    have hsome := digitVal_isSome_mono hr (c := c) (by rw [hval]; rfl)
    rw [h c hc] at hsome
    cases hsome

/-- A number is read up to where its digits end. -/
theorem readNumber_toDigits {radix maxDigits bound n : Nat} {z : Bool} {rest : Text}
    (h1 : 1 < radix) (h16 : radix ≤ 16) (hlen : (Nat.toDigits radix n).length ≤ maxDigits)
    (hbound : n < bound) (hrest : Stops radix rest) :
    readNumber radix maxDigits bound z (Nat.toDigits radix n ++ rest) = some (n, rest) := by
  have htake : (Nat.toDigits radix n ++ rest).takeWhile (fun c => (digitVal radix c).isSome) =
      Nat.toDigits radix n := by
    rw [List.takeWhile_append_of_pos (digitVal_toDigits h1 h16), takeWhile_of_stops hrest,
      List.append_nil]
  have hdigits : ¬ (Nat.toDigits radix n = [] ∨ maxDigits < (Nat.toDigits radix n).length) :=
    not_or.mpr ⟨Nat.toDigits_ne_nil, Nat.not_lt.mpr hlen⟩
  have hzero : ¬ ((!z) = true ∧ (Nat.toDigits radix n).head? = some '0' ∧
      1 < (Nat.toDigits radix n).length) := by
    rintro ⟨-, hhead, hone⟩
    by_cases hn : n = 0
    · rw [hn, Nat.toDigits_zero] at hone
      exact absurd hone (by decide)
    · exact head?_toDigits h1 h16 hn hhead
  unfold readNumber
  simp only [htake, if_neg hdigits, if_neg hzero, digits_toDigits h1 h16 n, if_pos hbound,
    List.drop_left]

theorem readNumber_of_stops {radix maxDigits bound : Nat} {z : Bool} {t : Text}
    (h : Stops radix t) : readNumber radix maxDigits bound z t = none := by
  unfold readNumber
  simp only [takeWhile_of_stops h]
  exact if_pos (.inl trivial)

theorem readChar_self (c : Char) (t : Text) : readChar c (c :: t) = some t := by
  rw [readChar, if_pos rfl]

/-! ## IPv4 -/

theorem readOctet_decimal (o : UInt8) {rest : Text} (hrest : Stops 10 rest) :
    readOctet (decimal o.toNat ++ rest) = some (o, rest) := by
  have hlt := o.toNat_lt
  have hlen : (Nat.toDigits 10 o.toNat).length ≤ 3 :=
    (Nat.length_toDigits_le_iff (by decide) (by decide)).mpr (by omega)
  have hread : readNumber 10 3 256 false (decimal o.toNat ++ rest) = some (o.toNat, rest) :=
    readNumber_toDigits (by decide) (by decide) hlen hlt hrest
  rw [readOctet, hread]
  show some (UInt8.ofNat o.toNat, rest) = some (o, rest)
  rw [UInt8.ofNat_toNat]

theorem readIpv4_text (ip : Ipv4Addr) {rest : Text} (hrest : Stops 10 rest) :
    readIpv4 (ip.text ++ rest) = some (ip, rest) := by
  have hdot : ∀ t, Stops 10 ('.' :: t) := stops_cons (by decide)
  unfold readIpv4
  simp only [Ipv4Addr.text, List.append_assoc, List.cons_append, readOctet_decimal _ (hdot _),
    readOctet_decimal _ hrest, readChar_self, Option.bind_eq_bind, Option.bind_some,
    Option.pure_def]

/-- A dotted literal has a dot. -/
theorem dot_mem_of_readIpv4 {t rest : Text} {ip : Ipv4Addr} (h : readIpv4 t = some (ip, rest)) :
    '.' ∈ t := by
  unfold readIpv4 at h
  simp only [Option.bind_eq_bind, Option.bind_eq_some_iff, Prod.exists] at h
  obtain ⟨a, t1, h1, t1', c1, -⟩ := h
  obtain ⟨ds, rfl, -⟩ := readOctet_consumed h1
  rw [readChar_consumed c1]
  simp

theorem readIpv4_eq_none {t : Text} (h : '.' ∉ t) : readIpv4 t = none := by
  cases hread : readIpv4 t with
  | none => rfl
  | some r => exact absurd (dot_mem_of_readIpv4 hread) h

/-- What does not start with a digit is no dotted literal. -/
theorem readIpv4_of_stops {t : Text} (h : Stops 10 t) : readIpv4 t = none := by
  have hoctet : readOctet t = none := by
    rw [readOctet, readNumber_of_stops h]
    rfl
  rw [readIpv4, hoctet]
  rfl

/-! ## Groups -/

/-- Groups after the first. -/
def groupsTail (gs : List UInt16) : Text := gs.flatMap fun g => ':' :: Nat.toDigits 16 g.toNat

theorem groupsText_cons (g : UInt16) (gs : List UInt16) :
    groupsText (g :: gs) = Nat.toDigits 16 g.toNat ++ groupsTail gs := by
  induction gs generalizing g with
  | nil => simp [groupsText, groupsTail]
  | cons g' gs ih =>
    have hrest : groupsText (g :: g' :: gs) =
        Nat.toDigits 16 g.toNat ++ ':' :: groupsText (g' :: gs) := by
      simp [groupsText, List.intercalate]
    rw [hrest, ih, groupsTail, groupsTail, List.flatMap_cons]
    rfl

/-- The text ends, or `::` follows. -/
def GroupsEnd (rest : Text) : Prop := rest = [] ∨ ∃ t, rest = ':' :: ':' :: t

theorem stops_groupsTail (gs : List UInt16) {rest : Text} (h : GroupsEnd rest) :
    Stops 16 (groupsTail gs ++ rest) := by
  cases gs with
  | cons g gs => exact stops_cons (by decide) _
  | nil =>
    rcases h with rfl | ⟨t, rfl⟩
    · exact stops_nil 16
    · exact stops_cons (by decide) _

/-- The separator that is read in front of a group. -/
def groupSep (first : Bool) : Text := if first then [] else [':']

theorem readSep (first : Bool) (t : Text) :
    (if first then some (groupSep first ++ t) else readChar ':' (groupSep first ++ t)) =
      some t := by
  cases first with
  | true => rfl
  | false => exact readChar_self ':' t

/-- One group is read, when no dotted tail is there instead. -/
theorem readGroups_group (first : Bool) (n : Nat) (g : UInt16) {rest : Text}
    (hv4 : readIpv4 (Nat.toDigits 16 g.toNat ++ rest) = none) (hrest : Stops 16 rest) :
    readGroups first (n + 1) (groupSep first ++ (Nat.toDigits 16 g.toNat ++ rest)) =
      (g :: (readGroups false n rest).1, (readGroups false n rest).2) := by
  have hlen : (Nat.toDigits 16 g.toNat).length ≤ 4 :=
    (Nat.length_toDigits_le_iff (by decide) (by decide)).mpr g.toNat_lt
  have hread : readNumber 16 4 UInt16.size true (Nat.toDigits 16 g.toNat ++ rest) =
      some (g.toNat, rest) :=
    readNumber_toDigits (by decide) (by decide) hlen g.toNat_lt hrest
  rw [readGroups]
  simp only [readSep, Option.bind_some, hv4, ite_self, hread, UInt16.ofNat_toNat]

/-- A dotted tail fills two groups. -/
theorem readGroups_dotted (first : Bool) {n : Nat} (hn : 1 ≤ n) (ip : Ipv4Addr) :
    readGroups first (n + 1) (groupSep first ++ ip.text) =
      ([groupOf ip.a ip.b, groupOf ip.c ip.d], true, []) := by
  have hread : readIpv4 ip.text = some (ip, []) := by
    rw [← List.append_nil ip.text]
    exact readIpv4_text ip (stops_nil 10)
  rw [readGroups]
  simp only [readSep, Option.bind_some, if_pos hn, hread]

/-- Nothing is read where no group starts. -/
theorem readGroups_end (first : Bool) (n : Nat) {t : Text}
    (h : ∀ u, (if first then some t else readChar ':' t) = some u → Stops 16 u) :
    readGroups first n t = ([], false, t) := by
  cases n with
  | zero => rfl
  | succ n =>
    rw [readGroups]
    cases hsep : if first then some t else readChar ':' t with
    | none => simp only [Option.bind_none, ite_self]
    | some u =>
      have hstop := h u hsep
      simp only [Option.bind_some, readIpv4_of_stops (hstop.mono (by decide)), ite_self,
        readNumber_of_stops hstop]

theorem dot_not_mem_digits (n : Nat) : '.' ∉ Nat.toDigits 16 n := by
  intro h
  have hdigit := digitVal_toDigits (by decide) (by decide) '.' h
  cases hdigit

theorem dot_not_mem_groupsTail (gs : List UInt16) : '.' ∉ groupsTail gs := by
  intro h
  obtain ⟨g, -, hg⟩ := List.mem_flatMap.mp h
  exact dot_not_mem_digits _ ((List.mem_cons.mp hg).resolve_left (by decide))

theorem dot_not_mem_groupsText (gs : List UInt16) : '.' ∉ groupsText gs := by
  cases gs with
  | nil => nofun
  | cons g gs => simp [groupsText_cons, dot_not_mem_digits, dot_not_mem_groupsTail]

/-- One group is read, and then those after it. -/
theorem readGroups_cons (first : Bool) (n : Nat) (g : UInt16) (gs : List UInt16) {rest : Text}
    (hdot : '.' ∉ rest) (hrest : GroupsEnd rest) :
    readGroups first (n + 1)
        (groupSep first ++ (Nat.toDigits 16 g.toNat ++ (groupsTail gs ++ rest))) =
      (g :: (readGroups false n (groupsTail gs ++ rest)).1,
        (readGroups false n (groupsTail gs ++ rest)).2) := by
  have hnodot : '.' ∉ Nat.toDigits 16 g.toNat ++ (groupsTail gs ++ rest) := by
    simp [dot_not_mem_digits, dot_not_mem_groupsTail, hdot]
  exact readGroups_group first n g (readIpv4_eq_none hnodot) (stops_groupsTail gs hrest)

/-- Groups after the first are read up to where they end. -/
theorem readGroups_groupsTail {gs : List UInt16} {n : Nat} (hlen : gs.length ≤ n) {rest : Text}
    (hdot : '.' ∉ rest) (hrest : GroupsEnd rest) :
    readGroups false n (groupsTail gs ++ rest) = (gs, false, rest) := by
  induction gs generalizing n with
  | nil =>
    refine readGroups_end false n fun u hu => ?_
    rcases hrest with rfl | ⟨t, rfl⟩
    · cases hu
    · rw [groupsTail, List.flatMap_nil, List.nil_append] at hu
      cases (readChar_self ':' (':' :: t)).symm.trans hu
      exact stops_cons (by decide) t
  | cons g gs ih =>
    cases n with
    | zero => cases hlen
    | succ n =>
      have htext : groupsTail (g :: gs) ++ rest =
          groupSep false ++ (Nat.toDigits 16 g.toNat ++ (groupsTail gs ++ rest)) := by
        simp [groupsTail, groupSep]
      rw [htext, readGroups_cons false n g gs hdot hrest, ih (Nat.le_of_succ_le_succ hlen)]

/-- Groups are read up to where they end. -/
theorem readGroups_groupsText {gs : List UInt16} {n : Nat} (hlen : gs.length ≤ n) {rest : Text}
    (hdot : '.' ∉ rest) (hrest : GroupsEnd rest) :
    readGroups true n (groupsText gs ++ rest) = (gs, false, rest) := by
  cases gs with
  | nil =>
    refine readGroups_end true n fun u hu => ?_
    cases hu
    exact stops_groupsTail [] hrest
  | cons g gs =>
    cases n with
    | zero => cases hlen
    | succ n =>
      have htext : groupsText (g :: gs) ++ rest =
          groupSep true ++ (Nat.toDigits 16 g.toNat ++ (groupsTail gs ++ rest)) := by
        simp [groupsText_cons, groupSep]
      rw [htext, readGroups_cons true n g gs hdot hrest,
        readGroups_groupsTail (Nat.le_of_succ_le_succ hlen) hdot hrest]

/-! ## The longest run of zeros -/

/-- One group, on the longest run so far and the run that ends here. -/
def zerosStep (runs : (Nat × Nat) × (Nat × Nat)) (group : UInt16 × Nat) :
    (Nat × Nat) × (Nat × Nat) :=
  if group.1 = 0 then
    let current := if runs.2.2 = 0 then (group.2, 1) else (runs.2.1, runs.2.2 + 1)
    (if runs.1.2 < current.2 then current else runs.1, current)
  else (runs.1, (0, 0))

theorem longestZeros_eq (segs : List UInt16) :
    longestZeros segs = (segs.zipIdx.foldl zerosStep ((0, 0), (0, 0))).1 := rfl

/-- The runs are runs of zeros, and the second one ends here. -/
structure ZeroRuns (segs : List UInt16) (runs : (Nat × Nat) × (Nat × Nat)) : Prop where
  longest : ∃ a b, segs = a ++ List.replicate runs.1.2 0 ++ b ∧ a.length = runs.1.1
  current : ∃ a, segs = a ++ List.replicate runs.2.2 0 ∧ (runs.2.2 ≠ 0 → a.length = runs.2.1)

theorem ZeroRuns.step {segs : List UInt16} {runs : (Nat × Nat) × (Nat × Nat)}
    (h : ZeroRuns segs runs) (g : UInt16) :
    ZeroRuns (segs ++ [g]) (zerosStep runs (g, segs.length)) := by
  obtain ⟨⟨a, b, hab, ha⟩, ⟨c, hc, hclen⟩⟩ := h
  have hkeep : ∃ a b, segs ++ [g] = a ++ List.replicate runs.1.2 0 ++ b ∧ a.length = runs.1.1 :=
    ⟨a, b ++ [g], by rw [hab, List.append_assoc], ha⟩
  unfold zerosStep
  by_cases hg : g = 0
  · subst hg
    rw [if_pos rfl]
    have hcurrent : ∃ current : Nat × Nat,
        (if runs.2.2 = 0 then (segs.length, 1) else (runs.2.1, runs.2.2 + 1)) = current ∧
        ∃ d, segs ++ [0] = d ++ List.replicate current.2 0 ∧ d.length = current.1 := by
      by_cases hnew : runs.2.2 = 0
      · exact ⟨_, if_pos hnew, segs, rfl, rfl⟩
      · refine ⟨_, if_neg hnew, c, ?_, hclen hnew⟩
        rw [List.replicate_succ', ← List.append_assoc, ← hc]
    obtain ⟨current, heq, d, hd, hdlen⟩ := hcurrent
    simp only [heq]
    refine ⟨?_, d, hd, fun _ => hdlen⟩
    split
    · exact ⟨d, [], by rw [List.append_nil, hd], hdlen⟩
    · exact hkeep
  · rw [if_neg hg]
    exact ⟨hkeep, segs ++ [g], (List.append_nil _).symm, fun hne => absurd rfl hne⟩

theorem zeroRuns_foldl (segs : List UInt16) :
    ZeroRuns segs (segs.zipIdx.foldl zerosStep ((0, 0), (0, 0))) := by
  induction segs using List.reverseRecOn with
  | nil => exact ⟨⟨[], [], rfl, rfl⟩, [], rfl, fun _ => rfl⟩
  | append_singleton segs g ih =>
    rw [List.zipIdx_append, List.foldl_append, Nat.zero_add]
    exact ih.step g

/-- What is found is a run of zeros where it is found. -/
theorem longestZeros_run {segs : List UInt16} {start len : Nat}
    (h : longestZeros segs = (start, len)) :
    segs.take start ++ List.replicate len 0 ++ segs.drop (start + len) = segs ∧
      (segs.take start).length = start := by
  obtain ⟨a, b, hab, ha⟩ := (zeroRuns_foldl segs).longest
  rw [← longestZeros_eq, h] at hab ha
  dsimp only at hab ha
  subst ha
  have htake : segs.take a.length = a := by
    rw [hab, List.append_assoc, List.take_left]
  have hdrop : segs.drop (a.length + len) = b := by
    have hlen : (a ++ List.replicate len (0 : UInt16)).length = a.length + len := by simp
    rw [hab, ← hlen, List.drop_left]
  rw [htake, hdrop]
  exact ⟨hab.symm, rfl⟩

/-! ## IPv6 -/

theorem ofGroups_segments (ip : Ipv6Addr) : Ipv6Addr.ofGroups ip.segments = ip := rfl

/-- Eight groups are read as they are written. -/
theorem readIpv6_groups (ip : Ipv6Addr) : readIpv6 (groupsText ip.segments) = some (ip, []) := by
  have hread : readGroups true 8 (groupsText ip.segments ++ []) = (ip.segments, false, []) :=
    readGroups_groupsText (Nat.le_refl 8) (by simp) (.inl rfl)
  rw [List.append_nil] at hread
  unfold readIpv6
  simp only [hread]
  exact if_pos rfl

/-- Groups around `::` are read with zeros between them. -/
theorem readIpv6_compressed {head tail : List UInt16} {zeros : Nat}
    (hlen : head.length + tail.length + 1 ≤ 8) (hzeros : head.length + zeros + tail.length = 8) :
    readIpv6 (groupsText head ++ "::".toList ++ groupsText tail) =
      some (.ofGroups (head ++ List.replicate zeros 0 ++ tail), []) := by
  have hdot := dot_not_mem_groupsText tail
  have hhead : readGroups true 8 (groupsText head ++ ':' :: ':' :: groupsText tail) =
      (head, false, ':' :: ':' :: groupsText tail) :=
    readGroups_groupsText (by omega) (by simpa using hdot) (.inr ⟨_, rfl⟩)
  have htail : readGroups true (8 - (head.length + 1)) (groupsText tail ++ []) =
      (tail, false, []) :=
    readGroups_groupsText (by omega) (by simp) (.inl rfl)
  have htext : groupsText head ++ "::".toList ++ groupsText tail =
      groupsText head ++ ':' :: ':' :: groupsText tail := List.append_assoc _ _ _
  rw [List.append_nil] at htail
  have hshort : ¬ head.length = 8 := by omega
  have hfill : 8 - head.length - tail.length = zeros := by omega
  unfold readIpv6
  simp only [htext, hhead, if_neg hshort, Bool.false_eq_true, if_false, readChar_self,
    Option.bind_eq_bind, Option.bind_some, htail, hfill, Option.pure_def]

/-- A mapped address is read by its dotted tail. -/
theorem readIpv6_mapped (v4 : Ipv4Addr) :
    readIpv6 ("::ffff:".toList ++ v4.text) = some (v4.toIpv6Mapped, []) := by
  have hnone : readGroups true 8 (':' :: ':' :: ("ffff:".toList ++ v4.text)) =
      ([], false, ':' :: ':' :: ("ffff:".toList ++ v4.text)) := by
    refine readGroups_end true 8 fun u hu => ?_
    cases hu
    exact stops_cons (by decide) _
  have htail : readGroups true 7 ("ffff:".toList ++ v4.text) =
      ([0xffff, groupOf v4.a v4.b, groupOf v4.c v4.d], true, []) := by
    have hffff : "ffff:".toList ++ v4.text =
        Nat.toDigits 16 (0xffff : UInt16).toNat ++ ':' :: v4.text := rfl
    have hv4 : readIpv4 (Nat.toDigits 16 (0xffff : UInt16).toNat ++ ':' :: v4.text) = none :=
      readIpv4_of_stops (stops_cons (by decide) _)
    have hgroup := readGroups_group true 6 0xffff hv4 (stops_cons (by decide) v4.text)
    have hdotted : readGroups false 6 (':' :: v4.text) = _ :=
      readGroups_dotted false (by decide) v4
    rw [hdotted, ← hffff] at hgroup
    exact hgroup
  have htext : "::ffff:".toList ++ v4.text = ':' :: ':' :: ("ffff:".toList ++ v4.text) := rfl
  unfold readIpv6
  simp only [htext, hnone, List.length_nil, readChar_self, Option.bind_eq_bind, Option.bind_some,
    htail]
  rfl

theorem readIpv6_text (ip : Ipv6Addr) : readIpv6 ip.text = some (ip, []) := by
  unfold Ipv6Addr.text
  cases hmapped : ip.toIpv4Mapped with
  | some v4 =>
    rw [toIpv4Mapped_eq_some.mp hmapped]
    exact readIpv6_mapped v4
  | none =>
    obtain ⟨start, len, hrun⟩ : ∃ start len, longestZeros ip.segments = (start, len) := ⟨_, _, rfl⟩
    obtain ⟨hcut, htake⟩ := longestZeros_run hrun
    simp only [hrun]
    split
    · next hlong =>
      have height := congrArg List.length hcut
      simp only [List.length_append, List.length_replicate] at height
      have h8 : ip.segments.length = 8 := rfl
      rw [readIpv6_compressed (by omega) (by omega : _ + len + _ = 8), hcut,
        ofGroups_segments]
    · exact readIpv6_groups ip

theorem readIpv4_text_v6 (ip : Ipv6Addr) : readIpv4 ip.text = none := by
  unfold Ipv6Addr.text
  split
  · exact readIpv4_of_stops (stops_cons (by decide) _)
  · simp only
    split
    · exact readIpv4_eq_none (by simp [dot_not_mem_groupsText])
    · exact readIpv4_eq_none (dot_not_mem_groupsText _)

/-- **Addresses** are read back from their spelling. -/
theorem parseIp_text (ip : IpAddr) : parseIp ip.text = some ip := by
  cases ip with
  | v4 ip =>
    have hread := readIpv4_text ip (stops_nil 10)
    rw [List.append_nil] at hread
    simp only [parseIp, IpAddr.text, hread]
  | v6 ip => simp only [parseIp, IpAddr.text, readIpv4_text_v6, readIpv6_text]

end Flexd.Lib
