import Mathlib.Data.List.Basic
import Mathlib.Data.List.Infix
import Mathlib.Data.List.TakeWhile

/-!
# Text

A string is its list of characters; its bytes are the UTF-8 encoding
(`utf8`), and `fromUtf8` is the partial inverse. The operations here are the
string operations of the source language that a server is written with:
splitting at the first or the last occurrence of a character, trimming,
case folding, parsing of unsigned numbers. Byte offsets appear only in
`byteLen` and `splitAtByte`; an offset inside a character has no split.
-/

namespace Flexd.Lib

/-- A string, as its characters. -/
abbrev Text := List Char

/-- A byte string. -/
abbrev Bytes := List UInt8

/-! ## UTF-8 -/

/-- The UTF-8 bytes of a text. -/
def utf8 (t : Text) : Bytes := t.flatMap String.utf8EncodeChar

/-- The text whose UTF-8 bytes are `bs`, if there is one. -/
def fromUtf8 (bs : Bytes) : Option Text := (bs.toByteArray.utf8Decode?).map (·.toList)

@[simp] theorem utf8_nil : utf8 [] = [] := rfl

@[simp] theorem utf8_cons (c : Char) (t : Text) :
    utf8 (c :: t) = String.utf8EncodeChar c ++ utf8 t := rfl

theorem fromUtf8_utf8 (t : Text) : fromUtf8 (utf8 t) = some t := by
  have h : (utf8 t).toByteArray = t.utf8Encode := rfl
  unfold fromUtf8
  rw [h, List.utf8Decode?_utf8Encode]
  simp

theorem utf8_inj {s t : Text} (h : utf8 s = utf8 t) : s = t := by
  have hs := fromUtf8_utf8 s
  rw [h, fromUtf8_utf8] at hs
  exact (Option.some.inj hs).symm

/-- Decoding inverts encoding: only the encoding of `t` decodes to `t`. -/
theorem fromUtf8_eq_some {bs : Bytes} {t : Text} (h : fromUtf8 bs = some t) : bs = utf8 t := by
  unfold fromUtf8 at h
  obtain ⟨a, ha, rfl⟩ := Option.map_eq_some_iff.mp h
  have hs : bs.toByteArray.utf8Decode?.isSome := by rw [ha]; rfl
  have hg : bs.toByteArray.utf8Decode?.get hs = a := by simp [ha]
  have he := ByteArray.utf8Encode_get_utf8Decode? (b := bs.toByteArray) (h := hs)
  rw [hg] at he
  have hb : (utf8 a.toList).toByteArray = bs.toByteArray := he
  exact (List.toByteArray_inj.mp hb).symm

/-- The bytes of a character below `0x80`. -/
theorem utf8EncodeChar_ascii {c : Char} (h : c.toNat < 128) :
    String.utf8EncodeChar c = [UInt8.ofNat c.toNat] := by
  have hv : c.val.toNat ≤ 127 := Nat.le_of_lt_succ h
  unfold String.utf8EncodeChar
  rw [if_pos hv]
  rfl

/-- The bytes of an ASCII text are its characters. -/
theorem utf8_ascii {t : Text} (h : ∀ c ∈ t, c.toNat < 128) :
    utf8 t = t.map fun c => UInt8.ofNat c.toNat := by
  induction t with
  | nil => rfl
  | cons c t ih =>
    rw [utf8_cons, utf8EncodeChar_ascii (h c (by simp)), ih fun x hx => h x (by simp [hx])]
    rfl

/-- Every byte of a character from `0x80` on is at least `0x80`. -/
theorem le_of_mem_utf8EncodeChar {c : Char} {b : UInt8} (h : 128 ≤ c.toNat)
    (hb : b ∈ String.utf8EncodeChar c) : 128 ≤ b.toNat := by
  have hv : ¬ c.val.toNat ≤ 127 := by show ¬ c.toNat ≤ 127; omega
  unfold String.utf8EncodeChar at hb
  rw [if_neg hv] at hb
  split at hb
  · simp only [List.mem_cons, List.not_mem_nil, or_false] at hb
    rcases hb with rfl | rfl <;> simp [UInt8.toNat_ofNat'] <;> omega
  split at hb
  · simp only [List.mem_cons, List.not_mem_nil, or_false] at hb
    rcases hb with rfl | rfl | rfl <;> simp [UInt8.toNat_ofNat'] <;> omega
  · simp only [List.mem_cons, List.not_mem_nil, or_false] at hb
    rcases hb with rfl | rfl | rfl | rfl <;> simp [UInt8.toNat_ofNat'] <;> omega

/-- An ASCII byte occurs in the encoding exactly where its character occurs in the text. -/
theorem mem_utf8_ascii {n : Nat} (hn : n < 128) (t : Text) :
    UInt8.ofNat n ∈ utf8 t ↔ Char.ofNat n ∈ t := by
  induction t with
  | nil => simp
  | cons c t ih =>
    have hc : (Char.ofNat n).toNat = n := by
      have hv : n.isValidChar := .inl (by omega)
      rw [Char.ofNat, dif_pos hv]
      rfl
    simp only [utf8_cons, List.mem_append, List.mem_cons, ih]
    refine or_congr ?_ Iff.rfl
    by_cases ha : c.toNat < 128
    · rw [utf8EncodeChar_ascii ha, List.mem_singleton]
      constructor
      · intro h
        have h' := congrArg UInt8.toNat h
        simp only [UInt8.toNat_ofNat'] at h'
        rw [← Char.ofNat_toNat c]
        congr 1
        omega
      · rintro rfl
        rw [hc]
    · constructor
      · intro h
        have := le_of_mem_utf8EncodeChar (by omega) h
        simp only [UInt8.toNat_ofNat'] at this
        omega
      · intro h
        rw [h] at hc
        omega

/-! ## Byte offsets -/

/-- The length in bytes. -/
def byteLen (t : Text) : Nat := (utf8 t).length

@[simp] theorem byteLen_nil : byteLen [] = 0 := rfl

@[simp] theorem byteLen_cons (c : Char) (t : Text) : byteLen (c :: t) = c.utf8Size + byteLen t := by
  simp [byteLen, String.length_utf8EncodeChar]

/-- The text before and after byte `n`; none when `n` is inside a character or past the end. -/
def splitAtByte : Text → Nat → Option (Text × Text)
  | t, 0 => some ([], t)
  | [], _ + 1 => none
  | c :: t, n + 1 =>
    if c.utf8Size ≤ n + 1 then
      (splitAtByte t (n + 1 - c.utf8Size)).map fun (a, b) => (c :: a, b)
    else none

/-- Byte `n` of a text lies inside a character. -/
def InsideChar (t : Text) (n : Nat) : Prop :=
  ∃ a c b, t = a ++ c :: b ∧ byteLen a < n ∧ n < byteLen a + c.utf8Size

theorem byteLen_append (s t : Text) : byteLen (s ++ t) = byteLen s + byteLen t := by
  simp [byteLen, utf8]

theorem InsideChar.lt {t : Text} {n : Nat} (h : InsideChar t n) : n < byteLen t := by
  obtain ⟨a, c, b, rfl, -, hlt⟩ := h
  rw [byteLen_append, byteLen_cons]
  omega

theorem splitAtByte_eq_some {t a b : Text} {n : Nat} :
    splitAtByte t n = some (a, b) ↔ t = a ++ b ∧ byteLen a = n := by
  fun_induction splitAtByte t n generalizing a with
  | case1 t =>
    constructor
    · intro h; cases h; exact ⟨rfl, rfl⟩
    · rintro ⟨rfl, ha⟩
      cases a with
      | nil => rfl
      | cons c a =>
        have := c.utf8Size_pos
        rw [byteLen_cons] at ha
        omega
  | case2 n =>
    refine iff_of_false (by simp) ?_
    rintro ⟨hnil, ha⟩
    rw [(List.append_eq_nil_iff.mp hnil.symm).1] at ha
    cases ha
  | case3 c t n hsize ih =>
    simp only [Option.map_eq_some_iff, Prod.exists, Prod.mk.injEq]
    constructor
    · rintro ⟨a', b', h, rfl, rfl⟩
      obtain ⟨rfl, ha⟩ := ih.mp h
      refine ⟨rfl, ?_⟩
      rw [byteLen_cons]
      omega
    · rintro ⟨h, ha⟩
      cases a with
      | nil => cases ha
      | cons d a =>
        simp only [List.cons_append, List.cons.injEq] at h
        obtain ⟨rfl, rfl⟩ := h
        rw [byteLen_cons] at ha
        exact ⟨a, b, ih.mpr ⟨rfl, by omega⟩, rfl, rfl⟩
  | case4 c t n hsize =>
    refine iff_of_false (by simp) ?_
    rintro ⟨h, ha⟩
    cases a with
    | nil => cases ha
    | cons d a =>
      simp only [List.cons_append, List.cons.injEq] at h
      rw [byteLen_cons, ← h.1] at ha
      omega

theorem splitAtByte_eq_none {t : Text} {n : Nat} :
    splitAtByte t n = none ↔ byteLen t < n ∨ InsideChar t n := by
  fun_induction splitAtByte t n with
  | case1 t =>
    refine iff_of_false (by simp) ?_
    rintro (h | ⟨a, c, b, -, h, -⟩) <;> omega
  | case2 n => simp
  | case3 c t n hsize ih =>
    rw [Option.map_eq_none_iff, ih, byteLen_cons]
    refine or_congr (by omega) ?_
    constructor
    · rintro ⟨a, d, b, rfl, hlt, hgt⟩
      refine ⟨c :: a, d, b, rfl, ?_, ?_⟩ <;> rw [byteLen_cons] <;> omega
    · rintro ⟨a, d, b, h, hlt, hgt⟩
      cases a with
      | nil =>
        simp only [List.nil_append, List.cons.injEq] at h
        rw [byteLen_nil, ← h.1] at hgt
        omega
      | cons x a =>
        simp only [List.cons_append, List.cons.injEq] at h
        obtain ⟨rfl, rfl⟩ := h
        rw [byteLen_cons] at hlt hgt
        exact ⟨a, d, b, rfl, by omega, by omega⟩
  | case4 c t n hsize =>
    refine iff_of_true rfl (.inr ⟨[], c, t, rfl, ?_, ?_⟩) <;> rw [byteLen_nil] <;> omega

/-! ## Splitting -/

/-- The occurrences of a letter in a list: its head, and those in the rest. -/
theorem forall_occurrence_cons {α : Type*} {x c : α} {t : List α} {P : List α → List α → Prop} :
    (∀ a b, c :: t = a ++ x :: b → P a b) ↔
      (c = x → P [] t) ∧ ∀ a b, t = a ++ x :: b → P (c :: a) b := by
  constructor
  · intro h
    exact ⟨fun hc => h [] t (by rw [hc]; rfl), fun a b hab => h (c :: a) b (by rw [hab]; rfl)⟩
  · rintro ⟨hc, ht⟩ a b hab
    cases a with
    | nil =>
      obtain ⟨rfl, rfl⟩ := List.cons.inj hab
      exact hc rfl
    | cons y a =>
      obtain ⟨rfl, rfl⟩ := List.cons.inj hab
      exact ht a b rfl

theorem exists_occurrence_cons {α : Type*} {x c : α} {t : List α} {P : List α → List α → Prop} :
    (∃ a b, c :: t = a ++ x :: b ∧ P a b) ↔
      (c = x ∧ P [] t) ∨ ∃ a b, t = a ++ x :: b ∧ P (c :: a) b := by
  constructor
  · rintro ⟨a, b, hab, h⟩
    cases a with
    | nil =>
      obtain ⟨rfl, rfl⟩ := List.cons.inj hab
      exact .inl ⟨rfl, h⟩
    | cons y a =>
      obtain ⟨rfl, rfl⟩ := List.cons.inj hab
      exact .inr ⟨a, b, rfl, h⟩
  · rintro (⟨rfl, h⟩ | ⟨a, b, rfl, h⟩)
    · exact ⟨[], t, rfl, h⟩
    · exact ⟨c :: a, b, rfl, h⟩

/-- Split at the last occurrence of `c`. -/
def rsplitOnce (c : Char) : Text → Option (Text × Text)
  | [] => none
  | x :: xs =>
    match rsplitOnce c xs with
    | some (a, b) => some (x :: a, b)
    | none => if x = c then some ([], xs) else none

theorem rsplitOnce_eq_none {c : Char} {t : Text} : rsplitOnce c t = none ↔ c ∉ t := by
  induction t with
  | nil => simp [rsplitOnce]
  | cons x xs ih =>
    simp only [rsplitOnce, List.mem_cons, not_or]
    cases h : rsplitOnce c xs with
    | none =>
      have hx := ih.mp h
      by_cases e : x = c
      · simp [e]
      · simp [e, hx, Ne.symm e]
    | some p =>
      have hx : c ∈ xs := by
        by_contra hn
        rw [ih.mpr hn] at h
        cases h
      simp [hx]

theorem rsplitOnce_eq_some {c : Char} {t a b : Text} :
    rsplitOnce c t = some (a, b) ↔ t = a ++ c :: b ∧ c ∉ b := by
  induction t generalizing a b with
  | nil => simp [rsplitOnce]
  | cons x xs ih =>
    simp only [rsplitOnce]
    cases h : rsplitOnce c xs with
    | none =>
      have hx := rsplitOnce_eq_none.mp h
      constructor
      · intro he
        simp only at he
        split at he
        · next e =>
          cases he
          exact ⟨by rw [e]; rfl, hx⟩
        · cases he
      · rintro ⟨he, hb⟩
        cases a with
        | nil =>
          simp only [List.nil_append, List.cons.injEq] at he
          obtain ⟨rfl, rfl⟩ := he
          simp
        | cons y a =>
          simp only [List.cons_append, List.cons.injEq] at he
          exact absurd (he.2 ▸ by simp) hx
    | some p =>
      obtain ⟨a', b'⟩ := p
      have hp := ih.mp h
      constructor
      · intro he
        cases he
        exact ⟨by rw [hp.1]; rfl, hp.2⟩
      · rintro ⟨he, hb⟩
        cases a with
        | nil =>
          simp only [List.nil_append, List.cons.injEq] at he
          exact absurd (he.2 ▸ hp.1 ▸ by simp) hb
        | cons y a =>
          simp only [List.cons_append, List.cons.injEq] at he
          have := ih.mpr ⟨he.2, hb⟩
          rw [h] at this
          cases this
          simp [he.1]

/-- What follows the last occurrence of `c`; all of it when there is none. -/
def afterLast (c : Char) (t : Text) : Text :=
  match rsplitOnce c t with
  | some (_, b) => b
  | none => t

theorem afterLast_of_not_mem {c : Char} {t : Text} (h : c ∉ t) : afterLast c t = t := by
  simp [afterLast, rsplitOnce_eq_none.mpr h]

theorem dropWhile_ne_eq_cons {c : Char} {t : Text} (h : c ∈ t) :
    t.dropWhile (· ≠ c) = c :: (t.dropWhile (· ≠ c)).tail := by
  induction t with
  | nil => cases h
  | cons x t ih =>
    by_cases e : x = c
    · simp [e]
    · simp only [List.dropWhile_cons, ne_eq, e, not_false_eq_true, decide_true, if_true]
      exact ih ((List.mem_cons.mp h).resolve_left (Ne.symm e))

/-- The text up to a letter, and the text from it, when it is not in the first part. -/
theorem span_append_of_not_mem {c : Char} {s : Text} (h : c ∉ s) (t : Text) :
    (s ++ t).takeWhile (· ≠ c) = s ++ t.takeWhile (· ≠ c) ∧
      (s ++ t).dropWhile (· ≠ c) = t.dropWhile (· ≠ c) := by
  have hall : ∀ x ∈ s, decide (x ≠ c) = true := by
    intro x hx
    have hne : x ≠ c := ne_of_mem_of_not_mem hx h
    simpa using hne
  exact ⟨List.takeWhile_append_of_pos hall, List.dropWhile_append_of_pos hall⟩

theorem takeWhile_ne_append {c : Char} {s : Text} (h : c ∉ s) (t : Text) :
    (s ++ c :: t).takeWhile (· ≠ c) = s := by
  rw [(span_append_of_not_mem h _).1]
  simp

/-- A map that tells the separator from the other letters commutes with splitting. -/
theorem splitOn_map {α β : Type*} [DecidableEq α] [DecidableEq β] {f : α → β} {a : α} {b : β}
    {l : List α} (h : ∀ x ∈ l, (f x == b) = (x == a)) :
    (l.map f).splitOn b = (l.splitOn a).map (List.map f) := by
  induction l with
  | nil => rfl
  | cons x l ih =>
    have hl := ih fun y hy => h y (by simp [hy])
    rw [List.map_cons, List.splitOn_cons_eq_if_modifyHead, List.splitOn_cons_eq_if_modifyHead,
      hl, h x (by simp)]
    by_cases hx : (x == a) = true
    · rw [if_pos hx, if_pos hx]
      rfl
    · rw [if_neg hx, if_neg hx]
      cases l.splitOn a <;> rfl

theorem infix_intercalate {α : Type*} {ls : List (List α)} {e : List α} (he : e ∈ ls)
    (sep : List α) : e <:+: sep.intercalate ls := by
  induction ls with
  | nil => cases he
  | cons l ls ih =>
    by_cases hnil : ls = []
    · subst hnil
      rw [List.mem_singleton] at he
      rw [he, List.intercalate_singleton]
    · rw [List.intercalate_cons_of_ne_nil hnil]
      rcases List.mem_cons.mp he with rfl | he
      · rw [List.append_assoc]
        exact (List.prefix_append _ _).isInfix
      · exact (ih he).trans (List.suffix_append _ _).isInfix

/-- A part of a split is a stretch of the list. -/
theorem infix_of_mem_splitOn {α : Type*} [DecidableEq α] {a : α} {l e : List α}
    (he : e ∈ l.splitOn a) : e <:+: l := by
  have hinfix := infix_intercalate he [a]
  rwa [List.intercalate_splitOn] at hinfix

theorem mem_of_mem_splitOn {α : Type*} [DecidableEq α] {a x : α} {l e : List α}
    (he : e ∈ l.splitOn a) (hx : x ∈ e) : x ∈ l :=
  (infix_of_mem_splitOn he).subset hx

theorem dropWhile_map_of {α β : Type*} {f : α → β} {p : β → Bool} {q : α → Bool} {l : List α}
    (h : ∀ x ∈ l, p (f x) = q x) : (l.map f).dropWhile p = (l.dropWhile q).map f := by
  induction l with
  | nil => rfl
  | cons x l ih =>
    rw [List.map_cons, List.dropWhile_cons, List.dropWhile_cons, h x (by simp)]
    by_cases hx : q x = true
    · rw [if_pos hx, if_pos hx]
      exact ih fun y hy => h y (by simp [hy])
    · rw [if_neg hx, if_neg hx]
      rfl

/-! ## Whitespace and case -/

/-- The Unicode `White_Space` characters. -/
def isWhitespace (c : Char) : Bool :=
  let n := c.toNat
  (9 ≤ n && n ≤ 13) || n == 0x20 || n == 0x85 || n == 0xA0 || n == 0x1680 ||
    (0x2000 ≤ n && n ≤ 0x200A) || n == 0x2028 || n == 0x2029 || n == 0x202F || n == 0x205F ||
    n == 0x3000

/-- The text without the whitespace around it. -/
def trim (t : Text) : Text :=
  ((t.dropWhile isWhitespace).reverse.dropWhile isWhitespace).reverse

/-- ASCII letters in lower case, everything else as it is. -/
def asciiLower (t : Text) : Text := t.map Char.toLower

/-- A capital letter is 32 further up in lower case, anything else stays. -/
theorem toLower_cases (c : Char) :
    (65 ≤ c.toNat ∧ c.toNat ≤ 90 ∧ c.toLower.toNat = c.toNat + 32) ∨
      (¬ (65 ≤ c.toNat ∧ c.toNat ≤ 90) ∧ c.toLower = c) := by
  by_cases hc : 65 ≤ c.toNat ∧ c.toNat ≤ 90
  · refine .inl ⟨hc.1, hc.2, ?_⟩
    have hv : c.val ≥ 'A'.val ∧ c.val ≤ 'Z'.val := hc
    unfold Char.toLower
    rw [dif_pos hv]
    show (c.val + 32).toNat = c.val.toNat + 32
    have h90 : c.val.toNat ≤ 90 := hc.2
    rw [UInt32.toNat_add]
    show (c.val.toNat + 32) % 4294967296 = _
    omega
  · refine .inr ⟨hc, ?_⟩
    unfold Char.toLower
    exact dif_neg hc

theorem toLower_toLower (c : Char) : c.toLower.toLower = c.toLower := by
  rcases toLower_cases c with ⟨h65, h90, hup⟩ | ⟨-, hfix⟩
  · -- the lower-case letter is out of the range of the capitals
    rcases toLower_cases c.toLower with ⟨-, hle, -⟩ | ⟨-, hfix⟩
    · omega
    · exact hfix
  · rw [hfix, hfix]

theorem toLower_ascii {c : Char} : c.toLower.toNat < 128 ↔ c.toNat < 128 := by
  rcases toLower_cases c with ⟨h65, h90, hup⟩ | ⟨-, hfix⟩
  · omega
  · rw [hfix]

/-- Only a character that is no letter has itself in lower case and nothing else. -/
theorem toLower_eq_iff {c d : Char} (hup : ¬ (65 ≤ d.toNat ∧ d.toNat ≤ 90))
    (hlow : ¬ (97 ≤ d.toNat ∧ d.toNat ≤ 122)) : c.toLower = d ↔ c = d := by
  rcases toLower_cases c with ⟨h65, h90, hshift⟩ | ⟨-, hfix⟩
  · constructor
    · rintro rfl
      omega
    · rintro rfl
      exact absurd ⟨h65, h90⟩ hup
  · rw [hfix]

theorem asciiLower_asciiLower (t : Text) : asciiLower (asciiLower t) = asciiLower t := by
  simp only [asciiLower, List.map_map]
  apply List.map_congr_left
  intro c _
  exact toLower_toLower c

/-- Equality up to the case of ASCII letters. -/
def eqIgnoreAsciiCase (s t : Text) : Bool := asciiLower s == asciiLower t

theorem eqIgnoreAsciiCase_iff {s t : Text} :
    eqIgnoreAsciiCase s t = true ↔ asciiLower s = asciiLower t := beq_iff_eq

/-- Two spellings of a text agree on what is no letter. -/
theorem mem_of_asciiLower_eq {s t : Text} (h : asciiLower s = asciiLower t) {d : Char}
    (hup : ¬ (65 ≤ d.toNat ∧ d.toNat ≤ 90)) (hlow : ¬ (97 ≤ d.toNat ∧ d.toNat ≤ 122))
    (hd : d ∈ s) : d ∈ t := by
  have hmem : d ∈ asciiLower t := by
    rw [← h]
    exact List.mem_map.mpr ⟨d, hd, (toLower_eq_iff hup hlow).mpr rfl⟩
  obtain ⟨c, hc, hcd⟩ := List.mem_map.mp hmem
  rwa [← (toLower_eq_iff hup hlow).mp hcd]

theorem head_of_asciiLower_eq {s t : Text} (h : asciiLower s = asciiLower t) {d : Char}
    (hup : ¬ (65 ≤ d.toNat ∧ d.toNat ≤ 90)) (hlow : ¬ (97 ≤ d.toNat ∧ d.toNat ≤ 122))
    (hd : s.head? = some d) : t.head? = some d := by
  have hhead := congrArg List.head? h
  simp only [asciiLower, List.head?_map, hd, Option.map_some] at hhead
  obtain ⟨c, hc, hcd⟩ := Option.map_eq_some_iff.mp hhead.symm
  rw [(toLower_eq_iff hup hlow).mpr rfl, toLower_eq_iff hup hlow] at hcd
  rwa [← hcd]

/-! ## Numbers -/

/-- The value of a digit in a base of at most 16. -/
def digitVal (radix : Nat) (c : Char) : Option Nat :=
  let v :=
    if '0' ≤ c ∧ c ≤ '9' then c.toNat - '0'.toNat
    else if 'a' ≤ c ∧ c ≤ 'f' then c.toNat - 'a'.toNat + 10
    else if 'A' ≤ c ∧ c ≤ 'F' then c.toNat - 'A'.toNat + 10
    else radix
  if v < radix then some v else none

theorem digitVal_lt {radix : Nat} {c : Char} {v : Nat} (h : digitVal radix c = some v) :
    v < radix := by
  obtain ⟨hlt, heq⟩ := Option.ite_none_right_eq_some.mp h
  exact Option.some.inj heq ▸ hlt

/-- A digit is one in every larger base. -/
theorem digitVal_isSome_mono {r s : Nat} (h : r ≤ s) {c : Char}
    (hc : (digitVal r c).isSome = true) : (digitVal s c).isSome = true := by
  have hval : ∀ v radix : Nat, (if v < radix then some v else none).isSome = true ↔ v < radix := by
    intro v radix
    by_cases hv : v < radix <;> simp [hv]
  unfold digitVal at hc ⊢
  simp only [hval] at hc ⊢
  by_cases h9 : '0' ≤ c ∧ c ≤ '9'
  · rw [if_pos h9] at hc ⊢
    exact Nat.lt_of_lt_of_le hc h
  rw [if_neg h9] at hc ⊢
  by_cases hf : 'a' ≤ c ∧ c ≤ 'f'
  · rw [if_pos hf] at hc ⊢
    exact Nat.lt_of_lt_of_le hc h
  rw [if_neg hf] at hc ⊢
  by_cases hF : 'A' ≤ c ∧ c ≤ 'F'
  · rw [if_pos hF] at hc ⊢
    exact Nat.lt_of_lt_of_le hc h
  · rw [if_neg hF] at hc
    exact absurd hc (Nat.lt_irrefl _)

/-- The number `acc` followed by the digits of a text denotes, none if one of them is no digit. -/
def digitsFrom (radix : Nat) : Nat → Text → Option Nat
  | acc, [] => some acc
  | acc, c :: t =>
    match digitVal radix c with
    | some v => digitsFrom radix (acc * radix + v) t
    | none => none

/-- The number a list of digits denotes. -/
def digits (radix : Nat) (t : Text) : Option Nat := digitsFrom radix 0 t

/-- An unsigned number below `bound`: digits, after an optional `+`. -/
def parseUnsigned (radix bound : Nat) (t : Text) : Option Nat :=
  let body := if t.head? = some '+' then t.tail else t
  if body = [] then none
  else
    match digits radix body with
    | some n => if n < bound then some n else none
    | none => none

theorem digitVal_of_digitsFrom {radix acc n : Nat} {t : Text}
    (h : digitsFrom radix acc t = some n) : ∀ c ∈ t, (digitVal radix c).isSome = true := by
  induction t generalizing acc with
  | nil => simp
  | cons c t ih =>
    simp only [digitsFrom] at h
    split at h
    · next v hv =>
      intro x hx
      rcases List.mem_cons.mp hx with rfl | hx
      · rw [hv]; rfl
      · exact ih h x hx
    · cases h

/-- A number is written with digits and at most a leading `+`. -/
theorem parseUnsigned_chars {radix bound : Nat} {t : Text} {n : Nat}
    (h : parseUnsigned radix bound t = some n) :
    ∀ c ∈ t, c = '+' ∨ (digitVal radix c).isSome = true := by
  have hbody : ∀ body : Text, (if body = [] then none else
      match digits radix body with
      | some n => if n < bound then some n else none
      | none => none) = some n → ∀ c ∈ body, (digitVal radix c).isSome = true := by
    intro body hb
    split at hb
    · cases hb
    split at hb
    · next hd => exact digitVal_of_digitsFrom hd
    · cases hb
  have hall := hbody _ h
  intro c hc
  by_cases hplus : t.head? = some '+'
  · rw [if_pos hplus] at hall
    obtain ⟨t', rfl⟩ : ∃ t', t = '+' :: t' := by
      cases t with
      | nil => cases hplus
      | cons x t =>
        simp only [List.head?_cons, Option.some.injEq] at hplus
        exact ⟨t, by rw [hplus]⟩
    rcases List.mem_cons.mp hc with rfl | hc
    · exact .inl rfl
    · exact .inr (hall c hc)
  · rw [if_neg hplus] at hall
    exact .inr (hall c hc)

/-- `u16` in decimal. -/
def parseU16 (t : Text) : Option UInt16 := (parseUnsigned 10 UInt16.size t).map UInt16.ofNat

theorem parseU16_chars {t : Text} {p : UInt16} (h : parseU16 t = some p) :
    ∀ c ∈ t, c = '+' ∨ (digitVal 10 c).isSome = true := by
  obtain ⟨n, hn, -⟩ := Option.map_eq_some_iff.mp h
  exact parseUnsigned_chars hn

theorem not_mem_of_parseU16 {t : Text} {p : UInt16} (h : parseU16 t = some p) {c : Char}
    (hplus : c ≠ '+') (hdigit : (digitVal 10 c).isSome = false) : c ∉ t := by
  intro hmem
  rcases parseU16_chars h c hmem with hc | hc
  · exact hplus hc
  · rw [hdigit] at hc
    cases hc

/-- `usize` in decimal. -/
def parseUsize (t : Text) : Option Nat := parseUnsigned 10 UInt64.size t

/-- A number in decimal. -/
def decimal (n : Nat) : Text := Nat.toDigits 10 n

theorem digitVal_digitChar {b n : Nat} (hb : b ≤ 16) (h : n < b) :
    digitVal b (Nat.digitChar n) = some n := by
  have hall : ∀ b ≤ 16, ∀ n < b, digitVal b (Nat.digitChar n) = some n := by decide
  exact hall b hb n h

/-- A joined text has the characters of its parts and of the separator. -/
theorem mem_intercalate {sep : Text} {parts : List Text} {c : Char}
    (h : c ∈ List.intercalate sep parts) : c ∈ sep ∨ ∃ part ∈ parts, c ∈ part := by
  induction parts with
  | nil => cases h
  | cons part parts ih =>
    cases parts with
    | nil => exact .inr ⟨part, List.mem_singleton_self part, by simpa [List.intercalate] using h⟩
    | cons next parts =>
      have hsplit : List.intercalate sep (part :: next :: parts) =
          part ++ (sep ++ List.intercalate sep (next :: parts)) := by
        simp [List.intercalate]
      rw [hsplit] at h
      rcases List.mem_append.mp h with hc | hc
      · exact .inr ⟨part, List.mem_cons_self, hc⟩
      rcases List.mem_append.mp hc with hc | hc
      · exact .inl hc
      · rcases ih hc with hsep | ⟨q, hq, hc⟩
        · exact .inl hsep
        · exact .inr ⟨q, List.mem_cons_of_mem _ hq, hc⟩

end Flexd.Lib
