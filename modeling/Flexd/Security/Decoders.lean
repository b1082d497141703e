import Flexd.Lib.Percent
import Flexd.StaticFile

/-!
# The two percent-decoders

A request path is decoded twice: when it is validated, to see that it can be,
and again when a file is served for it. `Decodes` says what the first decoder
makes of a text, character by character, and `decodersAgree_iff` on which
texts the second gives the same.
-/

namespace Flexd

open Lib

/-! ## Escapes -/

/-- The byte an escape is decoded to, by its two characters. -/
def escapeByte (h₁ h₂ : Char) : Option UInt8 :=
  (parseUnsigned 16 256 [h₁, h₂]).map UInt8.ofNat

/-- The text of two bytes that spell a byte. -/
theorem hexByte_eq_some {b₁ b₂ b : UInt8} (h : hexByte b₁ b₂ = some b) :
    ∃ h₁ h₂, utf8 [h₁, h₂] = [b₁, b₂] ∧ escapeByte h₁ h₂ = some b := by
  unfold hexByte at h
  obtain ⟨n, hn, rfl⟩ := Option.map_eq_some_iff.mp h
  obtain ⟨t, ht, hparse⟩ := Option.bind_eq_some_iff.mp hn
  have hbytes := fromUtf8_eq_some ht
  have hascii : ∀ c ∈ t, c.toNat < 128 := by
    intro c hc
    rcases parseUnsigned_chars hparse c hc with rfl | hd
    · decide
    · exact isHexDigit_ascii hd
  have hlen : t.length = 2 := by
    rw [utf8_ascii hascii] at hbytes
    simpa using (congrArg List.length hbytes).symm
  obtain ⟨h₁, h₂, rfl⟩ := List.length_eq_two.mp hlen
  exact ⟨h₁, h₂, hbytes.symm, by rw [escapeByte, hparse]; rfl⟩

/-- Where the bytes of a text spell a byte, two of its characters do. -/
theorem text_of_hexByte {t : Text} {b₁ b₂ b : UInt8} {rest : Bytes} (ht : utf8 t = b₁ :: b₂ :: rest)
    (h : hexByte b₁ b₂ = some b) :
    ∃ h₁ h₂ t', t = h₁ :: h₂ :: t' ∧ escapeByte h₁ h₂ = some b ∧ utf8 t' = rest := by
  obtain ⟨h₁, h₂, hu, hb⟩ := hexByte_eq_some h
  obtain ⟨t', rfl, ht'⟩ := utf8_eq_append (p := [h₁, h₂]) (by rw [ht, hu]; rfl)
  exact ⟨h₁, h₂, t', rfl, hb, ht'⟩

/-- Two hexadecimal digits are an escape of the byte they spell. -/
theorem escapeByte_of_hexPair {h₁ h₂ : Char} {b : UInt8} (h : hexPair h₁ h₂ = some b) :
    escapeByte h₁ h₂ = some b := by
  have hdigit := (hexPair_isSome.mp (Option.isSome_of_mem h)).1
  have hplus : h₁ ≠ '+' := by
    rintro rfl
    cases hdigit
  unfold hexPair at h
  split at h
  · next v₁ v₂ hv₁ hv₂ =>
    have hread : digits 16 [h₁, h₂] = some (v₁ * 16 + v₂) := by
      simp [digits, digitsFrom, hv₁, hv₂]
    have hbound : v₁ * 16 + v₂ < 256 := by
      have := digitVal_lt hv₁
      have := digitVal_lt hv₂
      omega
    cases h
    simp [escapeByte, parseUnsigned, hplus, hread, hbound]
  · cases h

/-- An escape has two hexadecimal digits, or a `+` and one. -/
theorem escapeByte_eq_some {h₁ h₂ : Char} {b : UInt8} (h : escapeByte h₁ h₂ = some b) :
    isHexDigit h₂ = true ∧ (h₁ = '+' ∨ hexPair h₁ h₂ = some b) := by
  obtain ⟨n, hn, rfl⟩ := Option.map_eq_some_iff.mp h
  by_cases hplus : h₁ = '+'
  · subst hplus
    have hdigit := parseUnsigned_chars hn h₂ (by simp)
    refine ⟨?_, .inl rfl⟩
    rcases hdigit with rfl | hdigit
    · simp [parseUnsigned, digits, digitsFrom, digitVal] at hn
    · exact hdigit
  · simp only [parseUnsigned, List.head?_cons, Option.some.injEq, hplus, if_false] at hn
    cases h₁v : digitVal 16 h₁ with
    | none => simp [digits, digitsFrom, h₁v] at hn
    | some v₁ =>
      cases h₂v : digitVal 16 h₂ with
      | none => simp [digits, digitsFrom, h₁v, h₂v] at hn
      | some v₂ =>
        simp only [digits, digitsFrom, h₁v, h₂v] at hn
        refine ⟨by rw [isHexDigit, h₂v]; rfl, .inr ?_⟩
        split at hn
        · cases hn
        split at hn
        · cases hn
          simp [hexPair, h₁v, h₂v]
        · cases hn

theorem escapeByte_ne_percent {h₁ h₂ : Char} {b : UInt8} (h : escapeByte h₁ h₂ = some b) :
    h₁ ≠ '%' ∧ h₂ ≠ '%' ∧ h₂ ≠ '+' := by
  obtain ⟨hd, hp⟩ := escapeByte_eq_some h
  refine ⟨?_, ?_, ?_⟩
  · rintro rfl
    rcases hp with hp | hp
    · exact absurd hp (by decide)
    · have := (hexPair_isSome.mp (Option.isSome_of_mem hp)).1
      exact absurd this (by decide)
  · rintro rfl
    exact absurd hd (by decide)
  · rintro rfl
    exact absurd hd (by decide)

theorem hexByte_of_escapeByte {h₁ h₂ : Char} {b b₁ b₂ : UInt8} (h : escapeByte h₁ h₂ = some b)
    (hu : utf8 [h₁, h₂] = [b₁, b₂]) : hexByte b₁ b₂ = some b := by
  rw [hexByte, ← hu, fromUtf8_utf8, Option.bind_some]
  exact h

/-- The characters of an escape take one byte each. -/
theorem utf8_of_escapeByte {h₁ h₂ : Char} {b : UInt8} (h : escapeByte h₁ h₂ = some b) :
    ∃ b₁ b₂, utf8 [h₁, h₂] = [b₁, b₂] := by
  obtain ⟨n, hn, -⟩ := Option.map_eq_some_iff.mp h
  have hascii : ∀ c ∈ [h₁, h₂], c.toNat < 128 := by
    intro c hc
    rcases parseUnsigned_chars hn c hc with rfl | hd
    · decide
    · exact isHexDigit_ascii hd
  exact ⟨_, _, utf8_ascii hascii⟩

/-! ## The decoder of the validation -/

/-- What the decoder of the validation makes of a text: escapes become bytes, and a `%` with less
than two bytes after it stands for itself. -/
inductive Decodes : Text → Bytes → Prop where
  | nil : Decodes [] []
  | plain {c : Char} {t : Text} {out : Bytes} : c ≠ '%' → Decodes t out →
    Decodes (c :: t) (String.utf8EncodeChar c ++ out)
  | escape {h₁ h₂ : Char} {b : UInt8} {t : Text} {out : Bytes} : escapeByte h₁ h₂ = some b →
    Decodes t out → Decodes ('%' :: h₁ :: h₂ :: t) (b :: out)
  | bare {t : Text} : byteLen t < 2 → Decodes ('%' :: t) (37 :: utf8 t)

/-- Bytes of characters that are no `%` are no `%`. -/
theorem not_mem_utf8EncodeChar {c : Char} {n : Nat} (hn : n < 128) (h : c ≠ Char.ofNat n) :
    UInt8.ofNat n ∉ String.utf8EncodeChar c := by
  have hiff := mem_utf8_ascii hn [c]
  simp only [utf8_cons, utf8_nil, List.append_nil, List.mem_singleton] at hiff
  exact fun hmem => h (hiff.mp hmem).symm

namespace UriValidate

theorem urlDecodeBytes_plain {b : UInt8} (h : b ≠ 37) (rest : Bytes) :
    urlDecodeBytes (b :: rest) = (urlDecodeBytes rest).map (b :: ·) := by
  conv_lhs => unfold urlDecodeBytes
  exact if_neg h

theorem urlDecodeBytes_append {bs : Bytes} (h : (37 : UInt8) ∉ bs) (rest : Bytes) :
    urlDecodeBytes (bs ++ rest) = (urlDecodeBytes rest).map (bs ++ ·) := by
  induction bs with
  | nil => simp
  | cons b bs ih =>
    simp only [List.mem_cons, not_or] at h
    rw [List.cons_append, urlDecodeBytes_plain (Ne.symm h.1), ih h.2, Option.map_map]
    rfl

/-- Less than three bytes are no escape. -/
theorem urlDecodeBytes_short {bs : Bytes} (h : bs.length < 3) : urlDecodeBytes bs = some bs := by
  match bs with
  | [] => rfl
  | [b] => simp [urlDecodeBytes]
  | [b, c] => simp [urlDecodeBytes]
  | _ :: _ :: _ :: _ => simp only [List.length_cons] at h; omega

/-- **The decoder, by characters.** -/
theorem decodes {s : Text} {out : Bytes} (h : urlDecodeBytes (utf8 s) = some out) :
    Decodes s out := by
  induction hn : s.length using Nat.strong_induction_on generalizing s out with
  | _ n ih =>
    cases s with
    | nil =>
      cases h
      exact .nil
    | cons c t =>
      subst hn
      by_cases hc : c = '%'
      · subst hc
        by_cases hlen : byteLen t < 2
        · have hshort : (utf8 ('%' :: t)).length < 3 := Nat.succ_lt_succ hlen
          rw [urlDecodeBytes_short hshort] at h
          cases h
          exact .bare hlen
        · -- two bytes follow, and they spell a byte
          have hbytes : utf8 ('%' :: t) = 37 :: utf8 t := rfl
          obtain ⟨b₁, b₂, rest, hrest⟩ : ∃ b₁ b₂ rest, utf8 t = b₁ :: b₂ :: rest := by
            unfold byteLen at hlen
            match hu : utf8 t with
            | [] => simp [hu] at hlen
            | [_] => simp [hu] at hlen
            | b₁ :: b₂ :: rest => exact ⟨b₁, b₂, rest, rfl⟩
          rw [hbytes, hrest, urlDecodeBytes, if_pos rfl] at h
          cases hhex : hexByte b₁ b₂ with
          | none => rw [hhex] at h; cases h
          | some b =>
            rw [hhex] at h
            obtain ⟨out', hout, rfl⟩ := Option.map_eq_some_iff.mp h
            obtain ⟨h₁, h₂, t', rfl, hb, rfl⟩ := text_of_hexByte hrest hhex
            refine .escape hb (ih t'.length ?_ hout rfl)
            simp only [List.length_cons]
            omega
      · rw [utf8_cons, urlDecodeBytes_append (not_mem_utf8EncodeChar (by decide) hc)] at h
        obtain ⟨out', hout, rfl⟩ := Option.map_eq_some_iff.mp h
        exact .plain hc (ih t.length (by simp) hout rfl)

end UriValidate

/-! ## The decoder of the file server -/

namespace StaticFile

/-- A character that is no `%` becomes itself, but `+` a space. -/
theorem urlDecodeBytes_char {c : Char} (h : c ≠ '%') (t : Text) :
    urlDecodeBytes (utf8 (c :: t)) = (urlDecodeBytes (utf8 t)).map
      ((if c = '+' then [32] else String.utf8EncodeChar c) ++ ·) := by
  have hbytes : ((String.utf8EncodeChar c).map fun b => if b = 43 then 32 else b) =
      if c = '+' then [32] else String.utf8EncodeChar c := by
    by_cases hp : c = '+'
    · subst hp
      rfl
    · rw [if_neg hp]
      refine (List.map_congr_left fun b hb => if_neg ?_).trans (List.map_id _)
      rintro rfl
      exact not_mem_utf8EncodeChar (by decide) hp hb
  rw [utf8_cons, urlDecodeBytes_append (not_mem_utf8EncodeChar (by decide) h), hbytes]

theorem urlDecodeBytes_escapeByte {h₁ h₂ : Char} {b : UInt8} (h : escapeByte h₁ h₂ = some b)
    (t : Text) : urlDecodeBytes (utf8 ('%' :: h₁ :: h₂ :: t)) =
      (urlDecodeBytes (utf8 t)).map (b :: ·) := by
  obtain ⟨b₁, b₂, hu⟩ := utf8_of_escapeByte h
  have hbytes : utf8 ('%' :: h₁ :: h₂ :: t) = 37 :: b₁ :: b₂ :: utf8 t := by
    have happ : utf8 (h₁ :: h₂ :: t) = utf8 [h₁, h₂] ++ utf8 t := utf8_append [h₁, h₂] t
    rw [utf8_cons, happ, hu]
    rfl
  rw [hbytes, urlDecodeBytes, if_pos rfl]
  simp only [hexByte_of_escapeByte h hu]

theorem urlDecodeBytes_bare {t : Text} (h : byteLen t < 2) :
    urlDecodeBytes (utf8 ('%' :: t)) = none := by
  have hbytes : utf8 ('%' :: t) = 37 :: utf8 t := rfl
  unfold byteLen at h
  rw [hbytes]
  match hu : utf8 t with
  | [] => rfl
  | [b] => rfl
  | _ :: _ :: _ => rw [hu] at h; simp only [List.length_cons] at h; omega

end StaticFile

/-! ## Agreement -/

/-- Both decoders give the same text. -/
def DecodersAgree (s : Text) : Prop :=
  ∃ d, UriValidate.urlDecode s = some d ∧ StaticFile.urlDecode s = some d

/-- Every `+` directly follows a `%`. -/
def PlusEscaped (s : Text) : Prop := ∀ a b, s = a ++ '+' :: b → a.getLast? = some '%'

/-- Every `%` has two bytes after it. -/
def PercentRoom (s : Text) : Prop := ∀ a b, s = a ++ '%' :: b → 2 ≤ byteLen b

theorem getLast?_cons_eq_some {c d : Char} (h : c ≠ d) {a : Text} :
    (c :: a).getLast? = some d ↔ a.getLast? = some d := by
  cases a with
  | nil => simp [h]
  | cons x a => rw [List.getLast?_cons_cons]

theorem plusEscaped_cons {c : Char} {t : Text} (h : c ≠ '%') :
    PlusEscaped (c :: t) ↔ c ≠ '+' ∧ PlusEscaped t := by
  unfold PlusEscaped
  rw [forall_occurrence_cons]
  simp only [getLast?_cons_eq_some h, List.getLast?_nil, reduceCtorEq, imp_false]

theorem plusEscaped_percent {h : Char} {t : Text} (hne : h ≠ '%') :
    PlusEscaped ('%' :: h :: t) ↔ PlusEscaped t := by
  unfold PlusEscaped
  rw [forall_occurrence_cons, forall_occurrence_cons]
  simp only [List.getLast?_cons_cons, getLast?_cons_eq_some hne]
  simp

theorem percentRoom_cons {c : Char} {t : Text} :
    PercentRoom (c :: t) ↔ (c = '%' → 2 ≤ byteLen t) ∧ PercentRoom t :=
  forall_occurrence_cons

theorem PercentRoom.after_escape {h₁ h₂ : Char} {t : Text}
    (h : PercentRoom ('%' :: h₁ :: h₂ :: t)) : PercentRoom t :=
  (percentRoom_cons.mp (percentRoom_cons.mp (percentRoom_cons.mp h).2).2).2

/-- The file server's decoder gives the same bytes exactly without a bare `+` or `%`. -/
theorem Decodes.static_iff {s : Text} {out : Bytes} (h : Decodes s out) :
    StaticFile.urlDecodeBytes (utf8 s) = some out ↔ PlusEscaped s ∧ PercentRoom s := by
  induction h with
  | nil =>
    refine iff_of_true rfl ⟨?_, ?_⟩ <;> rintro a b hab <;> simp at hab
  | @plain c t out hc _ ih =>
    rw [StaticFile.urlDecodeBytes_char hc, plusEscaped_cons hc, percentRoom_cons]
    by_cases hp : c = '+'
    · subst hp
      refine iff_of_false ?_ (by simp)
      simp only [if_true]
      intro hs
      obtain ⟨out', -, hout⟩ := Option.map_eq_some_iff.mp hs
      exact absurd (List.head_eq_of_cons_eq hout) (by decide)
    · have hmap : (StaticFile.urlDecodeBytes (utf8 t)).map (String.utf8EncodeChar c ++ ·) =
          some (String.utf8EncodeChar c ++ out) ↔
          StaticFile.urlDecodeBytes (utf8 t) = some out := by
        simp [Option.map_eq_some_iff]
      rw [if_neg hp, hmap, ih]
      simp [hc, hp]
  | @escape h₁ h₂ b t out hb _ ih =>
    obtain ⟨hne₁, hne₂, hplus⟩ := escapeByte_ne_percent hb
    have hroom : 2 ≤ h₁.utf8Size + (h₂.utf8Size + byteLen t) := by
      have := h₁.utf8Size_pos
      have := h₂.utf8Size_pos
      omega
    rw [StaticFile.urlDecodeBytes_escapeByte hb, plusEscaped_percent hne₁,
      plusEscaped_cons hne₂, percentRoom_cons, percentRoom_cons, percentRoom_cons]
    simp [hne₁, hne₂, hplus, hroom, ih]
  | bare hlen =>
    rw [StaticFile.urlDecodeBytes_bare hlen]
    refine iff_of_false (by simp) fun h => ?_
    have := (percentRoom_cons.mp h.2).1 rfl
    omega

variable {ext : External} {s : Text}

/-- **The decoders agree** on an accepted path exactly when no `+` and no `%` of it stands for
itself. -/
theorem decodersAgree_iff (h : validateUri ext s = .ok) :
    DecodersAgree s ↔ PlusEscaped s ∧ PercentRoom s := by
  obtain ⟨-, d, hd⟩ := validateUri_eq_ok h
  obtain ⟨out, hout, hutf8⟩ := Option.bind_eq_some_iff.mp hd
  have hbytes := fromUtf8_eq_some hutf8
  rw [← (UriValidate.decodes hout).static_iff]
  constructor
  · rintro ⟨d', hd', hs⟩
    obtain ⟨out', hout', hutf8'⟩ := Option.bind_eq_some_iff.mp hs
    have hsame : d' = d := Option.some.inj (hd'.symm.trans hd)
    rw [hout', fromUtf8_eq_some hutf8', hbytes, hsame]
  · intro hs
    exact ⟨d, hd, by rw [StaticFile.urlDecode, hs]; exact hutf8⟩

theorem decodersAgree_iff_escaped :
    validateUri .sample "/a%20b".toList = .ok ∧ (DecodersAgree "/a%20b".toList ↔
      PlusEscaped "/a%20b".toList ∧ PercentRoom "/a%20b".toList) :=
  ⟨by decide +kernel, decodersAgree_iff (by decide +kernel : validateUri .sample _ = .ok)⟩

/-- `/a+b` is a name with a plus when it is validated, and one with a space when it is served. -/
theorem decoders_differ_on_plus :
    ¬ ∀ s : Text, validateUri .sample s = .ok → DecodersAgree s := by
  intro h
  obtain ⟨d, hd, hs⟩ := h "/a+b".toList (by decide +kernel)
  rw [← hs] at hd
  revert hd
  decide +kernel

end Flexd
