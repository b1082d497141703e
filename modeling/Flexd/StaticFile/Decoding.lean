import Flexd.Security.Decoders

/-!
# Decoding undoes encoding

Whatever a name is percent-encoded to, with more or fewer escapes and digits of
either case, the file server decodes it to that name. And it decodes nothing to a
name that is not text: its bytes differ from those that the escapes stand for
only in ASCII (`urlDecodeBytes_variant`), by the `+` it reads as a space and the
`%+` it takes for the start of an escape.
-/

namespace Flexd

open Lib

/-- The ASCII letters and digits, `-`, `.`, `_` and `~`. -/
def isUnreserved (c : Char) : Bool :=
  ('a' ≤ c && c ≤ 'z') || ('A' ≤ c && c ≤ 'Z') || ('0' ≤ c && c ≤ '9') ||
    c = '-' || c = '.' || c = '_' || c = '~'

/-- A percent-encoding of bytes: each as itself, if it is an unreserved character or a slash, or as
an escape. -/
inductive PercentEncodes : Bytes → Text → Prop where
  | nil : PercentEncodes [] []
  | itself {c : Char} {bs : Bytes} {t : Text} : (isUnreserved c || c = '/') = true →
    PercentEncodes bs t → PercentEncodes (UInt8.ofNat c.toNat :: bs) (c :: t)
  | escape {h₁ h₂ : Char} {b : UInt8} {bs : Bytes} {t : Text} : hexPair h₁ h₂ = some b →
    PercentEncodes bs t → PercentEncodes (b :: bs) ('%' :: h₁ :: h₂ :: t)

namespace StaticFile

/-! ## Encoded names -/

theorem isUnreserved_ascii {c : Char} (h : (isUnreserved c || c = '/') = true) :
    c.toNat < 128 ∧ c ≠ '%' ∧ c ≠ '+' := by
  have hne : ∀ d : Char, (isUnreserved d || d = '/') = false → c ≠ d := by
    rintro d hd rfl
    rw [hd] at h
    cases h
  refine ⟨?_, hne '%' (by decide), hne '+' (by decide)⟩
  simp only [isUnreserved, Bool.or_eq_true, Bool.and_eq_true, decide_eq_true_eq] at h
  have hle : ∀ d : Char, c ≤ d → d.toNat < 128 → c.toNat < 128 :=
    fun d hd hlt => Nat.lt_of_le_of_lt (UInt32.le_iff_toNat_le.mp hd) hlt
  rcases h with ((((((⟨-, h⟩ | ⟨-, h⟩) | ⟨-, h⟩) | rfl) | rfl) | rfl) | rfl) | rfl
  · exact hle _ h (by decide)
  · exact hle _ h (by decide)
  · exact hle _ h (by decide)
  all_goals decide

/-- Every encoding of bytes is decoded to them. -/
theorem urlDecodeBytes_of_percentEncodes {bs : Bytes} {e : Text} (h : PercentEncodes bs e) :
    urlDecodeBytes (utf8 e) = some bs := by
  induction h with
  | nil => rfl
  | itself hc _ ih =>
    obtain ⟨hascii, hpercent, hplus⟩ := isUnreserved_ascii hc
    rw [urlDecodeBytes_char hpercent, ih, if_neg hplus, utf8EncodeChar_ascii hascii]
    rfl
  | escape hb _ ih =>
    rw [urlDecodeBytes_escapeByte (escapeByte_of_hexPair hb), ih]
    rfl

/-! ## What is decoded -/

/-- The first character of a text that is decoded: itself, or the start of an escape. -/
theorem urlDecodeBytes_cons {c : Char} {t : Text} {out : Bytes}
    (h : urlDecodeBytes (utf8 (c :: t)) = some out) :
    (c ≠ '%' ∧ ∃ out', urlDecodeBytes (utf8 t) = some out' ∧
      out = (if c = '+' then [32] else String.utf8EncodeChar c) ++ out') ∨
    ∃ h₁ h₂ b t' out', c = '%' ∧ t = h₁ :: h₂ :: t' ∧ escapeByte h₁ h₂ = some b ∧
      urlDecodeBytes (utf8 t') = some out' ∧ out = b :: out' := by
  by_cases hc : c = '%'
  · subst hc
    have hbytes : utf8 ('%' :: t) = 37 :: utf8 t := rfl
    rw [hbytes] at h
    unfold urlDecodeBytes at h
    rw [if_pos rfl] at h
    split at h
    · next b₁ b₂ rest hrest =>
      split at h
      · next b hb =>
        obtain ⟨out', hout, rfl⟩ := Option.map_eq_some_iff.mp h
        obtain ⟨h₁, h₂, t', rfl, hescape, rfl⟩ := text_of_hexByte hrest hb
        exact .inr ⟨h₁, h₂, b, t', out', rfl, rfl, hescape, hout, rfl⟩
      · cases h
    · cases h
  · rw [urlDecodeBytes_char hc] at h
    obtain ⟨out', hout, rfl⟩ := Option.map_eq_some_iff.mp h
    exact .inl ⟨hc, out', hout, rfl⟩

/-- A `+` and a digit spell a byte below 16. -/
theorem escapeByte_plus {h₂ : Char} {b : UInt8} (h : escapeByte '+' h₂ = some b) :
    b.toNat < 128 := by
  obtain ⟨n, hn, rfl⟩ := Option.map_eq_some_iff.mp h
  cases hv : digitVal 16 h₂ with
  | none => simp [parseUnsigned, digits, digitsFrom, hv] at hn
  | some v =>
    have hlt := digitVal_lt hv
    have hbound : v < 256 := by omega
    have hvn : v = n := by simpa [parseUnsigned, digits, digitsFrom, hv, hbound] using hn
    rw [← hvn, UInt8.toNat_ofNat']
    omega

/-- What is decoded is what the escapes stand for, but for ASCII. -/
theorem urlDecodeBytes_variant {e : Text} {out : Bytes} (h : urlDecodeBytes (utf8 e) = some out) :
    AsciiVariant out (percentDecode e) := by
  induction hn : e.length using Nat.strong_induction_on generalizing e out with
  | _ n ih =>
    cases e with
    | nil =>
      cases h
      exact .nil
    | cons c t =>
      subst hn
      rcases urlDecodeBytes_cons h with ⟨hc, out', hout, rfl⟩ |
        ⟨h₁, h₂, b, t', out', rfl, rfl, hescape, hout, rfl⟩
      · have hrest := ih t.length (by simp) hout rfl
        rw [percentDecode_plain hc]
        by_cases hp : c = '+'
        · subst hp
          exact .ascii ['+'] (by decide) hrest
        · rw [if_neg hp]
          exact .same _ hrest
      · have hrest := ih t'.length (by simp; omega) hout rfl
        obtain ⟨hdigit, hplus | hpair⟩ := escapeByte_eq_some hescape
        · -- `%+` and a digit, which is no escape
          subst hplus
          have hne := (escapeByte_ne_percent hescape).2.1
          have hdecode : percentDecode ('%' :: '+' :: h₂ :: t') =
              utf8 ['%', '+', h₂] ++ percentDecode t' := by
            rw [percentDecode, pieces, if_pos rfl]
            simp [hexPair, digitVal, hne, Piece.bytes, percentDecode]
          rw [hdecode]
          exact .ascii _ (escapeByte_plus hescape) hrest
        · rw [percentDecode_escape hpair]
          exact .same [b] hrest

end StaticFile

/-- **Decoding undoes encoding**: every encoding of a name is decoded to it, and what has escapes
for bytes that are no text is not decoded. -/
theorem urlDecode_undoes :
    (∀ (f e : Text), PercentEncodes (utf8 f) e → StaticFile.urlDecode e = some f) ∧
    ∀ e : Text, (∀ f, utf8 f ≠ percentDecode e) → StaticFile.urlDecode e = none := by
  refine ⟨fun f e h => ?_, fun e h => ?_⟩
  · rw [StaticFile.urlDecode, StaticFile.urlDecodeBytes_of_percentEncodes h, Option.bind_some,
      fromUtf8_utf8]
  · cases hd : StaticFile.urlDecode e with
    | none => rfl
    | some f =>
      obtain ⟨out, hout, hf⟩ := Option.bind_eq_some_iff.mp hd
      obtain ⟨g, hg⟩ := (StaticFile.urlDecodeBytes_variant hout).exists_text (p := [])
        (fromUtf8_eq_some hf).symm
      exact absurd hg (h g)

end Flexd
