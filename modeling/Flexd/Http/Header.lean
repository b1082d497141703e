import Flexd.Lib.MultiMap
import Flexd.Lib.Text

/-!
# Header maps

Names, values and maps of the `http` crate. A `HeaderName` is a non-empty
token in lower case and a `HeaderValue` a byte string without control bytes
other than tab; both carry that as a field, so a map cannot hold anything
else. A `HeaderMap` is an ordered multimap, and two maps are equal in the
crate's sense when they are the `Same` multimap.
-/

namespace Flexd

open Lib

/-- The characters of a token (RFC 9110), upper case folded away. -/
def isNameChar (c : Char) : Bool :=
  ('a' ≤ c && c ≤ 'z') || ('0' ≤ c && c ≤ '9') || c ∈ "!#$%&'*+-.^_`|~".toList

def isName (t : Text) : Bool := t ≠ [] && t.all isNameChar

/-- A header name: a token in lower case. -/
structure HeaderName where
  text : Text
  valid : isName text = true
  deriving DecidableEq

/-- `HeaderName::from_bytes`: the name a token spells, in any case. -/
def HeaderName.fromBytes (t : Text) : Option HeaderName :=
  if h : isName (asciiLower t) = true then some ⟨asciiLower t, h⟩ else none

namespace HeaderName

def host : HeaderName := ⟨"host".toList, by decide⟩
def connection : HeaderName := ⟨"connection".toList, by decide⟩
def contentLength : HeaderName := ⟨"content-length".toList, by decide⟩
def contentType : HeaderName := ⟨"content-type".toList, by decide⟩
def contentEncoding : HeaderName := ⟨"content-encoding".toList, by decide⟩
def transferEncoding : HeaderName := ⟨"transfer-encoding".toList, by decide⟩
def userAgent : HeaderName := ⟨"user-agent".toList, by decide⟩
def location : HeaderName := ⟨"location".toList, by decide⟩
def strictTransportSecurity : HeaderName := ⟨"strict-transport-security".toList, by decide⟩

end HeaderName

/-- The bytes a header value may hold: tab, and everything from space on but `DEL`. -/
def isValueByte (b : UInt8) : Bool := (32 ≤ b && b ≠ 127) || b = 9

/-- The bytes `to_str` accepts. -/
def isVisibleAscii (b : UInt8) : Bool := (32 ≤ b && b < 127) || b = 9

structure HeaderValue where
  bytes : Bytes
  valid : bytes.all isValueByte = true
  deriving DecidableEq

namespace HeaderValue

/-- `HeaderValue::from_str`. -/
def fromStr (t : Text) : Option HeaderValue :=
  if h : (utf8 t).all isValueByte = true then some ⟨utf8 t, h⟩ else none

/-- `HeaderValue::to_str`: the text of a value of visible ASCII. -/
def toStr (v : HeaderValue) : Option Text :=
  if v.bytes.all isVisibleAscii then some (v.bytes.map fun b => Char.ofNat b.toNat) else none

end HeaderValue

/-- The characters that `to_str` yields: the visible ones of ASCII, blank and tab. -/
def IsVisible (c : Char) : Prop := 32 ≤ c.toNat ∧ c.toNat ≤ 126 ∨ c.toNat = 9

theorem IsVisible.toNat_ofNat {c : Char} (h : IsVisible c) :
    (UInt8.ofNat c.toNat).toNat = c.toNat := by
  unfold IsVisible at h
  rw [UInt8.toNat_ofNat']
  omega

theorem IsVisible.byte {c : Char} (h : IsVisible c) :
    isVisibleAscii (UInt8.ofNat c.toNat) = true := by
  have h127 : (127 : UInt8).toNat = 127 := rfl
  have h9 : (9 : UInt8).toNat = 9 := rfl
  have h32 : (32 : UInt8).toNat = 32 := rfl
  simp only [isVisibleAscii, UInt8.le_iff_toNat_le, UInt8.lt_iff_toNat_lt, ← UInt8.toNat_inj,
    h.toNat_ofNat, Bool.or_eq_true, Bool.and_eq_true, decide_eq_true_eq]
  unfold IsVisible at h
  omega

theorem isValueByte_of_visible {b : UInt8} (h : isVisibleAscii b = true) :
    isValueByte b = true := by
  have h127 : (127 : UInt8).toNat = 127 := rfl
  simp only [isVisibleAscii, isValueByte, UInt8.le_iff_toNat_le, UInt8.lt_iff_toNat_lt, ne_eq,
    ← UInt8.toNat_inj, Bool.or_eq_true, Bool.and_eq_true, decide_eq_true_eq] at h ⊢
  omega

theorem utf8_visible {t : Text} (h : ∀ c ∈ t, IsVisible c) :
    utf8 t = t.map fun c => UInt8.ofNat c.toNat :=
  utf8_ascii fun c hc => by
    have hc := h c hc
    unfold IsVisible at hc
    omega

namespace HeaderValue

/-- A text of visible characters is a header value. -/
theorem fromStr_visible {t : Text} (h : ∀ c ∈ t, IsVisible c) :
    ∃ v, fromStr t = some v ∧ v.bytes = utf8 t := by
  have hv : (utf8 t).all isValueByte = true := by
    rw [utf8_visible h, List.all_map, List.all_eq_true]
    exact fun c hc => isValueByte_of_visible (h c hc).byte
  exact ⟨⟨utf8 t, hv⟩, by simp [fromStr, hv], rfl⟩

/-- The value of such a text reads back as the text. -/
theorem toStr_visible {t : Text} (h : ∀ c ∈ t, IsVisible c) {v : HeaderValue}
    (hv : v.bytes = utf8 t) : v.toStr = some t := by
  have hb : v.bytes = t.map fun c => UInt8.ofNat c.toNat := hv.trans (utf8_visible h)
  have hvis : v.bytes.all isVisibleAscii = true := by
    rw [hb, List.all_map, List.all_eq_true]
    exact fun c hc => (h c hc).byte
  have htext : (v.bytes.map fun b => Char.ofNat b.toNat) = t := by
    rw [hb, List.map_map]
    refine (List.map_congr_left fun c hc => ?_).trans (List.map_id t)
    simp only [Function.comp, (h c hc).toNat_ofNat, Char.ofNat_toNat, id]
  simp [toStr, hvis, htext]

/-- What a value reads as is visible. -/
theorem visible_of_toStr {v : HeaderValue} {t : Text} (h : v.toStr = some t) :
    ∀ c ∈ t, IsVisible c := by
  unfold toStr at h
  split at h
  · next hvis =>
    cases h
    intro c hc
    obtain ⟨b, hb, rfl⟩ := List.mem_map.mp hc
    have hbyte := List.all_eq_true.mp hvis b hb
    have h127 : (127 : UInt8).toNat = 127 := rfl
    have h9 : (9 : UInt8).toNat = 9 := rfl
    have h32 : (32 : UInt8).toNat = 32 := rfl
    simp only [isVisibleAscii, UInt8.le_iff_toNat_le, UInt8.lt_iff_toNat_lt, Bool.or_eq_true,
      Bool.and_eq_true, decide_eq_true_eq, ← UInt8.toNat_inj] at hbyte
    have hchar : (Char.ofNat b.toNat).toNat = b.toNat := by
      rw [Char.ofNat, dif_pos (.inl (by omega))]
      rfl
    unfold IsVisible
    omega
  · cases h

theorem fromStr_ascii {t : Text} (h : ∀ c ∈ t, 32 ≤ c.toNat ∧ c.toNat ≤ 126) :
    ∃ v, fromStr t = some v ∧ v.bytes = utf8 t := fromStr_visible fun c hc => .inl (h c hc)

theorem toStr_ascii {t : Text} (h : ∀ c ∈ t, 32 ≤ c.toNat ∧ c.toNat ≤ 126) {v : HeaderValue}
    (hv : v.bytes = utf8 t) : v.toStr = some t := toStr_visible (fun c hc => .inl (h c hc)) hv

end HeaderValue

abbrev HeaderMap := MultiMap HeaderName HeaderValue

/-- The first value of a header, decoded. -/
def HeaderMap.getStr (h : HeaderMap) (n : HeaderName) : Option Text :=
  (MultiMap.get h n).bind HeaderValue.toStr

end Flexd
