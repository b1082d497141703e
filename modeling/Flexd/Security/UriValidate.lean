import Flexd.External

/-!
# Validation of a request path

`validateUri` looks for the encodings that slip a traversal past a naive
normalisation. It slices the path at byte offsets after each `%`, and a slice
that would cut a character is a panic: the verdict has a case for it.
-/

namespace Flexd

open Lib

inductive UriVerdict where
  | ok
  | rejected (reason : Text)
  | panicked
  deriving DecidableEq

/-- The byte that two bytes spell in hexadecimal. As in the source, `+` and one digit do too. -/
def hexByte (h₁ h₂ : UInt8) : Option UInt8 :=
  ((fromUtf8 [h₁, h₂]).bind (parseUnsigned 16 256)).map UInt8.ofNat

namespace UriValidate

/-- Decode the escapes; a `%` without two bytes after it stands for itself. -/
def urlDecodeBytes : Bytes → Option Bytes
  | [] => some []
  | b :: rest =>
    if b = 37 then
      match rest with
      | h₁ :: h₂ :: rest =>
        match hexByte h₁ h₂ with
        | some byte => (urlDecodeBytes rest).map (byte :: ·)
        | none => none
      | rest => (urlDecodeBytes rest).map (b :: ·)
    else (urlDecodeBytes rest).map (b :: ·)

def urlDecode (t : Text) : Option Text := (urlDecodeBytes (utf8 t)).bind fromUtf8

/-- The checks made at each `%`: overlong encodings and surrogate halves. -/
def scanEscapes (ext : External) : Text → UriVerdict
  | [] => .ok
  | c :: rest =>
    if c = '%' ∧ 2 < byteLen (c :: rest) then
      match splitAtByte (c :: rest) 3 with
      | none => .panicked
      | some (seq, after) =>
        let seq := ext.toLowercase seq
        if seq = "%c0".toList ∨ seq = "%c1".toList ∨ seq = "%e0".toList then
          .rejected "overlong UTF-8 encoding in URI".toList
        else if seq = "%ed".toList ∧ 6 < byteLen (c :: rest) then
          match splitAtByte after 3 with
          | none => .panicked
          | some (next, _) =>
            match ext.toLowercase next with
            | '%' :: hex =>
              let byteVal := (parseUnsigned 16 256 hex).getD 0
              if 0xa0 ≤ byteVal ∧ byteVal ≤ 0xbf then
                .rejected "invalid surrogate half in URI".toList
              else scanEscapes ext rest
            | _ => scanEscapes ext rest
        else scanEscapes ext rest
    else scanEscapes ext rest

end UriValidate

def validateUri (ext : External) (uri : Text) : UriVerdict :=
  let lower := ext.toLowercase uri
  if "%00".toList <:+: lower then .rejected "null byte in URI".toList
  else if "%2e%2e%2f".toList <:+: lower ∨ "%2e%2e\\".toList <:+: lower then
    .rejected "encoded traversal in URI".toList
  else if "%252e%252e%252f".toList <:+: lower then
    .rejected "double-encoded traversal in URI".toList
  else if "%0b".toList <:+: lower then .rejected "vertical tab in URI".toList
  else if '\\' ∈ uri then .rejected "backslash in URI".toList
  else if '\u2044' ∈ uri ∨ '\u2215' ∈ uri then
    .rejected "unicode slash variant in URI".toList
  else if "%c0%ae".toList <:+: lower ∨ "%e0%40%ae".toList <:+: lower then
    .rejected "overlong UTF-8 in URI".toList
  else
    match UriValidate.scanEscapes ext uri with
    | .ok =>
      if (UriValidate.urlDecode uri).isNone then .rejected "invalid percent encoding".toList
      else .ok
    | verdict => verdict

/-! ## What a verdict means -/

/-- One of the tests made before the scan finds something. -/
def RejectedBySubstring (ext : External) (uri : Text) : Prop :=
  let lower := ext.toLowercase uri
  "%00".toList <:+: lower ∨ ("%2e%2e%2f".toList <:+: lower ∨ "%2e%2e\\".toList <:+: lower) ∨
    "%252e%252e%252f".toList <:+: lower ∨ "%0b".toList <:+: lower ∨ '\\' ∈ uri ∨
    ('\u2044' ∈ uri ∨ '\u2215' ∈ uri) ∨
    ("%c0%ae".toList <:+: lower ∨ "%e0%40%ae".toList <:+: lower)

variable {ext : External} {uri : Text}

theorem validateUri_of_substring (h : RejectedBySubstring ext uri) :
    ∃ reason, validateUri ext uri = .rejected reason := by
  unfold validateUri
  simp only
  split
  · exact ⟨_, rfl⟩
  split
  · exact ⟨_, rfl⟩
  split
  · exact ⟨_, rfl⟩
  split
  · exact ⟨_, rfl⟩
  split
  · exact ⟨_, rfl⟩
  split
  · exact ⟨_, rfl⟩
  split
  · exact ⟨_, rfl⟩
  · -- the test that found something is none of the seven
    refine absurd h ?_
    simp only [RejectedBySubstring, *, or_self, not_false_eq_true]

theorem validateUri_of_not_substring (h : ¬ RejectedBySubstring ext uri) :
    validateUri ext uri =
      match UriValidate.scanEscapes ext uri with
      | .ok =>
        if (UriValidate.urlDecode uri).isNone then .rejected "invalid percent encoding".toList
        else .ok
      | verdict => verdict := by
  simp only [RejectedBySubstring, not_or] at h
  obtain ⟨h1, ⟨h2, h2'⟩, h3, h4, h5, ⟨h6, h6'⟩, h7, h7'⟩ := h
  unfold validateUri
  simp only [h1, h2, h2', h3, h4, h5, h6, h6', h7, h7', or_self, if_false]

/-- An accepted path passes every test, and it decodes. -/
theorem validateUri_eq_ok (h : validateUri ext uri = .ok) :
    ¬ RejectedBySubstring ext uri ∧ ∃ d, UriValidate.urlDecode uri = some d := by
  have hs : ¬ RejectedBySubstring ext uri := by
    intro hs
    obtain ⟨reason, hr⟩ := validateUri_of_substring hs
    rw [hr] at h
    cases h
  refine ⟨hs, ?_⟩
  rw [validateUri_of_not_substring hs] at h
  split at h
  · split at h
    · cases h
    · next hd => exact Option.ne_none_iff_exists'.mp fun hn => hd (by rw [hn]; rfl)
  · next hok => exact absurd h hok

/-- A panic is a panic of the scan. -/
theorem validateUri_eq_panicked : validateUri ext uri = .panicked ↔
    ¬ RejectedBySubstring ext uri ∧ UriValidate.scanEscapes ext uri = .panicked := by
  by_cases hs : RejectedBySubstring ext uri
  · obtain ⟨reason, hr⟩ := validateUri_of_substring hs
    simp [hr, hs]
  · rw [validateUri_of_not_substring hs]
    cases UriValidate.scanEscapes ext uri with
    | ok =>
      simp only [hs, not_false_eq_true, true_and]
      split <;> simp
    | rejected reason => simp
    | panicked => simp [hs]

example : validateUri .sample "/a%2fb".toList = .ok := by decide +kernel

end Flexd
