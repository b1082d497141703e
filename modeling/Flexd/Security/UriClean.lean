import Flexd.Security.Decoders

/-!
# What an accepted path decodes to

The validation tests the encoded text for the spellings it knows and decodes
the rest leniently. `Clean` is what a path should be after it: every escape
complete, and no character or `..` segment in the decoding that a later
normalisation would trip over. `clean_iff` lists the spellings that slip
through.
-/

namespace Flexd

open Lib

/-- The characters that have no place in a decoded path. -/
def forbiddenChars : List Char := ['\x00', '\x0b', '\\', '\u2044', '\u2215']

/-- Every `%` is followed by two digits, the decoding is text without a forbidden character, and a
segment that decodes to `..` is written so. -/
structure Clean (s : Text) : Prop where
  escapes : WellEscaped s
  chars : ∃ t, fromUtf8 (percentDecode s) = some t ∧ ∀ c ∈ forbiddenChars, c ∉ t
  dots : ∀ seg, IsSegment (pieces s) seg → seg.flatMap Piece.bytes = [46, 46] →
    seg = [.lit '.', .lit '.']

/-- The spellings of a segment `..` with an escape in it. -/
def encodedDots : List (List Piece) :=
  [[.lit '.', .esc 46], [.esc 46, .lit '.'], [.esc 46, .esc 46]]

/-- None of the spellings that the tests miss. -/
structure Untricked (s : Text) : Prop where
  /-- No escape is cut off by the end. -/
  room : PercentRoom s
  /-- No escape has a sign for its first digit. -/
  unsigned : ¬ "%+".toList <:+: s
  controls : '\x00' ∉ s ∧ '\x0b' ∉ s
  /-- No `%5c`, no `%e2%81%84`, no `%e2%88%95`. -/
  separators : ∀ c ∈ ['\\', '\u2044', '\u2215'], ¬ Writes s (escaped c)
  dots : ∀ seg ∈ encodedDots, ¬ WritesSegment s seg

/-- `str::to_lowercase` takes a run of ASCII characters to its lower case, in place. -/
def LowersAscii (ext : External) : Prop :=
  ∀ m t, (∀ c ∈ m, c.toNat < 128) → m <:+: t → asciiLower m <:+: ext.toLowercase t

/-! ## Escapes -/

/-- What the validation decodes is the percent-decoding, where every escape has its digits. -/
theorem Decodes.eq_percentDecode {s : Text} {out : Bytes} (h : Decodes s out)
    (hw : WellEscaped s) : out = percentDecode s := by
  induction h with
  | nil => rfl
  | plain hc _ ih =>
    rw [ih (wellEscaped_cons.mp hw).2, percentDecode_plain hc]
  | @escape h₁ h₂ b t out hb _ ih =>
    obtain ⟨d₁, d₂, t', he, hd₁, -⟩ := (wellEscaped_cons.mp hw).1 rfl
    cases he
    have hpair : hexPair h₁ h₂ = some b := by
      refine (escapeByte_eq_some hb).2.resolve_left ?_
      rintro rfl
      exact absurd hd₁ (by decide)
    rw [ih hw.after_escape, percentDecode_escape hpair]
  | bare hlen =>
    obtain ⟨d₁, d₂, t', rfl, -⟩ := (wellEscaped_cons.mp hw).1 rfl
    have := d₁.utf8Size_pos
    have := d₂.utf8Size_pos
    simp only [byteLen_cons] at hlen
    omega

/-- An escape that the validation decodes has its digits, unless it is cut off or signed. -/
theorem Decodes.wellEscaped {s : Text} {out : Bytes} (h : Decodes s out) (hroom : PercentRoom s)
    (hsign : ¬ "%+".toList <:+: s) : WellEscaped s := by
  induction h with
  | nil => intro a b hab; simp at hab
  | plain hc _ ih =>
    have ht := ih (percentRoom_cons.mp hroom).2 fun hin => hsign (List.infix_cons hin)
    exact wellEscaped_cons.mpr ⟨fun h => absurd h hc, ht⟩
  | @escape h₁ h₂ b t out hb _ ih =>
    obtain ⟨hd₂, hwhy⟩ := escapeByte_eq_some hb
    have hpair : hexPair h₁ h₂ = some b := by
      refine hwhy.resolve_left ?_
      rintro rfl
      exact hsign ⟨[], h₂ :: t, rfl⟩
    have hd₁ := (hexPair_isSome.mp (Option.isSome_of_mem hpair)).1
    obtain ⟨hne₁, hne₂, -⟩ := escapeByte_ne_percent hb
    have ht := ih hroom.after_escape fun hin =>
      hsign (List.infix_cons (List.infix_cons (List.infix_cons hin)))
    refine wellEscaped_cons.mpr ⟨fun _ => ⟨h₁, h₂, t, rfl, hd₁, hd₂⟩, ?_⟩
    exact wellEscaped_cons.mpr ⟨fun h => absurd h hne₁,
      wellEscaped_cons.mpr ⟨fun h => absurd h hne₂, ht⟩⟩
  | bare hlen =>
    have := (percentRoom_cons.mp hroom).1 rfl
    omega

theorem percentRoom_of_wellEscaped {s : Text} (h : WellEscaped s) : PercentRoom s := by
  intro a b hab
  obtain ⟨h₁, h₂, t, rfl, -⟩ := h a b hab
  have := h₁.utf8Size_pos
  have := h₂.utf8Size_pos
  simp only [byteLen_cons]
  omega

theorem unsigned_of_wellEscaped {s : Text} (h : WellEscaped s) : ¬ "%+".toList <:+: s := by
  rintro ⟨a, b, hab⟩
  obtain ⟨h₁, h₂, t, he, hd₁, -⟩ := h a ('+' :: b) (by rw [← hab]; simp)
  cases he
  exact absurd hd₁ (by decide)

/-! ## Case -/

/-- The lower case of an escape depends on its byte alone. -/
theorem lower_of_hexPair {h₁ h₂ : Char} {b : UInt8} (hd₁ : h₁ ∈ hexDigits) (hd₂ : h₂ ∈ hexDigits)
    (hb : hexPair h₁ h₂ = some b) :
    asciiLower [h₁, h₂] = [Nat.digitChar (b.toNat / 16), Nat.digitChar (b.toNat % 16)] := by
  have hall : (hexDigits.all fun d₁ => hexDigits.all fun d₂ => (hexPair d₁ d₂).all fun b =>
      asciiLower [d₁, d₂] == [Nat.digitChar (b.toNat / 16), Nat.digitChar (b.toNat % 16)]) =
      true := by decide +kernel
  simp only [List.all_eq_true, Option.all_eq_true, beq_iff_eq] at hall
  exact hall h₁ hd₁ h₂ hd₂ b hb

theorem lower_of_escape {m : Text} {b : UInt8} (h : Spells m [.esc b]) :
    asciiLower m = ['%', Nat.digitChar (b.toNat / 16), Nat.digitChar (b.toNat % 16)] ∧
      ∀ c ∈ m, c.toNat < 128 := by
  cases h with
  | @esc h₁ h₂ _ _ _ hb ht =>
    cases ht
    obtain ⟨hd₁, hd₂⟩ := hexPair_isSome.mp (Option.isSome_of_mem hb)
    constructor
    · exact congrArg ('%' :: ·) (lower_of_hexPair (mem_hexDigits hd₁) (mem_hexDigits hd₂) hb)
    · intro c hc
      simp only [List.mem_cons, List.not_mem_nil, or_false] at hc
      rcases hc with rfl | rfl | rfl
      · decide
      · exact isHexDigit_ascii hd₁
      · exact isHexDigit_ascii hd₂

variable {ext : External} {s : Text}

/-- An escaped byte is found in the lower case of the text. -/
theorem LowersAscii.infix_of_writes (hlow : LowersAscii ext) {b : UInt8} (h : Writes s [.esc b]) :
    ['%', Nat.digitChar (b.toNat / 16), Nat.digitChar (b.toNat % 16)] <:+: ext.toLowercase s := by
  obtain ⟨m, hin, hm⟩ := h
  obtain ⟨hlower, hascii⟩ := lower_of_escape hm
  rw [← hlower]
  exact hlow m s hascii hin

/-! ## Dot segments -/

theorem flatMap_bytes_eq_nil {ps : List Piece} (h : ps.flatMap Piece.bytes = []) : ps = [] := by
  cases ps with
  | nil => rfl
  | cons p ps =>
    cases p <;> simp [Piece.bytes, String.utf8EncodeChar_ne_nil] at h

/-- A dot is written as one, or escaped. -/
theorem piece_of_dot {ps : List Piece} {rest : Bytes}
    (h : ps.flatMap Piece.bytes = 46 :: rest) :
    ∃ p qs, ps = p :: qs ∧ (p = .lit '.' ∨ p = .esc 46) ∧ qs.flatMap Piece.bytes = rest := by
  cases ps with
  | nil => cases h
  | cons p qs =>
    cases p with
    | lit c =>
      have hdot : String.utf8EncodeChar c ++ qs.flatMap Piece.bytes =
          String.utf8EncodeChar '.' ++ rest := h
      obtain ⟨rfl, hrest⟩ := utf8EncodeChar_append_inj hdot
      exact ⟨_, qs, rfl, .inl rfl, hrest⟩
    | esc b =>
      simp only [List.flatMap_cons, Piece.bytes, List.cons_append, List.nil_append,
        List.cons.injEq] at h
      exact ⟨_, qs, rfl, .inr (by rw [h.1]), h.2⟩

theorem dots_of_bytes {seg : List Piece} (h : seg.flatMap Piece.bytes = [46, 46]) :
    seg = [.lit '.', .lit '.'] ∨ seg ∈ encodedDots := by
  obtain ⟨p, seg, rfl, hp, h⟩ := piece_of_dot h
  obtain ⟨q, seg, rfl, hq, h⟩ := piece_of_dot h
  cases flatMap_bytes_eq_nil h
  rcases hp with rfl | rfl <;> rcases hq with rfl | rfl <;> simp [encodedDots]

theorem bytes_of_encodedDots : ∀ seg ∈ encodedDots,
    seg.flatMap Piece.bytes = [46, 46] ∧ Piece.lit '%' ∉ seg ∧ seg ≠ [.lit '.', .lit '.'] := by
  decide

/-- The segments `..` are written so exactly where no spelling with an escape stands. -/
theorem dots_iff (hw : WellEscaped s) :
    (∀ seg, IsSegment (pieces s) seg → seg.flatMap Piece.bytes = [46, 46] →
      seg = [.lit '.', .lit '.']) ↔ ∀ seg ∈ encodedDots, ¬ WritesSegment s seg := by
  constructor
  · intro h seg hmem hwrites
    obtain ⟨hbytes, hlit, hne⟩ := bytes_of_encodedDots seg hmem
    exact hne (h seg (hw.isSegment_of_writes hwrites hlit) hbytes)
  · intro h seg hseg hbytes
    rcases dots_of_bytes hbytes with hdots | hmem
    · exact hdots
    · exact absurd (writesSegment_of_isSegment hseg) (h seg hmem)

/-! ## The verdict -/

/-- What the tests before the scan rule out. -/
theorem forbidden_of_not_substring (hlow : LowersAscii ext) (h : ¬ RejectedBySubstring ext s) :
    ¬ Writes s (escaped '\x00') ∧ ¬ Writes s (escaped '\x0b') ∧ '\\' ∉ s ∧ '\u2044' ∉ s ∧
      '\u2215' ∉ s := by
  simp only [RejectedBySubstring, not_or] at h
  obtain ⟨h00, -, -, h0b, hback, ⟨hfrac, hdiv⟩, -⟩ := h
  exact ⟨fun hw => h00 (hlow.infix_of_writes hw), fun hw => h0b (hlow.infix_of_writes hw), hback,
    hfrac, hdiv⟩

theorem forbiddenChars_plain {c : Char} (h : c ∈ forbiddenChars) :
    c ≠ '%' ∧ isHexDigit c = false := by
  have hall : (forbiddenChars.all fun c => c != '%' && !isHexDigit c) = true := by decide
  simpa using List.all_eq_true.mp hall c h

/-- **Accepted paths are clean** but for the spellings that the tests miss. -/
theorem clean_iff (hlow : LowersAscii ext) (h : validateUri ext s = .ok) :
    Clean s ↔ Untricked s := by
  obtain ⟨hsub, d, hd⟩ := validateUri_eq_ok h
  obtain ⟨out, hout, hutf8⟩ := Option.bind_eq_some_iff.mp hd
  have hdec := UriValidate.decodes hout
  obtain ⟨hnul, hvt, hback, hfrac, hdiv⟩ := forbidden_of_not_substring hlow hsub
  constructor
  · rintro ⟨hw, ⟨t, ht, hchars⟩, hdots⟩
    have hmem : ∀ c ∈ forbiddenChars, c ∉ s ∧ ¬ Writes s (escaped c) := by
      intro c hc
      obtain ⟨hne, hhex⟩ := forbiddenChars_plain hc
      have := hchars c hc
      rwa [mem_percentDecode hw ht hne hhex, not_or] at this
    exact {
      room := percentRoom_of_wellEscaped hw
      unsigned := unsigned_of_wellEscaped hw
      controls := ⟨(hmem _ (by decide)).1, (hmem _ (by decide)).1⟩
      separators := fun c hc => (hmem c (List.mem_cons_of_mem _ (List.mem_cons_of_mem _ hc))).2
      dots := (dots_iff hw).mp hdots }
  · rintro ⟨hroom, hsign, ⟨hnul', hvt'⟩, hsep, hdots⟩
    have hw := hdec.wellEscaped hroom hsign
    rw [hdec.eq_percentDecode hw] at hutf8
    refine ⟨hw, ⟨d, hutf8, fun c hc => ?_⟩, (dots_iff hw).mpr hdots⟩
    obtain ⟨hne, hhex⟩ := forbiddenChars_plain hc
    rw [mem_percentDecode hw hutf8 hne hhex, not_or]
    simp only [forbiddenChars, List.mem_cons, List.not_mem_nil, or_false] at hc
    rcases hc with rfl | rfl | rfl | rfl | rfl
    · exact ⟨hnul', hnul⟩
    · exact ⟨hvt', hvt⟩
    · exact ⟨hback, hsep _ (by decide)⟩
    · exact ⟨hfrac, hsep _ (by decide)⟩
    · exact ⟨hdiv, hsep _ (by decide)⟩

/-- The evaluation instance folds ASCII case. -/
theorem lowersAscii_sample : LowersAscii .sample := by
  rintro m t - ⟨a, b, rfl⟩
  exact ⟨asciiLower a, asciiLower b, by simp [External.sample, asciiLower]⟩

theorem clean_iff_plain :
    LowersAscii .sample ∧ validateUri .sample "/a%20b".toList = .ok ∧
      (Clean "/a%20b".toList ↔ Untricked "/a%20b".toList) :=
  ⟨lowersAscii_sample, by decide +kernel,
    clean_iff lowersAscii_sample (by decide +kernel : validateUri .sample _ = .ok)⟩

/-- A traversal with one dot of two escaped. -/
theorem accepted_unclean : ¬ ∀ s : Text, validateUri .sample s = .ok → Clean s := by
  intro h
  have hclean := h "/.%2e/".toList (by decide +kernel)
  have hseg := hclean.dots [.lit '.', .esc 46] ⟨[.lit '/'], [.lit '/'], by decide, by decide,
    by decide⟩ (by decide)
  exact absurd hseg (by decide)

end Flexd
