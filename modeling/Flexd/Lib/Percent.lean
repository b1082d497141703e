import Flexd.Lib.Text

/-!
# Percent-encoded text

A text is read as pieces: a character that stands for itself, or a `%` with
two hexadecimal digits that stands for a byte (`pieces`). `percentDecode` is
what the pieces stand for. A text is `WellEscaped` when every `%` begins an
escape. `spelled` says how a decoding that is itself text came about: each of
its characters is written as itself, or by an escape for each of its bytes.
The first section has what that rests on, that UTF-8 is self-synchronising.
-/

namespace Flexd.Lib

/-! ## Characters in a byte string -/

theorem utf8_append (s t : Text) : utf8 (s ++ t) = utf8 s ++ utf8 t := by
  simp [utf8]

/-- No encoding of a character begins the encoding of another one. -/
theorem utf8EncodeChar_append_inj {c d : Char} {x y : Bytes}
    (h : String.utf8EncodeChar c ++ x = String.utf8EncodeChar d ++ y) : c = d ∧ x = y := by
  have hdec : ∀ (c : Char) (x : Bytes),
      ((String.utf8EncodeChar c ++ x).toByteArray).utf8DecodeChar? 0 = some c := by
    intro c x
    rw [List.toByteArray_append]
    exact ByteArray.utf8DecodeChar?_utf8EncodeChar_append
  have hcd : c = d := by
    have hc := hdec c x
    rw [h, hdec d y] at hc
    exact (Option.some.inj hc).symm
  subst hcd
  exact ⟨rfl, List.append_cancel_left h⟩

/-- A text whose bytes begin with those of another begins with it. -/
theorem utf8_eq_append {t p : Text} {rest : Bytes} (h : utf8 t = utf8 p ++ rest) :
    ∃ t', t = p ++ t' ∧ utf8 t' = rest := by
  induction p generalizing t with
  | nil => exact ⟨t, rfl, h⟩
  | cons c p ih =>
    rw [utf8_cons, List.append_assoc] at h
    cases t with
    | nil => simp [String.utf8EncodeChar_ne_nil] at h
    | cons d t =>
      obtain ⟨rfl, ht⟩ := utf8EncodeChar_append_inj h
      obtain ⟨t', rfl, hrest⟩ := ih ht
      exact ⟨t', rfl, hrest⟩

/-- The encoding of a character has a first byte, and no other byte of it could be one. -/
theorem utf8EncodeChar_bytes (c : Char) :
    ∃ b bs, String.utf8EncodeChar c = b :: bs ∧ b.IsUTF8FirstByte ∧
      ∀ x ∈ bs, ¬ x.IsUTF8FirstByte := by
  cases he : String.utf8EncodeChar c with
  | nil => exact absurd he String.utf8EncodeChar_ne_nil
  | cons b bs =>
    have hget : ∀ (i : Nat) (hi : i < (b :: bs).length),
        ((b :: bs)[i]).IsUTF8FirstByte ↔ i = 0 := by
      rw [← he]
      intro i hi
      exact UInt8.isUTF8FirstByte_getElem_utf8EncodeChar
    refine ⟨b, bs, rfl, (hget 0 (by simp)).mpr rfl, fun x hx => ?_⟩
    obtain ⟨i, hi, rfl⟩ := List.mem_iff_getElem.mp hx
    exact fun hfirst => by simpa using (hget (i + 1) (by simpa using hi)).mp hfirst

/-- A character's bytes occur in the encoding of a text where the character does. -/
theorem mem_of_utf8EncodeChar_within {c : Char} {t : Text}
    (h : String.utf8EncodeChar c <:+: utf8 t) : c ∈ t := by
  obtain ⟨x, y, hxy⟩ := h
  induction t generalizing x with
  | nil => simp [String.utf8EncodeChar_ne_nil] at hxy
  | cons d t ih =>
    rw [utf8_cons, List.append_assoc] at hxy
    obtain ⟨b, bs, hc, hb, -⟩ := utf8EncodeChar_bytes c
    obtain ⟨b', bs', hd, -, hbs'⟩ := utf8EncodeChar_bytes d
    cases x with
    | nil => exact List.mem_cons.mpr (.inl (utf8EncodeChar_append_inj hxy).1)
    | cons z x =>
      rw [hd, List.cons_append, List.cons_append, List.cons.injEq] at hxy
      rcases List.append_eq_append_iff.mp hxy.2 with ⟨m, hm, hrest⟩ | ⟨m, hm, hrest⟩
      · cases m with
        | nil =>
          refine List.mem_cons_of_mem _ (ih [] ?_)
          simpa using hrest
        | cons z' m =>
          -- the first byte of `c` would stand inside `d`
          rw [hc, List.cons_append, List.cons_append, List.cons.injEq] at hrest
          have hin : z' ∈ bs' := by rw [hm]; simp
          exact absurd (hrest.1 ▸ hb) (hbs' z' hin)
      · exact List.mem_cons_of_mem _ (ih m (by rw [List.append_assoc]; exact hrest.symm))

/-- An ASCII byte of an encoding stands between two texts. -/
theorem utf8_split_ascii {t : Text} {x y : Bytes} {b : UInt8} (hb : b.toNat < 128)
    (h : utf8 t = x ++ b :: y) : ∃ s u, utf8 s = x ∧ utf8 u = y := by
  induction t generalizing x with
  | nil => simp at h
  | cons c t ih =>
    rw [utf8_cons] at h
    rcases List.append_eq_append_iff.mp h with ⟨m, hx, ht⟩ | ⟨m, hc, ht⟩
    · obtain ⟨s, u, hs, hu⟩ := ih ht
      exact ⟨c :: s, u, by rw [utf8_cons, hs, hx], hu⟩
    · cases m with
      | nil =>
        obtain ⟨s, u, hs, hu⟩ := ih (x := []) ht.symm
        exact ⟨c :: s, u, by rw [utf8_cons, hs, hc, List.append_nil, List.append_nil], hu⟩
      | cons z m =>
        obtain ⟨rfl, rfl⟩ := List.cons.inj ht
        have hascii : c.toNat < 128 := by
          by_contra hbig
          have := le_of_mem_utf8EncodeChar (Nat.not_lt.mp hbig) (b := b) (by rw [hc]; simp)
          omega
        rw [utf8EncodeChar_ascii hascii] at hc
        obtain ⟨rfl, hm⟩ : x = [] ∧ [b] ++ m = [UInt8.ofNat c.toNat] := by
          cases x with
          | nil => exact ⟨rfl, hc.symm⟩
          | cons z x => simp at hc
        obtain ⟨-, rfl⟩ := List.cons.inj hm
        exact ⟨[], t, rfl, rfl⟩

/-- Bytes that agree but where one has an ASCII byte and the other a text. -/
inductive AsciiVariant : Bytes → Bytes → Prop where
  | nil : AsciiVariant [] []
  | same (bs : Bytes) {xs ys : Bytes} : AsciiVariant xs ys → AsciiVariant (bs ++ xs) (bs ++ ys)
  | ascii {b : UInt8} (s : Text) {xs ys : Bytes} : b.toNat < 128 → AsciiVariant xs ys →
    AsciiVariant (b :: xs) (utf8 s ++ ys)

/-- A variant of an encoding is an encoding, whatever both follow. -/
theorem AsciiVariant.exists_text {xs ys : Bytes} (h : AsciiVariant xs ys) {p : Bytes} {t : Text}
    (ht : utf8 t = p ++ xs) : ∃ u, utf8 u = p ++ ys := by
  induction h generalizing p t with
  | nil => exact ⟨t, ht⟩
  | same bs _ ih =>
    rw [← List.append_assoc] at ht ⊢
    exact ih ht
  | ascii s hb _ ih =>
    obtain ⟨u, v, rfl, hv⟩ := utf8_split_ascii hb ht
    obtain ⟨w, hw⟩ := ih (p := []) hv
    exact ⟨u ++ (s ++ w), by rw [utf8_append, utf8_append, hw, List.nil_append]⟩

/-! ## Pieces -/

/-- A hexadecimal digit. -/
def isHexDigit (c : Char) : Bool := (digitVal 16 c).isSome

/-- The hexadecimal digits. -/
def hexDigits : List Char := "0123456789abcdefABCDEF".toList

theorem mem_hexDigits {c : Char} (h : isHexDigit c = true) : c ∈ hexDigits := by
  have hof : ∀ lo n : Nat, lo ≤ c.toNat → c.toNat < lo + n →
      (∀ k < n, Char.ofNat (lo + k) ∈ hexDigits) → c ∈ hexDigits := by
    intro lo n hlo hhi hall
    have := hall (c.toNat - lo) (by omega)
    rwa [Nat.add_sub_cancel' hlo, Char.ofNat_toNat] at this
  unfold isHexDigit digitVal at h
  by_cases h9 : '0' ≤ c ∧ c ≤ '9'
  · exact hof 48 10 h9.1 (Nat.lt_succ_of_le h9.2) (by decide)
  by_cases hf : 'a' ≤ c ∧ c ≤ 'f'
  · exact hof 97 6 hf.1 (Nat.lt_succ_of_le hf.2) (by decide)
  by_cases hF : 'A' ≤ c ∧ c ≤ 'F'
  · exact hof 65 6 hF.1 (Nat.lt_succ_of_le hF.2) (by decide)
  simp [h9, hf, hF] at h

theorem isHexDigit_ascii {c : Char} (h : isHexDigit c = true) : c.toNat < 128 := by
  have hall : hexDigits.all (fun d => d.toNat < 128) = true := by decide
  exact of_decide_eq_true (List.all_eq_true.mp hall c (mem_hexDigits h))

/-- The byte that two hexadecimal digits spell. -/
def hexPair (h₁ h₂ : Char) : Option UInt8 :=
  match digitVal 16 h₁, digitVal 16 h₂ with
  | some a, some b => some (UInt8.ofNat (a * 16 + b))
  | _, _ => none

theorem hexPair_isSome {h₁ h₂ : Char} :
    (hexPair h₁ h₂).isSome = true ↔ isHexDigit h₁ = true ∧ isHexDigit h₂ = true := by
  unfold hexPair isHexDigit
  cases digitVal 16 h₁ <;> cases digitVal 16 h₂ <;> simp

/-- A piece of percent-encoded text: a character, or an escaped byte. -/
inductive Piece where
  | lit (c : Char)
  | esc (b : UInt8)
  deriving DecidableEq

/-- The bytes a piece stands for. -/
def Piece.bytes : Piece → Bytes
  | .lit c => String.utf8EncodeChar c
  | .esc b => [b]

/-- The pieces of a text. A `%` that no two digits follow stands for itself. -/
def pieces : Text → List Piece
  | [] => []
  | [c] => [.lit c]
  | [c, d] => [.lit c, .lit d]
  | c :: h₁ :: h₂ :: t =>
    if c = '%' then
      match hexPair h₁ h₂ with
      | some b => .esc b :: pieces t
      | none => .lit c :: pieces (h₁ :: h₂ :: t)
    else .lit c :: pieces (h₁ :: h₂ :: t)

def percentDecode (t : Text) : Bytes := (pieces t).flatMap Piece.bytes

/-- Every `%` is followed by two hexadecimal digits. -/
def WellEscaped (s : Text) : Prop :=
  ∀ a b, s = a ++ '%' :: b → ∃ h₁ h₂ t, b = h₁ :: h₂ :: t ∧
    isHexDigit h₁ = true ∧ isHexDigit h₂ = true

@[simp] theorem pieces_nil : pieces [] = [] := by simp [pieces]

@[simp] theorem pieces_lit {c : Char} (h : c ≠ '%') (t : Text) :
    pieces (c :: t) = .lit c :: pieces t := by
  match t with
  | [] => simp [pieces]
  | [d] => simp [pieces]
  | h₁ :: h₂ :: t => rw [pieces, if_neg h]

theorem pieces_esc {h₁ h₂ : Char} {b : UInt8} (h : hexPair h₁ h₂ = some b) (t : Text) :
    pieces ('%' :: h₁ :: h₂ :: t) = .esc b :: pieces t := by
  rw [pieces, if_pos rfl, h]

theorem percentDecode_plain {c : Char} (h : c ≠ '%') (t : Text) :
    percentDecode (c :: t) = String.utf8EncodeChar c ++ percentDecode t := by
  rw [percentDecode, pieces_lit h, List.flatMap_cons]
  rfl

theorem percentDecode_escape {h₁ h₂ : Char} {b : UInt8} (h : hexPair h₁ h₂ = some b) (t : Text) :
    percentDecode ('%' :: h₁ :: h₂ :: t) = b :: percentDecode t := by
  rw [percentDecode, pieces_esc h, List.flatMap_cons]
  rfl

/-- A text that is written as the given pieces. -/
inductive Spells : Text → List Piece → Prop where
  | nil : Spells [] []
  | lit {c : Char} {t : Text} {ps : List Piece} : Spells t ps → Spells (c :: t) (.lit c :: ps)
  | esc {h₁ h₂ : Char} {b : UInt8} {t : Text} {ps : List Piece} :
    hexPair h₁ h₂ = some b → Spells t ps → Spells ('%' :: h₁ :: h₂ :: t) (.esc b :: ps)

theorem spells_pieces (s : Text) : Spells s (pieces s) := by
  fun_induction pieces s with
  | case1 => exact .nil
  | case2 c => exact .lit .nil
  | case3 c d => exact .lit (.lit .nil)
  | case4 h₁ h₂ t b hb ih => exact .esc hb ih
  | case5 h₁ h₂ t hb ih => exact .lit ih
  | case6 c h₁ h₂ t hc ih => exact .lit ih

/-- A split of the pieces is a split of the text. -/
theorem Spells.append {s : Text} {ps qs : List Piece} (h : Spells s (ps ++ qs)) :
    ∃ a b, s = a ++ b ∧ Spells a ps ∧ Spells b qs := by
  induction ps generalizing s with
  | nil => exact ⟨[], s, rfl, .nil, h⟩
  | cons p ps ih =>
    cases h with
    | lit ht =>
      obtain ⟨a, b, rfl, ha, hb⟩ := ih ht
      exact ⟨_ :: a, b, rfl, .lit ha, hb⟩
    | esc hhex ht =>
      obtain ⟨a, b, rfl, ha, hb⟩ := ih ht
      exact ⟨_ :: _ :: _ :: a, b, rfl, .esc hhex ha, hb⟩

/-- Consecutive pieces are spelled by consecutive characters. -/
theorem Spells.within {s : Text} {ps qs : List Piece} (h : Spells s ps) (hq : qs <:+: ps) :
    ∃ m, m <:+: s ∧ Spells m qs := by
  obtain ⟨p, r, rfl⟩ := hq
  obtain ⟨a, b, rfl, ha, -⟩ := h.append
  obtain ⟨a', m, rfl, -, hm⟩ := ha.append
  exact ⟨m, ⟨a', b, rfl⟩, hm⟩

theorem Spells.mem_of_lit {s : Text} {ps : List Piece} (h : Spells s ps) {c : Char}
    (hc : .lit c ∈ ps) : c ∈ s := by
  induction h with
  | nil => cases hc
  | lit _ ih =>
    rcases List.mem_cons.mp hc with he | hc
    · cases he; exact List.mem_cons_self
    · exact List.mem_cons_of_mem _ (ih hc)
  | esc _ _ ih =>
    rcases List.mem_cons.mp hc with he | hc
    · cases he
    · simp [ih hc]

/-! ## Well-escaped text -/

theorem wellEscaped_cons {c : Char} {t : Text} :
    WellEscaped (c :: t) ↔ (c = '%' → ∃ h₁ h₂ t', t = h₁ :: h₂ :: t' ∧
      isHexDigit h₁ = true ∧ isHexDigit h₂ = true) ∧ WellEscaped t :=
  forall_occurrence_cons

/-- The text after an escape. -/
theorem WellEscaped.after_escape {h₁ h₂ : Char} {t : Text}
    (h : WellEscaped ('%' :: h₁ :: h₂ :: t)) : WellEscaped t :=
  (wellEscaped_cons.mp (wellEscaped_cons.mp (wellEscaped_cons.mp h).2).2).2

/-- Where no digit follows, no escape is cut. -/
theorem pieces_append {a b : Text} (h : WellEscaped (a ++ b))
    (hb : ∀ c ∈ b.head?, isHexDigit c = false) : pieces (a ++ b) = pieces a ++ pieces b := by
  match a with
  | [] => simp
  | c :: a =>
    obtain ⟨hesc, ht⟩ := wellEscaped_cons.mp (List.cons_append ▸ h)
    by_cases hc : c = '%'
    · subst hc
      obtain ⟨h₁, h₂, t, hab, hh₁, hh₂⟩ := hesc rfl
      match a with
      | [] =>
        rw [List.nil_append] at hab
        exact absurd (hb h₁ (by simp [hab])) (by simp [hh₁])
      | [x] =>
        simp only [List.cons_append, List.nil_append, List.cons.injEq] at hab
        exact absurd (hb h₂ (by simp [hab.2])) (by simp [hh₂])
      | x :: y :: a =>
        simp only [List.cons_append, List.cons.injEq] at hab
        obtain ⟨rfl, rfl, -⟩ := hab
        obtain ⟨v, hv⟩ := Option.isSome_iff_exists.mp (hexPair_isSome.mpr ⟨hh₁, hh₂⟩)
        have hrest : WellEscaped (a ++ b) := WellEscaped.after_escape h
        simp only [List.cons_append]
        rw [pieces_esc hv, pieces_esc hv, pieces_append hrest hb, List.cons_append]
    · rw [List.cons_append, pieces_lit hc, pieces_lit hc, pieces_append ht hb, List.cons_append]

/-- What a text spells comes first in the pieces of a longer one. -/
theorem Spells.pieces_append {m : Text} {ps : List Piece} (h : Spells m ps) (hp : .lit '%' ∉ ps)
    (b : Text) : pieces (m ++ b) = ps ++ pieces b := by
  induction h with
  | nil => rfl
  | lit _ ih =>
    simp only [List.mem_cons, Piece.lit.injEq, not_or] at hp
    rw [List.cons_append, pieces_lit (Ne.symm hp.1), ih hp.2, List.cons_append]
  | esc hhex _ ih =>
    simp only [List.mem_cons, not_or] at hp
    rw [List.cons_append, List.cons_append, List.cons_append, pieces_esc hhex, ih hp.2,
      List.cons_append]

/-- Where the text before it ends with an escape or a character, a spelling stands among the
pieces. -/
theorem pieces_of_spells {a m b : Text} {ps : List Piece} (hw : WellEscaped (a ++ (m ++ b)))
    (h : Spells m ps) (hp : .lit '%' ∉ ps) (hne : ps ≠ [])
    (hhead : ∀ c ∈ m.head?, isHexDigit c = false) :
    pieces (a ++ (m ++ b)) = pieces a ++ (ps ++ pieces b) := by
  have hm : m ≠ [] := by
    rintro rfl
    cases h
    exact hne rfl
  rw [Lib.pieces_append hw, h.pieces_append hp]
  intro c hc
  rw [List.head?_append_of_ne_nil _ hm] at hc
  exact hhead c hc

/-- The pieces are written somewhere in the text. -/
def Writes (s : Text) (ps : List Piece) : Prop := ∃ m, m <:+: s ∧ Spells m ps

/-- A character with each of its bytes escaped. -/
def escaped (c : Char) : List Piece := (String.utf8EncodeChar c).map .esc

theorem writes_of_pieces {s : Text} {ps : List Piece} (h : ps <:+: pieces s) : Writes s ps :=
  (spells_pieces s).within h

/-- Escapes that are written in a well-escaped text are pieces of it. -/
theorem WellEscaped.pieces_of_writes {s : Text} (hw : WellEscaped s) {bs : Bytes}
    (h : Writes s (bs.map .esc)) : bs.map .esc <:+: pieces s := by
  obtain ⟨m, ⟨a, b, rfl⟩, hm⟩ := h
  cases bs with
  | nil => exact List.nil_infix
  | cons x bs =>
    rw [List.append_assoc] at hw ⊢
    refine ⟨pieces a, pieces b, ?_⟩
    rw [pieces_of_spells hw hm (by simp) (by simp), List.append_assoc]
    cases hm
    simp [isHexDigit, digitVal]

/-- A character that neither is a digit nor begins an escape is a piece. -/
theorem WellEscaped.lit_of_mem {s : Text} (hw : WellEscaped s) {c : Char} (hc : c ∈ s)
    (hne : c ≠ '%') (hhex : isHexDigit c = false) : .lit c ∈ pieces s := by
  obtain ⟨a, b, rfl⟩ := List.append_of_mem hc
  rw [pieces_append hw (by simpa using hhex), pieces_lit hne]
  simp

/-! ## The characters of a decoding -/

/-- Bytes inside a character are written by escapes. -/
theorem flatMap_bytes_eq_append {bs : Bytes} (hbs : ∀ x ∈ bs, ¬ x.IsUTF8FirstByte)
    {ps : List Piece} {y : Bytes} (h : ps.flatMap Piece.bytes = bs ++ y) :
    ∃ qs, ps = bs.map .esc ++ qs ∧ qs.flatMap Piece.bytes = y := by
  induction bs generalizing ps with
  | nil => exact ⟨ps, rfl, h⟩
  | cons b bs ih =>
    cases ps with
    | nil => simp at h
    | cons p ps =>
      cases p with
      | lit c =>
        obtain ⟨b', bs', hc, hfirst, -⟩ := utf8EncodeChar_bytes c
        simp only [List.flatMap_cons, Piece.bytes, hc, List.cons_append, List.cons.injEq] at h
        exact absurd (h.1 ▸ hfirst) (hbs b (by simp))
      | esc x =>
        simp only [List.flatMap_cons, Piece.bytes, List.cons_append, List.nil_append,
          List.cons.injEq] at h
        obtain ⟨rfl, h⟩ := h
        obtain ⟨qs, rfl, hqs⟩ := ih (fun z hz => hbs z (by simp [hz])) h
        exact ⟨qs, rfl, hqs⟩

/-- **Spelling**: a character of a decoding is written as itself, or by an escape for each of its
bytes. -/
theorem spelled {ps : List Piece} {t : Text} (h : ps.flatMap Piece.bytes = utf8 t) {c : Char}
    (hc : c ∈ t) : .lit c ∈ ps ∨ (String.utf8EncodeChar c).map .esc <:+: ps := by
  induction t generalizing ps with
  | nil => cases hc
  | cons d t ih =>
    obtain ⟨b, bs, hd, -, hbs⟩ := utf8EncodeChar_bytes d
    cases ps with
    | nil => simp [hd] at h
    | cons p ps =>
      cases p with
      | lit x =>
        obtain ⟨rfl, ht⟩ := utf8EncodeChar_append_inj (by simpa [Piece.bytes] using h)
        rcases List.mem_cons.mp hc with rfl | hc
        · exact .inl List.mem_cons_self
        · rcases ih ht hc with hlit | hesc
          · exact .inl (List.mem_cons_of_mem _ hlit)
          · exact .inr (List.infix_cons hesc)
      | esc x =>
        simp only [List.flatMap_cons, Piece.bytes, utf8_cons, hd, List.cons_append,
          List.nil_append, List.cons.injEq] at h
        obtain ⟨rfl, h⟩ := h
        obtain ⟨qs, rfl, hqs⟩ := flatMap_bytes_eq_append hbs h
        rcases List.mem_cons.mp hc with rfl | hc
        · refine .inr ⟨[], qs, ?_⟩
          rw [hd]
          rfl
        · have hsub : qs <:+: .esc x :: (bs.map .esc ++ qs) :=
            List.infix_cons (List.suffix_append _ _).isInfix
          rcases ih hqs hc with hlit | hesc
          · exact .inl (hsub.mem hlit)
          · exact .inr (hesc.trans hsub)

/-- **The characters of a decoding**: those that stand in the text, and those that are escaped byte
by byte. -/
theorem mem_percentDecode {s t : Text} (hw : WellEscaped s)
    (ht : fromUtf8 (percentDecode s) = some t) {c : Char} (hne : c ≠ '%')
    (hhex : isHexDigit c = false) : c ∈ t ↔ c ∈ s ∨ Writes s (escaped c) := by
  have hbytes : (pieces s).flatMap Piece.bytes = utf8 t := fromUtf8_eq_some ht
  constructor
  · intro hc
    rcases spelled hbytes hc with hlit | hesc
    · exact .inl ((spells_pieces s).mem_of_lit hlit)
    · exact .inr (writes_of_pieces hesc)
  · intro hc
    apply mem_of_utf8EncodeChar_within
    rw [← hbytes]
    rcases hc with hlit | hesc
    · obtain ⟨p, q, hpq⟩ := List.append_of_mem (hw.lit_of_mem hlit hne hhex)
      rw [hpq]
      refine ⟨p.flatMap Piece.bytes, q.flatMap Piece.bytes, ?_⟩
      simp [Piece.bytes]
    · obtain ⟨p, q, hpq⟩ := hw.pieces_of_writes hesc
      rw [← hpq]
      refine ⟨p.flatMap Piece.bytes, q.flatMap Piece.bytes, ?_⟩
      simp [List.flatMap_map, Piece.bytes]

/-! ## Segments -/

/-- The two spellings of `/`. -/
def Piece.isSlash (p : Piece) : Bool := p = .lit '/' || p = .esc 47

/-- A stretch of pieces between two slashes, or a slash and an end. -/
def IsSegment (ps seg : List Piece) : Prop :=
  ∃ p q, ps = p ++ (seg ++ q) ∧ (∀ x ∈ p.getLast?, x.isSlash = true) ∧
    ∀ x ∈ q.head?, x.isSlash = true

/-- A text before which a segment ends: none, or one that begins with a slash. -/
def OpensWithSlash (b : Text) : Prop :=
  b = [] ∨ ∃ z b' x, b = z ++ b' ∧ Spells z [x] ∧ x.isSlash = true

/-- A text after which a segment begins: none, or one that ends with a slash. -/
def ClosesWithSlash (a : Text) : Prop :=
  a = [] ∨ ∃ a' z x, a = a' ++ z ∧ Spells z [x] ∧ x.isSlash = true

/-- A spelling of a segment, where a segment of the text can stand. -/
def WritesSegment (s : Text) (seg : List Piece) : Prop :=
  ∃ a m b, s = a ++ (m ++ b) ∧ Spells m seg ∧ ClosesWithSlash a ∧ OpensWithSlash b

theorem writesSegment_of_isSegment {s : Text} {seg : List Piece} (h : IsSegment (pieces s) seg) :
    WritesSegment s seg := by
  obtain ⟨p, q, hpq, hp, hq⟩ := h
  have hs := spells_pieces s
  rw [hpq] at hs
  obtain ⟨a, r, rfl, ha, hr⟩ := hs.append
  obtain ⟨m, b, rfl, hm, hb⟩ := hr.append
  refine ⟨a, m, b, rfl, hm, ?_, ?_⟩
  · rcases List.eq_nil_or_concat p with rfl | ⟨p, x, rfl⟩
    · cases ha; exact .inl rfl
    · rw [List.concat_eq_append] at ha hp
      obtain ⟨a', z, rfl, -, hz⟩ := ha.append
      exact .inr ⟨a', z, x, rfl, hz, hp x (by simp)⟩
  · cases q with
    | nil => cases hb; exact .inl rfl
    | cons x q =>
      have hsplit : Spells b ([x] ++ q) := hb
      obtain ⟨z, b', rfl, hz, -⟩ := hsplit.append
      exact .inr ⟨z, b', x, rfl, hz, hq x (by simp)⟩

/-- A slash begins with no digit. -/
theorem Spells.slash_head {z : Text} {x : Piece} (h : Spells z [x]) (hx : x.isSlash = true) :
    ∀ c ∈ z.head?, isHexDigit c = false := by
  cases h with
  | lit ht =>
    cases ht
    simp only [Piece.isSlash, Piece.lit.injEq, reduceCtorEq, decide_false, Bool.or_false,
      decide_eq_true_eq] at hx
    subst hx
    rintro c ⟨⟩
    rfl
  | esc _ ht =>
    cases ht
    rintro c ⟨⟩
    rfl

theorem Piece.isSlash_ne {x : Piece} (h : x.isSlash = true) : Piece.lit '%' ∉ [x] := by
  intro hmem
  rw [← List.mem_singleton.mp hmem] at h
  exact absurd h (by decide)

/-- Where no spelling is cut, the spelling of a segment is one. -/
theorem WellEscaped.isSegment_of_writes {s : Text} (hw : WellEscaped s) {seg : List Piece}
    (h : WritesSegment s seg) (hp : .lit '%' ∉ seg) : IsSegment (pieces s) seg := by
  obtain ⟨a, m, b, rfl, hm, ha, hb⟩ := h
  have hq : ∀ x ∈ (pieces b).head?, x.isSlash = true := by
    rcases hb with rfl | ⟨z, b', x, rfl, hz, hx⟩
    · simp
    · rw [hz.pieces_append (Piece.isSlash_ne hx)]
      simpa using hx
  rcases ha with rfl | ⟨a', z, x, rfl, hz, hx⟩
  · exact ⟨[], pieces b, hm.pieces_append hp b, by simp, hq⟩
  · rw [List.append_assoc] at hw ⊢
    refine ⟨pieces a' ++ [x], pieces b, ?_, by simpa using hx, hq⟩
    rw [pieces_of_spells hw hz (Piece.isSlash_ne hx) (by simp) (hz.slash_head hx),
      hm.pieces_append hp, List.append_assoc]

end Flexd.Lib
