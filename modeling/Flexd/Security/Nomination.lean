import Flexd.Security.Headers

/-!
# What `Connection` nominates

A `Connection` value is a comma-separated list of header names. `elements`
reads it byte by byte, whatever bytes it holds; `stripHopByHop` reads it as
text and passes over a value that is not visible ASCII. On the values it does
read the two agree (`elements_eq`), so the names it removes are the ones the
readable values name (`mem_nominatedNames`), and
`strippedClean_iff` says for which header maps that is all of them.
`stripHopByHop_frame` says what is kept.
-/

namespace Flexd

open Lib

/-! ## Elements of a value -/

/-- The whitespace a header value can hold. -/
def isBlank (b : UInt8) : Bool := b = 9 || b = 32

def trimBlanks (bs : Bytes) : Bytes :=
  ((bs.dropWhile isBlank).reverse.dropWhile isBlank).reverse

/-- An ASCII letter in lower case, any other byte as it is. -/
def lowerByte (b : UInt8) : UInt8 := if 65 ≤ b && b ≤ 90 then b + 32 else b

/-- The comma-separated elements of a value, without the blanks around them and in lower case. -/
def HeaderValue.elements (v : HeaderValue) : List Bytes :=
  (v.bytes.splitOn 44).map fun e => (trimBlanks e).map lowerByte

/-- The value has an element that spells the name. -/
def HeaderValue.Names (v : HeaderValue) (n : HeaderName) : Prop := utf8 n.text ∈ v.elements

instance (v : HeaderValue) (n : HeaderName) : Decidable (v.Names n) :=
  inferInstanceAs (Decidable (utf8 n.text ∈ v.elements))

/-- The character of an ASCII byte. -/
def asciiChar (b : UInt8) : Char := Char.ofNat b.toNat

/-- What the text operations do on the character of a visible byte, checked byte by byte. -/
theorem asciiChar_visible (b : UInt8) (h : isVisibleAscii b = true) :
    ((asciiChar b == ',') = (b == 44)) ∧ isWhitespace (asciiChar b) = isBlank b ∧
      (asciiChar b).toLower = asciiChar (lowerByte b) ∧
      String.utf8EncodeChar (asciiChar (lowerByte b)) = [lowerByte b] := by
  have hall : ∀ n < 256, isVisibleAscii (UInt8.ofNat n) = true →
      ((asciiChar (UInt8.ofNat n) == ',') = (UInt8.ofNat n == 44)) ∧
        isWhitespace (asciiChar (UInt8.ofNat n)) = isBlank (UInt8.ofNat n) ∧
        (asciiChar (UInt8.ofNat n)).toLower = asciiChar (lowerByte (UInt8.ofNat n)) ∧
        String.utf8EncodeChar (asciiChar (lowerByte (UInt8.ofNat n))) =
          [lowerByte (UInt8.ofNat n)] := by
    decide +kernel
  have hb := hall b.toNat b.toNat_lt
  rw [UInt8.ofNat_toNat] at hb
  exact hb h

theorem trim_asciiChar {bs : Bytes} (h : ∀ b ∈ bs, isVisibleAscii b = true) :
    trim (bs.map asciiChar) = (trimBlanks bs).map asciiChar := by
  have hl := dropWhile_map_of fun b hb => (asciiChar_visible b (h b hb)).2.1
  have hr : ((bs.dropWhile isBlank).reverse.map asciiChar).dropWhile isWhitespace =
      ((bs.dropWhile isBlank).reverse.dropWhile isBlank).map asciiChar := by
    apply dropWhile_map_of
    intro b hb
    exact (asciiChar_visible b
      (h b ((List.dropWhile_sublist _).subset (List.mem_reverse.mp hb)))).2.1
  rw [trim, hl, ← List.map_reverse, hr, ← List.map_reverse, trimBlanks]

theorem mem_of_mem_trimBlanks {bs : Bytes} {b : UInt8} (h : b ∈ trimBlanks bs) : b ∈ bs := by
  have h1 := (List.dropWhile_sublist _).subset (List.mem_reverse.mp h)
  exact (List.dropWhile_sublist _).subset (List.mem_reverse.mp h1)

/-- The element of a visible part of a value, read as text. -/
theorem utf8_element {bs : Bytes} (h : ∀ b ∈ bs, isVisibleAscii b = true) :
    utf8 (asciiLower (trim (bs.map asciiChar))) = (trimBlanks bs).map lowerByte := by
  rw [trim_asciiChar h, asciiLower, List.map_map]
  have hv : ∀ b ∈ trimBlanks bs, isVisibleAscii b = true := by
    intro b hb
    exact h b (mem_of_mem_trimBlanks hb)
  generalize trimBlanks bs = cs at hv
  induction cs with
  | nil => rfl
  | cons b cs ih =>
    obtain ⟨-, -, hlow, henc⟩ := asciiChar_visible b (hv b (by simp))
    rw [List.map_cons, utf8_cons, ih fun c hc => hv c (by simp [hc])]
    simp only [Function.comp, hlow, henc]
    rfl

/-- On a value it can decode, reading text and reading bytes give the same elements. -/
theorem elements_eq {v : HeaderValue} {t : Text} (h : v.toStr = some t) :
    v.elements = (t.splitOn ',').map fun e => utf8 (asciiLower (trim e)) := by
  unfold HeaderValue.toStr at h
  split at h
  case isFalse => cases h
  case isTrue hv =>
    cases h
    rw [List.all_eq_true] at hv
    have hs : (v.bytes.map asciiChar).splitOn ',' =
        (v.bytes.splitOn 44).map (List.map asciiChar) :=
      splitOn_map fun b hb => (asciiChar_visible b (hv b hb)).1
    show _ = ((v.bytes.map asciiChar).splitOn ',').map _
    rw [hs, List.map_map]
    apply List.map_congr_left
    intro e he
    exact (utf8_element fun b hb => hv b (mem_of_mem_splitOn he hb)).symm

/-- A value is undecodable exactly when it holds a byte from `0x80` on. -/
theorem toStr_eq_none_iff (v : HeaderValue) : v.toStr = none ↔ ∃ b ∈ v.bytes, 128 ≤ b := by
  have hb : ∀ b ∈ v.bytes, isVisibleAscii b = true ↔ ¬ 128 ≤ b := by
    intro b hb
    have hv := List.all_eq_true.mp v.valid b hb
    simp only [isValueByte, isVisibleAscii, UInt8.le_iff_toNat_le, UInt8.lt_iff_toNat_lt,
      ← UInt8.toNat_inj, ne_eq, Bool.or_eq_true, Bool.and_eq_true, decide_eq_true_eq] at hv ⊢
    simp only [UInt8.reduceToNat] at hv ⊢
    omega
  unfold HeaderValue.toStr
  split
  case isTrue h =>
    rw [List.all_eq_true] at h
    simp only [reduceCtorEq, false_iff, not_exists, not_and]
    exact fun b hm => (hb b hm).mp (h b hm)
  case isFalse h =>
    simp only [true_iff]
    by_contra hn
    apply h
    rw [List.all_eq_true]
    intro b hm
    exact (hb b hm).mpr fun hge => hn ⟨b, hm, hge⟩

/-! ## What stripping removes -/

/-- Nomination is by the lower-case spelling of a name. -/
theorem mem_nominatedNames_iff_text {headers : HeaderMap} {n : HeaderName} :
    n ∈ nominatedNames headers ↔ n.text ∈ nominated headers := by
  -- A nominated token is in lower case already, so parsing it as a name leaves it as it is.
  have hlow : ∀ t ∈ nominated headers, asciiLower t = t := by
    intro t ht
    obtain ⟨e, -, rfl⟩ := List.mem_map.mp (List.mem_filter.mp ht).1
    exact asciiLower_asciiLower _
  simp only [nominatedNames, List.mem_filterMap, HeaderName.fromBytes]
  constructor
  · rintro ⟨t, ht, he⟩
    split at he
    · cases he
      simp only [hlow t ht]
      exact ht
    · cases he
  · intro hn
    refine ⟨n.text, hn, ?_⟩
    have hv : isName (asciiLower n.text) = true := by
      rw [hlow _ hn]
      exact n.valid
    rw [dif_pos hv]
    cases n
    simp only [hlow _ hn]

/-- The names the readable values nominate. -/
theorem mem_nominatedNames {headers : HeaderMap} {n : HeaderName} :
    n ∈ nominatedNames headers ↔
      n ≠ .host ∧ n ≠ .contentLength ∧
        ∃ v ∈ headers.getAll .connection, v.toStr ≠ none ∧ v.Names n := by
  have hne : n.text ≠ [] := by
    intro h
    have := n.valid
    rw [h] at this
    cases this
  have hex : n.text ∉ nominationExempt ↔ n ≠ .host ∧ n ≠ .contentLength := by
    have heq : ∀ k : HeaderName, n.text = k.text ↔ n = k := by
      intro k
      rw [HeaderName.mk.injEq]
    show n.text ∉ [HeaderName.host.text, HeaderName.contentLength.text] ↔ _
    rw [List.mem_pair, heq, heq, not_or]
  have htok : (∃ e ∈ ((headers.getAll .connection).filterMap HeaderValue.toStr).flatMap
        (List.splitOn ','), asciiLower (trim e) = n.text) ↔
      ∃ v ∈ headers.getAll .connection, v.toStr ≠ none ∧ v.Names n := by
    constructor
    · rintro ⟨e, he, hn⟩
      obtain ⟨t, ht, he⟩ := List.mem_flatMap.mp he
      obtain ⟨v, hv, hs⟩ := List.mem_filterMap.mp ht
      refine ⟨v, hv, by simp [hs], ?_⟩
      rw [HeaderValue.Names, elements_eq hs, ← hn]
      exact List.mem_map_of_mem he
    · rintro ⟨v, hv, hd, hn⟩
      obtain ⟨t, hs⟩ := Option.ne_none_iff_exists'.mp hd
      rw [HeaderValue.Names, elements_eq hs] at hn
      obtain ⟨e, he, heq⟩ := List.mem_map.mp hn
      exact ⟨e, List.mem_flatMap.mpr ⟨t, List.mem_filterMap.mpr ⟨v, hv, hs⟩, he⟩, utf8_inj heq⟩
  rw [mem_nominatedNames_iff_text, nominated, List.mem_filter, List.mem_map, htok]
  simp only [ne_eq, hne, not_false_eq_true, decide_true, Bool.true_and, decide_eq_true_eq, hex]
  tauto

/-- Of every name but `Host` and `Content-Length` that a `Connection` value of the input names,
and of every hop-by-hop name, no header is left. -/
def StrippedClean (headers : HeaderMap) : Prop :=
  ∀ e ∈ stripHopByHop headers, e.1 ∉ hopByHop ∧
    ∀ v ∈ headers.getAll .connection, v.Names e.1 → e.1 = .host ∨ e.1 = .contentLength

/-- A header of the map named by a `Connection` value with a byte from `0x80` on is exempt from
nomination, hop-by-hop, or named by a `Connection` value without such a byte too. -/
def NamedReadably (headers : HeaderMap) : Prop :=
  ∀ e ∈ headers, ∀ v ∈ headers.getAll .connection, (∃ b ∈ v.bytes, 128 ≤ b) → v.Names e.1 →
    e.1 = .host ∨ e.1 = .contentLength ∨ e.1 ∈ hopByHop ∨
      ∃ w ∈ headers.getAll .connection, (∀ b ∈ w.bytes, b < 128) ∧ w.Names e.1

theorem mem_stripHopByHop {headers : HeaderMap} {e : HeaderName × HeaderValue} :
    e ∈ stripHopByHop headers ↔
      e ∈ headers ∧ e.1 ∉ nominatedNames headers ∧ e.1 ∉ hopByHop := by
  unfold stripHopByHop
  rw [MultiMap.mem_removeAll, MultiMap.mem_removeAll]
  tauto

/-- **Nominations in readable values are honoured, the others are not**: stripping leaves none
of the named headers exactly when every header named by an undecodable value is taken out for
another reason. -/
theorem strippedClean_iff (headers : HeaderMap) :
    StrippedClean headers ↔ NamedReadably headers := by
  have hread : ∀ w : HeaderValue, (∀ b ∈ w.bytes, b < 128) ↔ w.toStr ≠ none := by
    intro w
    rw [ne_eq, toStr_eq_none_iff]
    push Not
    exact forall₂_congr fun b _ => UInt8.not_le.symm
  constructor
  · intro h e he v hv hbad hn
    by_cases hh : e.1 = .host
    · exact .inl hh
    by_cases hc : e.1 = .contentLength
    · exact .inr (.inl hc)
    by_cases hhop : e.1 ∈ hopByHop
    · exact .inr (.inr (.inl hhop))
    -- Were it not nominated readably, the header would survive, against the assumption.
    have hnom : e.1 ∈ nominatedNames headers := by
      by_contra hnot
      rcases (h e (mem_stripHopByHop.mpr ⟨he, hnot, hhop⟩)).2 v hv hn with h1 | h1
      · exact hh h1
      · exact hc h1
    obtain ⟨-, -, w, hw, hs, hnw⟩ := mem_nominatedNames.mp hnom
    exact .inr (.inr (.inr ⟨w, hw, (hread w).mpr hs, hnw⟩))
  · intro h e he
    obtain ⟨he, hnot, hhop⟩ := mem_stripHopByHop.mp he
    refine ⟨hhop, fun v hv hn => ?_⟩
    by_contra hex
    push Not at hex
    have hdec : ∀ w ∈ headers.getAll .connection, w.Names e.1 → w.toStr = none := by
      intro w hw hnw
      by_contra hs
      exact hnot (mem_nominatedNames.mpr ⟨hex.1, hex.2, w, hw, hs, hnw⟩)
    have hbad := (toStr_eq_none_iff v).mp (hdec v hv hn)
    rcases h e he v hv hbad hn with h1 | h1 | h1 | ⟨w, hw, hs, hnw⟩
    · exact hex.1 h1
    · exact hex.2 h1
    · exact hhop h1
    · exact (hread w).mp hs (hdec w hw hnw)

/-- `Connection: x-internal, ÿ` (one byte `0xFF`) on a map that has an `X-Internal` header. -/
def smuggled : HeaderMap :=
  [(.connection, ⟨utf8 "x-internal, ".toList ++ [255], by decide⟩),
    (⟨"x-internal".toList, by decide⟩, ⟨utf8 "1".toList, by decide⟩)]

theorem smuggled_not_clean : ¬ StrippedClean smuggled := by
  intro h
  have hleft := (h (⟨"x-internal".toList, by decide⟩, ⟨utf8 "1".toList, by decide⟩)
    (by decide)).2 ⟨utf8 "x-internal, ".toList ++ [255], by decide⟩ (by decide) (by decide)
  revert hleft
  decide

/-! ## What stripping keeps -/

theorem contentLength_not_mem_hopByHop : HeaderName.contentLength ∉ hopByHop := by decide

theorem host_not_mem_hopByHop : HeaderName.host ∉ hopByHop := by decide

/-- Stripped headers have nothing left to strip. -/
theorem stripHopByHop_stripHopByHop (headers : HeaderMap) :
    stripHopByHop (stripHopByHop headers) = stripHopByHop headers := by
  have hconnection : (stripHopByHop headers).getAll .connection = [] := by
    rw [getAll_stripHopByHop, if_pos (.inr (by decide))]
  have hnominated : nominatedNames (stripHopByHop headers) = [] := by
    refine List.eq_nil_iff_forall_not_mem.mpr fun n hn => ?_
    obtain ⟨-, -, v, hv, -⟩ := mem_nominatedNames.mp hn
    rw [hconnection] at hv
    cases hv
  have hhop : (stripHopByHop headers).removeAll hopByHop = stripHopByHop headers :=
    MultiMap.removeAll_eq_self fun e he => (mem_stripHopByHop.mp he).2.2
  generalize stripHopByHop headers = stripped at hnominated hhop ⊢
  rw [stripHopByHop, hnominated]
  exact hhop

/-- **Stripping removes nothing else**: a name that is neither hop-by-hop nor named by a readable
`Connection` value keeps all its values in their order, as `Host` and `Content-Length` always do;
and stripping twice is stripping once. -/
theorem stripHopByHop_frame (headers : HeaderMap) :
    (∀ n ∉ hopByHop, (∀ v ∈ headers.getAll .connection, v.toStr ≠ none → ¬v.Names n) →
      (stripHopByHop headers).getAll n = headers.getAll n) ∧
    (stripHopByHop headers).getAll .host = headers.getAll .host ∧
    (stripHopByHop headers).getAll .contentLength = headers.getAll .contentLength ∧
    stripHopByHop (stripHopByHop headers) = stripHopByHop headers := by
  have hkeep : ∀ {n}, n ∉ nominatedNames headers → n ∉ hopByHop →
      (stripHopByHop headers).getAll n = headers.getAll n := by
    intro n hnominated hhop
    rw [getAll_stripHopByHop, if_neg (not_or.mpr ⟨hnominated, hhop⟩)]
  refine ⟨fun n hhop hnames => hkeep (fun hn => ?_) hhop,
    hkeep (fun hn => ?_) host_not_mem_hopByHop,
    hkeep (fun hn => ?_) contentLength_not_mem_hopByHop, stripHopByHop_stripHopByHop headers⟩
  · obtain ⟨-, -, v, hv, hread, hnamed⟩ := mem_nominatedNames.mp hn
    exact hnames v hv hread hnamed
  · exact (mem_nominatedNames.mp hn).1 rfl
  · exact (mem_nominatedNames.mp hn).2.1 rfl

end Flexd
