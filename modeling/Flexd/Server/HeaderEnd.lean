import Flexd.Server.AcceptLoop
import Mathlib.Order.Bounds.Basic

/-!
# The end of a header section

A strict reader takes a blank line, CR LF CR LF, for the end of the header
section; a lenient one is content with line feeds alone. Where `hasBareLf`
finds nothing the two agree on every buffer (`headerEnd_unambiguous`).
-/

namespace Flexd

open Lib

/-- Where the occurrences of CR LF CR LF end. -/
def blankEnds (b : Bytes) : Set Nat :=
  {e | ∃ pre post, b = pre ++ [13, 10, 13, 10] ++ post ∧ e = pre.length + 4}

/-- Where a reader that takes line feeds alone may see the end of the header section. -/
def lenientEnds (b : Bytes) : Set Nat :=
  {e | e ≤ b.length ∧ ([10, 10] <:+ b.take e ∨ [10, 13, 10] <:+ b.take e)}

theorem blankEnds_nonempty {b : Bytes} : (blankEnds b).Nonempty ↔ [13, 10, 13, 10] <:+: b := by
  constructor
  · rintro ⟨e, pre, post, rfl, -⟩
    exact ⟨pre, post, rfl⟩
  · rintro ⟨pre, post, rfl⟩
    exact ⟨pre.length + 4, pre, post, rfl, rfl⟩

/-- A strict end is a lenient one. -/
theorem lenient_of_blank {b : Bytes} {e : Nat} (h : e ∈ blankEnds b) : e ∈ lenientEnds b := by
  obtain ⟨pre, post, rfl, rfl⟩ := h
  refine ⟨by simp, .inr ⟨pre ++ [13], ?_⟩⟩
  rw [List.take_left' (by simp)]
  simp

/-! ## What the check looks at -/

theorem mem_blankEnds_cons {x : UInt8} {b : Bytes} {e : Nat} :
    e ∈ blankEnds (x :: b) ↔
      ([13, 10, 13, 10] <+: x :: b ∧ e = 4) ∨ ∃ e' ∈ blankEnds b, e = e' + 1 := by
  constructor
  · rintro ⟨pre, post, hb, rfl⟩
    cases pre with
    | nil => exact .inl ⟨⟨post, hb.symm⟩, rfl⟩
    | cons y pre =>
      obtain ⟨rfl, rfl⟩ := List.cons.inj hb
      exact .inr ⟨pre.length + 4, ⟨pre, post, rfl, rfl⟩, by simp⟩
  · rintro (⟨⟨post, hb⟩, rfl⟩ | ⟨e', ⟨pre, post, rfl, rfl⟩, rfl⟩)
    · exact ⟨[], post, hb.symm, rfl⟩
    · exact ⟨x :: pre, post, rfl, by simp⟩

/-- The search finds the first occurrence. -/
theorem crlfCrlf_spec (b : Bytes) :
    (∀ p, crlfCrlf b = some p → IsLeast (blankEnds b) (p + 4)) ∧
      (crlfCrlf b = none → blankEnds b = ∅) := by
  induction b with
  | nil =>
    refine ⟨nofun, fun _ => ?_⟩
    rw [Set.eq_empty_iff_forall_notMem]
    rintro e ⟨pre, post, hb, -⟩
    simp at hb
  | cons x b ih =>
    rw [crlfCrlf]
    by_cases hpre : [13, 10, 13, 10] <+: x :: b
    · rw [if_pos (List.isPrefixOf_iff_prefix.mpr hpre)]
      refine ⟨?_, fun h => by cases h⟩
      rintro p ⟨⟩
      refine ⟨mem_blankEnds_cons.mpr (.inl ⟨hpre, rfl⟩), ?_⟩
      rintro e ⟨pre, post, -, rfl⟩
      omega
    · rw [if_neg fun h => hpre (List.isPrefixOf_iff_prefix.mp h)]
      constructor
      · intro p hp
        obtain ⟨q, hq, rfl⟩ := Option.map_eq_some_iff.mp hp
        obtain ⟨hmem, hleast⟩ := ih.1 q hq
        refine ⟨mem_blankEnds_cons.mpr (.inr ⟨q + 4, hmem, by omega⟩), fun e he => ?_⟩
        rcases mem_blankEnds_cons.mp he with ⟨hhead, -⟩ | ⟨e', he', rfl⟩
        · exact absurd hhead hpre
        · have := hleast he'
          omega
      · intro hnone
        have hempty := ih.2 (Option.map_eq_none_iff.mp hnone)
        rw [Set.eq_empty_iff_forall_notMem]
        intro e he
        rcases mem_blankEnds_cons.mp he with ⟨hhead, -⟩ | ⟨e', he', -⟩
        · exact hpre hhead
        · rw [hempty] at he'
          exact he'

/-- Every line feed follows a carriage return. -/
theorem bareLfAfter_eq_false {prev : Option UInt8} {s : Bytes} :
    bareLfAfter prev s = false ↔
      ∀ pre post, s = pre ++ 10 :: post → pre.getLast?.or prev = some 13 := by
  induction s generalizing prev with
  | nil => simp [bareLfAfter]
  | cons x s ih =>
    have hlast : ∀ pre : Bytes, (x :: pre).getLast?.or prev = pre.getLast?.or (some x) := by
      intro pre
      rw [List.getLast?_cons]
      cases pre.getLast? <;> rfl
    rw [forall_occurrence_cons (P := fun pre _ => pre.getLast?.or prev = some 13)]
    simp only [hlast, bareLfAfter, Bool.or_eq_false_iff, ih, List.getLast?_nil, Option.none_or]
    refine and_congr_left fun _ => ?_
    by_cases hx : x = 10 <;> simp [hx]

/-! ## Agreement -/

/-- Among bytes without a bare line feed, a lenient end is a strict one. -/
theorem blank_of_lenient {s : Bytes} (hs : bareLfAfter none s = false)
    (h : [10, 10] <:+ s ∨ [10, 13, 10] <:+ s) : [13, 10, 13, 10] <:+ s := by
  have hcr := bareLfAfter_eq_false.mp hs
  simp only [Option.or_none] at hcr
  rcases h with ⟨pre, rfl⟩ | ⟨pre, rfl⟩
  · have hlast := hcr (pre ++ [10]) [] (by simp)
    simp at hlast
  · obtain ⟨pre', rfl⟩ := List.getLast?_eq_some_iff.mp (hcr pre [13, 10] (by simp))
    exact ⟨pre', by simp⟩

theorem bareLfAfter_take {s : Bytes} (hs : bareLfAfter none s = false) (n : Nat) :
    bareLfAfter none (s.take n) = false := by
  refine bareLfAfter_eq_false.mpr fun pre post he => ?_
  refine bareLfAfter_eq_false.mp hs pre (post ++ s.drop n) ?_
  refine (List.take_append_drop n s).symm.trans ?_
  rw [he, List.append_assoc, List.cons_append]

/-- A lenient end, not after the part that is checked, is a strict one. -/
theorem blank_of_lenient_of_le {b : Bytes} (h : hasBareLf b = false) {e : Nat}
    (he : e ∈ lenientEnds b) (hle : e ≤ ((crlfCrlf b).map (· + 4)).getD b.length) :
    e ∈ blankEnds b := by
  have htake : bareLfAfter none (b.take e) = false := by
    have := bareLfAfter_take h e
    rwa [List.take_take, Nat.min_eq_left hle] at this
  obtain ⟨pre, hpre⟩ := blank_of_lenient htake he.2
  refine ⟨pre, b.drop e, by rw [hpre, List.take_append_drop], ?_⟩
  have hlen := congrArg List.length hpre
  rw [List.length_append, List.length_take, Nat.min_eq_left he.1] at hlen
  exact hlen.symm

/-- **A buffer without a bare line feed has one end**: a lenient reader finds one where there is a
blank line, and it is the end of the first blank line. -/
theorem headerEnd_unambiguous {b : Bytes} (h : hasBareLf b = false) :
    ((∃ e, IsLeast (lenientEnds b) e) ↔ [13, 10, 13, 10] <:+: b) ∧
      ∀ e, IsLeast (lenientEnds b) e ↔ IsLeast (blankEnds b) e := by
  obtain ⟨hfound, hnone⟩ := crlfCrlf_spec b
  cases hp : crlfCrlf b with
  | none =>
    -- the whole buffer is checked, and has neither
    have hblank := hnone hp
    have hlenient : lenientEnds b = ∅ := by
      rw [Set.eq_empty_iff_forall_notMem]
      intro e he
      have hmem := blank_of_lenient_of_le h he (by rw [hp]; exact he.1)
      rw [hblank] at hmem
      exact hmem
    have hinfix : ¬[13, 10, 13, 10] <:+: b := by
      rw [← blankEnds_nonempty, hblank]
      exact Set.not_nonempty_empty
    rw [hblank, hlenient]
    exact ⟨iff_of_false (fun ⟨e, he⟩ => he.1) hinfix, fun e => Iff.rfl⟩
  | some p =>
    have hleast := hfound p hp
    have hlenient : IsLeast (lenientEnds b) (p + 4) := by
      refine ⟨lenient_of_blank hleast.1, fun e he => ?_⟩
      by_contra hlt
      have hle : e ≤ ((crlfCrlf b).map (· + 4)).getD b.length := by
        rw [hp]
        exact Nat.le_of_not_le hlt
      exact hlt (hleast.2 (blank_of_lenient_of_le h he hle))
    refine ⟨iff_of_true ⟨_, hlenient⟩ (blankEnds_nonempty.mp ⟨_, hleast.1⟩), fun e => ?_⟩
    constructor
    · intro he
      rw [he.unique hlenient]
      exact hleast
    · intro he
      rw [he.unique hleast]
      exact hlenient

namespace Sample

/-- A request, and what a client may send right after it. -/
def pipelined : Bytes := utf8 "GET / HTTP/1.1\r\nHost: a\r\n\r\nA\n\nB".toList

end Sample

open Sample

theorem headerEnd_unambiguous_pipelined :
    hasBareLf pipelined = false ∧
      ((∃ e, IsLeast (lenientEnds pipelined) e) ↔ [13, 10, 13, 10] <:+: pipelined) ∧
      ∀ e, IsLeast (lenientEnds pipelined) e ↔ IsLeast (blankEnds pipelined) e :=
  have h : hasBareLf pipelined = false := by decide
  ⟨h, headerEnd_unambiguous h⟩

end Flexd
