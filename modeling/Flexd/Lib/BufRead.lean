import Mathlib.Data.List.Basic

/-!
# Buffered reading of delimited records

A `BufReader` is a buffer and what the reads behind it will give, of which an
empty one is the end. `readUntil` takes a record off it, a read at a time, and
`records` is how a whole content divides into records. `readUntil_eq` makes the
one the first of the other, so that nothing depends on how the content was cut
into reads.
-/

namespace Flexd.Lib

variable {α : Type*} [DecidableEq α]

/-! ## Records of a list -/

/-- A list up to its first delimiter, and the rest. -/
def firstRecord (d : α) : List α → List α × List α
  | [] => ([], [])
  | a :: l => if a = d then ([a], l) else (a :: (firstRecord d l).1, (firstRecord d l).2)

/-- The records of a list, each with its delimiter, but for a last one without. -/
def records (d : α) : List α → List (List α)
  | [] => []
  | a :: l =>
    if a = d then [a] :: records d l
    else
      match records d l with
      | [] => [[a]]
      | r :: rs => (a :: r) :: rs

variable {d : α} {l s t : List α}

theorem records_cons (d a : α) (l : List α) : records d (a :: l) =
    if a = d then [a] :: records d l
    else match records d l with
      | [] => [[a]]
      | r :: rs => (a :: r) :: rs := rfl

theorem records_eq_nil : records d l = [] ↔ l = [] := by
  cases l with
  | nil => simp [records]
  | cons a l =>
    simp only [records, reduceCtorEq, iff_false]
    split
    · simp
    · split <;> simp

theorem records_of_ne_nil (h : l ≠ []) :
    records d l = (firstRecord d l).1 :: records d (firstRecord d l).2 := by
  induction l with
  | nil => exact absurd rfl h
  | cons a l ih =>
    by_cases ha : a = d
    · simp only [records, firstRecord, if_pos ha]
    · rw [records, firstRecord, if_neg ha, if_neg ha]
      cases l with
      | nil => rfl
      | cons b l => rw [ih (by simp)]

theorem firstRecord_append_of_mem (h : d ∈ s) (t : List α) :
    firstRecord d (s ++ t) = ((firstRecord d s).1, (firstRecord d s).2 ++ t) := by
  induction s with
  | nil => cases h
  | cons a s ih =>
    simp only [firstRecord, List.cons_append]
    by_cases ha : a = d
    · simp only [if_pos ha]
    · have hmem : d ∈ s := (List.mem_cons.mp h).resolve_left (Ne.symm ha)
      simp only [if_neg ha, ih hmem]

theorem firstRecord_append_of_not_mem (h : d ∉ s) (t : List α) :
    firstRecord d (s ++ t) = (s ++ (firstRecord d t).1, (firstRecord d t).2) := by
  induction s with
  | nil => rfl
  | cons a s ih =>
    rw [List.mem_cons, not_or] at h
    simp only [firstRecord, List.cons_append, if_neg (Ne.symm h.1), ih h.2]

theorem firstRecord_append_firstRecord (d : α) (l : List α) :
    (firstRecord d l).1 ++ (firstRecord d l).2 = l := by
  induction l with
  | nil => rfl
  | cons a l ih =>
    unfold firstRecord
    split
    · rfl
    · simpa using ih

theorem firstRecord_ne_nil (h : l ≠ []) : (firstRecord d l).1 ≠ [] := by
  cases l with
  | nil => exact absurd rfl h
  | cons a l =>
    unfold firstRecord
    split <;> simp

/-- The first record ends with the delimiter if there is one. -/
theorem mem_firstRecord : d ∈ (firstRecord d l).1 ↔ d ∈ l := by
  induction l with
  | nil => rfl
  | cons a l ih =>
    unfold firstRecord
    split
    · next ha => simp [ha]
    · simp [ih]

/-- The list ends with a delimiter, or is empty. -/
def Complete (d : α) (l : List α) : Prop := l = [] ∨ l.getLast? = some d

/-- A complete list keeps its records whatever follows. -/
theorem records_append (h : Complete d s) (t : List α) :
    records d (s ++ t) = records d s ++ records d t := by
  induction s with
  | nil => rfl
  | cons a s ih =>
    have hlast : (a :: s).getLast? = some d := h.resolve_left (by simp)
    cases s with
    | nil =>
      obtain rfl : a = d := by simpa using hlast
      simp [records]
    | cons b s =>
      rw [List.getLast?_cons_cons] at hlast
      have hrest := ih (.inr hlast)
      rw [List.cons_append, records_cons, records_cons, hrest]
      by_cases ha : a = d
      · simp only [if_pos ha, List.cons_append]
      · simp only [if_neg ha]
        cases hr : records d (b :: s) with
        | nil => simp [records_eq_nil] at hr
        | cons r rs => rfl

/-- A single record. -/
theorem records_singleton (h : d ∉ s) : records d (s ++ [d]) = [s ++ [d]] := by
  rw [records_of_ne_nil (by simp), firstRecord_append_of_not_mem h]
  simp [firstRecord, records]

omit [DecidableEq α] in
theorem complete_append (h : Complete d t) (hne : t ≠ []) (s : List α) : Complete d (s ++ t) := by
  refine .inr ?_
  rw [List.getLast?_append, h.resolve_left hne]
  rfl

/-! ## The reader -/

/-- A buffer, and the reads to come. After these the source ends, or fails. -/
structure BufReader (α : Type*) where
  buf : List α
  reads : List (List α)
  fails : Bool

namespace BufReader

/-- The reads before the first empty one, which is the end. -/
def upTo : List (List α) → List α
  | [] => []
  | [] :: _ => []
  | (a :: r) :: reads => (a :: r) ++ upTo reads

/-- What is still to be read. -/
def content (r : BufReader α) : List α := r.buf ++ upTo r.reads

/-- Whether the content ends with a failure. -/
def broken (fails : Bool) : List (List α) → Bool
  | [] => fails
  | [] :: _ => false
  | (_ :: _) :: reads => broken fails reads

/-- Reads on to a delimiter from an exhausted buffer. -/
def fill (d : α) (fails : Bool) : List (List α) → Option (List α × BufReader α)
  | [] => if fails then none else some ([], ⟨[], [], fails⟩)
  | [] :: reads => some ([], ⟨[], [] :: reads, fails⟩)
  | (a :: r) :: reads =>
    if d ∈ a :: r then
      some ((firstRecord d (a :: r)).1, ⟨(firstRecord d (a :: r)).2, reads, fails⟩)
    else (fill d fails reads).map fun (s, b) => ((a :: r) ++ s, b)

/-- `read_until`: a record up to and with the delimiter, or all that is left, and none if a read
fails. -/
def readUntil (d : α) (r : BufReader α) : Option (List α × BufReader α) :=
  if d ∈ r.buf then some ((firstRecord d r.buf).1, { r with buf := (firstRecord d r.buf).2 })
  else (fill d r.fails r.reads).map fun (s, b) => (r.buf ++ s, b)

/-- A failing source, seen from the reader. -/
def Broken (r : BufReader α) : Prop := broken r.fails r.reads = true

theorem fill_eq (d : α) (fails : Bool) (reads : List (List α)) :
    fill d fails reads = none ∧ broken fails reads = true ∧ d ∉ upTo reads ∨
    ∃ b, fill d fails reads = some ((firstRecord d (upTo reads)).1, b) ∧
      b.content = (firstRecord d (upTo reads)).2 ∧ (b.Broken ↔ broken fails reads = true) ∧
      (broken fails reads = true → d ∈ upTo reads) := by
  induction reads with
  | nil =>
    cases fails with
    | true => exact .inl ⟨rfl, rfl, by simp [upTo]⟩
    | false => exact .inr ⟨⟨[], [], false⟩, rfl, rfl, Iff.rfl, by simp [broken]⟩
  | cons r reads ih =>
    cases r with
    | nil => exact .inr ⟨⟨[], [] :: reads, fails⟩, rfl, rfl, Iff.rfl, by simp [broken]⟩
    | cons a r =>
      unfold fill
      by_cases hd : d ∈ a :: r
      · refine .inr ⟨⟨(firstRecord d (a :: r)).2, reads, fails⟩, ?_, ?_, Iff.rfl, fun _ => ?_⟩
        · rw [if_pos hd, upTo, firstRecord_append_of_mem hd]
        · rw [upTo, firstRecord_append_of_mem hd]
          rfl
        · exact List.mem_append_left _ hd
      · rw [if_neg hd, upTo, firstRecord_append_of_not_mem hd]
        rcases ih with ⟨hnone, hbroken, hmem⟩ | ⟨b, hsome, hrest, hbroken, hmem⟩
        · refine .inl ⟨by rw [hnone]; rfl, hbroken, ?_⟩
          simp only [List.mem_append, not_or]
          exact ⟨hd, hmem⟩
        · refine .inr ⟨b, by rw [hsome]; rfl, hrest, hbroken, fun h => ?_⟩
          exact List.mem_append_right _ (hmem h)

/-- **A record read is the first of the content**, however the content is cut into reads; none is
read where the source fails before a delimiter. -/
theorem readUntil_eq (d : α) (r : BufReader α) :
    r.readUntil d = none ∧ r.Broken ∧ d ∉ r.content ∨
    ∃ b, r.readUntil d = some ((firstRecord d r.content).1, b) ∧
      b.content = (firstRecord d r.content).2 ∧ (b.Broken ↔ r.Broken) ∧
      (r.Broken → d ∈ r.content) := by
  unfold readUntil content
  by_cases hd : d ∈ r.buf
  · rw [if_pos hd, firstRecord_append_of_mem hd]
    exact .inr ⟨_, rfl, rfl, Iff.rfl, fun _ => List.mem_append_left _ hd⟩
  · rw [if_neg hd, firstRecord_append_of_not_mem hd]
    rcases fill_eq d r.fails r.reads with ⟨hnone, hbroken, hmem⟩ | ⟨b, hsome, hrest, hbroken, hmem⟩
    · refine .inl ⟨by rw [hnone]; rfl, hbroken, ?_⟩
      simp only [List.mem_append, not_or]
      exact ⟨hd, hmem⟩
    · refine .inr ⟨b, by rw [hsome]; rfl, hrest, hbroken, fun h => ?_⟩
      exact List.mem_append_right _ (hmem h)

/-- The records a reader gives: the last is lost if it is not complete when the source fails. -/
def lines (d : α) (r : BufReader α) : List (List α) :=
  if broken r.fails r.reads then (records d r.content).filter (d ∈ ·) else records d r.content

theorem records_of_not_mem (h : d ∉ l) : records d l = if l = [] then [] else [l] := by
  cases l with
  | nil => rfl
  | cons a l =>
    have hfirst : firstRecord d (a :: l) = (a :: l, []) := by
      rw [← List.append_nil (a :: l), firstRecord_append_of_not_mem h]
      simp [firstRecord]
    rw [records_of_ne_nil (by simp), hfirst]
    rfl

/-- **A read takes the first record off**: it fails or finds the end where none is left. -/
theorem readUntil_cases (d : α) (r : BufReader α) :
    (r.readUntil d = none ∧ r.lines d = []) ∨
    (∃ b, r.readUntil d = some ([], b) ∧ r.lines d = []) ∨
    ∃ record b, r.readUntil d = some (record, b) ∧ record ≠ [] ∧
      r.lines d = record :: b.lines d ∧ b.content.length < r.content.length := by
  rcases readUntil_eq d r with ⟨hnone, hbroken, hmem⟩ | ⟨b, hsome, hrest, hbroken, hmem⟩
  · refine .inl ⟨hnone, ?_⟩
    have hb : broken r.fails r.reads = true := hbroken
    unfold lines
    rw [if_pos hb, records_of_not_mem hmem]
    split <;> simp [hmem]
  · by_cases hc : r.content = []
    · refine .inr (.inl ⟨b, by rw [hsome, hc]; rfl, ?_⟩)
      unfold lines
      rw [hc]
      split <;> rfl
    · have hne : (firstRecord d r.content).1 ≠ [] := firstRecord_ne_nil hc
      refine .inr (.inr ⟨_, b, hsome, hne, ?_, ?_⟩)
      · have hsame : broken b.fails b.reads = broken r.fails r.reads := Bool.eq_iff_iff.mpr hbroken
        unfold lines
        rw [hsame, hrest, records_of_ne_nil hc]
        split
        · next hb =>
          -- a source that fails later still has this record's delimiter
          rw [List.filter_cons_of_pos]
          exact decide_eq_true (mem_firstRecord.mpr (hmem hb))
        · rfl
      · have hlen := congrArg List.length (firstRecord_append_firstRecord d r.content)
        rw [List.length_append] at hlen
        have hpos := List.length_pos_iff.mpr hne
        rw [hrest]
        omega

end BufReader

end Flexd.Lib
