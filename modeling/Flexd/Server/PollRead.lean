import Flexd.Lib.ByteReader
import Flexd.Server.LineEndings

/-!
# The peek wrapper over any stream

`BareLfGuard` is generic in the stream it wraps, which may not be ready and may
fail. It is a reader of what is left of the first read, followed by the content
of the inner stream (`guard_delivers`); `polls_exact` says what that means for
the bytes delivered by any sequence of polls. Over the sockets of a listener it
is the guard of the connection (`pollRead_socket`).
-/

namespace Flexd.AsyncRead

open Lib
open Stream' (Seq)

/-- A stream whose first read was taken off and is given back. -/
structure BareLfGuard (S : Type*) where
  inner : S
  prefixBuf : Bytes
  prefixPos : Nat
  rejected : Bool

namespace BareLfGuard

variable {S : Type*}

def new (inner : S) (prefixBuf : Bytes) (rejected : Bool) : BareLfGuard S :=
  ⟨inner, prefixBuf, 0, rejected⟩

/-- `poll_read` into a buffer with room for `remaining` bytes. -/
def pollRead (R : Reader S) (g : BareLfGuard S) (remaining : Nat) : BareLfGuard S × ReadPoll :=
  if g.rejected then (g, .ready [])
  else if g.prefixPos < g.prefixBuf.length then
    let rest := g.prefixBuf.drop g.prefixPos
    let toCopy := min rest.length remaining
    ({ g with prefixPos := g.prefixPos + toCopy }, .ready (rest.take toCopy))
  else
    let (inner, poll) := R.step g.inner remaining
    ({ g with inner := inner }, poll)

def reader (R : Reader S) : Reader (BareLfGuard S) := ⟨pollRead R⟩

/-- What is still to be given out. -/
def rest (content : S → Seq UInt8) (g : BareLfGuard S) : Seq UInt8 :=
  if g.rejected then .nil
  else (Seq.ofList (g.prefixBuf.drop g.prefixPos)).append (content g.inner)

end BareLfGuard

open Flexd.AsyncRead.BareLfGuard

variable {S : Type*} {R : Reader S} {content : S → Seq UInt8}

theorem poll_rejected {g : BareLfGuard S} (hr : g.rejected = true) (room : Nat) :
    PollDelivers (reader R) (rest content) g room := by
  have hstep : (reader R).step g room = (g, .ready []) := if_pos hr
  have hnil : rest content g = .nil := if_pos hr
  refine ⟨?_, ?_, fun _ _ => hnil⟩
  · rw [hstep, hnil]
    exact (Seq.nil_append _).symm
  · rw [hstep]
    exact Nat.zero_le room

/-- A poll while the first read is not used up: one of what is left of it. -/
theorem poll_prefix {g : BareLfGuard S} (hr : ¬ g.rejected = true)
    (hp : g.prefixPos < g.prefixBuf.length) (room : Nat) :
    PollDelivers (reader R) (rest content) g room := by
  have hstep : (reader R).step g room =
      ({ g with prefixPos := g.prefixPos + min (g.prefixBuf.drop g.prefixPos).length room },
        .ready ((g.prefixBuf.drop g.prefixPos).take room)) := by
    show pollRead R g room = _
    unfold pollRead
    rw [if_neg hr, if_pos hp, List.take_eq_take_min (i := room), Nat.min_comm room]
  have hdrop : g.prefixBuf.drop
      (g.prefixPos + min (g.prefixBuf.drop g.prefixPos).length room) =
        (g.prefixBuf.drop g.prefixPos).drop room := by
    rw [← List.drop_drop, Nat.min_comm]
    exact List.drop_eq_drop_min.symm
  refine ⟨?_, ?_, fun hroom hnil => ?_⟩
  · rw [hstep]
    simp only [rest, if_neg hr, hdrop]
    rw [← Seq.append_assoc]
    exact congrArg (Seq.append · _) (bytesReader_delivers.takes _ room)
  · rw [hstep]
    exact bytesReader_delivers.fits _ room
  · rw [hstep] at hnil
    have hnone : (g.prefixBuf.drop g.prefixPos).take room = [] := congrArg ReadPoll.bytes hnil
    rcases List.take_eq_nil_iff.mp hnone with rfl | hend
    · exact absurd hroom (Nat.lt_irrefl 0)
    · exact absurd (List.drop_eq_nil_iff.mp hend) (Nat.not_le.mpr hp)

/-- After that a poll is one of the inner stream. -/
theorem poll_inner (h : Delivers R content) {g : BareLfGuard S} (hr : ¬ g.rejected = true)
    (hp : ¬ g.prefixPos < g.prefixBuf.length) (room : Nat) :
    PollDelivers (reader R) (rest content) g room := by
  have hstep : (reader R).step g room =
      ({ g with inner := (R.step g.inner room).1 }, (R.step g.inner room).2) := by
    show pollRead R g room = _
    unfold pollRead
    rw [if_neg hr, if_neg hp]
  have hrest : ∀ inner : S, rest content { g with inner } = content inner := by
    intro inner
    have hdrop : g.prefixBuf.drop g.prefixPos = [] := List.drop_eq_nil_of_le (Nat.not_lt.mp hp)
    simp only [rest, if_neg hr, hdrop]
    exact Seq.nil_append _
  refine ⟨?_, ?_, fun hroom hnil => ?_⟩
  · rw [hstep]
    simp only [hrest]
    exact h.takes g.inner room
  · rw [hstep]
    exact h.fits g.inner room
  · rw [hstep] at hnil
    exact (hrest g.inner).trans (h.ends g.inner room hroom hnil)

/-- **The guard is a reader** of what is left of the first read and then of the inner stream. -/
theorem guard_delivers (h : Delivers R content) : Delivers (reader R) (rest content) := by
  refine .of_polls fun g room => ?_
  by_cases hr : g.rejected = true
  · exact poll_rejected hr room
  by_cases hp : g.prefixPos < g.prefixBuf.length
  · exact poll_prefix hr hp room
  · exact poll_inner h hr hp room

/-- What no poll changes. -/
structure GuardInv (prefixBuf : Bytes) (g : BareLfGuard S) : Prop where
  buf : g.prefixBuf = prefixBuf
  pos : g.prefixPos ≤ prefixBuf.length
  accepted : g.rejected = false

theorem guardInv_run (R : Reader S) (inner : S) (prefixBuf : Bytes) (rooms : List Nat) :
    GuardInv prefixBuf ((reader R).run (.new inner prefixBuf false) rooms) := by
  refine Machine.run_inv (GuardInv prefixBuf) ⟨rfl, Nat.zero_le _, rfl⟩ (fun g room h => ?_) rooms
  show GuardInv prefixBuf (pollRead R g room).1
  unfold pollRead
  rw [if_neg (by simp [h.accepted])]
  split
  · refine ⟨h.buf, ?_, h.accepted⟩
    rw [← h.buf]
    show g.prefixPos + min (g.prefixBuf.drop g.prefixPos).length room ≤ g.prefixBuf.length
    rw [List.length_drop]
    omega
  · exact ⟨h.buf, h.pos, h.accepted⟩

/-- **The peek wrapper is exact**: whatever the first read, the inner stream and the polls, the
bytes delivered and what is left of the first read and of the inner stream are the whole, in order;
the position stays within the first read; and a poll with room that gives no bytes finds both at
their end. -/
theorem polls_exact (h : Delivers R content) (inner : S) (prefixBuf : Bytes) {rooms : List Nat}
    (hrooms : ∀ room ∈ rooms, 0 < room) :
    let g := (reader R).run (.new inner prefixBuf false) rooms
    (Seq.ofList prefixBuf).append (content inner) =
      (Seq.ofList (delivered ((reader R).outputs (.new inner prefixBuf false) rooms))).append
        ((Seq.ofList (prefixBuf.drop g.prefixPos)).append (content g.inner)) ∧
    g.prefixPos ≤ prefixBuf.length ∧
    ∀ pre room post, rooms = pre ++ room :: post →
      let g := (reader R).run (.new inner prefixBuf false) pre
      ((reader R).step g room).2 = .ready [] →
        g.prefixPos = prefixBuf.length ∧ content g.inner = .nil := by
  have hrest : ∀ rooms,
      rest content ((reader R).run (.new inner prefixBuf false) rooms) =
        (Seq.ofList (prefixBuf.drop
          ((reader R).run (.new inner prefixBuf false) rooms).prefixPos)).append
            (content ((reader R).run (.new inner prefixBuf false) rooms).inner) := by
    intro rooms
    have hinv := guardInv_run R inner prefixBuf rooms
    rw [rest, if_neg (by simp [hinv.accepted]), hinv.buf]
  refine ⟨?_, (guardInv_run R inner prefixBuf rooms).pos, ?_⟩
  · rw [← hrest rooms]
    exact (guard_delivers h).run (.new inner prefixBuf false) rooms
  · rintro pre room post rfl g hnone
    have hnil := (guard_delivers h).ends _ room (hrooms room (by simp)) hnone
    rw [hrest pre] at hnil
    have hinv := guardInv_run R inner prefixBuf pre
    cases hdrop : prefixBuf.drop ((reader R).run (.new inner prefixBuf false) pre).prefixPos with
    | nil =>
      rw [hdrop] at hnil
      refine ⟨Nat.le_antisymm hinv.pos (List.drop_eq_nil_iff.mp hdrop), ?_⟩
      exact (Seq.nil_append _).symm.trans hnil
    | cons b bs =>
      rw [hdrop, Seq.ofList_cons, Seq.cons_append] at hnil
      exact absurd hnil Seq.cons_ne_nil

namespace Sample

/-- A stream of these bytes that is not ready at every other poll. -/
def haltingReader : Reader (Bytes × Bool) where
  step s room :=
    if s.2 then ((s.1.drop room, false), .ready (s.1.take room)) else ((s.1, true), .pending)

theorem haltingReader_delivers : Delivers haltingReader fun s => Seq.ofList s.1 := by
  refine ⟨?_, ?_, ?_⟩ <;> rintro ⟨bytes, ready⟩ room <;> cases ready
  · exact (Seq.nil_append _).symm
  · exact bytesReader_delivers.takes bytes room
  · exact Nat.zero_le _
  · exact bytesReader_delivers.fits bytes room
  · intro _ h
    cases h
  · exact bytesReader_delivers.ends bytes room

/-- Polls of a guard that has peeked at four bytes. -/
def peekedPolls : List ReadPoll :=
  (reader haltingReader).outputs (.new ([5, 6, 7], false) [1, 2, 3, 4] false) [3, 3, 2, 2, 2, 2]

end Sample

open Flexd.AsyncRead.Sample

theorem polls_exact_halting :
    Delivers haltingReader (fun s => Seq.ofList s.1) ∧
    (∀ room ∈ [3, 3, 2, 2, 2, 2], 0 < room) ∧
    let g := (reader haltingReader).run (.new ([5, 6, 7], false) [1, 2, 3, 4] false)
      [3, 3, 2, 2, 2, 2]
    (Seq.ofList [1, 2, 3, 4]).append (Seq.ofList [5, 6, 7]) =
      (Seq.ofList (delivered peekedPolls)).append
        ((Seq.ofList ([1, 2, 3, 4].drop g.prefixPos)).append (Seq.ofList g.inner.1)) ∧
    g.prefixPos ≤ 4 := by
  have hrooms : ∀ room ∈ [3, 3, 2, 2, 2, 2], 0 < room := by decide
  obtain ⟨hwhole, hpos, -⟩ :=
    polls_exact haltingReader_delivers ([5, 6, 7], false) [1, 2, 3, 4] hrooms
  exact ⟨haltingReader_delivers, hrooms, hwhole, hpos⟩

/-! ## Over a socket -/

/-- The reads of a socket, which are always ready. -/
def socketReader : Reader Socket := ⟨fun s room => ((s.read room).2, .ready (s.read room).1)⟩

/-- The guard of a plain connection. -/
def ofSocket (g : Flexd.BareLfGuard) : BareLfGuard Socket :=
  ⟨g.inner, g.prefixBuf, g.prefixPos, g.rejected⟩

theorem pollRead_socket (g : Flexd.BareLfGuard) (room : Nat) :
    pollRead socketReader (ofSocket g) room =
      (ofSocket (g.pollRead room).1, .ready (g.pollRead room).2) := by
  obtain ⟨inner, prefixBuf, prefixPos, rejected⟩ := g
  cases rejected with
  | true => rfl
  | false =>
    by_cases hp : prefixPos < prefixBuf.length
    · simp only [pollRead, Flexd.BareLfGuard.pollRead, ofSocket, Bool.false_eq_true, if_false,
        if_pos hp]
      exact if_pos hp
    · simp only [pollRead, Flexd.BareLfGuard.pollRead, ofSocket, Bool.false_eq_true, if_false,
        if_neg hp, socketReader]
      exact if_neg hp

end Flexd.AsyncRead
