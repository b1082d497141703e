import Flexd.Lib.Machine
import Flexd.Lib.Text
import Mathlib.Data.Seq.Basic

/-!
# Polled byte streams

A reader is polled with room for some bytes, and is not ready, fails, or gives
bytes. It `Delivers` a content, which may be infinite, when every poll takes its
bytes off the front of what is still to come and a poll with room that gives
none finds the end. `Delivers.run` is what any sequence of polls gives.
-/

namespace Flexd.Lib

open Stream' (Seq)

/-- What a poll gives. -/
inductive ReadPoll where
  | pending
  | failed
  | ready (bytes : Bytes)
  deriving DecidableEq

def ReadPoll.bytes : ReadPoll → Bytes
  | .ready bytes => bytes
  | _ => []

/-- A reader, polled with room for a number of bytes. -/
abbrev Reader (S : Type*) := Machine S Nat ReadPoll

/-- The bytes that polls gave. -/
def delivered (polls : List ReadPoll) : Bytes := polls.flatMap ReadPoll.bytes

/-- The reader gives out the content of its state, in order. -/
structure Delivers {S : Type*} (R : Reader S) (content : S → Seq UInt8) : Prop where
  takes : ∀ s room, content s =
    (Seq.ofList (R.step s room).2.bytes).append (content (R.step s room).1)
  fits : ∀ s room, (R.step s room).2.bytes.length ≤ room
  ends : ∀ s room, 0 < room → (R.step s room).2 = .ready [] → content s = .nil

/-- One poll does. -/
structure PollDelivers {S : Type*} (R : Reader S) (content : S → Seq UInt8) (s : S) (room : Nat) :
    Prop where
  takes : content s = (Seq.ofList (R.step s room).2.bytes).append (content (R.step s room).1)
  fits : (R.step s room).2.bytes.length ≤ room
  ends : 0 < room → (R.step s room).2 = .ready [] → content s = .nil

theorem Delivers.of_polls {S : Type*} {R : Reader S} {content : S → Seq UInt8}
    (h : ∀ s room, PollDelivers R content s room) : Delivers R content :=
  ⟨fun s room => (h s room).takes, fun s room => (h s room).fits, fun s room => (h s room).ends⟩

/-- **However a reader is polled**, it gives a first part of its content, and the rest is still to
come. -/
theorem Delivers.run {S : Type*} {R : Reader S} {content : S → Seq UInt8} (h : Delivers R content)
    (s : S) (rooms : List Nat) :
    content s =
      (Seq.ofList (delivered (R.outputs s rooms))).append (content (R.run s rooms)) := by
  induction rooms generalizing s with
  | nil => exact (Seq.nil_append _).symm
  | cons room rooms ih =>
    have hcons : delivered (R.outputs s (room :: rooms)) =
        (R.step s room).2.bytes ++ delivered (R.outputs (R.step s room).1 rooms) := rfl
    rw [hcons, Seq.ofList_append, Seq.append_assoc, h.takes s room]
    exact congrArg _ (ih _)

/-- The reader of a byte string. -/
def bytesReader : Reader Bytes where
  step bytes room := (bytes.drop room, .ready (bytes.take room))

theorem bytesReader_delivers : Delivers bytesReader Seq.ofList := by
  refine ⟨fun bytes room => ?_, fun bytes room => ?_, fun bytes room hroom h => ?_⟩
  · show Seq.ofList bytes = (Seq.ofList (bytes.take room)).append (Seq.ofList (bytes.drop room))
    rw [← Seq.ofList_append, List.take_append_drop]
  · show (bytes.take room).length ≤ room
    rw [List.length_take]
    exact Nat.min_le_left _ _
  · have hnil : bytes.take room = [] := congrArg ReadPoll.bytes h
    rcases List.take_eq_nil_iff.mp hnil with rfl | rfl
    · exact absurd hroom (Nat.lt_irrefl 0)
    · rfl

end Flexd.Lib
