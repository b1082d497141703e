import Flexd.Server.Responses

/-!
# The body cap of an HTTP/3 stream

The task of a stream receives DATA frames, and copies each out of its buffer one
contiguous slice at a time. The body and the overflow depend on the bytes alone,
not on how they are cut: `collectFrames_eq` is the receive loop over all the
slices, and `bodyCap_exact` says what is answered and which calls of `handleH3`
are made.
-/

namespace Flexd

open Lib HandlerService

/-- The buffer of a DATA frame: contiguous slices, none empty. -/
abbrev Frame := List { slice : Bytes // slice ≠ [] }

/-- What `recv_data` yields of a body: its frames in order, and whether an error ends them. -/
structure RecvFrames where
  frames : List Frame
  failed : Bool

/-- All slices, in order. -/
def RecvFrames.slices (stream : RecvFrames) : List Bytes := stream.frames.flatten.map (·.1)

/-- The whole body. -/
def RecvFrames.bytes (stream : RecvFrames) : Bytes := stream.slices.flatten

/-- The inner loop: copies slices to the body until the buffer is empty or the body overflows. -/
def drainFrame (maxBody : Nat) : Bytes → Frame → Bytes × Bool
  | body, [] => (body, false)
  | body, slice :: rest =>
    let body := body ++ slice.1
    if maxBody < body.length then (body, true) else drainFrame maxBody body rest

/-- The outer loop: receives frames until one overflows or the stream ends. -/
def collectFrames (maxBody : Nat) (failed : Bool) : Bytes → List Frame → CollectedH3
  | body, [] => if failed then .failed else .body body
  | body, frame :: rest =>
    let (body, overflow) := drainFrame maxBody body frame
    if overflow then .overflow else collectFrames maxBody failed body rest

/-- What the task of a stream did, and the calls of `handle_h3` it made. -/
structure StreamTask where
  handled : Handled
  calls : List Request

/-- The task that `serve_http3` spawns for a stream. -/
def streamTask (ext : External) (svc : HandlerService) (maxBody : Nat) (req : Request)
    (stream : RecvFrames) (client : IpAddr) (world : World) (st : ServiceState) : StreamTask :=
  match collectFrames maxBody stream.failed [] stream.frames with
  | .overflow => ⟨{ response := some overflowResponse, state := st, logs := [] }, []⟩
  | .failed => ⟨{ response := none, state := st, logs := [] }, []⟩
  | .body body =>
    let req := { req with body }
    ⟨svc.handleH3 ext req client world st, [req]⟩

/-! ## Chunking -/

/-- Draining a frame is the receive loop over its slices. -/
theorem collectH3_drainFrame (maxBody : Nat) (failed : Bool) (body : Bytes) (frame : Frame)
    (rest : List Bytes) :
    collectH3 maxBody failed body (frame.map (·.1) ++ rest) =
      if (drainFrame maxBody body frame).2 then .overflow
      else collectH3 maxBody failed (drainFrame maxBody body frame).1 rest := by
  induction frame generalizing body with
  | nil => rfl
  | cons slice slices ih =>
    rw [List.map_cons, List.cons_append, collectH3, drainFrame]
    by_cases hover : maxBody < (body ++ slice.1).length
    · simp only [if_pos hover, if_true]
    · simp only [if_neg hover]
      exact ih (body ++ slice.1)

/-- **Chunking**: the two loops are one over all slices. -/
theorem collectFrames_eq (maxBody : Nat) (failed : Bool) (body : Bytes) (frames : List Frame) :
    collectFrames maxBody failed body frames =
      collectH3 maxBody failed body (frames.flatten.map (·.1)) := by
  induction frames generalizing body with
  | nil => rfl
  | cons frame frames ih =>
    rw [List.flatten_cons, List.map_append, collectH3_drainFrame, collectFrames]
    simp only [ih]

/-- A task gives what `serveHttp3` gives on the slices. -/
theorem streamTask_handled (ext : External) (svc : HandlerService) (req : Request)
    (stream : RecvFrames) (client : IpAddr) (world : World) (st : ServiceState) :
    (streamTask ext svc (svc.httpBlock.maxBodySize.getD (10 * 1024 * 1024)) req stream client world
      st).handled =
      serveHttp3 ext svc req ⟨stream.slices, stream.failed⟩ client world st := by
  unfold streamTask serveHttp3
  rw [collectFrames_eq]
  split <;> simp_all [RecvFrames.slices]

/-! ## The cap -/

/-- **The body cap**: on a stream that ends, the task answers 413 and leaves the handler alone
exactly on more bytes than the cap, and otherwise calls it once, with the bytes of all slices. -/
theorem bodyCap_exact (ext : External) (svc : HandlerService) (maxBody : Nat) (req : Request)
    (frames : List Frame) (client : IpAddr) (world : World) (st : ServiceState) :
    let stream : RecvFrames := ⟨frames, false⟩
    let task := streamTask ext svc maxBody req stream client world st
    let whole : Request := { req with body := stream.bytes }
    (task.handled.response = some overflowResponse ∧ task.calls = [] ↔
      maxBody < stream.bytes.length) ∧
    (task.handled = svc.handleH3 ext whole client world st ∧ task.calls = [whole] ↔
      stream.bytes.length ≤ maxBody) := by
  intro stream task whole
  have hcollect : collectFrames maxBody false [] frames =
      if maxBody < stream.bytes.length then .overflow else .body stream.bytes := by
    rw [collectFrames_eq, collectH3_eq false (Nat.zero_le _)]
    rfl
  have htask : task = if maxBody < stream.bytes.length then
        ⟨{ response := some overflowResponse, state := st, logs := [] }, []⟩
      else ⟨svc.handleH3 ext whole client world st, [whole]⟩ := by
    show streamTask ext svc maxBody req stream client world st = _
    unfold streamTask
    rw [hcollect]
    by_cases hover : maxBody < stream.bytes.length
    · rw [if_pos hover, if_pos hover]
    · rw [if_neg hover, if_neg hover]
  by_cases hover : maxBody < stream.bytes.length
  · rw [htask, if_pos hover]
    refine ⟨iff_of_true ⟨rfl, rfl⟩ hover, iff_of_false ?_ (Nat.not_le.mpr hover)⟩
    rintro ⟨-, ⟨⟩⟩
  · rw [htask, if_neg hover]
    refine ⟨iff_of_false ?_ hover, iff_of_true ⟨rfl, rfl⟩ (Nat.not_lt.mp hover)⟩
    rintro ⟨-, ⟨⟩⟩

end Flexd
