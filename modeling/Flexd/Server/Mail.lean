import Flexd.External
import Flexd.Lib.BufRead

/-!
# The mail session

A mail listener is a stub: it greets, answers a line at a time, and ends the
session at QUIT, at a line that is too long, and where the lines end or are not
UTF-8. `handleMailSession_eq` says that what it writes depends only on the
lines the client sends, not on how they arrive; `handleMailSession_accepts`
that no line is answered as if a message had been taken.
-/

namespace Flexd

open Lib

inductive MailReply where
  | greeting
  | bye
  | hello
  | ok
  | notImplemented
  | lineTooLong
  deriving DecidableEq

def MailReply.text : MailReply → Text
  | .greeting => "220 flexd ESMTP\r\n".toList
  | .bye => "221 2.0.0 Bye\r\n".toList
  | .hello => "250 flexd\r\n".toList
  | .ok => "250 2.0.0 OK\r\n".toList
  | .notImplemented => "502 5.5.1 Command not implemented (flexd mail stub)\r\n".toList
  | .lineTooLong => "500 5.5.6 Command line too long\r\n".toList

/-- The session goes on after the reply. -/
def MailReply.goesOn : MailReply → Bool
  | .bye | .lineTooLong => false
  | _ => true

/-- The reply to a command, as it reads trimmed and in upper case. -/
def mailCommand (cmd : Text) : MailReply :=
  if "QUIT".toList.isPrefixOf cmd then .bye
  else if "EHLO".toList.isPrefixOf cmd || "HELO".toList.isPrefixOf cmd then .hello
  else if "NOOP".toList.isPrefixOf cmd then .ok
  else .notImplemented

/-- The reply to a line with its line end, none where it is not UTF-8. -/
def mailReply (ext : External) (maxLineLen : Nat) (line : Bytes) : Option MailReply :=
  (fromUtf8 line).map fun text =>
    if maxLineLen < line.length then .lineTooLong else mailCommand (ext.toUppercase (trim text))

/-- A mail connection: what it reads, whether the greeting can be written, and which replies can
be flushed. -/
structure MailConn where
  reader : BufReader UInt8
  greets : Bool
  flushes : Nat → Bool

/-- The loop of `handle_mail_session`, after `n` replies: what it writes. -/
def mailLoop (ext : External) (maxLineLen : Nat) (flushes : Nat → Bool) (n : Nat)
    (r : BufReader UInt8) : List MailReply :=
  match _h : r.readUntil 10 with
  | none => []
  | some (line, r') =>
    if _hend : line = [] then []
    else
      match mailReply ext maxLineLen line with
      | none => []
      | some reply =>
        if reply.goesOn && flushes n then
          reply :: mailLoop ext maxLineLen flushes (n + 1) r'
        else [reply]
termination_by r.content.length
decreasing_by
  rcases r.readUntil_cases 10 with ⟨h, -⟩ | ⟨b, h, -⟩ | ⟨record, b, h, -, -, hlt⟩
  · rw [h] at _h
    cases _h
  · rw [h] at _h
    cases _h
    exact absurd rfl _hend
  · rw [h] at _h
    cases _h
    exact hlt

/-- `handle_mail_session`. -/
def handleMailSession (ext : External) (maxLineLen : Nat) (conn : MailConn) : List MailReply :=
  .greeting ::
    (if conn.greets then mailLoop ext maxLineLen conn.flushes 0 conn.reader else [])

/-! ## What the client sees -/

/-- The replies to lines, after `n` of them. -/
def mailReplies (ext : External) (maxLineLen : Nat) (flushes : Nat → Bool) :
    Nat → List Bytes → List MailReply
  | _, [] => []
  | n, line :: lines =>
    match mailReply ext maxLineLen line with
    | none => []
    | some reply =>
      if reply.goesOn && flushes n then
        reply :: mailReplies ext maxLineLen flushes (n + 1) lines
      else [reply]

variable {ext : External} {maxLineLen : Nat} {flushes : Nat → Bool}

/-- **The loop answers the lines** of its reader. -/
theorem mailLoop_eq (n : Nat) (r : BufReader UInt8) :
    mailLoop ext maxLineLen flushes n r =
      mailReplies ext maxLineLen flushes n (r.lines 10) := by
  induction hlen : r.content.length using Nat.strong_induction_on generalizing n r with
  | _ len ih =>
    subst hlen
    rw [mailLoop]
    rcases r.readUntil_cases 10 with ⟨h, hlines⟩ | ⟨b, h, hlines⟩ | ⟨line, b, h, hne, hlines, hlt⟩
    · simp only [hlines, mailReplies]
      split
      · rfl
      · next h' => simp [h] at h'
    · simp only [hlines, mailReplies]
      split
      · rfl
      · next h' =>
        rw [h] at h'
        cases h'
        simp
    · simp only [hlines, mailReplies]
      split
      · next h' => simp [h] at h'
      · next h' =>
        rw [h] at h'
        cases h'
        rw [dif_neg hne]
        cases mailReply ext maxLineLen line with
        | none => rfl
        | some reply =>
          simp only
          rw [ih b.content.length hlt (n + 1) b rfl]

/-- The replies are to the first lines, in order, and nothing follows one that ends the session. -/
theorem mailReplies_getElem? {n i : Nat} {lines : List Bytes} {reply : MailReply}
    (h : (mailReplies ext maxLineLen flushes n lines)[i]? = some reply) :
    ∃ line, lines[i]? = some line ∧ mailReply ext maxLineLen line = some reply ∧
      (reply.goesOn = false → (mailReplies ext maxLineLen flushes n lines)[i + 1]? = none) := by
  induction lines generalizing n i with
  | nil => simp [mailReplies] at h
  | cons line lines ih =>
    unfold mailReplies at h ⊢
    cases hr : mailReply ext maxLineLen line with
    | none => simp [hr] at h
    | some first =>
      simp only [hr] at h ⊢
      by_cases hon : (first.goesOn && flushes n) = true
      · rw [if_pos hon] at h ⊢
        cases i with
        | zero =>
          obtain rfl : first = reply := by simpa using h
          refine ⟨line, rfl, hr, fun hoff => ?_⟩
          simp [hoff] at hon
        | succ i => exact ih h
      · rw [if_neg hon] at h ⊢
        cases i with
        | zero =>
          obtain rfl : first = reply := by simpa using h
          exact ⟨line, rfl, hr, fun _ => rfl⟩
        | succ i => simp at h

theorem mailCommand_accepts {cmd : Text} (h : mailCommand cmd = .hello ∨ mailCommand cmd = .ok) :
    ∃ verb ∈ ["EHLO".toList, "HELO".toList, "NOOP".toList], verb <+: cmd := by
  unfold mailCommand at h
  split at h
  · simp at h
  · split at h
    · next hhello =>
      rw [Bool.or_eq_true, List.isPrefixOf_iff_prefix, List.isPrefixOf_iff_prefix] at hhello
      rcases hhello with hhello | hhello
      · exact ⟨_, by simp, hhello⟩
      · exact ⟨_, by simp, hhello⟩
    · split at h
      · next hnoop => exact ⟨_, by simp, List.isPrefixOf_iff_prefix.mp hnoop⟩
      · simp at h

/-- **A session depends on the lines the client sends alone**, not on how they arrive: it writes
the greeting, and the replies to the lines in order. -/
theorem handleMailSession_eq (ext : External) (maxLineLen : Nat) (conn : MailConn) :
    handleMailSession ext maxLineLen conn = .greeting ::
      (if conn.greets then mailReplies ext maxLineLen conn.flushes 0 (conn.reader.lines 10)
        else []) := by
  unfold handleMailSession
  rw [mailLoop_eq]

/-- **Nothing is accepted that would be lost**: every reply after the greeting is to the line of
its position; it says 250 only to a line within the limit that is an EHLO, a HELO or a NOOP; and a
221 or a 500 is the last. -/
theorem handleMailSession_accepts (ext : External) (maxLineLen : Nat) (conn : MailConn) (i : Nat)
    (reply : MailReply) (h : (handleMailSession ext maxLineLen conn)[i + 1]? = some reply) :
    ∃ line text, (conn.reader.lines 10)[i]? = some line ∧ fromUtf8 line = some text ∧
      (reply = .hello ∨ reply = .ok → line.length ≤ maxLineLen ∧
        ∃ verb ∈ ["EHLO".toList, "HELO".toList, "NOOP".toList],
          verb <+: ext.toUppercase (trim text)) ∧
      (reply.goesOn = false → (handleMailSession ext maxLineLen conn)[i + 2]? = none) := by
  unfold handleMailSession at h ⊢
  simp only [List.getElem?_cons_succ] at h ⊢
  cases hg : conn.greets with
  | false => simp [hg] at h
  | true =>
    simp only [hg, if_true, mailLoop_eq] at h ⊢
    obtain ⟨line, hline, hreply, hlast⟩ := mailReplies_getElem? h
    obtain ⟨text, htext, rfl⟩ := Option.map_eq_some_iff.mp hreply
    refine ⟨line, text, hline, htext, fun hok => ?_, hlast⟩
    by_cases hlen : maxLineLen < line.length
    · simp [hlen] at hok
    · rw [if_neg hlen] at hok
      exact ⟨by omega, mailCommand_accepts hok⟩

namespace Sample

/-- A client whose EHLO and QUIT arrive in pieces. -/
def ehloConn : MailConn where
  reader := ⟨utf8 "EH".toList, [utf8 "LO x\r\nQU".toList, utf8 "IT\r\n".toList], false⟩
  greets := true
  flushes _ := true

end Sample

open Sample in
theorem handleMailSession_accepts_ehlo :
    ∃ line text, (ehloConn.reader.lines 10)[0]? = some line ∧ fromUtf8 line = some text ∧
      line.length ≤ 4096 := by
  have h : (handleMailSession .sample 4096 ehloConn)[0 + 1]? = some .hello := by
    unfold handleMailSession
    rw [mailLoop_eq]
    decide +kernel
  obtain ⟨line, text, hline, htext, hok, -⟩ :=
    handleMailSession_accepts .sample 4096 ehloConn 0 .hello h
  exact ⟨line, text, hline, htext, (hok (.inl rfl)).1⟩

end Flexd
