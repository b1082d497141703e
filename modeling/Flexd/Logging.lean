import Flexd.Handler.Entry
import Flexd.Lib.BufRead

/-!
# The access log

A call of the access logger formats one line, without the control characters of
the target and the user agent, and writes it under the logger's lock. A reload
builds another logger on the same file, whose lock is its own. The machine
takes the writes of any number of loggers in any order, each of which may be
short or fail. `access_log_lines` says what the file then holds: a line end for
each call that was written, whatever the clients send.
-/

namespace Flexd

open Lib

/-! ## Lines -/

/-- `char::is_control`. -/
def isControl (c : Char) : Bool := c.toNat < 32 || (127 ≤ c.toNat && c.toNat ≤ 159)

/-- What a log line keeps of a text from a client. -/
def stripControl (t : Text) : Text := t.filter fun c => !(isControl c && c ≠ '\t')

/-- A text without control characters but for tabs. -/
def Plain (t : Text) : Prop := t.all (fun c => !isControl c || c = '\t') = true

def Method.text : Method → Text
  | .get => "GET".toList
  | .head => "HEAD".toList
  | .post => "POST".toList
  | .put => "PUT".toList
  | .delete => "DELETE".toList
  | .patch => "PATCH".toList
  | .options => "OPTIONS".toList
  | .connect => "CONNECT".toList
  | .trace => "TRACE".toList
  | .extension name => name

/-- An extension method is a token, in any case. -/
def Method.IsToken : Method → Prop
  | .extension name => isName (asciiLower name) = true
  | _ => True

/-- The local time of a call, with its offset from UTC in minutes. -/
structure LocalTime where
  day : Nat
  month : Fin 12
  year : Nat
  hour : Nat
  minute : Nat
  second : Nat
  east : Bool
  offset : Nat

/-- A number in at least `width` digits. -/
def padded (width n : Nat) : Text :=
  List.replicate (width - (decimal n).length) '0' ++ decimal n

def monthAbbrev : Fin 12 → Text
  | 0 => "Jan".toList
  | 1 => "Feb".toList
  | 2 => "Mar".toList
  | 3 => "Apr".toList
  | 4 => "May".toList
  | 5 => "Jun".toList
  | 6 => "Jul".toList
  | 7 => "Aug".toList
  | 8 => "Sep".toList
  | 9 => "Oct".toList
  | 10 => "Nov".toList
  | 11 => "Dec".toList

/-- The time in the format `%d/%b/%Y:%H:%M:%S %z`. -/
def LocalTime.text (t : LocalTime) : Text :=
  padded 2 t.day ++ ['/'] ++ monthAbbrev t.month ++ ['/'] ++ padded 4 t.year ++ [':'] ++
    padded 2 t.hour ++ [':'] ++ padded 2 t.minute ++ [':'] ++ padded 2 t.second ++ [' '] ++
    [if t.east then '+' else '-'] ++ padded 2 (t.offset / 60) ++ padded 2 (t.offset % 60)

/-- A call of the logger: of an address and a method of the program's own, and texts of the
client's. -/
structure LogCall where
  entry : LogEntry
  time : LocalTime
  address : Plain entry.remoteAddr
  method : Plain entry.method.text

namespace LogCall

/-- The line without its line end. -/
def body (c : LogCall) : Text :=
  c.entry.remoteAddr ++ " - - [".toList ++ c.time.text ++ "] \"".toList ++ c.entry.method.text ++
    [' '] ++ stripControl c.entry.target ++ " HTTP/1.1\" ".toList ++
    decimal c.entry.status.code ++ [' '] ++ decimal c.entry.bytesSent ++ " \"-\" \"".toList ++
    stripControl c.entry.userAgent ++ "\"".toList

def line (c : LogCall) : Text := c.body ++ ['\n']

end LogCall

/-! ### What is in a line -/

theorem plain_iff {t : Text} : Plain t ↔ ∀ c ∈ t, isControl c = true → c = '\t' := by
  simp only [Plain, List.all_eq_true, Bool.or_eq_true, Bool.not_eq_true', decide_eq_true_eq]
  refine forall₂_congr fun c _ => ?_
  cases isControl c <;> simp

theorem plain_append {s t : Text} : Plain (s ++ t) ↔ Plain s ∧ Plain t := by
  simp only [Plain, List.all_append, Bool.and_eq_true]

theorem plain_stripControl (t : Text) : Plain (stripControl t) := by
  refine plain_iff.mpr fun c hc hcontrol => ?_
  have := (List.mem_filter.mp hc).2
  simpa [hcontrol] using this

theorem plain_decimal (n : Nat) : Plain (decimal n) := by
  refine plain_iff.mpr fun c hc hcontrol => ?_
  have hd : c.isDigit = true := Nat.isDigit_of_mem_toDigits (b := 10) (by decide) (by decide) hc
  rw [Char.isDigit, Bool.and_eq_true, decide_eq_true_eq, decide_eq_true_eq] at hd
  have h48 : 48 ≤ c.toNat := hd.1
  have h57 : c.toNat ≤ 57 := hd.2
  simp only [isControl, Bool.or_eq_true, Bool.and_eq_true, decide_eq_true_eq] at hcontrol
  omega

theorem plain_padded (width n : Nat) : Plain (padded width n) := by
  refine plain_append.mpr ⟨plain_iff.mpr fun c hc hcontrol => ?_, plain_decimal n⟩
  rw [List.eq_of_mem_replicate hc] at hcontrol
  cases hcontrol

theorem plain_monthAbbrev (m : Fin 12) : Plain (monthAbbrev m) := by
  revert m
  unfold Plain
  decide

theorem plain_time (t : LocalTime) : Plain t.text := by
  have hsign : Plain [if t.east then '+' else '-'] := by
    cases t.east <;> rfl
  unfold LocalTime.text
  simp only [plain_append, plain_padded, plain_monthAbbrev, hsign, true_and, and_true]
  trivial

theorem plain_body (c : LogCall) : Plain c.body := by
  unfold LogCall.body
  simp only [plain_append, c.address, c.method, plain_time, plain_stripControl, plain_decimal,
    true_and, and_true]
  trivial

theorem plain_ipText (ip : IpAddr) : Plain ip.text := by
  refine plain_iff.mpr fun c hc hcontrol => ?_
  have hle : ∀ d : Char, d ≤ c ↔ d.toNat ≤ c.toNat := fun d => UInt32.le_iff_toNat_le
  have hge : ∀ d : Char, c ≤ d ↔ c.toNat ≤ d.toNat := fun d => UInt32.le_iff_toNat_le
  have hchar := IpAddr.text_isIpChar ip c hc
  simp only [isControl, Bool.or_eq_true, Bool.and_eq_true, decide_eq_true_eq] at hcontrol
  simp only [isIpChar, digitVal, hle, hge, Bool.or_eq_true, decide_eq_true_eq] at hchar
  rcases hchar with (hdigit | rfl) | rfl
  · split_ifs at hdigit <;> simp_all <;> omega
  · simp at hcontrol
  · simp at hcontrol

theorem plain_methodText {m : Method} (h : m.IsToken) : Plain m.text := by
  cases m with
  | extension name =>
    have hname : isName (asciiLower name) = true := h
    refine plain_iff.mpr fun c hc hcontrol => ?_
    unfold isName at hname
    rw [Bool.and_eq_true, List.all_eq_true] at hname
    have htoken := hname.2 c.toLower (List.mem_map_of_mem hc)
    simp only [isControl, Bool.or_eq_true, Bool.and_eq_true, decide_eq_true_eq] at hcontrol
    -- a control character is no letter, so it is the same in lower case
    obtain ⟨h65, h90, -⟩ | ⟨-, hfix⟩ := toLower_cases c
    · omega
    · have hvisible : ∀ d : Char, isNameChar d = true → 33 ≤ d.toNat ∧ d.toNat ≤ 126 := by
        intro d hd
        have hle : ∀ e : Char, d ≤ e ↔ d.toNat ≤ e.toNat := fun e => UInt32.le_iff_toNat_le
        have hge : ∀ e : Char, e ≤ d ↔ e.toNat ≤ d.toNat := fun e => UInt32.le_iff_toNat_le
        simp only [isNameChar, hle, hge, Bool.or_eq_true, Bool.and_eq_true,
          decide_eq_true_eq] at hd
        rcases hd with (hd | hd) | hd
        · exact ⟨le_trans (by decide) hd.1, le_trans hd.2 (by decide)⟩
        · exact ⟨le_trans (by decide) hd.1, le_trans hd.2 (by decide)⟩
        · have hall : "!#$%&'*+-.^_`|~".toList.all
              (fun e => decide (33 ≤ e.toNat ∧ e.toNat ≤ 126)) = true := by decide
          exact of_decide_eq_true (List.all_eq_true.mp hall d hd)
      rw [hfix] at htoken
      have := hvisible c htoken
      omega
  | _ => rfl

/-- The method of a call of an entry point. -/
def Call.method : Call → Method
  | .http req _ _ => req.method
  | .h3 req _ _ => req.method

/-- **Every log call of a handler** is one of an address and a method without control
characters. -/
theorem plain_of_mem_logs {ext : External} {svc : HandlerService} {st : ServiceState} {c : Call}
    (hm : c.method.IsToken) : ∀ e ∈ ((serviceMachine ext svc).step st c).2.logs,
      Plain e.remoteAddr ∧ Plain e.method.text := by
  have hlog : ∀ client target headers resp,
      ∀ e ∈ [HandlerService.logEntry client c.method target headers resp],
        Plain e.remoteAddr ∧ Plain e.method.text := by
    intro client target headers resp e he
    rw [List.mem_singleton.mp he]
    exact ⟨plain_ipText client, plain_methodText hm⟩
  have hlogs : ∀ client target headers (r : Option Response),
      ∀ e ∈ r.toList.flatMap fun resp =>
        [HandlerService.logEntry client c.method target headers resp],
        Plain e.remoteAddr ∧ Plain e.method.text := by
    intro client target headers r e he
    obtain ⟨resp, -, he⟩ := List.mem_flatMap.mp he
    exact hlog client target headers resp e he
  cases c with
  | http req client world =>
    show ∀ e ∈ (svc.handle ext req client world st).logs, _
    unfold HandlerService.handle
    simp only
    split
    · exact hlog _ _ _ _
    · split
      · exact hlog _ _ _ _
      · split
        · exact hlogs _ _ _ _
        · split
          · exact hlog _ _ _ _
          · exact hlogs _ _ _ _
  | h3 req client world =>
    show ∀ e ∈ (svc.handleH3 ext req client world st).logs, _
    unfold HandlerService.handleH3
    simp only
    split
    · exact hlog _ _ _ _
    · exact hlogs _ _ _ _

/-- A byte that a log line has before its end. -/
def PlainByte (b : UInt8) : Prop := b.toNat = 9 ∨ (32 ≤ b.toNat ∧ b.toNat ≠ 127)

theorem plainByte_utf8 {t : Text} (h : Plain t) : ∀ b ∈ utf8 t, PlainByte b := by
  intro b hb
  unfold PlainByte
  by_cases hlt : b.toNat < 128
  · -- an ASCII byte is a character of the text
    have hchar : Char.ofNat b.toNat ∈ t := by
      rw [← mem_utf8_ascii hlt, UInt8.ofNat_toNat]
      exact hb
    have hnat : (Char.ofNat b.toNat).toNat = b.toNat := by
      rw [Char.ofNat, dif_pos (Or.inl (by omega))]
      rfl
    have hplain := plain_iff.mp h _ hchar
    by_cases hcontrol : isControl (Char.ofNat b.toNat) = true
    · left
      rw [← hnat, hplain hcontrol]
      rfl
    · simp only [isControl, hnat, Bool.or_eq_true, Bool.and_eq_true, decide_eq_true_eq] at hcontrol
      omega
  · omega

theorem utf8_line (c : LogCall) : utf8 c.line = utf8 c.body ++ [10] := by
  unfold LogCall.line utf8
  rw [List.flatMap_append]
  rfl

theorem newline_not_mem_body (c : LogCall) : (10 : UInt8) ∉ utf8 c.body := by
  intro h
  have hplain := plainByte_utf8 (plain_body c) 10 h
  have h10 : (10 : UInt8).toNat = 10 := rfl
  unfold PlainByte at hplain
  omega

/-! ## The file -/

/-- A call that holds its logger's lock, and what it has still to write. -/
structure Pending where
  call : LogCall
  rest : Bytes

/-- A log file, and the loggers built on it. -/
structure AccessLog where
  file : Bytes
  loggers : List (Option Pending) := []

inductive LogInput where
  /-- `build_logger`, for a listener or a reload of it. -/
  | build
  /-- A call of the logger at `i`, once it has the lock. -/
  | log (i : Nat) (call : LogCall)
  /-- The call writes all that is left. -/
  | writeAll (i : Nat)
  /-- A short write of `n` bytes; one of no bytes is an error. -/
  | write (i n : Nat)
  /-- A write fails, which ends the call. -/
  | fail (i : Nat)

def LogInput.short : LogInput → Bool
  | .write _ _ => true
  | _ => false

namespace AccessLog

/-- The step of a call, by what it writes; none if that is an error. -/
def wrote (s : AccessLog) (i : Nat) (written : Pending → Option Nat) :
    AccessLog × Option LogCall :=
  match s.loggers[i]? with
  | some (some p) =>
    match written p with
    | none => ({ s with loggers := s.loggers.set i none }, none)
    | some n =>
      let file := s.file ++ p.rest.take n
      match p.rest.drop n with
      | [] => (⟨file, s.loggers.set i none⟩, some p.call)
      | rest => (⟨file, s.loggers.set i (some ⟨p.call, rest⟩)⟩, none)
  | _ => (s, none)

def step (s : AccessLog) : LogInput → AccessLog × Option LogCall
  | .build => ({ s with loggers := s.loggers ++ [none] }, none)
  | .log i call =>
    match s.loggers[i]? with
    | some none => ({ s with loggers := s.loggers.set i (some ⟨call, utf8 call.line⟩) }, none)
    | _ => (s, none)
  | .writeAll i => s.wrote i fun p => some p.rest.length
  | .write i n => s.wrote i fun _ => if n = 0 then none else some n
  | .fail i => s.wrote i fun _ => none

/-- The log file, and the calls that have been written in full. -/
def machine : Machine AccessLog LogInput (Option LogCall) := ⟨step⟩

end AccessLog

/-- The calls that a run has written in full. -/
def written (os : List (Option LogCall)) : List LogCall := os.filterMap id

/-- What a call has still to write: a part of its line, with its end. -/
def Unwritten (p : Pending) : Prop := ∃ pre, p.rest = pre ++ [10] ∧ ∀ b ∈ pre, PlainByte b

theorem unwritten_line (call : LogCall) : Unwritten ⟨call, utf8 call.line⟩ :=
  ⟨utf8 call.body, utf8_line call, plainByte_utf8 (plain_body call)⟩

/-- **A step** either writes nothing, and leaves every call as it was but for one that begins or
ends; or a call writes all it has to write, or in a short write a part of it. -/
inductive LogSteps (s : AccessLog) : Bool → AccessLog → Option LogCall → Prop where
  | quiet (short : Bool) (loggers : List (Option Pending))
      (h : ∀ o ∈ loggers, o ∈ s.loggers ∨ o = none ∨ ∃ call, o = some ⟨call, utf8 call.line⟩) :
      LogSteps s short { s with loggers } none
  | finish (short : Bool) (i : Nat) (p : Pending) (h : s.loggers[i]? = some (some p)) :
      LogSteps s short ⟨s.file ++ p.rest, s.loggers.set i none⟩ (some p.call)
  | part (i : Nat) (p : Pending) (wrote rest : Bytes) (h : s.loggers[i]? = some (some p))
      (hrest : rest ≠ []) (hsplit : p.rest = wrote ++ rest) :
      LogSteps s true ⟨s.file ++ wrote, s.loggers.set i (some ⟨p.call, rest⟩)⟩ none

theorem logSteps_wrote (s : AccessLog) (i : Nat) {written : Pending → Option Nat} {short : Bool}
    (hall : short = false → ∀ p n, written p = some n → p.rest.length ≤ n) :
    LogSteps s short (s.wrote i written).1 (s.wrote i written).2 := by
  unfold AccessLog.wrote
  split
  · next p hp =>
    split
    · refine .quiet _ _ fun o ho => ?_
      rcases List.mem_or_eq_of_mem_set ho with ho | rfl
      · exact .inl ho
      · exact .inr (.inl rfl)
    · next n hn =>
      have hsplit := (List.take_append_drop n p.rest).symm
      simp only
      split
      · next hnil =>
        rw [hnil, List.append_nil] at hsplit
        rw [← hsplit]
        exact .finish _ i p hp
      · next hne =>
        cases short with
        | true => exact .part i p _ _ hp hne hsplit
        | false => exact absurd (List.drop_eq_nil_of_le (hall rfl p n hn)) hne
  · exact .quiet _ _ fun o ho => .inl ho

theorem step_logSteps (s : AccessLog) (i : LogInput) :
    LogSteps s i.short (s.step i).1 (s.step i).2 := by
  cases i with
  | build =>
    refine .quiet _ _ fun o ho => ?_
    rcases List.mem_append.mp ho with ho | ho
    · exact .inl ho
    · exact .inr (.inl (List.mem_singleton.mp ho))
  | log i call =>
    simp only [AccessLog.step]
    split
    · refine .quiet _ _ fun o ho => ?_
      rcases List.mem_or_eq_of_mem_set ho with ho | rfl
      · exact .inl ho
      · exact .inr (.inr ⟨call, rfl⟩)
    · exact .quiet _ _ fun o ho => .inl ho
  | writeAll i =>
    refine logSteps_wrote s i fun _ p n hn => ?_
    rw [← Option.some.inj hn]
  | write i n => exact logSteps_wrote s i nofun
  | fail i => exact logSteps_wrote s i nofun

/-! ## The invariants -/

section Run

variable {f₀ : Bytes} {os : List (Option LogCall)} {s : AccessLog}

/-- The file after any writes. -/
structure LogInv (f₀ : Bytes) (os : List (Option LogCall)) (s : AccessLog) : Prop where
  tail : ∃ tail, s.file = f₀ ++ tail ∧ tail.count 10 = (written os).length ∧
    ∀ b ∈ tail, b = 10 ∨ PlainByte b
  pending : ∀ p, some p ∈ s.loggers → Unwritten p

theorem count_plain {bs : Bytes} (h : ∀ b ∈ bs, PlainByte b) : bs.count 10 = 0 := by
  refine List.count_eq_zero.mpr fun hmem => ?_
  have hplain := h 10 hmem
  have h10 : (10 : UInt8).toNat = 10 := rfl
  unfold PlainByte at hplain
  omega

theorem LogInv.step (h : LogInv f₀ os s) (i : LogInput) :
    LogInv f₀ (os ++ [(s.step i).2]) (s.step i).1 := by
  have hstep := step_logSteps s i
  generalize i.short = short, (s.step i).1 = s', (s.step i).2 = o at hstep
  obtain ⟨tail, hfile, hcount, hplain⟩ := h.tail
  have hset : ∀ {j : Nat} {o : Option Pending} {p : Pending}, some p ∈ s.loggers.set j o →
      some p ∈ s.loggers ∨ o = some p := by
    intro j o p hp
    exact (List.mem_or_eq_of_mem_set hp).imp id Eq.symm
  cases hstep with
  | quiet short loggers hl =>
    refine ⟨⟨tail, hfile, by simpa [written] using hcount, hplain⟩, fun p hp => ?_⟩
    rcases hl _ hp with hp | hp | ⟨call, hp⟩
    · exact h.pending p hp
    · cases hp
    · cases hp
      exact unwritten_line call
  | finish short j p hp =>
    obtain ⟨pre, hrest, hpre⟩ := h.pending p (List.mem_of_getElem? hp)
    refine ⟨⟨tail ++ p.rest, by rw [hfile, List.append_assoc], ?_, ?_⟩, fun q hq => ?_⟩
    · have hpend : p.rest.count 10 = 1 := by
        rw [hrest, List.count_append, count_plain hpre]
        rfl
      rw [List.count_append, hpend, hcount]
      simp [written]
    · intro b hb
      rcases List.mem_append.mp hb with hb | hb
      · exact hplain b hb
      · rw [hrest] at hb
        rcases List.mem_append.mp hb with hb | hb
        · exact .inr (hpre b hb)
        · exact .inl (List.mem_singleton.mp hb)
    · exact (hset hq).elim (h.pending q) nofun
  | part j p wrote rest hp hne hsplit =>
    obtain ⟨pre, hrest, hpre⟩ := h.pending p (List.mem_of_getElem? hp)
    -- the line end is in what is left
    obtain ⟨pre', hpre'⟩ : ∃ pre', pre = wrote ++ pre' ∧ rest = pre' ++ [10] := by
      obtain ⟨init, last, rfl⟩ : ∃ init last, rest = init ++ [last] :=
        ⟨_, _, (List.dropLast_concat_getLast hne).symm⟩
      rw [hsplit, ← List.append_assoc] at hrest
      obtain ⟨hinit, hlast⟩ := List.append_inj' hrest rfl
      exact ⟨init, hinit.symm, by rw [hlast]⟩
    obtain ⟨rfl, rfl⟩ := hpre'
    have hwrote : ∀ b ∈ wrote, PlainByte b := fun b hb => hpre b (List.mem_append_left _ hb)
    refine ⟨⟨tail ++ wrote, by rw [hfile, List.append_assoc], ?_, ?_⟩, fun q hq => ?_⟩
    · rw [List.count_append, count_plain hwrote, hcount]
      simp [written]
    · intro b hb
      exact (List.mem_append.mp hb).elim (hplain b) fun hb => .inr (hwrote b hb)
    · rcases hset hq with hq | hq
      · exact h.pending q hq
      · cases hq
        exact ⟨pre', rfl, fun b hb => hpre b (List.mem_append_right _ hb)⟩

/-- The file where no write is short. -/
structure WholeInv (f₀ : Bytes) (os : List (Option LogCall)) (s : AccessLog) : Prop where
  lines : records 10 s.file = records 10 f₀ ++ (written os).map fun c => utf8 c.line
  complete : Complete 10 s.file
  pending : ∀ p, some p ∈ s.loggers → p.rest = utf8 p.call.line

theorem WholeInv.step (h : WholeInv f₀ os s) {i : LogInput} (hi : i.short = false) :
    WholeInv f₀ (os ++ [(s.step i).2]) (s.step i).1 := by
  have hstep := step_logSteps s i
  rw [hi] at hstep
  generalize (s.step i).1 = s', (s.step i).2 = o at hstep
  cases hstep with
  | quiet short loggers hl =>
    refine ⟨by simpa [written] using h.lines, h.complete, fun p hp => ?_⟩
    rcases hl _ hp with hp | hp | ⟨call, hp⟩
    · exact h.pending p hp
    · cases hp
    · cases hp
      rfl
  | finish short j p hp =>
    have hrest := h.pending p (List.mem_of_getElem? hp)
    have hline : records 10 p.rest = [utf8 p.call.line] := by
      rw [hrest, utf8_line]
      exact records_singleton (newline_not_mem_body p.call)
    refine ⟨?_, ?_, fun q hq => ?_⟩
    · rw [records_append h.complete, h.lines, hline]
      simp [written]
    · refine complete_append (.inr ?_) ?_ _
      · rw [hrest, utf8_line]
        simp
      · rw [hrest, utf8_line]
        simp
    · rcases List.mem_or_eq_of_mem_set hq with hq | hq
      · exact h.pending q hq
      · cases hq

end Run

/-- **What clients send cannot forge a log line**: in every interleaving of any loggers on a file,
with writes that may be short or fail, the file grows by one line end for each call written in
full, and no other control character but tabs; and where its last line was complete and no write is
short, its lines are those it had and one for each such call, in order. -/
theorem access_log_lines (f₀ : Bytes) (is : List LogInput) :
    let s := AccessLog.machine.run ⟨f₀, []⟩ is
    let calls := written (AccessLog.machine.outputs ⟨f₀, []⟩ is)
    (∃ tail, s.file = f₀ ++ tail ∧ tail.count 10 = calls.length ∧
      ∀ b ∈ tail, b = 10 ∨ PlainByte b) ∧
    (Complete 10 f₀ → (∀ i ∈ is, i.short = false) →
      records 10 s.file = records 10 f₀ ++ calls.map fun c => utf8 c.line) := by
  intro s calls
  constructor
  · have hinv : LogInv f₀ (AccessLog.machine.outputs ⟨f₀, []⟩ is)
        (AccessLog.machine.run ⟨f₀, []⟩ is) := by
      refine Machine.run_outputs_inv (I := fun _ => True) ?_ (fun os s i h _ => h.step i)
        (fun _ _ => trivial)
      exact ⟨⟨[], by simp, rfl, by simp⟩, by simp⟩
    exact hinv.tail
  · intro hf hshort
    have hinv : WholeInv f₀ (AccessLog.machine.outputs ⟨f₀, []⟩ is)
        (AccessLog.machine.run ⟨f₀, []⟩ is) := by
      refine Machine.run_outputs_inv ?_ (fun os s i h hi => h.step hi) hshort
      exact ⟨by simp [written], hf, by simp⟩
    exact hinv.lines

namespace Sample

/-- A request whose target carries a line of its own. -/
def forgedCall : LogCall where
  entry := ⟨"192.0.2.1".toList, .get, "/\n203.0.113.9 - -".toList, .notFound, 0, "x\r\n".toList⟩
  time := ⟨1, 0, 2026, 12, 0, 0, true, 120⟩
  address := rfl
  method := rfl

end Sample

open Sample in
theorem access_log_lines_forged :
    records 10 (AccessLog.machine.run ⟨[], []⟩ [.build, .log 0 forgedCall, .writeAll 0]).file =
      [utf8 forgedCall.line] :=
  (access_log_lines [] [.build, .log 0 forgedCall, .writeAll 0]).2 (.inl rfl)
    (by simp [LogInput.short])

end Flexd
