import Flexd.Acme.Issue
import Flexd.Lib.Machine

/-!
# Certificates that do not expire

The renewal task of a block as a machine over its rounds: a sleep, a look at
`cert.pem` by `needs_renewal` and, if it is due, a call of `issue_with_retry`
on the certificate directory. The attempts of a run and their times are those
of `renewalLoop` (`attempts_renewalLoop`), and what they do is `issueAttempts`.
`renewal_keeps_valid` says when the certificate on disk never expires, and
`renewal_attempted` when the task goes on renewing at all.
-/

namespace Flexd

open Lib

/-- How the task reads `cert.pem`: the modes it can open, and when the first certificate in it
expires, none where that is no certificate. -/
structure CertReader where
  canOpen : UInt32 → Bool
  notAfter : Bytes → Option Int

/-- `AcmeManager::needs_renewal`, none where it fails: a certificate that cannot be read is due,
one that cannot be parsed is an error. -/
def needsRenewal (reader : CertReader) (window : UInt32) (dir : CertDir) (now : Nat) :
    Option Bool :=
  match dir .cert with
  | none => some true
  | some file =>
    if reader.canOpen file.mode then
      (reader.notAfter file.content).map fun (notAfter : Int) =>
        decide (notAfter - now < window.toNat * 86400)
    else some true

/-- The certificate can be read, and is none. -/
def Damaged (reader : CertReader) (dir : CertDir) : Prop :=
  ∃ file, dir .cert = some file ∧ reader.canOpen file.mode = true ∧
    reader.notAfter file.content = none

theorem needsRenewal_eq_none {reader : CertReader} {window : UInt32} {dir : CertDir} {now : Nat} :
    needsRenewal reader window dir now = none ↔ Damaged reader dir := by
  unfold needsRenewal Damaged
  cases hfile : dir .cert with
  | none => simp
  | some file => cases hopen : reader.canOpen file.mode <;> simp [hopen]

/-- A certificate that is not due lasts for the window. -/
theorem needsRenewal_eq_false {reader : CertReader} {window : UInt32} {dir : CertDir} {now : Nat} :
    needsRenewal reader window dir now = some false ↔ ∃ file notAfter, dir .cert = some file ∧
      reader.canOpen file.mode = true ∧ reader.notAfter file.content = some notAfter ∧
      now + window.toNat * 86400 ≤ notAfter := by
  unfold needsRenewal
  cases hfile : dir .cert with
  | none => simp
  | some file =>
    cases hopen : reader.canOpen file.mode with
    | false => simp [hopen]
    | true =>
      cases hexpires : reader.notAfter file.content with
      | none => simp [hexpires]
      | some notAfter =>
        simp only [hopen, if_true, hexpires, Option.map_some, Option.some.injEq,
          decide_eq_false_iff_not]
        constructor
        · intro h
          exact ⟨file, notAfter, rfl, hopen, hexpires, by omega⟩
        · rintro ⟨_, n, rfl, -, hn, h⟩
          rw [hexpires] at hn
          cases hn
          omega

/-- A renewal task. -/
structure RenewalTask where
  cfg : AcmeConfig
  /-- `renewal_window`, in days. -/
  window : UInt32
  serverNames : List Text
  reader : CertReader
  umask : UInt32

/-- What the attempts of one round meet, if it makes any: by their numbers, what they find, the
responses of the CA and how long they take. -/
structure RenewalRound where
  envs : Nat → IssueEnv
  responses : Nat → List CaResponse
  took : Nat → Nat

inductive RoundResult where
  /-- The certificate is not due. -/
  | idle
  /-- The check fails. -/
  | unchecked
  | failed
  /-- A certificate is issued and a reload signalled. -/
  | renewed (chain : Text)
  deriving DecidableEq

structure RoundReport where
  startedAt : Nat
  endedAt : Nat
  attempts : List AttemptRecord
  result : RoundResult

/-- The certificate directory, and the time. -/
structure RenewalLife where
  dir : CertDir
  now : Nat

namespace RenewalTask

variable (task : RenewalTask)

/-- The window in seconds. -/
def windowSecs : Nat := task.window.toNat * 86400

/-- The attempts of a round, as `issueWithRetry` times them. -/
def attempts (x : RenewalRound) (n : Nat) : IssueAttempt where
  responses := x.responses n
  issued := (tryIssue (x.envs n) task.cfg task.serverNames).result.isOk
  took := x.took n

/-- A round of `acme_renewal_loop`. -/
def round (s : RenewalLife) (x : RenewalRound) : RenewalLife × RoundReport :=
  let t := s.now + renewalCheckInterval task.cfg
  match needsRenewal task.reader task.window s.dir t with
  | some true =>
    let (records, ended) := issueWithRetry (task.attempts x) t
    let issuing := issueAttempts task.cfg x.envs task.serverNames (maxAttempts - 1) 1
    (⟨runOps task.umask s.dir (fileOps issuing.deeds), ended⟩, ⟨s.now, ended, records,
      match issuing.result with
      | .ok () => .renewed ((x.envs records.length).certificate.getD [])
      | .error _ => .failed⟩)
  | some false => (⟨s.dir, t⟩, ⟨s.now, t, [], .idle⟩)
  | none => (⟨s.dir, t⟩, ⟨s.now, t, [], .unchecked⟩)

def machine : Machine RenewalLife RenewalRound RoundReport := ⟨task.round⟩

/-- What the checks of a run find. -/
def checks (s : RenewalLife) : List RenewalRound → List RenewalCheck
  | [] => []
  | x :: rounds =>
    (if needsRenewal task.reader task.window s.dir (s.now + renewalCheckInterval task.cfg) =
        some true then .due (task.attempts x) else .skip) :: checks (task.round s x).1 rounds

/-! ## One call -/

variable {task} {x : RenewalRound} {s : RenewalLife}

/-- A call makes its attempts up to the first that succeeds. -/
theorem length_issueFrom {left attempt : Nat} (t : Nat) {k : Nat} (hk : k ≤ left)
    (hfail : ∀ j, j < k →
      (tryIssue (x.envs (attempt + j)) task.cfg task.serverNames).result ≠ .ok ())
    (hok : (tryIssue (x.envs (attempt + k)) task.cfg task.serverNames).result = .ok ()) :
    (issueFrom (task.attempts x) left attempt t).1.length = k + 1 := by
  induction left generalizing attempt t k with
  | zero =>
    obtain rfl := Nat.le_zero.mp hk
    rfl
  | succ left ih =>
    have hrecord : ((task.attempts x attempt).record attempt t).issued =
        (tryIssue (x.envs attempt) task.cfg task.serverNames).result.isOk := rfl
    unfold issueFrom
    simp only
    cases k with
    | zero =>
      have hok : (tryIssue (x.envs attempt) task.cfg task.serverNames).result = .ok () := hok
      rw [if_pos (by rw [hrecord, hok]; rfl)]
      rfl
    | succ k =>
      have hissued : ¬ ((task.attempts x attempt).record attempt t).issued = true := by
        rw [hrecord]
        cases hres : (tryIssue (x.envs attempt) task.cfg task.serverNames).result with
        | ok u => exact absurd hres (hfail 0 (Nat.succ_pos k))
        | error e => exact Bool.false_ne_true
      have hshift (j : Nat) : attempt + (j + 1) = attempt + 1 + j := by omega
      rw [if_neg hissued, List.length_cons]
      refine congrArg (· + 1) (ih _ (by omega) (fun j hj => ?_) ?_)
      · rw [← hshift]
        exact hfail (j + 1) (by omega)
      · rw [← hshift]
        exact hok

/-- A round that calls `issue_with_retry`. -/
theorem round_of_due (h : needsRenewal task.reader task.window s.dir
      (s.now + renewalCheckInterval task.cfg) = some true) :
    let call := issueWithRetry (task.attempts x) (s.now + renewalCheckInterval task.cfg)
    let issuing := issueAttempts task.cfg x.envs task.serverNames (maxAttempts - 1) 1
    task.round s x = (⟨runOps task.umask s.dir (fileOps issuing.deeds), call.2⟩,
      ⟨s.now, call.2, call.1, match issuing.result with
        | .ok () => .renewed ((x.envs call.1.length).certificate.getD [])
        | .error _ => .failed⟩) := by
  unfold round
  simp only [h]

/-- What it leads to, if no write fails: the certificate is a new one, or the directory is as it
was. -/
theorem round_due (h : needsRenewal task.reader task.window s.dir
      (s.now + renewalCheckInterval task.cfg) = some true)
    (hwrites : ∀ n, (x.envs n).writes = none) :
    ((task.round s x).2.result = .failed ∧ (task.round s x).1.dir = s.dir) ∨
      ∃ chain, (task.round s x).2.result = .renewed chain ∧
        (task.round s x).1.dir .cert = some ⟨utf8 chain, 0o600, .this⟩ := by
  rw [round_of_due h]
  cases hres : (issueAttempts task.cfg x.envs task.serverNames (maxAttempts - 1) 1).result with
  | error e =>
    refine .inl ⟨rfl, ?_⟩
    show runOps task.umask s.dir (fileOps _) = s.dir
    rw [issueAttempts_unwritten hwrites _ _ _ _ hres]
    rfl
  | ok u =>
    obtain ⟨k, chain, -, hk, hfail, hok, hcert, -, hdir, -⟩ :=
      issueAttempts_stored task.umask s.dir hres
    have hlength := length_issueFrom (s.now + renewalCheckInterval task.cfg) hk hfail hok
    refine .inr ⟨chain, ?_, hdir⟩
    show RoundResult.renewed ((x.envs (issueFrom (task.attempts x) (maxAttempts - 1) 1
      (s.now + renewalCheckInterval task.cfg)).1.length).certificate.getD []) = _
    rw [hlength, Nat.add_comm k 1, hcert]
    rfl

theorem round_of_idle (h : needsRenewal task.reader task.window s.dir
      (s.now + renewalCheckInterval task.cfg) = some false) :
    task.round s x = (⟨s.dir, s.now + renewalCheckInterval task.cfg⟩,
      ⟨s.now, s.now + renewalCheckInterval task.cfg, [], .idle⟩) := by
  unfold round
  simp only [h]

theorem round_of_damaged (h : Damaged task.reader s.dir) :
    task.round s x = (⟨s.dir, s.now + renewalCheckInterval task.cfg⟩,
      ⟨s.now, s.now + renewalCheckInterval task.cfg, [], .unchecked⟩) := by
  unfold round
  simp only [needsRenewal_eq_none.mpr h]

/-! ## Every run -/

/-- A round makes attempts exactly if the certificate is due. -/
theorem round_attempts : (task.round s x).2.attempts ≠ [] ↔
    needsRenewal task.reader task.window s.dir (s.now + renewalCheckInterval task.cfg) =
      some true := by
  cases hcheck : needsRenewal task.reader task.window s.dir
      (s.now + renewalCheckInterval task.cfg) with
  | none => simp [round_of_damaged (needsRenewal_eq_none.mp hcheck)]
  | some due =>
    cases due with
    | false => simp [round_of_idle hcheck]
    | true =>
      obtain ⟨r, rs, hrs, -⟩ := (callSpec_issueWithRetry (task.attempts x)
        (s.now + renewalCheckInterval task.cfg)).head
      rw [round_of_due hcheck]
      simp [hrs]

/-- **The attempts of a run**, with their times, are those of the renewal loop. -/
theorem attempts_renewalLoop (s : RenewalLife) (rounds : List RenewalRound) :
    ((task.machine.outputs s rounds).map (·.attempts)).filter (· ≠ []) =
      renewalLoop (renewalCheckInterval task.cfg) (task.checks s rounds) s.now := by
  induction rounds generalizing s with
  | nil => rfl
  | cons x rounds ih =>
    have hattempts : (task.round s x).2.attempts ≠ [] ↔ _ := round_attempts
    show ((task.round s x).2.attempts ::
      (task.machine.outputs (task.round s x).1 rounds).map (·.attempts)).filter (· ≠ []) = _
    unfold checks
    cases hcheck : needsRenewal task.reader task.window s.dir
        (s.now + renewalCheckInterval task.cfg) with
    | none =>
      have hround := round_of_damaged (x := x) (needsRenewal_eq_none.mp hcheck)
      rw [List.filter_cons_of_neg (by simp [hround]), ih, if_neg (by simp)]
      rw [hround]
      rfl
    | some due =>
      cases due with
      | false =>
        have hround := round_of_idle (x := x) hcheck
        rw [List.filter_cons_of_neg (by simp [hround]), ih, if_neg (by simp)]
        rw [hround]
        rfl
      | true =>
        rw [List.filter_cons_of_pos (by simpa using hattempts.mpr hcheck), ih, if_pos rfl]
        rw [round_of_due hcheck]
        rfl

/-- How many rounds in a row have failed, up to now. -/
def failures (os : List RoundReport) : Nat :=
  (os.reverse.takeWhile fun o => o.result = .failed).length

theorem failures_concat (os : List RoundReport) (o : RoundReport) :
    failures (os ++ [o]) = if o.result = .failed then failures os + 1 else 0 := by
  unfold failures
  rw [List.reverse_append, List.reverse_singleton, List.singleton_append]
  by_cases h : o.result = .failed <;> simp [h]

/-- Fewer than `n` rounds in a row have failed, if that never happens in the run. -/
theorem failures_lt {os : List RoundReport} {n : Nat}
    (h : ¬ List.replicate n RoundResult.failed <:+: os.map (·.result)) : failures os < n := by
  by_contra hge
  refine h ?_
  have htake : ((os.reverse.takeWhile fun o => o.result = .failed).map (·.result)) =
      List.replicate (failures os) .failed := by
    refine List.eq_replicate_iff.mpr ⟨List.length_map _, fun r hr => ?_⟩
    obtain ⟨o, ho, rfl⟩ := List.mem_map.mp hr
    simpa using List.mem_takeWhile_imp ho
  have hsuffix : List.replicate (failures os) RoundResult.failed <:+ os.map (·.result) := by
    rw [← List.reverse_prefix, List.reverse_replicate, ← htake, ← List.map_reverse]
    exact (List.takeWhile_prefix _).map _
  have hinfix : List.replicate n RoundResult.failed <:+: List.replicate (failures os) .failed := by
    refine List.IsPrefix.isInfix ?_
    rw [List.prefix_replicate_iff]
    simp
    omega
  exact hinfix.trans hsuffix.isInfix

/-- One round: where `n` rounds in a row have failed before it, what the certificate has left. -/
theorem lasts_round {d n : Nat} {file : File} {notAfter : Int}
    (hfile : s.dir .cert = some file) (hexpires : task.reader.notAfter file.content = some notAfter)
    (hleft : s.now + task.windowSecs ≤ notAfter + n * d)
    (hwrites : ∀ n, (x.envs n).writes = none)
    (htime : (task.round s x).2.endedAt ≤ (task.round s x).2.startedAt + d)
    (hlast : ∀ chain, (task.round s x).2.result = .renewed chain → ∃ notAfter,
      task.reader.notAfter (utf8 chain) = some notAfter ∧
        (task.round s x).2.endedAt + task.windowSecs ≤ notAfter) :
    ∃ file notAfter, (task.round s x).1.dir .cert = some file ∧
      task.reader.notAfter file.content = some notAfter ∧
      (task.round s x).1.now + task.windowSecs ≤
        notAfter + (if (task.round s x).2.result = .failed then n + 1 else 0 : Nat) * d := by
  cases hcheck : needsRenewal task.reader task.window s.dir
      (s.now + renewalCheckInterval task.cfg) with
  | none =>
    obtain ⟨file', hfile', -, hnone⟩ := needsRenewal_eq_none.mp hcheck
    rw [hfile] at hfile'
    cases hfile'
    rw [hexpires] at hnone
    cases hnone
  | some due =>
    cases due with
    | false =>
      obtain ⟨file', notAfter', hfile', -, hexpires', hleft'⟩ := needsRenewal_eq_false.mp hcheck
      have hround := round_of_idle (x := x) hcheck
      rw [hround, if_neg (by simp)]
      exact ⟨file', notAfter', hfile', hexpires', by simpa [windowSecs] using hleft'⟩
    | true =>
      have hended : (task.round s x).1.now = (task.round s x).2.endedAt ∧
          (task.round s x).2.startedAt = s.now := by
        rw [round_of_due hcheck]
        exact ⟨rfl, rfl⟩
      obtain ⟨hnow, hstarted⟩ := hended
      rw [hnow]
      rcases round_due hcheck hwrites with ⟨hfailed, hdir⟩ | ⟨chain, hrenewed, hdir⟩
      · -- one more round has failed, and taken its time
        refine ⟨file, notAfter, by rw [hdir]; exact hfile, hexpires, ?_⟩
        rw [if_pos hfailed]
        push_cast
        rw [Int.add_mul]
        omega
      · obtain ⟨notAfter', hexpires', hleft'⟩ := hlast chain hrenewed
        refine ⟨_, notAfter', hdir, hexpires', ?_⟩
        rw [if_neg (by rw [hrenewed]; simp)]
        simpa using hleft'

/-- **The certificate of a run**: with the rounds that have failed since, what it has left of the
window. -/
theorem lasts_run {rounds : List RenewalRound} {d : Nat} {file : File} {notAfter : Int}
    (hfile : s.dir .cert = some file) (hexpires : task.reader.notAfter file.content = some notAfter)
    (hstart : s.now + task.windowSecs ≤ notAfter)
    (hwrites : ∀ x ∈ rounds, ∀ n, (x.envs n).writes = none) :
    (∀ o ∈ task.machine.outputs s rounds, o.endedAt ≤ o.startedAt + d) →
    (∀ o ∈ task.machine.outputs s rounds, ∀ chain, o.result = .renewed chain → ∃ notAfter,
      task.reader.notAfter (utf8 chain) = some notAfter ∧
        o.endedAt + task.windowSecs ≤ notAfter) →
    ∃ file notAfter, (task.machine.run s rounds).dir .cert = some file ∧
      task.reader.notAfter file.content = some notAfter ∧
      (task.machine.run s rounds).now + task.windowSecs ≤
        notAfter + failures (task.machine.outputs s rounds) * d := by
  refine Machine.run_outputs_inv (M := task.machine) (I := fun x => ∀ n, (x.envs n).writes = none)
    (J := fun os s => (∀ o ∈ os, o.endedAt ≤ o.startedAt + d) →
      (∀ o ∈ os, ∀ chain, o.result = .renewed chain → ∃ notAfter,
        task.reader.notAfter (utf8 chain) = some notAfter ∧
          o.endedAt + task.windowSecs ≤ notAfter) →
      ∃ file notAfter, s.dir .cert = some file ∧
        task.reader.notAfter file.content = some notAfter ∧
        s.now + task.windowSecs ≤ notAfter + failures os * d)
    (fun _ _ => ⟨file, notAfter, hfile, hexpires, by simpa [failures] using hstart⟩) ?_ hwrites
  intro os s x ih hw htime hlast
  obtain ⟨file, notAfter, hfile, hexpires, hleft⟩ := ih
    (fun o ho => htime o (List.mem_append_left _ ho))
    (fun o ho => hlast o (List.mem_append_left _ ho))
  rw [failures_concat]
  exact lasts_round hfile hexpires hleft hw
    (htime _ (List.mem_append_right _ (List.mem_singleton_self _)))
    (hlast _ (List.mem_append_right _ (List.mem_singleton_self _)))

/-- A damaged certificate stays as it is, and no attempt is made. -/
theorem run_of_damaged (h : Damaged task.reader s.dir) (rounds : List RenewalRound) :
    (task.machine.run s rounds).dir = s.dir ∧
      ∀ o ∈ task.machine.outputs s rounds, o.attempts = [] := by
  induction rounds generalizing s with
  | nil => exact ⟨rfl, nofun⟩
  | cons x rounds ih =>
    have hround := round_of_damaged (x := x) h
    obtain ⟨hdir, houts⟩ := ih (s := (task.round s x).1) (by rw [hround]; exact h)
    refine ⟨?_, fun o ho => ?_⟩
    · show (task.machine.run (task.round s x).1 rounds).dir = s.dir
      rw [hdir, hround]
    · rcases List.mem_cons.mp ho with rfl | ho
      · show (task.round s x).2.attempts = []
        rw [hround]
      · exact houts o ho

/-- A certificate that is not damaged is renewed after the rounds that it has left. -/
theorem attempted_within {n : Nat} (hdamaged : ¬ Damaged task.reader s.dir)
    (hn : ∀ file notAfter, s.dir .cert = some file →
      task.reader.notAfter file.content = some notAfter →
      notAfter < s.now + task.windowSecs + (n + 1) * renewalCheckInterval task.cfg)
    {rounds : List RenewalRound} (hlen : n < rounds.length) :
    ∃ o ∈ task.machine.outputs s rounds, o.attempts ≠ [] := by
  induction n generalizing s rounds with
  | zero =>
    obtain ⟨x, rounds, rfl⟩ := List.exists_cons_of_length_pos hlen
    refine ⟨(task.round s x).2, List.mem_cons_self, round_attempts.mpr ?_⟩
    cases hcheck : needsRenewal task.reader task.window s.dir
        (s.now + renewalCheckInterval task.cfg) with
    | none => exact absurd (needsRenewal_eq_none.mp hcheck) hdamaged
    | some due =>
      cases due with
      | true => rfl
      | false =>
        obtain ⟨file, notAfter, hfile, -, hexpires, hleft⟩ := needsRenewal_eq_false.mp hcheck
        have := hn file notAfter hfile hexpires
        rw [show ((0 : Nat) + 1 : Int) = 1 from rfl, Int.one_mul] at this
        unfold windowSecs at this
        omega
  | succ n ih =>
    obtain ⟨x, rounds, rfl⟩ := List.exists_cons_of_length_pos (Nat.zero_lt_of_lt hlen)
    cases hcheck : needsRenewal task.reader task.window s.dir
        (s.now + renewalCheckInterval task.cfg) with
    | none => exact absurd (needsRenewal_eq_none.mp hcheck) hdamaged
    | some due =>
      cases due with
      | true => exact ⟨(task.round s x).2, List.mem_cons_self, round_attempts.mpr hcheck⟩
      | false =>
        have hround := round_of_idle (x := x) hcheck
        have hrest : ∃ o ∈ task.machine.outputs (task.round s x).1 rounds, o.attempts ≠ [] := by
          rw [hround]
          refine ih (s := ⟨s.dir, s.now + renewalCheckInterval task.cfg⟩) hdamaged
            (fun file notAfter hfile hexpires => ?_) (Nat.lt_of_succ_lt_succ hlen)
          have := hn file notAfter hfile hexpires
          push_cast at this ⊢
          rw [Int.add_mul (n + 1 : Int)] at this
          omega
        obtain ⟨o, ho, hattempts⟩ := hrest
        exact ⟨o, List.mem_cons_of_mem _ ho, hattempts⟩

end RenewalTask

/-- **The certificate never expires.** Where a certificate has the window left, each renewed one
has it too when it is stored, no write fails, a round takes at most `d` seconds and no `k + 1`
rounds in a row fail, every run leaves a certificate that lasts through the next round, if that
many rounds fit in the window. -/
theorem renewal_keeps_valid (task : RenewalTask) (s : RenewalLife) (rounds : List RenewalRound)
    {d k : Nat} {file : File} {notAfter : Int} (hfile : s.dir .cert = some file)
    (hexpires : task.reader.notAfter file.content = some notAfter)
    (hstart : s.now + task.windowSecs ≤ notAfter)
    (hwrites : ∀ x ∈ rounds, ∀ n, (x.envs n).writes = none)
    (htime : ∀ o ∈ task.machine.outputs s rounds, o.endedAt ≤ o.startedAt + d)
    (hlast : ∀ o ∈ task.machine.outputs s rounds, ∀ chain, o.result = .renewed chain →
      ∃ notAfter, task.reader.notAfter (utf8 chain) = some notAfter ∧
        o.endedAt + task.windowSecs ≤ notAfter)
    (hfail : ¬ List.replicate (k + 1) RoundResult.failed <:+:
      (task.machine.outputs s rounds).map (·.result))
    (hwindow : (k + 1) * d ≤ task.windowSecs) :
    ∃ file notAfter, (task.machine.run s rounds).dir .cert = some file ∧
      task.reader.notAfter file.content = some notAfter ∧
      (task.machine.run s rounds).now + d ≤ notAfter := by
  obtain ⟨file, notAfter, hfile, hexpires, hleft⟩ :=
    RenewalTask.lasts_run hfile hexpires hstart hwrites htime hlast
  have hle : RenewalTask.failures (task.machine.outputs s rounds) ≤ k :=
    Nat.lt_succ_iff.mp (RenewalTask.failures_lt hfail)
  have hspent : RenewalTask.failures (task.machine.outputs s rounds) * d + d ≤ (k + 1) * d := by
    rw [Nat.succ_mul]
    exact Nat.add_le_add_right (Nat.mul_le_mul_right d hle) d
  refine ⟨file, notAfter, hfile, hexpires, ?_⟩
  have : (RenewalTask.failures (task.machine.outputs s rounds) * d + d : Int) ≤
      task.windowSecs := by exact_mod_cast hspent.trans hwindow
  omega

namespace Sample

/-- A day's window, checked every hour; the CA's certificate lasts long. -/
def renewalTask : RenewalTask where
  cfg := issueConfig
  window := 1
  serverNames := ["example.com".toList]
  reader := ⟨fun _ => true, fun bytes =>
    if bytes = [7] then some 90000 else if bytes = utf8 "chain".toList then some 1000000 else none⟩
  umask := 0o022

/-- A round in which the CA is down, or grants the certificate. -/
def renewalRound (granted : Bool) : RenewalRound where
  envs _ := { issueEnv with account := granted, writes := none }
  responses _ := []
  took _ := 1

def earlierDir : CertDir := fun _ => some ⟨[7], 0o600, .earlier⟩

end Sample

open Sample

/-- The second round finds the certificate due and fails, and the third renews it. -/
theorem renewal_keeps_valid_down :
    ∃ file notAfter, (renewalTask.machine.run ⟨earlierDir, 0⟩
        [renewalRound true, renewalRound false, renewalRound true]).dir .cert = some file ∧
      renewalTask.reader.notAfter file.content = some notAfter ∧
      (renewalTask.machine.run ⟨earlierDir, 0⟩
        [renewalRound true, renewalRound false, renewalRound true]).now + 3700 ≤ notAfter := by
  have houts : (renewalTask.machine.outputs ⟨earlierDir, 0⟩
      [renewalRound true, renewalRound false, renewalRound true]).map
        (fun o => (o.startedAt, o.endedAt, o.result)) =
      [(0, 3600, .idle), (3600, 7220, .failed), (7220, 10821, .renewed "chain".toList)] := by
    decide +kernel
  have hmem (o) (ho : o ∈ renewalTask.machine.outputs ⟨earlierDir, 0⟩
      [renewalRound true, renewalRound false, renewalRound true]) :
      (o.startedAt, o.endedAt, o.result) = (0, 3600, .idle) ∨
        (o.startedAt, o.endedAt, o.result) = (3600, 7220, .failed) ∨
        (o.startedAt, o.endedAt, o.result) = (7220, 10821, .renewed "chain".toList) := by
    simpa [houts] using List.mem_map_of_mem (f := fun o => (o.startedAt, o.endedAt, o.result)) ho
  refine renewal_keeps_valid renewalTask ⟨earlierDir, 0⟩ _ (k := 1)
    (show earlierDir .cert = some ⟨[7], 0o600, .earlier⟩ from rfl) rfl (by decide) ?_
    (fun o ho => ?_) (fun o ho chain hchain => ?_) (by decide +kernel) (by decide)
  · simp [renewalRound]
  · obtain ⟨startedAt, endedAt, attempts, result⟩ := o
    rcases hmem _ ho with h | h | h <;> cases h <;> simp
  · obtain ⟨startedAt, endedAt, attempts, result⟩ := o
    rcases hmem _ ho with h | h | h
    · cases h
      cases hchain
    · cases h
      cases hchain
    · cases h
      cases hchain
      exact ⟨1000000, rfl, show (10821 + 86400 : Int) ≤ 1000000 by decide⟩

/-- **A damaged certificate ends renewal.** Where `cert.pem` can be read but is no certificate, as
after a write that stopped half-way, no run makes another attempt. Else every run that is long
enough makes one. -/
theorem renewal_attempted (task : RenewalTask) (hinterval : 0 < renewalCheckInterval task.cfg)
    (s : RenewalLife) :
    (Damaged task.reader s.dir → ∀ rounds, (task.machine.run s rounds).dir = s.dir ∧
      ∀ o ∈ task.machine.outputs s rounds, o.attempts = []) ∧
    (¬ Damaged task.reader s.dir → ∃ n, ∀ rounds : List RenewalRound, n < rounds.length →
      ∃ o ∈ task.machine.outputs s rounds, o.attempts ≠ []) := by
  refine ⟨fun h rounds => RenewalTask.run_of_damaged h rounds, fun h => ?_⟩
  -- the certificate that is there now has at most so many rounds left
  cases hfile : s.dir .cert with
  | none =>
    refine ⟨0, fun rounds hlen => RenewalTask.attempted_within h (fun file _ hfile' => ?_) hlen⟩
    rw [hfile] at hfile'
    cases hfile'
  | some file =>
    refine ⟨((task.reader.notAfter file.content).getD 0).toNat, fun rounds hlen =>
      RenewalTask.attempted_within h (fun file' notAfter hfile' hexpires => ?_) hlen⟩
    rw [hfile] at hfile'
    cases hfile'
    rw [hexpires, Option.getD_some]
    have hle : ((notAfter.toNat + 1 : Nat) : Int) ≤
        ((notAfter.toNat + 1) * renewalCheckInterval task.cfg : Nat) := by
      exact_mod_cast Nat.le_mul_of_pos_right _ hinterval
    push_cast at hle
    omega

/-- The certificate's write stopped after its first byte. -/
theorem renewal_attempted_torn :
    let dir := runOps 0o022 earlierDir ((writeCert (utf8 "chain".toList) [1]).take 2)
    Damaged renewalTask.reader dir ∧ ∀ rounds,
      (renewalTask.machine.run ⟨dir, 0⟩ rounds).dir = dir ∧
        ∀ o ∈ renewalTask.machine.outputs ⟨dir, 0⟩ rounds, o.attempts = [] :=
  have h : Damaged renewalTask.reader
      (runOps 0o022 earlierDir ((writeCert (utf8 "chain".toList) [1]).take 2)) :=
    ⟨⟨[99], 0o600, .this⟩, by decide +kernel, rfl, by decide +kernel⟩
  ⟨h, (renewal_attempted renewalTask (by decide) ⟨_, 0⟩).1 h⟩

end Flexd
