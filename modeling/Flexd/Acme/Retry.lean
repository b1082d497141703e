import Flexd.Config.Schema
import Flexd.Http.Message
import Mathlib.Data.List.Chain

/-!
# Issuance attempts over time

`issue_with_retry` makes up to five attempts and waits between them, for as
long as the CA's last `Retry-After` says and at least for an exponential
backoff. The renewal loop calls it at every check that finds the certificate
due, and between checks sleeps for a fixed interval. `renewalLoop` is the
attempts of a run, with their times; `renewal_paced_iff` says when no attempt
comes before the `Retry-After` of an earlier one is over.
-/

namespace Flexd

open Lib

def HeaderName.retryAfter : HeaderName := ⟨"retry-after".toList, by decide⟩

def StatusCode.tooManyRequests : StatusCode := ⟨429, by decide⟩

/-! ## Attempts -/

structure CaResponse where
  status : StatusCode
  headers : HeaderMap

/-- What `AcmeHttpClient::request` stores for a response: the seconds of a 429's `Retry-After`. -/
def CaResponse.retryAfter (rsp : CaResponse) : Option Nat :=
  if rsp.status = .tooManyRequests then
    (HeaderMap.getStr rsp.headers .retryAfter).bind fun s => parseUsize (trim s)
  else none

/-- One `try_issue` against the CA: the responses it gets, whether it succeeds, and how long it
takes. -/
structure IssueAttempt where
  responses : List CaResponse
  issued : Bool
  took : Nat

/-- The shared counter after an attempt, which starts it at zero. -/
def IssueAttempt.retryAfter (a : IssueAttempt) : Nat :=
  a.responses.foldl (fun counter rsp => rsp.retryAfter.getD counter) 0

/-- `max_attempts`. -/
def maxAttempts : Nat := 5

/-- The sleep after the failure of an attempt. -/
def retryWait (attempt retryAfter : Nat) : Nat := max retryAfter (1 <<< min (attempt - 1) 6)

/-- An attempt in the run it is part of. -/
structure AttemptRecord where
  attempt : Nat
  startedAt : Nat
  endedAt : Nat
  issued : Bool
  retryAfter : Nat
  deriving DecidableEq

def IssueAttempt.record (a : IssueAttempt) (attempt t : Nat) : AttemptRecord :=
  ⟨attempt, t, t + a.took, a.issued, a.retryAfter⟩

/-- The loop of `issue_with_retry` from an attempt on, with `left` more to come: the attempts it
makes, and the time it returns at. -/
def issueFrom (ca : Nat → IssueAttempt) : Nat → Nat → Nat → List AttemptRecord × Nat
  | 0, attempt, t =>
    let r := (ca attempt).record attempt t
    ([r], r.endedAt)
  | left + 1, attempt, t =>
    let r := (ca attempt).record attempt t
    if r.issued then ([r], r.endedAt)
    else
      let (rs, t) := issueFrom ca left (attempt + 1) (r.endedAt + retryWait attempt r.retryAfter)
      (r :: rs, t)

def issueWithRetry (ca : Nat → IssueAttempt) (t : Nat) : List AttemptRecord × Nat :=
  issueFrom ca (maxAttempts - 1) 1 t

/-! ## The renewal loop -/

def renewalCheckInterval (acme : AcmeConfig) : Nat := acme.renewalCheckIntervalSecs.getD 3600

/-- What a check finds. -/
inductive RenewalCheck where
  /-- The certificate is not due, or cannot be read. -/
  | skip
  /-- It is due, and this is how the attempts go. -/
  | due (ca : Nat → IssueAttempt)

def RenewalCheck.isDue : RenewalCheck → Bool
  | .skip => false
  | .due _ => true

/-- The attempts of every `issue_with_retry` call of the loop. -/
def renewalLoop (interval : Nat) : List RenewalCheck → Nat → List (List AttemptRecord)
  | [], _ => []
  | .skip :: checks, t => renewalLoop interval checks (t + interval)
  | .due ca :: checks, t =>
    let (rs, t) := issueWithRetry ca (t + interval)
    rs :: renewalLoop interval checks t

/-! ## Pacing -/

/-- A failed attempt's `Retry-After` is over when the other starts. -/
def Waits (a b : AttemptRecord) : Prop := a.issued = false → a.endedAt + a.retryAfter ≤ b.startedAt

instance (a b : AttemptRecord) : Decidable (Waits a b) :=
  inferInstanceAs (Decidable (_ → _))

/-- After the `k`-th attempt the other starts `2 ^ (k - 1)` seconds later at the earliest. -/
def BacksOff (a b : AttemptRecord) : Prop :=
  a.endedAt + Nat.pow 2 (a.attempt - 1) ≤ b.startedAt

/-- Every attempt waits for all before it, and within a call backs off from the one before. -/
def Paced (calls : List (List AttemptRecord)) : Prop :=
  calls.flatten.Pairwise Waits ∧ ∀ rs ∈ calls, rs.IsChain BacksOff

/-- No attempt of the call succeeds. -/
def Exhausted (ca : Nat → IssueAttempt) : Prop :=
  ∀ k, 1 ≤ k → k ≤ maxAttempts → (ca k).issued = false

/-- After a call whose attempts all failed, the `Retry-After` of the last is over by the next
check that finds the certificate due. -/
def Patient (interval : Nat) : List RenewalCheck → Prop
  | [] => True
  | check :: checks =>
    (∀ ca, check = .due ca → Exhausted ca → ∀ m, checks.findIdx? RenewalCheck.isDue = some m →
      (ca maxAttempts).retryAfter ≤ (m + 1) * interval) ∧ Patient interval checks

/-! ## One call -/

/-- No attempt from `attempt` to the last one succeeds. -/
def FailsFrom (ca : Nat → IssueAttempt) (left attempt : Nat) : Prop :=
  ∀ j, j ≤ left → (ca (attempt + j)).issued = false

/-- The attempts of a call from `attempt` on, which start at `t` and are over at `t'`. Only a
last failed attempt is not waited for. -/
structure CallSpec (ca : Nat → IssueAttempt) (left attempt t : Nat) (rs : List AttemptRecord)
    (t' : Nat) : Prop where
  head : ∃ r rs', rs = r :: rs' ∧ r.startedAt = t
  le : t ≤ t'
  start : ∀ r ∈ rs, t ≤ r.startedAt
  waits : rs.Pairwise Waits
  backsOff : rs.IsChain BacksOff
  elapsed : ∀ r ∈ rs, r.issued = false → r.endedAt + r.retryAfter ≤ t' ∨
    (FailsFrom ca left attempt ∧ r.endedAt = t' ∧
      r.retryAfter = (ca (attempt + left)).retryAfter)
  last : FailsFrom ca left attempt → ∃ r ∈ rs, r.issued = false ∧ r.endedAt = t' ∧
    r.retryAfter = (ca (attempt + left)).retryAfter

variable {ca : Nat → IssueAttempt}

/-- A call that ends with its first attempt. -/
theorem callSpec_singleton {left attempt t : Nat}
    (h : (ca attempt).issued = true ∨ left = 0) :
    CallSpec ca left attempt t [(ca attempt).record attempt t] (t + (ca attempt).took) where
  head := ⟨_, [], rfl, rfl⟩
  le := Nat.le_add_right _ _
  start r hr := by
    rw [List.mem_singleton.mp hr]
    exact le_rfl
  waits := List.pairwise_singleton _ _
  backsOff := List.isChain_singleton _
  elapsed r hr hf := by
    rw [List.mem_singleton.mp hr] at hf ⊢
    have hf : (ca attempt).issued = false := hf
    obtain rfl : left = 0 := h.resolve_left (by simp [hf])
    refine .inr ⟨fun j hj => ?_, rfl, rfl⟩
    obtain rfl := Nat.le_zero.mp hj
    exact hf
  last hf := by
    have h0 : (ca attempt).issued = false := hf 0 (Nat.zero_le _)
    obtain rfl : left = 0 := h.resolve_left (by simp [h0])
    exact ⟨_, List.mem_singleton.mpr rfl, h0, rfl, rfl⟩

theorem backoff_le_retryWait {attempt : Nat} (h : attempt ≤ 7) (s : Nat) :
    Nat.pow 2 (attempt - 1) ≤ retryWait attempt s := by
  have hmin : min (attempt - 1) 6 = attempt - 1 := by omega
  unfold retryWait
  rw [hmin, Nat.one_shiftLeft]
  exact le_max_right _ _

theorem failsFrom_succ {left attempt : Nat} :
    FailsFrom ca (left + 1) attempt ↔
      (ca attempt).issued = false ∧ FailsFrom ca left (attempt + 1) := by
  constructor
  · intro h
    refine ⟨h 0 (Nat.zero_le _), fun j hj => ?_⟩
    have := h (j + 1) (by omega)
    rwa [show attempt + (j + 1) = attempt + 1 + j by omega] at this
  · rintro ⟨h0, h⟩ j hj
    cases j with
    | zero => exact h0
    | succ j =>
      rw [show attempt + (j + 1) = attempt + 1 + j by omega]
      exact h j (by omega)

/-- A failed attempt, the sleep, and the rest of the call. -/
theorem CallSpec.cons {left attempt t t' : Nat} {rs : List AttemptRecord} (h7 : attempt ≤ 7)
    (hf : (ca attempt).issued = false)
    (h : CallSpec ca left (attempt + 1)
      (t + (ca attempt).took + retryWait attempt (ca attempt).retryAfter) rs t') :
    CallSpec ca (left + 1) attempt t ((ca attempt).record attempt t :: rs) t' := by
  have hwait : (ca attempt).retryAfter ≤ retryWait attempt (ca attempt).retryAfter :=
    le_max_left _ _
  have hback := backoff_le_retryWait h7 (ca attempt).retryAfter
  have hlast : attempt + (left + 1) = attempt + 1 + left := by omega
  refine ⟨⟨_, rs, rfl, rfl⟩, ?_, ?_, ?_, ?_, ?_, ?_⟩
  · have := h.le
    omega
  · intro r hr
    rcases List.mem_cons.mp hr with rfl | hr
    · exact le_rfl
    · have := h.start r hr
      omega
  · refine List.pairwise_cons.mpr ⟨fun b hb _ => ?_, h.waits⟩
    have := h.start b hb
    show t + (ca attempt).took + (ca attempt).retryAfter ≤ b.startedAt
    omega
  · obtain ⟨r, rs', rfl, hr⟩ := h.head
    refine List.isChain_cons_cons.mpr ⟨?_, h.backsOff⟩
    show t + (ca attempt).took + Nat.pow 2 (attempt - 1) ≤ r.startedAt
    omega
  · intro r hr hrf
    rcases List.mem_cons.mp hr with rfl | hr
    · left
      have := h.le
      show t + (ca attempt).took + (ca attempt).retryAfter ≤ t'
      omega
    · rw [failsFrom_succ, hlast]
      exact (h.elapsed r hr hrf).imp id fun ⟨hfails, hend⟩ => ⟨⟨hf, hfails⟩, hend⟩
  · intro hfails
    obtain ⟨r, hr, hlast'⟩ := h.last (failsFrom_succ.mp hfails).2
    rw [hlast]
    exact ⟨r, List.mem_cons_of_mem _ hr, hlast'⟩

/-- **A call of `issue_with_retry`**, from any attempt on. -/
theorem callSpec_issueFrom {left attempt : Nat} (h : attempt + left ≤ 7) (t : Nat) :
    CallSpec ca left attempt t (issueFrom ca left attempt t).1 (issueFrom ca left attempt t).2 := by
  induction left generalizing attempt t with
  | zero => exact callSpec_singleton (.inr rfl)
  | succ left ih =>
    unfold issueFrom
    simp only
    split
    · next hi => exact callSpec_singleton (.inl hi)
    · next hi =>
      have hf : (ca attempt).issued = false := by simpa [IssueAttempt.record] using hi
      exact (ih (by omega) _).cons (by omega) hf

theorem exhausted_iff_failsFrom : Exhausted ca ↔ FailsFrom ca (maxAttempts - 1) 1 := by
  constructor
  · intro h j hj
    have hmax : maxAttempts = 5 := rfl
    exact h (1 + j) (by omega) (by omega)
  · intro h k h1 hk
    have := h (k - 1) (by omega)
    rwa [show 1 + (k - 1) = k by omega] at this

theorem callSpec_issueWithRetry (ca : Nat → IssueAttempt) (t : Nat) :
    CallSpec ca (maxAttempts - 1) 1 t (issueWithRetry ca t).1 (issueWithRetry ca t).2 :=
  callSpec_issueFrom (by decide) t

/-! ## Every run -/

theorem le_startedAt_renewalLoop (interval : Nat) (checks : List RenewalCheck) (t : Nat) :
    ∀ r ∈ (renewalLoop interval checks t).flatten, t ≤ r.startedAt := by
  induction checks generalizing t with
  | nil => simp [renewalLoop]
  | cons check checks ih =>
    intro r hr
    cases check with
    | skip =>
      have := ih (t + interval) r hr
      omega
    | due ca =>
      have hcall := callSpec_issueWithRetry ca (t + interval)
      simp only [renewalLoop, List.flatten_cons, List.mem_append] at hr
      rcases hr with hr | hr
      · have := hcall.start r hr
        omega
      · have := ih _ r hr
        have := hcall.le
        omega

theorem renewalLoop_of_none_due {interval : Nat} {checks : List RenewalCheck}
    (h : checks.findIdx? RenewalCheck.isDue = none) (t : Nat) :
    renewalLoop interval checks t = [] := by
  induction checks generalizing t with
  | nil => rfl
  | cons check checks ih =>
    rw [List.findIdx?_eq_none_iff] at h ih
    cases check with
    | skip => exact ih (fun c hc => h c (List.mem_cons_of_mem _ hc)) _
    | due ca => cases h _ List.mem_cons_self

/-- The first attempt of a run is made at the first check that finds the certificate due. -/
theorem renewalLoop_first (interval : Nat) {m : Nat} {checks : List RenewalCheck}
    (h : checks.findIdx? RenewalCheck.isDue = some m) (t : Nat) :
    (∀ r ∈ (renewalLoop interval checks t).flatten, t + (m + 1) * interval ≤ r.startedAt) ∧
      ∃ r ∈ (renewalLoop interval checks t).flatten, r.startedAt = t + (m + 1) * interval := by
  induction checks generalizing m t with
  | nil => cases h
  | cons check checks ih =>
    rw [List.findIdx?_cons] at h
    cases check with
    | skip =>
      obtain ⟨m, hm, rfl⟩ := Option.map_eq_some_iff.mp h
      have htime : t + (m + 1 + 1) * interval = t + interval + (m + 1) * interval := by
        rw [Nat.succ_mul (m + 1)]
        omega
      rw [htime]
      exact ih hm (t + interval)
    | due ca =>
      obtain rfl : 0 = m := Option.some.inj h
      rw [Nat.zero_add, Nat.one_mul]
      have hcall := callSpec_issueWithRetry ca (t + interval)
      simp only [renewalLoop, List.flatten_cons, List.mem_append]
      constructor
      · rintro r (hr | hr)
        · exact hcall.start r hr
        · exact hcall.le.trans (le_startedAt_renewalLoop _ _ _ r hr)
      · obtain ⟨r, rs, hrs, hr⟩ := hcall.head
        exact ⟨r, .inl (by rw [hrs]; exact List.mem_cons_self), hr⟩

/-- What a call leaves to be waited for: the `Retry-After` of its last attempt, if all failed. -/
theorem waits_rest_iff {t t' : Nat} {rs rest : List AttemptRecord}
    (hcall : CallSpec ca (maxAttempts - 1) 1 t rs t') (hrest : ∀ b ∈ rest, t' ≤ b.startedAt) :
    (∀ a ∈ rs, ∀ b ∈ rest, Waits a b) ↔
      (Exhausted ca → ∀ b ∈ rest, t' + (ca maxAttempts).retryAfter ≤ b.startedAt) := by
  rw [exhausted_iff_failsFrom]
  constructor
  · intro h hex b hb
    obtain ⟨r, hr, hf, hend, hra⟩ := hcall.last hex
    have := h r hr b hb hf
    rwa [hend, hra] at this
  · intro h a ha b hb hf
    rcases hcall.elapsed a ha hf with hover | ⟨hex, hend, hra⟩
    · exact hover.trans (hrest b hb)
    · rw [hend, hra]
      exact h hex b hb

theorem backsOff_renewalLoop (interval : Nat) (checks : List RenewalCheck) (t : Nat) :
    ∀ rs ∈ renewalLoop interval checks t, rs.IsChain BacksOff := by
  induction checks generalizing t with
  | nil => simp [renewalLoop]
  | cons check checks ih =>
    cases check with
    | skip => exact ih _
    | due ca =>
      intro rs hrs
      simp only [renewalLoop, List.mem_cons] at hrs
      rcases hrs with rfl | hrs
      · exact (callSpec_issueWithRetry ca (t + interval)).backsOff
      · exact ih _ rs hrs

theorem waits_renewalLoop_iff (interval : Nat) (checks : List RenewalCheck) (t : Nat) :
    (renewalLoop interval checks t).flatten.Pairwise Waits ↔ Patient interval checks := by
  induction checks generalizing t with
  | nil => simp [renewalLoop, Patient]
  | cons check checks ih =>
    cases check with
    | skip =>
      simp only [renewalLoop, Patient, ih, reduceCtorEq, false_implies, implies_true, true_and]
    | due ca =>
      have hcall := callSpec_issueWithRetry ca (t + interval)
      generalize hrs : (issueWithRetry ca (t + interval)).1 = rs at hcall
      generalize ht : (issueWithRetry ca (t + interval)).2 = t' at hcall
      have hloop : renewalLoop interval (.due ca :: checks) t =
          rs :: renewalLoop interval checks t' := by
        rw [← hrs, ← ht]
        rfl
      have hnext : (Exhausted ca → ∀ b ∈ (renewalLoop interval checks t').flatten,
            t' + (ca maxAttempts).retryAfter ≤ b.startedAt) ↔
          (Exhausted ca → ∀ m, checks.findIdx? RenewalCheck.isDue = some m →
            (ca maxAttempts).retryAfter ≤ (m + 1) * interval) := by
        refine imp_congr_right fun _ => ?_
        cases hm : checks.findIdx? RenewalCheck.isDue with
        | none => simp [renewalLoop_of_none_due hm]
        | some m =>
          obtain ⟨hall, r, hr, hrt⟩ := renewalLoop_first interval hm t'
          constructor
          · rintro h _ ⟨⟩
            have := h r hr
            omega
          · intro h b hb
            have := h m rfl
            have := hall b hb
            omega
      rw [hloop, List.flatten_cons, List.pairwise_append, ih,
        waits_rest_iff hcall (le_startedAt_renewalLoop _ _ _), hnext, Patient]
      simp only [RenewalCheck.due.injEq, forall_eq']
      have hw := hcall.waits
      tauto

/-- **Over every run of the renewal loop, attempts are paced exactly when each exhausted call's
last `Retry-After` is over by the next check that finds the certificate due.** -/
theorem renewal_paced_iff (acme : AcmeConfig) (checks : List RenewalCheck) (t : Nat) :
    Paced (renewalLoop (renewalCheckInterval acme) checks t) ↔
      Patient (renewalCheckInterval acme) checks := by
  unfold Paced
  rw [waits_renewalLoop_iff]
  exact and_iff_left (backsOff_renewalLoop _ _ _)

namespace Sample

/-- A CA that has every attempt wait for two hours. -/
def busyCa (_ : Nat) : IssueAttempt where
  responses := [⟨.tooManyRequests, [(.retryAfter, ⟨utf8 "7200".toList, by decide⟩)]⟩]
  issued := false
  took := 1

end Sample

open Sample in
/-- With the default interval of an hour, the attempt after an exhausted call comes an hour
early. -/
theorem renewal_disregards_retryAfter :
    ¬ ∀ (acme : AcmeConfig) (checks : List RenewalCheck) (t : Nat),
      Paced (renewalLoop (renewalCheckInterval acme) checks t) := by
  intro h
  have hwaits := (h {} [.due busyCa, .due busyCa] 0).1
  revert hwaits
  decide +kernel

end Flexd
