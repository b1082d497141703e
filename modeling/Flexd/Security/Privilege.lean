import Flexd.Lib.Credentials
import Flexd.Lib.Text

/-!
# Dropping privileges

`drop_privileges` gives up the supplementary groups, the group and the user of a
root process, in this order, and then checks that it cannot become root again.
`dropPrivileges_spec` says what a process is afterwards: as it was, if it was
not root; confined to the account, if that is not root; and never with the
groups it had.
-/

namespace Flexd

open Lib

structure User where
  uid : Nat
  gid : Nat
  deriving DecidableEq

inductive DropError where
  | lookup
  | notFound (user : Text)
  | refused (call : CredCall)
  | regains
  deriving DecidableEq

/-- `drop_privileges`: the result, and the credentials it leaves. `fromName` is what the user
database says of a name, none on an error. -/
def dropPrivileges (kernel : Kernel) (fromName : Text → Option (Option User)) (name : Text)
    (c : Creds) : Except DropError Unit × Creds :=
  if !c.privileged then (.ok (), c)
  else
    match fromName name with
    | none => (.error .lookup, c)
    | some none => (.error (.notFound name), c)
    | some (some user) =>
      match kernel.call c (.setgroups [user.gid]) with
      | none => (.error (.refused (.setgroups [user.gid])), c)
      | some c =>
        match kernel.call c (.setgid user.gid) with
        | none => (.error (.refused (.setgid user.gid)), c)
        | some c =>
          match kernel.call c (.setuid user.uid) with
          | none => (.error (.refused (.setuid user.uid)), c)
          | some c =>
            if user.uid ≠ 0 then
              match kernel.call c (.setuid 0) with
              | some c => (.error .regains, c)
              | none => (.ok (), c)
            else (.ok (), c)

variable {kernel : Kernel} {fromName : Text → Option (Option User)} {name : Text} {c c' : Creds}

/-- A call that is made is permitted. -/
theorem apply_of_call {k : CredCall} (h : kernel.call c k = some c') : c.apply k = some c' := by
  rcases kernel.sound c k with hk | hk
  · rw [hk] at h
    cases h
  · rw [← hk, h]

/-- The three calls of the drop leave the account and its group alone. -/
theorem confined_of_calls {uid gid : Nat} {c₁ c₂ c₃ : Creds} (hp : c.privileged = true)
    (h₁ : kernel.call c (.setgroups [gid]) = some c₁)
    (h₂ : kernel.call c₁ (.setgid gid) = some c₂)
    (h₃ : kernel.call c₂ (.setuid uid) = some c₃) : c₃ = .confined uid gid := by
  have hroot : c.euid = 0 := by simpa [Creds.privileged] using hp
  have e₁ : ({ c with groups := [gid] } : Creds) = c₁ := by
    simpa [Creds.apply, hp] using apply_of_call h₁
  subst e₁
  have e₂ : ({ c with groups := [gid], rgid := gid, egid := gid, sgid := gid } : Creds) = c₂ := by
    simpa [Creds.apply, Creds.privileged, hroot] using apply_of_call h₂
  subst e₂
  have e₃ : (⟨uid, uid, uid, gid, gid, gid, [gid]⟩ : Creds) = c₃ := by
    simpa [Creds.apply, Creds.privileged, hroot] using apply_of_call h₃
  exact e₃.symm

/-- An ordinary account confined to itself does not become root. -/
theorem not_root_of_confined {uid gid : Nat} (hu : uid ≠ 0) :
    kernel.call (.confined uid gid) (.setuid 0) = none := by
  have hnone : (Creds.confined uid gid).apply (.setuid 0) = none := by
    simp [Creds.apply, Creds.privileged, Creds.confined, hu, Ne.symm hu]
  rcases kernel.sound (.confined uid gid) (.setuid 0) with h | h
  · exact h
  · rw [h, hnone]

/-- **What a successful drop leaves**: a process that was not root as it was, and one that was
confined to an account of that name. -/
theorem dropPrivileges_spec (h : dropPrivileges kernel fromName name c = (.ok (), c')) :
    (c.privileged = false ∧ c' = c) ∨
      (c.privileged = true ∧ ∃ user, fromName name = some (some user) ∧
        c' = .confined user.uid user.gid) := by
  unfold dropPrivileges at h
  cases hp : c.privileged with
  | false =>
    rw [if_pos (by rw [hp]; rfl)] at h
    exact .inl ⟨rfl, (Prod.mk.inj h).2.symm⟩
  | true =>
    rw [if_neg (by rw [hp]; decide)] at h
    refine .inr ⟨rfl, ?_⟩
    split at h
    · cases h
    · cases h
    · next user huser =>
      refine ⟨user, huser, ?_⟩
      split at h
      · cases h
      · next h₁ =>
        split at h
        · cases h
        · next h₂ =>
          split at h
          · cases h
          · next h₃ =>
            have hconf := confined_of_calls hp h₁ h₂ h₃
            split at h
            · split at h
              · cases h
              · exact (Prod.mk.inj h).2.symm.trans hconf
            · exact (Prod.mk.inj h).2.symm.trans hconf

/-- **The check after the drop does not fire**: on a system that permits no more than it should, a
drop fails only where the account or one of the three calls does. -/
theorem dropPrivileges_ne_regains (kernel : Kernel) (fromName : Text → Option (Option User))
    (name : Text) (c : Creds) : (dropPrivileges kernel fromName name c).1 ≠ .error .regains := by
  unfold dropPrivileges
  split
  · simp
  · next hp =>
    split
    · simp
    · simp
    · next user huser =>
      split
      · simp
      · next h₁ =>
        split
        · simp
        · next h₂ =>
          split
          · simp
          · next h₃ =>
            split
            · next hu =>
              obtain rfl := confined_of_calls (by simpa using hp) h₁ h₂ h₃
              rw [not_root_of_confined hu]
              simp
            · simp

end Flexd
