import Mathlib.Data.List.Basic

/-!
# Process credentials

The user and group ids of a Unix process, and what the calls that change them
are allowed to do: anything where the effective user is root, and otherwise only
moves between the ids the process has. `run_confined` is the consequence that a
privilege drop rests on: a process with one ordinary user and one group, and no
further groups, keeps them whatever it calls.
-/

namespace Flexd.Lib

/-- Real, effective and saved ids, and the supplementary groups. -/
structure Creds where
  ruid : Nat
  euid : Nat
  suid : Nat
  rgid : Nat
  egid : Nat
  sgid : Nat
  groups : List Nat
  deriving DecidableEq

inductive CredCall where
  | setuid (uid : Nat)
  | setresuid (r e s : Option Nat)
  | setreuid (r e : Option Nat)
  | setgid (gid : Nat)
  | setresgid (r e s : Option Nat)
  | setregid (r e : Option Nat)
  | setgroups (groups : List Nat)
  deriving DecidableEq

namespace Creds

def privileged (c : Creds) : Bool := c.euid = 0

/-- A process may take the id, if one is given. -/
def mayTake (c : Creds) (ids : List Nat) : Option Nat → Bool
  | none => true
  | some id => c.privileged || id ∈ ids

/-- The saved id after `setre*id`: the effective one, where the real one is set or the effective
one to another than the real one. -/
def resaved (real effective saved : Nat) (r e : Option Nat) : Nat :=
  if r.isSome || e.any (· ≠ real) then e.getD effective else saved

/-- What a call does, none where it is not permitted. `seteuid` is `setresuid` of the effective id
alone. -/
def apply (c : Creds) : CredCall → Option Creds
  | .setuid uid =>
    if c.privileged then some { c with ruid := uid, euid := uid, suid := uid }
    else if uid ∈ [c.ruid, c.suid] then some { c with euid := uid }
    else none
  | .setresuid r e s =>
    if [r, e, s].all (c.mayTake [c.ruid, c.euid, c.suid]) then
      some { c with ruid := r.getD c.ruid, euid := e.getD c.euid, suid := s.getD c.suid }
    else none
  | .setreuid r e =>
    if c.mayTake [c.ruid, c.euid] r && c.mayTake [c.ruid, c.euid, c.suid] e then
      some { c with ruid := r.getD c.ruid, euid := e.getD c.euid,
                    suid := resaved c.ruid c.euid c.suid r e }
    else none
  | .setgid gid =>
    if c.privileged then some { c with rgid := gid, egid := gid, sgid := gid }
    else if gid ∈ [c.rgid, c.sgid] then some { c with egid := gid }
    else none
  | .setresgid r e s =>
    if [r, e, s].all (c.mayTake [c.rgid, c.egid, c.sgid]) then
      some { c with rgid := r.getD c.rgid, egid := e.getD c.egid, sgid := s.getD c.sgid }
    else none
  | .setregid r e =>
    if c.mayTake [c.rgid, c.egid] r && c.mayTake [c.rgid, c.egid, c.sgid] e then
      some { c with rgid := r.getD c.rgid, egid := e.getD c.egid,
                    sgid := resaved c.rgid c.egid c.sgid r e }
    else none
  | .setgroups groups => if c.privileged then some { c with groups } else none

/-- One user and one group, and nothing else. -/
def confined (uid gid : Nat) : Creds := ⟨uid, uid, uid, gid, gid, gid, [gid]⟩

end Creds

/-- A system, which may refuse a permitted call but permits no other. -/
structure Kernel where
  call : Creds → CredCall → Option Creds
  sound : ∀ c k, call c k = none ∨ call c k = c.apply k

/-- A process after calls; one that fails changes nothing. -/
def Kernel.run (kernel : Kernel) (c : Creds) (calls : List CredCall) : Creds :=
  calls.foldl (fun c k => (kernel.call c k).getD c) c

variable {uid gid : Nat}

/-- What is permitted to take without privileges, where all ids are the same. -/
theorem eq_of_mayTake {c : Creds} {id : Nat} {ids : List Nat} (hp : c.privileged = false)
    (hids : ∀ i ∈ ids, i = id) {o : Option Nat} (h : c.mayTake ids o = true) : o.getD id = id := by
  cases o with
  | none => rfl
  | some i =>
    simp only [Creds.mayTake, hp, Bool.false_or, decide_eq_true_eq] at h
    exact hids i h

theorem resaved_self {id : Nat} {r e : Option Nat} (he : e.getD id = id) :
    Creds.resaved id id id r e = id := by
  unfold Creds.resaved
  rw [he, ite_self]

/-- `setres*id` of a process without privileges whose ids are all the same. -/
theorem eq_of_mayTake_all {c : Creds} {id : Nat} (hp : c.privileged = false) {r e s : Option Nat}
    (h : [r, e, s].all (c.mayTake [id, id, id]) = true) :
    r.getD id = id ∧ e.getD id = id ∧ s.getD id = id := by
  have htake {o : Option Nat} : c.mayTake [id, id, id] o = true → o.getD id = id :=
    eq_of_mayTake hp fun i hi => List.eq_of_mem_replicate (n := 3) hi
  simp only [List.all_cons, List.all_nil, Bool.and_true, Bool.and_eq_true] at h
  exact ⟨htake h.1, htake h.2.1, htake h.2.2⟩

/-- `setre*id` of such a process. -/
theorem eq_of_mayTake_and {c : Creds} {id : Nat} (hp : c.privileged = false) {r e : Option Nat}
    (h : (c.mayTake [id, id] r && c.mayTake [id, id, id] e) = true) :
    r.getD id = id ∧ e.getD id = id := by
  rw [Bool.and_eq_true] at h
  exact ⟨eq_of_mayTake hp (fun i hi => List.eq_of_mem_replicate (n := 2) hi) h.1,
    eq_of_mayTake hp (fun i hi => List.eq_of_mem_replicate (n := 3) hi) h.2⟩

/-- **No call changes a confined process** that is not root. -/
theorem apply_confined (hu : uid ≠ 0) (k : CredCall) :
    (Creds.confined uid gid).apply k = none ∨
      (Creds.confined uid gid).apply k = some (.confined uid gid) := by
  have hp : (Creds.confined uid gid).privileged = false := by
    simp [Creds.privileged, Creds.confined, hu]
  cases k with
  | setuid u =>
    simp only [Creds.apply, hp, Bool.false_eq_true, if_false]
    split
    · next h =>
      obtain rfl : u = uid := by simpa [Creds.confined] using h
      exact .inr rfl
    · exact .inl rfl
  | setgid g =>
    simp only [Creds.apply, hp, Bool.false_eq_true, if_false]
    split
    · next h =>
      obtain rfl : g = gid := by simpa [Creds.confined] using h
      exact .inr rfl
    · exact .inl rfl
  | setresuid r e s =>
    simp only [Creds.apply]
    split
    · next h =>
      obtain ⟨hr, he, hs⟩ : r.getD uid = uid ∧ e.getD uid = uid ∧ s.getD uid = uid :=
        eq_of_mayTake_all hp h
      simp only [Creds.confined, hr, he, hs, or_true]
    · exact .inl rfl
  | setreuid r e =>
    simp only [Creds.apply]
    split
    · next h =>
      obtain ⟨hr, he⟩ : r.getD uid = uid ∧ e.getD uid = uid := eq_of_mayTake_and hp h
      simp only [Creds.confined, hr, he, resaved_self he, or_true]
    · exact .inl rfl
  | setresgid r e s =>
    simp only [Creds.apply]
    split
    · next h =>
      obtain ⟨hr, he, hs⟩ : r.getD gid = gid ∧ e.getD gid = gid ∧ s.getD gid = gid :=
        eq_of_mayTake_all hp h
      simp only [Creds.confined, hr, he, hs, or_true]
    · exact .inl rfl
  | setregid r e =>
    simp only [Creds.apply]
    split
    · next h =>
      obtain ⟨hr, he⟩ : r.getD gid = gid ∧ e.getD gid = gid := eq_of_mayTake_and hp h
      simp only [Creds.confined, hr, he, resaved_self he, or_true]
    · exact .inl rfl
  | setgroups groups =>
    simp only [Creds.apply, hp, Bool.false_eq_true, if_false, true_or]

/-- **A confined process stays so**, whatever it calls. -/
theorem run_confined (kernel : Kernel) (hu : uid ≠ 0) (calls : List CredCall) :
    kernel.run (.confined uid gid) calls = .confined uid gid := by
  induction calls with
  | nil => rfl
  | cons k calls ih =>
    have hcall : (kernel.call (.confined uid gid) k).getD (.confined uid gid) =
        .confined uid gid := by
      rcases kernel.sound (.confined uid gid) k with h | h
      · rw [h]
        rfl
      · rw [h]
        rcases apply_confined hu k with h | h <;> rw [h] <;> rfl
    show kernel.run ((kernel.call (.confined uid gid) k).getD (.confined uid gid)) calls = _
    rw [hcall]
    exact ih

end Flexd.Lib
