import Mathlib.Data.List.Basic

/-!
# Ordered multimaps

A multimap is the list of its entries; the values of one key keep their
order. `insert` replaces every value of its key, `remove` drops them all. Two
multimaps are the `Same` when every key has the same values in the same order,
whatever the order between keys. Every operation has its equations for
`getAll`, so that a proof about a sequence of updates reads it off key by key,
and keeps two multimaps in agreement (`AgreeOn`) where they agreed before.
-/

namespace Flexd.Lib

/-- A multimap, as its entries. -/
abbrev MultiMap (κ ν : Type*) := List (κ × ν)

namespace MultiMap

variable {κ ν : Type*} [DecidableEq κ]

/-- The values of a key, in order. -/
def getAll (m : MultiMap κ ν) (k : κ) : List ν :=
  m.filterMap fun e => if e.1 = k then some e.2 else none

/-- The first value of a key. -/
def get (m : MultiMap κ ν) (k : κ) : Option ν := (m.getAll k).head?

def containsKey (m : MultiMap κ ν) (k : κ) : Bool := m.any fun e => e.1 = k

/-- Drop every value of a key. -/
def remove (m : MultiMap κ ν) (k : κ) : MultiMap κ ν := m.filter fun e => e.1 ≠ k

/-- Drop every value of the keys, one key after the other. -/
def removeAll (m : MultiMap κ ν) (ks : List κ) : MultiMap κ ν := ks.foldl remove m

/-- Make `v` the only value of `k`. -/
def insert (m : MultiMap κ ν) (k : κ) (v : ν) : MultiMap κ ν := m.remove k ++ [(k, v)]

/-- Make `v` the only value of `k`, unless `k` has a value already. -/
def insertIfAbsent (m : MultiMap κ ν) (k : κ) (v : ν) : MultiMap κ ν :=
  if m.containsKey k then m else m.insert k v

/-- Every key has the same values in the same order. -/
def Same (m₁ m₂ : MultiMap κ ν) : Prop := ∀ k, m₁.getAll k = m₂.getAll k

@[simp] theorem getAll_nil (k : κ) : getAll ([] : MultiMap κ ν) k = [] := rfl

theorem getAll_cons (e : κ × ν) (m : MultiMap κ ν) (k : κ) :
    getAll (e :: m) k = if e.1 = k then e.2 :: getAll m k else getAll m k := by
  unfold getAll
  by_cases h : e.1 = k <;> simp [h]

theorem getAll_append (m₁ m₂ : MultiMap κ ν) (k : κ) :
    getAll (m₁ ++ m₂) k = getAll m₁ k ++ getAll m₂ k := List.filterMap_append

theorem remove_cons (e : κ × ν) (m : MultiMap κ ν) (k : κ) :
    remove (e :: m) k = if e.1 = k then remove m k else e :: remove m k := by
  unfold remove
  by_cases h : e.1 = k <;> simp [h]

theorem containsKey_iff {m : MultiMap κ ν} {k : κ} : m.containsKey k = true ↔ m.getAll k ≠ [] := by
  induction m with
  | nil => simp [containsKey]
  | cons e m ih =>
    simp only [containsKey] at ih
    rw [getAll_cons]
    by_cases h : e.1 = k <;> simp [containsKey, h, ih]

@[simp] theorem getAll_remove_self (m : MultiMap κ ν) (k : κ) : (m.remove k).getAll k = [] := by
  induction m with
  | nil => rfl
  | cons e m ih =>
    rw [remove_cons]
    by_cases h : e.1 = k
    · rw [if_pos h]
      exact ih
    · rw [if_neg h, getAll_cons, if_neg h]
      exact ih

theorem getAll_remove_ne (m : MultiMap κ ν) {j k : κ} (h : j ≠ k) :
    (m.remove k).getAll j = m.getAll j := by
  induction m with
  | nil => rfl
  | cons e m ih =>
    rw [remove_cons, getAll_cons]
    by_cases hk : e.1 = k
    · rw [if_pos hk, if_neg fun hj => h (hj.symm.trans hk)]
      exact ih
    · rw [if_neg hk, getAll_cons, ih]

@[simp] theorem getAll_insert_self (m : MultiMap κ ν) (k : κ) (v : ν) :
    (m.insert k v).getAll k = [v] := by
  rw [insert, getAll_append, getAll_remove_self, getAll_cons, if_pos rfl]
  rfl

theorem getAll_insert_ne (m : MultiMap κ ν) {j k : κ} (h : j ≠ k) (v : ν) :
    (m.insert k v).getAll j = m.getAll j := by
  rw [insert, getAll_append, getAll_remove_ne m h, getAll_cons, if_neg (Ne.symm h)]
  simp

theorem getAll_removeAll_not_mem {ks : List κ} {k : κ} (h : k ∉ ks) (m : MultiMap κ ν) :
    (m.removeAll ks).getAll k = m.getAll k := by
  induction ks generalizing m with
  | nil => rfl
  | cons j ks ih =>
    simp only [List.mem_cons, not_or] at h
    exact (ih h.2 _).trans (getAll_remove_ne m h.1)

theorem getAll_removeAll_mem {ks : List κ} {k : κ} (h : k ∈ ks) (m : MultiMap κ ν) :
    (m.removeAll ks).getAll k = [] := by
  induction ks generalizing m with
  | nil => cases h
  | cons j ks ih =>
    by_cases hk : k ∈ ks
    · exact ih hk _
    · obtain rfl : k = j := (List.mem_cons.mp h).resolve_right hk
      exact (getAll_removeAll_not_mem hk _).trans (getAll_remove_self m k)

theorem mem_removeAll {ks : List κ} {m : MultiMap κ ν} {e : κ × ν} :
    e ∈ m.removeAll ks ↔ e ∈ m ∧ e.1 ∉ ks := by
  induction ks generalizing m with
  | nil => simp [removeAll]
  | cons j ks ih =>
    show e ∈ (m.remove j).removeAll ks ↔ _
    rw [ih, remove, List.mem_filter]
    simp only [decide_eq_true_eq, List.mem_cons, not_or, and_assoc]

/-- Removing keys that are not there changes nothing. -/
theorem removeAll_eq_self {ks : List κ} {m : MultiMap κ ν} (h : ∀ e ∈ m, e.1 ∉ ks) :
    m.removeAll ks = m := by
  induction ks with
  | nil => rfl
  | cons j ks ih =>
    have hj : m.remove j = m := by
      refine List.filter_eq_self.mpr fun e he => decide_eq_true fun hk => h e he ?_
      rw [hk]
      exact List.mem_cons_self
    show (m.remove j).removeAll ks = m
    rw [hj]
    exact ih fun e he hk => h e he (List.mem_cons_of_mem j hk)

theorem getAll_insertIfAbsent_ne (m : MultiMap κ ν) {j k : κ} (h : j ≠ k) (v : ν) :
    (m.insertIfAbsent k v).getAll j = m.getAll j := by
  unfold insertIfAbsent
  split
  · rfl
  · exact getAll_insert_ne m h v

/-- Inserting where absent keeps the values a key has, and gives `v` to a key without any. -/
theorem getAll_insertIfAbsent_self (m : MultiMap κ ν) (k : κ) (v : ν) :
    (m.insertIfAbsent k v).getAll k = if m.getAll k = [] then [v] else m.getAll k := by
  unfold insertIfAbsent
  by_cases h : m.getAll k = []
  · have : m.containsKey k = false := by
      rw [Bool.eq_false_iff]
      exact fun hc => containsKey_iff.mp hc h
    simp [this, h]
  · simp [containsKey_iff.mpr h, h]

/-! ## Agreement on a set of keys

Every operation acts on each key by itself, so two maps that agree on some
keys still agree on them after the same update. -/

/-- The maps have the same values for the keys in `S`. -/
def AgreeOn (S : κ → Prop) (m₁ m₂ : MultiMap κ ν) : Prop :=
  ∀ k, S k → m₁.getAll k = m₂.getAll k

variable {S : κ → Prop} {m₁ m₂ : MultiMap κ ν}

theorem AgreeOn.get (h : AgreeOn S m₁ m₂) {k : κ} (hk : S k) : m₁.get k = m₂.get k := by
  rw [MultiMap.get, MultiMap.get, h k hk]

theorem agreeOn_singleton {k : κ} {v w : ν} (h : ¬ S k) : AgreeOn S [(k, v)] [(k, w)] := by
  intro j hj
  have : k ≠ j := by
    rintro rfl
    exact h hj
  simp [getAll_cons, this]

theorem AgreeOn.remove (h : AgreeOn S m₁ m₂) (k : κ) : AgreeOn S (m₁.remove k) (m₂.remove k) := by
  intro j hj
  by_cases e : j = k
  · rw [e, getAll_remove_self, getAll_remove_self]
  · rw [getAll_remove_ne _ e, getAll_remove_ne _ e, h j hj]

theorem AgreeOn.insert (h : AgreeOn S m₁ m₂) (k : κ) (v : ν) :
    AgreeOn S (m₁.insert k v) (m₂.insert k v) := by
  intro j hj
  by_cases e : j = k
  · rw [e, getAll_insert_self, getAll_insert_self]
  · rw [getAll_insert_ne _ e, getAll_insert_ne _ e, h j hj]

theorem AgreeOn.insertIfAbsent (h : AgreeOn S m₁ m₂) (k : κ) (v : ν) :
    AgreeOn S (m₁.insertIfAbsent k v) (m₂.insertIfAbsent k v) := by
  intro j hj
  by_cases e : j = k
  · subst e
    rw [getAll_insertIfAbsent_self, getAll_insertIfAbsent_self, h j hj]
  · rw [getAll_insertIfAbsent_ne _ e, getAll_insertIfAbsent_ne _ e, h j hj]

/-- Removing keys makes two maps agree on those keys too. -/
theorem AgreeOn.removeAll (h : AgreeOn S m₁ m₂) (ks : List κ) :
    AgreeOn (fun k => S k ∨ k ∈ ks) (m₁.removeAll ks) (m₂.removeAll ks) := by
  intro j hj
  by_cases e : j ∈ ks
  · rw [getAll_removeAll_mem e, getAll_removeAll_mem e]
  · rw [getAll_removeAll_not_mem e, getAll_removeAll_not_mem e, h j (hj.resolve_right e)]

end MultiMap

end Flexd.Lib
