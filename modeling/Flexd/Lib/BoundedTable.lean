import Mathlib.Data.Finset.Card
import Mathlib.Data.List.AList

/-!
# Tables that are cleared when they are full

`insertBounded` adds an entry to a table of at most `cap` entries, and clears a
full one first. A table `Agrees` with a partial function when it holds nothing
but values of it; no insertion of such a value and no clearing changes that.
-/

namespace Flexd.Lib

variable {K V : Type*} [DecidableEq K]

/-- Insert into a table that is cleared first when it is full. -/
def insertBounded (cap : Nat) (t : AList fun _ : K => V) (k : K) (v : V) : AList fun _ : K => V :=
  (if cap ≤ t.entries.length then ∅ else t).insert k v

variable {cap : Nat} {t : AList fun _ : K => V} {k : K} {v : V}

/-- An insertion adds its own entry, and may take others out. -/
theorem lookup_insertBounded {j : K} {w : V} (h : (insertBounded cap t k v).lookup j = some w) :
    (j = k ∧ w = v) ∨ t.lookup j = some w := by
  unfold insertBounded at h
  by_cases e : j = k
  · subst e
    rw [AList.lookup_insert] at h
    exact .inl ⟨rfl, (Option.some.inj h).symm⟩
  · rw [AList.lookup_insert_ne e] at h
    split at h
    · simp at h
    · exact .inr h

theorem length_erase_le (t : AList fun _ : K => V) (k : K) :
    (t.erase k).entries.length ≤ t.entries.length :=
  (List.kerase_sublist k t.entries).length_le

theorem length_insertBounded_le (hcap : 0 < cap) :
    (insertBounded cap t k v).entries.length ≤ cap := by
  have hins : ∀ t : AList fun _ : K => V,
      (t.insert k v).entries.length ≤ t.entries.length + 1 := by
    intro t
    rw [AList.entries_insert, List.length_cons]
    exact Nat.succ_le_succ (length_erase_le t k)
  unfold insertBounded
  split
  · exact Nat.le_trans (hins ∅) hcap
  · next hlt => exact Nat.le_trans (hins t) (by omega)

/-- A table with room keeps what it holds. -/
theorem lookup_insertBounded_of_lt (h : t.entries.length < cap) (j : K) :
    (insertBounded cap t k v).lookup j = if j = k then some v else t.lookup j := by
  rw [insertBounded, if_neg (Nat.not_le.mpr h)]
  split
  · next e => rw [e, AList.lookup_insert]
  · next e => exact AList.lookup_insert_ne e

/-- A table has no more entries than there are keys to choose from. -/
theorem length_entries_le_card {S : Finset K} (h : ∀ k ∈ t, k ∈ S) :
    t.entries.length ≤ S.card := by
  have hkeys : t.keys.toFinset ⊆ S := fun k hk => h k (AList.mem_keys.mpr (List.mem_toFinset.mp hk))
  have hlen : t.keys.length = t.entries.length := List.length_map _
  rw [← hlen, ← List.toFinset_card_of_nodup t.keys_nodup]
  exact Finset.card_le_card hkeys

/-- The table holds nothing but values of the function. -/
def Agrees (f : K → Option V) (t : AList fun _ : K => V) : Prop :=
  ∀ k v, t.lookup k = some v → f k = some v

variable {f : K → Option V}

theorem agrees_empty : Agrees f (∅ : AList fun _ : K => V) := by
  intro k v h
  simp at h

theorem Agrees.insertBounded (h : Agrees f t) (hv : f k = some v) :
    Agrees f (insertBounded cap t k v) := by
  intro j w hj
  rcases lookup_insertBounded hj with ⟨rfl, rfl⟩ | hj
  · exact hv
  · exact h j w hj

end Flexd.Lib
