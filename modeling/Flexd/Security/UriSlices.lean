import Flexd.Security.UriValidate

/-!
# The slices of the path scan

At each `%` the scan slices the path at the third byte, and after `%ed` at the
sixth. A slice that ends inside a character is a panic. `validateUri_returns_iff`
says which paths never get that far: those whose slices all fall between
characters up to the first `%` that is rejected.
-/

namespace Flexd

open Lib UriValidate

section

variable (ext : External)

/-- A slice taken at the `%` that a text begins with ends inside a character: the one of three
bytes, or the next one where these spell `%ed`. -/
def CutsAt (t : Text) : Prop :=
  InsideChar t 3 ∨ ∃ seq after, t = seq ++ after ∧ byteLen seq = 3 ∧
    ext.toLowercase seq = "%ed".toList ∧ InsideChar after 3

/-- The second byte of a surrogate half, escaped. -/
def SurrogateHalf (next : Text) : Prop :=
  ∃ hex, ext.toLowercase next = '%' :: hex ∧
    0xa0 ≤ (parseUnsigned 16 256 hex).getD 0 ∧ (parseUnsigned 16 256 hex).getD 0 ≤ 0xbf

/-- The scan rejects the escape that a text begins with. -/
def RejectsAt (t : Text) : Prop :=
  ∃ seq after, t = seq ++ after ∧ byteLen seq = 3 ∧
    ((ext.toLowercase seq = "%c0".toList ∨ ext.toLowercase seq = "%c1".toList ∨
        ext.toLowercase seq = "%e0".toList) ∨
      ext.toLowercase seq = "%ed".toList ∧ ∃ next rest, after = next ++ rest ∧
        byteLen next = 3 ∧ rest ≠ [] ∧ SurrogateHalf ext next)

/-- Every `%` at which a slice would cut a character comes after one that is rejected. -/
def Guarded (s : Text) : Prop :=
  ∀ a t, s = a ++ '%' :: t → CutsAt ext ('%' :: t) →
    ∃ a' t', s = a' ++ '%' :: t' ∧ a'.length < a.length ∧ RejectsAt ext ('%' :: t')

end

variable {ext : External}

/-! ## One step of the scan -/

theorem byteLen_pos {t : Text} (h : t ≠ []) : 0 < byteLen t := by
  cases t with
  | nil => exact absurd rfl h
  | cons c t =>
    have := c.utf8Size_pos
    rw [byteLen_cons]
    omega

theorem scanEscapes_other {c : Char} (h : c ≠ '%') (t : Text) :
    scanEscapes ext (c :: t) = scanEscapes ext t := by
  conv_lhs => unfold scanEscapes
  exact if_neg fun hc => h hc.1

/-- Too short for an escape. -/
theorem scanEscapes_short {t : Text} (h : byteLen ('%' :: t) ≤ 2) :
    scanEscapes ext ('%' :: t) = scanEscapes ext t := by
  conv_lhs => unfold scanEscapes
  exact if_neg fun hc => by omega

theorem scanEscapes_cuts {t : Text} (h : CutsAt ext ('%' :: t)) :
    scanEscapes ext ('%' :: t) = .panicked := by
  unfold scanEscapes
  rcases h with hin | ⟨seq, after, ht, hlen, hlow, hin⟩
  · have := hin.lt
    rw [if_pos ⟨rfl, by omega⟩, splitAtByte_eq_none.mpr (.inr hin)]
  · have hlt := hin.lt
    have hsum : byteLen ('%' :: t) = 3 + byteLen after := by rw [ht, byteLen_append, hlen]
    rw [if_pos ⟨rfl, by omega⟩, splitAtByte_eq_some.mpr ⟨ht, hlen⟩]
    simp only [hlow]
    rw [if_neg (by decide), if_pos ⟨trivial, by omega⟩, splitAtByte_eq_none.mpr (.inr hin)]

theorem scanEscapes_rejects {t : Text} (h : RejectsAt ext ('%' :: t)) :
    ∃ reason, scanEscapes ext ('%' :: t) = .rejected reason := by
  obtain ⟨seq, after, ht, hlen, hwhy⟩ := h
  have hsum : byteLen ('%' :: t) = 3 + byteLen after := by rw [ht, byteLen_append, hlen]
  unfold scanEscapes
  rw [if_pos ⟨rfl, by omega⟩, splitAtByte_eq_some.mpr ⟨ht, hlen⟩]
  rcases hwhy with hseq | ⟨hlow, next, rest, rfl, hnext, hne, hex, hhex, hhalf⟩
  · exact ⟨_, if_pos hseq⟩
  · have := byteLen_pos hne
    rw [byteLen_append, hnext] at hsum
    simp only [hlow]
    rw [if_neg (by decide), if_pos ⟨trivial, by omega⟩, splitAtByte_eq_some.mpr ⟨rfl, hnext⟩]
    simp only [hhex, hhalf, and_self, if_true]
    exact ⟨_, rfl⟩

theorem scanEscapes_passes {t : Text} (hcut : ¬ CutsAt ext ('%' :: t))
    (hrej : ¬ RejectsAt ext ('%' :: t)) :
    scanEscapes ext ('%' :: t) = scanEscapes ext t := by
  by_cases hlen : byteLen ('%' :: t) ≤ 2
  · exact scanEscapes_short hlen
  cases hsplit : splitAtByte ('%' :: t) 3 with
  | none =>
    rcases splitAtByte_eq_none.mp hsplit with hlt | hin
    · omega
    · exact absurd (.inl hin) hcut
  | some p =>
    obtain ⟨seq, after⟩ := p
    obtain ⟨ht, hseq⟩ := splitAtByte_eq_some.mp hsplit
    have hover : ¬ (ext.toLowercase seq = "%c0".toList ∨ ext.toLowercase seq = "%c1".toList ∨
        ext.toLowercase seq = "%e0".toList) := fun h => hrej ⟨seq, after, ht, hseq, .inl h⟩
    conv_lhs => unfold scanEscapes
    rw [if_pos ⟨rfl, by omega⟩, hsplit]
    simp only
    rw [if_neg hover]
    by_cases hed : ext.toLowercase seq = "%ed".toList ∧ 6 < byteLen ('%' :: t)
    · have hsum : byteLen ('%' :: t) = 3 + byteLen after := by rw [ht, byteLen_append, hseq]
      rw [if_pos hed]
      cases hnext : splitAtByte after 3 with
      | none =>
        rcases splitAtByte_eq_none.mp hnext with hlt | hin
        · omega
        · exact absurd (.inr ⟨seq, after, ht, hseq, hed.1, hin⟩) hcut
      | some q =>
        obtain ⟨next, rest⟩ := q
        obtain ⟨rfl, hlen'⟩ := splitAtByte_eq_some.mp hnext
        have hrest : rest ≠ [] := by
          rintro rfl
          rw [byteLen_append, byteLen_nil] at hsum
          omega
        simp only
        split
        · next hex hhex =>
          refine if_neg fun hhalf => hrej ⟨seq, _, ht, hseq, .inr ⟨hed.1, next, rest, rfl, hlen',
            hrest, hex, hhex, hhalf⟩⟩
        · rfl
    · rw [if_neg hed]

/-! ## The whole scan -/

theorem guarded_nil : Guarded ext [] := by
  intro a t h
  simp at h

/-- A character at which the scan goes on neither cuts nor guards. -/
theorem guarded_cons {c : Char} {s : Text}
    (hgo : c = '%' → ¬ CutsAt ext (c :: s) ∧ ¬ RejectsAt ext (c :: s)) :
    Guarded ext (c :: s) ↔ Guarded ext s := by
  have hcut : c = '%' → ¬ CutsAt ext ('%' :: s) := fun hc => by simpa [hc] using (hgo hc).1
  have hrej : c = '%' → ¬ RejectsAt ext ('%' :: s) := fun hc => by simpa [hc] using (hgo hc).2
  -- what guards an occurrence in the rest stands in the rest
  have hguard : ∀ n, (∃ a t, c :: s = a ++ '%' :: t ∧ a.length < n + 1 ∧ RejectsAt ext ('%' :: t)) ↔
      ∃ a t, s = a ++ '%' :: t ∧ a.length < n ∧ RejectsAt ext ('%' :: t) := by
    intro n
    rw [exists_occurrence_cons]
    simp only [List.length_cons, Nat.add_lt_add_iff_right]
    exact or_iff_right fun h => hrej h.1 h.2.2
  unfold Guarded
  rw [forall_occurrence_cons]
  simp only [List.length_cons, hguard]
  exact and_iff_right fun hc h => absurd h (hcut hc)

/-- The scan ends without a panic exactly on the guarded paths. -/
theorem scanEscapes_ne_panicked {s : Text} :
    scanEscapes ext s ≠ .panicked ↔ Guarded ext s := by
  induction s with
  | nil => exact iff_of_true (by simp [scanEscapes]) guarded_nil
  | cons c s ih =>
    by_cases hc : c = '%'
    · subst hc
      by_cases hcut : CutsAt ext ('%' :: s)
      · -- nothing comes before this one
        refine iff_of_false (fun h => h (scanEscapes_cuts hcut)) fun h => ?_
        obtain ⟨a', t', -, hlt, -⟩ := h [] s rfl hcut
        simp at hlt
      · by_cases hrej : RejectsAt ext ('%' :: s)
        · obtain ⟨reason, hr⟩ := scanEscapes_rejects hrej
          refine iff_of_true (by simp [hr]) (forall_occurrence_cons.mpr ⟨fun _ h => ?_, ?_⟩)
          · exact absurd h hcut
          · intro a t _ _
            exact ⟨[], s, rfl, by simp, hrej⟩
        · rw [scanEscapes_passes hcut hrej, ih, guarded_cons fun _ => ⟨hcut, hrej⟩]
    · rw [scanEscapes_other hc, ih, guarded_cons fun h => absurd h hc]

/-- **The validation returns** exactly on the paths that are rejected before the scan, and on those
where every slice that would cut a character comes after a rejected escape. -/
theorem validateUri_returns_iff (ext : External) (s : Text) :
    validateUri ext s ≠ .panicked ↔ RejectedBySubstring ext s ∨ Guarded ext s := by
  rw [Ne, validateUri_eq_panicked, not_and_or, not_not, ← scanEscapes_ne_panicked]

/-- A two-byte character right after the first digit of an escape. -/
theorem validateUri_panics : ¬ ∀ s : Text, validateUri .sample s ≠ .panicked :=
  fun h => h "/%aé".toList (by decide +kernel)

end Flexd
