import Flexd.Lib.Text

/-!
# Numerals

Numbers are read back from the digits they are written in, in every base up to
16, and by the parser of ports.
-/

namespace Flexd.Lib

variable {b : Nat}

theorem digitsFrom_append (acc : Nat) (s t : Text) :
    digitsFrom b acc (s ++ t) = (digitsFrom b acc s).bind fun n => digitsFrom b n t := by
  induction s generalizing acc with
  | nil => rfl
  | cons c s ih =>
    simp only [List.cons_append, digitsFrom]
    split
    · exact ih _
    · rfl

/-- **Numerals**: a number is read back from its digits. -/
theorem digits_toDigits (h1 : 1 < b) (hb : b ≤ 16) (n : Nat) :
    digits b (Nat.toDigits b n) = some n := by
  induction n using Nat.strongRecOn with
  | ind n ih =>
    have hlast : ∀ acc k, k < b → digitsFrom b acc [Nat.digitChar k] = some (acc * b + k) := by
      intro acc k hk
      simp only [digitsFrom, digitVal_digitChar hb hk]
    rw [Nat.toDigits_eq_if h1]
    split
    · next hlt => rw [digits, hlast 0 n hlt, Nat.zero_mul, Nat.zero_add]
    · next hge =>
      have hread : digitsFrom b 0 (Nat.toDigits b (n / b)) = some (n / b) :=
        ih (n / b) (Nat.div_lt_self (by omega) h1)
      rw [digits, digitsFrom_append, hread, Option.bind_some, hlast _ _ (Nat.mod_lt n (by omega)),
        Nat.div_add_mod']

/-- Numbers are written in digits of their own base. -/
theorem digitVal_toDigits (h1 : 1 < b) (hb : b ≤ 16) {n : Nat} :
    ∀ c ∈ Nat.toDigits b n, (digitVal b c).isSome = true :=
  digitVal_of_digitsFrom (digits_toDigits h1 hb n)

theorem digitVal_of_mem_toDigits (h1 : 1 < b) (hb : b ≤ 16) {n : Nat} {c : Char}
    (hc : c ∈ Nat.toDigits b n) : (digitVal 16 c).isSome = true :=
  digitVal_isSome_mono hb (digitVal_toDigits h1 hb c hc)

/-- Only zero starts with a zero. -/
theorem head?_toDigits (h1 : 1 < b) (hb : b ≤ 16) {n : Nat} (hn : n ≠ 0) :
    (Nat.toDigits b n).head? ≠ some '0' := by
  induction n using Nat.strongRecOn with
  | ind n ih =>
    rw [Nat.toDigits_eq_if h1]
    split
    · next hlt =>
      intro hzero
      have hval := digitVal_digitChar hb hlt
      rw [Option.some.inj hzero] at hval
      have h0 := digitVal_digitChar (n := 0) hb (by omega)
      exact hn (Option.some.inj (hval.symm.trans h0))
    · next hge =>
      rw [List.head?_append_of_ne_nil _ Nat.toDigits_ne_nil]
      exact ih (n / b) (Nat.div_lt_self (by omega) h1)
        (Nat.ne_of_gt (Nat.div_pos (Nat.le_of_not_lt hge) (by omega)))

theorem parseUnsigned_decimal {bound n : Nat} (h : n < bound) :
    parseUnsigned 10 bound (decimal n) = some n := by
  have hplus : (decimal n).head? ≠ some '+' := by
    intro hhead
    have hdigit := digitVal_toDigits (b := 10) (by decide) (by decide) '+'
      (List.mem_of_mem_head? hhead)
    cases hdigit
  simp only [parseUnsigned, if_neg hplus]
  have hread : digits 10 (decimal n) = some n := digits_toDigits (by decide) (by decide) n
  rw [if_neg (show decimal n ≠ [] from Nat.toDigits_ne_nil), hread]
  exact if_pos h

theorem parseU16_decimal (p : UInt16) : parseU16 (decimal p.toNat) = some p := by
  rw [parseU16, parseUnsigned_decimal p.toNat_lt, Option.map_some, UInt16.ofNat_toNat]

end Flexd.Lib
