import LiveProgress.Number.Reading
import Mathlib.Algebra.Order.Field.Rat
import Mathlib.Data.Char
import Mathlib.Data.List.Lex

/-!
# Decimal digits

Digits of the same count are ordered as the numbers they stand for, and digits that do not begin
with a zero stand for a number that needs all of them.
-/

namespace LiveProgress.Number

variable {c d : Char} {digits a b : List Char}

theorem digitValue_lt (h : c.isDigit = true) : digitValue c < 10 := by
  obtain ⟨hlow, hhigh⟩ := Char.isDigit_iff_toNat.mp h
  have hlow : 48 ≤ c.toNat := hlow
  have hhigh : c.toNat ≤ 57 := hhigh
  have hvalue : digitValue c = c.toNat - 48 := rfl
  omega

theorem lt_iff_digitValue_lt (h : c.isDigit = true) : c < d ↔ digitValue c < digitValue d := by
  obtain ⟨hlow, -⟩ := Char.isDigit_iff_toNat.mp h
  have hlow : 48 ≤ c.toNat := hlow
  have hlt : c < d ↔ c.toNat < d.toNat := UInt32.lt_iff_toNat_lt
  have hleft : digitValue c = c.toNat - 48 := rfl
  have hright : digitValue d = d.toNat - 48 := rfl
  rw [hlt, hleft, hright]
  omega

theorem digitValue_pos (h : c.isDigit = true) (hzero : c ≠ '0') : 0 < digitValue c := by
  obtain ⟨hlow, -⟩ := Char.isDigit_iff_toNat.mp h
  have hlow : 48 ≤ c.toNat := hlow
  have hcode : c.toNat ≠ 48 := fun hcode => hzero (Char.toNat_inj.mp hcode)
  have hvalue : digitValue c = c.toNat - 48 := rfl
  omega

theorem digitsValue_cons (c : Char) (digits : List Char) :
    digitsValue (c :: digits) = 10 ^ digits.length * digitValue c + digitsValue digits := by
  have hfold : digitsValue (c :: digits) = Nat.ofDigitChars 10 digits (10 * 0 + digitValue c) := rfl
  rw [hfold, Nat.ofDigitChars_eq_ofDigitChars_zero, Nat.mul_zero, Nat.zero_add]
  rfl

/-- What a digit adds outweighs all digits behind it. -/
theorem weighted_lt {count p q r s : Nat} (h : p < q) (hr : r < 10 ^ count) :
    10 ^ count * p + r < 10 ^ count * q + s := by
  calc 10 ^ count * p + r < 10 ^ count * p + 10 ^ count := Nat.add_lt_add_left hr _
    _ = 10 ^ count * (p + 1) := by rw [Nat.mul_add_one]
    _ ≤ 10 ^ count * q := Nat.mul_le_mul_left _ h
    _ ≤ 10 ^ count * q + s := Nat.le_add_right _ _

theorem digitsValue_lt (h : ∀ c ∈ digits, c.isDigit = true) :
    digitsValue digits < 10 ^ digits.length := by
  induction digits with
  | nil => decide
  | cons c digits ih =>
    have hrest := ih fun d hd => h d (List.mem_cons_of_mem c hd)
    have hdigit := digitValue_lt (h c List.mem_cons_self)
    rw [digitsValue_cons, List.length_cons, Nat.pow_succ]
    exact weighted_lt (s := 0) hdigit hrest

theorem pow_le_digitsValue (h : c.isDigit = true) (hzero : c ≠ '0') (digits : List Char) :
    10 ^ digits.length ≤ digitsValue (c :: digits) := by
  rw [digitsValue_cons]
  exact Nat.le_add_right_of_le (Nat.le_mul_of_pos_right _ (digitValue_pos h hzero))

/-- Of digits of the same count, those that come first stand for the smaller number. -/
theorem lt_iff_digitsValue_lt (hlength : a.length = b.length) (ha : ∀ c ∈ a, c.isDigit = true)
    (hb : ∀ c ∈ b, c.isDigit = true) : a < b ↔ digitsValue a < digitsValue b := by
  induction a generalizing b with
  | nil =>
    obtain rfl := List.length_eq_zero_iff.mp hlength.symm
    exact iff_of_false (List.not_lt_nil _) (Nat.lt_irrefl _)
  | cons c a ih =>
    obtain ⟨d, b, rfl⟩ := List.exists_cons_of_length_eq_add_one hlength.symm
    obtain ⟨hc, ha⟩ := List.forall_mem_cons.mp ha
    obtain ⟨hd, hb⟩ := List.forall_mem_cons.mp hb
    have hlength : a.length = b.length := Nat.succ.inj hlength
    have hlt := digitsValue_lt ha
    rw [hlength] at hlt
    rw [List.cons_lt_cons_iff, ih hlength ha hb, digitsValue_cons, digitsValue_cons, hlength]
    rcases lt_trichotomy c d with hless | rfl | hgreater
    · have hvalue := (lt_iff_digitValue_lt hc).mp hless
      exact iff_of_true (.inl hless) (weighted_lt hvalue hlt)
    · simp
    · have hvalue := (lt_iff_digitValue_lt hd).mp hgreater
      refine iff_of_false ?_ (Nat.not_lt_of_lt (weighted_lt hvalue (digitsValue_lt hb)))
      rintro (hless | ⟨rfl, _⟩)
      · exact lt_asymm hless hgreater
      · exact lt_irrefl c hgreater

theorem digitsValue_inj (hlength : a.length = b.length) (ha : ∀ c ∈ a, c.isDigit = true)
    (hb : ∀ c ∈ b, c.isDigit = true) (h : digitsValue a = digitsValue b) : a = b := by
  rcases lt_trichotomy a b with hless | hsame | hgreater
  · exact absurd h (Nat.ne_of_lt ((lt_iff_digitsValue_lt hlength ha hb).mp hless))
  · exact hsame
  · exact absurd h (Nat.ne_of_gt ((lt_iff_digitsValue_lt hlength.symm hb ha).mp hgreater))

/-- A positive number does not begin with a zero. -/
theorem head_toDigits_ne_zero {n : Nat} (h : n ≠ 0) : ∀ c ∈ (Nat.toDigits 10 n).head?, c ≠ '0' := by
  induction n using Nat.strongRecOn with
  | ind n ih =>
    rcases Nat.lt_or_ge n 10 with hlt | hge
    · rw [Nat.toDigits_of_lt_base hlt]
      intro c hc hzero
      have hcode := Nat.toNat_digitChar_of_lt_ten hlt
      rw [Option.some.inj hc, hzero] at hcode
      have hvalue : 48 = 48 + n := hcode
      omega
    · have hrest : n / 10 ≠ 0 := by omega
      rw [Nat.toDigits_of_base_le (by decide) hge, List.head?_append,
        Option.or_of_isSome (List.isSome_head?.mpr Nat.toDigits_ne_nil)]
      exact ih (n / 10) (by omega) hrest

theorem digitChar_digitValue (h : c.isDigit = true) : Nat.digitChar (digitValue c) = c := by
  have hcode := Nat.toNat_digitChar_of_lt_ten (digitValue_lt h)
  obtain ⟨hlow, -⟩ := Char.isDigit_iff_toNat.mp h
  have hlow : 48 ≤ c.toNat := hlow
  have hvalue : digitValue c = c.toNat - 48 := rfl
  have hzero : '0'.toNat = 48 := rfl
  apply Char.toNat_inj.mp
  omega

/-- Digits behind those of a positive number are digits of a greater one. -/
theorem toDigits_append {n : Nat} (hn : 0 < n) (h : ∀ c ∈ digits, c.isDigit = true) :
    Nat.toDigits 10 n ++ digits = Nat.toDigits 10 (Nat.ofDigitChars 10 digits n) := by
  induction digits generalizing n with
  | nil => exact List.append_nil _
  | cons c digits ih =>
    obtain ⟨hc, hdigits⟩ := List.forall_mem_cons.mp h
    have hlt := digitValue_lt hc
    have hnext : Nat.toDigits 10 n ++ [c] = Nat.toDigits 10 (10 * n + digitValue c) := by
      rw [← Nat.toDigits_append_toDigits (by decide) hn hlt, Nat.toDigits_of_lt_base hlt,
        digitChar_digitValue hc]
    calc Nat.toDigits 10 n ++ c :: digits = (Nat.toDigits 10 n ++ [c]) ++ digits := by simp
      _ = Nat.toDigits 10 (10 * n + digitValue c) ++ digits := by rw [hnext]
      _ = Nat.toDigits 10 (Nat.ofDigitChars 10 digits (10 * n + digitValue c)) :=
        ih (by omega) hdigits

/-- Digits that do not begin with a zero are the digits of what they stand for. -/
theorem toDigits_digitsValue (h : ∀ d ∈ c :: digits, d.isDigit = true) (hzero : c ≠ '0') :
    Nat.toDigits 10 (digitsValue (c :: digits)) = c :: digits := by
  obtain ⟨hc, hdigits⟩ := List.forall_mem_cons.mp h
  have hvalue : digitsValue (c :: digits) = Nat.ofDigitChars 10 digits (10 * 0 + digitValue c) := rfl
  have hfirst : Nat.toDigits 10 (digitValue c) = [c] := by
    rw [Nat.toDigits_of_lt_base (digitValue_lt hc), digitChar_digitValue hc]
  rw [hvalue, Nat.mul_zero, Nat.zero_add, ← toDigits_append (digitValue_pos hc hzero) hdigits, hfirst]
  rfl

/-- Digits are those of a number, with zeros in front. -/
theorem exists_numeral (h : ∀ c ∈ digits, c.isDigit = true) (hne : digits ≠ []) :
    ∃ n : Numeral, n.digits = digits := by
  induction digits with
  | nil => exact absurd rfl hne
  | cons c digits ih =>
    by_cases hzero : c = '0'
    · subst hzero
      by_cases hlast : digits = []
      · exact ⟨{ value := 0 }, by rw [hlast]; rfl⟩
      · obtain ⟨n, hn⟩ := ih (fun d hd => h d (List.mem_cons_of_mem _ hd)) hlast
        exact ⟨{ n with zeros := n.zeros + 1 }, congrArg (List.cons '0') hn⟩
    · exact ⟨{ value := digitsValue (c :: digits) }, toDigits_digitsValue h hzero⟩

end LiveProgress.Number
