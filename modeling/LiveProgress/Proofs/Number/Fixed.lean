import LiveProgress.Proofs.Number.Integer

/-!
# Natural numbers that are not rounded

A natural number that is a number itself is rounded to itself, however many bits it has. What a
natural number is rounded to is one again, so neither cutting off its fraction nor its sign
changes it.
-/

namespace LiveProgress.Number

/-- A natural number that is a number itself is not rounded. -/
theorem ofNat_of_representable {n : Nat} (hr : Representable n) : ofNat n = .finite n hr :=
  ofRat_of_representable hr

theorem ofNat_nonneg (n : Nat) : 0 ≤ ofNat n := by
  rw [zero_eq_ofRat]
  exact ofRat_mono (Nat.cast_nonneg n)

theorem not_ofNat_neg (n : Nat) : ¬ ofNat n < 0 := Number.not_lt_of_le (ofNat_nonneg n)

theorem not_infinite_ofNat (n : Nat) : ofNat n ≠ .infinite true := by
  intro h
  have hnonneg := ofNat_nonneg n
  rw [h, zero_eq_finite, finite_le_infinite] at hnonneg
  exact absurd hnonneg (by decide)

/-- Natural numbers are rounded to natural numbers. -/
theorem exists_natCast_of_ofNat {n : Nat} {q : Rat} {hr : Representable q}
    (h : ofNat n = .finite q hr) : ∃ k : Nat, q = k := by
  have hinteger := isInteger_ofInt n
  have hvalue : ofInt n = .finite q hr := h
  rw [hvalue] at hinteger
  obtain ⟨k, hk, heq⟩ := exists_of_isInteger hinteger
  obtain rfl := finite.inj heq
  have hnonneg := ofNat_nonneg n
  rw [h, zero_le_finite] at hnonneg
  obtain ⟨k, rfl⟩ := Int.eq_ofNat_of_zero_le (a := k) (by exact_mod_cast hnonneg)
  exact ⟨k, Int.cast_natCast k⟩

theorem not_natCast_neg (n : Nat) : ¬ (n : Rat) < 0 := Rat.not_lt.mpr Rat.natCast_nonneg

theorem trunc_ofNat (n : Nat) : (ofNat n).trunc = ofNat n := by
  cases h : ofNat n with
  | finite q hr =>
    obtain ⟨k, rfl⟩ := exists_natCast_of_ofNat h
    have hfloor : (k : Rat).floor = (k : Int) := Rat.floor_intCast k
    calc (finite k hr).trunc = ofRat (if (k : Rat) < 0 then (k : Rat).ceil else (k : Rat).floor) :=
          rfl
      _ = ofNat k := by rw [if_neg (not_natCast_neg k), hfloor, Rat.intCast_natCast]; rfl
      _ = finite k hr := ofNat_of_representable hr
  | infinite negative => rfl
  | undefined => rfl

theorem abs_ofNat (n : Nat) : (ofNat n).abs = ofNat n := by
  cases h : ofNat n with
  | finite q hr =>
    obtain ⟨k, rfl⟩ := exists_natCast_of_ofNat h
    calc (finite k hr).abs = ofRat (k : Rat).abs := rfl
      _ = ofNat k := by rw [Rat.abs_of_nonneg Rat.natCast_nonneg]; rfl
      _ = finite k hr := ofNat_of_representable hr
  | infinite negative =>
    cases negative with
    | true => exact absurd h (not_infinite_ofNat n)
    | false => rfl
  | undefined => rfl

end LiveProgress.Number
