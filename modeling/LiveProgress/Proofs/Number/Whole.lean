import LiveProgress.Proofs.Number.Significant
import Mathlib.Data.List.TakeWhile

/-!
# Whole numbers

Natural numbers of at most 53 bits are numbers of the message format, nothing else rounds to
them, and their text is the decimal one.
-/

namespace LiveProgress.Number

/-! ### Comparisons -/

/-- Nothing else is rounded to a natural number of at most 53 bits. -/
theorem eq_of_ofNat {m n : Nat} (hn : n < significandBound) {hr : Representable n}
    (h : ofNat m = .finite n hr) : m = n := by
  have hbound : Representable significandBound :=
    ⟨1, 53, by rw [significandBound_cast]; norm_num, by decide, by decide, by decide⟩
  by_cases hm : m < significandBound
  · rw [ofNat_eq_finite hm] at h
    exact_mod_cast finite.inj h
  · have hmono : ofRat significandBound ≤ ofNat m :=
      ofRat_mono (by exact_mod_cast Nat.le_of_not_lt hm)
    rw [ofRat_of_representable hbound, h, finite_le_finite] at hmono
    have hle : significandBound ≤ n := by exact_mod_cast hmono
    omega

theorem beq_zero (n : Nat) : (ofNat n).beq 0 = decide (n = 0) := by
  have hzero : (0 : Number) = finite (0 : Nat) _ := zero_eq_finite
  have hequal : ofNat n = 0 ↔ n = 0 := by
    constructor
    · intro h
      exact eq_of_ofNat (by decide) (h.trans hzero)
    · rintro rfl
      rfl
  have hdecide : (ofNat n).beq 0 = decide (ofNat n = 0) := by
    have hdefined : ofNat n ≠ undefined := ofRat_ne_undefined n
    rw [hzero]
    generalize ofNat n = x at hdefined
    cases x with
    | undefined => exact absurd rfl hdefined
    | infinite s => rfl
    | finite q hr => rfl
  rw [hdecide, decide_eq_decide, hequal]

theorem ofNat_lt_ofNat {m n : Nat} (hm : m < significandBound) (hn : n < significandBound) :
    ofNat m < ofNat n ↔ m < n := by
  rw [ofNat_eq_finite hm, ofNat_eq_finite hn, finite_lt_finite, Nat.cast_lt]

/-! ### Decimals -/

theorem toDigits_mul_pow {n : Nat} (h : n ≠ 0) (j : Nat) :
    Nat.toDigits 10 (n * 10 ^ j) = Nat.toDigits 10 n ++ List.replicate j '0' := by
  induction j with
  | zero => simp
  | succ j ih =>
    have hpos : 0 < n * 10 ^ j := Nat.mul_pos (Nat.pos_of_ne_zero h) (Nat.pow_pos (by decide))
    have hlast : n * 10 ^ (j + 1) = 10 * (n * 10 ^ j) + 0 := by
      rw [Nat.pow_succ, Nat.add_zero, ← Nat.mul_assoc, Nat.mul_comm]
    rw [hlast, ← Nat.toDigits_append_toDigits (by decide) hpos (by decide), ih,
      List.append_assoc, Nat.toDigits_zero, List.replicate_succ']

theorem floorLog10_natCast {n : Nat} (h : n ≠ 0) :
    floorLog10 n = (Nat.toDigits 10 n).length - 1 := by
  obtain ⟨i, hi⟩ := Nat.exists_eq_succ_of_ne_zero (Nat.length_toDigits_pos (b := 10) (n := n)).ne'
  have hle : ((10 ^ i : Nat) : Rat) ≤ n := by exact_mod_cast ten_pow_le_of_length h hi
  have hlt : (n : Rat) < ((10 ^ (i + 1) : Nat) : Rat) := by exact_mod_cast lt_ten_pow_of_length hi
  rw [floorLog10_eq (k := i)]
  · omega
  · rw [zpow_natCast]
    exact_mod_cast hle
  · rw [← Nat.cast_succ, zpow_natCast]
    exact_mod_cast hlt

/-- Zeros that are cut off the end of digits can be put back. -/
theorem exists_zeros (digits : List Char) :
    ∃ k, digits = (digits.reverse.dropWhile (· == '0')).reverse ++ List.replicate k '0' := by
  have hzeros : digits.reverse.takeWhile (· == '0') =
      List.replicate (digits.reverse.takeWhile (· == '0')).length '0' := by
    apply List.eq_replicate_iff.mpr
    refine ⟨rfl, ?_⟩
    intro c hc
    simpa using List.mem_takeWhile_imp hc
  refine ⟨(digits.reverse.takeWhile (· == '0')).length, ?_⟩
  rw [← List.reverse_replicate, ← hzeros, ← List.reverse_append, List.takeWhile_append_dropWhile,
    List.reverse_reverse]

/-- A whole decimal of at most 21 digits is written with all of them. -/
theorem Decimal.text_of_mul_eq {d : Decimal} {j n : Nat} (hj : d.exponent = j)
    (hd : d.digits * 10 ^ j = n) (hn : n ≠ 0) (hlength : (Nat.toDigits 10 n).length ≤ 21) :
    d.text = toString n := by
  have hdigits : d.digits ≠ 0 := by
    intro hzero
    rw [hzero, Nat.zero_mul] at hd
    exact hn hd.symm
  have hall : Nat.toDigits 10 n = Nat.toDigits 10 d.digits ++ List.replicate j '0' := by
    rw [← hd, toDigits_mul_pow hdigits]
  have hplaces : (Nat.toDigits 10 d.digits).length + j ≤ 21 := by
    rw [hall, List.length_append, List.length_replicate] at hlength
    exact hlength
  have hpos : 0 < (Nat.toDigits 10 d.digits).length := Nat.length_toDigits_pos
  obtain ⟨k, hk⟩ := exists_zeros (Nat.toDigits 10 d.digits)
  have hcut := congrArg List.length hk
  rw [List.length_append, List.length_replicate] at hcut
  rw [Nat.toString_eq_ofList_toDigits, hall]
  simp only [Decimal.text, hj, layout]
  rw [if_neg (by omega), if_neg (by omega)]
  generalize ((Nat.toDigits 10 d.digits).reverse.dropWhile (· == '0')).reverse = digits at *
  have hnat : (((Nat.toDigits 10 d.digits).length : Int) + (j : Int)).toNat =
      digits.length + (k + j) := by omega
  rw [hnat, List.take_of_length_le (by omega), List.drop_eq_nil_of_le (by omega),
    Nat.add_sub_cancel_left, List.isEmpty_nil, if_pos rfl, hk, List.append_assoc,
    List.replicate_append_replicate]

theorem Decimal.toRat_of_natCast {d : Decimal} {j : Nat} (hj : d.exponent = j) :
    d.toRat = ((d.digits * 10 ^ j : Nat) : Rat) := by
  rw [toRat, hj, Rat.zpow_natCast, Rat.natCast_mul, Rat.natCast_pow]
  rfl

theorem Decimal.readsAs_natCast {d : Decimal} {j n : Nat} (hj : d.exponent = j)
    (hn : n < significandBound) : d.readsAs n = true ↔ d.digits * 10 ^ j = n := by
  have hnat : ofRat d.toRat = ofNat (d.digits * 10 ^ j) := by
    rw [toRat_of_natCast hj]
    rfl
  constructor
  · intro h
    unfold readsAs at h
    split at h
    · rename_i value hr hvalue
      obtain rfl : value = n := by simpa using h
      rw [hnat] at hvalue
      exact eq_of_ofNat hn hvalue
    · cases h
  · intro h
    rw [readsAs, hnat, h, ofNat_eq_finite hn]
    exact beq_self_eq_true _

/-! ### Text -/

/-- The decimals that are tried with a count of digits are the two on both sides of the number. -/
theorem Decimal.of_ofCount?_eq_some {q : Rat} {count : Nat} {d : Decimal}
    (h : Decimal.ofCount? q count = some d) :
    d.exponent = floorLog10 q + 1 - count ∧
      (d.digits = (q / 10 ^ (floorLog10 q + 1 - count)).floor.toNat ∨
        d.digits = (q / 10 ^ (floorLog10 q + 1 - count)).floor.toNat + 1) ∧
      d.readsAs q = true := by
  have hread : d.readsAs q = true := List.find?_some (p := fun e : Decimal => e.readsAs q) h
  have hmem := List.mem_of_find?_eq_some h
  split at hmem
  all_goals
    simp only [List.mem_cons, List.not_mem_nil, or_false] at hmem
    rcases hmem with rfl | rfl
    all_goals simp [hread]

/-- The shortest decimal has no more digits than another one that is found. -/
theorem Decimal.exists_ofCount?_shortest {q : Rat} {count : Nat} (hpos : 0 < count)
    (hle : count ≤ 17) (h : (Decimal.ofCount? q count).isSome = true) :
    ∃ c, 0 < c ∧ c ≤ count ∧ Decimal.ofCount? q c = some (shortest q) := by
  have hsplit : List.range' 1 17 = List.range' 1 count ++ List.range' (1 + count) (17 - count) := by
    rw [List.range'_append_1]
    congr 1
    omega
  have hsome : ((List.range' 1 count).findSome? (ofCount? q)).isSome = true := by
    rw [List.findSome?_isSome_iff]
    refine ⟨count, ?_, h⟩
    rw [List.mem_range'_1]
    omega
  obtain ⟨d, hd⟩ := Option.isSome_iff_exists.mp hsome
  have hshortest : shortest q = d := by
    rw [shortest, hsplit, List.findSome?_append, hd]
    rfl
  obtain ⟨c, hc, hfound⟩ := List.exists_of_findSome?_eq_some hd
  rw [List.mem_range'_1] at hc
  rw [hshortest]
  exact ⟨c, by omega, by omega, hfound⟩

/-- With all of its digits a number is found. -/
theorem Decimal.isSome_ofCount? {n : Nat} (hn : n ≠ 0) (h : n < significandBound) :
    (Decimal.ofCount? n (Nat.toDigits 10 n).length).isSome = true := by
  have hexponent : floorLog10 n + 1 - (Nat.toDigits 10 n).length = ((0 : Nat) : Int) := by
    rw [floorLog10_natCast hn]
    omega
  have hfloor : ((n : Rat) / 10 ^ ((0 : Nat) : Int)).floor.toNat = n := by
    have hone : (n : Rat) / 10 ^ ((0 : Nat) : Int) = ((n : Int) : Rat) := by
      rw [Rat.intCast_natCast, Int.natCast_zero, Rat.zpow_zero]
      grind
    rw [hone, Rat.floor_intCast, Int.toNat_natCast]
  have hread : (⟨n, ((0 : Nat) : Int)⟩ : Decimal).readsAs n = true :=
    (readsAs_natCast rfl h).mpr (by rw [Nat.pow_zero, Nat.mul_one])
  apply List.find?_isSome.mpr
  refine ⟨⟨n, ((0 : Nat) : Int)⟩, ?_, hread⟩
  simp only [hexponent, hfloor]
  split
  · exact List.mem_cons_self
  · exact List.mem_cons_of_mem _ List.mem_cons_self

/-- The shortest decimal of a natural number is whole. -/
theorem Decimal.shortest_natCast {n : Nat} (hn : n ≠ 0) (h : n < significandBound) :
    ∃ j : Nat, (shortest n).exponent = j ∧ (shortest n).digits * 10 ^ j = n := by
  have hlength : (Nat.toDigits 10 n).length ≤ 17 := by
    rw [Nat.length_toDigits_le_iff (by decide) (by decide)]
    exact Nat.lt_trans h (by decide)
  obtain ⟨count, -, hle, hfound⟩ :=
    exists_ofCount?_shortest Nat.length_toDigits_pos hlength (isSome_ofCount? hn h)
  obtain ⟨hexponent, -, hread⟩ := of_ofCount?_eq_some hfound
  have hplaces : floorLog10 n + 1 - count = ((Nat.toDigits 10 n).length - count : Nat) := by
    rw [floorLog10_natCast hn]
    omega
  rw [hplaces] at hexponent
  exact ⟨_, hexponent, (readsAs_natCast hexponent h).mp hread⟩

theorem text_ofNat {n : Nat} (h : n < significandBound) : (ofNat n).text = toString n := by
  rw [ofNat_eq_finite h]
  rcases Nat.eq_zero_or_pos n with rfl | hpos
  · rfl
  · have hn : n ≠ 0 := by omega
    have hne : (n : Rat) ≠ 0 := mt Rat.natCast_eq_zero_iff.mp hn
    have hsign : ¬ (n : Rat) < 0 := Rat.not_lt.mpr Rat.natCast_nonneg
    have hlength : (Nat.toDigits 10 n).length ≤ 21 := by
      rw [Nat.length_toDigits_le_iff (by decide) (by decide)]
      exact Nat.lt_trans h (by decide)
    obtain ⟨j, hj, hd⟩ := Decimal.shortest_natCast hn h
    rw [text, if_neg hne, if_neg hsign, Rat.abs_of_nonneg Rat.natCast_nonneg,
      Decimal.text_of_mul_eq hj hd hn hlength, String.empty_append]

end LiveProgress.Number
