import LiveProgress.Proofs.Number.Characters
import LiveProgress.Proofs.Number.Integer
import LiveProgress.Proofs.Number.Significant
import LiveProgress.Proofs.Text.Units

/-!
# How long numbers are written

The exponents of numbers have bounds, and so have the digits of their texts. Whatever a number is,
its text is far shorter than the longest one.
-/

namespace LiveProgress.Number

variable {q : Rat}

/-! ### Exponents -/

/-- A positive number is not below the least power of two that is one. -/
theorem le_of_representable (h : Representable q) (hpos : 0 < q) :
    (2 : Rat) ^ (-1074 : Int) ≤ q := by
  obtain ⟨m, e, rfl, _, he, _⟩ := h
  have hm : (1 : Rat) ≤ m := by
    have hsign : (0 : Rat) < m := pos_of_mul_pos_left hpos (two_zpow_pos e).le
    exact_mod_cast hsign
  calc (2 : Rat) ^ (-1074 : Int) ≤ 2 ^ e := two_zpow_le he
    _ = 1 * 2 ^ e := (one_mul _).symm
    _ ≤ m * 2 ^ e := mul_le_mul_of_nonneg_right hm (two_zpow_pos e).le

theorem natAbs_floorLog10_le (h : Representable q) (hpos : 0 < q) :
    (floorLog10 q).natAbs ≤ 400 := by
  have hpowers : (10 : Rat) ^ (-324 : Int) ≤ 2 ^ (-1074 : Int) ∧
      magnitudeBound ≤ (10 : Rat) ^ (309 : Int) := by decide +kernel
  obtain ⟨hlow, hhigh⟩ := floorLog10_spec hpos
  have hbelow : q < 10 ^ (309 : Int) :=
    ((le_abs_self q).trans_lt (abs_lt_of_representable h)).trans_le hpowers.2
  have habove := (hpowers.1.trans (le_of_representable h hpos)).trans_lt hhigh
  have := ten_zpow_lt_iff.mp (hlow.trans_lt hbelow)
  have := ten_zpow_lt_iff.mp habove
  omega

/-! ### Digits -/

theorem toNat_floor_lt {n : Nat} (hn : 0 < n) (h : q < n) : q.floor.toNat < n := by
  have hlt : q.floor < (n : Int) := by exact_mod_cast (Rat.floor_le q).trans_lt h
  exact (Int.toNat_lt' hn).mpr hlt

namespace Decimal

/-- Decimals with few digits and an exponent that is not great. -/
structure IsModerate (d : Decimal) : Prop where
  digits : (Nat.toDigits 10 d.digits).length ≤ 310
  exponent : d.exponent.natAbs ≤ 420

theorem isModerate_of_ofCount? (h : Representable q) (hpos : 0 < q) {count : Nat}
    (hcount : count ≤ 17) {d : Decimal} (hd : ofCount? q count = some d) : d.IsModerate := by
  have hexponent := natAbs_floorLog10_le h hpos
  have hfloor := toNat_floor_lt (Nat.pow_pos (by decide)) (shifted_lt hpos count)
  have hpow : 10 ^ count + 1 < 10 ^ 18 :=
    Nat.lt_of_le_of_lt (Nat.succ_le_succ (Nat.pow_le_pow_right (by decide) hcount)) (by decide)
  have hsides : ∀ n, n ≤ (q / 10 ^ (floorLog10 q + 1 - count)).floor.toNat + 1 →
      IsModerate ⟨n, floorLog10 q + 1 - count⟩ := by
    intro n hn
    have hdigits := (Nat.length_toDigits_le_iff (b := 10) (k := 18) (by decide) (by decide)).mpr
      (by omega : n < 10 ^ 18)
    exact ⟨hdigits.trans (by decide), by dsimp only; omega⟩
  have hmem := List.mem_of_find?_eq_some hd
  split at hmem <;> simp only [List.mem_cons, List.not_mem_nil, or_false] at hmem <;>
    rcases hmem with rfl | rfl
  all_goals exact hsides _ (by omega)

theorem isModerate_shortest (h : Representable q) (hpos : 0 < q) : (shortest q).IsModerate := by
  unfold shortest
  cases hfound : (List.range' 1 17).findSome? (ofCount? q) with
  | some d =>
    obtain ⟨count, hcount, hd⟩ := List.exists_of_findSome?_eq_some hfound
    rw [List.mem_range'_1] at hcount
    exact isModerate_of_ofCount? h hpos (by omega) hd
  | none =>
    obtain ⟨k, hk, hmost, hbound⟩ :
        ∃ k, 0 < k ∧ k ≤ 310 ∧ magnitudeBound ≤ ((10 ^ k : Nat) : Rat) :=
      ⟨309, by decide, by decide, by decide +kernel⟩
    have hfloor := toNat_floor_lt (Nat.pow_pos (by decide))
      (((le_abs_self q).trans_lt (abs_lt_of_representable h)).trans_le hbound)
    have hdigits := (Nat.length_toDigits_le_iff (by decide) hk).mpr hfloor
    exact ⟨hdigits.trans hmost, Nat.zero_le _⟩

theorem length_pointed_le (whole fraction : List Char) :
    (pointed whole fraction).length ≤ whole.length + fraction.length + 1 := by
  unfold pointed
  split
  · omega
  · simp only [List.length_append, List.length_cons]
    omega

theorem IsModerate.length_text_le {d : Decimal} (h : d.IsModerate) :
    d.text.toList.length ≤ 1999 := by
  have hall := h.digits
  have hexponent := h.exponent
  unfold text
  dsimp only
  have hdigits : ((Nat.toDigits 10 d.digits).reverse.dropWhile (· == '0')).reverse.length ≤
      (Nat.toDigits 10 d.digits).length := by
    have hdrop :=
      (List.dropWhile_suffix (· == '0') (l := (Nat.toDigits 10 d.digits).reverse)).length_le
    rwa [List.length_reverse] at hdrop ⊢
  generalize ((Nat.toDigits 10 d.digits).reverse.dropWhile (· == '0')).reverse = digits at hdigits
  generalize (Nat.toDigits 10 d.digits).length = count at *
  have hpointed (whole fraction : List Char) :
      (if fraction.isEmpty then whole else whole ++ '.' :: fraction).length ≤
        whole.length + fraction.length + 1 := length_pointed_le whole fraction
  split
  case isTrue =>
    have hparts := hpointed (digits.take 1) (digits.drop 1)
    have hlast : (Nat.toDigits 10 ((count : Int) + d.exponent - 1).natAbs).length ≤ 3 :=
      (Nat.length_toDigits_le_iff (by decide) (by decide)).mpr (by omega)
    have hmark (e : Int) : (if e < 0 then "e-" else "e+").toList.length = 2 := by
      split <;> rfl
    rw [List.length_take, List.length_drop] at hparts
    rw [String.toList_append, String.toList_append, Nat.toString_eq_ofList_toDigits,
      String.toList_ofList, String.toList_ofList, List.length_append, List.length_append, hmark]
    omega
  case isFalse hplain =>
    have hplaces : layout.leastPlaces = -5 ∧ layout.greatestPlaces = 21 := ⟨rfl, rfl⟩
    split
    · have hparts := hpointed ['0']
        (List.replicate (-((count : Int) + d.exponent)).toNat '0' ++ digits)
      rw [List.length_append, List.length_replicate, List.length_singleton] at hparts
      rw [String.toList_ofList]
      omega
    · have hparts := hpointed
        (digits.take ((count : Int) + d.exponent).toNat ++
          List.replicate (((count : Int) + d.exponent).toNat - digits.length) '0')
        (digits.drop ((count : Int) + d.exponent).toNat)
      rw [List.length_append, List.length_replicate, List.length_take, List.length_drop] at hparts
      rw [String.toList_ofList]
      omega

end Decimal

/-! ### Texts -/

theorem length_text_le (x : Number) : x.text.toList.length ≤ 2000 := by
  cases x with
  | undefined => decide
  | infinite s => cases s <;> decide
  | finite q hr =>
    simp only [text]
    split
    case isTrue => decide
    case isFalse hne =>
      have hpos : 0 < |q| := abs_pos.mpr hne
      have habs : Representable |q| := by
        rcases abs_choice q with h | h
        · rwa [h]
        · rw [h]
          exact representable_neg hr
      have hdecimal := (Decimal.isModerate_shortest habs hpos).length_text_le
      have hsign : (if q < 0 then "-" else "").toList.length ≤ 1 := by
        split <;> decide
      rw [String.toList_append, List.length_append]
      rw [rat_abs_eq]
      omega

theorem toNat_lt_of_mem_text (x : Number) : ∀ c ∈ x.text.toList, c.toNat < 0x10000 := by
  cases x with
  | undefined => decide
  | infinite s => cases s <;> decide
  | finite q hr =>
    intro c hc
    rcases isFigure_of_mem_text (x := finite q hr) rfl hc with hdigit | hother
    · exact Nat.lt_of_le_of_lt (isNear_of_isDigit hdigit).2 (by decide)
    · have hall : ∀ c ∈ ['.', 'e', '+', '-'], c.toNat < 0x10000 := by decide
      exact hall c hother

/-- The text of a number is not too long for a text. -/
theorem width_text_le (x : Number) : Text.width x.text.toList ≤ 2000 :=
  (Text.width_eq_length x.toNat_lt_of_mem_text).trans_le x.length_text_le

end LiveProgress.Number
