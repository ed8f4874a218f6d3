import LiveProgress.Proofs.Number.Rounding

/-!
# Order and arithmetic

The order of numbers, infinite ones included, and which operations keep it: all of them do that
keep it exactly, since rounding does.
-/

namespace LiveProgress.Number

variable {a b : Rat} {ha : Representable a} {hb : Representable b} {s t : Bool} {x y z k : Number}

/-! ### Comparisons -/

@[simp] theorem finite_lt_finite : finite a ha < finite b hb ↔ a < b := by
  change decide (a < b) = true ↔ a < b
  exact decide_eq_true_iff

@[simp] theorem finite_lt_infinite : finite a ha < infinite s ↔ s = false := by
  change (!s) = true ↔ s = false
  rw [Bool.not_eq_true']

@[simp] theorem infinite_lt_finite : infinite s < finite a ha ↔ s = true := Iff.rfl

@[simp] theorem infinite_lt_infinite : infinite s < infinite t ↔ s = true ∧ t = false := by
  change (s && !t) = true ↔ s = true ∧ t = false
  rw [Bool.and_eq_true, Bool.not_eq_true']

@[simp] theorem not_undefined_lt : ¬ undefined < x := Bool.false_ne_true

@[simp] theorem not_lt_undefined : ¬ x < undefined := by
  cases x <;> exact Bool.false_ne_true

theorem le_iff : x ≤ y ↔ x < y ∨ x = y ∧ x ≠ undefined := by
  change (lt x y || beq x y) = true ↔ lt x y = true ∨ _
  rw [Bool.or_eq_true]
  refine or_congr_right ?_
  cases x <;> cases y <;> simp [beq]

@[simp] theorem finite_le_finite : finite a ha ≤ finite b hb ↔ a ≤ b := by
  rw [le_iff, finite_lt_finite, le_iff_lt_or_eq]
  simp

@[simp] theorem finite_le_infinite : finite a ha ≤ infinite s ↔ s = false := by
  simp [le_iff]

@[simp] theorem infinite_le_finite : infinite s ≤ finite a ha ↔ s = true := by
  simp [le_iff]

@[simp] theorem infinite_le_infinite : infinite s ≤ infinite t ↔ s = true ∨ t = false := by
  rw [le_iff, infinite_lt_infinite]
  cases s <;> cases t <;> simp

@[simp] theorem not_undefined_le : ¬ undefined ≤ x := by
  simp [le_iff]

@[simp] theorem not_le_undefined : ¬ x ≤ undefined := by
  simp +contextual [le_iff]

protected theorem le_refl (h : x ≠ undefined) : x ≤ x := le_iff.mpr (.inr ⟨rfl, h⟩)

protected theorem le_trans (hxy : x ≤ y) (hyz : y ≤ z) : x ≤ z := by
  cases x <;> cases y <;> cases z <;> simp_all
  · exact hxy.trans hyz
  · rcases hxy with rfl | rfl
    · exact .inl rfl
    · exact .inr (by simpa using hyz)

instance : Trans (LE.le : Number → Number → Prop) LE.le LE.le := ⟨Number.le_trans⟩

protected theorem not_lt (hx : x ≠ undefined) (hy : y ≠ undefined) : ¬ x < y ↔ y ≤ x := by
  cases x <;> cases y <;> simp_all [imp_iff_or_not, or_comm]

protected theorem le_of_lt (h : x < y) : x ≤ y := le_iff.mpr (.inl h)

protected theorem lt_trans (hxy : x < y) (hyz : y < z) : x < z := by
  cases x <;> cases y <;> cases z <;> simp_all
  exact hxy.trans hyz

protected theorem lt_of_lt_of_le (hxy : x < y) (hyz : y ≤ z) : x < z := by
  rcases le_iff.mp hyz with hlt | ⟨rfl, -⟩
  · exact Number.lt_trans hxy hlt
  · exact hxy

protected theorem lt_of_le_of_lt (hxy : x ≤ y) (hyz : y < z) : x < z := by
  rcases le_iff.mp hxy with hlt | ⟨rfl, -⟩
  · exact Number.lt_trans hlt hyz
  · exact hyz

theorem ne_undefined_of_le (h : x ≤ y) : x ≠ undefined ∧ y ≠ undefined :=
  ⟨fun hx => not_undefined_le (hx ▸ h), fun hy => not_le_undefined (hy ▸ h)⟩

protected theorem not_lt_of_le (h : x ≤ y) : ¬ y < x :=
  (Number.not_lt (ne_undefined_of_le h).2 (ne_undefined_of_le h).1).mpr h

/-- The smaller of two numbers is below the first one only if the second one is. -/
theorem min_lt_left_iff (hx : x ≠ undefined) : x.min y < x ↔ y < x := by
  have hself : ¬ x < x := Number.not_lt_of_le (Number.le_refl hx)
  have hmin (hy : y ≠ undefined) : x.min y = if y < x then y else x := by
    cases x <;> cases y <;> first | contradiction | rfl
  by_cases hy : y = undefined
  · rw [hy]
    cases x <;> exact Iff.rfl
  · rw [hmin hy]
    split
    · rfl
    · rename_i hlt
      exact iff_of_false hself hlt

/-! ### Rounding -/

theorem ofRat_finite_or (q : Rat) :
    (∃ hr, ofRat q = finite (rounded q) hr) ∨
      magnitudeBound ≤ |rounded q| ∧ ofRat q = infinite (decide (q < 0)) := by
  rcases lt_or_ge |rounded q| magnitudeBound with h | h
  · exact .inl (ofRat_eq_finite h)
  · exact .inr ⟨h, ofRat_eq_infinite h⟩

theorem ofRat_ne_undefined (q : Rat) : ofRat q ≠ undefined := by
  rcases ofRat_finite_or q with ⟨hr, h⟩ | ⟨_, h⟩ <;> simp [h]

theorem le_infinite (h : x ≠ undefined) : x ≤ infinite false := by
  cases x <;> simp_all

theorem infinite_le (h : x ≠ undefined) : infinite true ≤ x := by
  cases x <;> simp_all

/-- What is rounded to an infinite number is beyond all numbers. -/
theorem magnitudeBound_le_rounded (h : 0 ≤ a) (habs : magnitudeBound ≤ |rounded a|) :
    magnitudeBound ≤ rounded a := by
  rwa [abs_of_nonneg (rounded_nonneg h)] at habs

theorem rounded_le_neg_magnitudeBound (h : a < 0) (habs : magnitudeBound ≤ |rounded a|) :
    rounded a ≤ -magnitudeBound := by
  have hneg := rounded_nonneg (q := -a) (by linarith)
  rw [rounded_neg] at hneg
  rw [abs_of_nonpos (by linarith)] at habs
  linarith

theorem ofRat_mono (h : a ≤ b) : ofRat a ≤ ofRat b := by
  have hmono := rounded_mono h
  rcases ofRat_finite_or a with ⟨har, hleft⟩ | ⟨hbeyond, hleft⟩
  · rw [hleft]
    rcases ofRat_finite_or b with ⟨hbr, hright⟩ | ⟨hbeyond, hright⟩
    · rw [hright, finite_le_finite]
      exact hmono
    · rw [hright, finite_le_infinite, decide_eq_false_iff_not]
      intro hb
      have hbelow := rounded_le_neg_magnitudeBound hb hbeyond
      have hfinite := (abs_lt.mp (abs_lt_of_representable har)).1
      linarith
  · rw [hleft]
    by_cases ha : a < 0
    · rw [decide_eq_true ha]
      exact infinite_le (ofRat_ne_undefined b)
    · have hlarge := magnitudeBound_le_rounded (not_lt.mp ha) hbeyond
      have hb : magnitudeBound ≤ |rounded b| := hlarge.trans (hmono.trans (le_abs_self _))
      have hsign : ¬ b < 0 := by linarith
      rw [ofRat_eq_infinite hb, decide_eq_false ha, decide_eq_false hsign]
      simp

/-- What is not greater than a number is rounded to a finite one. -/
theorem ofRat_of_abs_le (hb : Representable b) (h : |a| ≤ |b|) :
    ∃ hr, ofRat a = finite (rounded a) hr ∧ |rounded a| ≤ |b| := by
  have hle : |rounded a| ≤ |b| := by
    have hmono := rounded_mono h
    rwa [← abs_rounded, ← abs_rounded, rounded_of_representable hb] at hmono
  obtain ⟨hr, heq⟩ := ofRat_eq_finite (hle.trans_lt (abs_lt_of_representable hb))
  exact ⟨hr, heq, hle⟩

/-! ### Numerals -/

theorem representable_natCast {n : Nat} (h : n < significandBound) : Representable n :=
  ⟨n, 0, by simp, by simpa using h, by decide, by decide⟩

theorem representable_intCast {n : Int} (h : n.natAbs < significandBound) : Representable n :=
  ⟨n, 0, by simp, h, by decide, by decide⟩

theorem representable_neg (h : Representable a) : Representable (-a) := by
  obtain ⟨m, e, rfl, hm, hlow, hhigh⟩ := h
  exact ⟨-m, e, by push_cast; ring, by simpa using hm, hlow, hhigh⟩

theorem ofNat_eq_finite {n : Nat} (h : n < significandBound) :
    ofNat n = finite n (representable_natCast h) :=
  ofRat_of_representable _

theorem numeral_eq_finite {n : Nat} (h : n < significandBound) :
    (OfNat.ofNat n : Number) = finite n (representable_natCast h) :=
  ofNat_eq_finite h

theorem ofInt_eq_finite {n : Int} (h : n.natAbs < significandBound) :
    ofInt n = finite n (representable_intCast h) :=
  ofRat_of_representable _

theorem zero_eq_ofRat : (0 : Number) = ofRat 0 := rfl

theorem zero_eq_finite : (0 : Number) = finite (0 : Nat) (representable_natCast (by decide)) :=
  numeral_eq_finite (by decide)

theorem zero_le_finite : 0 ≤ finite a ha ↔ 0 ≤ a := by
  rw [zero_eq_finite, finite_le_finite, Nat.cast_zero]

theorem zero_lt_finite : 0 < finite a ha ↔ 0 < a := by
  rw [zero_eq_finite, finite_lt_finite, Nat.cast_zero]

theorem finite_lt_zero : finite a ha < 0 ↔ a < 0 := by
  rw [zero_eq_finite, finite_lt_finite, Nat.cast_zero]

theorem finite_le_zero : finite a ha ≤ 0 ↔ a ≤ 0 := by
  rw [zero_eq_finite, finite_le_finite, Nat.cast_zero]

theorem finite_mul_finite : finite a ha * finite b hb = ofRat (a * b) := rfl

theorem neg_finite : -finite a ha = finite (-a) (representable_neg ha) :=
  ofRat_of_representable _

theorem finite_sub_finite : finite a ha - finite b hb = ofRat (a - b) := by
  change (finite a ha).add (-finite b hb) = _
  rw [neg_finite, sub_eq_add_neg]
  rfl

theorem wholePart_intCast {n : Int} (hr : Representable n) : (finite n hr).wholePart = n := by
  change (if (n : Rat) < 0 then (n : Rat).ceil else (n : Rat).floor) = n
  rw [Rat.ceil_intCast, Rat.floor_intCast, ite_self]

theorem wholePart_ofNat {n : Nat} (h : n < significandBound) : (ofNat n).wholePart = n := by
  rw [ofNat_eq_finite h]
  exact wholePart_intCast (n := n) _

theorem ofNat_sub_ofNat {m n : Nat} (hm : m < significandBound) (h : n ≤ m) :
    ofNat m - ofNat n = ofNat (m - n) := by
  have hn := h.trans_lt hm
  rw [ofNat_eq_finite hm, ofNat_eq_finite hn, finite_sub_finite, ← Nat.cast_sub h]
  rfl

theorem exists_of_isInteger (h : x.isInteger = true) :
    ∃ (n : Int) (hr : Representable n), x = finite n hr := by
  cases x with
  | undefined => exact absurd h Bool.false_ne_true
  | infinite s => exact absurd h Bool.false_ne_true
  | finite q hr =>
    have hnum : (q.num : Rat) = q := Rat.coe_int_num_of_den_eq_one (of_decide_eq_true h)
    rw [← hnum] at hr
    exact ⟨q.num, hr, by simp only [hnum]⟩

/-! ### Arithmetic -/

theorem finite_div_finite (h : b ≠ 0) : finite a ha / finite b hb = ofRat (a / b) := if_neg h

theorem infinite_mul_finite (h : 0 < b) : infinite s * finite b hb = infinite s := by
  have hne : b ≠ 0 := h.ne'
  have hzero : ¬ (infinite s = 0 ∨ finite b hb = 0) := by
    rw [zero_eq_finite]
    simp [hne]
  have hself : (infinite s).isNegative = s := by
    rw [isNegative, zero_eq_finite]
    rfl
  have hsign : (finite b hb).isNegative = false := by
    rw [isNegative, zero_eq_finite]
    exact decide_eq_false (by push_cast; exact h.le.not_gt)
  change (if infinite s = 0 ∨ finite b hb = 0 then undefined
    else infinite ((infinite s).isNegative != (finite b hb).isNegative)) = infinite s
  rw [if_neg hzero, hself, hsign, Bool.bne_false]

theorem infinite_div_finite (h : 0 < b) : infinite s / finite b hb = infinite s := by
  change infinite (s != decide (b < 0)) = infinite s
  rw [decide_eq_false h.le.not_gt, Bool.bne_false]

/-- A rounded operation keeps the order if the exact one does, and infinite numbers stay as they
are. -/
theorem le_of_monotone (op : Number → Number) (f : Rat → Rat) (hf : ∀ p q, p ≤ q → f p ≤ f q)
    (hfinite : ∀ q hq, op (finite q hq) = ofRat (f q))
    (hinfinite : ∀ s, op (infinite s) = infinite s) (h : x ≤ y) : op x ≤ op y := by
  cases x with
  | undefined => exact absurd h not_undefined_le
  | finite p hp =>
    rw [hfinite]
    cases y with
    | undefined => exact absurd h not_le_undefined
    | finite q hq =>
      rw [hfinite]
      exact ofRat_mono (hf p q (finite_le_finite.mp h))
    | infinite t =>
      obtain rfl := finite_le_infinite.mp h
      rw [hinfinite]
      exact le_infinite (ofRat_ne_undefined _)
  | infinite s =>
    rw [hinfinite]
    cases y with
    | undefined => exact absurd h not_le_undefined
    | finite q hq =>
      obtain rfl := infinite_le_finite.mp h
      rw [hfinite]
      exact infinite_le (ofRat_ne_undefined _)
    | infinite t => rwa [hinfinite]

protected theorem mul_comm (x y : Number) : x * y = y * x := by
  have hbeyond (u w : Number) :
      (if u = 0 ∨ w = 0 then undefined else infinite (u.isNegative != w.isNegative)) =
        if w = 0 ∨ u = 0 then undefined else infinite (w.isNegative != u.isNegative) :=
    if_congr or_comm rfl (congrArg infinite bne_comm)
  cases x with
  | undefined => cases y <;> rfl
  | finite p hp =>
    cases y with
    | undefined => rfl
    | finite q hq => exact congrArg ofRat (mul_comm p q)
    | infinite t => exact hbeyond (finite p hp) (infinite t)
  | infinite s =>
    cases y with
    | undefined => rfl
    | finite q hq => exact hbeyond (infinite s) (finite q hq)
    | infinite t => exact hbeyond (infinite s) (infinite t)

theorem mul_le_mul_right (h : 0 < b) (hxy : x ≤ y) : x * finite b hb ≤ y * finite b hb :=
  le_of_monotone (· * finite b hb) (· * b) (fun _ _ hpq => mul_le_mul_of_nonneg_right hpq h.le)
    (fun _ _ => rfl) (fun _ => infinite_mul_finite h) hxy

theorem div_le_div_right (h : 0 < b) (hxy : x ≤ y) : x / finite b hb ≤ y / finite b hb :=
  le_of_monotone (· / finite b hb) (· / b) (fun _ _ hpq => div_le_div_of_nonneg_right hpq h.le)
    (fun _ _ => finite_div_finite h.ne') (fun _ => infinite_div_finite h) hxy

theorem mul_le_mul_left (h : 0 < a) (hxy : x ≤ y) : finite a ha * x ≤ finite a ha * y := by
  rw [Number.mul_comm _ x, Number.mul_comm _ y]
  exact mul_le_mul_right h hxy

/-- More of what is not negative is not less. -/
theorem finite_mul_le_finite_mul (hpos : 0 < a) (h : a ≤ b) (hx : 0 ≤ x) :
    finite a ha * x ≤ finite b hb * x := by
  cases x with
  | undefined => exact absurd hx not_le_undefined
  | finite q hq => exact ofRat_mono (mul_le_mul_of_nonneg_right h (zero_le_finite.mp hx))
  | infinite s =>
    rw [Number.mul_comm _ (infinite s), Number.mul_comm _ (infinite s), infinite_mul_finite hpos,
      infinite_mul_finite (hpos.trans_le h)]
    exact Number.le_refl (by simp)

/-- What is not negative is shared out among more. -/
theorem finite_div_le_finite_div (hpos : 0 < a) (h : a ≤ b) (hx : 0 ≤ x) :
    x / finite b hb ≤ x / finite a ha := by
  have hb' : 0 < b := hpos.trans_le h
  cases x with
  | undefined => exact absurd hx not_le_undefined
  | finite q hq =>
    rw [finite_div_finite hb'.ne', finite_div_finite hpos.ne']
    exact ofRat_mono (div_le_div_of_nonneg_left (zero_le_finite.mp hx) hpos h)
  | infinite s =>
    rw [infinite_div_finite hb', infinite_div_finite hpos]
    exact Number.le_refl (by simp)

protected theorem mul_nonneg (h : 0 < a) (hx : 0 ≤ x) : 0 ≤ finite a ha * x := by
  have hzero : finite a ha * 0 = 0 := by
    calc finite a ha * 0 = ofRat (a * (0 : Nat)) := by
          rw [zero_eq_finite]
          rfl
      _ = 0 := by rw [Nat.cast_zero, mul_zero, zero_eq_ofRat]
  rw [← hzero]
  exact mul_le_mul_left h hx

protected theorem div_nonneg (h : 0 < b) (hx : 0 ≤ x) : 0 ≤ x / finite b hb := by
  have hzero : 0 / finite b hb = 0 := by
    calc 0 / finite b hb = ofRat ((0 : Nat) / b) := by rw [zero_eq_finite, finite_div_finite h.ne']
      _ = 0 := by rw [Nat.cast_zero, zero_div, zero_eq_ofRat]
  rw [← hzero]
  exact div_le_div_right h hx

/-- A number can be taken from a greater one. -/
protected theorem sub_nonneg (h : x ≤ finite a ha) : 0 ≤ finite a ha - x := by
  cases x with
  | undefined => exact absurd h not_undefined_le
  | finite q hq =>
    rw [finite_sub_finite]
    exact ofRat_mono (a := (0 : Nat)) (by simpa using h)
  | infinite s =>
    obtain rfl := infinite_le_finite.mp h
    rw [zero_eq_finite]
    exact finite_le_infinite.mpr rfl

protected theorem abs_nonneg (h : x ≠ undefined) : 0 ≤ x.abs := by
  cases x with
  | undefined => exact absurd rfl h
  | finite q hq =>
    have habs : 0 ≤ q.abs := by
      rw [rat_abs_eq]
      exact abs_nonneg q
    rw [zero_eq_ofRat]
    exact ofRat_mono habs
  | infinite s =>
    rw [zero_eq_finite]
    exact finite_le_infinite.mpr rfl

/-- The whole part of a rational. -/
def truncated (q : Rat) : Int := if q < 0 then q.ceil else q.floor

theorem trunc_finite : (finite a ha).trunc = ofInt (truncated a) := by
  change ofRat (if a < 0 then a.ceil else a.floor) = ofRat (truncated a)
  rw [truncated]
  split <;> rfl

theorem finite_rem_finite (h : b ≠ 0) :
    finite a ha % finite b hb = ofRat (a - b * truncated (a / b)) := by
  refine (if_neg h).trans ?_
  rw [truncated]

theorem truncated_mono (h : a ≤ b) : truncated a ≤ truncated b := by
  unfold truncated
  split
  · rename_i ha
    split
    · exact Rat.ceil_le_iff.mpr (h.trans Rat.le_ceil)
    · rename_i hb
      have hceil : a.ceil ≤ 0 := Rat.ceil_le_iff.mpr (by push_cast; exact ha.le)
      have hfloor : 0 ≤ b.floor := Rat.le_floor_iff.mpr (by push_cast; exact not_lt.mp hb)
      exact hceil.trans hfloor
  · rename_i ha
    rw [if_neg (by linarith [not_lt.mp ha])]
    exact Rat.floor_monotone h

/-- What is left of a dividend is between zero and the dividend. -/
theorem sub_mul_truncated (hpos : 0 < b) (ha0 : 0 ≤ a) :
    0 ≤ a - b * truncated (a / b) ∧ a - b * truncated (a / b) ≤ a := by
  have hquotient : 0 ≤ a / b := div_nonneg ha0 hpos.le
  rw [truncated, if_neg hquotient.not_gt]
  have hfloor : (0 : Rat) ≤ (a / b).floor := by
    exact_mod_cast Rat.le_floor_iff.mpr (by exact_mod_cast hquotient)
  have hle : ((a / b).floor : Rat) * b ≤ a := (le_div_iff₀ hpos).mp (Rat.floor_le _)
  constructor
  · linarith
  · linarith [mul_nonneg hpos.le hfloor]

theorem rem_not_neg (h : 0 < b) (hx : 0 ≤ x) : ¬ x % finite b hb < 0 := by
  cases x with
  | undefined => exact not_undefined_lt
  | infinite s => exact not_undefined_lt
  | finite q hq =>
    rw [finite_rem_finite h.ne', zero_eq_ofRat]
    exact Number.not_lt_of_le (ofRat_mono (sub_mul_truncated h (zero_le_finite.mp hx)).1)

theorem trunc_le_trunc (hxy : x ≤ y) : x.trunc ≤ y.trunc :=
  le_of_monotone trunc (fun q => truncated q) (fun _ _ hpq => by exact_mod_cast truncated_mono hpq)
    (fun _ _ => trunc_finite) (fun _ => rfl) hxy

theorem trunc_nonneg (hx : 0 ≤ x) : 0 ≤ x.trunc := by
  cases x with
  | undefined => exact absurd hx not_le_undefined
  | infinite s => exact hx
  | finite q hq =>
    have htruncated : 0 ≤ truncated q := truncated_mono (zero_le_finite.mp hx)
    rw [trunc_finite, zero_eq_ofRat]
    exact ofRat_mono (by exact_mod_cast htruncated)

theorem truncated_natCast (n : Nat) : truncated n = n := by
  rw [truncated, if_neg (Nat.cast_nonneg n).not_gt]
  exact Rat.floor_intCast n

theorem truncated_lt {n : Nat} (hpos : 0 < n) (h : a < n) : truncated a < n := by
  unfold truncated
  split
  · rename_i hneg
    have hceil : a.ceil ≤ 0 := Rat.ceil_le_iff.mpr (by push_cast; exact hneg.le)
    omega
  · exact Rat.floor_lt_iff.mpr (by push_cast; exact h)

/-- A positive integer is reached by a number exactly if it is by the number without its fraction. -/
theorem ofNat_le_trunc_iff {n : Nat} (hn : n < significandBound) (hpos : 0 < n) :
    ofNat n ≤ x.trunc ↔ ofNat n ≤ x := by
  cases x with
  | undefined => exact Iff.rfl
  | infinite s => exact Iff.rfl
  | finite q hq =>
    rw [trunc_finite, ofNat_eq_finite hn, finite_le_finite, ← ofNat_eq_finite hn]
    constructor
    · intro hreach
      by_contra hless
      have hbelow : truncated q ≤ (n - 1 : Nat) := by
        have hlt := truncated_lt hpos (not_le.mp hless)
        omega
      have hmono : ofInt (truncated q) ≤ ofNat (n - 1) := ofRat_mono (by exact_mod_cast hbelow)
      have hle := Number.le_trans hreach hmono
      rw [ofNat_eq_finite hn, ofNat_eq_finite (by omega : n - 1 < significandBound),
        finite_le_finite, Nat.cast_le] at hle
      omega
    · intro hreach
      have hmono := truncated_mono hreach
      rw [truncated_natCast] at hmono
      exact ofRat_mono (by exact_mod_cast hmono)

/-- Without its fraction a number is an integer, or infinite. -/
theorem trunc_cases (h : x ≠ undefined) :
    (∃ (n : Int) (hr : Representable n), x.trunc = finite n hr) ∨ ∃ s, x.trunc = infinite s := by
  cases x with
  | undefined => exact absurd rfl h
  | infinite s => exact .inr ⟨s, rfl⟩
  | finite q hq =>
    rw [trunc_finite]
    rcases ofRat_finite_or (truncated q) with ⟨hr, hvalue⟩ | ⟨_, hvalue⟩
    · obtain ⟨n, hn⟩ := exists_intCast_rounded (truncated q)
      simp only [hn] at hvalue hr
      exact .inl ⟨n, hr, hvalue⟩
    · exact .inr ⟨_, hvalue⟩

/-- A half of an integer reaches another one exactly if the integer reaches its double. -/
theorem ofNat_le_half_iff {n : Nat} (hn : 2 * n < significandBound) (hpos : 0 < n) :
    ofNat n ≤ x.trunc / 2 ↔ ofNat (2 * n) ≤ x.trunc := by
  have htwo : (0 : Rat) < (2 : Nat) := by norm_num
  rw [numeral_eq_finite (n := 2) (by decide), ofNat_eq_finite hn]
  by_cases hx : x = undefined
  · rw [hx]
    exact iff_of_false not_le_undefined not_le_undefined
  · rcases trunc_cases hx with ⟨m, hr, hvalue⟩ | ⟨s, hvalue⟩
    · rw [hvalue, finite_div_finite htwo.ne', finite_le_finite]
      constructor
      · intro hreach
        by_contra hless
        have hnear : Representable ((2 * n - 1 : Int) / (2 : Nat)) := by
          refine ⟨2 * n - 1, -1, ?_, by omega, by decide, by decide⟩
          push_cast
          rw [zpow_neg_one, div_eq_mul_inv]
        have hbelow : m ≤ 2 * n - 1 := by
          have hlt : m < 2 * n := by exact_mod_cast not_le.mp hless
          omega
        have hmono : ofRat (m / (2 : Nat)) ≤ ofRat ((2 * n - 1 : Int) / (2 : Nat)) :=
          ofRat_mono (div_le_div_of_nonneg_right (by exact_mod_cast hbelow) htwo.le)
        have hle := Number.le_trans hreach hmono
        rw [ofRat_of_representable hnear, ofNat_eq_finite (by omega : n < significandBound),
          finite_le_finite, le_div_iff₀ htwo] at hle
        push_cast at hle
        linarith
      · intro hreach
        refine ofRat_mono ((le_div_iff₀ htwo).mpr ?_)
        push_cast at hreach ⊢
        linarith
    · rw [hvalue, infinite_div_finite htwo, ofNat_eq_finite (by omega : n < significandBound),
        finite_le_infinite, finite_le_infinite]

end LiveProgress.Number
