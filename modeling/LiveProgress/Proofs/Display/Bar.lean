import LiveProgress.Display.Parts
import LiveProgress.Proofs.Number.Order

/-!
# The cells of a bar

The cells of a bar are what a share comes to that is rounded to a number, taken in percent, cut
off, halved and cut off again. Each of these steps keeps the order, so it is enough to look at
shares next to which the count of cells changes. In particular no count below the total fills the
bar, since its share is at least a part in 2⁵³ below one.
-/

namespace LiveProgress.Progress

open Number

variable {a b : Rat} {x y : Number}

/-! ### Cells of a share -/

/-- The cells of a share, before they are kept within the bar. -/
def cellsOf (share : Rat) : Number := ((ofRat share * 100).trunc / 2).trunc

theorem cellsOf_mono (h : a ≤ b) : cellsOf a ≤ cellsOf b := by
  have hpercent : (ofRat a * 100).trunc ≤ (ofRat b * 100).trunc := by
    rw [numeral_eq_finite (n := 100) (by decide)]
    exact trunc_le_trunc (mul_le_mul_right (by norm_num) (ofRat_mono h))
  unfold cellsOf
  rw [numeral_eq_finite (n := 2) (by decide)]
  exact trunc_le_trunc (div_le_div_right (by norm_num) hpercent)

/-- A cell is filled when twice as many percents are reached. -/
theorem ofNat_le_cellsOf_iff_percents {n : Nat} (hpos : 0 < n) (hle : n ≤ 50) :
    ofNat n ≤ cellsOf a ↔ ofNat (2 * n) ≤ ofRat a * 100 := by
  have hbound : 2 * n < significandBound := lt_of_le_of_lt (by omega : 2 * n ≤ 100) (by decide)
  rw [cellsOf, ofNat_le_trunc_iff (by omega) hpos, ofNat_le_half_iff hbound hpos,
    ofNat_le_trunc_iff hbound (by omega)]

/-- How far a share between two halves of a percent, of a total below 2³¹, is from both of them. -/
def leastDistance : Rat := 1 / 107374182400

/-- In front of the share at which it is due an even percent is not reached. At the share itself
it is reached, but for one of them, which is reached behind it. And the greatest share below one is
less than a hundred percent. -/
theorem percents_near :
    (∀ n : Fin 51, ¬ ofNat (2 * n) ≤ ofRat (n / 50 - leastDistance) * 100 ∧
      (ofNat (2 * n) ≤ ofRat (n / 50) * 100 ↔ n.val ≠ 29)) ∧
    ofNat (2 * 29) ≤ ofRat (29 / 50 + leastDistance) * 100 ∧
    ¬ ofNat (2 * 50) ≤ ofRat (1 - 1 / 9007199254740992) * 100 := by
  decide +kernel

theorem cellsOf_near {n : Nat} (hpos : 0 < n) (hle : n ≤ 50) :
    ¬ ofNat n ≤ cellsOf (n / 50 - leastDistance) ∧ ofNat n ≤ cellsOf (n / 50 + leastDistance) ∧
      (ofNat n ≤ cellsOf (n / 50) ↔ n ≠ 29) := by
  obtain ⟨hnear, hexcept, -⟩ := percents_near
  obtain ⟨hbefore, hat⟩ := hnear ⟨n, by omega⟩
  dsimp only at hbefore hat
  rw [← ofNat_le_cellsOf_iff_percents hpos hle] at hbefore hat
  refine ⟨hbefore, ?_, hat⟩
  by_cases h : n = 29
  · rw [h, ofNat_le_cellsOf_iff_percents (by decide) (by decide)]
    exact_mod_cast hexcept
  · refine Number.le_trans (hat.mpr h) (cellsOf_mono ?_)
    unfold leastDistance
    linarith

theorem not_ofNat_one_le_cellsOf_zero : ¬ ofNat 1 ≤ cellsOf 0 := by
  intro hone
  refine (cellsOf_near (n := 1) (by decide) (by decide)).1 (Number.le_trans hone (cellsOf_mono ?_))
  norm_num [leastDistance]

/-- A full bar takes all of the total. -/
theorem barCells_le_cellsOf_iff (ha : Representable a) (hb : Representable b) (hpos : 0 < b) :
    barCells ≤ cellsOf (a / b) ↔ b ≤ a := by
  constructor
  · intro hfull
    by_contra hless
    have hshare : a / b ≤ 1 - 1 / 9007199254740992 := by
      rw [div_le_iff₀ hpos, mul_comm]
      exact le_mul_of_lt ha hb hpos (not_le.mp hless)
    have hcells : ofNat 50 ≤ cellsOf (1 - 1 / 9007199254740992) :=
      Number.le_trans hfull (cellsOf_mono hshare)
    exact percents_near.2.2 ((ofNat_le_cellsOf_iff_percents (by decide) le_rfl).mp hcells)
  · intro hall
    have hone : ofNat 50 ≤ cellsOf ((50 : Nat) / 50) :=
      (cellsOf_near (by decide) le_rfl).2.2.mpr (by decide)
    refine Number.le_trans hone (cellsOf_mono ?_)
    rw [le_div_iff₀ hpos]
    linarith

theorem cellsOf_ne_undefined (share : Rat) : cellsOf share ≠ undefined := by
  intro h
  have hself : cellsOf share ≤ cellsOf share := cellsOf_mono (le_refl share)
  rw [h] at hself
  exact not_undefined_le hself

theorem barCells_eq_finite : barCells = finite (50 : Nat) (representable_natCast (by decide)) :=
  numeral_eq_finite (by decide)

theorem min_barCells (ha : Representable a) :
    barCells.min (finite a ha) = if a < 50 then finite a ha else barCells := by
  rw [barCells_eq_finite]
  change (if finite a ha < finite (50 : Nat) _ then finite a ha else _) = _
  simp only [finite_lt_finite, Nat.cast_ofNat]

theorem max_zero (ha : Representable a) :
    Number.max 0 (finite a ha) = if 0 < a then finite a ha else 0 := by
  rw [zero_eq_finite]
  change (if finite (0 : Nat) _ < finite a ha then finite a ha else _) = _
  simp only [finite_lt_finite, Nat.cast_zero]

theorem max_barCells : Number.max 0 barCells = ofNat 50 := by
  rw [barCells_eq_finite, max_zero, if_pos (by norm_num)]
  exact barCells_eq_finite.symm

theorem ofNat_le_finite {n : Nat} (hn : n ≤ 50) {m : Int} (hm : Representable m) :
    ofNat n ≤ finite m hm ↔ (n : Int) ≤ m := by
  rw [ofNat_eq_finite (hn.trans_lt (by decide)), finite_le_finite]
  norm_cast

/-- Within the bar there are as many cells as a count reaches. -/
theorem exists_cells (h : x ≠ undefined) :
    ∃ f : Nat, f ≤ 50 ∧ Number.max 0 (barCells.min x.trunc) = ofNat f ∧
      ∀ n, 0 < n → n ≤ 50 → (n ≤ f ↔ ofNat n ≤ x.trunc) := by
  rcases trunc_cases h with ⟨m, hm, hvalue⟩ | ⟨s, hvalue⟩
  · rw [hvalue, min_barCells]
    by_cases hfull : m < 50
    · rw [if_pos (by exact_mod_cast hfull), max_zero]
      refine ⟨m.toNat, by omega, ?_, fun n _ hle => by rw [ofNat_le_finite hle]; omega⟩
      by_cases hpos : 0 < m
      · obtain ⟨n, rfl⟩ := Int.eq_ofNat_of_zero_le hpos.le
        rw [if_pos (by exact_mod_cast hpos), Int.toNat_natCast,
          ofNat_eq_finite (Nat.lt_trans (by omega : n < 50) (by decide))]
        simp only [Int.cast_natCast]
      · rw [if_neg (by exact_mod_cast hpos), Int.toNat_of_nonpos (not_lt.mp hpos)]
        rfl
    · rw [if_neg (by exact_mod_cast hfull)]
      exact ⟨50, le_rfl, max_barCells, fun n _ hle => by rw [ofNat_le_finite hle]; omega⟩
  · rw [hvalue]
    cases s with
    | true =>
      have hnone : Number.max 0 (barCells.min (infinite true)) = 0 := by
        rw [barCells_eq_finite, zero_eq_finite]
        rfl
      refine ⟨0, by decide, hnone, fun n hpos hle => ?_⟩
      rw [ofNat_eq_finite (hle.trans_lt (by decide)), finite_le_infinite]
      simp [hpos.ne']
    | false =>
      have hfull : barCells.min (infinite false) = barCells := by
        rw [barCells_eq_finite]
        rfl
      refine ⟨50, le_rfl, by rw [hfull, max_barCells], fun n _ hle => ?_⟩
      rw [ofNat_eq_finite (hle.trans_lt (by decide)), finite_le_infinite]
      simp [hle]

/-! ### Records -/

theorem exists_of_forall_isInteger {field : Option Number}
    (h : ∀ x ∈ field, x.isInteger = true) :
    ∃ (n : Int) (hr : Representable n), field.getD 0 = finite n hr := by
  cases field with
  | none => exact ⟨0, _, zero_eq_finite⟩
  | some x => exact exists_of_isInteger (h x rfl)

theorem percentage_finite (ha : Representable a) (hb : Representable b) (hpos : 0 < b) :
    percentage (finite a ha) (finite b hb) = barCells.min (cellsOf (a / b)) := by
  rw [percentage, finite_div_finite hpos.ne']
  rfl

theorem exists_filled (ha : Representable a) (hb : Representable b) (hpos : 0 < b) :
    ∃ f : Nat, f ≤ 50 ∧ Number.max 0 (percentage (finite a ha) (finite b hb)) = ofNat f ∧
      ∀ n, 0 < n → n ≤ 50 → (n ≤ f ↔ ofNat n ≤ cellsOf (a / b)) := by
  rw [percentage_finite ha hb hpos]
  exact exists_cells fun h => cellsOf_ne_undefined (a / b) (congrArg trunc h)

/-! ### Texts -/

theorem repeated_ofNat (c : Char) {n : Nat} (h : n ≤ 50) :
    repeated c (ofNat n) = String.ofList (List.replicate n c) := by
  rw [repeated, wholePart_ofNat (h.trans_lt (by decide)), Int.toNat_natCast]

theorem repeated?_ofNat (c : Char) {n : Nat} (h : n ≤ 50) :
    repeated? c (ofNat n) = some (String.ofList (List.replicate n c)) := by
  have hwhole := wholePart_ofNat (n := n) (h.trans_lt (by decide))
  rw [← repeated_ofNat c h]
  rw [ofNat_eq_finite (h.trans_lt (by decide))] at hwhole ⊢
  exact if_neg (by omega)

theorem barCells_sub {f : Nat} (h : f ≤ 50) : barCells - ofNat f = ofNat (50 - f) :=
  ofNat_sub_ofNat (by decide) h

theorem bar_eq {percentage : Number} {f : Nat} (h : f ≤ 50)
    (hfilled : Number.max 0 percentage = ofNat f) : bar percentage = barText f := by
  simp only [bar, hfilled, barCells_sub h, repeated_ofNat _ h, repeated_ofNat _ (Nat.sub_le 50 f)]
  rfl

theorem bar?_eq {percentage : Number} {f : Nat} (h : f ≤ 50)
    (hfilled : Number.max 0 percentage = ofNat f) : bar? percentage = some (barText f) := by
  simp only [bar?, hfilled, barCells_sub h, repeated?_ofNat _ h, repeated?_ofNat _ (Nat.sub_le 50 f)]
  rfl

theorem toList_barText (f : Nat) :
    (barText f).toList =
      '[' :: (List.replicate f '=' ++ '>' :: (List.replicate (50 - f) ' ' ++ [']', ' '])) := by
  simp [barText]

theorem length_barText {f : Nat} (h : f ≤ 50) : (barText f).length = barLength := by
  rw [← String.length_toList, toList_barText]
  simp [barLength]
  omega

/-- The cells of a bar can be read off the text that begins with it. -/
theorem shownCells_append {f : Nat} (h : f ≤ 50) (rest : String) :
    shownCells (barText f ++ rest) = f := by
  have hlength : (barText f).toList.length = barLength := by
    rw [String.length_toList, length_barText h]
  rw [shownCells, String.toList_append, ← hlength, List.take_left, toList_barText]
  simp [List.count_replicate]

theorem counts_eq (current total : Number) (units : String) :
    counts current total units = numbers current total units ++ units := by
  unfold numbers
  split
  · rename_i hempty
    rw [String.isEmpty_iff.mp hempty, String.append_empty]
  · rename_i hunits
    unfold counts
    rw [if_neg hunits]
    split <;> simp [String.append_assoc]

theorem text_parts (p : Progress) (v : Viewport) : (p.parts v).text = p.fragment v := by
  simp only [parts, fragment, EstimateDue, counts_eq, and_assoc]
  by_cases hnothing : p.current.getD 0 ≤ 0 ∧ p.total.getD 0 ≤ 0
  · rw [if_pos hnothing, if_pos hnothing]
    rfl
  · rw [if_neg hnothing, if_neg hnothing]
    by_cases htotal : p.total.getD 0 ≤ 0
    · rw [if_pos htotal, if_pos htotal]
      split_ifs with hunits
      · simp [Parts.text, String.isEmpty_iff.mp hunits]
      · simp [Parts.text]
    · rw [if_neg htotal, if_neg htotal]
      cases p.hideCounts.getD false <;> simp [Parts.text, String.append_assoc]

/-! ### Bars of fragments -/

variable {p : Progress} {v : Viewport}

/-- A fragment that begins with a bar, none of whose counts is refused. -/
structure HasBar (p : Progress) (v : Viewport) (f : Nat) (share : Rat) : Prop where
  le : f ≤ 50
  accepted : p.fragment? v = some (p.fragment v)
  text : ∃ rest, p.fragment v = barText f ++ rest
  le_iff : ∀ n, 0 < n → n ≤ 50 → (n ≤ f ↔ ofNat n ≤ cellsOf share)

theorem hasBar {ha : Representable a} {hb : Representable b}
    (hcurrent : p.current.getD 0 = finite a ha) (htotal : p.total.getD 0 = finite b hb)
    (hpos : 0 < b) (hwide : barWidth < v.columns) :
    HasBar p v (shownCells (p.fragment v)) (a / b) := by
  obtain ⟨f, hf, hfilled, hreach⟩ := exists_filled ha hb hpos
  rw [← hcurrent, ← htotal] at hfilled
  have hknown : 0 < p.total.getD 0 := by
    rw [htotal]
    exact zero_lt_finite.mpr hpos
  have hunknown : ¬ p.total.getD 0 ≤ 0 := by
    rw [htotal, finite_le_zero]
    exact not_le.mpr hpos
  have hparts : (p.parts v).bar = barText f := by
    rw [← bar_eq hf hfilled, parts, if_neg (fun h => hunknown h.2), if_neg hunknown]
    exact if_pos hwide
  have htext : p.fragment v = barText f ++ ((p.parts v).numbers ++ (p.parts v).units ++
      (p.parts v).estimate) := by
    rw [← text_parts, Parts.text, hparts]
    simp only [String.append_assoc]
  have hshown : shownCells (p.fragment v) = f := by rw [htext, shownCells_append hf]
  have haccepted : p.fragment? v = some (p.fragment v) := by
    simp only [fragment?, if_pos (And.intro hknown hwide), bar?_eq hf hfilled, Option.map_some]
    rw [← hparts, text_parts]
  rw [hshown]
  exact ⟨hf, haccepted, ⟨_, htext⟩, hreach⟩

theorem HasBar.le_of_cellsOf_le {p' : Progress} {v' : Viewport} {f g : Nat} (hf : HasBar p v f a)
    (hg : HasBar p' v' g b) (h : cellsOf a ≤ cellsOf b) : f ≤ g := by
  rcases Nat.eq_zero_or_pos f with hzero | hpos
  · omega
  · have hreach := (hf.le_iff f hpos hf.le).mp le_rfl
    exact (hg.le_iff f hpos hf.le).mpr (Number.le_trans hreach h)

/-- The bar is always well formed and never moves backwards. In a window that is wide enough, the
fragment of a record with a total begins with a bar of 54 characters, and no count of repetitions
is refused. All of its cells are filled exactly if the current count reaches the total, none as
long as the current count is not positive, and with the current count the cells only become more. -/
theorem bar_is_well_formed_and_never_moves_back :
    (∀ (p : Progress) (v : Viewport), p.IsWhole → 0 < p.total.getD 0 → barWidth < v.columns →
      let f := shownCells (p.fragment v)
      p.fragment? v = some (p.fragment v) ∧ f ≤ 50 ∧ (barText f).length = barLength ∧
        (∃ rest, p.fragment v = barText f ++ rest) ∧
        (f = 50 ↔ p.total.getD 0 ≤ p.current.getD 0) ∧ (p.current.getD 0 ≤ 0 → f = 0)) ∧
    ∀ (p p' : Progress) (v v' : Viewport), p.IsWhole → p'.IsWhole → 0 < p.total.getD 0 →
      p.total.getD 0 = p'.total.getD 0 → barWidth < v.columns → barWidth < v'.columns →
      p.current.getD 0 ≤ p'.current.getD 0 →
      shownCells (p.fragment v) ≤ shownCells (p'.fragment v') := by
  constructor
  · intro p v hwhole hpos hwide f
    obtain ⟨a, ha, hcurrent⟩ := exists_of_forall_isInteger hwhole.current
    obtain ⟨b, hb, htotal⟩ := exists_of_forall_isInteger hwhole.total
    rw [htotal, zero_lt_finite] at hpos
    have hbar : HasBar p v f (a / b) := hasBar hcurrent htotal hpos hwide
    refine ⟨hbar.accepted, hbar.le, length_barText hbar.le, hbar.text, ?_, fun hcurrent_le => ?_⟩
    · rw [hcurrent, htotal, finite_le_finite, ← barCells_le_cellsOf_iff ha hb hpos]
      have hfull : 50 ≤ f ↔ barCells ≤ cellsOf (a / b) := hbar.le_iff 50 (by decide) le_rfl
      rw [← hfull]
      exact ⟨fun h => h.ge, fun h => le_antisymm hbar.le h⟩
    · rw [hcurrent, finite_le_zero] at hcurrent_le
      by_contra hne
      have hone : ofNat 1 ≤ cellsOf (a / b) :=
        (hbar.le_iff 1 (by decide) (by decide)).mp (Nat.pos_of_ne_zero hne)
      have hzero : cellsOf (a / b) ≤ cellsOf 0 := cellsOf_mono (div_nonpos_of_nonpos_of_nonneg
        hcurrent_le hpos.le)
      exact not_ofNat_one_le_cellsOf_zero (Number.le_trans hone hzero)
  · intro p p' v v' hwhole hwhole' hpos hsame hwide hwide' hle
    obtain ⟨a, ha, hcurrent⟩ := exists_of_forall_isInteger hwhole.current
    obtain ⟨a', ha', hcurrent'⟩ := exists_of_forall_isInteger hwhole'.current
    obtain ⟨b, hb, htotal⟩ := exists_of_forall_isInteger hwhole.total
    rw [htotal, zero_lt_finite] at hpos
    rw [hcurrent, hcurrent', finite_le_finite] at hle
    have hbar := hasBar hcurrent htotal hpos hwide
    have hbar' := hasBar hcurrent' (hsame.symm.trans htotal) hpos hwide'
    exact hbar.le_of_cellsOf_le hbar' (cellsOf_mono (div_le_div_of_nonneg_right hle hpos.le))

/-- One short of a total of 2⁶⁰ lacks its last cell, and one less of it shows no more. -/
theorem bar_of_huge_total_lacks_cell :
    let p : Progress := { current := some 1152921504606846848, total := some 1152921504606846976 }
    let q : Progress := { current := some (-1), total := some 1152921504606846976 }
    let wide : Viewport := { width := some 120 }
    p.fragment? wide = some (p.fragment wide) ∧ shownCells (p.fragment wide) ≠ 50 ∧
      shownCells (q.fragment wide) = 0 ∧
      shownCells (q.fragment wide) ≤ shownCells (p.fragment wide) := by
  intro p q wide
  obtain ⟨hall, hmono⟩ := bar_is_well_formed_and_never_moves_back
  have hp : p.IsWhole := ⟨by decide +kernel, by decide +kernel, by decide +kernel⟩
  have hq : q.IsWhole := ⟨by decide +kernel, by decide +kernel, by decide +kernel⟩
  have hwide : barWidth < wide.columns := by decide +kernel
  obtain ⟨haccepted, -, -, -, hfull, -⟩ := hall p wide hp (by decide +kernel) hwide
  obtain ⟨-, -, -, -, -, hempty⟩ := hall q wide hq (by decide +kernel) hwide
  refine ⟨haccepted, fun h => ?_, hempty (by decide +kernel),
    hmono q p wide wide hq hp (by decide +kernel) rfl hwide hwide (by decide +kernel)⟩
  exact absurd (hfull.mp h) (by decide +kernel)

/-! ### Cells and percents -/

theorem ofNat_le_cellsOf_iff {c t n : Nat} (ht : 0 < t) (hsmall : t < 2147483648) (hn : 0 < n)
    (hle : n ≤ 50) :
    ofNat n ≤ cellsOf (c / t) ↔ n * t ≤ 50 * c ∧ ¬ (n = 29 ∧ 50 * c = 29 * t) := by
  obtain ⟨hbefore, hbehind, hat⟩ := cellsOf_near hn hle
  have hpos : (0 : Rat) < t := by exact_mod_cast ht
  have hbound : (t : Rat) ≤ 2147483648 := by exact_mod_cast hsmall.le
  have hstep : leastDistance * t ≤ 1 / 50 := by
    unfold leastDistance
    linarith
  rcases Nat.lt_trichotomy (50 * c) (n * t) with hless | hsame | hmore
  · refine iff_of_false (fun hreach => hbefore (Number.le_trans hreach (cellsOf_mono ?_))) ?_
    · have hcast : (50 * c + 1 : Rat) ≤ n * t := by exact_mod_cast hless
      rw [div_le_iff₀ hpos, sub_mul]
      linarith
    · omega
  · have hshare : (c : Rat) / t = n / 50 := by
      have hcast : (50 * c : Rat) = n * t := by exact_mod_cast hsame
      rw [div_eq_div_iff hpos.ne' (by norm_num)]
      linarith
    rw [hshare, hat]
    constructor
    · intro hne
      exact ⟨hsame.ge, fun h => hne h.1⟩
    · rintro ⟨_, hexcept⟩ rfl
      exact hexcept ⟨rfl, hsame⟩
  · refine iff_of_true (Number.le_trans hbehind (cellsOf_mono ?_)) ⟨hmore.le, ?_⟩
    · have hcast : (n * t + 1 : Rat) ≤ 50 * c := by exact_mod_cast hmore
      rw [le_div_iff₀ hpos, add_mul]
      linarith
    · rintro ⟨rfl, hsame⟩
      omega

/-- One cell is shown for two full percents, except that just 58 percent lack their last cell. -/
theorem cells_show_full_percents_iff {p : Progress} {v : Viewport} {c t : Nat}
    (hcurrent : p.current.getD 0 = .ofNat c) (htotal : p.total.getD 0 = .ofNat t) (hle : c ≤ t)
    (hpos : 0 < t) (hsmall : t < 2147483648) (hwide : barWidth < v.columns) :
    (shownCells (p.fragment v) = 50 * c / t ↔ 50 * c ≠ 29 * t) ∧
      (50 * c = 29 * t → shownCells (p.fragment v) = 28) := by
  rw [ofNat_eq_finite (hle.trans_lt (hsmall.trans (by decide)))] at hcurrent
  rw [ofNat_eq_finite (hsmall.trans (by decide))] at htotal
  have hbar := hasBar hcurrent htotal (by exact_mod_cast hpos) hwide
  have hfull : 50 * c / t ≤ 50 := Nat.div_le_of_le_mul (by omega)
  generalize shownCells (p.fragment v) = f at hbar ⊢
  have hreach (n : Nat) (hn : 0 < n) (hn50 : n ≤ 50) :
      n ≤ f ↔ n * t ≤ 50 * c ∧ ¬ (n = 29 ∧ 50 * c = 29 * t) := by
    rw [hbar.le_iff n hn hn50, ofNat_le_cellsOf_iff hpos hsmall hn hn50]
  by_cases hexcept : 50 * c = 29 * t
  · have hlow : 28 ≤ f := (hreach 28 (by decide) (by decide)).mpr (by omega)
    have hhigh : ¬ 29 ≤ f := fun h => ((hreach 29 (by decide) (by decide)).mp h).2 ⟨rfl, hexcept⟩
    have hexact : 50 * c / t = 29 := by rw [hexcept, Nat.mul_div_cancel _ hpos]
    rw [hexact]
    exact ⟨iff_of_false (by omega) (not_not.mpr hexcept), fun _ => by omega⟩
  · have hsame : f = 50 * c / t := by
      apply le_antisymm
      · rcases Nat.eq_zero_or_pos f with hzero | hfpos
        · rw [hzero]
          exact Nat.zero_le _
        · exact (Nat.le_div_iff_mul_le hpos).mpr ((hreach f hfpos hbar.le).mp le_rfl).1
      · rcases Nat.eq_zero_or_pos (50 * c / t) with hzero | hcpos
        · rw [hzero]
          exact Nat.zero_le _
        · exact (hreach _ hcpos hfull).mpr ⟨Nat.div_mul_le_self _ _, fun h => hexcept h.2⟩
    exact ⟨iff_of_true hsame hexcept, fun h => absurd h hexcept⟩

/-- One short of a total of 2³¹ - 1 is one cell short of a full bar. -/
theorem cells_of_greatest_total :
    let p : Progress := { current := some 2147483646, total := some 2147483647 }
    2147483646 ≤ 2147483647 ∧ 0 < 2147483647 ∧ 2147483647 < 2147483648 ∧
      50 * 2147483646 ≠ 29 * 2147483647 ∧
      shownCells (p.fragment { width := some 120 }) = 49 := by
  intro p
  have hcells := cells_show_full_percents_iff (p := p) (v := { width := some 120 })
    (c := 2147483646) (t := 2147483647) rfl rfl (by decide) (by decide) (by decide)
    (by decide +kernel)
  exact ⟨by decide, by decide, by decide, by decide, hcells.1.mpr (by decide)⟩

/-- Of 58 percent 28 cells are shown, although they are 29 times two percent. -/
theorem bar_of_58_percent_lacks_cell :
    shownCells (Progress.fragment { current := some 58, total := some 100 } { width := some 120 }) =
      28 ∧ 50 * 58 / 100 = 29 := by
  decide +kernel

end LiveProgress.Progress
