import LiveProgress.Proofs.Display.Bar
import LiveProgress.Proofs.Number.Integer
import LiveProgress.Proofs.Quantity.Scale
import LiveProgress.Proofs.Text.Units

/-!
# Counts of bytes

The text of a size fits its column, which is filled from the left. So the counts of a fragment
without units of its own begin with a column of eight characters.
-/

namespace LiveProgress

open Number

/-! ### Columns -/

theorem toNat_lt_of_isFigure {c : Char} (h : IsFigure c) : c.toNat < 0x10000 := by
  rcases h with hdigit | hsign
  · exact (isNear_of_isDigit hdigit).2.trans_lt (by decide)
  · simp only [List.mem_cons, List.not_mem_nil, or_false] at hsign
    rcases hsign with rfl | rfl | rfl | rfl <;> decide

namespace Size

variable {n : Nat} {r : Rat}

theorem IsShown.isFinite_digits (h : IsShown n r) :
    (ofRat (significant 4 r)).isFinite = true := by
  obtain ⟨hr, -⟩ := h.scale_eq
  have hsmall : |r| < 10 ^ (308 : Int) := by
    calc |r| = r := abs_of_nonneg h.scaled.nonneg
      _ ≤ 1000 := h.le_thousand
      _ = 10 ^ (3 : Int) := by norm_num
      _ < 10 ^ (308 : Int) := ten_zpow_lt_iff.mpr (by decide)
  have hfinite : ((finite r hr).roundSignificant 4).isFinite = true :=
    isFinite_roundSignificant 4 hsmall
  rwa [roundSignificant_of_nonneg 4 h.scaled.nonneg] at hfinite

theorem IsShown.width_text (h : IsShown n r) :
    Text.width (text (ofNat n)).toList = (text (ofNat n)).length := by
  obtain ⟨unit, hmem, -, htext⟩ := h.text_eq
  rw [← String.length_toList]
  apply Text.width_eq_length
  intro c hc
  rw [htext, String.toList_append] at hc
  rcases List.mem_append.mp hc with hnumber | hunit
  · exact toNat_lt_of_isFigure (isFigure_of_mem_text h.isFinite_digits hnumber)
  · exact (bounds_of_mem_unit hmem hunit).2.trans (by decide)

end Size

namespace Progress

variable {p : Progress} {v : Viewport} {n : Nat} {r : Rat}

/-- Counts without units of their own begin with the column of the current count. -/
theorem numbers_cases (hunits : (p.units.getD []).string.isEmpty = true) :
    (p.parts v).numbers = "" ∨
      ∃ rest, (p.parts v).numbers = sizeColumn (p.current.getD 0) ++ rest ∧
        (rest = "" ∨ rest = "/" ++ Size.text (p.total.getD 0)) := by
  unfold parts
  dsimp only
  split
  · exact .inl rfl
  · split
    · right
      exact ⟨"", String.append_empty.symm, .inl rfl⟩
    · dsimp only
      split
      · exact .inl rfl
      · right
        unfold numbers counts
        rw [if_pos hunits, if_pos hunits]
        split
        · exact ⟨"", by rw [String.append_empty], .inl rfl⟩
        · exact ⟨_, String.append_assoc, .inr rfl⟩

theorem units_parts (hunits : (p.units.getD []).string.isEmpty = true) : (p.parts v).units = "" := by
  have hempty := String.isEmpty_iff.mp hunits
  unfold parts
  dsimp only
  split
  · rfl
  · split
    · exact hempty
    · dsimp only
      split
      · rfl
      · exact hempty

/-- A fragment without a label is the bar, the counts and the estimate. -/
theorem fragment_eq (hunits : (p.units.getD []).string.isEmpty = true) :
    p.fragment v = (p.parts v).bar ++ (p.parts v).numbers ++ (p.parts v).estimate := by
  rw [← text_parts, Parts.text, units_parts hunits, String.append_empty]

/-! ### Main result -/

/-- The text of a size is ordered, accurate and fits its column. For the number nearest to an
integer below 10²⁷ it is read as a decimal and a power of a thousand. The decimal is not beyond a
thousand, and at least one unless the size is zero. What is meant is off the size by 0.051 percent of
it at most, and no more than what is meant by a greater size. The text has at most seven characters,
so that counts without units of their own, if they are shown, begin with a column of eight. -/
theorem sizes_are_ordered_accurate_and_aligned :
    (∀ n : Nat, n < 10 ^ 27 →
      ∃ s, Size.Scaled.ofText? (Size.text (ofNat n)) = some s ∧
        (0 < n → |s.value - n| ≤ 51 / 100000 * n) ∧ s.number ≤ 1000 ∧
        (1 ≤ s.number ∨ n = 0) ∧ (Size.text (ofNat n)).length ≤ 7) ∧
    (∀ m n : Nat, m ≤ n → n < 10 ^ 27 →
      ∃ s t, Size.Scaled.ofText? (Size.text (ofNat m)) = some s ∧
        Size.Scaled.ofText? (Size.text (ofNat n)) = some t ∧ s.value ≤ t.value) ∧
    ∀ (p : Progress) (v : Viewport) (n : Nat), n < 10 ^ 27 → p.current.getD 0 = ofNat n →
      (p.units.getD []).string.isEmpty = true → (p.parts v).numbers ≠ "" →
      ∃ blanks rest, p.fragment v = (p.parts v).bar ++
          (String.ofList (List.replicate blanks ' ') ++ Size.text (ofNat n)) ++ rest ++
          (p.parts v).estimate ∧
        blanks + (Size.text (ofNat n)).length = 8 ∧
        (rest = "" ∨ rest = "/" ++ Size.text (p.total.getD 0)) := by
  refine ⟨fun n hn => ?_, fun m n hle hn => ?_, fun p v n hn hcurrent hunits hshown => ?_⟩
  · obtain ⟨r, h⟩ := Size.exists_isShown hn
    exact ⟨_, h.ofText?_text, h.abs_value_sub_le, h.number_bounds.1, h.number_bounds.2,
      h.length_text_le⟩
  · obtain ⟨r, h⟩ := Size.exists_isShown (hle.trans_lt hn)
    obtain ⟨s, h'⟩ := Size.exists_isShown hn
    exact ⟨_, _, h.ofText?_text, h'.ofText?_text, h.value_le h' hle⟩
  · obtain ⟨r, h⟩ := Size.exists_isShown hn
    have hmost := h.length_text_le
    obtain ⟨rest, hnumbers, hrest⟩ := (numbers_cases hunits).resolve_left hshown
    refine ⟨8 - (Size.text (ofNat n)).length, rest, ?_, by omega, hrest⟩
    rw [fragment_eq hunits, hnumbers, hcurrent, sizeColumn, Text.padLeft, h.width_text]
    simp only [String.append_assoc]

/-- A size that four digits make a thousand kilobytes is not read as more than the megabyte that
follows it. -/
theorem size_next_to_megabyte :
    let p : Progress := { current := some 999950, total := some 1000000 }
    let v : Viewport := { width := some 80 }
    ∃ s t, Size.Scaled.ofText? (Size.text (ofNat 999950)) = some s ∧
      Size.Scaled.ofText? (Size.text (ofNat 1000000)) = some t ∧ s.value ≤ t.value ∧
      |s.value - (999950 : Nat)| ≤ 51 / 100000 * (999950 : Nat) ∧
      ∃ blanks rest, p.fragment v = (p.parts v).bar ++
          (String.ofList (List.replicate blanks ' ') ++ Size.text (ofNat 999950)) ++ rest ++
          (p.parts v).estimate ∧
        blanks + (Size.text (ofNat 999950)).length = 8 ∧
        (rest = "" ∨ rest = "/" ++ Size.text (p.total.getD 0)) := by
  intro p v
  obtain ⟨haccurate, hordered, haligned⟩ := sizes_are_ordered_accurate_and_aligned
  obtain ⟨s, hs, hnear, -⟩ := haccurate 999950 (by decide)
  obtain ⟨s', t, hs', ht, hle⟩ := hordered 999950 1000000 (by decide) (by decide)
  obtain rfl : s = s' := Option.some.inj (hs.symm.trans hs')
  exact ⟨s, t, hs, ht, hle, hnear (by decide),
    haligned p v 999950 (by decide) rfl rfl (by decide +kernel)⟩

example : Size.text (ofNat 999950) = "1000kB" ∧ Size.text (ofNat 1000000) = "1MB" := by
  decide +kernel

end Progress
end LiveProgress
