import LiveProgress.Proofs.Number.Digits
import LiveProgress.Proofs.Number.Integer
import LiveProgress.Proofs.Text.Units
import LiveProgress.Quantity.Fields
import Mathlib.Data.List.Lex
import Mathlib.Order.Defs.LinearOrder

/-!
# Fields read and compared

Fields that are written one behind the other can be read back, as no mark is a digit. Where the
numbers fit their places, all texts of a layout have one length and are ordered as the fields are.
-/

namespace LiveProgress

/-- Of lists whose beginnings have one length, the beginnings are compared first. -/
theorem append_lt_append_iff {α : Type} [LinearOrder α] {a b s t : List α}
    (h : a.length = b.length) : a ++ s < b ++ t ↔ a < b ∨ a = b ∧ s < t := by
  induction a generalizing b with
  | nil =>
    obtain rfl := List.length_eq_zero_iff.mp h.symm
    simp
  | cons x a ih =>
    obtain ⟨y, b, rfl⟩ := List.exists_cons_of_length_eq_add_one h.symm
    rw [List.cons_append, List.cons_append, List.cons_lt_cons_iff, List.cons_lt_cons_iff,
      ih (Nat.succ.inj h), List.cons.injEq]
    tauto

namespace FieldFormat

variable {f : FieldFormat} {n : Nat} {digits other : List Char}

/-- Numbers that their places hold. -/
def Fits (f : FieldFormat) (n : Nat) : Prop := n < 10 ^ f.places

theorem Writes.lt_pow (h : f.Writes n digits) : n < 10 ^ digits.length := by
  rw [← h.value]
  exact Number.digitsValue_lt h.isDigit

/-- A number that takes more than its places needs all of its digits. -/
theorem Writes.pow_le (h : f.Writes n digits) (hlong : f.places < digits.length) :
    10 ^ (digits.length - 1) ≤ n := by
  obtain ⟨c, rest, rfl⟩ := List.exists_cons_of_length_pos (Nat.zero_lt_of_lt hlong)
  rw [← h.value]
  exact Number.pow_le_digitsValue (h.isDigit c List.mem_cons_self) (h.head_ne_zero hlong c rfl) rest

theorem Writes.length_le {count : Nat} (h : f.Writes n digits) (hplaces : f.places ≤ count)
    (hn : n < 10 ^ count) : digits.length ≤ count := by
  refine Nat.le_of_not_lt fun hlong => ?_
  have hlarge := h.pow_le (Nat.lt_of_le_of_lt hplaces hlong)
  have hcount : 10 ^ count ≤ 10 ^ (digits.length - 1) :=
    Nat.pow_le_pow_right (by decide) (Nat.le_pred_of_lt hlong)
  exact absurd hn (Nat.not_lt.mpr (Nat.le_trans hcount hlarge))

theorem Writes.length_eq (h : f.Writes n digits) (hn : f.Fits n) : digits.length = f.places :=
  Nat.le_antisymm (h.length_le (Nat.le_refl _) hn) h.places_le

/-- There is one way to write a number. -/
theorem Writes.unique (h : f.Writes n digits) (hother : f.Writes n other) : digits = other := by
  have hlength := Nat.le_antisymm (h.length_le hother.places_le hother.lt_pow)
    (hother.length_le h.places_le h.lt_pow)
  exact Number.digitsValue_inj hlength h.isDigit hother.isDigit (h.value.trans hother.value.symm)

theorem Writes.take? (h : f.Writes n digits) (hmark : f.mark.isDigit = false) (rest : List Char) :
    f.take? (digits ++ f.mark :: rest) = some (n, rest) := by
  have hstop : ¬ f.mark.isDigit = true := Bool.eq_false_iff.mp hmark
  have hdigits : (digits ++ f.mark :: rest).takeWhile Char.isDigit = digits := by
    rw [List.takeWhile_append_of_pos h.isDigit, List.takeWhile_cons_of_neg hstop, List.append_nil]
  have hrest : (digits ++ f.mark :: rest).dropWhile Char.isDigit = f.mark :: rest := by
    rw [List.dropWhile_append_of_pos h.isDigit, List.dropWhile_cons_of_neg hstop]
  simp only [FieldFormat.take?, hdigits, hrest]
  rw [if_pos ⟨trivial, h.places_le⟩, h.value]

theorem toList_padded (places : Nat) (n : Int) :
    (padded places n).toList =
      (⟨places - (Nat.toDigits 10 n.natAbs).length, n.natAbs⟩ : Number.Numeral).digits := by
  have hdigits : (toString n.natAbs).toList = Nat.toDigits 10 n.natAbs := by
    rw [Nat.toString_eq_ofList_toDigits, String.toList_ofList]
  have hwidth : Text.width (Nat.toDigits 10 n.natAbs) = (Nat.toDigits 10 n.natAbs).length := by
    refine Text.width_eq_length fun c hc => ?_
    have hdigit := Nat.isDigit_of_mem_toDigits (by decide) (by decide) hc
    exact Nat.lt_of_le_of_lt (Number.isNear_of_isDigit hdigit).2 (by decide)
  rw [padded, Text.padLeft, String.toList_append, String.toList_ofList, hdigits, hwidth]
  rfl

/-- What is filled up with zeros is written as its places ask for. -/
theorem writes_padded (hplaces : 0 < f.places) (n : Int) :
    f.Writes n.natAbs (padded f.places n).toList := by
  rw [toList_padded]
  constructor
  case isDigit => exact fun c hc => Number.Numeral.isDigit_of_mem hc
  case value => exact Number.Numeral.digitsValue_digits _
  case places_le =>
    simp only [Number.Numeral.digits, List.length_append, List.length_replicate]
    omega
  case head_ne_zero =>
    intro hlong c hc
    simp only [Number.Numeral.digits, List.length_append, List.length_replicate] at hlong hc
    have hfull : f.places - (Nat.toDigits 10 n.natAbs).length = 0 := by omega
    rw [hfull, List.replicate_zero, List.nil_append] at hc
    refine Number.head_toDigits_ne_zero ?_ c hc
    intro hzero
    rw [hzero, Nat.toDigits_zero] at hlong
    simp at hlong
    omega

end FieldFormat

variable {formats : List FieldFormat} {ns ms : List Nat} {s t : List Char}

theorem Spells.readFields? (h : Spells formats ns s)
    (hmarks : ∀ f ∈ formats, f.mark.isDigit = false) : readFields? formats s = some ns := by
  induction h with
  | nil => rfl
  | cons hfield _ ih =>
    obtain ⟨hmark, hmarks⟩ := List.forall_mem_cons.mp hmarks
    simp only [LiveProgress.readFields?, hfield.take? hmark, ih hmarks, Option.map_some]

theorem Spells.unique (hs : Spells formats ns s) (ht : Spells formats ns t) : s = t := by
  induction hs generalizing t with
  | nil =>
    cases ht
    rfl
  | cons hfield _ ih =>
    obtain _ | ⟨hother, hrest⟩ := ht
    rw [hfield.unique hother, ih hrest]

theorem Spells.length_eq (h : Spells formats ns s) (hn : formats.Forall₂ FieldFormat.Fits ns) :
    s.length = (formats.map fun f => f.places + 1).sum := by
  induction h with
  | nil => rfl
  | cons hfield _ ih =>
    obtain _ | ⟨hfits, hrest⟩ := hn
    rw [List.length_append, List.length_cons, hfield.length_eq hfits, ih hrest, List.map_cons,
      List.sum_cons]
    omega

theorem Spells.lt (hs : Spells formats ns s) (ht : Spells formats ms t)
    (hn : formats.Forall₂ FieldFormat.Fits ns) (hm : formats.Forall₂ FieldFormat.Fits ms)
    (h : ns < ms) : s < t := by
  induction hs generalizing ms t with
  | nil =>
    cases ht
    exact absurd h (List.not_lt_nil _)
  | cons hleft _ ih =>
    obtain _ | ⟨hright, ht⟩ := ht
    obtain _ | ⟨hfitsLeft, hn⟩ := hn
    obtain _ | ⟨hfitsRight, hm⟩ := hm
    have hlength := (hleft.length_eq hfitsLeft).trans (hright.length_eq hfitsRight).symm
    have hdigits := Number.lt_iff_digitsValue_lt hlength hleft.isDigit hright.isDigit
    rw [append_lt_append_iff hlength, hdigits, hleft.value, hright.value]
    rcases List.cons_lt_cons_iff.mp h with hfirst | ⟨rfl, hlater⟩
    · exact .inl hfirst
    · exact .inr ⟨hleft.unique hright, List.cons_lt_cons_iff.mpr (.inr ⟨rfl, ih ht hn hm hlater⟩)⟩

end LiveProgress
