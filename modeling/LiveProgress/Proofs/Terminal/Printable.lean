import LiveProgress.Display.Line
import LiveProgress.Proofs.Number.Characters
import LiveProgress.Proofs.Quantity.Size
import LiveProgress.Terminal.Screen
import Mathlib.Tactic.Common

/-!
# Printable text

What this library writes of numbers, sizes, durations and points in time is put on a screen
character by character, whatever the values are; so is a progress fragment if its units are
printable.
-/

namespace LiveProgress

/-! ### Texts -/

theorem isPrintable_append {a b : String} (ha : IsPrintable a) (hb : IsPrintable b) :
    IsPrintable (a ++ b) := by
  intro c hc
  rw [String.toList_append] at hc
  rcases List.mem_append.mp hc with h | h
  · exact ha c h
  · exact hb c h

theorem isPrintable_ofList {cs : List Char} (h : ∀ c ∈ cs, isControl c = false) :
    IsPrintable (String.ofList cs) := by
  intro c hc
  rw [String.toList_ofList] at hc
  exact h c hc

theorem isPrintable_empty : IsPrintable "" := by decide

theorem isControl_of_isDigit {c : Char} (h : c.isDigit = true) : isControl c = false := by
  obtain ⟨hlow, hhigh⟩ := Char.isDigit_iff_toNat.mp h
  have hlow : 0x30 ≤ c.toNat := hlow
  have hhigh : c.toNat ≤ 0x39 := hhigh
  have hdelete : c ≠ '\x7f' := by
    rintro rfl
    exact absurd hhigh (by decide)
  simp only [isControl, Bool.or_eq_false_iff, decide_eq_false_iff_not, beq_eq_false_iff_ne]
  exact ⟨by omega, hdelete⟩

theorem isControl_of_mem_toDigits {n : Nat} {c : Char} (h : c ∈ Nat.toDigits 10 n) :
    isControl c = false :=
  isControl_of_isDigit (Nat.isDigit_of_mem_toDigits (by decide) (by decide) h)

theorem isPrintable_toString (n : Nat) : IsPrintable (toString n) := by
  rw [Nat.toString_eq_ofList_toDigits]
  exact isPrintable_ofList fun _ => isControl_of_mem_toDigits

theorem isPrintable_replicate {c : Char} (hc : isControl c = false) (n : Nat) :
    IsPrintable (String.ofList (List.replicate n c)) := by
  apply isPrintable_ofList
  intro d hd
  rw [List.eq_of_mem_replicate hd]
  exact hc

theorem isPrintable_padLeft {fill : Char} (hfill : isControl fill = false) (n : Nat)
    {s : String} (h : IsPrintable s) : IsPrintable (Text.padLeft n fill s) :=
  isPrintable_append (isPrintable_replicate hfill _) h

/-! ### Numbers -/

theorem isControl_of_isFigure {c : Char} (h : Number.IsFigure c) : isControl c = false := by
  have hmarks : ∀ mark ∈ ['.', 'e', '+', '-'], isControl mark = false := by decide
  rcases h with hdigit | hmark
  · exact isControl_of_isDigit hdigit
  · exact hmarks c hmark

theorem isPrintable_number (x : Number) : IsPrintable x.text := by
  cases x with
  | undefined =>
    decide
  | infinite negative =>
    cases negative with
    | false => decide
    | true => decide
  | finite q h =>
    exact fun c hc => isControl_of_isFigure (Number.isFigure_of_mem_text rfl hc)

/-! ### Quantities -/

theorem isPrintable_size (x : Number) : IsPrintable (Size.text x) := by
  have hunits : ∀ unit ∈ "" :: Size.units, IsPrintable unit := by decide
  rw [Size.text_eq]
  exact isPrintable_append (isPrintable_number _) (hunits _ (Size.unit_mem x Size.units))

theorem isPrintable_duration (x : Number) : IsPrintable (Duration.text x) := by
  have hsign : IsPrintable (if x.trunc < 0 then "-" else "") := by
    split
    · decide
    · decide
  have hcount {s unit : String} (hs : IsPrintable s) (y : Number) (hu : IsPrintable unit) :
      IsPrintable (s ++ y.text ++ unit) :=
    isPrintable_append (isPrintable_append hs (isPrintable_number y)) hu
  have hrest : IsPrintable ((x.trunc.abs % 60).text ++ "s") :=
    isPrintable_append (isPrintable_number _) (by decide)
  simp only [Duration.text]
  split
  · exact isPrintable_append (hcount (hcount hsign _ (by decide)) _ (by decide)) hrest
  · split
    · exact isPrintable_append (hcount hsign _ (by decide)) hrest
    · exact isPrintable_append hsign hrest

theorem isPrintable_padded (width : Nat) (n : Int) : IsPrintable (padded width n) :=
  isPrintable_padLeft (by decide) width (isPrintable_toString _)

theorem isPrintable_timestamp (nanos : Int) : IsPrintable (timestampText nanos) := by
  have hjoin {s mark : String} (hs : IsPrintable s) (hm : IsPrintable mark) (width : Nat)
      (n : Int) : IsPrintable (s ++ mark ++ padded width n) :=
    isPrintable_append (isPrintable_append hs hm) (isPrintable_padded width n)
  have hdate (d : Date) : IsPrintable d.text := by
    have hyear : IsPrintable (if d.year < 0 then "-" else "") := by
      split
      · decide
      · decide
    exact hjoin (hjoin (isPrintable_append hyear (isPrintable_padded _ _)) (by decide) _ _)
      (by decide) _ _
  have hclock (t : DateTime) : IsPrintable t.clockText :=
    hjoin (hjoin (isPrintable_padded _ _) (by decide) _ _) (by decide) _ _
  refine isPrintable_append (hjoin ?_ (by decide) _ _) (by decide)
  exact isPrintable_append (isPrintable_append (hdate _) (by decide)) (hclock _)

/-! ### Fragments -/

namespace Progress

theorem isPrintable_bar (percentage : Number) : IsPrintable (bar percentage) := by
  have hrepeated {c : Char} (hc : isControl c = false) (n : Number) : IsPrintable (repeated c n) :=
    isPrintable_replicate hc _
  refine isPrintable_append ?_ (by decide)
  refine isPrintable_append ?_ (hrepeated (by decide) _)
  refine isPrintable_append ?_ (by decide)
  exact isPrintable_append (by decide) (hrepeated (by decide) _)

theorem isPrintable_sizeColumn (size : Number) : IsPrintable (sizeColumn size) :=
  isPrintable_padLeft (by decide) 8 (isPrintable_size size)

/-- A count with its unit of measure. -/
theorem isPrintable_count (x : Number) {units : String} (h : IsPrintable units) :
    IsPrintable (x.text ++ " " ++ units) :=
  isPrintable_append (isPrintable_append (isPrintable_number x) (by decide)) h

theorem isPrintable_counts (current total : Number) {units : String} (h : IsPrintable units) :
    IsPrintable (counts current total units) := by
  unfold counts
  split
  · split
    · exact isPrintable_sizeColumn current
    · exact isPrintable_append (isPrintable_append (isPrintable_sizeColumn current) (by decide))
        (isPrintable_size total)
  · split
    · exact isPrintable_count current h
    · refine isPrintable_append (isPrintable_append ?_ (by decide)) h
      exact isPrintable_append (isPrintable_append (isPrintable_number current) (by decide))
        (isPrintable_number total)

theorem isPrintable_fragment (p : Progress) (v : Viewport)
    (h : IsPrintable (p.units.getD []).string) : IsPrintable (p.fragment v) := by
  simp only [fragment]
  split
  · decide
  · split
    · split
      · exact isPrintable_sizeColumn _
      · exact isPrintable_count _ h
    · refine isPrintable_append (isPrintable_append ?_ ?_) ?_
      · split
        · exact isPrintable_bar _
        · decide
      · split
        · decide
        · exact isPrintable_counts _ _ h
      · split
        · exact isPrintable_append (by decide) (isPrintable_duration _)
        · decide

end Progress
end LiveProgress
