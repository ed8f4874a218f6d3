import LiveProgress.Proofs.Number.Fixed
import LiveProgress.Proofs.Template.Conditionals
import LiveProgress.Proofs.Text.Units
import LiveProgress.Template.Printf

/-!
# Where numbers are written as in C

What reads as a conversion is spelled as one, so the conversions that are accepted are known. Each
writes a number that is not negative as a mark and digits in a field, and so does C. As digits are
neither blanks nor marks, the texts are the same exactly if the digits are, and the marks, as far as
these are seen.
-/

namespace LiveProgress.Template

/-! ### Accepted conversions -/

theorem Flag.eq_of_ofUnit? {u : CodeUnit} {f : Flag} (h : ofUnit? u = some f) :
    u = CodeUnit.ofChar f.char := by
  have hchar : u.toChar = f.char := by
    unfold ofUnit? at h
    split at h
    case h_6 => cases h
    all_goals
      rename_i heq
      rw [heq, ← Option.some.inj h]
      rfl
  exact CodeUnit.eq_ofChar_of_toChar hchar (by cases f <;> decide)

theorem Conversion.eq_of_ofUnit? {u : CodeUnit} {c : Conversion} (h : ofUnit? u = some c) :
    u = CodeUnit.ofChar c.char := by
  have hchar : u.toChar = c.char := by
    unfold ofUnit? at h
    split at h
    case h_6 => cases h
    all_goals
      rename_i heq
      rw [heq, ← Option.some.inj h]
      rfl
  exact CodeUnit.eq_ofChar_of_toChar hchar (by cases c <;> decide)

namespace Format

theorem eq_of_takeColon {s rest : Text} {colon : Bool} (h : takeColon s = (colon, rest)) :
    s = (if colon then [':'] else []).map CodeUnit.ofChar ++ rest := by
  unfold takeColon at h
  split at h
  · obtain ⟨rfl, rfl⟩ := Prod.mk.inj h
    rfl
  · split at h
    · rename_i hcolon
      obtain ⟨rfl, rfl⟩ := Prod.mk.inj h
      rw [CodeUnit.eq_ofChar_of_toChar hcolon (by decide)]
      rfl
    · obtain ⟨rfl, rfl⟩ := Prod.mk.inj h
      rfl

/-- A run of flags is spelled by them. -/
theorem map_filterMap_read? {colon : Bool} {run : Text}
    (h : ∀ u ∈ run, (Flag.read? colon u).isSome = true) :
    ((run.filterMap (Flag.read? colon)).map Flag.char).map CodeUnit.ofChar = run := by
  induction run with
  | nil => rfl
  | cons u run ih =>
    obtain ⟨hu, hrun⟩ := List.forall_mem_cons.mp h
    obtain ⟨f, hf⟩ := Option.isSome_iff_exists.mp hu
    have hunit := Flag.eq_of_ofUnit? (Option.filter_eq_some_iff.mp hf).1
    rw [List.filterMap_cons_some hf, List.map_cons, List.map_cons, ih hrun, hunit]

theorem exists_of_takeFlags {s rest : Text} {flags : List Flag}
    (h : takeFlags s = (flags, rest)) :
    ∃ colon : Bool, (colon = true ∨ ∀ f ∈ flags, f.isPlain = true) ∧
      s = (if colon then [':'] else []).map CodeUnit.ofChar ++
        ((flags.map Flag.char).map CodeUnit.ofChar ++ rest) ∧
      ∀ u ∈ rest.head?, u.toChar ≠ '0' := by
  obtain ⟨colon, tail, hcolon⟩ : ∃ colon tail, takeColon s = (colon, tail) := ⟨_, _, rfl⟩
  unfold takeFlags at h
  rw [hcolon] at h
  obtain ⟨rfl, rfl⟩ := Prod.mk.inj h
  refine ⟨colon, ?_, ?_, ?_⟩
  · cases colon with
    | true => exact .inl rfl
    | false =>
      refine .inr fun f hf => ?_
      obtain ⟨u, -, hu⟩ := List.mem_filterMap.mp hf
      exact (Option.filter_eq_some_iff.mp hu).2
  · rw [map_filterMap_read? fun u hu => by simpa using List.mem_takeWhile_imp hu,
      List.takeWhile_append_dropWhile]
    exact eq_of_takeColon hcolon
  · intro u hu hzero
    have hflag : Flag.ofUnit? u = some .zero := by
      rw [Flag.ofUnit?, hzero]
      rfl
    have hread : (Flag.read? colon u).isSome = true := by
      rw [Flag.read?, hflag]
      cases colon <;> rfl
    have hfirst := List.head?_dropWhile_not (fun u => (Flag.read? colon u).isSome) tail
    rw [Option.mem_def.mp hu] at hfirst
    exact Bool.false_ne_true (hfirst.symm.trans hread)

theorem of_takeDigits {s rest : Text} {digits : List Char}
    (h : Number.takeDigits s = (digits, rest)) :
    s = digits.map CodeUnit.ofChar ++ rest ∧ ∀ c ∈ digits, c.isDigit = true := by
  obtain ⟨rfl, rfl⟩ := Prod.mk.inj h
  have hdigit : ∀ u ∈ s.takeWhile CodeUnit.isDigit, u.toChar.isDigit = true := by
    intro u hu
    have hunit : u.isDigit = true := List.mem_takeWhile_imp hu
    exact hunit
  constructor
  · have hrun : ((s.takeWhile CodeUnit.isDigit).map CodeUnit.toChar).map CodeUnit.ofChar =
        s.takeWhile CodeUnit.isDigit := by
      rw [List.map_map]
      refine (List.map_congr_left fun u hu => ?_).trans (List.map_id _)
      have hnear := Number.isNear_of_isDigit (hdigit u hu)
      exact (CodeUnit.eq_ofChar_of_toChar rfl (Nat.lt_of_le_of_lt hnear.2 (by decide))).symm
    rw [hrun, List.takeWhile_append_dropWhile]
  · intro c hc
    obtain ⟨u, hu, rfl⟩ := List.mem_map.mp hc
    exact hdigit u hu

theorem exists_of_takePrecision {s rest : Text} {precision : Option Nat}
    (h : takePrecision s = (precision, rest)) :
    ∃ n : Option Number.Numeral, n.map (·.value) = precision ∧
      s = (n.elim [] fun n => '.' :: n.digits).map CodeUnit.ofChar ++ rest := by
  have hnothing (h : (none, s) = (precision, rest)) :
      ∃ n : Option Number.Numeral, n.map (·.value) = precision ∧
        s = (n.elim [] fun n => '.' :: n.digits).map CodeUnit.ofChar ++ rest := by
    obtain ⟨rfl, rfl⟩ := Prod.mk.inj h
    exact ⟨none, rfl, rfl⟩
  unfold takePrecision at h
  split at h
  · exact hnothing h
  · rename_i u tail
    split at h
    · rename_i hpoint
      split at h
      · exact hnothing h
      · rename_i digits rest' hne htake
        obtain ⟨rfl, rfl⟩ := Prod.mk.inj h
        obtain ⟨htail, hdigit⟩ := of_takeDigits htake
        obtain ⟨n, hn⟩ := Number.exists_numeral hdigit (fun hnil => hne hnil)
        refine ⟨some n, ?_, ?_⟩
        · rw [Option.map_some, ← hn, n.digitsValue_digits]
        · rw [CodeUnit.eq_ofChar_of_toChar hpoint (by decide), htail, ← hn]
          rfl
    · exact hnothing h

/-- The width is spelled by its digits, since zeros in front of it are flags. -/
theorem spelling_of_width {s rest : Text} {digits : List Char}
    (h : Number.takeDigits s = (digits, rest)) (hhead : ∀ u ∈ s.head?, u.toChar ≠ '0') :
    (if Number.digitsValue digits = 0 then [] else Nat.toDigits 10 (Number.digitsValue digits)) =
      digits := by
  obtain ⟨hs, hdigit⟩ := of_takeDigits h
  cases digits with
  | nil => rfl
  | cons c digits =>
    have hc : c.isDigit = true := hdigit c List.mem_cons_self
    have hunit := (Number.isNear_of_isDigit hc).toChar_ofChar
    have hzero : c ≠ '0' := by
      rw [← hunit]
      exact hhead _ (by rw [hs]; rfl)
    have hvalue : Number.digitsValue (c :: digits) ≠ 0 := by
      have hbound := Number.pow_le_digitsValue hc hzero digits
      have hpow : 0 < 10 ^ digits.length := Nat.pow_pos (by decide)
      omega
    rw [if_neg hvalue, Number.toDigits_digitsValue hdigit hzero]

/-- What is accepted as a conversion is spelled as one. -/
theorem exists_of_ofUnits? {s rest : Text} {f : Format} (h : ofUnits? s = some (f, rest)) :
    ∃ w : WrittenFormat, w.format = f ∧ s = w.spelling.map CodeUnit.ofChar ++ rest := by
  obtain ⟨flags, s₁, hflags⟩ : ∃ flags s₁, takeFlags s = (flags, s₁) := ⟨_, _, rfl⟩
  obtain ⟨width, s₂, hwidth⟩ : ∃ width s₂, Number.takeDigits s₁ = (width, s₂) := ⟨_, _, rfl⟩
  obtain ⟨precision, s₃, hprecision⟩ : ∃ precision s₃, takePrecision s₂ = (precision, s₃) :=
    ⟨_, _, rfl⟩
  obtain ⟨colon, hreadable, hs, hhead⟩ := exists_of_takeFlags hflags
  obtain ⟨n, hn, hs₂⟩ := exists_of_takePrecision hprecision
  simp only [ofUnits?, hflags, hwidth, hprecision] at h
  cases s₃ with
  | nil => cases h
  | cons u tail =>
    obtain ⟨conversion, hconversion, hformat⟩ := Option.map_eq_some_iff.mp h
    obtain ⟨rfl, rfl⟩ := Prod.mk.inj hformat
    let w : WrittenFormat := {
      colon, flags, width := Number.digitsValue width, precision := n, conversion
      readable := hreadable }
    have hspelling : w.widthSpelling = width := spelling_of_width hwidth hhead
    refine ⟨w, ?_, ?_⟩
    · rw [← hn]
      rfl
    · rw [WrittenFormat.spelling, hspelling, hs, (of_takeDigits hwidth).1, hs₂,
        Conversion.eq_of_ofUnit? hconversion]
      simp [w, WrittenFormat.colonSpelling, WrittenFormat.precisionSpelling]

end Format

/-! ### Digits -/

/-- The digits of all bases. -/
def figures : List Char := "0123456789abcdefABCDEF".toList

theorem mem_figures_of_mem_toDigits {base n : Nat} (hbase : 1 < base) (hmost : base ≤ 16) :
    ∀ c ∈ Nat.toDigits base n, c ∈ figures := by
  have hdigit : ∀ d < 16, Nat.digitChar d ∈ figures := by decide
  induction n using Nat.strongRecOn with
  | ind n ih =>
    rcases Nat.lt_or_ge n base with hlt | hge
    · rw [Nat.toDigits_of_lt_base hlt]
      intro c hc
      rw [List.mem_singleton.mp hc]
      exact hdigit n (by omega)
    · rw [Nat.toDigits_of_base_le hbase hge]
      intro c hc
      have hmod : n % base < base := Nat.mod_lt _ (by omega)
      rcases List.mem_append.mp hc with hfront | hlast
      · exact ih (n / base) (Nat.div_lt_self (by omega) hbase) c hfront
      · rw [List.mem_singleton.mp hlast]
        exact hdigit _ (by omega)

/-- Zeros in front of digits are digits. -/
theorem mem_figures_of_mem_zeros_append {own : List Char} (h : ∀ c ∈ own, c ∈ figures)
    (count : Nat) : ∀ c ∈ List.replicate count '0' ++ own, c ∈ figures := by
  intro c hc
  rcases List.mem_append.mp hc with hzero | hown
  · rw [List.eq_of_mem_replicate hzero]
    decide
  · exact h c hown

namespace Conversion

variable (c : Conversion) (n : Nat)

theorem mem_figures {d : Char} (h : d ∈ c.digits n) : d ∈ figures := by
  have hbase : 1 < c.base ∧ c.base ≤ 16 := by cases c <;> decide
  have hplain := mem_figures_of_mem_toDigits (n := n) hbase.1 hbase.2
  unfold digits at h
  split at h
  · have hupper : ∀ d ∈ figures, d.toUpper ∈ figures := by decide
    obtain ⟨e, he, rfl⟩ := List.mem_map.mp h
    exact hupper e (hplain e he)
  · exact hplain d h

theorem digits_ne_nil : c.digits n ≠ [] := by
  unfold digits
  split
  · exact mt List.map_eq_nil_iff.mp Nat.toDigits_ne_nil
  · exact Nat.toDigits_ne_nil

/-- A number of up to 53 bits has no more digits than bits. -/
theorem length_digits_le {n : Nat} (h : n < significandBound) :
    (c.digits n).length ≤ Text.maxLength := by
  have hlength : (c.digits n).length = (Nat.toDigits c.base n).length := by
    unfold digits
    split
    · exact List.length_map _
    · rfl
  have hbase : 2 ≤ c.base := by cases c <;> decide
  have hpow : n < c.base ^ 53 := Nat.lt_of_lt_of_le h (Nat.pow_le_pow_left hbase 53)
  have hdigits := (Nat.length_toDigits_le_iff (b := c.base) (by omega) (by decide)).mpr hpow
  rw [hlength]
  exact Nat.le_trans hdigits (by decide)

end Conversion

/-! ### What templates write -/

theorem wholeText_ofNat {n : Nat} (h : n < significandBound) (base : Nat) :
    ((Number.ofNat n).wholeText base).toList = Nat.toDigits base n := by
  have hwhole := Number.wholePart_ofNat h
  rw [Number.ofNat_eq_finite h] at hwhole ⊢
  rw [Number.wholeText]
  simp [hwhole]

/-! ### Texts that are not too long -/

section Fitting

variable {s t : List Char}

theorem fitting?_of_le (h : s.length ≤ Text.maxLength) : fitting? s = some (String.ofList s) :=
  if_pos h

/-- Filling makes a text too long exactly if the field is. -/
theorem padLeft?_ofList (h : ∀ c ∈ s, c.toNat < 0x10000) (hs : s.length ≤ Text.maxLength)
    (count : Nat) (fill : Char) :
    Text.padLeft? count fill (String.ofList s) =
      fitting? (List.replicate (count - s.length) fill ++ s) := by
  have hpad : Text.padLeft count fill (String.ofList s) =
      String.ofList (List.replicate (count - s.length) fill ++ s) := by
    rw [Text.padLeft, String.toList_ofList, Text.width_eq_length h, String.ofList_append]
  rw [Text.padLeft?, hpad, String.toList_ofList, Text.width_eq_length h, fitting?,
    List.length_append, List.length_replicate]
  split_ifs <;> first | rfl | omega

theorem padRight?_ofList (h : ∀ c ∈ s, c.toNat < 0x10000) (hs : s.length ≤ Text.maxLength)
    (count : Nat) (fill : Char) :
    Text.padRight? count fill (String.ofList s) =
      fitting? (s ++ List.replicate (count - s.length) fill) := by
  rw [Text.padRight?, String.toList_ofList, Text.width_eq_length h, fitting?,
    List.length_append, List.length_replicate, ← String.ofList_append]
  split_ifs <;> first | rfl | omega

/-- What is too long stays too long with a text in front of it. -/
theorem fitting?_bind_append? (hs : ∀ c ∈ s, c.toNat < 0x10000)
    (ht : ∀ c ∈ t, c.toNat < 0x10000) :
    (fitting? t).bind (Text.append? (String.ofList s)) = fitting? (s ++ t) := by
  unfold fitting?
  by_cases h : t.length ≤ Text.maxLength
  · rw [if_pos h, Option.bind_some, Text.append?, String.toList_ofList, String.toList_ofList,
      Text.width_eq_length hs, Text.width_eq_length ht, List.length_append, ← String.ofList_append]
    split_ifs <;> first | rfl | omega
  · rw [if_neg h, if_neg (by rw [List.length_append]; omega)]
    rfl

end Fitting

/-! ### What conversions write -/

namespace Format

variable (f : Format) {n : Nat}

theorem mem_figures_of_mem_ownDigits {c : Char} (h : c ∈ f.ownDigits n) : c ∈ figures := by
  have hdigits : ∀ c ∈ f.conversion.digits n, c ∈ figures := fun c => f.conversion.mem_figures n
  unfold ownDigits at h
  split at h
  · exact mem_figures_of_mem_zeros_append hdigits _ c h
  · exact hdigits c h

theorem ownDigits_ne_nil : f.ownDigits n ≠ [] := by
  unfold ownDigits
  split
  · exact List.append_ne_nil_of_right_ne_nil _ (f.conversion.digits_ne_nil n)
  · exact f.conversion.digits_ne_nil n

theorem mark_eq_nil_or_plus : f.mark = [] ∨ f.mark = ['+'] := by
  unfold mark
  split
  · exact .inr rfl
  · exact .inl rfl

theorem toNat_lt_of_mem_figures {c : Char} (h : c ∈ figures) : c.toNat < 0x10000 := by
  have hall : ∀ c ∈ figures, c.toNat < 0x10000 := by decide
  exact hall c h

theorem toNat_lt_of_mem_mark {c : Char} (h : c ∈ f.mark) : c.toNat < 0x10000 := by
  rcases f.mark_eq_nil_or_plus with hnil | hplus
  · rw [hnil] at h
    exact absurd h List.not_mem_nil
  · rw [hplus] at h
    rw [List.mem_singleton.mp h]
    decide

theorem body_ofNat (hconversion : f.conversion ≠ .text) (h : n < significandBound) :
    f.body (.ofNat n) = fitting? (f.mark ++ f.ownDigits n) := by
  have hfew := f.conversion.length_digits_le h
  have hsmall : ∀ c ∈ f.conversion.digits n, c.toNat < 0x10000 :=
    fun c hc => toNat_lt_of_mem_figures (f.conversion.mem_figures n hc)
  by_cases hdecimal : f.conversion = .decimal
  · have hmark : (if Flag.plus ∈ f.flags then "+" else "") = String.ofList f.mark := by
      simp only [mark, hdecimal, true_and]
      split <;> rfl
    have hdigits : f.conversion.digits n = Nat.toDigits 10 n := by
      rw [hdecimal]
      rfl
    have htext : (Number.ofNat n).text = String.ofList (f.conversion.digits n) := by
      rw [hdigits]
      exact (Number.text_ofNat h).trans Nat.toString_eq_ofList_toDigits
    have hown : f.ownDigits n = List.replicate
        (f.precision.getD 0 - (f.conversion.digits n).length) '0' ++ f.conversion.digits n := by
      rw [ownDigits, if_pos hdecimal]
      rfl
    have hprecise : ∀ c ∈ f.ownDigits n, c.toNat < 0x10000 :=
      fun c hc => toNat_lt_of_mem_figures (f.mem_figures_of_mem_ownDigits hc)
    rw [body, hdecimal]
    simp only [Number.trunc_ofNat, Number.abs_ofNat, if_neg (Number.not_ofNat_neg n), htext]
    rw [padLeft?_ofList hsmall hfew, hmark, ← hown]
    exact fitting?_bind_append? (fun c => f.toNat_lt_of_mem_mark) hprecise
  · have hmark : f.mark = [] := by
      rw [mark, if_neg fun hboth => hdecimal hboth.1]
    have hown : f.ownDigits n = f.conversion.digits n := if_neg hdecimal
    rw [hmark, hown, List.nil_append, fitting?_of_le hfew]
    unfold body Conversion.digits
    cases hc : f.conversion with
    | decimal => exact absurd hc hdecimal
    | text => exact absurd hc hconversion
    | octal => simp [Number.trunc_ofNat, ← wholeText_ofNat h, Conversion.base]
    | hex => simp [Number.trunc_ofNat, ← wholeText_ofNat h, Conversion.base]
    | upperHex =>
      simp [Number.trunc_ofNat, ← wholeText_ofNat h, Conversion.base, String.toUpper,
        ← String.toList_map]

/-- Zeros up to the width leave no room for blanks. -/
theorem place_zeroFilled (hleft : Flag.left ∉ f.flags) (mark digits : List Char) :
    f.place mark (f.zeroFilled mark digits) = mark ++ f.zeroFilled mark digits := by
  have hfull : f.width - (mark ++ f.zeroFilled mark digits).length = 0 := by
    simp only [zeroFilled, List.length_append, List.length_replicate]
    omega
  rw [place, hfull, if_neg hleft]
  rfl

theorem fill_of_length_le (hconversion : f.conversion ≠ .text) {digits : List Char}
    (hdigits : ∀ c ∈ digits, c ∈ figures) (hne : digits ≠ [])
    (hfit : (f.mark ++ digits).length ≤ Text.maxLength) :
    f.fill (String.ofList (f.mark ++ digits)) =
      fitting? (f.place f.mark (if Flag.left ∉ f.flags ∧ Flag.zero ∈ f.flags then
        f.zeroFilled f.mark digits else digits)) := by
  have hrest : ∀ c ∈ digits, c.toNat < 0x10000 :=
    fun c hc => toNat_lt_of_mem_figures (hdigits c hc)
  have hall : ∀ c ∈ f.mark ++ digits, c.toNat < 0x10000 := by
    intro c hc
    rcases List.mem_append.mp hc with hmark | hdigit
    · exact f.toNat_lt_of_mem_mark hmark
    · exact hrest c hdigit
  unfold fill
  by_cases hleft : Flag.left ∈ f.flags
  · rw [if_pos hleft, padRight?_ofList hall hfit, if_neg fun hboth => hboth.1 hleft, place,
      if_pos hleft]
  · by_cases hzero : Flag.zero ∈ f.flags
    · have hboth : Flag.zero ∈ f.flags ∧ f.conversion ≠ .text := ⟨hzero, hconversion⟩
      rw [if_neg hleft, if_pos hboth, if_pos ⟨hleft, hzero⟩, f.place_zeroFilled hleft,
        String.toList_ofList]
      rcases f.mark_eq_nil_or_plus with hnil | hplus
      · obtain ⟨c, rest, rfl⟩ := List.exists_cons_of_ne_nil hne
        have hsign : ¬ (c = '-' ∨ c = '+') := by
          have hfigure : ∀ c ∈ figures, ¬ (c = '-' ∨ c = '+') := by decide
          exact hfigure c (hdigits c List.mem_cons_self)
        rw [hnil] at hall hfit ⊢
        simp only [List.nil_append, if_neg hsign, zeroFilled]
        exact padLeft?_ofList hall hfit f.width '0'
      · have hplain : ∀ c ∈ ['+'], c.toNat < 0x10000 := by decide
        have hcount : f.width - 1 - digits.length = f.width - (1 + digits.length) := by omega
        have hfilled : ∀ c ∈ List.replicate (f.width - (1 + digits.length)) '0' ++ digits,
            c.toNat < 0x10000 :=
          fun c hc => toNat_lt_of_mem_figures (mem_figures_of_mem_zeros_append hdigits _ c hc)
        have hshort : digits.length ≤ Text.maxLength := by
          rw [List.length_append] at hfit
          omega
        rw [hplus, zeroFilled, List.length_append, List.length_singleton]
        simp only [List.singleton_append, or_true, if_true, padLeft?_ofList hrest hshort, hcount]
        exact fitting?_bind_append? hplain hfilled
    · have hnone : ¬ (Flag.zero ∈ f.flags ∧ f.conversion ≠ .text) := fun hboth => hzero hboth.1
      rw [if_neg hleft, if_neg hnone, padLeft?_ofList hall hfit, if_neg fun hboth => hzero hboth.2,
        place, if_neg hleft]

/-- A field has room for what stands in it. -/
theorem length_le_place (mark digits : List Char) :
    (mark ++ digits).length ≤ (f.place mark digits).length := by
  unfold place
  split
  · exact (List.prefix_append _ _).length_le
  · exact (List.suffix_append _ _).length_le

/-- A template writes a mark and digits in a field, if the field is not too long for a text. -/
theorem text_ofNat (hconversion : f.conversion ≠ .text) (h : n < significandBound) :
    f.text (some (.ofNat n)) = fitting? (f.place f.mark (f.digits n)) := by
  have htext : f.text (some (.ofNat n)) = (f.body (.ofNat n)).bind f.fill := by
    unfold text
    cases hc : f.conversion <;> rfl
  rw [htext, f.body_ofNat hconversion h]
  by_cases hfit : (f.mark ++ f.ownDigits n).length ≤ Text.maxLength
  · rw [fitting?_of_le hfit, Option.bind_some,
      f.fill_of_length_le hconversion (fun _ => f.mem_figures_of_mem_ownDigits) f.ownDigits_ne_nil
        hfit, digits]
  · have hlonger : (f.mark ++ f.ownDigits n).length ≤ (f.place f.mark (f.digits n)).length := by
      have hplace := f.length_le_place f.mark (f.digits n)
      have hdigits : (f.ownDigits n).length ≤ (f.digits n).length := by
        unfold digits
        split
        · exact (List.suffix_append _ _).length_le
        · exact le_rfl
      rw [List.length_append] at hplace ⊢
      omega
    rw [fitting?, fitting?, if_neg hfit, if_neg (by omega)]
    rfl

/-! ### Comparison -/

theorem mem_figures_of_mem_digits {c : Char} (h : c ∈ f.digits n) : c ∈ figures := by
  have hown : ∀ c ∈ f.ownDigits n, c ∈ figures := fun _ => f.mem_figures_of_mem_ownDigits
  unfold digits at h
  split at h
  · exact mem_figures_of_mem_zeros_append hown _ c h
  · exact hown c h

theorem mem_figures_of_mem_cPreciseDigits {c : Char} (h : c ∈ f.cPreciseDigits n) :
    c ∈ figures := by
  have hdigits : ∀ c ∈ f.cOwnDigits n, c ∈ figures := by
    apply mem_figures_of_mem_zeros_append
    split
    · exact fun c hc => absurd hc List.not_mem_nil
    · exact fun c => f.conversion.mem_figures n
  simp only [cPreciseDigits] at h
  split at h
  · rcases List.mem_cons.mp h with rfl | hdigit
    · decide
    · exact hdigits c hdigit
  · exact hdigits c h

theorem mem_figures_of_mem_cDigits {c : Char} (h : c ∈ f.cDigits n) : c ∈ figures := by
  have hdigits : ∀ c ∈ f.cPreciseDigits n, c ∈ figures :=
    fun _ => f.mem_figures_of_mem_cPreciseDigits
  unfold cDigits at h
  split at h
  · exact mem_figures_of_mem_zeros_append hdigits _ c h
  · exact hdigits c h

theorem digits_ne_nil : f.digits n ≠ [] := by
  unfold digits
  split
  · exact List.append_ne_nil_of_right_ne_nil _ f.ownDigits_ne_nil
  · exact f.ownDigits_ne_nil

theorem toNat_lt_of_mem_place {c : Char} (h : c ∈ f.place f.mark (f.digits n)) :
    c.toNat < 0x10000 := by
  have hblank : ∀ c ∈ List.replicate (f.width - (f.mark ++ f.digits n).length) ' ',
      c.toNat < 0x10000 := by
    intro c hc
    rw [List.eq_of_mem_replicate hc]
    decide
  have hdigit : ∀ c ∈ f.digits n, c.toNat < 0x10000 :=
    fun c hc => toNat_lt_of_mem_figures (f.mem_figures_of_mem_digits hc)
  have hmark : ∀ c ∈ f.mark, c.toNat < 0x10000 := fun c => f.toNat_lt_of_mem_mark
  unfold place at h
  split at h
  · rcases List.mem_append.mp h with hc | hc
    · rcases List.mem_append.mp hc with hc | hc
      · exact hmark c hc
      · exact hdigit c hc
    · exact hblank c hc
  · rcases List.mem_append.mp h with hc | hc
    · exact hblank c hc
    · rcases List.mem_append.mp hc with hc | hc
      · exact hmark c hc
      · exact hdigit c hc

/-- The mark in C is the one of templates, or it is a blank or the mark of a base where these have
none. -/
theorem cMark_cases : f.cMark n = f.mark ∨ f.mark = [] ∧ f.cMark n = [' '] ∨
    f.mark = [] ∧ ∃ x ∉ figures, x ≠ ' ' ∧ x ∈ f.cMark n := by
  unfold cMark mark
  cases hc : f.conversion with
  | decimal =>
    by_cases hplus : Flag.plus ∈ f.flags
    · exact .inl (by simp [hplus])
    · by_cases hspace : Flag.space ∈ f.flags
      · exact .inr (.inl (by simp [hplus, hspace]))
      · exact .inl (by simp [hplus, hspace])
  | octal => exact .inl (by simp)
  | text => exact .inl (by simp)
  | hex =>
    dsimp only
    split
    · exact .inr (.inr ⟨rfl, 'x', by decide, by decide, by decide⟩)
    · exact .inl rfl
  | upperHex =>
    dsimp only
    split
    · exact .inr (.inr ⟨rfl, 'X', by decide, by decide, by decide⟩)
    · exact .inl rfl

theorem filter_eq_self_of_figures {digits : List Char} (h : ∀ c ∈ digits, c ∈ figures) :
    digits.filter (· ≠ ' ') = digits := by
  have hblank : ∀ c ∈ figures, c ≠ ' ' := by decide
  rw [List.filter_eq_self]
  intro c hc
  exact decide_eq_true (hblank c (h c hc))

/-- What is left of a placed text without its blanks. -/
theorem filter_place {mark digits : List Char} (h : ∀ c ∈ digits, c ∈ figures) :
    (f.place mark digits).filter (· ≠ ' ') = mark.filter (· ≠ ' ') ++ digits := by
  have hblanks (count : Nat) : (List.replicate count ' ').filter (· ≠ ' ') = [] := by
    simp
  rw [place]
  split
  · rw [List.filter_append, List.filter_append, hblanks, filter_eq_self_of_figures h,
      List.append_nil]
  · rw [List.filter_append, List.filter_append, hblanks, filter_eq_self_of_figures h,
      List.nil_append]

/-- A blank as a mark is not seen exactly if blanks fill the field on the left. -/
theorem place_blank_iff {digits : List Char} (h : ∀ c ∈ digits, c ∈ figures) (hne : digits ≠ []) :
    f.place [] digits = f.place [' '] digits ↔
      Flag.left ∉ f.flags ∧ digits.length < f.width := by
  unfold place
  by_cases hleft : Flag.left ∈ f.flags
  · obtain ⟨c, rest, rfl⟩ := List.exists_cons_of_ne_nil hne
    have hblank : c ≠ ' ' := by
      have hfigure : ∀ c ∈ figures, c ≠ ' ' := by decide
      exact hfigure c (h c List.mem_cons_self)
    simp [hleft, hblank]
  · simp only [hleft, if_false, not_false_eq_true, true_and, List.nil_append,
      List.singleton_append, List.length_cons]
    constructor
    · intro hsame
      have hlength := congrArg List.length hsame
      simp only [List.length_append, List.length_replicate, List.length_cons] at hlength
      omega
    · intro hroom
      have hcount : f.width - digits.length = f.width - (digits.length + 1) + 1 := by omega
      rw [hcount, List.replicate_succ', List.append_assoc]
      rfl

/-- Texts are the same exactly if the digits are and the marks, as far as they are seen. -/
theorem place_eq_printf_iff : f.place f.mark (f.digits n) = f.printf n ↔ f.WritesAsC n := by
  have hdigits : ∀ c ∈ f.digits n, c ∈ figures := fun c => f.mem_figures_of_mem_digits
  have hasked : ∀ c ∈ f.cDigits n, c ∈ figures := fun c => f.mem_figures_of_mem_cDigits
  have hseen (h : f.place f.mark (f.digits n) = f.printf n) :
      f.mark.filter (· ≠ ' ') ++ f.digits n = (f.cMark n).filter (· ≠ ' ') ++ f.cDigits n := by
    rw [← f.filter_place hdigits, h, printf, f.filter_place hasked]
  rw [WritesAsC]
  rcases f.cMark_cases (n := n) with hsame | ⟨hnone, hblank⟩ | ⟨hnone, x, hx, hxblank, hmem⟩
  · constructor
    · intro h
      have hboth := hseen h
      rw [hsame] at hboth
      exact ⟨List.append_cancel_left hboth, .inl hsame.symm⟩
    · rintro ⟨hboth, -⟩
      rw [printf, hboth, hsame]
  · have hplaced (hboth : f.digits n = f.cDigits n) :
        f.place f.mark (f.digits n) = f.printf n ↔
          Flag.left ∉ f.flags ∧ (f.cDigits n).length < f.width := by
      rw [printf, hnone, hblank, hboth]
      exact f.place_blank_iff hasked (hboth ▸ f.digits_ne_nil)
    constructor
    · intro h
      have hboth : f.digits n = f.cDigits n := by
        have hall := hseen h
        rw [hnone, hblank] at hall
        exact hall
      exact ⟨hboth, .inr ⟨hblank, (hplaced hboth).mp h⟩⟩
    · rintro ⟨hboth, hmark | ⟨-, hroom⟩⟩
      · rw [hnone, hblank] at hmark
        cases hmark
      · exact (hplaced hboth).mpr hroom
  -- The mark of a base is seen.
  · constructor
    · intro h
      have hall := hseen h
      have hmem : x ∈ (f.cMark n).filter (· ≠ ' ') ++ f.cDigits n :=
        List.mem_append_left _ (List.mem_filter.mpr ⟨hmem, decide_eq_true hxblank⟩)
      rw [← hall, hnone] at hmem
      exact absurd (hdigits x hmem) hx
    · rintro ⟨-, hmark | ⟨hmark, -⟩⟩
      · rw [← hmark, hnone] at hmem
        exact absurd hmem List.not_mem_nil
      · rw [hmark] at hmem
        exact absurd (List.mem_singleton.mp hmem) hxblank

/-- Without a precision and the flags `#` and ` ` there is no difference. -/
theorem writesAsC_of_plain (hprecision : f.precision = none) (halternate : Flag.alternate ∉ f.flags)
    (hspace : Flag.space ∉ f.flags) : f.WritesAsC n := by
  have hmark : f.mark = f.cMark n := by
    unfold mark cMark
    cases f.conversion <;> simp [halternate, hspace]
  have hprecise (own : List Char) : f.preciseDigits own = own := by
    simp [preciseDigits, hprecision]
  have hown : f.ownDigits n = f.conversion.digits n := by
    rw [ownDigits, hprecise, ite_self]
  have hasked : f.cPreciseDigits n = f.conversion.digits n := by
    simp [cPreciseDigits, cOwnDigits, hprecise, hprecision, halternate]
  refine ⟨?_, .inl hmark⟩
  simp only [digits, cDigits, hown, hasked, hmark, hprecision, and_true]

end Format

/-! ### Expansion -/

/-- A parameter is written with the conversion behind it. -/
theorem expand_write (w : WrittenFormat) (x : Number) :
    expand (Command.escape ['p', '1'] ++ Command.escape w.spelling) [x] =
      match w.format.text (some x) with
      | none => .error .tooLong
      | some text =>
          if Text.maxLength < (Text.ofString text).length then .error .tooLong
          else .ok (Text.ofString text) := by
  have htemplate : Command.escape ['p', '1'] ++ Command.escape w.spelling =
      (Program.command (.parameter 0) (.command (.write w) .done)).template := by
    rw [Program.template, Program.template, Program.template, List.append_nil]
    rfl
  have hgiven : ((Machine.start [x]).push ((Machine.start [x]).parameters.getD 0 0)).stack.head? =
      some x := rfl
  rw [htemplate, expand, Program.run_whole_template]
  simp only [Program.run, Command.instruction?, Machine.step, Except.bind, Fin.val_zero, hgiven]
  cases w.format.text (some x) with
  | none => rfl
  | some text =>
    by_cases hlong : Text.maxLength < (Text.ofString text).length
    · simp [Machine.write, Machine.pop, Machine.push, Machine.start, Except.map, hlong]
    · simp [Machine.write, Machine.pop, Machine.push, Machine.start, Except.map, hlong]

/-- A number is written as a mark and digits in a field, if there is room for it in a text. -/
theorem expand_ofNat (w : WrittenFormat) (hconversion : w.conversion ≠ .text) {n : Nat}
    (h : n < significandBound) :
    expand (Command.escape ['p', '1'] ++ Command.escape w.spelling) [.ofNat n] =
      let placed := w.format.place w.format.mark (w.format.digits n)
      if placed.length ≤ Text.maxLength then .ok (Text.units placed) else .error .tooLong := by
  have hsmall : ∀ c ∈ w.format.place w.format.mark (w.format.digits n), c.toNat < 0x10000 :=
    fun c => w.format.toNat_lt_of_mem_place
  have hlength := (Text.length_units _).trans (Text.width_eq_length hsmall)
  rw [expand_write, w.format.text_ofNat hconversion h, fitting?]
  by_cases hfit : (w.format.place w.format.mark (w.format.digits n)).length ≤ Text.maxLength
  · simp only [if_pos hfit, Text.ofString, String.toList_ofList, hlength,
      if_neg (Nat.not_lt.mpr hfit)]
  · simp only [if_neg hfit]

/-- A text is found in its units. -/
theorem units_inj {s t : List Char} : Text.units s = Text.units t ↔ s = t := by
  constructor
  · intro h
    rw [← Text.chars_units s, h, Text.chars_units]
  · exact congrArg Text.units

/-- Where numbers are written as in C. What is accepted behind a percent sign as a conversion is
what is spelled as one, with a colon or without: any flags, width and precision. For a number of up
to 31 bits the conversions of numbers write what C writes exactly if the digits are the same, those
that fill the field included, and also the mark, or it is a blank in a field that blanks fill; if
only there is room for it in a text. So they do without a precision and without the flags `#` and
` `. -/
theorem numbers_written_as_in_c_iff (n : Nat) (hn : n ≤ 2147483647) :
    (∀ s f, Format.ofUnits? s = some (f, []) ↔
      ∃ w : WrittenFormat, w.format = f ∧ s = w.spelling.map CodeUnit.ofChar) ∧
    ∀ w : WrittenFormat, w.conversion ≠ .text →
      (expand (Command.escape ['p', '1'] ++ Command.escape w.spelling) [.ofNat n] =
          .ok (Text.units (w.format.printf n)) ↔
        w.format.WritesAsC n ∧ (w.format.printf n).length ≤ Text.maxLength) ∧
      (w.precision = none → Flag.alternate ∉ w.flags → Flag.space ∉ w.flags →
        w.format.WritesAsC n) := by
  have hsmall : n < significandBound := Nat.lt_of_le_of_lt hn (by decide)
  constructor
  · intro s f
    constructor
    · intro h
      obtain ⟨w, hw, hs⟩ := Format.exists_of_ofUnits? h
      exact ⟨w, hw, by rw [hs, List.append_nil]⟩
    · rintro ⟨w, rfl, rfl⟩
      have hread : Format.ofUnits? (w.spelling.map CodeUnit.ofChar ++ []) = some (w.format, []) :=
        w.ofUnits?_spelling
      rwa [List.append_nil] at hread
  · intro w hconversion
    constructor
    · rw [← w.format.place_eq_printf_iff, expand_ofNat w hconversion hsmall]
      dsimp only
      constructor
      · intro h
        split at h
        case isTrue hfit =>
          have hsame := units_inj.mp (Except.ok.inj h)
          exact ⟨hsame, hsame ▸ hfit⟩
        case isFalse => cases h
      · rintro ⟨hsame, hfit⟩
        rw [hsame, if_pos hfit]
    · intro hprecision halternate hspace
      have hnone : w.format.precision = none := congrArg (Option.map _) hprecision
      exact w.format.writesAsC_of_plain hnone halternate hspace

/-- Zeros fill the field of a number. -/
theorem zero_filled_number_is_written_as_in_c :
    let w : WrittenFormat :=
      { flags := [.zero], width := 2, conversion := .decimal, readable := by decide }
    Command.escape ['p', '1'] ++ Command.escape w.spelling = Text.ofString "%p1%02d" ∧
      5 ≤ 2147483647 ∧ w.format.WritesAsC 5 ∧
      (w.format.printf 5).length ≤ Text.maxLength ∧
      expand (Text.ofString "%p1%02d") [.ofNat 5] = .ok (Text.units "05".toList) := by
  intro w
  have htemplate : Command.escape ['p', '1'] ++ Command.escape w.spelling =
      Text.ofString "%p1%02d" := by decide
  obtain ⟨-, hall⟩ := numbers_written_as_in_c_iff 5 (by decide)
  obtain ⟨hiff, hplain⟩ := hall w (by decide)
  have hsame := hplain rfl (by decide) (by decide)
  have hprintf : w.format.printf 5 = "05".toList := by decide
  have hfit : (w.format.printf 5).length ≤ Text.maxLength := by
    rw [hprintf]
    decide
  refine ⟨htemplate, by decide, hsame, hfit, ?_⟩
  rw [← htemplate, ← hprintf]
  exact hiff.mpr ⟨hsame, hfit⟩

/-- A precision is passed over where the number is not decimal. -/
theorem hex_has_no_precision :
    expand (Text.ofString "%p1%.2x") [.ofNat 5] = .ok (Text.ofString "5") ∧
      Format.printf { flags := [], width := 0, precision := some 2, conversion := .hex } 5 =
        "05".toList := by
  decide +kernel

end LiveProgress.Template
