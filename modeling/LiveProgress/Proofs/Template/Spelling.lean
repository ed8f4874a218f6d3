import LiveProgress.Proofs.Number.Digits
import LiveProgress.Proofs.Number.Integer
import LiveProgress.Template.Program

/-!
# Reading what is spelled

Behind a percent sign a command reads as itself, whatever stands behind it: a conversion ends with
its letter, an operator does not begin a conversion, and an integer ends with its brace.
-/

namespace LiveProgress.Template

/-! ### Conversions -/

theorem Flag.ofUnit?_char (f : Flag) : ofUnit? (CodeUnit.ofChar f.char) = some f := by
  cases f <;> decide

theorem Conversion.ofUnit?_char (c : Conversion) :
    ofUnit? (CodeUnit.ofChar c.char) = some c := by
  cases c <;> decide

/-- A unit that neither is a flag nor introduces flags. -/
def EndsFlags (u : CodeUnit) : Prop := u.toChar ≠ ':' ∧ Flag.ofUnit? u = none

instance (u : CodeUnit) : Decidable (EndsFlags u) := inferInstanceAs (Decidable (_ ∧ _))

theorem EndsFlags.read? {u : CodeUnit} (h : EndsFlags u) (colon : Bool) :
    Flag.read? colon u = none := by
  rw [Flag.read?, h.2, Option.filter_none]

theorem filterMap_read? {colon : Bool} {flags : List Flag}
    (h : ∀ f ∈ flags, Flag.read? colon (CodeUnit.ofChar f.char) = some f) :
    ((flags.map Flag.char).map CodeUnit.ofChar).filterMap (Flag.read? colon) = flags := by
  induction flags with
  | nil => rfl
  | cons f flags ih =>
    have hfirst := h f List.mem_cons_self
    have hothers := ih fun g hg => h g (List.mem_cons_of_mem _ hg)
    rw [List.map_cons, List.map_cons, List.filterMap_cons_some hfirst, hothers]

theorem endsFlags_of_isDigit {c : Char} (h : c.isDigit = true) (hzero : c ≠ '0') :
    EndsFlags (CodeUnit.ofChar c) := by
  have hother {d : Char} (hd : d.isDigit = false) : c ≠ d := by
    rintro rfl
    rw [h] at hd
    cases hd
  unfold EndsFlags Flag.ofUnit?
  rw [(Number.isNear_of_isDigit h).toChar_ofChar]
  refine ⟨hother (by decide), ?_⟩
  split
  · exact absurd rfl (hother (by decide))
  · exact absurd rfl (hother (by decide))
  · exact absurd rfl (hother (by decide))
  · exact absurd rfl hzero
  · exact absurd rfl (hother (by decide))
  · rfl

/-- What is said of the first character of a spelling holds of the first unit, and what stands
behind does not matter. -/
theorem head_map_append {s : List Char} {rest : Text} {P : CodeUnit → Prop} (hne : s ≠ [])
    (h : ∀ c ∈ s.head?, P (CodeUnit.ofChar c)) :
    ∀ u ∈ (s.map CodeUnit.ofChar ++ rest).head?, P u := by
  obtain ⟨c, s, rfl⟩ := List.exists_cons_of_ne_nil hne
  intro u hu
  rw [← Option.some.inj hu]
  exact h c rfl

namespace WrittenFormat

variable (w : WrittenFormat) {rest : Text}

/-- What stands behind the width. -/
def ending : List Char := w.precisionSpelling ++ [w.conversion.char]

theorem spelling_eq : w.spelling = w.colonSpelling ++ (w.flags.map Flag.char ++
    (w.widthSpelling ++ w.ending)) := by
  simp only [spelling, ending, List.append_assoc]

theorem ending_ne_nil : w.ending ≠ [] := List.append_ne_nil_of_right_ne_nil _ (List.cons_ne_nil _ _)

theorem head_ending : ∀ c ∈ w.ending.head?,
    EndsFlags (CodeUnit.ofChar c) ∧ (CodeUnit.ofChar c).isDigit = false := by
  unfold ending precisionSpelling
  cases w.precision with
  | none =>
    intro c hc
    rw [← Option.some.inj hc]
    cases w.conversion <;> decide
  | some n =>
    intro c hc
    rw [← Option.some.inj hc]
    decide

theorem head_widthSpelling : ∀ c ∈ (w.widthSpelling ++ w.ending).head?,
    EndsFlags (CodeUnit.ofChar c) := by
  intro c hc
  unfold widthSpelling at hc
  split at hc
  case isTrue => exact (w.head_ending c hc).1
  case isFalse hwidth =>
    rw [List.head?_append,
      Option.or_of_isSome (List.isSome_head?.mpr Nat.toDigits_ne_nil)] at hc
    have hdigit := Nat.isDigit_of_mem_toDigits (by decide) (by decide) (List.mem_of_mem_head? hc)
    exact endsFlags_of_isDigit hdigit (Number.head_toDigits_ne_zero hwidth c hc)

theorem takeColon_spelling (hrest : ∀ u ∈ rest.head?, u.toChar ≠ ':') :
    Format.takeColon (w.colonSpelling.map CodeUnit.ofChar ++ rest) = (w.colon, rest) := by
  unfold colonSpelling
  cases w.colon with
  | true => rfl
  | false =>
    cases rest with
    | nil => rfl
    | cons u rest => exact if_neg (hrest u rfl)

theorem read?_char {f : Flag} (h : f ∈ w.flags) :
    Flag.read? w.colon (CodeUnit.ofChar f.char) = some f := by
  have hallowed : (w.colon || f.isPlain) = true := by
    rw [Bool.or_eq_true]
    rcases w.readable with hcolon | hplain
    · exact .inl hcolon
    · exact .inr (hplain f h)
  rw [Flag.read?, Flag.ofUnit?_char, Option.filter_some, if_pos hallowed]

theorem takeFlags_spelling (hrest : ∀ u ∈ rest.head?, EndsFlags u) :
    Format.takeFlags (w.colonSpelling.map CodeUnit.ofChar ++
      ((w.flags.map Flag.char).map CodeUnit.ofChar ++ rest)) = (w.flags, rest) := by
  have hcolon : ∀ u ∈ ((w.flags.map Flag.char).map CodeUnit.ofChar ++ rest).head?,
      u.toChar ≠ ':' := by
    cases w.flags with
    | nil => exact fun u hu => (hrest u hu).1
    | cons f flags =>
      intro u hu
      rw [← Option.some.inj hu]
      cases f <;> decide
  have hflags : ∀ u ∈ (w.flags.map Flag.char).map CodeUnit.ofChar,
      (Flag.read? w.colon u).isSome = true := by
    intro u hu
    obtain ⟨c, hc, rfl⟩ := List.mem_map.mp hu
    obtain ⟨f, hf, rfl⟩ := List.mem_map.mp hc
    rw [read?_char w hf]
    rfl
  have hend : ∀ u ∈ rest.head?, (Flag.read? w.colon u).isSome = false := by
    intro u hu
    rw [EndsFlags.read? (hrest u hu)]
    rfl
  rw [Format.takeFlags, takeColon_spelling w hcolon]
  simp only
  rw [Text.takeWhile_append_of_head hflags hend, Text.dropWhile_append_of_head hflags hend,
    filterMap_read? fun _ hf => read?_char w hf]

theorem digitsValue_widthSpelling : Number.digitsValue w.widthSpelling = w.width := by
  unfold widthSpelling
  split
  case isTrue hzero => exact hzero.symm
  case isFalse => exact Nat.ofDigitChars_ten_toDigits

theorem isDigit_of_mem_widthSpelling {c : Char} (h : c ∈ w.widthSpelling) : c.isDigit = true := by
  unfold widthSpelling at h
  split at h
  · exact absurd h List.not_mem_nil
  · exact Nat.isDigit_of_mem_toDigits (by decide) (by decide) h

theorem takeDigits_widthSpelling (hrest : ∀ u ∈ rest.head?, u.isDigit = false) :
    Number.takeDigits (w.widthSpelling.map CodeUnit.ofChar ++ rest) = (w.widthSpelling, rest) :=
  Number.takeDigits_append (fun _ => w.isDigit_of_mem_widthSpelling) hrest

theorem takePrecision_ending :
    Format.takePrecision (w.ending.map CodeUnit.ofChar ++ rest) =
      (w.precision.map (·.value), CodeUnit.ofChar w.conversion.char :: rest) := by
  unfold ending precisionSpelling
  cases w.precision with
  | none =>
    have hpoint : (CodeUnit.ofChar w.conversion.char).toChar ≠ '.' := by
      cases w.conversion <;> decide
    exact if_neg hpoint
  | some n =>
    have hend : ∀ u ∈ (CodeUnit.ofChar w.conversion.char :: rest).head?, u.isDigit = false := by
      intro u hu
      rw [← Option.some.inj hu]
      cases w.conversion <;> decide
    have hpoint : (CodeUnit.ofChar '.').toChar = '.' := by decide
    have hdigits := Number.takeDigits_append (fun _ => Number.Numeral.isDigit_of_mem (n := n)) hend
    have hvalue := n.digitsValue_digits
    obtain ⟨c, digits, hcons⟩ := List.exists_cons_of_ne_nil n.digits_ne_nil
    rw [hcons] at hdigits hvalue
    simp only [Option.elim_some, List.cons_append, List.map_cons, List.map_append, List.map_nil,
      List.nil_append, List.append_assoc, Format.takePrecision, hpoint, if_true]
    rw [hcons, hdigits]
    simp only [hvalue, Option.map_some]

/-- A conversion reads as itself. -/
theorem ofUnits?_spelling :
    Format.ofUnits? (w.spelling.map CodeUnit.ofChar ++ rest) = some (w.format, rest) := by
  have hending : ∀ u ∈ (w.ending.map CodeUnit.ofChar ++ rest).head?, u.isDigit = false :=
    head_map_append w.ending_ne_nil fun c hc => (w.head_ending c hc).2
  have hwidth : ∀ u ∈ ((w.widthSpelling ++ w.ending).map CodeUnit.ofChar ++ rest).head?,
      EndsFlags u :=
    head_map_append (List.append_ne_nil_of_right_ne_nil _ w.ending_ne_nil) w.head_widthSpelling
  rw [List.map_append, List.append_assoc] at hwidth
  rw [spelling_eq]
  simp only [List.map_append, List.append_assoc, Format.ofUnits?] at *
  rw [takeFlags_spelling w hwidth]
  simp only [takeDigits_widthSpelling w hending, takePrecision_ending w,
    digitsValue_widthSpelling w, Conversion.ofUnit?_char, Option.map_some]
  rfl

end WrittenFormat

/-! ### Commands -/

/-- A unit that no conversion begins with. -/
def BeginsNoFormat (u : CodeUnit) : Prop :=
  u.toChar ≠ ':' ∧ Flag.read? false u = none ∧ u.isDigit = false ∧ u.toChar ≠ '.' ∧
    Conversion.ofUnit? u = none

instance (u : CodeUnit) : Decidable (BeginsNoFormat u) := inferInstanceAs (Decidable (_ ∧ _))

theorem BeginsNoFormat.ofUnits? {u : CodeUnit} (h : BeginsNoFormat u) (rest : Text) :
    Format.ofUnits? (u :: rest) = none := by
  obtain ⟨hcolon, hflag, hdigit, hpoint, hletter⟩ := h
  have hflags : Format.takeFlags (u :: rest) = ([], u :: rest) := by
    simp [Format.takeFlags, Format.takeColon, hcolon, hflag]
  have hdigits : Number.takeDigits (u :: rest) = ([], u :: rest) := by
    simp [Number.takeDigits, hdigit]
  have hprecision : Format.takePrecision (u :: rest) = (none, u :: rest) := if_neg hpoint
  simp only [Format.ofUnits?, hflags, hdigits, hprecision, hletter, Option.map_none]

namespace Instruction

variable (rest : Text)

theorem ofUnits?_escape (spelling : List Char) :
    ofUnits? (Command.escape spelling ++ rest) =
      ofEscape? (spelling.map CodeUnit.ofChar ++ rest) := by
  have hpercent : (CodeUnit.ofChar '%').toChar = '%' := by decide
  simp only [Command.escape, List.map_cons, List.cons_append, ofUnits?, hpercent, if_true]

theorem ofUnits?_operator {c : Char} (h : BeginsNoFormat (CodeUnit.ofChar c)) :
    ofUnits? (Command.escape [c] ++ rest) = ofOperator? (CodeUnit.ofChar c :: rest) := by
  rw [ofUnits?_escape, ofEscape?]
  simp only [List.map_cons, List.map_nil, List.cons_append, List.nil_append, h.ofUnits?]

/-- The characters of operators that take something behind them. -/
def takers : List Char := ['p', 'P', 'g', '\'', '{']

theorem ofOperator?_alone {u : CodeUnit} (h : u.toChar ∉ takers) :
    ofOperator? (u :: rest) = (plain? u).map (·, rest) := by
  simp only [takers, List.mem_cons, not_or] at h
  obtain ⟨hp, hP, hg, hquote, hbrace, _⟩ := h
  unfold ofOperator?
  dsimp only
  split
  case h_1 heq => exact absurd heq hp
  case h_2 heq => exact absurd heq hP
  case h_3 heq => exact absurd heq hg
  case h_4 heq => exact absurd heq hquote
  case h_5 heq => exact absurd heq hbrace
  case h_6 => rfl

/-- The character of an operator that is read alone. -/
structure IsPlain (c : Char) : Prop where
  begins : BeginsNoFormat (CodeUnit.ofChar c)
  alone : (CodeUnit.ofChar c).toChar ∉ takers

instance (c : Char) : Decidable (IsPlain c) :=
  decidable_of_iff (BeginsNoFormat (CodeUnit.ofChar c) ∧ (CodeUnit.ofChar c).toChar ∉ takers)
    ⟨fun ⟨h, h'⟩ => ⟨h, h'⟩, fun ⟨h, h'⟩ => ⟨h, h'⟩⟩

theorem ofUnits?_plain {c : Char} (hc : IsPlain c) :
    ofUnits? (Command.escape [c] ++ rest) = (plain? (CodeUnit.ofChar c)).map (·, rest) := by
  rw [ofUnits?_operator rest hc.begins, ofOperator?_alone rest hc.alone]

theorem parameter?_digitChar (index : Fin 9) :
    parameter? (CodeUnit.ofChar (Nat.digitChar (index.val + 1))) = some (.parameter index) := by
  revert index
  decide

/-- Between the braces of an integer there is no brace. -/
theorem constant?_braces {s : List Char} (h : ∀ c ∈ s, Number.IsNear c) :
    constant? (s.map CodeUnit.ofChar ++ (CodeUnit.ofChar '}' :: rest)) =
      if (Number.ofText (s.map CodeUnit.ofChar)).isInteger then
        some (.constant (Number.ofText (s.map CodeUnit.ofChar)), rest)
      else none := by
  have hinside : ∀ u ∈ s.map CodeUnit.ofChar, (! u.toChar == '}') = true := by
    intro u hu
    obtain ⟨c, hc, rfl⟩ := List.mem_map.mp hu
    have hne : c ≠ '}' := by
      rintro rfl
      exact absurd (h _ hc).2 (by decide)
    rw [(h c hc).toChar_ofChar, beq_eq_false_iff_ne.mpr hne]
    rfl
  have hend : ∀ u ∈ (CodeUnit.ofChar '}' :: rest).head?, (! u.toChar == '}') = false := by
    intro u hu
    rw [← Option.some.inj hu]
    decide
  simp only [constant?, Text.takeWhile_append_of_head hinside hend,
    Text.dropWhile_append_of_head hinside hend]

theorem constant?_integer (sign : Number.Sign) (n : Number.Numeral) :
    constant? ((sign.spelling ++ n.digits).map CodeUnit.ofChar ++ (CodeUnit.ofChar '}' :: rest)) =
      (Command.integer sign n).instruction?.map (·, rest) := by
  obtain ⟨hinteger, hvalue⟩ := Number.ofText_integer sign n
  rw [constant?_braces rest fun _ => Number.isNear_of_mem, hinteger]
  simp only [Command.instruction?]
  split
  case isTrue hfinite => rw [hvalue hfinite, Option.map_some]
  case isFalse => rfl

end Instruction

namespace Command

/-- A command reads as itself, and an integer that cannot be pushed does not read. -/
theorem ofUnits?_spelling (c : Command) (rest : Text) :
    Instruction.ofUnits? (c.spelling ++ rest) = c.instruction?.map (·, rest) := by
  open Instruction in
  cases c with
  | text u =>
    simp only [spelling]
    split
    case isTrue hpercent =>
      have hformat : BeginsNoFormat u := by
        simp [BeginsNoFormat, Flag.read?, Flag.ofUnit?, CodeUnit.isDigit, Conversion.ofUnit?,
          hpercent]
      have halone : u.toChar ∉ takers := by
        rw [hpercent]
        decide
      simp only [List.cons_append, List.nil_append, ofUnits?, hpercent, if_true, ofEscape?,
        hformat.ofUnits?, ofOperator?_alone rest halone, plain?]
      rfl
    case isFalse hother => exact if_neg hother
  | parameter index =>
    calc ofUnits? (escape ['p', Nat.digitChar (index.val + 1)] ++ rest)
      _ = (parameter? (CodeUnit.ofChar (Nat.digitChar (index.val + 1)))).map (·, rest) :=
        ofUnits?_operator (CodeUnit.ofChar (Nat.digitChar (index.val + 1)) :: rest) (by decide)
      _ = some (.parameter index, rest) := by rw [parameter?_digitChar, Option.map_some]
  | integer sign n =>
    have hspelling : spelling (.integer sign n) ++ rest = escape ['{'] ++
        ((sign.spelling ++ n.digits).map CodeUnit.ofChar ++ (CodeUnit.ofChar '}' :: rest)) := by
      simp [spelling, escape]
    rw [hspelling, ofUnits?_operator _ (by decide), ← constant?_integer]
    rfl
  | code u => exact ofUnits?_operator _ (by decide)
  | binary op => cases op <;> exact ofUnits?_plain rest (by decide)
  | not => exact ofUnits?_plain rest (by decide)
  | complement => exact ofUnits?_plain rest (by decide)
  | length => exact ofUnits?_plain rest (by decide)
  | increment => exact ofUnits?_plain rest (by decide)
  | writeUnit => exact ofUnits?_plain rest (by decide)
  | store name =>
    calc ofUnits? (escape ['P'] ++ (name.val :: rest))
      _ = if isVariable name.val then some (.store name.val, rest) else none :=
        ofUnits?_operator (name.val :: rest) (by decide)
      _ = some (.store name.val, rest) := if_pos name.property
  | load name => exact ofUnits?_operator _ (by decide)
  | write w =>
    rw [spelling, ofUnits?_escape, ofEscape?, w.ofUnits?_spelling]
    rfl

end Command
end LiveProgress.Template
