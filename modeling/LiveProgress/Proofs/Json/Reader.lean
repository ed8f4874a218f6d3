import LiveProgress.Json.Reader
import LiveProgress.Proofs.Json.Grammar

/-!
# The reader accepts the grammar

The reader finds a value in a text exactly if the text is JSON. Each part of the reader is
compared with its phrase of the grammar: what it takes is the phrase, and a phrase that
cannot go on is what it takes. Only numbers can go on, by a digit, a point or an exponent;
behind a value of a complete text there is none of these.
-/

namespace LiveProgress.Json
open Grammar

/-! ### Marks and blanks -/

theorem after?_eq_some {c : Char} {s rest : Text} : after? c s = some rest ↔ Mark c s rest := by
  cases s with
  | nil => exact ⟨fun h => (by cases h), fun h => (by cases h)⟩
  | cons u t =>
    simp only [after?]
    constructor
    · intro h
      split at h
      · obtain rfl := Option.some.inj h
        exact .mk (by assumption)
      · cases h
    · rintro ⟨h⟩
      exact if_pos h

theorem after?_eq_none {c : Char} {s : Text} :
    after? c s = none ↔ s.head?.map CodeUnit.toChar ≠ some c := by
  cases s with
  | nil => simp [after?]
  | cons u t => simp [after?]

theorem Grammar.Mark.after?_ne {c d : Char} {s rest : Text} (h : Mark c s rest) (hd : c ≠ d) :
    after? d s = none := by
  rw [after?_eq_none, h.head]
  simpa using hd

theorem blanks_skipBlanks (s : Text) : Blanks s (skipBlanks s) := by
  induction s with
  | nil => exact .nil
  | cons u s ih =>
    simp only [skipBlanks, List.dropWhile_cons]
    split
    · exact .cons (by assumption) ih
    · exact .nil

theorem noBlank_skipBlanks (s : Text) : NoBlank (skipBlanks s) := by
  intro u hu
  have h := List.head?_dropWhile_not (p := isBlank) (l := s)
  unfold skipBlanks at hu
  rw [Option.mem_def] at hu
  rw [hu] at h
  simpa using h

theorem skipBlanks_of_noBlank {s : Text} (h : NoBlank s) : skipBlanks s = s := by
  cases s with
  | nil => rfl
  | cons u s =>
    have hu := h u rfl
    simp [skipBlanks, hu]

/-- Blanks that end where there are no more are those that are skipped. -/
theorem Grammar.Blanks.skipBlanks_eq {s t : Text} (h : Blanks s t) (ht : NoBlank t) :
    skipBlanks s = t := by
  induction h with
  | nil => exact skipBlanks_of_noBlank ht
  | cons hu _ ih =>
    simp only [skipBlanks, List.dropWhile_cons, hu, if_true]
    exact ih ht

/-! ### Strings -/

theorem isHex_of_unit? {a b c d v : CodeUnit} (h : unit? a b c d = some v) :
    isHex a = true ∧ isHex b = true ∧ isHex c = true ∧ isHex d = true := by
  simp only [unit?, Option.bind_eq_bind, Option.bind_eq_some_iff] at h
  obtain ⟨_, ha, _, hb, _, hc, _, hd, _⟩ := h
  simp [isHex, ha, hb, hc, hd]

theorem unit?_of_isHex {a b c d : CodeUnit} (ha : isHex a = true) (hb : isHex b = true)
    (hc : isHex c = true) (hd : isHex d = true) : ∃ v, unit? a b c d = some v := by
  obtain ⟨w, hw⟩ := Option.isSome_iff_exists.mp ha
  obtain ⟨x, hx⟩ := Option.isSome_iff_exists.mp hb
  obtain ⟨y, hy⟩ := Option.isSome_iff_exists.mp hc
  obtain ⟨z, hz⟩ := Option.isSome_iff_exists.mp hd
  simp [unit?, hw, hx, hy, hz]

theorem isSome_escaped? (u : CodeUnit) : (escaped? u).isSome = isEscape u := by
  unfold escaped? isEscape
  split <;> simp_all

theorem body_of_takeBody {units s text rest : Text}
    (h : takeBody units s = .ok (text, rest)) : Body s rest := by
  fun_induction takeBody units s with
  | case1 => cases h
  | case2 units u s hu =>
    cases h
    exact .close (.mk hu)
  | case3 => cases h
  | case4 units u e hu a b c d s he v hv ih =>
    obtain ⟨ha, hb, hc, hd⟩ := isHex_of_unit? hv
    exact .unit (.mk hu) (.mk he) ha hb hc hd (ih h)
  | case5 => cases h
  | case6 units u e hu s v hv _ ih =>
    refine .escaped (.mk hu) ?_ (ih h)
    rw [← isSome_escaped?, hv]
    rfl
  | case7 => cases h
  | case8 => cases h
  | case9 units u s hlow hquote hend hescape ih =>
    refine .plain hquote ?_ (UInt16.not_lt.mp hlow) (ih h)
    intro hu
    cases s with
    | nil => exact hend hu rfl
    | cons e s => exact hescape e s hu rfl

theorem takeBody_of_body {s rest : Text} (h : Body s rest) (units : Text) :
    ∃ text, takeBody units s = .ok (text, rest) := by
  induction h generalizing units with
  | close hq =>
    obtain ⟨hq⟩ := hq
    exact ⟨units.reverse, takeBody.eq_2 units _ _ hq⟩
  | @plain u s rest hquote hback hlow _ ih =>
    obtain ⟨text, ht⟩ := ih (u :: units)
    refine ⟨text, ?_⟩
    rw [takeBody.eq_6 _ _ _ hquote (fun h => absurd h hback) fun _ _ h => absurd h hback,
      if_neg (UInt16.not_lt.mpr hlow), ht]
  | @escaped e s t rest hb he _ ih =>
    obtain ⟨hb⟩ := hb
    rw [← isSome_escaped?] at he
    obtain ⟨v, hv⟩ := Option.isSome_iff_exists.mp he
    obtain ⟨text, ht⟩ := ih (v :: units)
    refine ⟨text, ?_⟩
    rw [takeBody.eq_5 _ _ _ _ hb, hv]
    · exact ht
    · intro _ _ _ _ _ hu
      simp [escaped?, hu] at hv
  | @unit a b c d s t rest' rest hb hu ha hb' hc hd _ ih =>
    obtain ⟨hb⟩ := hb
    obtain ⟨hu⟩ := hu
    obtain ⟨v, hv⟩ := unit?_of_isHex ha hb' hc hd
    obtain ⟨text, ht⟩ := ih (v :: units)
    refine ⟨text, ?_⟩
    rw [takeBody.eq_4 _ _ _ _ _ _ _ _ hb hu, hv]
    exact ht

/-! ### Numbers -/

/-- A text that does not go on with a digit. -/
def NoDigit (s : Text) : Prop := ∀ u ∈ s.head?, u.isDigit = false

/-- A text in front of which a number cannot go on. -/
structure NumberEnd (s : Text) : Prop where
  noDigit : NoDigit s
  noPoint : after? '.' s = none
  noExponent : after? 'e' s = none ∧ after? 'E' s = none

theorem Grammar.Mark.noDigit {c : Char} {s rest : Text} (h : Mark c s rest)
    (hc : c.isDigit = false) : NoDigit s := by
  obtain ⟨h⟩ := h
  intro u hu
  obtain rfl := Option.some.inj hu
  rw [CodeUnit.isDigit, h, hc]

theorem takeDigits_of_noDigit {s : Text} (h : NoDigit s) : Number.takeDigits s = ([], s) := by
  cases s with
  | nil => rfl
  | cons u s =>
    have hu := h u rfl
    simp [Number.takeDigits, hu]

theorem takeDigits_cons {u : CodeUnit} (h : u.isDigit = true) (s : Text) :
    Number.takeDigits (u :: s) =
      (u.toChar :: (Number.takeDigits s).1, (Number.takeDigits s).2) := by
  simp [Number.takeDigits, h]

theorem noDigit_cons {u : CodeUnit} {s : Text} (h : ¬ u.isDigit = true) : NoDigit (u :: s) := by
  intro w hw
  obtain rfl := Option.some.inj hw
  simpa using h

theorem noDigit_of_takeDigits {s rest : Text} (h : Number.takeDigits s = ([], rest)) :
    NoDigit s := by
  cases s with
  | nil => simp [NoDigit]
  | cons u s =>
    apply noDigit_cons
    intro hu
    rw [takeDigits_cons hu] at h
    cases h

theorem digits_of_takeDigits {s rest : Text} {c : Char} {digits : List Char}
    (h : Number.takeDigits s = (c :: digits, rest)) : Digits s rest := by
  induction s generalizing c digits with
  | nil => cases h
  | cons u s ih =>
    by_cases hu : u.isDigit = true
    · rw [takeDigits_cons hu] at h
      obtain ⟨_, hrest⟩ := Prod.mk.inj h
      cases hd : Number.takeDigits s with
      | mk more rest' =>
        rw [hd] at hrest
        obtain rfl : rest' = rest := hrest
        cases more with
        | nil =>
          rw [takeDigits_of_noDigit (noDigit_of_takeDigits hd)] at hd
          obtain ⟨_, rfl⟩ := Prod.mk.inj hd
          exact .one hu
        | cons d more => exact .cons hu (ih hd)
    · rw [takeDigits_of_noDigit (noDigit_cons hu)] at h
      cases h

theorem takeDigits_of_digits {s rest : Text} (h : Digits s rest) (hend : NoDigit rest) :
    ∃ c digits, Number.takeDigits s = (c :: digits, rest) := by
  induction h with
  | @one u rest hu =>
    exact ⟨u.toChar, [], by rw [takeDigits_cons hu, takeDigits_of_noDigit hend]⟩
  | @cons u s rest hu _ ih =>
    obtain ⟨c, digits, h⟩ := ih hend
    exact ⟨u.toChar, c :: digits, by rw [takeDigits_cons hu, h]⟩

theorem sign_of_takeSign (s : Text) : Sign s (Number.takeSign s).2 := by
  cases s with
  | nil => exact .none
  | cons u s =>
    by_cases hplus : u.toChar = '+'
    · simp only [Number.takeSign, hplus, if_true]
      exact .plus (.mk hplus)
    · by_cases hminus : u.toChar = '-'
      · simp only [Number.takeSign, Number.takeMinus, hminus, if_true]
        exact .minus (.mk hminus)
      · simp only [Number.takeSign, Number.takeMinus, hplus, hminus, if_false]
        exact .none

theorem takeSign_of_sign {s t rest : Text} (h : Sign s t) (ht : Digits t rest) :
    (Number.takeSign s).2 = t := by
  cases h with
  | none =>
    obtain ⟨u, t, rfl, hu⟩ := ht.head
    have hplus : u.toChar ≠ '+' := fun h => by rw [CodeUnit.isDigit, h] at hu; cases hu
    have hminus : u.toChar ≠ '-' := fun h => by rw [CodeUnit.isDigit, h] at hu; cases hu
    simp [Number.takeSign, Number.takeMinus, hplus, hminus]
  | plus h =>
    obtain ⟨h⟩ := h
    simp [Number.takeSign, h]
  | minus h =>
    obtain ⟨h⟩ := h
    simp [Number.takeSign, Number.takeMinus, h]

theorem exponent_of_takeExponent? {s rest : Text} {n : Int}
    (h : Number.takeExponent? s = some (n, rest)) : Exponent s rest := by
  cases s with
  | nil =>
    cases h
    exact .none
  | cons u s =>
    unfold Number.takeExponent? at h
    dsimp only at h
    split at h
    · rename_i hu
      have hmark : ExponentMark (u :: s) s := by
        rcases hu with hu | hu
        · exact .lower (.mk hu)
        · exact .upper (.mk hu)
      split at h
      · cases h
      · rename_i digits rest' hne hd
        cases h
        cases digits with
        | nil => exact (hne rfl).elim
        | cons c digits => exact .some hmark (sign_of_takeSign s) (digits_of_takeDigits hd)
    · cases h
      exact .none

theorem Grammar.ExponentMark.head {s rest : Text} (h : ExponentMark s rest) :
    ∃ u, s = u :: rest ∧ (u.toChar = 'e' ∨ u.toChar = 'E') := by
  cases h with
  | lower h =>
    obtain ⟨h⟩ := h
    exact ⟨_, rfl, .inl h⟩
  | upper h =>
    obtain ⟨h⟩ := h
    exact ⟨_, rfl, .inr h⟩

theorem takeExponent?_of_exponent {s rest : Text} (h : Exponent s rest) (hend : NumberEnd rest) :
    ∃ n, Number.takeExponent? s = some (n, rest) := by
  cases h with
  | none =>
    cases s with
    | nil => exact ⟨0, rfl⟩
    | cons u s =>
      have he : u.toChar ≠ 'e' := by simpa [after?] using hend.noExponent.1
      have hE : u.toChar ≠ 'E' := by simpa [after?] using hend.noExponent.2
      exact ⟨0, by simp [Number.takeExponent?, he, hE]⟩
  | some hmark hsign hdigits =>
    obtain ⟨c, digits, hd⟩ := takeDigits_of_digits hdigits hend.noDigit
    have hs := takeSign_of_sign hsign hdigits
    obtain ⟨w, rfl, hw⟩ := hmark.head
    simp only [Number.takeExponent?, if_pos hw, hs, hd]
    exact ⟨_, rfl⟩

/-- In front of an exponent digits end, and so does a fraction. -/
theorem noDigit_of_exponent {s rest : Text} (h : Exponent s rest) (hend : NumberEnd rest) :
    NoDigit s ∧ after? '.' s = none := by
  cases h with
  | none => exact ⟨hend.noDigit, hend.noPoint⟩
  | some hmark _ _ =>
    cases hmark with
    | lower h => exact ⟨h.noDigit (by decide), h.after?_ne (by decide : 'e' ≠ '.')⟩
    | upper h => exact ⟨h.noDigit (by decide), h.after?_ne (by decide : 'E' ≠ '.')⟩

theorem noDigit_of_fraction {s rest : Text} (h : Fraction s rest) (hend : NoDigit rest) :
    NoDigit s := by
  cases h with
  | none => exact hend
  | some hmark _ => exact hmark.noDigit (by decide)

theorem fraction_of_takeFraction {s rest : Text} {digits : List Char}
    (h : takeFraction s = .ok (digits, rest)) : Fraction s rest := by
  unfold takeFraction at h
  split at h
  · cases h
    exact .none
  · rename_i t ht
    cases hd : Number.takeDigits t with
    | mk front back =>
      rw [hd] at h
      cases front with
      | nil => cases h
      | cons c front =>
        cases h
        exact .some (after?_eq_some.mp ht) (digits_of_takeDigits hd)

theorem takeFraction_of_fraction {s rest : Text} (h : Fraction s rest)
    (hdigit : NoDigit rest) (hpoint : after? '.' rest = none) :
    ∃ digits, takeFraction s = .ok (digits, rest) := by
  cases h with
  | none => exact ⟨[], by simp [takeFraction, hpoint]⟩
  | some hmark hdigits =>
    obtain ⟨c, digits, hd⟩ := takeDigits_of_digits hdigits hdigit
    exact ⟨c :: digits, by simp [takeFraction, after?_eq_some.mpr hmark, hd]⟩

theorem whole_of_takeDigits {s rest : Text} {c : Char} {digits : List Char}
    (h : Number.takeDigits s = (c :: digits, rest)) (hzero : c = '0' → digits = []) :
    Whole s rest := by
  obtain ⟨u, t, rfl, hu⟩ := (digits_of_takeDigits h).head
  have hcons := h
  rw [takeDigits_cons hu] at hcons
  obtain ⟨hfront, hrest⟩ := Prod.mk.inj hcons
  obtain ⟨hc, hmore⟩ := List.cons.inj hfront
  by_cases hz : c = '0'
  · rw [hzero hz] at hmore
    have ht : Number.takeDigits t = ([], rest) := Prod.ext hmore hrest
    rw [takeDigits_of_noDigit (noDigit_of_takeDigits ht)] at ht
    obtain ⟨_, rfl⟩ := Prod.mk.inj ht
    exact .zero (.mk (hc.trans hz))
  · exact .digits (fun h => hz (hc.symm.trans h)) (digits_of_takeDigits h)

theorem takeDigits_of_whole {s rest : Text} (h : Whole s rest) (hend : NoDigit rest) :
    ∃ c digits, Number.takeDigits s = (c :: digits, rest) ∧ (c = '0' → digits = []) := by
  cases h with
  | zero h =>
    obtain ⟨h⟩ := h
    refine ⟨'0', [], ?_, fun _ => rfl⟩
    rw [takeDigits_cons (by rw [CodeUnit.isDigit, h]; rfl), takeDigits_of_noDigit hend, h]
  | @digits u t _ hzero hdigits =>
    obtain ⟨c, digits, h⟩ := takeDigits_of_digits hdigits hend
    refine ⟨c, digits, h, ?_⟩
    intro hc
    obtain ⟨w, t, hcons, hu⟩ := hdigits.head
    obtain ⟨rfl, rfl⟩ := List.cons.inj hcons
    rw [takeDigits_cons hu] at h
    obtain ⟨hfront, _⟩ := Prod.mk.inj h
    exact absurd ((List.cons.inj hfront).1.trans hc) hzero

/-- The reader of a number behind its sign: a whole part, a fraction and an exponent. -/
theorem takeNumber_eq_ok {s rest : Text} :
    (∃ x, takeNumber s = .ok (x, rest)) ↔
      ∃ c digits fraction exponent t u,
        Number.takeDigits (Number.takeMinus s).2 = (c :: digits, t) ∧ (c = '0' → digits = []) ∧
          takeFraction t = .ok (fraction, u) ∧ Number.takeExponent? u = some (exponent, rest) := by
  unfold takeNumber
  constructor
  · rintro ⟨x, h⟩
    dsimp only at h
    split at h
    · cases h
    · cases h
    · rename_i whole t hne hzero hd
      cases whole with
      | nil => exact (hne rfl).elim
      | cons c digits =>
        cases hf : takeFraction t with
        | error e => simp [hf, bind, Except.bind] at h
        | ok parts =>
          obtain ⟨fraction, u⟩ := parts
          simp only [hf, bind, Except.bind] at h
          split at h
          · rename_i n rest' he
            cases h
            refine ⟨c, digits, fraction, n, t, u, hd, fun hc => ?_, hf, he⟩
            cases digits with
            | nil => rfl
            | cons d more => exact (hzero d more (by rw [hc])).elim
          · cases h
  · rintro ⟨c, digits, fraction, exponent, t, u, hd, hzero, hf, he⟩
    dsimp only
    rw [hd]
    split
    · rename_i h
      cases h
    · rename_i h
      cases h
      exact absurd (hzero rfl) (by simp)
    · rename_i h
      cases h
      refine ⟨Number.ofParts (Number.takeMinus s).1 (c :: digits) fraction exponent, ?_⟩
      simp only [hf, bind, Except.bind, he]
      rfl

theorem minus_of_takeMinus (s : Text) :
    Mark '-' s (Number.takeMinus s).2 ∨ (Number.takeMinus s).2 = s := by
  cases s with
  | nil => exact .inr rfl
  | cons u s =>
    by_cases hminus : u.toChar = '-'
    · left
      simp only [Number.takeMinus, hminus, if_true]
      exact .mk hminus
    · right
      simp only [Number.takeMinus, hminus, if_false]

theorem numeral_of_takeNumber {s rest : Text} {x : Number}
    (h : takeNumber s = .ok (x, rest)) : Numeral s rest := by
  obtain ⟨c, digits, fraction, exponent, t, u, hd, hzero, hf, he⟩ := takeNumber_eq_ok.mp ⟨x, h⟩
  have hparts : Unsigned (Number.takeMinus s).2 rest :=
    .parts (whole_of_takeDigits hd hzero) (fraction_of_takeFraction hf)
      (exponent_of_takeExponent? he)
  rcases minus_of_takeMinus s with hminus | hs
  · exact .negative hminus hparts
  · rw [hs] at hparts
    exact .positive hparts

theorem takeMinus_of_unsigned {s rest : Text} (h : Unsigned s rest) :
    (Number.takeMinus s).2 = s := by
  obtain ⟨u, t, rfl, hu⟩ := h.head
  have hminus : u.toChar ≠ '-' := fun h => by rw [CodeUnit.isDigit, h] at hu; cases hu
  simp [Number.takeMinus, hminus]

theorem takeNumber_of_numeral {s rest : Text} (h : Numeral s rest) (hend : NumberEnd rest) :
    ∃ x, takeNumber s = .ok (x, rest) := by
  have hunsigned : Unsigned (Number.takeMinus s).2 rest := by
    cases h with
    | positive h =>
      rw [takeMinus_of_unsigned h]
      exact h
    | negative hminus h =>
      obtain ⟨hminus⟩ := hminus
      simp only [Number.takeMinus, hminus, if_true]
      exact h
  obtain ⟨hwhole, hfraction, hexponent⟩ := hunsigned
  obtain ⟨n, he⟩ := takeExponent?_of_exponent hexponent hend
  obtain ⟨hdigit, hpoint⟩ := noDigit_of_exponent hexponent hend
  obtain ⟨fraction, hf⟩ := takeFraction_of_fraction hfraction hdigit hpoint
  have hdigit' := noDigit_of_fraction hfraction hdigit
  obtain ⟨c, digits, hd, hzero⟩ := takeDigits_of_whole hwhole hdigit'
  exact takeNumber_eq_ok.mpr ⟨c, digits, fraction, n, _, _, hd, hzero, hf, he⟩

/-! ### Names -/

theorem name_of_takeName {value v : Json} {name : List Char} {s rest : Text}
    (h : takeName value name s = .ok (v, rest)) : Name name s rest := by
  induction name generalizing s with
  | nil =>
    cases h
    exact .nil
  | cons c name ih =>
    unfold takeName at h
    split at h
    · rename_i t ht
      exact .cons (after?_eq_some.mp ht) (ih h)
    · cases h

theorem takeName_of_name {name : List Char} {s rest : Text} (h : Name name s rest)
    (value : Json) : takeName value name s = .ok (value, rest) := by
  induction h with
  | nil => rfl
  | cons hmark _ ih =>
    rw [takeName, after?_eq_some.mpr hmark]
    exact ih

theorem value_of_takeScalar {s rest : Text} {v : Json} (h : takeScalar s = .ok (v, rest)) :
    Value s rest := by
  unfold takeScalar at h
  split at h
  · exact .true (name_of_takeName h)
  · exact .false (name_of_takeName h)
  · exact .null (name_of_takeName h)
  · cases hx : takeNumber s with
    | error e =>
      rw [hx] at h
      cases h
    | ok parts =>
      obtain ⟨x, t⟩ := parts
      rw [hx] at h
      cases h
      exact .number (numeral_of_takeNumber hx)

theorem takeScalar_of_numeral {s rest : Text} (h : Numeral s rest) (hend : NumberEnd rest) :
    ∃ v, takeScalar s = .ok (v, rest) := by
  obtain ⟨x, hx⟩ := takeNumber_of_numeral h hend
  unfold takeScalar
  split
  · exact absurd (by assumption) (h.head_ne (by decide : 't' ≠ '-') (by decide))
  · exact absurd (by assumption) (h.head_ne (by decide : 'f' ≠ '-') (by decide))
  · exact absurd (by assumption) (h.head_ne (by decide : 'n' ≠ '-') (by decide))
  · exact ⟨.number x, by rw [hx]; rfl⟩

/-! ### What the reader takes is a value -/

theorem ok_of_map {ε α β : Type} {f : α → β} {x : Except ε α} {b : β} (h : x.map f = .ok b) :
    ∃ a, x = .ok a ∧ f a = b := by
  cases x with
  | error e => cases h
  | ok a => exact ⟨a, rfl, Except.ok.inj h⟩

theorem ok_of_bind {ε α β : Type} {f : α → Except ε β} {x : Except ε α} {b : β}
    (h : (x >>= f) = .ok b) : ∃ a, x = .ok a ∧ f a = .ok b := by
  cases x with
  | error e => cases h
  | ok a => exact ⟨a, rfl, h⟩

/-- What is taken with one more step of fuel is a phrase if what is taken with the fuel at
hand is one. -/
def TakesPhrases (fuel : Nat) : Prop :=
  (∀ s v rest, takeValue fuel s = .ok (v, rest) → Value s rest) ∧
  (∀ s v rest, takeItems fuel s = .ok (v, rest) → Items s rest) ∧
  (∀ missing s v rest, takeMembers missing fuel s = .ok (v, rest) → Members s rest)

theorem value_of_takeValue_succ {fuel : Nat} (ih : TakesPhrases fuel) {s rest : Text} {v : Json}
    (h : takeValue (fuel + 1) s = .ok (v, rest)) : Value s rest := by
  unfold takeValue at h
  split at h
  · rename_i t _ ht
    obtain ⟨⟨text, rest⟩, hbody, heq⟩ := ok_of_map h
    cases heq
    exact .string (after?_eq_some.mp ht) (body_of_takeBody hbody)
  · rename_i t ht _
    have hmark := after?_eq_some.mp ht
    have hblanks := blanks_skipBlanks t
    dsimp only at h
    split at h
    · rename_i u hu
      cases h
      exact .emptyArray hmark hblanks (after?_eq_some.mp hu)
    · obtain ⟨⟨items, rest⟩, hitems, heq⟩ := ok_of_map h
      cases heq
      exact .array hmark hblanks (ih.2.1 _ _ _ hitems)
  · rename_i t ht _ _
    have hmark := after?_eq_some.mp ht
    have hblanks := blanks_skipBlanks t
    dsimp only at h
    split at h
    · rename_i u hu
      cases h
      exact .emptyObject hmark hblanks (after?_eq_some.mp hu)
    · obtain ⟨⟨members, rest⟩, hmembers, heq⟩ := ok_of_map h
      cases heq
      exact .object hmark hblanks (ih.2.2 _ _ _ _ hmembers)
  · exact value_of_takeScalar h

theorem items_of_takeItems_succ {fuel : Nat} (ih : TakesPhrases fuel) {s rest : Text}
    {v : List Json} (h : takeItems (fuel + 1) s = .ok (v, rest)) : Items s rest := by
  unfold takeItems at h
  obtain ⟨⟨value, t⟩, hvalue, h⟩ := ok_of_bind h
  have hvalue := ih.1 _ _ _ hvalue
  have hblanks := blanks_skipBlanks t
  dsimp only at h
  split at h
  · rename_i u _ hu
    cases h
    exact .last hvalue hblanks (after?_eq_some.mp hu)
  · rename_i u _ hu
    obtain ⟨⟨items, rest⟩, hitems, heq⟩ := ok_of_bind h
    cases heq
    exact .cons hvalue hblanks (after?_eq_some.mp hu) (blanks_skipBlanks u)
      (ih.2.1 _ _ _ hitems)
  · cases h

theorem members_of_takeMembers_succ {fuel : Nat} (ih : TakesPhrases fuel)
    {missing : Fault.Cause} {s rest : Text} {v : List (Text × Json)}
    (h : takeMembers missing (fuel + 1) s = .ok (v, rest)) : Members s rest := by
  unfold takeMembers at h
  split at h
  · cases h
  · rename_i t ht
    obtain ⟨⟨name, u⟩, hbody, h⟩ := ok_of_bind h
    dsimp only at h
    split at h
    · cases h
    · rename_i w hcolon
      obtain ⟨⟨value, x⟩, hvalue, h⟩ := ok_of_bind h
      have hmember : Member s x :=
        .mk (after?_eq_some.mp ht) (body_of_takeBody hbody) (blanks_skipBlanks u)
          (after?_eq_some.mp hcolon) (blanks_skipBlanks w) (ih.1 _ _ _ hvalue)
      have hblanks := blanks_skipBlanks x
      dsimp only at h
      split at h
      · rename_i y _ hy
        cases h
        exact .last hmember hblanks (after?_eq_some.mp hy)
      · rename_i y _ hy
        obtain ⟨⟨members, rest⟩, hmembers, heq⟩ := ok_of_bind h
        cases heq
        exact .cons hmember hblanks (after?_eq_some.mp hy) (blanks_skipBlanks y)
          (ih.2.2 _ _ _ _ hmembers)
      · cases h

theorem takesPhrases (fuel : Nat) : TakesPhrases fuel := by
  induction fuel with
  | zero =>
    refine ⟨?_, ?_, ?_⟩
    · intro s v rest h
      cases h
    · intro s v rest h
      cases h
    · intro missing s v rest h
      cases h
  | succ fuel ih =>
    exact ⟨fun _ _ _ => value_of_takeValue_succ ih, fun _ _ _ => items_of_takeItems_succ ih,
      fun _ _ _ _ => members_of_takeMembers_succ ih⟩

theorem document_of_read {s : Text} {v : Json} (h : read s = .ok v) : Document s := by
  obtain ⟨⟨value, t⟩, hvalue, h⟩ := ok_of_bind h
  dsimp only at h
  split at h
  · rename_i hrest
    have hblanks := blanks_skipBlanks t
    rw [hrest] at hblanks
    exact .mk (blanks_skipBlanks s) ((takesPhrases _).1 _ _ _ hvalue) hblanks
  · cases h

/-! ### Objects -/

theorem eq_of_takeName {value v : Json} {name : List Char} {s rest : Text}
    (h : takeName value name s = .ok (v, rest)) : v = value := by
  induction name generalizing s with
  | nil =>
    cases h
    rfl
  | cons c name ih =>
    unfold takeName at h
    split at h
    · exact ih h
    · cases h

theorem ne_object_of_takeScalar {s rest : Text} {v : Json} (h : takeScalar s = .ok (v, rest))
    (members : List (Text × Json)) : v ≠ .object members := by
  rintro rfl
  unfold takeScalar at h
  split at h
  · cases eq_of_takeName h
  · cases eq_of_takeName h
  · cases eq_of_takeName h
  · obtain ⟨_, _, heq⟩ := ok_of_map h
    cases heq

theorem object_of_takeValue {fuel : Nat} {s rest : Text} {members : List (Text × Json)}
    (h : takeValue fuel s = .ok (.object members, rest)) : ∃ t, Mark '{' s t := by
  cases fuel with
  | zero => cases h
  | succ fuel =>
    unfold takeValue at h
    split at h
    · obtain ⟨_, _, heq⟩ := ok_of_map h
      cases heq
    · dsimp only at h
      split at h
      · cases h
      · obtain ⟨_, _, heq⟩ := ok_of_map h
        cases heq
    · rename_i t ht _ _
      exact ⟨t, after?_eq_some.mp ht⟩
    · exact absurd rfl (ne_object_of_takeScalar h members)

theorem object_of_read {s : Text} {members : List (Text × Json)} (hstart : NoBlank s)
    (h : read s = .ok (.object members)) : ∃ t, Mark '{' s t := by
  obtain ⟨⟨value, t⟩, hvalue, h⟩ := ok_of_bind h
  dsimp only at h
  split at h
  · cases h
    rw [skipBlanks_of_noBlank hstart] at hvalue
    exact object_of_takeValue hvalue
  · cases h

/-! ### A value is taken -/

theorem numberEnd_nil : NumberEnd [] := by
  refine ⟨?_, rfl, rfl, rfl⟩
  intro u hu
  cases hu

theorem numberEnd_of_toChar {u : CodeUnit} {s : Text} {c : Char} (h : u.toChar = c)
    (hdigit : c.isDigit = false) (hc : c ∉ ['.', 'e', 'E']) : NumberEnd (u :: s) := by
  have hmark : Mark c (u :: s) s := .mk h
  simp only [List.mem_cons, List.not_mem_nil, or_false, not_or] at hc
  exact ⟨hmark.noDigit hdigit, hmark.after?_ne hc.1, hmark.after?_ne hc.2.1,
    hmark.after?_ne hc.2.2⟩

theorem Grammar.Mark.numberEnd {c : Char} {s rest : Text} (h : Mark c s rest)
    (hc : c ∈ [',', ']', '}']) : NumberEnd s := by
  have hend : ∀ c ∈ [',', ']', '}'], c.isDigit = false ∧ c ∉ ['.', 'e', 'E'] := by decide
  obtain ⟨h⟩ := h
  exact numberEnd_of_toChar h (hend c hc).1 (hend c hc).2

theorem Grammar.Blanks.numberEnd {s rest : Text} (h : Blanks s rest) (hend : NumberEnd rest) :
    NumberEnd s := by
  cases h with
  | nil => exact hend
  | cons hu _ =>
    simp only [isBlank, Bool.or_eq_true, beq_iff_eq] at hu
    rcases hu with ((hu | hu) | hu) | hu
    · exact numberEnd_of_toChar hu (by decide) (by decide)
    · exact numberEnd_of_toChar hu (by decide) (by decide)
    · exact numberEnd_of_toChar hu (by decide) (by decide)
    · exact numberEnd_of_toChar hu (by decide) (by decide)

/-- Neither white space nor a closing bracket begins a value. -/
theorem head_of_value {s rest : Text} (h : Value s rest) {c : Char}
    (hc : c ∈ [' ', '\n', '\r', '\t', ']']) : s.head?.map CodeUnit.toChar ≠ some c := by
  have hfirst : ∀ d ∈ ['n', 't', 'f', '"', '[', '{'], d ≠ c := by
    have : ∀ c ∈ [' ', '\n', '\r', '\t', ']'], ∀ d ∈ ['n', 't', 'f', '"', '[', '{'], d ≠ c := by
      decide
    exact this c hc
  have hother {d : Char} (hd : s.head?.map CodeUnit.toChar = some d)
      (hmem : d ∈ ['n', 't', 'f', '"', '[', '{']) : s.head?.map CodeUnit.toChar ≠ some c := by
    rw [hd]
    exact fun h => hfirst d hmem (Option.some.inj h)
  cases h with
  | null h => exact hother h.head (by decide)
  | true h => exact hother h.head (by decide)
  | false h => exact hother h.head (by decide)
  | number h =>
    have hnumber : ∀ c ∈ [' ', '\n', '\r', '\t', ']'], c ≠ '-' ∧ c.isDigit = false := by decide
    exact h.head_ne (hnumber c hc).1 (hnumber c hc).2
  | string hmark _ => exact hother hmark.head (by decide)
  | emptyArray hmark _ _ => exact hother hmark.head (by decide)
  | array hmark _ _ => exact hother hmark.head (by decide)
  | emptyObject hmark _ _ => exact hother hmark.head (by decide)
  | object hmark _ _ => exact hother hmark.head (by decide)

theorem noBlank_of_value {s rest : Text} (h : Value s rest) : NoBlank s := by
  intro u hu
  have hne {c : Char} (hc : c ∈ [' ', '\n', '\r', '\t', ']']) : u.toChar ≠ c := by
    have := head_of_value h hc
    rw [Option.mem_def.mp hu] at this
    exact fun h => this (congrArg some h)
  simp only [isBlank, Bool.or_eq_false_iff, beq_eq_false_iff_ne]
  exact ⟨⟨⟨hne (by decide), hne (by decide)⟩, hne (by decide)⟩, hne (by decide)⟩

theorem noBlank_of_items {s rest : Text} (h : Items s rest) :
    NoBlank s ∧ after? ']' s = none := by
  cases h with
  | last h _ _ | cons h _ _ _ _ =>
    exact ⟨noBlank_of_value h, after?_eq_none.mpr (head_of_value h (by decide))⟩

theorem noBlank_of_members {s rest : Text} (h : Members s rest) :
    NoBlank s ∧ after? '}' s = none := by
  have of_member {t : Text} (h : Member s t) : NoBlank s ∧ after? '}' s = none := by
    obtain ⟨hmark, _⟩ := h
    exact ⟨hmark.noBlank (by decide), hmark.after?_ne (by decide)⟩
  cases h with
  | last h _ _ | cons h _ _ _ _ => exact of_member h

theorem takeValue_eq_takeScalar {s : Text} (fuel : Nat)
    (h : ∀ c ∈ ['"', '[', '{'], s.head?.map CodeUnit.toChar ≠ some c) :
    takeValue (fuel + 1) s = takeScalar s := by
  have hquote := after?_eq_none.mpr (h '"' (by decide))
  have hbracket := after?_eq_none.mpr (h '[' (by decide))
  have hbrace := after?_eq_none.mpr (h '{' (by decide))
  simp only [takeValue, hquote, hbracket, hbrace]

theorem takeValue_of_name {s rest : Text} {c : Char} {name : List Char} {v : Json} (fuel : Nat)
    (h : Name (c :: name) s rest) (hc : c ∉ ['"', '[', '{'])
    (hv : takeScalar s = takeName v (c :: name) s) : takeValue (fuel + 1) s = .ok (v, rest) := by
  rw [takeValue_eq_takeScalar fuel, hv]
  · exact takeName_of_name h v
  · intro d hd hs
    obtain rfl := Option.some.inj (h.head.symm.trans hs)
    exact hc hd

theorem takeValue_of_numeral {s rest : Text} (fuel : Nat) (h : Numeral s rest)
    (hend : NumberEnd rest) : ∃ v, takeValue (fuel + 1) s = .ok (v, rest) := by
  have hc : ∀ c ∈ ['"', '[', '{'], c ≠ '-' ∧ c.isDigit = false := by decide
  rw [takeValue_eq_takeScalar fuel fun c hmem => h.head_ne (hc c hmem).1 (hc c hmem).2]
  exact takeScalar_of_numeral h hend

theorem takeValue_of_array {s t u rest : Text} {fuel : Nat} {items : List Json}
    (hmark : Mark '[' s t) (hblanks : skipBlanks t = u) (hopen : after? ']' u = none)
    (h : takeItems fuel u = .ok (items, rest)) :
    takeValue (fuel + 1) s = .ok (.array items, rest) := by
  have hquote : after? '"' s = none := hmark.after?_ne (by decide)
  simp only [takeValue, hquote, after?_eq_some.mpr hmark, hblanks, hopen, h]
  rfl

theorem takeValue_of_object {s t u rest : Text} {fuel : Nat} {members : List (Text × Json)}
    (hmark : Mark '{' s t) (hblanks : skipBlanks t = u) (hopen : after? '}' u = none)
    (h : takeMembers .nameOrBraceMissing fuel u = .ok (members, rest)) :
    takeValue (fuel + 1) s = .ok (.object members, rest) := by
  have hquote : after? '"' s = none := hmark.after?_ne (by decide)
  have hbracket : after? '[' s = none := hmark.after?_ne (by decide)
  simp only [takeValue, hquote, hbracket, after?_eq_some.mpr hmark, hblanks, hopen, h]
  rfl

mutual

theorem takeValue_of_value {s rest : Text} : Value s rest → NumberEnd rest → ∀ fuel,
    2 * s.length < fuel → ∃ v, takeValue fuel s = .ok (v, rest)
  | _, _, 0, hfuel => absurd hfuel (Nat.not_lt_zero _)
  | .null h, _, fuel + 1, _ =>
    ⟨.null, takeValue_of_name fuel h (by decide) (by simp only [takeScalar, h.head])⟩
  | .true h, _, fuel + 1, _ =>
    ⟨.bool true, takeValue_of_name fuel h (by decide) (by simp only [takeScalar, h.head])⟩
  | .false h, _, fuel + 1, _ =>
    ⟨.bool false, takeValue_of_name fuel h (by decide) (by simp only [takeScalar, h.head])⟩
  | .number h, hend, fuel + 1, _ => takeValue_of_numeral fuel h hend
  | .string hmark hbody, _, fuel + 1, _ => by
    obtain ⟨text, htext⟩ := takeBody_of_body hbody []
    refine ⟨.string text, ?_⟩
    simp only [takeValue, after?_eq_some.mpr hmark, htext]
    rfl
  | .emptyArray hmark hblanks hclose, _, fuel + 1, _ => by
    have hquote := hmark.after?_ne (by decide : '[' ≠ '"')
    have hskip := hblanks.skipBlanks_eq (hclose.noBlank (by decide))
    refine ⟨.array [], ?_⟩
    simp only [takeValue, hquote, after?_eq_some.mpr hmark, hskip, after?_eq_some.mpr hclose]
  | .array hmark hblanks h, _, fuel + 1, hfuel => by
    obtain ⟨hstart, hopen⟩ := noBlank_of_items h
    have hlength := hmark.length
    have := hblanks.length
    obtain ⟨items, hitems⟩ := takeItems_of_items h fuel (by omega)
    exact ⟨.array items, takeValue_of_array hmark (hblanks.skipBlanks_eq hstart) hopen hitems⟩
  | .emptyObject hmark hblanks hclose, _, fuel + 1, _ => by
    have hquote := hmark.after?_ne (by decide : '{' ≠ '"')
    have hbracket := hmark.after?_ne (by decide : '{' ≠ '[')
    have hskip := hblanks.skipBlanks_eq (hclose.noBlank (by decide))
    refine ⟨.object [], ?_⟩
    simp only [takeValue, hquote, hbracket, after?_eq_some.mpr hmark, hskip,
      after?_eq_some.mpr hclose]
  | .object hmark hblanks h, _, fuel + 1, hfuel => by
    obtain ⟨hstart, hopen⟩ := noBlank_of_members h
    have hlength := hmark.length
    have := hblanks.length
    obtain ⟨members, hmembers⟩ := takeMembers_of_members h .nameOrBraceMissing fuel (by omega)
    exact ⟨.object members,
      takeValue_of_object hmark (hblanks.skipBlanks_eq hstart) hopen hmembers⟩

theorem takeItems_of_items {s rest : Text} : Items s rest → ∀ fuel,
    2 * s.length + 1 < fuel → ∃ items, takeItems fuel s = .ok (items, rest)
  | _, 0, hfuel => absurd hfuel (Nat.not_lt_zero _)
  | .last h hblanks hclose, fuel + 1, hfuel => by
    have hend := hblanks.numberEnd (hclose.numberEnd (by decide))
    obtain ⟨v, hv⟩ := takeValue_of_value h hend fuel (by omega)
    have hskip := hblanks.skipBlanks_eq (hclose.noBlank (by decide))
    refine ⟨[v], ?_⟩
    simp only [takeItems, hv, bind, Except.bind, hskip, after?_eq_some.mpr hclose]
    rfl
  | .cons h hblanks hcomma hblanks' h', fuel + 1, hfuel => by
    have hend := hblanks.numberEnd (hcomma.numberEnd (by decide))
    obtain ⟨v, hv⟩ := takeValue_of_value h hend fuel (by omega)
    have hskip := hblanks.skipBlanks_eq (hcomma.noBlank (by decide))
    have hskip' := hblanks'.skipBlanks_eq (noBlank_of_items h').1
    have := h.length
    have := hblanks.length
    have := hcomma.length
    have := hblanks'.length
    obtain ⟨items, hitems⟩ := takeItems_of_items h' fuel (by omega)
    refine ⟨v :: items, ?_⟩
    simp only [takeItems, hv, bind, Except.bind, hskip, hcomma.after?_ne (by decide : ',' ≠ ']'),
      after?_eq_some.mpr hcomma, hskip', hitems]
    rfl

theorem takeMember_of_member {s rest : Text} : Member s rest → NumberEnd rest → ∀ fuel,
    2 * s.length < fuel → ∃ t name u w v, after? '"' s = some t ∧
      takeBody [] t = .ok (name, u) ∧ after? ':' (skipBlanks u) = some w ∧
        takeValue fuel (skipBlanks w) = .ok (v, rest)
  | .mk hmark hbody hblanks hcolon hblanks' h, hend, fuel, hfuel => by
    obtain ⟨name, hname⟩ := takeBody_of_body hbody []
    have hskip := hblanks.skipBlanks_eq (hcolon.noBlank (by decide))
    have hskip' := hblanks'.skipBlanks_eq (noBlank_of_value h)
    have := hmark.length
    have := hbody.length
    have := hblanks.length
    have := hcolon.length
    have := hblanks'.length
    obtain ⟨v, hv⟩ := takeValue_of_value h hend fuel (by omega)
    rw [← hskip] at hcolon
    rw [← hskip'] at hv
    exact ⟨_, name, _, _, v, after?_eq_some.mpr hmark, hname, after?_eq_some.mpr hcolon, hv⟩

theorem takeMembers_of_members {s rest : Text} : Members s rest → ∀ missing fuel,
    2 * s.length + 1 < fuel → ∃ members, takeMembers missing fuel s = .ok (members, rest)
  | _, _, 0, hfuel => absurd hfuel (Nat.not_lt_zero _)
  | .last h hblanks hclose, missing, fuel + 1, hfuel => by
    have hend := hblanks.numberEnd (hclose.numberEnd (by decide))
    obtain ⟨t, name, u, w, v, hquote, hname, hcolon, hv⟩ :=
      takeMember_of_member h hend fuel (by omega)
    have hskip := hblanks.skipBlanks_eq (hclose.noBlank (by decide))
    refine ⟨[(name, v)], ?_⟩
    simp only [takeMembers, hquote, hname, bind, Except.bind, hcolon, hv, hskip,
      after?_eq_some.mpr hclose]
    rfl
  | .cons h hblanks hcomma hblanks' h', missing, fuel + 1, hfuel => by
    have hend := hblanks.numberEnd (hcomma.numberEnd (by decide))
    obtain ⟨t, name, u, w, v, hquote, hname, hcolon, hv⟩ :=
      takeMember_of_member h hend fuel (by omega)
    have hskip := hblanks.skipBlanks_eq (hcomma.noBlank (by decide))
    have hskip' := hblanks'.skipBlanks_eq (noBlank_of_members h').1
    have := h.length
    have := hblanks.length
    have := hcomma.length
    have := hblanks'.length
    obtain ⟨members, hmembers⟩ := takeMembers_of_members h' .nameMissing fuel (by omega)
    refine ⟨(name, v) :: members, ?_⟩
    simp only [takeMembers, hquote, hname, bind, Except.bind, hcolon, hv, hskip,
      hcomma.after?_ne (by decide : ',' ≠ '}'), after?_eq_some.mpr hcomma, hskip', hmembers]
    rfl

end

theorem read_of_document {s : Text} (h : Document s) : ∃ v, read s = .ok v := by
  obtain ⟨hblanks, hvalue, hblanks'⟩ := h
  have hlength := hblanks.length
  have hend := hblanks'.numberEnd numberEnd_nil
  obtain ⟨v, hv⟩ := takeValue_of_value hvalue hend (2 * s.length + 2) (by omega)
  have hskip := hblanks.skipBlanks_eq (noBlank_of_value hvalue)
  have hskip' := hblanks'.skipBlanks_eq (by intro u hu; cases hu)
  refine ⟨v, ?_⟩
  simp only [read, hskip, hv, bind, Except.bind, hskip']
  rfl

/-- The reader finds a value in a text exactly if the text is JSON. -/
theorem read_eq_ok_iff {s : Text} : (∃ v, read s = .ok v) ↔ Document s := by
  constructor
  · rintro ⟨v, hv⟩
    exact document_of_read hv
  · exact read_of_document

end LiveProgress.Json
