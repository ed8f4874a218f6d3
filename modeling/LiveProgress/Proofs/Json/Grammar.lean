import LiveProgress.Json.Extent
import LiveProgress.Json.Grammar
import Mathlib.Tactic.Common

/-!
# Phrases of the grammar inside brackets

A phrase of the grammar closes every bracket and string that it opens, so a JSON value can
be passed over by counting: whatever begins with it and goes on as the inside of brackets
is one. An object reaches as far as its brackets do. In passing, what follows a phrase is
never longer than what begins with it.
-/

namespace LiveProgress.Json
open Grammar

/-! ### Marks and blanks -/

theorem Grammar.Mark.head {c : Char} {s rest : Text} (h : Mark c s rest) :
    s.head?.map CodeUnit.toChar = some c := by
  obtain ⟨h⟩ := h
  exact congrArg some h

theorem Grammar.Mark.length {c : Char} {s rest : Text} (h : Mark c s rest) :
    s.length = rest.length + 1 := by
  obtain ⟨h⟩ := h
  rfl

theorem Grammar.Blanks.length {s t : Text} (h : Blanks s t) : t.length ≤ s.length := by
  induction h with
  | nil => exact Nat.le_refl _
  | cons _ _ ih => exact Nat.le_succ_of_le ih

/-- A text that does not begin with white space. -/
def NoBlank (s : Text) : Prop := ∀ u ∈ s.head?, isBlank u = false

theorem Grammar.Mark.noBlank {c : Char} {s rest : Text} (h : Mark c s rest)
    (hc : c ∉ [' ', '\n', '\r', '\t']) : NoBlank s := by
  obtain ⟨h⟩ := h
  intro u hu
  obtain rfl := Option.some.inj hu
  simp only [isBlank, h]
  simpa [and_assoc] using hc

theorem NoBlank.of_append {s t : Text} (h : NoBlank (s ++ t)) : NoBlank s := by
  cases s with
  | nil =>
    intro u hu
    cases hu
  | cons u s => exact h

theorem Grammar.Blanks.eq_of_noBlank {s t : Text} (h : Blanks s t) (hs : NoBlank s) : s = t := by
  cases h with
  | nil => rfl
  | cons hu _ =>
    rw [hs _ rfl] at hu
    cases hu

/-! ### First units -/

theorem Grammar.Digits.head {s rest : Text} (h : Digits s rest) :
    ∃ u t, s = u :: t ∧ u.isDigit = true := by
  cases h with
  | one hu => exact ⟨_, _, rfl, hu⟩
  | cons hu _ => exact ⟨_, _, rfl, hu⟩

theorem Grammar.Unsigned.head {s rest : Text} (h : Unsigned s rest) :
    ∃ u t, s = u :: t ∧ u.isDigit = true := by
  obtain ⟨hwhole, _, _⟩ := h
  cases hwhole with
  | zero h =>
    obtain ⟨h⟩ := h
    exact ⟨_, _, rfl, by rw [CodeUnit.isDigit, h]; rfl⟩
  | digits _ h => exact h.head

theorem Grammar.Name.head {c : Char} {name : List Char} {s rest : Text}
    (h : Name (c :: name) s rest) : s.head?.map CodeUnit.toChar = some c := by
  cases h with
  | cons hmark _ => exact hmark.head

theorem Grammar.Numeral.head {s rest : Text} (h : Numeral s rest) :
    ∃ u t, s = u :: t ∧ (u.toChar = '-' ∨ u.isDigit = true) := by
  cases h with
  | positive h =>
    obtain ⟨u, t, hs, hu⟩ := h.head
    exact ⟨u, t, hs, .inr hu⟩
  | negative hminus _ =>
    obtain ⟨hminus⟩ := hminus
    exact ⟨_, _, rfl, .inl hminus⟩

theorem Grammar.Numeral.head_ne {s rest : Text} (h : Numeral s rest) {c : Char}
    (hminus : c ≠ '-') (hdigit : c.isDigit = false) : s.head?.map CodeUnit.toChar ≠ some c := by
  obtain ⟨u, t, rfl, hu⟩ := h.head
  intro hc
  have hc : u.toChar = c := Option.some.inj hc
  rcases hu with hu | hu
  · exact hminus (hc.symm.trans hu)
  · rw [CodeUnit.isDigit, hc, hdigit] at hu
    cases hu

/-! ### Units that do not nest -/

theorem isPlain_of_toChar {u : CodeUnit} {c : Char} (h : u.toChar = c)
    (hc : c ∉ ['"', '{', '[', '}', ']']) : isPlain u = true := by
  simp only [isPlain, isQuote, isOpening, isClosing, h]
  simpa [and_assoc] using hc

theorem isPlain_of_isBlank {u : CodeUnit} (h : isBlank u = true) : isPlain u = true := by
  simp only [isBlank, Bool.or_eq_true, beq_iff_eq] at h
  rcases h with ((h | h) | h) | h
  · exact isPlain_of_toChar h (by decide)
  · exact isPlain_of_toChar h (by decide)
  · exact isPlain_of_toChar h (by decide)
  · exact isPlain_of_toChar h (by decide)

theorem Grammar.Mark.inside {c : Char} {s t rest : Text} (h : Mark c s t)
    (hc : c ∉ ['"', '{', '[', '}', ']']) (hi : Inside t rest) : Inside s rest := by
  obtain ⟨h⟩ := h
  exact .plain (isPlain_of_toChar h hc) hi

theorem Grammar.Blanks.inside {s t rest : Text} (h : Blanks s t) (hi : Inside t rest) :
    Inside s rest := by
  induction h with
  | nil => exact hi
  | cons hu _ ih => exact .plain (isPlain_of_isBlank hu) (ih hi)

/-! ### Numbers and names -/

/-- The characters of numbers and names. -/
def isTokenChar (c : Char) : Bool := c.isAlphanum || c == '-' || c == '+' || c == '.'

def isToken (u : CodeUnit) : Bool := isTokenChar u.toChar

theorem isToken_eq_false {u : CodeUnit}
    (h : u.toChar ∈ [' ', '\n', '\r', '\t', '"', '{', '[', '}', ']']) : isToken u = false := by
  have hno : ∀ c ∈ [' ', '\n', '\r', '\t', '"', '{', '[', '}', ']'], isTokenChar c = false := by
    decide
  exact hno _ h

theorem isToken_of_isDigit {u : CodeUnit} (h : u.isDigit = true) : isToken u = true := by
  have hdigit : u.toChar.isDigit = true := h
  simp [isToken, isTokenChar, Char.isAlphanum, hdigit]

/-- A stretch of text of units of numbers and names. -/
inductive Tokens : Text → Text → Prop
  | nil {rest : Text} : Tokens rest rest
  | cons {u : CodeUnit} {s rest : Text} : isToken u = true → Tokens s rest → Tokens (u :: s) rest

theorem Tokens.trans {s t rest : Text} (h : Tokens s t) (ht : Tokens t rest) : Tokens s rest := by
  induction h with
  | nil => exact ht
  | cons hu _ ih => exact .cons hu (ih ht)

theorem Grammar.Mark.tokens {c : Char} {s rest : Text} (h : Mark c s rest)
    (hc : isTokenChar c = true) : Tokens s rest := by
  obtain ⟨h⟩ := h
  exact .cons (by rw [isToken, h, hc]) .nil

theorem Grammar.Name.tokens {name : List Char} {s rest : Text} (h : Name name s rest)
    (hc : ∀ c ∈ name, isTokenChar c = true) : Tokens s rest := by
  induction h with
  | nil => exact .nil
  | cons hmark _ ih =>
    obtain ⟨hfirst, hlater⟩ := List.forall_mem_cons.mp hc
    exact (hmark.tokens hfirst).trans (ih hlater)

theorem Grammar.Digits.tokens {s rest : Text} (h : Digits s rest) : Tokens s rest := by
  induction h with
  | one hu => exact .cons (isToken_of_isDigit hu) .nil
  | cons hu _ ih => exact .cons (isToken_of_isDigit hu) ih

theorem Grammar.Whole.tokens {s rest : Text} (h : Whole s rest) : Tokens s rest := by
  cases h with
  | zero hmark => exact hmark.tokens (by decide)
  | digits _ h => exact h.tokens

theorem Grammar.Fraction.tokens {s rest : Text} (h : Fraction s rest) : Tokens s rest := by
  cases h with
  | none => exact .nil
  | some hmark h => exact (hmark.tokens (by decide)).trans h.tokens

theorem Grammar.ExponentMark.tokens {s rest : Text} (h : ExponentMark s rest) :
    Tokens s rest := by
  cases h with
  | lower hmark => exact hmark.tokens (by decide)
  | upper hmark => exact hmark.tokens (by decide)

theorem Grammar.Sign.tokens {s rest : Text} (h : Sign s rest) : Tokens s rest := by
  cases h with
  | none => exact .nil
  | plus hmark => exact hmark.tokens (by decide)
  | minus hmark => exact hmark.tokens (by decide)

theorem Grammar.Exponent.tokens {s rest : Text} (h : Exponent s rest) : Tokens s rest := by
  cases h with
  | none => exact .nil
  | some hmark hsign hdigits => exact hmark.tokens.trans (hsign.tokens.trans hdigits.tokens)

theorem Grammar.Unsigned.tokens {s rest : Text} (h : Unsigned s rest) : Tokens s rest := by
  obtain ⟨hwhole, hfraction, hexponent⟩ := h
  exact hwhole.tokens.trans (hfraction.tokens.trans hexponent.tokens)

theorem Grammar.Numeral.tokens {s rest : Text} (h : Numeral s rest) : Tokens s rest := by
  cases h with
  | positive h => exact h.tokens
  | negative hmark h => exact (hmark.tokens (by decide)).trans h.tokens

theorem isPlain_of_isToken {u : CodeUnit} (h : isToken u = true) : isPlain u = true := by
  refine isPlain_of_toChar rfl fun hc => ?_
  rw [isToken_eq_false (List.mem_append_right [' ', '\n', '\r', '\t'] hc)] at h
  cases h

theorem Tokens.inside {s t rest : Text} (h : Tokens s t) (hi : Inside t rest) : Inside s rest := by
  induction h with
  | nil => exact hi
  | cons hu _ ih => exact .plain (isPlain_of_isToken hu) (ih hi)

/-! ### Strings -/

theorem Quoted.of_toChar_ne {u : CodeUnit} {s rest : Text} (hquote : u.toChar ≠ '"')
    (hback : u.toChar ≠ '\\') (h : Quoted s rest) : Quoted (u :: s) rest :=
  .plain (by simpa [isQuote] using hquote) (by simpa [isBackslash] using hback) h

theorem Quoted.of_isHex {u : CodeUnit} {s rest : Text} (hu : isHex u = true)
    (h : Quoted s rest) : Quoted (u :: s) rest := by
  refine Quoted.of_toChar_ne (fun hc => ?_) (fun hc => ?_) h
  · rw [isHex, hc] at hu
    cases hu
  · rw [isHex, hc] at hu
    cases hu

/-- A string of the grammar ends at its first quotation mark that is not escaped. -/
theorem Grammar.Body.quoted {s rest : Text} (h : Body s rest) : Quoted s rest := by
  induction h with
  | close hmark =>
    obtain ⟨hmark⟩ := hmark
    exact .close (by simp [isQuote, hmark])
  | plain hquote hback _ _ ih => exact .of_toChar_ne hquote hback ih
  | escaped hmark _ _ ih =>
    obtain ⟨hmark⟩ := hmark
    exact .escaped (by simp [isBackslash, hmark]) ih
  | unit hmark hu ha hb hc hd _ ih =>
    obtain ⟨hmark⟩ := hmark
    obtain ⟨hu⟩ := hu
    exact .escaped (by simp [isBackslash, hmark])
      (.of_isHex ha (.of_isHex hb (.of_isHex hc (.of_isHex hd ih))))

theorem Grammar.Mark.string {s t u rest : Text} (hmark : Mark '"' s t) (hbody : Body t u)
    (hi : Inside u rest) : Inside s rest := by
  obtain ⟨hmark⟩ := hmark
  exact .string (by simp [isQuote, hmark]) hbody.quoted hi

/-! ### Values -/

theorem Inside.trans {s t rest : Text} (h : Inside s t) (hi : Inside t rest) :
    Inside s rest := by
  induction h with
  | nil => exact hi
  | plain hu _ ih => exact .plain hu (ih hi)
  | string hu hq _ ih => exact .string hu hq (ih hi)
  | nested hu hin hv _ _ ih => exact .nested hu hin hv (ih hi)

/-- What a phrase leaves over after its closing bracket `c`. -/
def Closes (c : Char) (s rest : Text) : Prop := ∃ u, u.toChar = c ∧ Inside s (u :: rest)

theorem Closes.of_inside {c : Char} {s t rest : Text} (h : Closes c t rest)
    (hi : ∀ r, Inside t r → Inside s r) : Closes c s rest := by
  obtain ⟨u, hu, h⟩ := h
  exact ⟨u, hu, hi _ h⟩

theorem Grammar.Mark.closes {c : Char} {s rest : Text} (h : Mark c s rest) :
    Closes c s rest := by
  obtain ⟨h⟩ := h
  exact ⟨_, h, .nil⟩

theorem Closes.nested {c d : Char} {s t u rest : Text} (h : Closes d t u) (hmark : Mark c s t)
    (hc : c ∈ ['{', '[']) (hd : d ∈ ['}', ']']) (hi : Inside u rest) : Inside s rest := by
  obtain ⟨v, hv, h⟩ := h
  obtain ⟨hmark⟩ := hmark
  refine .nested ?_ h ?_ hi
  · simpa [isOpening, hmark] using hc
  · simpa [isClosing, hv] using hd

mutual

theorem Grammar.Value.inside {s t rest : Text} : Value s t → Inside t rest → Inside s rest
  | .null h, hi | .true h, hi | .false h, hi => (h.tokens (by decide)).inside hi
  | .number h, hi => h.tokens.inside hi
  | .string hmark hbody, hi => hmark.string hbody hi
  | .emptyArray hmark hblanks hend, hi =>
    (hend.closes.of_inside fun _ => hblanks.inside).nested hmark (by decide) (by decide) hi
  | .array hmark hblanks h, hi =>
    (h.closes.of_inside fun _ => hblanks.inside).nested hmark (by decide) (by decide) hi
  | .emptyObject hmark hblanks hend, hi =>
    (hend.closes.of_inside fun _ => hblanks.inside).nested hmark (by decide) (by decide) hi
  | .object hmark hblanks h, hi =>
    (h.closes.of_inside fun _ => hblanks.inside).nested hmark (by decide) (by decide) hi

theorem Grammar.Items.closes {s rest : Text} : Items s rest → Closes ']' s rest
  | .last h hblanks hmark =>
    hmark.closes.of_inside fun _ hi => h.inside (hblanks.inside hi)
  | .cons h hblanks hmark hblanks' h' =>
    h'.closes.of_inside fun _ hi =>
      h.inside (hblanks.inside (hmark.inside (by decide) (hblanks'.inside hi)))

theorem Grammar.Member.inside {s t rest : Text} : Member s t → Inside t rest → Inside s rest
  | .mk hmark hbody hblanks hcolon hblanks' h, hi =>
    hmark.string hbody
      (hblanks.inside (hcolon.inside (by decide) (hblanks'.inside (h.inside hi))))

theorem Grammar.Members.closes {s rest : Text} : Members s rest → Closes '}' s rest
  | .last h hblanks hmark =>
    hmark.closes.of_inside fun _ hi => h.inside (hblanks.inside hi)
  | .cons h hblanks hmark hblanks' h' =>
    h'.closes.of_inside fun _ hi =>
      h.inside (hblanks.inside (hmark.inside (by decide) (hblanks'.inside hi)))

end

theorem Closes.extent {c d : Char} {s t rest : Text} (h : Closes d t rest) (hmark : Mark c s t)
    (hc : c ∈ ['{', '[']) (hd : d ∈ ['}', ']']) : Extent s rest := by
  obtain ⟨v, hv, h⟩ := h
  obtain ⟨hmark⟩ := hmark
  refine .nested ?_ h ?_
  · simpa [isOpening, hmark] using hc
  · simpa [isClosing, hv] using hd

/-- A value between brackets reaches as far as these do. -/
theorem extent_of_value {s t rest : Text} {c : Char} (h : Value s rest)
    (hmark : Mark c s t) (hc : c ∈ ['{', '[']) : Extent s rest := by
  have hhead := hmark.head
  have hdigit : c ≠ '-' ∧ c.isDigit = false := by
    have : ∀ c ∈ ['{', '['], c ≠ '-' ∧ c.isDigit = false := by decide
    exact this c hc
  cases h with
  | null h | true h | false h =>
    obtain rfl := Option.some.inj (h.head.symm.trans hhead)
    exact absurd hc (by decide)
  | number h => exact absurd hhead (h.head_ne hdigit.1 hdigit.2)
  | string hquote _ =>
    obtain rfl := Option.some.inj (hquote.head.symm.trans hhead)
    exact absurd hc (by decide)
  | emptyArray hmark hblanks hend | emptyObject hmark hblanks hend =>
    exact (hend.closes.of_inside fun _ => hblanks.inside).extent hmark (by decide) (by decide)
  | array hmark hblanks h =>
    exact (h.closes.of_inside fun _ => hblanks.inside).extent hmark (by decide) (by decide)
  | object hmark hblanks h =>
    exact (h.closes.of_inside fun _ => hblanks.inside).extent hmark (by decide) (by decide)

/-! ### What is left over is not longer -/

theorem Quoted.length {s rest : Text} (h : Quoted s rest) : rest.length < s.length := by
  induction h with
  | close _ => exact Nat.lt_succ_self _
  | plain _ _ _ ih => exact Nat.lt_succ_of_lt ih
  | escaped _ _ ih => exact Nat.lt_succ_of_lt (Nat.lt_succ_of_lt ih)

theorem Inside.length {s rest : Text} (h : Inside s rest) : rest.length ≤ s.length := by
  induction h with
  | nil => exact Nat.le_refl _
  | plain _ _ ih => exact Nat.le_succ_of_le ih
  | string _ hq _ ih =>
    have := hq.length
    simp only [List.length_cons]
    omega
  | nested _ _ _ _ ih ih' =>
    simp only [List.length_cons] at *
    omega

theorem Closes.length {c : Char} {s rest : Text} (h : Closes c s rest) :
    rest.length < s.length := by
  obtain ⟨u, _, h⟩ := h
  exact h.length

theorem Grammar.Value.length {s rest : Text} (h : Value s rest) : rest.length ≤ s.length :=
  (h.inside .nil).length

theorem Grammar.Body.length {s rest : Text} (h : Body s rest) : rest.length < s.length :=
  h.quoted.length

theorem Grammar.Member.length {s rest : Text} (h : Member s rest) : rest.length ≤ s.length :=
  (h.inside .nil).length

end LiveProgress.Json
