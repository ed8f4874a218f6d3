import LiveProgress.Json.Delivery
import LiveProgress.Proofs.Json.Tiling

/-!
# Values are returned when they are due

A splitter returns no value earlier or later than with the unit that completes it, whatever its
text is. The values of JSON texts joined by white space are these texts, so each call is answered
by those of them that are due with it.
-/

namespace LiveProgress.Json
open Grammar

theorem isScalar_append {text : Text} (h : text ≠ []) (more : Text) :
    isScalar (text ++ more) = isScalar text := by
  rw [isScalar, isScalar, List.head?_append_of_ne_nil _ h]

theorem isScalar_cons (u : CodeUnit) (text : Text) :
    isScalar (u :: text) = (!isOpening u && !isQuote u) := rfl

namespace Splitter

/-! ### The units that complete values -/

variable {s : Splitter} {text : Text} {values : List RawValue} {u : CodeUnit}

/-- The place of the value that is held tells its kind. -/
def TellsKind (s : Splitter) : Prop :=
  s.pending ≠ [] → (isScalar s.pending.reverse = true ↔ s.place = .scalar)

theorem tellsKind_keep (h : s.TellsKind) (hheld : s.pending ≠ []) {place : Place}
    (hplace : place = .scalar ↔ s.place = .scalar) : (s.keep u place).TellsKind := by
  intro _
  rw [keep, List.reverse_cons, isScalar_append (mt List.reverse_eq_nil_iff.mp hheld), h hheld,
    hplace]

theorem tellsKind_start (hidle : s.pending = []) (u : CodeUnit) : (s.start u).TellsKind := by
  unfold start
  split_ifs with hblank hopening hquote
  · exact fun hheld => absurd hidle hheld
  · intro _
    simp [keep, hidle, isScalar_cons, hopening]
  · intro _
    simp [keep, hidle, isScalar_cons, hquote]
  · intro _
    simp [keep, hidle, isScalar_cons, hopening, hquote]

theorem tellsKind_step (h : s.TellsKind) (ht : s.Tiles text values) (u : CodeUnit) :
    (s.step u).2.TellsKind := by
  have htakes := takes_step s u
  generalize s.step u = taken at htakes ⊢
  cases htakes with
  | start hplace => exact tellsKind_start (ht.idle.mp hplace) u
  | cut _ => exact tellsKind_start rfl u
  | keep hplace _ hkind => exact tellsKind_keep h (mt ht.idle.mpr hplace) hkind
  | close _ _ => exact fun hheld => absurd rfl hheld

/-- A number or name that is cut off is due with the unit behind it. -/
theorem due_cut (h : s.TellsKind) (ht : s.Tiles text values) (hplace : s.place = .scalar) :
    s.cut.1.due = text.length := by
  have hheld : s.pending ≠ [] := mt ht.idle.mpr (by simp [hplace])
  have hscalar : isScalar s.cut.1.text = true := (h hheld).mpr hplace
  rw [RawValue.due, if_pos hscalar, RawValue.stop, cut, List.length_reverse, ht.length_eq]

theorem due_step (h : s.TellsKind) (ht : s.Tiles text values) :
    ∀ v ∈ (s.step u).1, v.due = text.length := by
  have htakes := takes_step s u
  generalize s.step u = taken at htakes ⊢
  intro v hv
  cases htakes with
  | start _ => cases hv
  | cut hplace =>
    obtain rfl := Option.some.inj hv
    exact due_cut h ht hplace
  | keep _ _ _ => cases hv
  | close hplace hkind =>
    obtain rfl := Option.some.inj hv
    have hheld : s.pending ≠ [] := mt ht.idle.mpr hplace
    have hkept := tellsKind_keep (u := u) h hheld Iff.rfl
    have hscalar : ¬ isScalar (u :: s.pending).reverse = true :=
      fun hscalar => hkind ((hkept (List.cons_ne_nil _ _)).mp hscalar)
    simp only [RawValue.due, keep, if_neg hscalar, RawValue.stop, List.length_reverse,
      List.length_cons, ht.length_eq]
    omega

/-! ### Calls -/

theorem due_push (h : s.TellsKind) (ht : s.Tiles text values) (chunk : Text) :
    (s.push chunk).2.TellsKind ∧ ∀ v ∈ (s.push chunk).1,
      text.length ≤ v.due ∧ v.due < text.length + chunk.length := by
  induction chunk generalizing s text values with
  | nil => exact ⟨h, fun v hv => absurd hv List.not_mem_nil⟩
  | cons u chunk ih =>
    obtain ⟨hkind, hrest⟩ := ih (tellsKind_step h ht u) (ht.step u)
    rw [push_cons]
    refine ⟨hkind, fun v hv => ?_⟩
    rw [List.length_cons]
    rcases List.mem_append.mp hv with hfirst | hlater
    · have hdue := due_step h ht v (Option.mem_toList.mp hfirst)
      omega
    · have hdue := hrest v hlater
      rw [List.length_append, List.length_singleton] at hdue
      omega

theorem due_finish (h : s.TellsKind) (ht : s.Tiles text values) {last : Option RawValue}
    {t : Splitter} (hfinish : s.finish = .ok (last, t)) : ∀ v ∈ last, v.due = text.length := by
  intro v hv
  unfold finish at hfinish
  cases hplace : s.place with
  | between =>
    rw [hplace] at hfinish
    obtain ⟨rfl, -⟩ := Prod.mk.inj (Except.ok.inj hfinish)
    cases hv
  | scalar =>
    rw [hplace] at hfinish
    obtain ⟨rfl, -⟩ := Prod.mk.inj (Except.ok.inj hfinish)
    obtain rfl := Option.some.inj hv
    exact due_cut h ht hplace
  | quoted _ | nested _ _ =>
    rw [hplace] at hfinish
    cases hfinish

theorem due_values (h : s.TellsKind) (ht : s.Tiles text values) (more : Text) :
    ∀ v ∈ (s.values more).1, text.length ≤ v.due := by
  obtain ⟨hkind, hpushed⟩ := due_push h ht more
  have htiles := ht.push more
  intro v hv
  unfold Splitter.values at hv
  split at hv
  case h_1 last _ hfinish =>
    rcases List.mem_append.mp hv with hpush | hlast
    · exact (hpushed v hpush).1
    · have hdue := due_finish hkind htiles hfinish v (Option.mem_toList.mp hlast)
      rw [List.length_append] at hdue
      omega
  case h_2 => exact (hpushed v hv).1

/-- Values that come in the order in which they are due are told apart by it. -/
theorem dueWithin_append {before now later : List RawValue} {start stop : Nat}
    (hbefore : ∀ v ∈ before, v.due < start) (hnow : ∀ v ∈ now, start ≤ v.due ∧ v.due < stop)
    (hlater : ∀ v ∈ later, stop ≤ v.due) :
    dueWithin (before ++ (now ++ later)) start stop = now := by
  have hfirst : dueWithin before start stop = [] :=
    List.filter_eq_nil_iff.mpr fun v hv => by simp [hbefore v hv]
  have hkept : dueWithin now start stop = now :=
    List.filter_eq_self.mpr fun v hv => by simpa using hnow v hv
  have hlast : dueWithin later start stop = [] :=
    List.filter_eq_nil_iff.mpr fun v hv => by simp [hlater v hv]
  unfold dueWithin at hfirst hkept hlast ⊢
  rw [List.filter_append, List.filter_append, hfirst, hkept, hlast, List.nil_append,
    List.append_nil]

/-- If the values of a text are known and it ends, each call is answered by those that are due with
it. The values that were returned before were due before. -/
theorem answers_eq_promptAnswers (h : s.TellsKind) (ht : s.Tiles text values)
    {before : List RawValue} (hbefore : ∀ v ∈ before, v.due < text.length) {chunks : List Text}
    (hend : (s.values chunks.flatten).2 = none) :
    s.answers (chunks.map .push ++ [.finish]) =
      promptAnswers (before ++ (s.values chunks.flatten).1) text.length chunks := by
  induction chunks generalizing s text values before with
  | nil =>
    have hnone : before.filter (fun v => text.length ≤ v.due) = [] :=
      List.filter_eq_nil_iff.mpr fun v hv => by simpa using hbefore v hv
    cases hfinish : s.finish with
    | error offset => simp [Splitter.values, push_nil, hfinish] at hend
    | ok result =>
      have hlast : result.1.toList.filter (fun v => text.length ≤ v.due) = result.1.toList :=
        List.filter_eq_self.mpr fun v hv => by
          simpa using Nat.le_of_eq (due_finish h ht hfinish v (Option.mem_toList.mp hv)).symm
      simp [answers, call, promptAnswers, Splitter.values, push_nil, hfinish, hnone, hlast]
  | cons chunk chunks ih =>
    obtain ⟨hkind, hpushed⟩ := due_push h ht chunk
    have htiles := ht.push chunk
    have hlater := due_values hkind htiles chunks.flatten
    have hpassed : ∀ v ∈ before ++ (s.push chunk).1, v.due < (text ++ chunk).length := by
      intro v hv
      rw [List.length_append]
      rcases List.mem_append.mp hv with hv | hv
      · exact Nat.lt_add_right _ (hbefore v hv)
      · exact (hpushed v hv).2
    rw [List.flatten_cons, values_append] at hend ⊢
    have hanswers := ih hkind htiles hpassed hend
    rw [List.length_append] at hlater hanswers
    rw [List.map_cons, List.cons_append, promptAnswers, dueWithin_append hbefore hpushed hlater,
      ← List.append_assoc, ← hanswers]
    rfl

/-- The answers bring the values of the text. -/
theorem flatMap_answers (s : Splitter) (chunks : List Text) :
    (s.answers (chunks.map .push ++ [.finish])).flatMap Answer.values =
      (s.values chunks.flatten).1 := by
  induction chunks generalizing s with
  | nil =>
    simp only [List.map_nil, List.nil_append, answers, call, List.flatten_nil, Splitter.values,
      push_nil]
    cases s.finish <;> simp [Answer.values]
  | cons chunk chunks ih =>
    rw [List.flatten_cons, values_append, ← ih]
    rfl

end Splitter

/-! ### Single texts -/

theorem not_isBreak_of_isToken {u : CodeUnit} (h : isToken u = true) : isBreak u = false := by
  rw [← Bool.not_eq_true]
  intro hbreak
  rw [isToken_eq_false] at h
  · cases h
  · simp only [isBreak, isBlank, isOpening, isQuote, Bool.or_eq_true, beq_iff_eq] at hbreak
    simp only [List.mem_cons]
    tauto

theorem Tokens.exists_append {s rest : Text} (h : Tokens s rest) :
    ∃ x, s = x ++ rest ∧ ∀ u ∈ x, isBreak u = false := by
  induction h with
  | nil => exact ⟨[], rfl, fun u hu => absurd hu List.not_mem_nil⟩
  | cons hu _ ih =>
    obtain ⟨x, rfl, hx⟩ := ih
    exact ⟨_ :: x, rfl, List.forall_mem_cons.mpr ⟨not_isBreak_of_isToken hu, hx⟩⟩

/-- A number or name reaches as far as the next unit that ends one. -/
theorem Tokens.extent {text rest : Text} (h : Tokens text []) (hne : text ≠ [])
    (hrest : isScalar text = true → ∀ u ∈ rest.head?, isBreak u = true) :
    Extent (text ++ rest) rest := by
  obtain ⟨x, hx, hunits⟩ := h.exists_append
  rw [List.append_nil] at hx
  subst hx
  obtain ⟨u, s, rfl⟩ := List.exists_cons_of_ne_nil hne
  obtain ⟨hu, hs⟩ := List.forall_mem_cons.mp hunits
  have hscalar : isScalar (u :: s) = true := by
    simp only [isBreak, Bool.or_eq_false_iff] at hu
    simp [isScalar_cons, hu]
  have hreach : (s ++ rest).dropWhile (! isBreak ·) = rest :=
    Text.dropWhile_append_of_head (by simpa using hs) (by simpa using hrest hscalar)
  have hextent := Extent.scalar (s := s ++ rest) hu
  rw [hreach] at hextent
  exact hextent

theorem Grammar.Value.ne_nil {text rest : Text} (h : Value text rest) : text ≠ [] := by
  cases h with
  | null h | true h | false h =>
    rintro rfl
    cases h.head
  | number h =>
    obtain ⟨u, s, rfl, _⟩ := h.head
    exact List.cons_ne_nil u s
  | string hmark _ | emptyArray hmark _ _ | array hmark _ _ | emptyObject hmark _ _
  | object hmark _ _ =>
    obtain ⟨hmark⟩ := hmark
    exact List.cons_ne_nil _ _

/-- A JSON text is cut off behind its last unit, whatever follows it, and a number or name if
something follows that may follow one. -/
theorem extent_append_of_value {text rest : Text} (h : Value text [])
    (hrest : isScalar text = true → ∀ u ∈ rest.head?, isBreak u = true) :
    Extent (text ++ rest) rest := by
  have hne := h.ne_nil
  have hbrackets {c : Char} {s : Text} (hmark : Mark c text s) (hc : c ∈ ['{', '[']) :
      Extent (text ++ rest) rest := by
    have hextent := extent_of_value h hmark hc
    obtain @⟨u, _, hu⟩ := hmark
    have hopening : isOpening u = true := by simpa [isOpening, hu] using hc
    exact hextent.append (by simp [isBreak, hopening]) rest
  cases h with
  | null hname | true hname | false hname => exact (hname.tokens (by decide)).extent hne hrest
  | number hnumeral => exact hnumeral.tokens.extent hne hrest
  | string hmark hbody =>
    obtain @⟨u, _, hu⟩ := hmark
    have hquote : isQuote u = true := by simpa [isQuote] using hu
    exact (Extent.string hquote hbody.quoted).append (by simp [isBreak, hquote]) rest
  | emptyArray hmark _ _ | array hmark _ _ => exact hbrackets hmark (by decide)
  | emptyObject hmark _ _ | object hmark _ _ => exact hbrackets hmark (by decide)

/-! ### Joined texts -/

namespace Piece

variable {pieces : List Piece}

/-- What stands behind a number or name ends it. -/
theorem isBreak_behind {p : Piece} (h : (p :: pieces).IsChain Apart) (hp : isScalar p.text = true) :
    ∀ u ∈ (p.gap ++ join pieces).head?, isBreak u = true := by
  intro u hu
  cases hgap : p.gap with
  | cons v gap =>
    rw [hgap] at hu
    obtain rfl := Option.some.inj hu
    have hblank : isBlank v = true := p.isBlank_of_mem v (hgap ▸ List.mem_cons_self)
    simp [isBreak, hblank]
  | nil =>
    rw [hgap, List.nil_append] at hu
    cases pieces with
    | nil => cases hu
    | cons q pieces =>
      have hq : ¬ isScalar q.text = true := fun hq => (List.isChain_cons_cons.mp h).1 hp hq hgap
      obtain ⟨v, s, hs⟩ := List.exists_cons_of_ne_nil q.isValue.ne_nil
      rw [join, List.flatMap_cons, hs] at hu
      obtain rfl := Option.some.inj hu
      rw [hs, isScalar_cons] at hq
      simp only [Bool.and_eq_true, Bool.not_eq_true', not_and, Bool.not_eq_false] at hq
      cases hopening : isOpening v with
      | true => simp [isBreak, hopening]
      | false => simp [isBreak, hq hopening]

theorem values_join (h : pieces.IsChain Apart) (o : Nat) :
    (Splitter.between o).values (join pieces) = (valuesFrom o pieces, none) := by
  induction pieces generalizing o with
  | nil => rfl
  | cons p pieces ih =>
    have hextent := extent_append_of_value p.isValue (isBreak_behind h)
    have hjoin : join (p :: pieces) = p.text ++ (p.gap ++ join pieces) := by
      rw [join, List.flatMap_cons, List.append_assoc]
      rfl
    rw [hjoin, Splitter.values_of_extent hextent, Splitter.andValues,
      Splitter.values_blanks p.isBlank_of_mem, ih h.tail, valuesFrom]

theorem map_text_valuesFrom (pieces : List Piece) (o : Nat) :
    (valuesFrom o pieces).map RawValue.text = pieces.map Piece.text := by
  induction pieces generalizing o with
  | nil => rfl
  | cons p pieces ih => rw [valuesFrom, List.map_cons, List.map_cons, ih]

end Piece

theorem Layout.values_text (l : Layout) : ({} : Splitter).values l.text = (l.values, none) := by
  have hstart : ({} : Splitter) = Splitter.between 0 := rfl
  rw [hstart, Layout.text, Splitter.values_blanks l.isBlank_of_mem, Piece.values_join l.apart,
    Nat.zero_add, Layout.values]

/-- If JSON texts that white space joins are pushed in chunks and then end, the values that are
returned are these texts in their order, and each answer brings those that are due with it. -/
theorem Splitter.values_are_returned_when_due (l : Layout) {chunks : List Text}
    (h : chunks.flatten = l.text) :
    let answers := ({} : Splitter).answers (chunks.map .push ++ [.finish])
    (answers.flatMap Answer.values).map RawValue.text = l.pieces.map Piece.text ∧
      answers = promptAnswers l.values 0 chunks := by
  intro answers
  have hvalues : ({} : Splitter).values chunks.flatten = (l.values, none) := by
    rw [h, l.values_text]
  constructor
  · rw [flatMap_answers, hvalues, Layout.values, Piece.map_text_valuesFrom]
  · have hprompt : answers =
        promptAnswers ([] ++ (({} : Splitter).values chunks.flatten).1) 0 chunks :=
      answers_eq_promptAnswers (fun hheld => absurd rfl hheld) tiles_start
        (fun v hv => absurd hv List.not_mem_nil) (by rw [hvalues])
    rw [hprompt, hvalues, List.nil_append]

/-- An array that holds a closing bracket in a string, and two numbers. -/
def arrayAndNumbers : Layout where
  lead := []
  pieces := [
    { text := ['[', '"', ']', '"', ']'].map CodeUnit.ofChar
      gap := []
      isValue :=
        .array (.mk rfl) .nil <| .last (.string (.mk rfl) <|
          .plain (by decide) (by decide) (by decide) (.close (.mk rfl))) .nil (.mk rfl)
      isBlank_of_mem := by simp },
    { text := ['1'].map CodeUnit.ofChar
      gap := [CodeUnit.ofChar ' ']
      isValue := .number (.positive (.parts (.digits (by decide) (.one (by decide))) .none .none))
      isBlank_of_mem := List.forall_mem_singleton.mpr (by decide) },
    { text := ['2'].map CodeUnit.ofChar
      gap := []
      isValue := .number (.positive (.parts (.digits (by decide) (.one (by decide))) .none .none))
      isBlank_of_mem := by simp }]
  isBlank_of_mem := by simp
  apart := by simp [Piece.Apart, isScalar]; decide

/-- The array comes with its last bracket, the first number with the space behind it and the second
one at the end. -/
theorem Splitter.array_and_numbers_are_returned_when_due :
    let chunks := [Text.ofString "[\"]", Text.ofString "\"]1", Text.ofString " 2"]
    chunks.flatten = arrayAndNumbers.text ∧
      ({} : Splitter).answers (chunks.map .push ++ [.finish]) =
        [.ok [], .ok [⟨Text.ofString "[\"]\"]", 0⟩], .ok [⟨Text.ofString "1", 5⟩],
          .ok [⟨Text.ofString "2", 7⟩]] := by
  intro chunks
  have hjoin : chunks.flatten = arrayAndNumbers.text := rfl
  exact ⟨hjoin, (values_are_returned_when_due arrayAndNumbers hjoin).2⟩

end LiveProgress.Json
