import LiveProgress.Proofs.Json.Grammar
import Mathlib.Data.List.Induction
import Mathlib.Tactic.SplitIfs

/-!
# The splitter cuts at extents

Between two values the splitter takes what comes next as far as its extent reaches: counting
brackets and remembering an open string is enough to find the bracket that closes the first
one. A text that has no extent is an object, an array or a string that does not end, and is
told by its offset.
-/

namespace LiveProgress.Json

namespace Splitter

/-- A splitter between values. -/
def between (offset : Nat) : Splitter := { offset }

/-- The values of the rest of a text, and the offset of a value that does not end. -/
def values (s : Splitter) (text : Text) : List RawValue × Option Nat :=
  match (s.push text).2.finish with
  | .ok (last, _) => ((s.push text).1 ++ last.toList, none)
  | .error offset => ((s.push text).1, some offset)

/-- A value at an offset, and then those of the text behind it. -/
def andValues (text : Text) (offset : Nat) (rest : Text) : List RawValue × Option Nat :=
  (⟨text, offset⟩ :: ((between (offset + text.length)).values rest).1,
    ((between (offset + text.length)).values rest).2)

theorem values_cons (s : Splitter) (u : CodeUnit) (text : Text) :
    s.values (u :: text) =
      ((s.step u).1.toList ++ ((s.step u).2.values text).1, ((s.step u).2.values text).2) := by
  simp only [values, push_cons]
  split
  · simp only [List.append_assoc]
  · rfl

theorem values_append (s : Splitter) (a b : Text) :
    s.values (a ++ b) = ((s.push a).1 ++ ((s.push a).2.values b).1, ((s.push a).2.values b).2) := by
  simp only [values, push_append]
  split
  · simp only [List.append_assoc]
  · rfl

theorem values_of_step {s t : Splitter} {u : CodeUnit} (h : s.step u = (none, t))
    (text : Text) : s.values (u :: text) = t.values text := by
  rw [values_cons, h]
  rfl

theorem values_of_close {s : Splitter} {u : CodeUnit} (h : s.step u = s.close u) (text : Text) :
    s.values (u :: text) = andValues (u :: s.pending).reverse s.offset text := by
  rw [values_cons, h, andValues, List.length_reverse]
  rfl

/-! ### Kinds of units -/

theorem isBlank_of_isBreak {u : CodeUnit} (h : isBreak u = false) : isBlank u = false := by
  simp only [isBreak, Bool.or_eq_false_iff] at h
  exact h.1.1

theorem not_isBlank_of_isOpening {u : CodeUnit} (h : isOpening u = true) : isBlank u = false := by
  simp only [isOpening, Bool.or_eq_true, beq_iff_eq] at h
  rcases h with h | h
  · simp [isBlank, h]
  · simp [isBlank, h]

theorem not_isBlank_of_isQuote {u : CodeUnit} (h : isQuote u = true) : isBlank u = false := by
  simp only [isQuote, beq_iff_eq] at h
  simp [isBlank, h]

theorem not_isQuote_of_isOpening {u : CodeUnit} (h : isOpening u = true) : isQuote u = false := by
  simp only [isOpening, Bool.or_eq_true, beq_iff_eq] at h
  rcases h with h | h
  · simp [isQuote, h]
  · simp [isQuote, h]

theorem not_isOpening_of_isQuote {u : CodeUnit} (h : isQuote u = true) : isOpening u = false := by
  simp only [isQuote, beq_iff_eq] at h
  simp [isOpening, h]

theorem not_isOpening_of_isClosing {u : CodeUnit} (h : isClosing u = true) :
    isQuote u = false ∧ isOpening u = false := by
  simp only [isClosing, Bool.or_eq_true, beq_iff_eq] at h
  rcases h with h | h
  · simp [isQuote, isOpening, h]
  · simp [isQuote, isOpening, h]

theorem not_isBackslash_of_isQuote {u : CodeUnit} (h : isQuote u = true) :
    isBackslash u = false := by
  simp only [isQuote, beq_iff_eq] at h
  simp [isBackslash, h]

theorem inString_close {u : CodeUnit} (h : isQuote u = true) : inString false u = none := by
  simp [inString, h, not_isBackslash_of_isQuote h]

theorem inString_plain {u : CodeUnit} (hquote : isQuote u = false)
    (hback : isBackslash u = false) : inString false u = some false := by
  simp [inString, hquote, hback]

theorem inString_backslash {u : CodeUnit} (h : isBackslash u = true) :
    inString false u = some true := by
  simp [inString, h]

theorem inString_escaped (u : CodeUnit) : inString true u = some false := rfl

/-! ### What a unit does -/

/-- A unit is one between values, or in front of which a number or name ends, or taken into the
value that is held, or its last. -/
inductive Takes (s : Splitter) (u : CodeUnit) : Option RawValue × Splitter → Prop
  | start : s.place = .between → Takes s u (none, s.start u)
  | cut : s.place = .scalar → Takes s u (some s.cut.1, s.cut.2.start u)
  | keep {place : Place} : s.place ≠ .between → place ≠ .between →
      (place = .scalar ↔ s.place = .scalar) → Takes s u (none, s.keep u place)
  | close : s.place ≠ .between → s.place ≠ .scalar → Takes s u (s.close u)

theorem takes_step (s : Splitter) (u : CodeUnit) : s.Takes u (s.step u) := by
  unfold step
  cases hplace : s.place with
  | between => exact .start hplace
  | scalar =>
    dsimp only
    split_ifs
    · exact .cut hplace
    · exact .keep (by simp [hplace]) (by simp) (by simp [hplace])
  | quoted escaped =>
    dsimp only
    cases inString escaped u with
    | some later => exact .keep (by simp [hplace]) (by simp) (by simp [hplace])
    | none => exact .close (by simp [hplace]) (by simp [hplace])
  | nested depth quote =>
    have hkeep (depth : Nat) (quote : Option Bool) :
        s.Takes u (none, s.keep u (.nested depth quote)) :=
      .keep (by simp [hplace]) (by simp) (by simp [hplace])
    cases quote with
    | some escaped => exact hkeep _ _
    | none =>
      dsimp only
      split_ifs
      · exact hkeep _ _
      · exact hkeep _ _
      · exact .close (by simp [hplace]) (by simp [hplace])
      · exact hkeep _ _
      · exact hkeep _ _

/-! ### Steps inside a value -/

theorem values_step_quoted {u : CodeUnit} {escaped later : Bool}
    (h : inString escaped u = some later) (o : Nat) (p s : Text) :
    (⟨o, p, .quoted escaped⟩ : Splitter).values (u :: s) =
      (⟨o, u :: p, .quoted later⟩ : Splitter).values s :=
  values_of_step (by simp only [step, h, keep]) s

theorem values_step_string (u : CodeUnit) (escaped : Bool) (o : Nat) (p : Text) (d : Nat)
    (s : Text) : (⟨o, p, .nested d (some escaped)⟩ : Splitter).values (u :: s) =
      (⟨o, u :: p, .nested d (inString escaped u)⟩ : Splitter).values s :=
  values_of_step rfl s

theorem values_step_quote {u : CodeUnit} (h : isQuote u = true) (o : Nat) (p : Text) (d : Nat)
    (s : Text) : (⟨o, p, .nested d none⟩ : Splitter).values (u :: s) =
      (⟨o, u :: p, .nested d (some false)⟩ : Splitter).values s :=
  values_of_step (by simp only [step, if_pos h, keep]) s

theorem values_step_opening {u : CodeUnit} (h : isOpening u = true) (o : Nat) (p : Text)
    (d : Nat) (s : Text) : (⟨o, p, .nested d none⟩ : Splitter).values (u :: s) =
      (⟨o, u :: p, .nested (d + 1) none⟩ : Splitter).values s :=
  values_of_step (by simp [step, not_isQuote_of_isOpening h, h, keep]) s

theorem values_step_closing {u : CodeUnit} (h : isClosing u = true) (o : Nat) (p : Text)
    (d : Nat) (s : Text) : (⟨o, p, .nested (d + 2) none⟩ : Splitter).values (u :: s) =
      (⟨o, u :: p, .nested (d + 1) none⟩ : Splitter).values s :=
  values_of_step (by simp [step, not_isOpening_of_isClosing h, h, keep]) s

theorem values_step_plain {u : CodeUnit} (h : isPlain u = true) (o : Nat) (p : Text)
    (d : Nat) (s : Text) : (⟨o, p, .nested d none⟩ : Splitter).values (u :: s) =
      (⟨o, u :: p, .nested d none⟩ : Splitter).values s := by
  simp only [isPlain, Bool.and_eq_true, Bool.not_eq_true'] at h
  exact values_of_step (by simp [step, h.1.1, h.1.2, h.2, keep]) s

/-! ### Strings -/

theorem values_quoted {s rest : Text} (h : Quoted s rest) : ∃ x, s = x ++ rest ∧
    ∀ o p, (⟨o, p, .quoted false⟩ : Splitter).values s =
      andValues (p.reverse ++ x) o rest := by
  induction h with
  | @close u rest hu =>
    refine ⟨[u], rfl, ?_⟩
    intro o p
    rw [values_of_close (by simp only [step, inString_close hu]), List.reverse_cons]
  | @plain u s rest hquote hback _ ih =>
    obtain ⟨x, rfl, ih⟩ := ih
    refine ⟨u :: x, rfl, ?_⟩
    intro o p
    rw [values_step_quoted (inString_plain hquote hback), ih]
    simp
  | @escaped u v s rest hback _ ih =>
    obtain ⟨x, rfl, ih⟩ := ih
    refine ⟨u :: v :: x, rfl, ?_⟩
    intro o p
    rw [values_step_quoted (inString_backslash hback), values_step_quoted (inString_escaped v), ih]
    simp

theorem values_quoted_inside {s rest : Text} (h : Quoted s rest) : ∃ x, s = x ++ rest ∧
    ∀ o p d, (⟨o, p, .nested d (some false)⟩ : Splitter).values s =
      (⟨o, x.reverse ++ p, .nested d none⟩ : Splitter).values rest := by
  induction h with
  | @close u rest hu =>
    refine ⟨[u], rfl, ?_⟩
    intro o p d
    rw [values_step_string, inString_close hu]
    rfl
  | @plain u s rest hquote hback _ ih =>
    obtain ⟨x, rfl, ih⟩ := ih
    refine ⟨u :: x, rfl, ?_⟩
    intro o p d
    rw [values_step_string, inString_plain hquote hback, ih]
    simp
  | @escaped u v s rest hback _ ih =>
    obtain ⟨x, rfl, ih⟩ := ih
    refine ⟨u :: v :: x, rfl, ?_⟩
    intro o p d
    rw [values_step_string, inString_backslash hback, values_step_string, inString_escaped, ih]
    simp

/-! ### Brackets -/

/-- A closed stretch inside brackets is taken and leaves the depth as it is. -/
theorem values_inside {s rest : Text} (h : Inside s rest) : ∃ x, s = x ++ rest ∧
    ∀ o p d, (⟨o, p, .nested (d + 1) none⟩ : Splitter).values s =
      (⟨o, x.reverse ++ p, .nested (d + 1) none⟩ : Splitter).values rest := by
  induction h with
  | nil => exact ⟨[], rfl, fun _ _ _ => rfl⟩
  | @plain u s rest hu _ ih =>
    obtain ⟨x, rfl, ih⟩ := ih
    refine ⟨u :: x, rfl, ?_⟩
    intro o p d
    rw [values_step_plain hu, ih]
    simp
  | @string u s t rest hu hq _ ih =>
    obtain ⟨y, rfl, hy⟩ := values_quoted_inside hq
    obtain ⟨x, rfl, ih⟩ := ih
    refine ⟨u :: (y ++ x), by simp, ?_⟩
    intro o p d
    rw [values_step_quote hu, hy, ih]
    simp
  | @nested u v s t rest hu _ hv _ ih ih' =>
    obtain ⟨x, rfl, ih⟩ := ih
    obtain ⟨y, rfl, ih'⟩ := ih'
    refine ⟨u :: (x ++ v :: y), by simp, ?_⟩
    intro o p d
    rw [values_step_opening hu, ih, values_step_closing hv, ih']
    simp

/-! ### Values without brackets or quotation marks -/

theorem values_scalar (o : Nat) (p s : Text) : (⟨o, p, .scalar⟩ : Splitter).values s =
    andValues (p.reverse ++ s.takeWhile (! isBreak ·)) o (s.dropWhile (! isBreak ·)) := by
  induction s generalizing p with
  | nil =>
    simp [andValues, values, push_nil, finish, cut, between]
  | cons u s ih =>
    cases hu : isBreak u with
    | false =>
      simp only [isBreak, Bool.or_eq_false_iff] at hu
      rw [values_of_step (t := ⟨o, u :: p, .scalar⟩) (by simp [step, hu.1.1, hu.1.2, hu.2, keep]),
        ih]
      simp [isBreak, hu.1.1, hu.1.2, hu.2]
    | true =>
      have hstep : (⟨o, p, .scalar⟩ : Splitter).step u =
          (some ⟨p.reverse, o⟩, (between (o + p.length)).start u) := by
        have hu : isBlank u = true ∨ isOpening u = true ∨ isQuote u = true := by
          simpa [isBreak, or_assoc] using hu
        simp only [step, if_pos hu]
        rfl
      rw [values_cons, hstep]
      simp [hu, andValues, values_cons, step, between]

/-! ### Values -/

/-- Between values the splitter takes what stands there to the end of its extent. -/
theorem values_extent {s rest : Text} (h : Extent s rest) : ∃ x, s = x ++ rest ∧ x ≠ [] ∧
    ∀ o, (between o).values s = andValues x o rest := by
  cases h with
  | @nested u v s rest hu hin hv =>
    obtain ⟨x, rfl, hx⟩ := values_inside hin
    refine ⟨u :: (x ++ [v]), by simp, by simp, ?_⟩
    intro o
    obtain ⟨hquote, hopen⟩ := not_isOpening_of_isClosing hv
    rw [values_of_step (t := ⟨o, [u], .nested 1 none⟩)
        (by simp [step, between, start, not_isBlank_of_isOpening hu, hu, keep]), hx,
      values_of_close (by simp [step, hquote, hopen, hv])]
    simp
  | @string u s rest hu hq =>
    obtain ⟨x, rfl, hx⟩ := values_quoted hq
    refine ⟨u :: x, rfl, by simp, ?_⟩
    intro o
    rw [values_of_step (t := ⟨o, [u], .quoted false⟩)
      (by simp [step, between, start, not_isBlank_of_isQuote hu, not_isOpening_of_isQuote hu, hu,
        keep]), hx]
    rfl
  | @scalar u s hu =>
    refine ⟨u :: s.takeWhile (! isBreak ·), by simp, by simp, ?_⟩
    intro o
    simp only [isBreak, Bool.or_eq_false_iff] at hu
    rw [values_of_step (t := ⟨o, [u], .scalar⟩)
      (by simp [step, between, start, hu.1.1, hu.1.2, hu.2, keep]), values_scalar]
    rfl

theorem values_of_extent {x rest : Text} (h : Extent (x ++ rest) rest) (o : Nat) :
    (between o).values (x ++ rest) = andValues x o rest := by
  obtain ⟨y, hy, _, hvalues⟩ := values_extent h
  obtain rfl := List.append_cancel_right hy
  exact hvalues o

theorem extent_unique {s t u : Text} (ht : Extent s t) (hu : Extent s u) : t = u := by
  obtain ⟨x, hx, _, hxs⟩ := values_extent ht
  obtain ⟨y, hy, _, hys⟩ := values_extent hu
  have h := (hxs 0).symm.trans (hys 0)
  simp only [andValues, Prod.mk.injEq, List.cons.injEq, RawValue.mk.injEq, and_true] at h
  obtain ⟨⟨rfl, _⟩, _⟩ := h
  exact List.append_cancel_left (hx.symm.trans hy)

theorem values_blank {u : CodeUnit} (h : isBlank u = true) (o : Nat) (s : Text) :
    (between o).values (u :: s) = (between (o + 1)).values s :=
  values_of_step (by simp [step, between, start, h]) s

theorem values_blanks {gap : Text} (h : ∀ u ∈ gap, isBlank u = true) (o : Nat) (s : Text) :
    (between o).values (gap ++ s) = (between (o + gap.length)).values s := by
  induction gap generalizing o with
  | nil => rfl
  | cons u gap ih =>
    obtain ⟨hu, hgap⟩ := List.forall_mem_cons.mp h
    rw [List.cons_append, values_blank hu, ih hgap, List.length_cons, Nat.add_right_comm,
      Nat.add_assoc]

/-! ### Texts without an extent -/

theorem values_open_string {s : Text} (h : ∀ rest, ¬ Quoted s rest) (o : Nat) (p : Text) :
    (⟨o, p, .quoted false⟩ : Splitter).values s = ([], some o) := by
  induction s using List.twoStepInduction generalizing p with
  | nil => rfl
  | singleton u =>
    have hquote : isQuote u = false := by
      simpa using fun hu => h [] (.close hu)
    cases hback : isBackslash u with
    | false =>
      rw [values_step_quoted (inString_plain hquote hback)]
      rfl
    | true =>
      rw [values_step_quoted (inString_backslash hback)]
      rfl
  | cons_cons u v s ih ih' =>
    have hquote : isQuote u = false := by
      simpa using fun hu => h (v :: s) (.close hu)
    cases hback : isBackslash u with
    | false =>
      rw [values_step_quoted (inString_plain hquote hback)]
      exact ih' v (fun rest hq => h rest (.plain hquote hback hq)) _
    | true =>
      rw [values_step_quoted (inString_backslash hback), values_step_quoted (inString_escaped v)]
      exact ih (fun rest hq => h rest (.escaped hback hq)) _

theorem values_open_string_inside {s : Text} (h : ∀ rest, ¬ Quoted s rest) (o : Nat) (p : Text)
    (d : Nat) : (⟨o, p, .nested d (some false)⟩ : Splitter).values s = ([], some o) := by
  induction s using List.twoStepInduction generalizing p with
  | nil => rfl
  | singleton u =>
    rw [values_step_string]
    rfl
  | cons_cons u v s ih ih' =>
    have hquote : isQuote u = false := by
      simpa using fun hu => h (v :: s) (.close hu)
    cases hback : isBackslash u with
    | false =>
      rw [values_step_string, inString_plain hquote hback]
      exact ih' v (fun rest hq => h rest (.plain hquote hback hq)) _
    | true =>
      rw [values_step_string, inString_backslash hback, values_step_string, inString_escaped]
      exact ih (fun rest hq => h rest (.escaped hback hq)) _

/-- The ends of as many brackets as are open. -/
inductive Ends : Nat → Text → Text → Prop
  | zero {rest : Text} : Ends 0 rest rest
  | succ {d : Nat} {u : CodeUnit} {s t rest : Text} : Inside s (u :: t) → isClosing u = true →
      Ends d t rest → Ends (d + 1) s rest

theorem Ends.of_inside {d : Nat} {s t rest : Text} (h : Ends (d + 1) t rest)
    (hi : ∀ r, Inside t r → Inside s r) : Ends (d + 1) s rest := by
  obtain _ | ⟨hin, hu, h⟩ := h
  exact .succ (hi _ hin) hu h

theorem Ends.of_opening {d : Nat} {u : CodeUnit} {s rest : Text} (hu : isOpening u = true)
    (h : Ends (d + 2) s rest) : Ends (d + 1) (u :: s) rest := by
  obtain _ | ⟨hin, hv, h⟩ := h
  exact h.of_inside fun _ hi => .nested hu hin hv hi

/-- If the brackets that are open do not all end, the splitter waits for the end of the text. -/
theorem values_open {s : Text} {d : Nat} (h : ∀ rest, ¬ Ends (d + 1) s rest) (o : Nat)
    (p : Text) : (⟨o, p, .nested (d + 1) none⟩ : Splitter).values s = ([], some o) := by
  -- On the length: a string is passed over at once, and the depth goes up and down.
  induction hn : s.length using Nat.strongRecOn generalizing s d p with
  | ind n ih =>
  cases s with
  | nil => rfl
  | cons u s =>
    have hlength : s.length < n := by simp [← hn]
    cases hquote : isQuote u with
    | true =>
      rw [values_step_quote hquote]
      by_cases hq : ∃ t, Quoted s t
      · obtain ⟨t, hq⟩ := hq
        obtain ⟨x, rfl, hx⟩ := values_quoted_inside hq
        rw [hx]
        refine ih t.length ?_ (fun rest he => h rest ?_) _ rfl
        · simp only [List.length_append] at hlength
          omega
        · exact he.of_inside fun _ hi => .string hquote hq hi
      · exact values_open_string_inside (not_exists.mp hq) o _ _
    | false =>
      cases hopen : isOpening u with
      | true =>
        rw [values_step_opening hopen]
        exact ih s.length hlength (fun rest he => h rest (he.of_opening hopen)) _ rfl
      | false =>
        cases hclose : isClosing u with
        | true =>
          cases d with
          | zero => exact absurd (.succ .nil hclose .zero) (h s)
          | succ d =>
            rw [values_step_closing hclose]
            exact ih s.length hlength (fun rest he => h rest (.succ .nil hclose he)) _ rfl
        | false =>
          have hplain : isPlain u = true := by simp [isPlain, hquote, hopen, hclose]
          rw [values_step_plain hplain]
          refine ih s.length hlength (fun rest he => h rest ?_) _ rfl
          exact he.of_inside fun _ hi => .plain hplain hi

/-- A text that is not blank and has no extent does not end. -/
theorem values_of_no_extent {u : CodeUnit} {s : Text} (hu : isBlank u = false)
    (h : ∀ rest, ¬ Extent (u :: s) rest) (o : Nat) :
    (between o).values (u :: s) = ([], some o) := by
  cases hopen : isOpening u with
  | true =>
    rw [values_of_step (t := ⟨o, [u], .nested 1 none⟩)
      (by simp [step, between, start, hu, hopen, keep])]
    refine values_open (fun rest he => ?_) o _
    obtain _ | ⟨hin, hv, _⟩ := he
    exact h _ (.nested hopen hin hv)
  | false =>
    cases hquote : isQuote u with
    | true =>
      rw [values_of_step (t := ⟨o, [u], .quoted false⟩)
        (by simp [step, between, start, hu, hopen, hquote, keep])]
      exact values_open_string (fun rest hq => h rest (.string hquote hq)) o _
    | false => exact absurd (.scalar (by simp [isBreak, hu, hopen, hquote])) (h _)

end Splitter

theorem Extent.noBlank {s rest : Text} (h : Extent s rest) : NoBlank s := by
  intro u hu
  cases h with
  | nested hopen _ _ =>
    obtain rfl := Option.some.inj hu
    exact Splitter.not_isBlank_of_isOpening hopen
  | string hquote _ =>
    obtain rfl := Option.some.inj hu
    exact Splitter.not_isBlank_of_isQuote hquote
  | scalar hbreak =>
    obtain rfl := Option.some.inj hu
    exact Splitter.isBlank_of_isBreak hbreak

/-! ### Extents in longer texts -/

theorem Quoted.append {s rest : Text} (h : Quoted s rest) (more : Text) :
    Quoted (s ++ more) (rest ++ more) := by
  induction h with
  | close hu => exact .close hu
  | plain hquote hback _ ih => exact .plain hquote hback ih
  | escaped hback _ ih => exact .escaped hback ih

theorem Inside.append {s rest : Text} (h : Inside s rest) (more : Text) :
    Inside (s ++ more) (rest ++ more) := by
  induction h with
  | nil => exact .nil
  | plain hu _ ih => exact .plain hu ih
  | string hu hq _ ih => exact .string hu (hq.append more) ih
  | nested hu _ hv _ ih ih' => exact .nested hu ih hv ih'

/-- The extent of a value between brackets or quotation marks does not depend on what follows it. -/
theorem Extent.append {u : CodeUnit} {s rest : Text} (h : Extent (u :: s) rest)
    (hu : isBreak u = true) (more : Text) : Extent (u :: s ++ more) (rest ++ more) := by
  cases h with
  | nested hopen hin hv => exact .nested hopen (hin.append more) hv
  | string hquote hq => exact .string hquote (hq.append more)
  | scalar hbreak =>
    rw [hu] at hbreak
    cases hbreak

end LiveProgress.Json
