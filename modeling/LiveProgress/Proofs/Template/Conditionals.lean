import LiveProgress.Proofs.Template.Spelling

/-!
# Conditionals

The expansion of a template goes forward through the text and skips the branches that are not
taken. Skipping passes over the template of a program as if it were not there, so that a skip that
begins in a branch ends at the `%e` or the `%;` of that same conditional; what is run in between is
what the structured program runs.
-/

namespace LiveProgress.Template

variable {toElse : Bool} {depth : Nat}

/-! ### Skipping -/

/-- A character that neither begins an instruction nor, behind a percent sign, matters to
skipping. -/
structure IsInert (c : Char) : Prop where
  char : (CodeUnit.ofChar c).toChar = c
  inert : c ∉ ['%', '\'', '?', ';', 'e']

instance (c : Char) : Decidable (IsInert c) :=
  decidable_of_iff ((CodeUnit.ofChar c).toChar = c ∧ c ∉ ['%', '\'', '?', ';', 'e'])
    ⟨fun ⟨h, h'⟩ => ⟨h, h'⟩, fun ⟨h, h'⟩ => ⟨h, h'⟩⟩

theorem isInert_of_isNear {c : Char} (h : Number.IsNear c) : IsInert c := by
  refine ⟨h.toChar_ofChar, ?_⟩
  obtain ⟨hlow, hhigh⟩ := h
  intro hmem
  simp only [List.mem_cons, List.not_mem_nil, or_false] at hmem
  rcases hmem with rfl | rfl | rfl | rfl | rfl
  · exact absurd hlow (by decide)
  · exact absurd hlow (by decide)
  · exact absurd hhigh (by decide)
  · exact absurd hhigh (by decide)
  · exact absurd hhigh (by decide)

theorem isInert_of_isDigit {c : Char} (h : c.isDigit = true) : IsInert c :=
  isInert_of_isNear (Number.isNear_of_isDigit h)

theorem WrittenFormat.isInert_of_mem {w : WrittenFormat} {c : Char} (h : c ∈ w.spelling) :
    IsInert c := by
  simp only [spelling, List.mem_append, List.mem_singleton] at h
  rcases h with (((hcolon | hflag) | hwidth) | hprecision) | rfl
  · unfold colonSpelling at hcolon
    split at hcolon
    · rw [List.mem_singleton.mp hcolon]
      decide
    · exact absurd hcolon List.not_mem_nil
  · obtain ⟨f, _, rfl⟩ := List.mem_map.mp hflag
    cases f <;> decide
  · exact isInert_of_isDigit (w.isDigit_of_mem_widthSpelling hwidth)
  · unfold precisionSpelling at hprecision
    cases hn : w.precision with
    | none =>
      rw [hn] at hprecision
      exact absurd hprecision List.not_mem_nil
    | some n =>
      rw [hn] at hprecision
      rcases List.mem_cons.mp hprecision with rfl | hdigit
      · decide
      · exact isInert_of_isDigit (Number.Numeral.isDigit_of_mem hdigit)
  · cases w.conversion <;> decide

theorem skipBranch_cons {u : CodeUnit} (h : u.toChar ≠ '%') (rest : Text) :
    skipBranch toElse depth (u :: rest) = skipBranch toElse depth rest := by
  rw [skipBranch.eq_def]
  exact if_neg h

theorem skipBranch_map {s : List Char} (h : ∀ c ∈ s, IsInert c) (rest : Text) :
    skipBranch toElse depth (s.map CodeUnit.ofChar ++ rest) = skipBranch toElse depth rest := by
  induction s with
  | nil => rfl
  | cons c s ih =>
    have hpercent : (CodeUnit.ofChar c).toChar ≠ '%' := by
      have hc := h c List.mem_cons_self
      rw [hc.char]
      rintro rfl
      exact hc.inert List.mem_cons_self
    rw [List.map_cons, List.cons_append, skipBranch_cons hpercent]
    exact ih fun d hd => h d (List.mem_cons_of_mem _ hd)

/-- What a percent sign and the character behind it are to skipping. -/
theorem skipBranch_escape (c : Char) (rest : Text) :
    skipBranch toElse depth (Command.escape [c] ++ rest) =
      match (CodeUnit.ofChar c).toChar, depth with
      | '\'', _ => skipBranch toElse depth (rest.drop 2)
      | '?', _ => skipBranch toElse (depth + 1) rest
      | ';', 0 => rest
      | ';', k + 1 => skipBranch toElse k rest
      | 'e', 0 => if toElse then rest else skipBranch toElse 0 rest
      | _, _ => skipBranch toElse depth rest := by
  have hpercent : (CodeUnit.ofChar '%').toChar = '%' := by decide
  rw [skipBranch.eq_def]
  exact if_pos hpercent

theorem skipBranch_operator {c : Char} (h : IsInert c) (rest : Text) :
    skipBranch toElse depth (Command.escape [c] ++ rest) = skipBranch toElse depth rest := by
  have hinert := h.inert
  simp only [List.mem_cons, not_or] at hinert
  obtain ⟨_, hquote, hbegin, hfi, helse, _⟩ := hinert
  rw [skipBranch_escape, h.char]
  split
  · exact absurd rfl hquote
  · exact absurd rfl hbegin
  · exact absurd rfl hfi
  · exact absurd rfl hfi
  · exact absurd rfl helse
  · rfl

theorem skipBranch_inert {s : List Char} (hne : s ≠ []) (h : ∀ c ∈ s, IsInert c) (rest : Text) :
    skipBranch toElse depth (Command.escape s ++ rest) = skipBranch toElse depth rest := by
  obtain ⟨c, s, rfl⟩ := List.exists_cons_of_ne_nil hne
  have hsplit : Command.escape (c :: s) ++ rest =
      Command.escape [c] ++ (s.map CodeUnit.ofChar ++ rest) := rfl
  rw [hsplit, skipBranch_operator (h c List.mem_cons_self)]
  exact skipBranch_map (fun d hd => h d (List.mem_cons_of_mem _ hd)) rest

theorem skipBranch_begin (rest : Text) :
    skipBranch toElse depth (Command.escape ['?'] ++ rest) = skipBranch toElse (depth + 1) rest :=
  skipBranch_escape '?' rest

theorem skipBranch_fi (rest : Text) :
    skipBranch toElse 0 (Command.escape [';'] ++ rest) = rest :=
  skipBranch_escape ';' rest

theorem skipBranch_fi_nested (rest : Text) :
    skipBranch toElse (depth + 1) (Command.escape [';'] ++ rest) = skipBranch toElse depth rest :=
  skipBranch_escape ';' rest

theorem skipBranch_orElse (rest : Text) :
    skipBranch true 0 (Command.escape ['e'] ++ rest) = rest :=
  skipBranch_escape 'e' rest

/-- Nested in another conditional, or once a branch has been taken, the other branches do not
matter. -/
theorem skipBranch_orElse_passed (h : toElse = true → depth ≠ 0) (rest : Text) :
    skipBranch toElse depth (Command.escape ['e'] ++ rest) = skipBranch toElse depth rest := by
  rw [skipBranch_escape]
  cases depth with
  | zero =>
    cases toElse with
    | true => exact absurd rfl (h rfl)
    | false => rfl
  | succ depth => rfl

theorem toChar_variable_ne (name : Variable) : name.val.toChar ≠ '%' := by
  intro h
  have hletter := name.property
  rw [Instruction.isVariable, h] at hletter
  exact absurd hletter (by decide)

/-- Skipping passes over a command; what its units stand for does not matter. -/
theorem Command.skipBranch_spelling (c : Command) (rest : Text) :
    skipBranch toElse depth (c.spelling ++ rest) = skipBranch toElse depth rest := by
  cases c with
  | text u =>
    simp only [spelling]
    split
    case isTrue hpercent =>
      rw [skipBranch.eq_def]
      simp [hpercent]
    case isFalse hother => exact skipBranch_cons hother rest
  | parameter index =>
    have hinert : ∀ index : Fin 9, ∀ c ∈ ['p', Nat.digitChar (index.val + 1)], IsInert c := by
      decide
    exact skipBranch_inert (List.cons_ne_nil _ _) (hinert index) rest
  | integer sign n =>
    apply skipBranch_inert
    · simp
    · intro c hc
      simp only [List.cons_append, List.mem_cons, List.mem_append, List.not_mem_nil,
        or_false] at hc
      rcases hc with rfl | hinside | rfl
      · decide
      · exact isInert_of_isNear (Number.isNear_of_mem (List.mem_append.mpr hinside))
      · decide
  | code u => exact skipBranch_escape '\'' _
  | binary op =>
    have hinert : IsInert op.char := by
      cases op <;> decide
    exact skipBranch_operator hinert rest
  | not => exact skipBranch_operator (by decide) rest
  | complement => exact skipBranch_operator (by decide) rest
  | length => exact skipBranch_operator (by decide) rest
  | increment => exact skipBranch_operator (by decide) rest
  | writeUnit => exact skipBranch_operator (by decide) rest
  | store name =>
    calc skipBranch toElse depth (escape ['P'] ++ (name.val :: rest))
      _ = skipBranch toElse depth (name.val :: rest) := skipBranch_operator (by decide) _
      _ = skipBranch toElse depth rest := skipBranch_cons (toChar_variable_ne name) rest
  | load name =>
    calc skipBranch toElse depth (escape ['g'] ++ (name.val :: rest))
      _ = skipBranch toElse depth (name.val :: rest) := skipBranch_operator (by decide) _
      _ = skipBranch toElse depth rest := skipBranch_cons (toChar_variable_ne name) rest
  | write w =>
    have hne : w.spelling ≠ [] := List.append_ne_nil_of_right_ne_nil _ (List.cons_ne_nil _ _)
    exact skipBranch_inert hne (fun _ => WrittenFormat.isInert_of_mem) rest

theorem Branches.skipBranch_separator (b : Branches) (h : toElse = true → depth ≠ 0)
    (rest : Text) :
    skipBranch toElse depth (b.separator ++ rest) = skipBranch toElse depth rest := by
  cases b with
  | none => rfl
  | otherwise body => exact skipBranch_orElse_passed h rest
  | when condition body others => exact skipBranch_orElse_passed h rest

mutual

/-- Skipping passes over a program, whatever conditionals are nested in it. -/
theorem Program.skipBranch_template (p : Program) (toElse : Bool) (depth : Nat) (rest : Text) :
    skipBranch toElse depth (p.template ++ rest) = skipBranch toElse depth rest := by
  match p with
  | .done => rfl
  | .command c p =>
    rw [Program.template, List.append_assoc, c.skipBranch_spelling]
    exact p.skipBranch_template toElse depth rest
  | .choice branches p =>
    simp only [Program.template, List.append_assoc]
    -- Inside, the depth is positive, so that no `%e` and no `%;` of the branches ends the skip.
    rw [skipBranch_begin, branches.skipBranch_template (fun _ => Nat.succ_ne_zero depth),
      skipBranch_fi_nested]
    exact p.skipBranch_template toElse depth rest

/-- It passes over branches, unless it looks for one of them. -/
theorem Branches.skipBranch_template (b : Branches) {toElse : Bool} {depth : Nat}
    (h : toElse = true → depth ≠ 0) (rest : Text) :
    skipBranch toElse depth (b.template ++ rest) = skipBranch toElse depth rest := by
  match b with
  | .none => rfl
  | .otherwise body => exact body.skipBranch_template toElse depth rest
  | .when condition body others =>
    simp only [Branches.template, List.append_assoc]
    rw [condition.skipBranch_template, skipBranch_operator (by decide), body.skipBranch_template,
      others.skipBranch_separator h]
    exact others.skipBranch_template h rest

end

/-! ### Running -/

variable {m : Machine} {s rest : Text} {i : Instruction}

theorem run_nil (m : Machine) : run m [] = .ok m.output.reverse := by
  rw [run]
  rfl

theorem run_of_read (h : Instruction.ofUnits? s = some (i, rest)) :
    run m s = (m.step i).bind fun next => run next (continuation m i rest) := by
  rw [run]
  split
  · rename_i hnone
    rw [h] at hnone
    cases hnone
  · rename_i j tail hsome
    rw [h] at hsome
    obtain ⟨rfl, rfl⟩ := Prod.mk.inj (Option.some.inj hsome)
    rfl

theorem run_of_unread (h : Instruction.ofUnits? s = none) (hne : s ≠ []) :
    run m s = .error .unknown := by
  rw [run]
  split
  · rw [List.isEmpty_eq_false_iff.mpr hne]
    rfl
  · rename_i hsome
    rw [h] at hsome
    cases hsome

theorem Command.continuation_of_instruction? {c : Command} (h : c.instruction? = some i) :
    continuation m i rest = rest := by
  cases c with
  | integer sign n =>
    simp only [instruction?, Option.ite_none_right_eq_some] at h
    rw [← Option.some.inj h.2]
    rfl
  | _ =>
    rw [← Option.some.inj h]
    rfl

theorem Command.spelling_ne_nil (c : Command) : c.spelling ≠ [] := by
  cases c with
  | text u =>
    simp only [spelling]
    split
    · exact List.cons_ne_nil _ _
    · exact List.cons_ne_nil _ _
  | _ => exact List.cons_ne_nil _ _

/-- Running a command takes one step, unless it cannot be read. -/
theorem Command.run_spelling (c : Command) (m : Machine) (rest : Text) :
    Template.run m (c.spelling ++ rest) =
      match c.instruction? with
      | none => .error .unknown
      | some i => (m.step i).bind fun m => Template.run m rest := by
  have hread := c.ofUnits?_spelling rest
  cases hi : c.instruction? with
  | none =>
    rw [hi] at hread
    exact run_of_unread hread (List.append_ne_nil_of_left_ne_nil c.spelling_ne_nil rest)
  | some i =>
    rw [hi] at hread
    rw [run_of_read hread, continuation_of_instruction? hi]

/-- The marks of a conditional do nothing but skip. -/
theorem run_mark {c : Char} (hc : Instruction.IsPlain c)
    (h : Instruction.plain? (CodeUnit.ofChar c) = some i) (m : Machine) (rest : Text) :
    run m (Command.escape [c] ++ rest) =
      (m.step i).bind fun next => run next (continuation m i rest) := by
  apply run_of_read
  rw [Instruction.ofUnits?_plain rest hc, h, Option.map_some]

theorem run_begin (m : Machine) (rest : Text) :
    run m (Command.escape ['?'] ++ rest) = run m rest :=
  run_mark (c := '?') (by decide) rfl m rest

theorem run_fi (m : Machine) (rest : Text) : run m (Command.escape [';'] ++ rest) = run m rest :=
  run_mark (c := ';') (by decide) rfl m rest

theorem run_ifTrue (m : Machine) (rest : Text) :
    run m (Command.escape ['t'] ++ rest) =
      run m.pop.2 (if m.pop.1.beq 0 then skipBranch true 0 rest else rest) :=
  run_mark (c := 't') (by decide) rfl m rest

theorem run_orElse (m : Machine) (rest : Text) :
    run m (Command.escape ['e'] ++ rest) = run m (skipBranch false 0 rest) :=
  run_mark (c := 'e') (by decide) rfl m rest

namespace Branches

variable (b : Branches)

/-- After a branch that was taken, the others are skipped. -/
theorem run_separator (m : Machine) (rest : Text) :
    Template.run m (b.separator ++ (b.template ++ (Command.escape [';'] ++ rest))) =
      Template.run m rest := by
  have hothers : skipBranch false 0 (b.template ++ (Command.escape [';'] ++ rest)) = rest := by
    rw [b.skipBranch_template fun h => absurd h Bool.false_ne_true, skipBranch_fi]
  cases b with
  | none => exact run_fi m rest
  | otherwise body => exact (run_orElse m _).trans (congrArg (Template.run m) hothers)
  | when condition body others => exact (run_orElse m _).trans (congrArg (Template.run m) hothers)

/-- A branch that is not taken is skipped up to the others, or to the end if there are none. -/
theorem run_skipBranch (body : Program) (m : Machine) (rest : Text) :
    Template.run m (skipBranch true 0
        (body.template ++ (b.separator ++ (b.template ++ (Command.escape [';'] ++ rest))))) =
      Template.run m (b.template ++ (Command.escape [';'] ++ rest)) := by
  rw [body.skipBranch_template]
  cases b with
  | none =>
    have hend : skipBranch true 0 (Command.escape [';'] ++ rest) = rest := skipBranch_fi rest
    exact (congrArg (Template.run m) hend).trans (run_fi m rest).symm
  | otherwise body => exact congrArg (Template.run m) (skipBranch_orElse _)
  | when condition body others => exact congrArg (Template.run m) (skipBranch_orElse _)

end Branches

mutual

/-- Expanding the template of a program runs the program, and goes on behind it. -/
theorem Program.run_template (p : Program) (m : Machine) (rest : Text) :
    Template.run m (p.template ++ rest) = (p.run m).bind fun m => Template.run m rest := by
  match p with
  | .done => rfl
  | .command c p =>
    rw [Program.template, List.append_assoc, c.run_spelling, Program.run]
    cases c.instruction? with
    | none => rfl
    | some i =>
      cases hstep : m.step i with
      | error fault => simp only [hstep, Except.bind]
      | ok m' =>
        simp only [hstep, Except.bind]
        exact p.run_template m' rest
  | .choice branches p =>
    simp only [Program.template, List.append_assoc]
    rw [run_begin, branches.run_template, Program.run]
    cases branches.run m with
    | error fault => rfl
    | ok m' => exact p.run_template m' rest

theorem Branches.run_template (b : Branches) (m : Machine) (rest : Text) :
    Template.run m (b.template ++ (Command.escape [';'] ++ rest)) =
      (b.run m).bind fun m => Template.run m rest := by
  match b with
  | .none => exact run_fi m rest
  | .otherwise body =>
    rw [Branches.template, body.run_template, Branches.run]
    simp only [run_fi]
  | .when condition body others =>
    simp only [Branches.template, List.append_assoc]
    rw [condition.run_template, Branches.run]
    cases condition.run m with
    | error fault => rfl
    | ok m' =>
      simp only [Except.bind, run_ifTrue]
      split
      case isTrue =>
        rw [others.run_skipBranch body]
        exact others.run_template m'.pop.2 rest
      case isFalse =>
        rw [body.run_template]
        simp only [others.run_separator]
        rfl

end

/-- With nothing behind it, what the program has written at its end is the expansion. -/
theorem Program.run_whole_template (p : Program) (m : Machine) :
    Template.run m p.template = (p.run m).map fun m => m.output.reverse := by
  have hrun := p.run_template m []
  rw [List.append_nil] at hrun
  rw [hrun]
  cases p.run m with
  | error fault => rfl
  | ok m' => exact run_nil m'

/-! ### Unknown instructions -/

/-- No instruction finds another one unknown. -/
theorem Machine.step_ne_unknown (m : Machine) (i : Instruction) :
    m.step i ≠ .error .unknown := by
  have hwrite (m : Machine) (s : Text) : m.write s ≠ .error .unknown := by
    unfold write
    split
    · nofun
    · nofun
  cases i with
  | literal u => exact hwrite m [u]
  | writeUnit => exact hwrite _ _
  | write format =>
    simp only [step]
    split
    · nofun
    · exact hwrite _ _
  | increment =>
    simp only [step]
    split
    · nofun
    · nofun
  | _ => nofun

theorem bind_ne_unknown {α β : Type} {x : Except Fault α} {f : α → Except Fault β}
    (hx : x ≠ .error .unknown) (hf : ∀ a, f a ≠ .error .unknown) :
    x.bind f ≠ .error .unknown := by
  cases x with
  | error fault => exact fun h => hx (congrArg Except.error (Except.error.inj h))
  | ok a => exact hf a

theorem Command.isSome_instruction? {c : Command}
    (h : ∀ z ∈ c.integer?, (Number.ofInt z).isFinite = true) : c.instruction?.isSome = true := by
  cases c with
  | integer sign n =>
    have hfinite := h _ rfl
    simp only [instruction?, hfinite, if_true]
    rfl
  | _ => rfl

mutual

/-- A program all of whose integers are finite as numbers comes to nothing unknown. -/
theorem Program.run_ne_unknown (p : Program)
    (h : ∀ z ∈ p.integers, (Number.ofInt z).isFinite = true) (m : Machine) :
    p.run m ≠ .error .unknown := by
  match p with
  | .done => nofun
  | .command c p =>
    rw [Program.integers] at h
    have hc : c.instruction?.isSome = true := by
      apply Command.isSome_instruction?
      intro z hz
      exact h z (List.mem_append_left _ (Option.mem_toList.mpr hz))
    obtain ⟨i, hi⟩ := Option.isSome_iff_exists.mp hc
    rw [Program.run, hi]
    exact bind_ne_unknown (m.step_ne_unknown i)
      (p.run_ne_unknown fun z hz => h z (List.mem_append_right _ hz))
  | .choice branches p =>
    rw [Program.integers] at h
    rw [Program.run]
    exact bind_ne_unknown
      (branches.run_ne_unknown (fun z hz => h z (List.mem_append_left _ hz)) m)
      (p.run_ne_unknown fun z hz => h z (List.mem_append_right _ hz))

theorem Branches.run_ne_unknown (b : Branches)
    (h : ∀ z ∈ b.integers, (Number.ofInt z).isFinite = true) (m : Machine) :
    b.run m ≠ .error .unknown := by
  match b with
  | .none => nofun
  | .otherwise body => exact body.run_ne_unknown h m
  | .when condition body others =>
    simp only [Branches.integers, List.mem_append, or_imp, forall_and] at h
    obtain ⟨⟨hcondition, hbody⟩, hothers⟩ := h
    rw [Branches.run]
    refine bind_ne_unknown (condition.run_ne_unknown hcondition m) fun m' => ?_
    dsimp only
    split
    case isTrue => exact others.run_ne_unknown hothers m'.pop.2
    case isFalse => exact body.run_ne_unknown hbody m'.pop.2

end

/-! ### Expansion -/

/-- The flat scan of a template expands it to what the structured program writes. Unless it comes
to an integer beyond the greatest number, the program writes a text, if only that is not too long
for one. -/
theorem expand_template (p : Program) (parameters : List Number) :
    expand p.template parameters = p.output parameters ∧
      ((∀ z ∈ p.integers, (Number.ofInt z).isFinite = true) →
        (∃ text, p.output parameters = .ok text) ∨ p.output parameters = .error .tooLong) := by
  constructor
  · exact p.run_whole_template (.start parameters)
  · intro h
    have hknown := p.run_ne_unknown h (.start parameters)
    unfold Program.output
    cases hrun : p.run (.start parameters) with
    | ok m => exact .inl ⟨_, rfl⟩
    | error fault =>
      cases fault with
      | unknown => exact absurd hrun hknown
      | tooLong => exact .inr rfl

/-- A parameter is compared with an integer, and the branch for the greater one is taken. -/
theorem expand_comparison :
    let letter (c : Char) := Program.command (.text (CodeUnit.ofChar c)) .done
    let isPositive := Program.command (.parameter 0)
      (.command (.integer .none { value := 0 }) (.command (.binary .greater) .done))
    let p := Program.choice (.when isPositive (letter '+') (.otherwise (letter '-'))) .done
    p.template = Text.ofString "%?%p1%{0}%>%t+%e-%;" ∧
      (∀ z ∈ p.integers, (Number.ofInt z).isFinite = true) ∧
      ((∃ text, p.output [1] = .ok text) ∨ p.output [1] = .error .tooLong) ∧
      expand p.template [1] = .ok (Text.ofString "+") := by
  intro letter isPositive p
  have hfinite : ∀ z ∈ p.integers, (Number.ofInt z).isFinite = true := by decide +kernel
  have houtput : p.output [1] = .ok (Text.ofString "+") := by decide +kernel
  obtain ⟨hexpand, hwrites⟩ := expand_template p [1]
  exact ⟨by decide, hfinite, hwrites hfinite, hexpand.trans houtput⟩

/-- An integer of more than 1024 bits cannot be pushed. -/
theorem instruction?_of_log2 (sign : Number.Sign) {n : Number.Numeral}
    (h : 1024 ≤ n.value.log2) : (Command.integer sign n).instruction? = none := by
  rw [← sign.natAbs_apply n.value] at h
  simp only [Command.instruction?, Number.isFinite_ofInt_of_log2 h]
  rfl

/-- A one with four hundred zeros is such an integer: a program that does nothing but push it has
no expansion, not even an empty one. -/
theorem overlong_integer_has_no_expansion :
    let p := Program.command (.integer .none { value := 10 ^ 400 }) .done
    p.template = Command.escape ('{' :: '1' :: List.replicate 400 '0' ++ ['}']) ∧
      ∀ text, expand p.template [] ≠ .ok text := by
  intro p
  have hdigits : Nat.toDigits 10 (10 ^ 400) = '1' :: List.replicate 400 '0' := by
    rw [← Nat.one_mul (10 ^ 400), Number.toDigits_mul_pow Nat.one_ne_zero]
    rfl
  have hlog : 3 * 400 ≤ (10 ^ 400).log2 := by
    apply Number.le_log2_of_length_toDigits (by decide)
    rw [hdigits, List.length_cons, List.length_replicate]
    exact Nat.lt_succ_self 400
  constructor
  · simp only [p, Program.template, Command.spelling, Number.Numeral.digits, hdigits,
      Number.Sign.spelling, List.replicate_zero, List.nil_append, List.append_nil]
    rfl
  · intro text
    have hnone := instruction?_of_log2 .none (n := { value := 10 ^ 400 })
      (Nat.le_trans (by decide) hlog)
    rw [expand, p.run_whole_template]
    simp only [p, Program.run, hnone]
    intro hok
    cases hok

end LiveProgress.Template
