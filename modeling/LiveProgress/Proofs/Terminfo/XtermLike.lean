import LiveProgress.Proofs.Number.Fixed
import LiveProgress.Proofs.Number.Length
import LiveProgress.Proofs.Template.Conditionals
import LiveProgress.Proofs.Text.Units
import LiveProgress.Terminfo.XtermLike

/-!
# Templates of terminals like xterm

Markers are taken out where they stand, so nothing of those behind a template is left. What is
left of the four templates expands to the plain sequences: those that clear hold no instruction,
and those that move the cursor write the number they are given. Neither is too long for a text.
-/

namespace LiveProgress

namespace Template

/-! ### Padding -/

namespace Marker

variable (m : Marker)

theorem isDelay_of_mem_delay : ∀ u ∈ m.delay.map CodeUnit.ofChar, isDelay u = true := by
  intro u hu
  obtain ⟨c, hc, rfl⟩ := List.mem_map.mp hu
  rcases m.delay_chars c hc with hdigit | rfl
  · rw [isDelay, (Number.isNear_of_isDigit hdigit).toChar_ofChar, hdigit]
    rfl
  · decide

theorem isDelayFlag_of_mem_flags : ∀ u ∈ m.flags.map CodeUnit.ofChar,
    isDelayFlag u = true ∧ isDelay u = false := by
  intro u hu
  obtain ⟨c, hc, rfl⟩ := List.mem_map.mp hu
  rcases m.flag_chars c hc with rfl | rfl
  · decide
  · decide

theorem isDelay_of_head_flags (rest : Text) :
    ∀ u ∈ (m.flags.map CodeUnit.ofChar ++ (CodeUnit.ofChar '>' :: rest)).head?,
      isDelay u = false := by
  have hflags := m.isDelayFlag_of_mem_flags
  cases hmap : m.flags.map CodeUnit.ofChar with
  | nil =>
    intro u hu
    obtain rfl := Option.some.inj hu
    decide
  | cons v flags =>
    intro u hu
    obtain rfl := Option.some.inj hu
    exact (hflags v (by simp [hmap])).2

/-- A marker is read whatever stands behind it. -/
theorem afterMarker?_spelling (rest : Text) : afterMarker? (m.spelling ++ rest) = some rest := by
  have hspelling : m.spelling ++ rest = CodeUnit.ofChar '$' :: CodeUnit.ofChar '<' ::
      (m.delay.map CodeUnit.ofChar ++
        (m.flags.map CodeUnit.ofChar ++ (CodeUnit.ofChar '>' :: rest))) := by
    simp [spelling]
  have hdelay := Text.dropWhile_append_of_head m.isDelay_of_mem_delay (m.isDelay_of_head_flags rest)
  have hend : ∀ u ∈ (CodeUnit.ofChar '>' :: rest).head?, isDelayFlag u = false := by
    intro u hu
    obtain rfl := Option.some.inj hu
    decide
  have hflags := Text.takeWhile_append_of_head
    (fun u hu => (m.isDelayFlag_of_mem_flags u hu).1) hend
  have hcount : (m.flags.map CodeUnit.ofChar).length = m.flags.length := List.length_map _
  have hdrop : (m.flags.map CodeUnit.ofChar ++ (CodeUnit.ofChar '>' :: rest)).drop
      (m.flags.map CodeUnit.ofChar).length = CodeUnit.ofChar '>' :: rest := List.drop_left
  have hdelay_pos : 0 < m.delay.length := List.length_pos_iff.mpr m.delay_ne_nil
  rw [hspelling]
  simp only [afterMarker?, hdelay, hflags, hdrop]
  refine if_pos ⟨by decide, by decide, by decide, ?_, ?_⟩
  · simp only [List.length_append, List.length_map, List.length_cons]
    omega
  · rw [hcount]
    exact m.flags_le

end Marker

theorem stripPadding_nil : stripPadding [] = [] := by
  rw [stripPadding]
  rfl

theorem stripPadding_marker (m : Marker) (rest : Text) :
    stripPadding (m.spelling ++ rest) = stripPadding rest := by
  have hread := m.afterMarker?_spelling rest
  rw [stripPadding]
  split
  · next after hafter =>
    exact congrArg stripPadding (Option.some.inj (hafter.symm.trans hread))
  · next hnone =>
    rw [hread] at hnone
    cases hnone

theorem stripPadding_cons {u : CodeUnit} (h : u.toChar ≠ '$') (rest : Text) :
    stripPadding (u :: rest) = u :: stripPadding rest := by
  have hread : afterMarker? (u :: rest) = none := by
    unfold afterMarker?
    split
    · next dollar less tail heq =>
      obtain ⟨rfl, rfl⟩ := List.cons.inj heq
      dsimp only
      split
      · exact if_neg fun hmarker => h hmarker.1
      · rfl
    · rfl
  rw [stripPadding]
  split
  · next after hafter =>
    rw [hread] at hafter
    cases hafter
  · rfl

/-- Behind a template without dollar signs nothing of the markers is left. -/
theorem stripPadding_markers {template : Text} (h : ∀ u ∈ template, u.toChar ≠ '$')
    (markers : List Marker) :
    stripPadding (template ++ markers.flatMap Marker.spelling) = template := by
  induction template with
  | nil =>
    induction markers with
    | nil => exact stripPadding_nil
    | cons m markers ih =>
      rw [List.nil_append] at ih ⊢
      rw [List.flatMap_cons, stripPadding_marker, ih]
  | cons u template ih =>
    have hrest := ih fun v hv => h v (List.mem_cons_of_mem _ hv)
    rw [List.cons_append, stripPadding_cons (h u List.mem_cons_self), hrest]

/-! ### Expansion -/

theorem Machine.write_of_le {m : Machine} {s : Text}
    (h : m.output.length + s.length ≤ Text.maxLength) :
    m.write s = .ok { m with output := s.reverse ++ m.output } :=
  if_neg (Nat.not_lt.mpr h)

/-- Units that are no percent signs stand for themselves. -/
theorem run_literal {s : Text} (h : ∀ u ∈ s, u.toChar ≠ '%') (m : Machine)
    (hfit : m.output.length + s.length ≤ Text.maxLength) :
    run m s = .ok (m.output.reverse ++ s) := by
  induction s generalizing m with
  | nil => rw [run_nil, List.append_nil]
  | cons u s ih =>
    have hread : Instruction.ofUnits? (u :: s) = some (.literal u, s) :=
      if_neg (h u List.mem_cons_self)
    rw [List.length_cons] at hfit
    have hwrite : m.step (.literal u) = .ok { m with output := [u].reverse ++ m.output } :=
      Machine.write_of_le (by rw [List.length_singleton]; omega)
    have hlength : ([u].reverse ++ m.output).length = 1 + m.output.length := List.length_append
    have hrest := ih (fun v hv => h v (List.mem_cons_of_mem _ hv))
      { m with output := [u].reverse ++ m.output } (by rw [hlength]; omega)
    rw [run_of_read hread, hwrite]
    simpa [continuation, Except.bind] using hrest

theorem expand_literal {s : Text} (h : ∀ u ∈ s, u.toChar ≠ '%')
    (hfit : s.length ≤ Text.maxLength) (parameters : List Number) :
    expand s parameters = .ok s :=
  run_literal h (.start parameters) (by simpa [Machine.start] using hfit)

/-- The program of a cursor movement: the first parameter in decimal between two texts. -/
def movement (last : Char) : Program :=
  .command (.text (CodeUnit.ofChar '\x1b')) <| .command (.text (CodeUnit.ofChar '[')) <|
    .command (.parameter 0) <|
    .command (.write { conversion := .decimal, readable := .inr (by decide) }) <|
    .command (.text (CodeUnit.ofChar last)) .done

/-- In decimal a natural number is written as it is. -/
theorem text_decimal (n : Nat) :
    Format.text ⟨[], 0, none, .decimal⟩ (some (.ofNat n)) = some (Number.ofNat n).text := by
  have hpad (fill : Char) (s : String) : Text.padLeft? 0 fill s = some s := by
    simp [Text.padLeft?, Text.padLeft]
  have hshort : ¬ Text.maxLength < Text.width "".toList + Text.width (Number.ofNat n).text.toList := by
    have hwidth := (Number.ofNat n).width_text_le
    have hempty : Text.width "".toList = 0 := rfl
    rw [hempty, Text.maxLength]
    omega
  have hbody : Format.body ⟨[], 0, none, .decimal⟩ (.ofNat n) = some (Number.ofNat n).text := by
    simp only [Format.body, Number.trunc_ofNat, Number.abs_ofNat, Number.not_ofNat_neg, if_false,
      Option.getD_none, hpad, List.not_mem_nil, Option.bind_some, Text.append?, if_neg hshort,
      String.empty_append]
  rw [Format.text, Option.getD_some, hbody]
  · simp only [Option.bind_some, Format.fill, List.not_mem_nil, if_false, false_and, hpad]
  · nofun

theorem Program.run_of_step {c : Command} {i : Instruction} {m next : Machine}
    (hc : c.instruction? = some i) (h : m.step i = .ok next) (rest : Program) :
    (Program.command c rest).run m = rest.run next := by
  simp only [Program.run, hc, h, Except.bind]

/-- The number that is given is written. -/
theorem run_movement (last : Char) {n : Nat} {m : Machine}
    (hgiven : m.parameters.getD 0 0 = .ofNat n) (hempty : m.output = []) :
    (movement last).run m = .ok { m with
      output := CodeUnit.ofChar last :: ((Text.ofString (Number.ofNat n).text).reverse ++
        [CodeUnit.ofChar '[', CodeUnit.ofChar '\x1b']) } := by
  have hlength : (Text.ofString (Number.ofNat n).text).length ≤ 2000 := by
    rw [Text.ofString, Text.length_units]
    exact (Number.ofNat n).width_text_le
  have hunit (output : Text) (hfit : output.length ≤ 2002) (u : CodeUnit) :
      ({ m with output } : Machine).step (.literal u) = .ok { m with output := u :: output } :=
    Machine.write_of_le (Nat.le_trans (Nat.succ_le_succ hfit) (by decide))
  have hpush (output : Text) : ({ m with output } : Machine).step (.parameter 0) =
      .ok (({ m with output } : Machine).push (.ofNat n)) := by
    rw [← hgiven]
    rfl
  have hnumber (output : Text) (hfit : output.length = 2) :
      (({ m with output } : Machine).push (.ofNat n)).step (.write ⟨[], 0, none, .decimal⟩) =
        .ok { m with output := (Text.ofString (Number.ofNat n).text).reverse ++ output } := by
    have hshort : output.length + (Text.ofString (Number.ofNat n).text).length ≤ Text.maxLength := by
      rw [Text.maxLength]
      omega
    simp only [Machine.step, Machine.push, List.head?_cons, text_decimal]
    exact Machine.write_of_le hshort
  have hwritten : ((Text.ofString (Number.ofNat n).text).reverse ++
      [CodeUnit.ofChar '[', CodeUnit.ofChar '\x1b']).length ≤ 2002 := by
    rw [List.length_append, List.length_reverse, List.length_cons, List.length_singleton]
    omega
  have hstart : m = { m with output := [] } := by rw [← hempty]
  rw [hstart, movement, Program.run_of_step rfl (hunit [] (by decide) _),
    Program.run_of_step rfl (hunit [_] (by decide) _),
    Program.run_of_step rfl (hpush _), Program.run_of_step rfl (hnumber _ rfl),
    Program.run_of_step rfl (hunit _ hwritten _), Program.run]

theorem expand_movement (last : Char) (n : Nat) :
    expand (movement last).template [.ofNat n] =
      .ok (Text.ofString ("\x1b[" ++ (Number.ofNat n).text) ++ [CodeUnit.ofChar last]) := by
  have hopening : Text.ofString "\x1b[" = [CodeUnit.ofChar '\x1b', CodeUnit.ofChar '['] := by decide
  rw [expand, Program.run_whole_template, run_movement last rfl rfl, Text.ofString_append, hopening]
  simp [Except.map]

end Template

/-! ### Capabilities -/

namespace CapabilitySet

open Terminfo

variable {e : Entry} {name template : String} {index : Nat}

theorem toChar_ne_of_not_mem {c : Char} {s : Text} (h : c ∉ s.map CodeUnit.toChar) :
    ∀ u ∈ s, u.toChar ≠ c :=
  fun u hu hc => h (List.mem_map.mpr ⟨u, hu, hc⟩)

/-- What an entry answers is the expansion of the template in front of the markers. -/
theorem lookup_ofEntry (hindex : indexOf? name = some index) (h : e.HasTemplate index template)
    (hdollar : '$' ∉ (Text.ofString template).map CodeUnit.toChar) (parameters : List Number) :
    (ofEntry e).lookup name parameters =
      ofExpansion (Template.expand (Text.ofString template) parameters) := by
  obtain ⟨markers, hstring⟩ := h
  have hstrip := Template.stripPadding_markers (toChar_ne_of_not_mem hdollar) markers
  simp only [ofEntry, template?, hindex, hstring, Option.bind_some, Option.join_some, hstrip]

theorem lookup_literal (hindex : indexOf? name = some index) (h : e.HasTemplate index template)
    (hdollar : '$' ∉ (Text.ofString template).map CodeUnit.toChar)
    (hpercent : '%' ∉ (Text.ofString template).map CodeUnit.toChar)
    (hfit : (Text.ofString template).length ≤ Text.maxLength) (parameters : List Number) :
    (ofEntry e).lookup name parameters = .ok (some template) := by
  rw [lookup_ofEntry hindex h hdollar,
    Template.expand_literal (toChar_ne_of_not_mem hpercent) hfit, ofExpansion,
    Text.string_ofString]

theorem lookup_movement {last : Char} (hindex : indexOf? name = some index)
    (h : e.HasTemplate index template)
    (hdollar : '$' ∉ (Text.ofString template).map CodeUnit.toChar)
    (hprogram : Text.ofString template = (Template.movement last).template)
    (hlast : Text.ofString (String.singleton last) = [CodeUnit.ofChar last]) (n : Nat) :
    (ofEntry e).lookup name [.ofNat n] =
      .ok (some ("\x1b[" ++ (Number.ofNat n).text ++ String.singleton last)) := by
  rw [lookup_ofEntry hindex h hdollar, hprogram, Template.expand_movement, ← hlast,
    ← Text.ofString_append, ofExpansion, Text.string_ofString]

variable (h : e.IsXtermLike)
include h

theorem clearLine_ofEntry : (ofEntry e).clearLine = plain.clearLine := by
  have hel1 : (ofEntry e).lookup "el1" [] = .ok (some _) :=
    lookup_literal rfl h.el1 (by decide) (by decide) (by decide) []
  have hel : (ofEntry e).lookup "el" [] = .ok (some _) :=
    lookup_literal rfl h.el (by decide) (by decide) (by decide) []
  rw [clearLine, write, write, hel1, hel]
  rfl

theorem cursorUp_ofEntry (n : Nat) :
    (ofEntry e).cursorUp (.ofRows n) = plain.cursorUp (.ofRows n) := by
  have hcuu : (ofEntry e).lookup "cuu" [.ofNat n] = .ok (some (_ ++ String.singleton 'A')) :=
    lookup_movement rfl h.cuu (by decide) (by decide) (by decide) n
  rw [cursorUp, write, LineCount.ofRows, hcuu]
  rfl

theorem cursorDown_ofEntry (n : Nat) :
    (ofEntry e).cursorDown (.ofRows n) = plain.cursorDown (.ofRows n) := by
  have hcud : (ofEntry e).lookup "cud" [.ofNat n] = .ok (some (_ ++ String.singleton 'B')) :=
    lookup_movement rfl h.cud (by decide) (by decide) (by decide) n
  rw [cursorDown, write, LineCount.ofRows, hcud]
  rfl

end CapabilitySet
end LiveProgress
