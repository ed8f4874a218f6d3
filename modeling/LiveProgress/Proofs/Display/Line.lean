import LiveProgress.Display.Compacted
import LiveProgress.Proofs.Terminal.Printable
import LiveProgress.Proofs.Terminal.Screen

/-!
# The lines of legible messages

What a legible message writes on a terminal is a printable line and the line end, or else
text to be shown as it is, in which line ends are the only control characters.
-/

namespace LiveProgress
namespace Message

theorem eq_some_of_nonEmpty {field : Option Text} {t : Text} (h : nonEmpty field = some t) :
    field = some t := by
  obtain ⟨h, _⟩ := Option.filter_eq_some_iff.mp h
  exact h

variable {m : Message}

/-! ### Parts of a line -/

theorem IsLegible.of_field (h : m.IsLegible) {field : Option Text}
    (hfield : field ∈ [m.id, m.origin, m.status, m.progress, m.progressDetail.bind (·.units)])
    {t : Text} (ht : field = some t) : IsPrintable t.string := by
  refine h.isPrintable t ?_
  exact List.mem_filterMap.mpr ⟨field, hfield, ht⟩

theorem IsLegible.getD_field (h : m.IsLegible) {field : Option Text}
    (hfield : field ∈ [m.id, m.origin, m.status, m.progress, m.progressDetail.bind (·.units)]) :
    IsPrintable (field.getD []).string := by
  cases hf : field with
  | none => exact isPrintable_empty
  | some t => exact h.of_field hfield hf

theorem IsLegible.heading (h : m.IsLegible) : ∀ text ∈ m.heading, IsPrintable text := by
  intro text ht
  simp only [Message.heading, List.mem_append, Option.mem_toList, Option.map_eq_some_iff] at ht
  rcases ht with (⟨nanos, _, rfl⟩ | ⟨t, ht, rfl⟩) | ⟨t, ht, rfl⟩
  · exact isPrintable_append (isPrintable_timestamp nanos) (by decide)
  · exact isPrintable_append (h.of_field (by simp) (eq_some_of_nonEmpty ht)) (by decide)
  · refine isPrintable_append (isPrintable_append (by decide) ?_) (by decide)
    exact h.of_field (by simp) (eq_some_of_nonEmpty ht)

theorem IsLegible.fragment (h : m.IsLegible) (v : Viewport) {p : Progress}
    (hp : m.progressDetail = some p) : IsPrintable (p.fragment v) := by
  refine p.isPrintable_fragment v ?_
  have hunits : IsPrintable ((m.progressDetail.bind (·.units)).getD []).string :=
    h.getD_field (by simp)
  rw [hp] at hunits
  exact hunits

/-- Text to be shown as it is. -/
theorem content_stream (hp : m.hasProgress = false) {t : Text} (ht : nonEmpty m.stream = some t)
    (v : Viewport) (lineEnd : String) : m.content true v lineEnd = t.string := by
  simp only [hasProgress, Bool.or_eq_false_iff, Option.isSome_eq_false_iff,
    Option.isNone_iff_eq_none] at hp
  simp only [content, hp.1, hp.2, ht, Option.filter_none]

/-- Any other line ends as it is told to. -/
theorem IsLegible.content (h : m.IsLegible)
    (hs : m.hasProgress = true ∨ nonEmpty m.stream = none) (v : Viewport) :
    ∃ line, IsPrintable line ∧ ∀ lineEnd, m.content true v lineEnd = line ++ lineEnd := by
  have hstatus : IsPrintable (m.status.getD []).string := h.getD_field (by simp)
  have hspace : IsPrintable ((m.status.getD []).string ++ " ") :=
    isPrintable_append hstatus (by decide)
  cases hp : m.progressDetail with
  | some p =>
    refine ⟨_, isPrintable_append hspace (h.fragment v hp), ?_⟩
    intro lineEnd
    simp only [Message.content, hp]
    rfl
  | none =>
    cases hq : nonEmpty m.progress with
    | some t =>
      refine ⟨_, isPrintable_append hspace (h.of_field (by simp) (eq_some_of_nonEmpty hq)),
        fun lineEnd => ?_⟩
      simp [Message.content, hp, hq]
    | none =>
      have hs : nonEmpty m.stream = none := by simpa [hasProgress, hp, hq] using hs
      refine ⟨_, hstatus, ?_⟩
      intro lineEnd
      simp [Message.content, hp, hq, hs]

/-! ### All that is shown -/

theorem shownField_eq (before : String) (field : Option Text) (after : String) :
    shownField before field after =
      ((nonEmpty field).map fun t => before ++ t.string ++ after).toList.flatMap String.toList := by
  cases field with
  | none => rfl
  | some t =>
    cases t with
    | nil => rfl
    | cons u t =>
      have hfield : nonEmpty (some (u :: t)) = some (u :: t) := rfl
      simp [shownField, hfield, Text.string]

theorem shownTime_eq (m : Message) :
    m.shownTime =
      ((m.epochNanos?).map fun t => timestampText t ++ " ").toList.flatMap String.toList := by
  have hgiven (t : Option Number) :
      t.filter (· != 0) = if t.getD 0 ≠ 0 then some (t.getD 0) else none := by
    cases t with
    | none => exact (if_neg fun hne => hne rfl).symm
    | some x => simp [Option.filter, bne_iff_ne]
  unfold shownTime epochNanos?
  simp only [hgiven]
  split
  · simp
  · split
    · simp
    · simp

theorem shownContent_eq (m : Message) (v : Viewport) (lineEnd : String) :
    m.shownContent v lineEnd = (m.content true v lineEnd).toList := by
  have hempty {t : Option Text} : nonEmpty t = none ↔ t.getD [] = [] := by
    cases t with
    | none => simp [nonEmpty]
    | some t => simp [nonEmpty]
  unfold shownContent content
  cases hp : m.progressDetail with
  | some p =>
    have hterminal : (some p).filter (fun _ => true) = some p := rfl
    simp [hterminal, Text.string]
  | none =>
    cases hq : nonEmpty m.progress with
    | some t =>
      have hne : m.progress.getD [] ≠ [] := mt hempty.mpr (by simp [hq])
      simp [hne, shownField_eq, hq, Text.string]
    | none =>
      cases hs : nonEmpty m.stream with
      | some t =>
        have hne : m.stream.getD [] ≠ [] := mt hempty.mpr (by simp [hs])
        simp [hempty.mp hq, hne, shownField_eq, hs, Text.string]
      | none => simp [hempty.mp hq, hempty.mp hs, Text.string]

/-- The parts of a message are what is written of it. -/
theorem shownText_eq_writes (m : Message) (v : Viewport) (lineEnd : String) :
    m.shownText v lineEnd = (m.heading ++ [m.content true v lineEnd]).flatMap String.toList := by
  simp [Message.shownText, heading, shownTime_eq, shownField_eq, shownContent_eq]

theorem mem_shownText {v : Viewport} {lineEnd : String} {c : Char} :
    c ∈ m.shownText v lineEnd ↔
      (∃ text ∈ m.heading, c ∈ text.toList) ∨ c ∈ (m.content true v lineEnd).toList := by
  simp [shownText_eq_writes, List.mem_flatMap]

theorem shownText_lineEnd {v : Viewport} {line : String}
    (h : ∀ lineEnd, m.content true v lineEnd = line ++ lineEnd) (lineEnd : String) :
    m.shownText v lineEnd = m.shownText v "" ++ lineEnd.toList := by
  simp [shownText_eq_writes, h]

/-- A line of its own is printable up to the line end. -/
theorem IsLegible.shownText_line (h : m.IsLegible)
    (hs : m.hasProgress = true ∨ nonEmpty m.stream = none) (v : Viewport) :
    (∀ c ∈ m.shownText v "", isControl c = false) ∧
      ∀ lineEnd, m.shownText v lineEnd = m.shownText v "" ++ lineEnd.toList := by
  obtain ⟨line, hline, hcontent⟩ := h.content hs v
  refine ⟨fun c hc => ?_, shownText_lineEnd hcontent⟩
  rcases mem_shownText.mp hc with ⟨text, htext, hc⟩ | hc
  · exact h.heading text htext c hc
  · rw [hcontent, String.append_empty] at hc
    exact hline c hc

/-- Nothing but line ends moves the cursor from its line. -/
theorem IsLegible.shownText (h : m.IsLegible) (v : Viewport) :
    ∀ c ∈ m.shownText v "\n", isControl c = true → c = '\n' := by
  intro c hc hcontrol
  by_cases hs : m.hasProgress = true ∨ nonEmpty m.stream = none
  · obtain ⟨hline, hend⟩ := h.shownText_line hs v
    rw [hend] at hc
    rcases List.mem_append.mp hc with hc | hc
    · rw [hline c hc] at hcontrol
      cases hcontrol
    · simpa using hc
  · rw [not_or, Bool.not_eq_true, ← ne_eq, Option.ne_none_iff_exists'] at hs
    obtain ⟨hp, t, ht⟩ := hs
    rcases mem_shownText.mp hc with ⟨text, htext, hc⟩ | hc
    · rw [h.heading text htext c hc] at hcontrol
      cases hcontrol
    · rw [content_stream hp ht] at hc
      exact h.stream t (eq_some_of_nonEmpty ht) c hc hcontrol

end Message
end LiveProgress
