import LiveProgress.Display.Course
import LiveProgress.Proofs.Display.Chunking
import LiveProgress.Proofs.Display.Granted
import LiveProgress.Proofs.Output.Device

/-!
# Displays on a device

As long as a device takes every write, a display follows the course of its messages. The first
write that fails stops it within the message that issued it: nothing is written behind, and
the failure is told by the next write or by the wait for the device. Only a failure that the
message reports is told instead, if the write that failed was the last thing the message did.
-/

namespace LiveProgress

/-! ### Courses -/

namespace Course

theorem andThen_of_failure {c : Course} {f : Failure} (h : c.failure = some f)
    (later : Grid → Course) : c.andThen later = c := by
  simp only [andThen, h]

theorem andThen_of_healthy {c : Course} (h : c.failure = none) (later : Grid → Course) :
    c.andThen later =
      { later c.grid with
        writes := c.writes ++ (later c.grid).writes
        handedOn := c.handedOn ++ (later c.grid).handedOn } := by
  simp only [andThen, h]

theorem andThen_assoc (c : Course) (a b : Grid → Course) :
    (c.andThen a).andThen b = c.andThen fun g => (a g).andThen b := by
  cases h : c.failure with
  | some f => simp only [andThen, h]
  | none =>
    cases ha : (a c.grid).failure with
    | some f => simp only [andThen, h, ha]
    | none => simp only [andThen, h, ha, List.append_assoc]

theorem failure_andThen_eq_none {c : Course} {later : Grid → Course}
    (h : (c.andThen later).failure = none) :
    c.failure = none ∧ (later c.grid).failure = none := by
  cases hc : c.failure with
  | some f =>
    rw [andThen_of_failure hc, hc] at h
    exact absurd h (Option.some_ne_none f)
  | none =>
    rw [andThen_of_healthy hc] at h
    exact ⟨rfl, h⟩

end Course

namespace Grid

variable {g : Grid} {caps : Option CapabilitySet} {v : Viewport}

theorem course_append (g : Grid) (caps : Option CapabilitySet) (v : Viewport)
    (a b : List Message) :
    g.course caps v (a ++ b) = (g.course caps v a).andThen fun g => g.course caps v b := by
  induction a generalizing g with
  | nil => rfl
  | cons m a ih =>
    simp only [List.cons_append, course, Course.andThen_assoc, ih]

theorem course_singleton (g : Grid) (caps : Option CapabilitySet) (v : Viewport) (m : Message) :
    g.course caps v [m] = g.turn caps v m := by
  cases h : (g.turn caps v m).failure with
  | some f => exact Course.andThen_of_failure h _
  | none =>
    rw [course, Course.andThen_of_healthy h]
    simp only [course, List.append_nil, ← h]

/-- If something is refused, it fails with the failure of a look-up. -/
theorem failure_course_of_not_grants {set : CapabilitySet} {messages : List Message}
    (h : ¬ set.Grants (g.asked messages)) :
    ∃ f, set.Refuses (g.asked messages) f ∧ (g.course (some set) v messages).failure = some f := by
  induction messages generalizing g with
  | nil => exact absurd CapabilitySet.grants_nil h
  | cons m messages ih =>
    by_cases hm : set.Grants (g.lookups m)
    · have hturn : (g.turn (some set) v m).failure = m.ownFailure :=
        IsGranted.failure_script v fun _ hset => Option.some.inj hset ▸ hm
      cases hown : m.ownFailure with
      | some f =>
        rw [asked, hown] at h
        exact absurd (CapabilitySet.grants_append.mpr ⟨hm, CapabilitySet.grants_nil⟩) h
      | none =>
        have hrest : ¬ set.Grants ((g.next m).asked messages) := by
          intro hrest
          rw [asked, hown] at h
          exact h (CapabilitySet.grants_append.mpr ⟨hm, hrest⟩)
        obtain ⟨f, hrefused, hfailure⟩ := ih hrest
        refine ⟨f, ?_, ?_⟩
        · rw [asked, hown]
          exact hrefused.mono (List.subset_append_right _ _)
        · rw [course, Course.andThen_of_healthy (hturn.trans hown)]
          exact hfailure
    · obtain ⟨f, hrefused, hfailure⟩ := failure_script_of_not_grants v hm
      refine ⟨f, hrefused.mono (List.subset_append_left _ _), ?_⟩
      have hturn : (g.turn (some set) v m).failure = some f := hfailure
      rw [course, Course.andThen_of_failure hturn, hturn]

/-- A course that has not failed has handed on all messages with a payload. -/
theorem handedOn_course {messages : List Message}
    (h : (g.course caps v messages).failure = none) :
    (g.course caps v messages).handedOn = messages.filter (·.aux.isSome) := by
  induction messages generalizing g with
  | nil => rfl
  | cons m messages ih =>
    rw [course] at h ⊢
    obtain ⟨hm, hrest⟩ := Course.failure_andThen_eq_none h
    rw [Course.andThen_of_healthy hm, ih hrest, turn, ← List.filter_append,
      List.singleton_append]

/-- Every write of a course is issued by a message before which none has failed. -/
theorem exists_issuer {messages : List Message} {n : Nat} (hpos : 0 < n)
    (h : n ≤ (g.course caps v messages).writes.length) :
    ∃ before m after, messages = before ++ m :: after ∧
      (g.course caps v before).failure = none ∧
      (g.course caps v before).writes.length < n ∧
      n ≤ ((g.course caps v before).writes ++
        ((g.course caps v before).grid.script m caps v).calm.texts).length := by
  induction messages using List.reverseRecOn with
  | nil => exact absurd (hpos.trans_le h) (Nat.not_lt_zero 0)
  | append_singleton messages m ih =>
    by_cases hle : n ≤ (g.course caps v messages).writes.length
    · obtain ⟨before, m', after, rfl, hissuer⟩ := ih hle
      exact ⟨before, m', after ++ [m], by simp, hissuer⟩
    · rw [course_append] at h
      cases hfailure : (g.course caps v messages).failure with
      | some f =>
        rw [Course.andThen_of_failure hfailure] at h
        exact absurd h hle
      | none =>
        rw [Course.andThen_of_healthy hfailure, course_singleton] at h
        exact ⟨messages, m, [], rfl, hfailure, by omega, h⟩

/-- What is written up to a message that follows no failure is the beginning of the course. -/
theorem writes_isPrefix_course {before : List Message}
    (h : (g.course caps v before).failure = none) (m : Message) (after : List Message) :
    (g.course caps v before).writes ++
        ((g.course caps v before).grid.script m caps v).calm.texts <+:
      (g.course caps v (before ++ m :: after)).writes := by
  rw [course_append, Course.andThen_of_healthy h, List.prefix_append_right_inj, course]
  unfold Course.andThen
  split
  · exact List.prefix_rfl
  · exact List.prefix_append _ _

/-- Moving back is one write or one look-up that is refused, and only a row on a terminal has it
behind it. -/
theorem closing_cases (g : Grid) (m : Message) (caps : Option CapabilitySet) :
    ((∃ text, g.closing m caps = { texts := [text] }) ∨
      ∃ f, g.closing m caps = { failure := some f }) ∨
      g.opening m caps = {} ∧ g.closing m caps = {} := by
  cases hid : rowId? m with
  | none => exact .inr (g.bracket_bare caps (.inl hid))
  | some id =>
    cases caps with
    | none => exact .inr (g.bracket_bare none (.inr rfl))
    | some set =>
      left
      rw [closing_of_row g hid, CapabilitySet.cursorDown_ofRows, if_neg (g.ne_zero_distance id),
        CapabilitySet.write]
      cases set.lookup "cud" [.ofNat ((g.reserve id).distance id)] with
      | ok text => exact .inl ⟨_, rfl⟩
      | error f => exact .inr ⟨f, rfl⟩

theorem length_closing_le (g : Grid) (m : Message) (caps : Option CapabilitySet) (v : Viewport) :
    (g.script m caps v).closing.texts.length ≤ 1 := by
  cases haux : m.aux with
  | some payload =>
    rw [script_of_payload g caps v (by rw [haux]; rfl)]
    exact Nat.zero_le 1
  | none =>
    rw [script_of_aux g caps v haux, bracket]
    rcases g.closing_cases m caps with (⟨text, h⟩ | ⟨f, h⟩) | ⟨-, h⟩
    · rw [h, List.length_singleton]
    · rw [h]
      exact Nat.zero_le 1
    · rw [h]
      exact Nat.zero_le 1

/-- If nothing is refused, only the write that moves back can fail behind the reported error. -/
theorem IsGranted.told {m : Message} (h : g.IsGranted caps m) (haux : m.aux = none) {place : Nat}
    (hpos : 0 < place) (own : Failure) :
    (g.script m caps v).told place own =
      if place ≤ (g.opening m caps).texts.length + (m.line caps v).texts.length then own
      else (m.reportedError.map .ofReported).getD own := by
  obtain ⟨hopening, hline, hclosing⟩ := h.parts v haux
  rw [script_of_aux g caps v haux, Script.told, bracket, hopening, hline, hclosing]
  dsimp only
  generalize hopened : (g.opening m caps).texts.length = opened
  generalize hlined : (m.line caps v).texts.length = lined
  by_cases hearly : place < opened
  · rw [if_pos hearly, if_pos (by omega)]
  rw [if_neg hearly, Option.none_or]
  by_cases hlate : opened + lined < place
  · rw [if_neg fun hmoves => Nat.not_lt.mpr hmoves.1 hlate, if_neg (Nat.not_le.mpr hlate),
      if_pos (Nat.le_of_lt hlate)]
  have hle : place ≤ opened + lined := Nat.le_of_not_lt hlate
  rw [if_pos hle]
  split
  case isTrue => rfl
  case isFalse hstays =>
    -- The last write of a line without brackets: there is no line if an error is reported.
    split
    case isFalse => rfl
    case isTrue hend =>
      rcases g.closing_cases m caps with (⟨text, hback⟩ | ⟨f, hback⟩) | ⟨hbare, -⟩
      · rw [hback] at hstays
        exact absurd ⟨hle, List.cons_ne_nil _ _⟩ hstays
      · rw [hback] at hclosing
        cases hclosing
      · cases hreported : m.reportedError with
        | none => rfl
        | some e =>
          rw [hbare] at hopened
          rw [m.line_of_reported hreported] at hlined
          simp only [List.length_nil] at hopened hlined
          omega

theorem aux_of_texts {m : Message} (h : (g.script m caps v).calm.texts ≠ []) : m.aux = none := by
  by_contra haux
  rw [script_of_payload g caps v (Option.isSome_iff_ne_none.mpr haux)] at h
  exact h rfl

end Grid

/-! ### Scripts -/

section Scripts

variable {device : Device} {taken : List String} {out : DeviceSink} {n : Nat} {error : String}
  {s : Script}

theorem DeviceSink.Intact.run (h : Intact device taken out)
    (hspares : device.Spares taken.length (taken ++ s.calm.texts).length) :
    ∃ out', s.run out = (s.calm.failure, out') ∧ Intact device (taken ++ s.calm.texts) out' := by
  cases hfailure : s.opening.failure with
  | some f =>
    rw [Script.calm_of_failure hfailure] at hspares ⊢
    obtain ⟨out', hopening, h'⟩ := h.attempt s.opening hspares
    exact ⟨out', by simp only [Script.run, hopening, hfailure], h'⟩
  | none =>
    rw [Script.texts_calm_of_healthy hfailure] at hspares ⊢
    simp only [← List.append_assoc] at hspares ⊢
    obtain ⟨out₁, hopening, h₁⟩ := h.attempt s.opening (hspares.mono le_rfl (by simp))
    obtain ⟨out₂, hline, h₂⟩ := h₁.attempt s.line (hspares.mono (by simp) (by simp))
    obtain ⟨out₃, hclosing, h₃⟩ := h₂.attempt s.closing (hspares.mono (by simp) le_rfl)
    refine ⟨out₃, ?_, h₃⟩
    simp only [Script.run, hopening, hline, hclosing, hfailure, Script.failure_calm, Option.none_or]

/-- With the failure of a write already known, a closing with writes tells it. -/
theorem Script.told_closing (s : Script) (broken : Option Failure) (own : Failure) :
    ((if s.closing.texts.isEmpty then s.closing.failure else some own).or broken).getD own =
      if s.closing.texts ≠ [] then own else (s.closing.failure.or broken).getD own := by
  cases s.closing.texts with
  | nil => rfl
  | cons text texts => rfl

theorem getD_or_ite (a b : Option Failure) (own : Failure) {p : Prop} [Decidable p] :
    (a.or (if p then b else some own)).getD own = (a.or (if p then b else none)).getD own := by
  split
  · rfl
  · cases a <;> rfl

/-- The first write that fails is one of the opening. -/
theorem DeviceSink.Intact.run_failing_opening (h : Intact device taken out)
    (hfails : device.FailsFirst n error) (hlow : taken.length < n)
    (hhigh : n ≤ (taken ++ s.opening.texts).length) :
    Broken n error ((taken ++ s.opening.texts).take (n - 1)) (s.run out).2 ∧
      (s.run out).1.getD (.transfer error) = s.told (n - taken.length) (.transfer error) := by
  obtain ⟨out₁, hopening, h₁⟩ := h.attempt_failing hfails s.opening hlow hhigh
  rw [List.length_append] at hhigh
  unfold Script.told
  by_cases hlast : n = (taken ++ s.opening.texts).length
  · rw [if_pos hlast] at hopening
    rw [List.length_append] at hlast
    rw [if_neg (by omega)]
    cases hfailure : s.opening.failure with
    | some f =>
      simp only [Script.run, hopening, hfailure]
      exact ⟨h₁, rfl⟩
    | none =>
      have hlined : n - taken.length ≤ s.opening.texts.length + s.line.texts.length := by omega
      have hempty : s.line.texts.isEmpty = true ↔
          s.opening.texts.length + s.line.texts.length ≤ n - taken.length := by
        rw [List.isEmpty_iff_length_eq_zero]
        omega
      simp only [Script.run, hopening, hfailure, h₁.attempt, Script.told_closing, getD_or_ite,
        hempty, hlined, true_and, and_true]
      exact h₁
  · rw [if_neg hlast] at hopening
    rw [List.length_append] at hlast
    simp only [Script.run, hopening]
    exact ⟨h₁, (if_pos (by omega)).symm⟩

theorem DeviceSink.Intact.run_failing_line (h : Intact device taken out)
    (hfails : device.FailsFirst n error) (hhealthy : s.opening.failure = none)
    (hlow : (taken ++ s.opening.texts).length < n)
    (hhigh : n ≤ (taken ++ s.opening.texts ++ s.line.texts).length) :
    Broken n error ((taken ++ s.opening.texts ++ s.line.texts).take (n - 1)) (s.run out).2 ∧
      (s.run out).1.getD (.transfer error) = s.told (n - taken.length) (.transfer error) := by
  obtain ⟨out₁, hopening, h₁⟩ := h.attempt s.opening (hfails.spares hlow)
  obtain ⟨out₂, hline, h₂⟩ := h₁.attempt_failing hfails s.line hlow hhigh
  simp only [List.length_append] at hlow hhigh hline
  have hlast : n = taken.length + s.opening.texts.length + s.line.texts.length ↔
      s.opening.texts.length + s.line.texts.length ≤ n - taken.length := by omega
  have hlined : n - taken.length ≤ s.opening.texts.length + s.line.texts.length := by omega
  unfold Script.told
  rw [if_neg (by omega)]
  simp only [Script.run, hopening, hhealthy, hline, h₂.attempt, Script.told_closing, getD_or_ite,
    hlast, hlined, true_and, and_true]
  exact h₂

/-- The first write that fails is the one that moves back: what the script lacks is told if
anything. -/
theorem DeviceSink.Intact.run_failing_closing (h : Intact device taken out)
    (hfails : device.FailsFirst n error) (hhealthy : s.opening.failure = none)
    (hlow : (taken ++ s.opening.texts ++ s.line.texts).length < n)
    (hhigh : n ≤ (taken ++ s.opening.texts ++ s.line.texts ++ s.closing.texts).length)
    (hclosing : s.closing.texts.length ≤ 1) :
    Broken n error ((taken ++ s.opening.texts ++ s.line.texts ++ s.closing.texts).take (n - 1))
        (s.run out).2 ∧
      (s.run out).1.getD (.transfer error) = s.told (n - taken.length) (.transfer error) := by
  have hopened : (taken ++ s.opening.texts).length < n := by
    rw [List.length_append] at hlow
    omega
  obtain ⟨out₁, hopening, h₁⟩ := h.attempt s.opening (hfails.spares hopened)
  obtain ⟨out₂, hline, h₂⟩ := h₁.attempt s.line (hfails.spares hlow)
  obtain ⟨out₃, hlast, h₃⟩ := h₂.attempt_failing hfails s.closing hlow hhigh
  -- The closing is one write, so no later one tells that it failed.
  have hend : n = (taken ++ s.opening.texts ++ s.line.texts ++ s.closing.texts).length := by
    rw [List.length_append] at hhigh ⊢
    omega
  rw [if_pos hend] at hlast
  simp only [List.length_append] at hlow
  unfold Script.told
  rw [if_neg (by omega)]
  simp only [Script.run, hopening, hhealthy, hline, hlast]
  rw [if_neg (by omega), if_pos (by omega)]
  exact ⟨h₃, rfl⟩

/-- The first write that fails is one of a script. Behind it nothing is written. -/
theorem DeviceSink.Intact.run_failing (h : Intact device taken out)
    (hfails : device.FailsFirst n error) (hlow : taken.length < n)
    (hhigh : n ≤ (taken ++ s.calm.texts).length) (hclosing : s.closing.texts.length ≤ 1) :
    Broken n error ((taken ++ s.calm.texts).take (n - 1)) (s.run out).2 ∧
      (s.run out).1.getD (.transfer error) = s.told (n - taken.length) (.transfer error) := by
  cases hfailure : s.opening.failure with
  | some f =>
    rw [Script.calm_of_failure hfailure] at hhigh ⊢
    exact h.run_failing_opening hfails hlow hhigh
  | none =>
    rw [Script.texts_calm_of_healthy hfailure] at hhigh ⊢
    simp only [← List.append_assoc] at hhigh ⊢
    by_cases hline : n ≤ (taken ++ s.opening.texts ++ s.line.texts).length
    · rw [List.take_append_of_le_length (by omega)]
      by_cases hopening : n ≤ (taken ++ s.opening.texts).length
      · rw [List.take_append_of_le_length (by omega)]
        exact h.run_failing_opening hfails hlow hopening
      · exact h.run_failing_line hfails hfailure (by omega) hline
    · exact h.run_failing_closing hfails hfailure (by omega) hhigh hclosing

end Scripts

/-! ### Messages -/

namespace Display

variable {device : Device} {taken : List String} {d : Display DeviceSink} {n : Nat}
  {error : String} {caps : Option CapabilitySet} {v : Viewport} {m : Message}

/-- Advances along the course of a message whose writes are all taken. -/
theorem advance_intact (h : d.out.Intact device taken)
    (hspares : device.Spares taken.length (taken ++ (d.grid.turn caps v m).writes).length) :
    ∃ out, out.Intact device (taken ++ (d.grid.turn caps v m).writes) ∧
      d.advance caps v m = ((d.grid.turn caps v m).failure,
        { grid := (d.grid.turn caps v m).grid
          out
          handedOn := d.handedOn ++ (d.grid.turn caps v m).handedOn }) := by
  obtain ⟨out, hrun, h'⟩ := h.run hspares
  simp only [advance, render_eq_script, hrun, Grid.turn]
  cases (d.grid.script m caps v).calm.failure with
  | some f => exact ⟨out, h', rfl⟩
  | none =>
    obtain ⟨out', hready, h'⟩ := h'.ready
    refine ⟨out', h', ?_⟩
    simp only [Destination.ready, hready]

theorem run_intact (h : d.out.Intact device taken) (messages : List Message)
    (hspares : device.Spares taken.length
      (taken ++ (d.grid.course caps v messages).writes).length) :
    ∃ out, out.Intact device (taken ++ (d.grid.course caps v messages).writes) ∧
      d.run caps v messages = ((d.grid.course caps v messages).failure,
        { grid := (d.grid.course caps v messages).grid
          out
          handedOn := d.handedOn ++ (d.grid.course caps v messages).handedOn }) := by
  induction messages generalizing d taken with
  | nil => exact ⟨d.out, by simpa [Grid.course] using h, by simp [Grid.course, run]⟩
  | cons m messages ih =>
    rw [Grid.course] at hspares ⊢
    cases hfailure : (d.grid.turn caps v m).failure with
    | some f =>
      rw [Course.andThen_of_failure hfailure] at hspares ⊢
      obtain ⟨out, h', hadvance⟩ := advance_intact h hspares
      refine ⟨out, h', ?_⟩
      simp only [run, hadvance, hfailure]
    | none =>
      rw [Course.andThen_of_healthy hfailure] at hspares ⊢
      have hm : device.Spares taken.length (taken ++ (d.grid.turn caps v m).writes).length :=
        hspares.mono le_rfl (by simp)
      obtain ⟨out, h', hadvance⟩ := advance_intact h hm
      have hrest : device.Spares (taken ++ (d.grid.turn caps v m).writes).length
          (taken ++ (d.grid.turn caps v m).writes ++
            ((d.grid.turn caps v m).grid.course caps v messages).writes).length :=
        hspares.mono (by simp) (by simp)
      obtain ⟨out', h'', hrun⟩ := ih
        (d := { grid := (d.grid.turn caps v m).grid
                out
                handedOn := d.handedOn ++ (d.grid.turn caps v m).handedOn })
        h' hrest
      refine ⟨out', by simpa using h'', ?_⟩
      simp only [run, hadvance, hfailure]
      rw [hrun]
      simp

/-- The message that issues the first write to fail is the last one that is shown. -/
theorem advance_failing (h : d.out.Intact device taken) (hfails : device.FailsFirst n error)
    (hlow : taken.length < n)
    (hhigh : n ≤ (taken ++ (d.grid.script m caps v).calm.texts).length) :
    ∃ out, out.Broken n error ((taken ++ (d.grid.script m caps v).calm.texts).take (n - 1)) ∧
      d.advance caps v m = (
        some ((d.grid.script m caps v).told (n - taken.length) (.transfer error)),
        { grid := d.grid.next m, out, handedOn := d.handedOn }) := by
  have htexts : (d.grid.script m caps v).calm.texts ≠ [] := by
    intro hnil
    rw [hnil, List.append_nil] at hhigh
    omega
  have haux := Grid.aux_of_texts htexts
  obtain ⟨h', htold⟩ := h.run_failing hfails hlow hhigh (d.grid.length_closing_le m caps v)
  simp only [advance, render_eq_script, ← htold]
  cases hrun : ((d.grid.script m caps v).run d.out).1 with
  | some f => exact ⟨_, h', by simp [haux]⟩
  | none =>
    obtain ⟨out, hready, h''⟩ := h'.ready
    refine ⟨out, h'', ?_⟩
    simp [Destination.ready, hready, haux]

/-- A run in which some write fails: it ends with the message that issued the write. -/
theorem run_failing (h : d.out.Intact device []) (hfails : device.FailsFirst n error)
    {messages : List Message} (hhigh : n ≤ (d.grid.course caps v messages).writes.length) :
    ∃ before m after, messages = before ++ m :: after ∧
      let course := d.grid.course caps v before
      let script := course.grid.script m caps v
      course.failure = none ∧ m.aux = none ∧
      course.writes.length < n ∧ n ≤ (course.writes ++ script.calm.texts).length ∧
      ∃ out, out.Broken n error ((d.grid.course caps v messages).writes.take (n - 1)) ∧
        d.run caps v messages =
          (some (script.told (n - course.writes.length) (.transfer error)),
            { grid := course.grid.next m
              out
              handedOn := d.handedOn ++ before.filter (·.aux.isSome) }) := by
  obtain ⟨before, m, after, rfl, hhealthy, hlow, hscript⟩ :=
    Grid.exists_issuer hfails.positive hhigh
  have htexts : ((d.grid.course caps v before).grid.script m caps v).calm.texts ≠ [] := by
    intro hnil
    rw [hnil, List.append_nil] at hscript
    omega
  have htake : (d.grid.course caps v (before ++ m :: after)).writes.take (n - 1) =
      ((d.grid.course caps v before).writes ++
        ((d.grid.course caps v before).grid.script m caps v).calm.texts).take (n - 1) := by
    obtain ⟨rest, hrest⟩ := Grid.writes_isPrefix_course hhealthy m after
    rw [← hrest, List.take_append_of_le_length (by omega)]
  obtain ⟨out, hintact, hrun⟩ := run_intact h before (hfails.spares hlow)
  obtain ⟨out', hbroken, hadvance⟩ := advance_failing
    (d := { grid := (d.grid.course caps v before).grid
            out
            handedOn := d.handedOn ++ (d.grid.course caps v before).handedOn })
    hintact hfails hlow hscript
  refine ⟨before, m, after, rfl, hhealthy, Grid.aux_of_texts htexts, hlow, hscript, out', ?_, ?_⟩
  · rw [htake]
    exact hbroken
  · rw [run_append, hrun, hhealthy, ← Grid.handedOn_course hhealthy]
    simp only [run, hadvance, List.nil_append]

end Display

/-! ### Displays -/

section Displays

variable (o : DisplayOptions) (read : FileReader) (chunks : List Chunk) {device : Device}
  {n : Nat} {error : String}

/-- The end of the output comes after the last message and the end of the input. -/
theorem Shown.onDevice_of_run {o : DisplayOptions} {read : FileReader} {chunks : List Chunk}
    {failure : Option Failure} {d : Display DeviceSink}
    (hrun : ({ out := { device } } : Display DeviceSink).run (o.resolve read).1 o.viewport
      (Message.ofChunks chunks).1 = (failure, d))
    (hidle : d.out.sink.IsIdle) :
    ∃ out : DeviceSink, Shown.onDevice o read chunks device =
        { failure := (failure.or (Message.ofChunks chunks).2).or
            (d.out.sink.failure.map .transfer)
          out
          handedOn := d.handedOn
          grid := d.grid
          prelude := (o.resolve read).2
          postlude :=
            if (failure.or (Message.ofChunks chunks).2).isSome then [] else [d.grid.summary] } ∧
      out.attempts = d.out.attempts ∧ out.written = d.out.written ∧
      out.sink.listeners = 0 ∧ out.sink.draining = [] := by
  obtain ⟨out, hfinish, hout⟩ :=
    DeviceSink.finish_of_idle hidle (failure.or (Message.ofChunks chunks).2)
  refine ⟨out, ?_, hout⟩
  simp only [onDevice, finished, ofChunks, ofDisplay, Display.feed_eq_run, hrun, hfinish]

/-- A device that takes every write of the course shows all of it. -/
theorem Shown.onDevice_of_spares
    (h : device.Spares 0 (Shown.course o read chunks).writes.length) :
    ∃ out : DeviceSink, Shown.onDevice o read chunks device =
        { failure := (Shown.course o read chunks).failure.or (Message.ofChunks chunks).2
          out
          handedOn := (Shown.course o read chunks).handedOn
          grid := (Shown.course o read chunks).grid
          prelude := (o.resolve read).2
          postlude :=
            if ((Shown.course o read chunks).failure.or (Message.ofChunks chunks).2).isSome then []
            else [(Shown.course o read chunks).grid.summary] } ∧
      out.written = (Shown.course o read chunks).writes ∧
      out.sink.listeners = 0 ∧ out.sink.draining = [] := by
  obtain ⟨out, hintact, hrun⟩ := Display.run_intact (d := { out := { device } })
    (DeviceSink.intact_start device) (Message.ofChunks chunks).1 h
  obtain ⟨out', hshown, -, hwritten, hout⟩ := Shown.onDevice_of_run hrun hintact.idle
  refine ⟨out', ?_, ?_, hout⟩
  · rw [hshown]
    simp only [hintact.failure, Option.map_none, Option.or_none, List.nil_append]
    rfl
  · rw [hwritten]
    exact hintact.written

/-- A device that refuses a write of the course ends the display with it. -/
theorem Shown.onDevice_of_failsFirst (hfails : device.FailsFirst n error)
    (hle : n ≤ (Shown.course o read chunks).writes.length) :
    let shown := Shown.onDevice o read chunks device
    let caps := (o.resolve read).1
    (∃ before m after, (Message.ofChunks chunks).1 = before ++ m :: after ∧
      let course := ({} : Grid).course caps o.viewport before
      let script := course.grid.script m caps o.viewport
      course.failure = none ∧ m.aux = none ∧
      course.writes.length < n ∧ n ≤ (course.writes ++ script.calm.texts).length ∧
      shown.handedOn = before.filter (·.aux.isSome) ∧
      shown.failure = some (script.told (n - course.writes.length) (.transfer error))) ∧
    shown.out.written = (Shown.course o read chunks).writes.take (n - 1) ∧
    shown.out.attempts = n ∧
    shown.out.sink.listeners = 0 ∧ shown.out.sink.draining = [] := by
  intro shown caps
  obtain ⟨before, m, after, hmessages, hhealthy, haux, hlow, hhigh, out, hbroken, hrun⟩ :=
    Display.run_failing (d := { out := { device } }) (DeviceSink.intact_start device) hfails hle
  obtain ⟨out', hshown, hattempts, hwritten, hout⟩ := Shown.onDevice_of_run hrun hbroken.idle
  have hshown : shown = _ := hshown
  rw [hshown]
  refine ⟨⟨before, m, after, hmessages, hhealthy, haux, hlow, hhigh, ?_, ?_⟩, ?_, ?_, hout⟩
  · rfl
  · rfl
  · exact hwritten.trans hbroken.written
  · exact hattempts.trans hbroken.attempts

end Displays

/-- If one of the writes of the undisturbed display fails, the first that does is the last write
that is made. What was written before it and the messages handed on before its own stay, and the
display fails with its error, with the error that the message reports if only its closing was left
to be written, or with the failure of a look-up that comes between the write and the next one. If
none of them fails, nothing is different. The sink always lets go of the device. -/
theorem failed_write_ends_display (o : DisplayOptions) (read : FileReader)
    (chunks : List Chunk) (device : Device) :
    let calm : Device := { device with failing := [] }
    let shown := Shown.onDevice o read chunks device
    let undisturbed := Shown.onDevice o read chunks calm
    let writes := undisturbed.out.written
    let caps := (o.resolve read).1
    let display (messages : List Message) :=
      ({ out := { device := calm } } : Display DeviceSink).run caps o.viewport messages
    (∀ n error, device.FailsFirst n error → n ≤ writes.length →
      shown.out.written = writes.take (n - 1) ∧ shown.out.attempts = n ∧
      ∃ before m after script,
        (Message.ofChunks chunks).1 = before ++ m :: after ∧
        (display before).1 = none ∧
        ((display before).2.grid.react m caps o.viewport).2 = .render script ∧
        (display before).2.out.written ++ script.calm.texts <+: writes ∧
        (display before).2.out.written.length < n ∧
        n ≤ ((display before).2.out.written ++ script.calm.texts).length ∧
        shown.handedOn = before.filter (·.aux.isSome) ∧
        shown.failure = some
          (script.told (n - (display before).2.out.written.length) (.transfer error)) ∧
        ((display before).2.grid.IsGranted caps m → shown.failure = some (
          if n ≤ ((display before).2.out.written ++ script.opening.texts ++
              script.line.texts).length then .transfer error
          else (m.reportedError.map .ofReported).getD (.transfer error)))) ∧
    (device.Spares 0 writes.length →
      shown = { undisturbed with out := shown.out } ∧ shown.out.written = writes) ∧
    shown.out.sink.listeners = 0 ∧ shown.out.sink.draining = [] := by
  intro calm shown undisturbed writes caps display
  have hcalm (low high : Nat) : calm.Spares low high := fun _ _ _ => rfl
  have hdisplay (before : List Message) :
      (display before).1 = (({} : Grid).course caps o.viewport before).failure ∧
      (display before).2.grid = (({} : Grid).course caps o.viewport before).grid ∧
      (display before).2.out.written = (({} : Grid).course caps o.viewport before).writes := by
    obtain ⟨out, hintact, hrun⟩ := Display.run_intact (v := o.viewport)
      (d := { out := { device := calm } }) (DeviceSink.intact_start calm) before (hcalm 0 _)
    have hrun : display before = _ := hrun
    rw [hrun]
    exact ⟨rfl, rfl, hintact.written⟩
  obtain ⟨out, hundisturbed, hwritten, -⟩ := Shown.onDevice_of_spares o read chunks (hcalm 0 _)
  have hundisturbed : undisturbed = _ := hundisturbed
  have hwrites : writes = (Shown.course o read chunks).writes := by
    rw [← hwritten]
    exact congrArg (·.out.written) hundisturbed
  rw [hwrites]
  refine ⟨?_, ?_, ?_⟩
  · intro n error hfails hle
    obtain ⟨⟨before, m, after, hmessages, hhealthy, haux, hissuer⟩, hcut, hattempts, -⟩ :=
      Shown.onDevice_of_failsFirst o read chunks hfails hle
    obtain ⟨hfailure, hgrid, hdone⟩ := hdisplay before
    refine ⟨hcut, hattempts, before, m, after,
      (({} : Grid).course caps o.viewport before).grid.script m caps o.viewport, hmessages, ?_⟩
    rw [hfailure, hgrid, hdone]
    obtain ⟨hlow, hhigh, hhanded, htold⟩ := hissuer
    refine ⟨hhealthy, Grid.react_snd _ haux _ _, ?_, hlow, hhigh, hhanded, htold, ?_⟩
    · rw [Shown.course, hmessages]
      exact Grid.writes_isPrefix_course hhealthy m after
    · intro hgranted
      rw [hgranted.told haux (by omega)] at htold
      rw [Grid.script_of_aux _ _ _ haux]
      simp only [Grid.bracket, List.length_append]
      have hplace {w a b : Nat} (hw : w < n) : n - w ≤ a + b ↔ n ≤ w + a + b := by omega
      exact htold.trans (congrArg some (if_congr (hplace hlow) rfl rfl))
  · intro hspares
    obtain ⟨out', hshown, hwritten', -⟩ := Shown.onDevice_of_spares o read chunks hspares
    have hshown : shown = _ := hshown
    rw [hshown, hundisturbed]
    exact ⟨rfl, hwritten'⟩
  · rcases device.exists_failsFirst_or_spares (Shown.course o read chunks).writes.length with
      ⟨n, error, hfails, hle⟩ | hspares
    · obtain ⟨-, -, -, hout⟩ := Shown.onDevice_of_failsFirst o read chunks hfails hle
      exact hout
    · obtain ⟨out', hshown, -, hout⟩ := Shown.onDevice_of_spares o read chunks hspares
      have hshown : shown = _ := hshown
      rw [hshown]
      exact hout

/-- An operation that reports an error while the write that moves back to the grid fails. -/
theorem reported_error_outlives_failed_write :
    let o : DisplayOptions := { onTerminal := true, capabilities := some .empty }
    let read := (FileTree.ofList []).read
    let chunks :=
      [Chunk.text (Text.ofString "\x7b\"id\":\"a\",\"progress\":\"x\",\"error\":\"bad\"\x7d")]
    let device : Device := { failing := [(3, "lost")] }
    let shown := Shown.onDevice o read chunks device
    let writes := (Shown.onDevice o read chunks { device with failing := [] }).out.written
    device.FailsFirst 3 "lost" ∧ 3 ≤ writes.length ∧
      shown.out.written = writes.take 2 ∧ shown.out.attempts = 3 ∧
      shown.failure = some (.operationFailed none "bad") := by
  intro o read chunks device shown writes
  have hfails : device.FailsFirst 3 "lost" := by
    constructor
    · decide
    · rfl
    · intro k hpos hlt
      obtain rfl | rfl : k = 1 ∨ k = 2 := by omega
      · rfl
      · rfl
  have hle : 3 ≤ writes.length := by decide +kernel
  obtain ⟨hfirst, _⟩ := failed_write_ends_display o read chunks device
  obtain ⟨hwritten, hattempts, _⟩ := hfirst 3 "lost" hfails hle
  have hfailure : shown.failure = some (.operationFailed none "bad") := by decide +kernel
  exact ⟨hfails, hle, hwritten, hattempts, hfailure⟩

/-- The look-up that moves the cursor back is refused behind a write that has failed, and its
failure is told instead of that of the write. -/
theorem refused_move_hides_failed_write :
    let caps := CapabilitySet.ofEntry (.overwide 107 'B')
    let o : DisplayOptions := { onTerminal := true, capabilities := some caps }
    let read := (FileTree.ofList []).read
    let chunks := [Chunk.text (Text.ofString "\x7b\"id\":\"a\",\"progress\":\"x\"\x7d")]
    let device : Device := { failing := [(4, "lost")] }
    let writes := (Shown.onDevice o read chunks { device with failing := [] }).out.written
    device.FailsFirst 4 "lost" ∧ 4 ≤ writes.length ∧
      (∀ m ∈ (Message.ofChunks chunks).1, m.reportedError = none) ∧
      (Shown.onDevice o read chunks device).failure = some .oversized := by
  intro caps o read chunks device writes
  have hfails : device.FailsFirst 4 "lost" := by
    constructor
    · decide
    · rfl
    · intro k hpos hlt
      obtain rfl | rfl | rfl : k = 1 ∨ k = 2 ∨ k = 3 := by omega
      · rfl
      · rfl
      · rfl
  exact ⟨hfails, by decide +kernel, by decide +kernel, by decide +kernel⟩

end LiveProgress
