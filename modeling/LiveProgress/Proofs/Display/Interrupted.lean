import LiveProgress.Display.Bracket
import LiveProgress.Output.Unreliable
import LiveProgress.Proofs.Display.Handled
import LiveProgress.Proofs.Display.Simulation

/-!
# Messages that are interrupted

A write that fails ends the message that issued it, except that the cursor still moves back if the
write was one of a line in a row of the grid. The failure of the write is told, or that of moving
back if this fails too; the error that the message reports only if no write fails.
-/

namespace LiveProgress

/-! ### Writes -/

namespace UnreliableSink

variable {u : UnreliableSink} {k n : Nat} {f : Failure} {texts : List String}

/-- Behind a number of writes, of which some texts have been taken. -/
def advance (u : UnreliableSink) (count : Nat) (texts : List String) : UnreliableSink :=
  { u with attempts := u.attempts + count, written := u.written ++ texts }

theorem advance_advance (u : UnreliableSink) (k n : Nat) (a b : List String) :
    (u.advance k a).advance n b = u.advance (k + n) (a ++ b) := by
  simp only [advance, Nat.add_assoc, List.append_assoc]

theorem advance_zero (u : UnreliableSink) : u.advance 0 [] = u := by
  simp only [advance, Nat.add_zero, List.append_nil]

theorem Takes.mono (h : u.Takes n) (hle : k ≤ n) : u.Takes k :=
  fun j hj => h j (Nat.lt_of_lt_of_le hj hle)

/-- Either none of the next writes fails, or one of them is the first that does. -/
theorem takes_or_failsBehind (u : UnreliableSink) (n : Nat) :
    u.Takes n ∨ ∃ k f, k < n ∧ u.FailsBehind k f := by
  induction n with
  | zero => exact .inl fun j hj => absurd hj (Nat.not_lt_zero j)
  | succ n ih =>
    cases ih with
    | inr hfails =>
      obtain ⟨k, f, hk, hfails⟩ := hfails
      exact .inr ⟨k, f, Nat.lt_succ_of_lt hk, hfails⟩
    | inl htakes =>
      cases hnext : u.failing (u.attempts + n + 1) with
      | some f => exact .inr ⟨n, f, Nat.lt_succ_self n, htakes, hnext⟩
      | none =>
        left
        intro j hj
        cases Nat.lt_succ_iff_lt_or_eq.mp hj with
        | inl hlt => exact htakes j hlt
        | inr heq => exact heq ▸ hnext

theorem Takes.later (h : u.Takes (k + n)) (texts : List String) : (u.advance k texts).Takes n := by
  intro j hj
  have hfuture := h (k + j) (by omega)
  rwa [← Nat.add_assoc] at hfuture

theorem FailsBehind.later (h : u.FailsBehind (k + n) f) (texts : List String) :
    (u.advance k texts).FailsBehind n f := by
  refine ⟨h.takes.later texts, ?_⟩
  have hfails := h.fails
  rwa [← Nat.add_assoc] at hfails

theorem write_of_takes (h : u.Takes 1) (text : String) :
    Destination.write u text = (none, u.advance 1 [text]) := by
  have hnext := h 0 Nat.one_pos
  rw [Nat.add_zero] at hnext
  simp only [Destination.write, write, hnext, advance]

theorem write_of_fails (h : u.FailsBehind 0 f) (text : String) :
    Destination.write u text = (some f, u.advance 1 []) := by
  have hnext := h.fails
  rw [Nat.add_zero] at hnext
  simp only [Destination.write, write, hnext, advance, List.append_nil]

theorem writeAll_of_takes (h : u.Takes texts.length) :
    Destination.writeAll u texts = (none, u.advance texts.length texts) := by
  induction texts generalizing u with
  | nil => rw [List.length_nil, advance_zero, Destination.writeAll]
  | cons text texts ih =>
    rw [List.length_cons, Nat.add_comm] at h
    have hrest := ih (h.later [text])
    simp only [Destination.writeAll, write_of_takes (h.mono (Nat.le_add_right 1 _)), hrest,
      advance_advance, List.length_cons, List.singleton_append, Nat.add_comm 1]

theorem writeAll_of_fails (h : u.FailsBehind k f) (hk : k < texts.length) :
    Destination.writeAll u texts = (some f, u.advance (k + 1) (texts.take k)) := by
  induction texts generalizing u k with
  | nil => exact absurd hk (Nat.not_lt_zero k)
  | cons text texts ih =>
    cases k with
    | zero => simp only [Destination.writeAll, write_of_fails h, List.take_zero, Nat.zero_add]
    | succ k =>
      rw [Nat.add_comm] at h
      have hrest := ih (h.later [text]) (Nat.lt_of_succ_lt_succ hk)
      simp only [Destination.writeAll, write_of_takes (h.takes.mono (Nat.le_add_right 1 _)), hrest,
        advance_advance, List.take_succ_cons, List.singleton_append, Nat.add_comm 1]

/-! ### Scripts -/

variable {a : Attempt} {s : Script}

theorem attempt_of_takes (h : u.Takes a.texts.length) :
    a.run u = (a.failure, u.advance a.texts.length a.texts) := by
  simp only [Attempt.run, writeAll_of_takes h, Option.none_or]

theorem attempt_of_fails (h : u.FailsBehind k f) (hk : k < a.texts.length) :
    a.run u = (some f, u.advance (k + 1) (a.texts.take k)) := by
  simp only [Attempt.run, writeAll_of_fails h hk, Option.some_or]

theorem run_of_takes (h : u.Takes s.calm.texts.length) :
    s.run u = (s.calm.failure, u.advance s.calm.texts.length s.calm.texts) := by
  cases hfailure : s.opening.failure with
  | some f =>
    rw [Script.calm_of_failure hfailure] at h ⊢
    simp only [Script.run, attempt_of_takes h, hfailure]
  | none =>
    rw [Script.failure_calm, hfailure, Option.none_or]
    rw [Script.texts_calm_of_healthy hfailure] at h ⊢
    simp only [List.length_append] at h ⊢
    have hopening := attempt_of_takes (a := s.opening) (h.mono (by omega))
    have hline := attempt_of_takes (a := s.line)
      ((h.mono (by omega : s.opening.texts.length + s.line.texts.length ≤ _)).later s.opening.texts)
    have hclosing := attempt_of_takes (a := s.closing) (h.later (s.opening.texts ++ s.line.texts))
    simp only [Script.run, hopening, hline, advance_advance, hclosing, hfailure]

/-- A write of the opening fails: nothing else is attempted. -/
theorem run_of_fails_opening (h : u.FailsBehind k f) (hk : k < s.opening.texts.length) :
    s.run u = (some f, u.advance (k + 1) (s.calm.texts.take k)) := by
  have htake : s.calm.texts.take k = s.opening.texts.take k := by
    cases hfailure : s.opening.failure with
    | some f => rw [Script.calm_of_failure hfailure]
    | none =>
      rw [Script.texts_calm_of_healthy hfailure, List.append_assoc,
        List.take_append_of_le_length (Nat.le_of_lt hk)]
  simp only [Script.run, attempt_of_fails h hk, htake]

/-- A write of the line fails: the closing is attempted, and its failure is told if it fails too. -/
theorem run_of_fails_line (h : u.FailsBehind k f) (hhealthy : s.opening.failure = none)
    (hlow : s.opening.texts.length ≤ k) (hhigh : k < (s.opening.texts ++ s.line.texts).length) :
    s.run u =
      let closed := s.closing.run (u.advance (k + 1) (s.calm.texts.take k))
      (closed.1.or (some f), closed.2) := by
  obtain ⟨j, rfl⟩ := Nat.exists_eq_add_of_le hlow
  rw [List.length_append] at hhigh
  have hopening := attempt_of_takes (a := s.opening) (h.takes.mono hlow)
  have hinside : j < s.line.texts.length := by omega
  have hline := attempt_of_fails (h.later s.opening.texts) hinside
  have htake : s.calm.texts.take (s.opening.texts.length + j) =
      s.opening.texts ++ s.line.texts.take j := by
    rw [Script.texts_calm_of_healthy hhealthy, List.append_assoc, List.take_length_add_append,
      List.take_append_of_le_length (by omega)]
  simp only [Script.run, hopening, hhealthy, hline, htake, advance_advance, Nat.add_assoc]

/-- A write of the closing fails: its failure is told, whatever the script lacks. -/
theorem run_of_fails_closing (h : u.FailsBehind k f) (hhealthy : s.opening.failure = none)
    (hlow : (s.opening.texts ++ s.line.texts).length ≤ k) (hhigh : k < s.calm.texts.length) :
    s.run u = (some f, u.advance (k + 1) (s.calm.texts.take k)) := by
  obtain ⟨j, rfl⟩ := Nat.exists_eq_add_of_le hlow
  have hbefore := h.takes.mono hlow
  rw [List.length_append] at hbefore
  have hopening := attempt_of_takes (a := s.opening)
    (hbefore.mono (Nat.le_add_right _ s.line.texts.length))
  have hline := attempt_of_takes (a := s.line) (hbefore.later s.opening.texts)
  have hinside : j < s.closing.texts.length := by
    rw [Script.texts_calm_of_healthy hhealthy] at hhigh
    simp only [List.length_append] at hhigh
    omega
  have hclosing := attempt_of_fails (h.later (s.opening.texts ++ s.line.texts)) hinside
  have htake : s.calm.texts.take ((s.opening.texts ++ s.line.texts).length + j) =
      s.opening.texts ++ s.line.texts ++ s.closing.texts.take j := by
    rw [Script.texts_calm_of_healthy hhealthy, List.take_length_add_append]
  rw [htake, List.length_append]
  rw [List.length_append] at hclosing
  simp only [Script.run, hopening, hhealthy, hline, advance_advance, hclosing, Nat.add_assoc,
    Option.some_or]

/-- If the closing is one write, it is accepted or not by its own number. -/
theorem run_of_fails_bracketed (h : u.FailsBehind k f) (hhealthy : s.opening.failure = none)
    (hlow : s.opening.texts.length ≤ k) (hhigh : k < (s.opening.texts ++ s.line.texts).length)
    {text : String} (hclosing : s.closing = { texts := [text] }) :
    s.run u = match u.failing (u.attempts + k + 2) with
      | none => (some f, u.advance (k + 2) (s.calm.texts.take k ++ s.closing.texts))
      | some f' => (some f', u.advance (k + 2) (s.calm.texts.take k)) := by
  have hnumber :
      u.attempts + k + 2 = (u.advance (k + 1) (s.calm.texts.take k)).attempts + 0 + 1 := rfl
  rw [run_of_fails_line h hhealthy hlow hhigh, hclosing]
  cases hnext : u.failing (u.attempts + k + 2) with
  | none =>
    have htakes : (u.advance (k + 1) (s.calm.texts.take k)).Takes [text].length := by
      intro j hj
      obtain rfl := Nat.lt_one_iff.mp hj
      exact hnumber ▸ hnext
    have hclosed := attempt_of_takes (a := { texts := [text] }) htakes
    simp only [hclosed, advance_advance, Option.none_or]
    rfl
  | some f' =>
    have hfails : (u.advance (k + 1) (s.calm.texts.take k)).FailsBehind 0 f' :=
      ⟨fun j hj => absurd hj (Nat.not_lt_zero j), hnumber ▸ hnext⟩
    have hfirst : 0 < [text].length := Nat.one_pos
    have hclosed := attempt_of_fails (a := { texts := [text] }) hfails hfirst
    simp only [hclosed, advance_advance, Option.some_or, List.take_zero, List.append_nil]

/-- Any other write that fails is the last one that is attempted. Behind one of the line a look-up
that is refused is told instead. -/
theorem run_of_fails_unbracketed (h : u.FailsBehind k f) (hk : k < s.calm.texts.length)
    (hfree : ¬ (s.opening.texts.length ≤ k ∧ k < (s.opening.texts ++ s.line.texts).length ∧
      s.closing.texts ≠ [])) :
    s.run u = (some (if s.opening.texts.length ≤ k ∧
        k < (s.opening.texts ++ s.line.texts).length then s.closing.failure.getD f else f),
      u.advance (k + 1) (s.calm.texts.take k)) := by
  by_cases hopening : k < s.opening.texts.length
  · rw [run_of_fails_opening h hopening, if_neg fun hline => Nat.not_le.mpr hopening hline.1]
  have hlow : s.opening.texts.length ≤ k := Nat.le_of_not_lt hopening
  have hhealthy : s.opening.failure = none := by
    cases hfailure : s.opening.failure with
    | none => rfl
    | some f' =>
      rw [Script.calm_of_failure hfailure] at hk
      exact absurd hk hopening
  by_cases hline : k < (s.opening.texts ++ s.line.texts).length
  · have hclosing : s.closing.texts = [] := by
      by_contra hsome
      exact hfree ⟨hlow, hline, hsome⟩
    rw [run_of_fails_line h hhealthy hlow hline, if_pos ⟨hlow, hline⟩]
    simp only [Attempt.run, hclosing, Destination.writeAll, Option.none_or]
    cases s.closing.failure <;> rfl
  · rw [run_of_fails_closing h hhealthy (Nat.le_of_not_lt hline) hk,
      if_neg fun hinside => hline hinside.2]

end UnreliableSink

/-- A recorder is not told apart from the unreliable destination that it is. -/
theorem Recorder.alike_unreliable :
    Destination.Alike fun (r : Recorder) (u : UnreliableSink) => r.unreliable = u where
  write := by
    rintro r u rfl text
    simp only [Destination.write, Recorder.write, UnreliableSink.write, Recorder.unreliable]
    split
    · exact .intro _ rfl
    · exact .intro _ rfl
  ready hr := .intro none hr

/-! ### Messages -/

theorem Display.render_of_aux {σ : Type} [Destination σ] (d : Display σ) {m : Message}
    (haux : m.aux = none) (caps : Option CapabilitySet) (v : Viewport) :
    d.render caps v m =
      (((d.grid.bracket m caps v).run d.out).1,
        { grid := d.grid.next m
          out := ((d.grid.bracket m caps v).run d.out).2
          handedOn := d.handedOn }) := by
  have hscript := d.grid.script_of_aux caps v haux
  rw [render_eq_script, hscript]
  simp [haux]

/-- Moving back is one write or one look-up that is refused, for a row on a terminal and for
nothing else. -/
theorem Grid.closing_isOne_iff (g : Grid) (m : Message) (caps : Option CapabilitySet) :
    (g.closing m caps).texts.length + (g.closing m caps).failure.toList.length =
      if (rowId? m).isSome ∧ caps.isSome then 1 else 0 := by
  cases hid : rowId? m with
  | none =>
    rw [(g.bracket_bare caps (.inl hid)).2]
    rfl
  | some id =>
    cases caps with
    | none =>
      rw [(g.bracket_bare none (.inr rfl)).2]
      rfl
    | some set =>
      rw [closing_of_row g hid, CapabilitySet.cursorDown_ofRows, if_neg (g.ne_zero_distance id),
        CapabilitySet.write]
      cases set.lookup "cud" [.ofNat ((g.reserve id).distance id)] with
      | ok text => rfl
      | error f => rfl

/-- Behind the first write that fails the cursor moves back if that was a write of the line. -/
theorem Grid.run_bracket_of_fails (g : Grid) (m : Message) (caps : Option CapabilitySet)
    (v : Viewport) {u : UnreliableSink} {k : Nat} {f : Failure} (hfails : u.FailsBehind k f)
    (hk : k < (g.bracket m caps v).calm.texts.length) :
    let s := g.bracket m caps v
    let inLine := s.opening.texts.length ≤ k ∧ k < (s.opening.texts ++ s.line.texts).length
    s.run u =
      if inLine ∧ s.closing.texts ≠ [] then
        match u.failing (u.attempts + k + 2) with
        | none => (some f, u.advance (k + 2) (s.calm.texts.take k ++ s.closing.texts))
        | some f' => (some f', u.advance (k + 2) (s.calm.texts.take k))
      else
        (some (if inLine then s.closing.failure.getD f else f),
          u.advance (k + 1) (s.calm.texts.take k)) := by
  intro s inLine
  split
  case isTrue hline =>
    obtain ⟨⟨hlow, hhigh⟩, hsome⟩ := hline
    have hhealthy : s.opening.failure = none := by
      cases hfailure : s.opening.failure with
      | none => rfl
      | some f' =>
        rw [Script.calm_of_failure hfailure] at hk
        exact absurd hlow (Nat.not_le.mpr hk)
    obtain ⟨text, htext⟩ : ∃ text, s.closing = { texts := [text] } := by
      rcases g.closing_cases m caps with (htext | ⟨f', hclosing⟩) | ⟨-, hclosing⟩
      · exact htext
      · exact absurd (congrArg Attempt.texts hclosing) hsome
      · exact absurd (congrArg Attempt.texts hclosing) hsome
    exact UnreliableSink.run_of_fails_bracketed hfails hhealthy hlow hhigh htext
  case isFalse hfree =>
    exact UnreliableSink.run_of_fails_unbracketed hfails hk fun h => hfree ⟨⟨h.1, h.2.1⟩, h.2.2⟩

/-- Whichever writes fail, a message that is not handed on writes its opening, its line and its
closing up to the first write that fails. If that one is a write of the line, the closing is still
attempted, and kept if it is taken; nothing else is written. The failure of the last write that
fails is told, or that of the look-up for the closing if it is refused, and what the message fails
with by itself only if no write fails: with the error that it reports, unless a look-up is refused.
The rows are those that there are if no write fails. The same holds of a recorder, whichever writes
it refuses. -/
theorem interrupted_message_moves_back (d : Display UnreliableSink) (caps : Option CapabilitySet)
    (v : Viewport) (m : Message) (haux : m.aux = none) :
    let opening := d.grid.opening m caps
    let line := m.line caps v
    let closing := d.grid.closing m caps
    let own := opening.failure.or (closing.failure.or line.failure)
    let writes := opening.texts ++
      if opening.failure.isSome then [] else line.texts ++ closing.texts
    let reported := m.reportedError.map Failure.ofReported
    let calm : Display UnreliableSink := { d with out := { d.out with failing := fun _ => none } }
    let undisturbed := calm.render caps v m
    let shown := d.render caps v m
    (undisturbed.1 = own ∧ undisturbed.2.out.written = d.out.written ++ writes ∧
      closing.texts.length + closing.failure.toList.length =
        (if (Grid.rowId? m).isSome ∧ caps.isSome then 1 else 0) ∧
      (m.reportedError ≠ none → line.texts = [])) ∧
    (d.grid.IsGranted caps m →
      own = reported ∧ opening.failure = none ∧ closing.failure = none) ∧
    (d.out.Takes writes.length ∨ ∃ k f, k < writes.length ∧ d.out.FailsBehind k f) ∧
    (d.out.Takes writes.length →
      shown.1 = own ∧ shown.2.out.written = d.out.written ++ writes) ∧
    (∀ k f, d.out.FailsBehind k f → k < writes.length →
      let taken := d.out.written ++ writes.take k
      let inLine := opening.texts.length ≤ k ∧ k < (opening.texts ++ line.texts).length
      if inLine ∧ closing.texts ≠ [] then
        match d.out.failing (d.out.attempts + k + 2) with
        | none => shown.1 = some f ∧ shown.2.out.written = taken ++ closing.texts
        | some f' => shown.1 = some f' ∧ shown.2.out.written = taken
      else
        shown.1 = some (if inLine then closing.failure.getD f else f) ∧
          shown.2.out.written = taken) ∧
    (shown.2.grid = undisturbed.2.grid ∧ shown.2.grid = d.grid.next m ∧
      shown.2.handedOn = d.handedOn) ∧
    ∀ r : Recorder, r.unreliable = d.out →
      let recorded := ({ d with out := r } : Display Recorder).render caps v m
      recorded.1 = shown.1 ∧ recorded.2.out.unreliable = shown.2.out ∧
        recorded.2.grid = shown.2.grid := by
  intro opening line closing own writes reported calm undisturbed shown
  let script := d.grid.bracket m caps v
  have hshown : shown = _ := d.render_of_aux haux caps v
  have hundisturbed : undisturbed = _ := calm.render_of_aux haux caps v
  have hwrites : script.calm.texts = writes := script.texts_calm
  have hown : script.calm.failure = own := script.failure_calm
  have hcalm : script.run calm.out = _ := UnreliableSink.run_of_takes fun _ _ => rfl
  rw [hown, hwrites] at hcalm
  refine ⟨⟨?_, ?_, d.grid.closing_isOne_iff m caps, ?_⟩, ?_,
    d.out.takes_or_failsBehind writes.length, ?_, ?_, ⟨?_, ?_, ?_⟩, ?_⟩
  · rw [hundisturbed, hcalm]
  · rw [hundisturbed, hcalm]
    rfl
  · intro hreported
    obtain ⟨e, he⟩ := Option.ne_none_iff_exists'.mp hreported
    exact congrArg Attempt.texts (m.line_of_reported he caps v)
  · intro hgranted
    obtain ⟨hopening, hline, hclosing⟩ := hgranted.parts v haux
    refine ⟨?_, hopening, hclosing⟩
    simp only [own, opening, closing, line, hopening, hclosing, hline, Option.none_or, reported]
  · intro htakes
    rw [← hwrites] at htakes
    have hrun : script.run d.out = _ := UnreliableSink.run_of_takes htakes
    rw [hown, hwrites] at hrun
    rw [hshown, hrun]
    exact ⟨rfl, rfl⟩
  · intro k f hfails hk
    rw [← hwrites] at hk ⊢
    have hrun := d.grid.run_bracket_of_fails m caps v hfails hk
    dsimp only
    split
    case isTrue hline =>
      have hback : script.run d.out = _ := hrun.trans (if_pos hline)
      rw [hshown, hback]
      cases d.out.failing (d.out.attempts + k + 2) with
      | none => exact ⟨rfl, (List.append_assoc _ _ _).symm⟩
      | some f' => exact ⟨rfl, rfl⟩
    case isFalse hfree =>
      have hlast : script.run d.out = _ := hrun.trans (if_neg hfree)
      rw [hshown, hlast]
      exact ⟨rfl, rfl⟩
  · rw [hshown, hundisturbed]
  · rw [hshown]
  · rw [hshown]
  · intro r hr
    have halike : Display.Alike (fun (r : Recorder) (u : UnreliableSink) => r.unreliable = u)
        { d with out := r } d := ⟨rfl, rfl, hr⟩
    have hboth := halike.render Recorder.alike_unreliable caps v m
    exact ⟨hboth.failure, hboth.states.out, hboth.states.grid⟩

/-- The fourth write is one of the line, and the cursor moves back though it fails. -/
theorem interrupted_line_moves_back :
    let m : Message := { id := Text.ofString "a", progress := Text.ofString "1" }
    let failing (n : Nat) : Option Failure := if n = 4 then some (.transfer "lost") else none
    let d : Display UnreliableSink := { grid := ({} : Grid).next m, out := { failing } }
    let shown := d.render (some .labels) {} m
    m.aux = none ∧
    m.line (some .labels) {} = { texts := ["<el1:>", "<el:>", "\r", "a: ", " 1\r"] } ∧
    shown.1 = some (.transfer "lost") ∧
    shown.2.out.written = ["<cuu:1>", "<el1:>", "<el:>", "<cud:1>"] := by
  intro m failing d shown
  have hline : m.line (some .labels) {} =
      { texts := ["<el1:>", "<el:>", "\r", "a: ", " 1\r"] } := by decide +kernel
  have hopening : d.grid.opening m (some .labels) = { texts := ["<cuu:1>"] } := by decide +kernel
  have hclosing : d.grid.closing m (some .labels) = { texts := ["<cud:1>"] } := by decide +kernel
  have htakes : d.out.Takes 3 := by
    unfold UnreliableSink.Takes
    decide
  have hfails : d.out.FailsBehind 3 (.transfer "lost") := ⟨htakes, rfl⟩
  obtain ⟨_, _, _, _, hinterrupted, _⟩ :=
    interrupted_message_moves_back d (some .labels) {} m rfl
  rw [hline, hopening, hclosing] at hinterrupted
  have hback := hinterrupted 3 _ hfails (by decide)
  rw [if_pos (by decide)] at hback
  exact ⟨rfl, hline, hback⟩

/-- If the look-up that moves the cursor back is refused, its failure is told although the message
reports none: if no write fails, and in place of the failure of a write of the line. -/
theorem refused_move_is_told :
    let m : Message := { id := Text.ofString "a", progress := Text.ofString "1" }
    let caps := some (CapabilitySet.ofEntry (.overwide 107 'B'))
    let lost := Failure.transfer "lost"
    let calm : Display UnreliableSink :=
      { grid := ({} : Grid).next m, out := { failing := fun _ => none } }
    let d : Display UnreliableSink :=
      { calm with out := { failing := fun n => if n = 4 then some lost else none } }
    m.aux = none ∧ m.reportedError = none ∧ d.out.FailsBehind 3 lost ∧
      (calm.render caps {} m).1 = some .oversized ∧ (d.render caps {} m).1 = some .oversized := by
  intro m caps lost calm d
  have htakes : d.out.Takes 3 := by
    unfold UnreliableSink.Takes
    decide
  exact ⟨rfl, rfl, ⟨htakes, rfl⟩, by decide +kernel, by decide +kernel⟩

end LiveProgress
