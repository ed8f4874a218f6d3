import LiveProgress.Display.History
import LiveProgress.Output.Recorder
import LiveProgress.Proofs.Display.Compacted

/-!
# The rows of the grid

Showing a message changes the rows of the grid before anything is written, so no failure of
the message or of the destination comes between. Along any history the grid holds the
operations since the last message that ended one, each in the row of its first appearance.
-/

namespace LiveProgress

/-! ### One message -/

namespace Message

variable {m : Message}

theorem operation?_eq_some_iff {id : Text} :
    m.operation? = some id ↔ m.aux = none ∧ Grid.rowId? m = some id := by
  unfold operation?
  cases m.aux with
  | some payload => simp
  | none => simp

/-- A message without an operation that leaves the grid alone has a payload. -/
theorem aux_of_operation?_eq_none (h : m.endsGrid = false) (hop : m.operation? = none) :
    m.aux.isSome = true := by
  unfold operation? at hop
  cases haux : m.aux with
  | some payload => rfl
  | none =>
    rw [haux] at hop
    simp only at hop
    simp [endsGrid, haux, hop] at h

end Message

namespace Grid

theorem react_fst (g : Grid) (m : Message) (caps : Option CapabilitySet) (v : Viewport) :
    (g.react m caps v).1 = g.next m := by
  unfold react next
  cases m.aux with
  | some payload => rfl
  | none =>
    cases rowId? m with
    | some id => rfl
    | none => rfl

theorem react_snd (g : Grid) {m : Message} (h : m.aux = none) (caps : Option CapabilitySet)
    (v : Viewport) : (g.react m caps v).2 = .render (g.script m caps v) := by
  unfold script react
  rw [h]
  cases rowId? m with
  | some id => rfl
  | none => rfl

theorem next_of_endsGrid (g : Grid) {m : Message} (h : m.endsGrid = true) : g.next m = {} := by
  simp only [Message.endsGrid, Bool.and_eq_true, Option.isNone_iff_eq_none] at h
  simp only [next, h.1, h.2]

theorem next_of_aux (g : Grid) {m : Message} (h : m.aux.isSome = true) : g.next m = g := by
  obtain ⟨payload, h⟩ := Option.isSome_iff_exists.mp h
  simp only [next, h]

theorem next_of_operation (g : Grid) {m : Message} {id : Text} (h : m.operation? = some id) :
    g.next m = g.reserve id := by
  obtain ⟨haux, hid⟩ := Message.operation?_eq_some_iff.mp h
  simp only [next, haux, hid]

/-- Messages that do not end the grid only add rows below those there are. -/
theorem rows_isPrefix_next (g : Grid) {m : Message} (h : m.endsGrid = false) :
    g.rows <+: (g.next m).rows := by
  cases hop : m.operation? with
  | none =>
    have hsame := next_of_aux g (Message.aux_of_operation?_eq_none h hop)
    simp only [hsame, List.prefix_rfl]
  | some id =>
    rw [next_of_operation g hop]
    by_cases hmem : id ∈ g.rows
    · simp only [reserve_of_mem hmem, List.prefix_rfl]
    · rw [reserve_of_not_mem hmem]
      exact List.prefix_append _ _

/-- The row of an operation is its place among those of the grid. -/
theorem rowOf?_eq_some_iff {g : Grid} (h : g.rows.Nodup) {id : Text} {row : Nat} :
    g.rowOf? id = some row ↔ g.rows[row]? = some id := by
  rw [rowOf?, List.idxOf?_eq_some_iff]
  constructor
  · rintro ⟨hlt, hget, _⟩
    rw [List.getElem?_eq_getElem hlt, hget]
  · intro hget
    obtain ⟨hlt, hget⟩ := List.getElem?_eq_some_iff.mp hget
    refine ⟨hlt, hget, fun j hj hgetj => ?_⟩
    have hsame := (List.Nodup.getElem_inj_iff h).mp (hgetj.trans hget.symm)
    omega

/-- The cursor moves by the distance from the row of an operation to the row below the grid,
which is at least one row and at most the whole grid. -/
theorem distance_reserve (g : Grid) (id : Text) :
    ∃ row, (g.reserve id).rowOf? id = some row ∧
      (g.reserve id).distance id + row = (g.reserve id).size ∧
      1 ≤ (g.reserve id).distance id := by
  have hmem : id ∈ (g.reserve id).rows := by
    by_cases h : id ∈ g.rows
    · rwa [reserve_of_mem h]
    · simp [reserve_of_not_mem h]
  obtain ⟨row, hrow⟩ := Option.isSome_iff_exists.mp (List.isSome_idxOf?.mpr hmem)
  obtain ⟨hlt, _⟩ := List.idxOf?_eq_some_iff.mp hrow
  have hdistance : (g.reserve id).distance id = (g.reserve id).size - row := by
    simp only [distance, rowOf?, hrow, Option.getD_some]
  have hlt : row < (g.reserve id).size := hlt
  refine ⟨row, hrow, ?_, ?_⟩
  · omega
  · omega

/-! ### Histories -/

/-- A history leaves the operations of its last grid, in the order in which they came. -/
theorem rows_after (messages : List Message) :
    (({} : Grid).after messages).rows = History.operations (History.current messages) := by
  induction messages using List.reverseRecOn with
  | nil => rfl
  | append_singleton messages m ih =>
    have hnext : ({} : Grid).after (messages ++ [m]) = (({} : Grid).after messages).next m :=
      after_append _ messages [m]
    rw [hnext, History.current, List.rtakeWhile_concat]
    cases h : m.endsGrid with
    | true =>
      rw [next_of_endsGrid _ h]
      rfl
    | false =>
      -- Within a grid the message adds its operation at the end, if it is a new one.
      rw [if_pos (by simp), History.operations, List.filterMap_append]
      rw [History.operations] at ih
      cases hop : m.operation? with
      | none =>
        rw [next_of_aux _ (Message.aux_of_operation?_eq_none h hop), ih]
        simp [hop, History.current]
      | some id =>
        have hids : [m].filterMap Message.operation? = [id] := by simp [hop]
        rw [next_of_operation _ hop, hids, eraseDups_concat]
        split
        · rename_i hmem
          rw [reserve_of_mem (by rw [ih]; exact List.mem_eraseDups.mpr hmem), ih]
          rfl
        · rename_i hmem
          rw [reserve_of_not_mem (by rw [ih]; exact mt List.mem_eraseDups.mp hmem), ih]
          rfl

theorem nodup_after (messages : List Message) : (({} : Grid).after messages).rows.Nodup := by
  rw [rows_after]
  exact nodup_eraseDups _

/-- Rows stay where they are until a message ends the grid. -/
theorem rows_isPrefix_after (g : Grid) {messages : List Message}
    (h : ∀ m ∈ messages, m.endsGrid = false) : g.rows <+: (g.after messages).rows := by
  induction messages generalizing g with
  | nil => exact List.prefix_rfl
  | cons m messages ih =>
    obtain ⟨hm, hrest⟩ := List.forall_mem_cons.mp h
    exact (g.rows_isPrefix_next hm).trans (ih (g.next m) hrest)

end Grid

namespace Display

variable {σ : Type} [Destination σ]

/-- A message is shown by carrying out its script, which writes nothing for a payload. -/
theorem render_eq_script (d : Display σ) (caps : Option CapabilitySet)
    (v : Viewport) (m : Message) :
    d.render caps v m =
      (((d.grid.script m caps v).run d.out).1,
        { grid := d.grid.next m
          out := ((d.grid.script m caps v).run d.out).2
          handedOn := d.handedOn ++ [m].filter (·.aux.isSome) }) := by
  rw [← Grid.react_fst d.grid m caps v]
  unfold render Grid.script Grid.react
  cases haux : m.aux with
  | some payload =>
    simp [haux, Script.run, Attempt.run, Destination.writeAll]
  | none =>
    cases Grid.rowId? m with
    | some id => simp [haux]
    | none => simp [haux]

/-- The grid changes alike whether or not the message and its writes succeed. -/
theorem grid_render (d : Display σ) (caps : Option CapabilitySet) (v : Viewport) (m : Message) :
    (d.render caps v m).2.grid = d.grid.next m := by
  rw [render_eq_script]

theorem grid_renderAll (d : Display σ) (caps : Option CapabilitySet)
    (calls : List (Viewport × Message)) :
    (d.renderAll caps calls).grid = d.grid.after (calls.map Prod.snd) := by
  induction calls generalizing d with
  | nil => rfl
  | cons call calls ih =>
    rw [renderAll, ih, grid_render]
    rfl

end Display

/-- After any history, whatever failed in it, the rows of the grid are counted from zero and
belong to the operations since the last message that ended a grid, in the order of their first
appearance. They stay until such a message comes, and then there are none, even if showing it
fails. The cursor moves over at least one row and at most all of them. -/
theorem rows_follow_first_appearance {σ : Type} [Destination σ] (caps : Option CapabilitySet)
    (out : σ) (calls : List (Viewport × Message)) :
    let d := ({ out } : Display σ).renderAll caps calls
    let operations := History.operations (History.current (calls.map Prod.snd))
    (∀ id row, d.grid.rowOf? id = some row ↔ operations[row]? = some id) ∧
    (∀ row, row < d.grid.size ↔ ∃ id, d.grid.rowOf? id = some row) ∧
    (∀ more : List (Viewport × Message), (∀ call ∈ more, call.2.endsGrid = false) →
      ∀ id row, d.grid.rowOf? id = some row →
        (d.renderAll caps more).grid.rowOf? id = some row) ∧
    (∀ v m, m.endsGrid = true → (d.render caps v m).2.grid = {}) ∧
    (∀ v m, m.aux.isSome = true → (d.render caps v m).2.grid = d.grid) ∧
    ∀ v m id, m.operation? = some id →
      let grid := (d.render caps v m).2.grid
      ∃ row distance, grid.rowOf? id = some row ∧ distance + row = grid.size ∧
        1 ≤ distance ∧ distance ≤ grid.size ∧
        ∀ set, caps = some set → ∃ script, (d.grid.react m caps v).2 = .render script ∧
          script.opening =
            Attempt.andThen { texts := if (d.grid.rowOf? id).isSome then [] else ["\n"] }
              (set.cursorUp (.ofRows distance)) ∧
          script.closing = set.cursorDown (.ofRows distance) := by
  intro d operations
  have hgrid : d.grid = ({} : Grid).after (calls.map Prod.snd) :=
    Display.grid_renderAll { out } caps calls
  have hrows : d.grid.rows = operations := by
    rw [hgrid]
    exact Grid.rows_after _
  have hrow (id : Text) (row : Nat) :
      d.grid.rowOf? id = some row ↔ d.grid.rows[row]? = some id := by
    apply Grid.rowOf?_eq_some_iff
    rw [hgrid]
    exact Grid.nodup_after _
  refine ⟨?_, ?_, ?_, ?_, ?_, ?_⟩
  · rw [← hrows]
    exact hrow
  · intro row
    simp only [hrow, ← Option.isSome_iff_exists, Grid.size]
    simp
  · intro more hmore id row h
    have hget := (hrow id row).mp h
    have hlt := (List.getElem?_eq_some_iff.mp hget).choose
    have hall : (d.renderAll caps more).grid =
        ({} : Grid).after (calls.map Prod.snd ++ more.map Prod.snd) := by
      rw [Display.grid_renderAll, hgrid, Grid.after_append]
    have hmessages : ∀ m ∈ more.map Prod.snd, m.endsGrid = false := by
      rw [List.forall_mem_map]
      exact hmore
    obtain ⟨below, hbelow⟩ := d.grid.rows_isPrefix_after hmessages
    rw [← d.grid_renderAll caps] at hbelow
    rw [Grid.rowOf?_eq_some_iff (by rw [hall]; exact Grid.nodup_after _), ← hbelow,
      List.getElem?_append_left hlt]
    exact hget
  · intro v m h
    rw [Display.grid_render, Grid.next_of_endsGrid _ h]
  · intro v m h
    rw [Display.grid_render, Grid.next_of_aux _ h]
  · intro v m id h
    obtain ⟨haux, hid⟩ := Message.operation?_eq_some_iff.mp h
    obtain ⟨row, hplace, hsum, hpos⟩ := d.grid.distance_reserve id
    simp only [Display.grid_render, Grid.next_of_operation _ h]
    refine ⟨row, (d.grid.reserve id).distance id, hplace, hsum, hpos, by omega, ?_⟩
    rintro set rfl
    refine ⟨d.grid.rowScript id m (some set) v, ?_, rfl, rfl⟩
    simp only [Grid.react, haux, hid]

/-- An error and a payload leave the rows as they are, refused writes too: `b` came second
behind the plain text, and stays in the second row. -/
theorem row_outlives_failures :
    let text := Text.ofString
    let progress (id : String) : Message := { id := text id, progress := text "1" }
    let caps := some CapabilitySet.empty
    let calls : List (Viewport × Message) :=
      [({}, progress "b"), ({}, { error := text "lost" }), ({}, progress "a"), ({}, progress "b")]
    let more : List (Viewport × Message) :=
      [({}, { progress "b" with error := text "broken" }),
        ({}, { progress "c" with aux := some .null }), ({}, progress "c")]
    let d := ({ out := { refused := [2, 7] } } : Display Recorder).renderAll caps calls
    (∀ call ∈ more, call.2.endsGrid = false) ∧ d.grid.rowOf? (text "b") = some 1 ∧
      (d.renderAll caps more).grid.rowOf? (text "b") = some 1 := by
  intro text progress caps calls more d
  obtain ⟨hrow, _, hkept, _⟩ :=
    rows_follow_first_appearance caps ({ refused := [2, 7] } : Recorder) calls
  have hmore : ∀ call ∈ more, call.2.endsGrid = false := by decide
  have hb : d.grid.rowOf? (text "b") = some 1 := by
    rw [hrow]
    decide
  exact ⟨hmore, hb, hkept more hmore _ _ hb⟩

end LiveProgress
