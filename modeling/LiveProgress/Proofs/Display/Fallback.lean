import LiveProgress.Proofs.Display.Ledger
import LiveProgress.Proofs.Terminal.Screen
import LiveProgress.Proofs.Terminfo.XtermLike
import LiveProgress.Terminfo.Encoding

/-!
# The plain sequences stand in for an entry

A message writes what clears its line and what moves the cursor to its row and back, and these
are all that a capability set is asked for. Two sets that agree on them up to the size of a grid
show a message alike, and so a whole history if they agree up to the size of each of its grids.
-/

namespace LiveProgress

/-- Sets that clear lines alike, and move the cursor alike over up to a number of rows. -/
structure CapabilitySet.AgreeUpTo (most : Nat) (a b : CapabilitySet) : Prop where
  clearLine : a.clearLine = b.clearLine
  cursorUp : ∀ rows, rows ≤ most → a.cursorUp (.ofRows rows) = b.cursorUp (.ofRows rows)
  cursorDown : ∀ rows, rows ≤ most → a.cursorDown (.ofRows rows) = b.cursorDown (.ofRows rows)

variable {a b : CapabilitySet} {m : Message}

theorem Message.line_congr (hclear : a.clearLine = b.clearLine) (v : Viewport) :
    m.line (some a) v = m.line (some b) v := by
  unfold line
  cases m.reportedError with
  | some e => rfl
  | none => simp only [hclear]

namespace Grid

theorem rowScript_congr {g : Grid} {id : Text} (h : a.AgreeUpTo (g.reserve id).size b)
    (v : Viewport) : g.rowScript id m (some a) v = g.rowScript id m (some b) v := by
  obtain ⟨row, _, hsum, _⟩ := g.distance_reserve id
  have hup := h.cursorUp _ (show (g.reserve id).distance id ≤ (g.reserve id).size by omega)
  have hdown := h.cursorDown _ (show (g.reserve id).distance id ≤ (g.reserve id).size by omega)
  simp only [rowScript, Message.line_congr h.clearLine, hup, hdown]

theorem script_congr {g : Grid} (h : a.AgreeUpTo (g.next m).size b) (v : Viewport) :
    g.script m (some a) v = g.script m (some b) v := by
  unfold script react
  unfold next at h
  cases haux : m.aux with
  | some payload => rfl
  | none =>
    rw [haux] at h
    cases hid : rowId? m with
    | some id =>
      rw [hid] at h
      exact rowScript_congr h v
    | none => simp only [Message.line_congr h.clearLine]

end Grid

namespace Display

variable {σ : Type} [Destination σ]

/-- A message is shown alike with sets that agree up to the size of its grid. -/
theorem render_congr {d : Display σ} (h : a.AgreeUpTo (d.grid.next m).size b) (v : Viewport) :
    d.render (some a) v m = d.render (some b) v m := by
  rw [render_eq_script, render_eq_script, Grid.script_congr h]

theorem renderAll_congr {d : Display σ} {calls : List (Viewport × Message)}
    (h : ∀ past, past <+: calls.map Prod.snd → a.AgreeUpTo (d.grid.after past).size b) :
    d.renderAll (some a) calls = d.renderAll (some b) calls := by
  induction calls generalizing d with
  | nil => rfl
  | cons call calls ih =>
    obtain ⟨v, m⟩ := call
    have hnow : d.render (some a) v m = d.render (some b) v m :=
      render_congr (h [m] (by simp)) v
    have hgrid : (d.render (some b) v m).2.grid = d.grid.next m := grid_render d (some b) v m
    rw [renderAll, renderAll, hnow]
    refine ih fun past hpast => ?_
    rw [hgrid]
    exact h (m :: past) (by simpa using hpast)

theorem run_congr {d : Display σ} {messages : List Message}
    (h : ∀ past, past <+: messages → a.AgreeUpTo (d.grid.after past).size b) (v : Viewport) :
    d.run (some a) v messages = d.run (some b) v messages := by
  induction messages generalizing d with
  | nil => rfl
  | cons m messages ih =>
    have hnow : d.advance (some a) v m = d.advance (some b) v m := by
      rw [advance, advance, render_congr (h [m] (by simp)) v]
    have hgrid : (d.advance (some b) v m).2.grid = d.grid.next m := by
      rw [← grid_render d (some b) v m, advance]
      generalize d.render (some b) v m = result
      obtain ⟨_ | _, _⟩ := result <;> rfl
    rw [run, run, hnow]
    generalize d.advance (some b) v m = result at hgrid ⊢
    obtain ⟨_ | f, d'⟩ := result
    · refine ih fun past hpast => ?_
      rw [hgrid]
      exact h (m :: past) (by simpa using hpast)
    · rfl

end Display

namespace CapabilitySet

theorem agree_plain {e : Terminfo.Entry} (h : e.IsXtermLike) (most : Nat) :
    (ofEntry e).AgreeUpTo most plain where
  clearLine := clearLine_ofEntry h
  cursorUp rows _ := cursorUp_ofEntry h rows
  cursorDown rows _ := cursorDown_ofEntry h rows

/-- A count of rows of up to 53 bits is written with all its digits as a number, too. -/
theorem agree_empty {most : Nat} (h : most < significandBound) : plain.AgreeUpTo most empty where
  clearLine := rfl
  cursorUp rows hrows := by
    rw [LineCount.ofRows_eq_ofNumber (Nat.lt_of_le_of_lt hrows h)]
    rfl
  cursorDown rows hrows := by
    rw [LineCount.ofRows_eq_ofNumber (Nat.lt_of_le_of_lt hrows h)]
    rfl

end CapabilitySet
namespace Grid

theorem size_next_le (g : Grid) (m : Message) : (g.next m).size ≤ g.size + 1 := by
  unfold next
  split
  · exact Nat.le_succ _
  · next id =>
    unfold reserve
    split
    · exact Nat.le_succ _
    · simp [size]
  · exact Nat.zero_le _

/-- A grid has no more rows than messages have come. -/
theorem size_after_le (g : Grid) (messages : List Message) :
    (g.after messages).size ≤ g.size + messages.length := by
  induction messages generalizing g with
  | nil => exact Nat.le_refl _
  | cons m messages ih =>
    have hnext := g.size_next_le m
    have hrest := ih (g.next m)
    rw [List.length_cons]
    change ((g.next m).after messages).size ≤ _
    omega

end Grid

/-- With the entry of a terminal like xterm all messages are shown as with the plain sequences,
whatever fails: each call behind any history, and a whole run. The plain sequences are those that
stand in for capabilities that a set lacks, for any line and any number. So all messages are shown
as without an entry, unless a grid has more rows than a number counts one by one. -/
theorem entry_shows_as_no_entry {e : Terminfo.Entry} (h : e.IsXtermLike) {σ : Type}
    [Destination σ] (out : σ) (calls : List (Viewport × Message)) (messages : List Message)
    (v : Viewport) (m : Message) :
    let fresh : Display σ := { out }
    let shown (caps : CapabilitySet) := (fresh.renderAll (some caps) calls).render (some caps) v m
    let ran (caps : CapabilitySet) := fresh.run (some caps) v messages
    shown (.ofEntry e) = shown .plain ∧ ran (.ofEntry e) = ran .plain ∧
    CapabilitySet.plain.clearLine = CapabilitySet.empty.clearLine ∧
    (∀ lines : Number,
      CapabilitySet.plain.cursorUp (.ofNumber lines) =
        CapabilitySet.empty.cursorUp (.ofNumber lines) ∧
      CapabilitySet.plain.cursorDown (.ofNumber lines) =
        CapabilitySet.empty.cursorDown (.ofNumber lines)) ∧
    ((∀ past, past <+: calls.map Prod.snd ++ [m] →
        (({} : Grid).after past).size < significandBound) →
      shown (.ofEntry e) = shown .empty) ∧
    ((∀ past, past <+: messages → (({} : Grid).after past).size < significandBound) →
      ran (.ofEntry e) = ran .empty) := by
  have hplain := CapabilitySet.agree_plain h
  have hshown {a b : CapabilitySet} (hagree : ∀ past, past <+: calls.map Prod.snd ++ [m] →
      a.AgreeUpTo (({} : Grid).after past).size b) :
      (({ out } : Display σ).renderAll (some a) calls).render (some a) v m =
        (({ out } : Display σ).renderAll (some b) calls).render (some b) v m := by
    have hcalls : ({ out } : Display σ).renderAll (some a) calls =
        ({ out } : Display σ).renderAll (some b) calls :=
      Display.renderAll_congr fun past hpast => hagree past (hpast.trans (List.prefix_append _ _))
    rw [hcalls]
    apply Display.render_congr
    rw [Display.grid_renderAll]
    have hlast := hagree _ (List.prefix_refl _)
    rwa [Grid.after_append] at hlast
  refine ⟨hshown fun _ _ => hplain _, Display.run_congr (fun _ _ => hplain _) v, rfl,
    fun _ => ⟨rfl, rfl⟩, fun hsize => ?_, fun hsize => ?_⟩
  · exact (hshown fun _ _ => hplain _).trans
      (hshown fun past hpast => CapabilitySet.agree_empty (hsize past hpast))
  · exact (Display.run_congr (fun _ _ => hplain _) v).trans
      (Display.run_congr (fun past hpast => CapabilitySet.agree_empty (hsize past hpast)) v)

/-- The entry of a terminal like xterm that asks for delays. -/
def Terminfo.delayedXterm : Terminfo.Entry :=
  Description.entry {
    names := ["xterm-slow"]
    strings := [(6, Text.ofString "\x1b[K$<3>"), (269, Text.ofString "\x1b[1K"),
      (114, Text.ofString "\x1b[%p1%dA$<5*/>$<1.5>"), (107, Text.ofString "\x1b[%p1%dB"),
      (5, Text.ofString "\x1b[H\x1b[2J$<50>")] }

/-- Two rows are shown as without an entry, also if the fourth write is refused. -/
theorem delayedXterm_shows_as_no_entry :
    let progress (id : String) : Message :=
      { id := Text.ofString id, progress := Text.ofString "1" }
    let calls : List (Viewport × Message) := [({}, progress "a"), ({}, progress "b")]
    let fresh : Display Recorder := { out := { refused := [4] } }
    let shown (caps : CapabilitySet) :=
      (fresh.renderAll (some caps) calls).render (some caps) {} (progress "a")
    Terminfo.delayedXterm.IsXtermLike ∧
      shown (.ofEntry Terminfo.delayedXterm) = shown .empty := by
  intro progress calls fresh shown
  have hxterm : Terminfo.delayedXterm.IsXtermLike := {
    el := ⟨[⟨['3'], [], by decide, by decide, by decide, by decide⟩], by decide⟩
    el1 := ⟨[], by decide⟩
    cuu := ⟨[⟨['5'], ['*', '/'], by decide, by decide, by decide, by decide⟩,
      ⟨['1', '.', '5'], [], by decide, by decide, by decide, by decide⟩], by decide⟩
    cud := ⟨[], by decide⟩ }
  obtain ⟨_, _, _, _, hshown, _⟩ :=
    entry_shows_as_no_entry hxterm ({ refused := [4] } : Recorder) calls [] {} (progress "a")
  refine ⟨hxterm, hshown fun past hpast => ?_⟩
  have hsize := Grid.size_after_le {} past
  have hlength : past.length ≤ 3 := hpast.length_le
  exact Nat.lt_of_le_of_lt (Nat.le_trans hsize (Nat.add_le_add_left hlength _)) (by decide)

end LiveProgress
