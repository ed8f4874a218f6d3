import LiveProgress.Proofs.Display.Chunking

/-!
# Displays on like destinations

Two destinations are alike if they answer each write and each wait alike, and are alike
afterwards. A display has no other way to tell them apart, so whatever is shown on one of them is
shown on the other.
-/

namespace LiveProgress

/-- The same failure or none, and states that are alike. -/
inductive AnswersAlike {α β : Type} (R : α → β → Prop) :
    Option Failure × α → Option Failure × β → Prop
  | intro (failure : Option Failure) {a : α} {b : β} (states : R a b) :
      AnswersAlike R (failure, a) (failure, b)

namespace AnswersAlike

variable {α β : Type} {R : α → β → Prop} {x : Option Failure × α} {y : Option Failure × β}

theorem failure (h : AnswersAlike R x y) : x.1 = y.1 := by
  obtain ⟨_, _⟩ := h
  rfl

theorem states (h : AnswersAlike R x y) : R x.2 y.2 := by
  obtain ⟨_, hstates⟩ := h
  exact hstates

end AnswersAlike

variable {σ τ : Type} [Destination σ] [Destination τ] {R : σ → τ → Prop}

/-- Destinations that are alike stay so, and answer alike. -/
structure Destination.Alike (R : σ → τ → Prop) : Prop where
  write : ∀ {a b}, R a b → ∀ text,
    AnswersAlike R (Destination.write a text) (Destination.write b text)
  ready : ∀ {a b}, R a b → AnswersAlike R (Destination.ready a) (Destination.ready b)

namespace Destination.Alike

variable {a : σ} {b : τ}

theorem writeAll (h : Alike R) (hab : R a b) (texts : List String) :
    AnswersAlike R (Destination.writeAll a texts) (Destination.writeAll b texts) := by
  induction texts generalizing a b with
  | nil => exact .intro none hab
  | cons text texts ih =>
    have hwrite := h.write hab text
    simp only [Destination.writeAll]
    generalize Destination.write a text = x at hwrite ⊢
    generalize Destination.write b text = y at hwrite ⊢
    obtain ⟨failure, hout⟩ := hwrite
    cases failure with
    | some f => exact .intro (some f) hout
    | none => exact ih hout

theorem attempt (h : Alike R) (hab : R a b) (attempt : Attempt) :
    AnswersAlike R (attempt.run a) (attempt.run b) := by
  have htexts := h.writeAll hab attempt.texts
  simp only [Attempt.run]
  generalize Destination.writeAll a attempt.texts = x at htexts ⊢
  generalize Destination.writeAll b attempt.texts = y at htexts ⊢
  obtain ⟨broken, hout⟩ := htexts
  exact .intro _ hout

theorem run (h : Alike R) (hab : R a b) (s : Script) : AnswersAlike R (s.run a) (s.run b) := by
  have hopening := h.attempt hab s.opening
  simp only [Script.run]
  generalize s.opening.run a = x at hopening ⊢
  generalize s.opening.run b = y at hopening ⊢
  obtain @⟨failure, a₁, b₁, hopened⟩ := hopening
  cases failure with
  | some f => exact .intro (some f) hopened
  | none =>
    dsimp only
    have hline := h.attempt hopened s.line
    generalize s.line.run a₁ = x at hline ⊢
    generalize s.line.run b₁ = y at hline ⊢
    obtain @⟨broken, a₂, b₂, hwritten⟩ := hline
    dsimp only
    have hclosing := h.attempt hwritten s.closing
    generalize s.closing.run a₂ = x at hclosing ⊢
    generalize s.closing.run b₂ = y at hclosing ⊢
    obtain ⟨stuck, hclosed⟩ := hclosing
    exact .intro _ hclosed

end Destination.Alike

namespace Display

/-- Displays of the same messages on destinations that are alike. -/
structure Alike (R : σ → τ → Prop) (d : Display σ) (d' : Display τ) : Prop where
  grid : d.grid = d'.grid
  handedOn : d.handedOn = d'.handedOn
  out : R d.out d'.out

variable {d : Display σ} {d' : Display τ}

theorem Alike.render (h : Alike R d d') (hR : Destination.Alike R) (caps : Option CapabilitySet)
    (v : Viewport) (m : Message) :
    AnswersAlike (Alike R) (d.render caps v m) (d'.render caps v m) := by
  simp only [Display.render, h.grid]
  rcases d'.grid.react m caps v with ⟨grid, handed | script⟩
  · exact .intro none ⟨rfl, by rw [h.handedOn], h.out⟩
  · have hscript := hR.run h.out script
    dsimp only
    generalize script.run d.out = x at hscript ⊢
    generalize script.run d'.out = y at hscript ⊢
    obtain ⟨failure, hout⟩ := hscript
    exact .intro failure ⟨rfl, h.handedOn, hout⟩

theorem Alike.advance (h : Alike R d d') (hR : Destination.Alike R) (caps : Option CapabilitySet)
    (v : Viewport) (m : Message) :
    AnswersAlike (Alike R) (d.advance caps v m) (d'.advance caps v m) := by
  have hrender := h.render hR caps v m
  simp only [Display.advance]
  generalize d.render caps v m = x at hrender ⊢
  generalize d'.render caps v m = y at hrender ⊢
  obtain @⟨failure, r, r', hrendered⟩ := hrender
  cases failure with
  | some f => exact .intro (some f) hrendered
  | none =>
    dsimp only
    have hready := hR.ready hrendered.out
    generalize Destination.ready r.out = x at hready ⊢
    generalize Destination.ready r'.out = y at hready ⊢
    obtain ⟨failure, hout⟩ := hready
    exact .intro failure ⟨hrendered.grid, hrendered.handedOn, hout⟩

theorem Alike.run (h : Alike R d d') (hR : Destination.Alike R) (caps : Option CapabilitySet)
    (v : Viewport) (messages : List Message) :
    AnswersAlike (Alike R) (d.run caps v messages) (d'.run caps v messages) := by
  induction messages generalizing d d' with
  | nil => exact .intro none h
  | cons m messages ih =>
    have hadvance := h.advance hR caps v m
    simp only [Display.run]
    generalize d.advance caps v m = x at hadvance ⊢
    generalize d'.advance caps v m = y at hadvance ⊢
    obtain ⟨failure, hadvanced⟩ := hadvance
    cases failure with
    | some f => exact .intro (some f) hadvanced
    | none => exact ih hadvanced

end Display

/-- Displays of the same input on destinations that are alike. -/
structure Shown.Alike (R : σ → τ → Prop) (s : Shown σ) (s' : Shown τ) : Prop where
  failure : s.failure = s'.failure
  out : R s.out s'.out
  handedOn : s.handedOn = s'.handedOn
  grid : s.grid = s'.grid
  prelude : s.prelude = s'.prelude
  postlude : s.postlude = s'.postlude

theorem Shown.alike_ofChunks (hR : Destination.Alike R) (o : DisplayOptions) (read : FileReader)
    (chunks : List Chunk) {a : σ} {b : τ} (hab : R a b) :
    Shown.Alike R (Shown.ofChunks o read chunks a) (Shown.ofChunks o read chunks b) := by
  have hstart : Display.Alike R { out := a } { out := b } := ⟨rfl, rfl, hab⟩
  have hrun := hstart.run hR (o.resolve read).1 o.viewport (Message.ofChunks chunks).1
  simp only [Shown.ofChunks, Shown.ofDisplay, Display.feed_eq_run]
  generalize Display.run ({ out := a } : Display σ) _ _ _ = x at hrun ⊢
  generalize Display.run ({ out := b } : Display τ) _ _ _ = y at hrun ⊢
  obtain ⟨failure, hshown⟩ := hrun
  constructor
  · rfl
  · exact hshown.out
  · exact hshown.handedOn
  · exact hshown.grid
  · rfl
  · simp only [hshown.grid]

end LiveProgress
