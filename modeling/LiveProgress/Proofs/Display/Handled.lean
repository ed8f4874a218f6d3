import LiveProgress.Display.Handled
import LiveProgress.Proofs.Display.Course
import LiveProgress.Proofs.Output.Blame

/-!
# What a display has handled

A display hands on the payloads of the messages it has handled, and these begin the messages of
its input. It goes on as long as the messages report no error and the destination does not fail;
where it stops, the failure is the error that the next message reports or that of a write.
-/

namespace LiveProgress

namespace Message

theorem reportedError_eq_none_iff {m : Message} :
    m.reportedError = none ↔ m.errorDetail = none ∧ m.error.getD [] = [] := by
  unfold reportedError nonEmpty
  cases m.errorDetail with
  | some e => simp
  | none =>
    cases m.error with
    | none => simp
    | some text => simp

theorem ownFailure_eq_none_iff {m : Message} :
    m.ownFailure = none ↔ (m.aux = none → m.errorDetail = none ∧ m.error.getD [] = []) := by
  rw [ownFailure, ← reportedError_eq_none_iff]
  cases m.aux <;> simp

end Message

namespace Display
open Destination

variable {σ : Type} [Destination σ] {Inv : σ → Prop} {Explains : σ → Failure → Prop}
  {d : Display σ} (caps : Option CapabilitySet) (v : Viewport)

/-- Showing a message fails as its script does, or with the failure of a write. -/
theorem blames_render (h : Honest Inv Explains) (hout : Inv d.out) (m : Message) :
    Blames (fun d : Display σ => Inv d.out) (fun d f => Explains d.out f)
      (d.grid.script m caps v).calm.failure d (d.render caps v m) := by
  have hrun := h.run hout (d.grid.script m caps v)
  rw [render_eq_script]
  exact ⟨hrun.inv, hrun.stays, hrun.failed, hrun.passed⟩

theorem handedOn_render (d : Display σ) (caps : Option CapabilitySet) (v : Viewport) (m : Message) :
    (d.render caps v m).2.handedOn = d.handedOn ++ [m].filter (·.aux.isSome) := by
  rw [render_eq_script]

theorem handedOn_renderAll (d : Display σ) (caps : Option CapabilitySet)
    (calls : List (Viewport × Message)) :
    (d.renderAll caps calls).handedOn =
      d.handedOn ++ (calls.map Prod.snd).filter (·.aux.isSome) := by
  induction calls generalizing d with
  | nil => exact (List.append_nil _).symm
  | cons call calls ih =>
    rw [renderAll, ih, handedOn_render, List.append_assoc, ← List.filter_append]
    rfl

/-- Handing on a payload does not fail. -/
theorem aux_of_failure {m : Message} {f : Failure} (h : (d.render caps v m).1 = some f) :
    m.aux = none := by
  cases haux : m.aux with
  | none => rfl
  | some payload =>
    simp only [render, Grid.react, haux] at h
    cases h

/-- What a run over messages comes to that has handled some of them and left the rest. -/
structure Account (caps : Option CapabilitySet) (v : Viewport) (Inv : σ → Prop)
    (Explains : σ → Failure → Prop) (d : Display σ) (handled rest : List Message)
    (r : Option Failure × Display σ) : Prop where
  inv : Inv r.2.out
  stays : ∀ f, Explains d.out f → Explains r.2.out f
  handedOn : r.2.handedOn = d.handedOn ++ handled.filter (·.aux.isSome)
  clean : ∀ m ∈ handled, m.ownFailure = none
  granted : ∀ set ∈ caps, set.Grants (d.grid.asked handled)
  passed : r.1 = none → rest = []
  failed : ∀ f, r.1 = some f →
    (rest.head?.bind fun m => ((d.grid.after handled).script m caps v).calm.failure) = some f ∨
      Explains r.2.out f

section Accounts

variable {caps : Option CapabilitySet} {v : Viewport} {d d' : Display σ}
  {handled rest : List Message} {r : Option Failure × Display σ} {m : Message} {f : Failure}

omit [Destination σ] in
theorem Account.done (hout : Inv d.out) : Account caps v Inv Explains d [] [] (none, d) where
  inv := hout
  stays _ hf := hf
  handedOn := (List.append_nil _).symm
  clean _ hm := absurd hm List.not_mem_nil
  granted _ _ := CapabilitySet.grants_nil
  passed _ := rfl
  failed f hf := absurd hf.symm (Option.some_ne_none f)

omit [Destination σ] in
/-- Nothing is handled if the first message ends the run. -/
theorem Account.stopped (hout : Inv d'.out) (hstays : ∀ f, Explains d.out f → Explains d'.out f)
    (hhanded : d'.handedOn = d.handedOn)
    (hf : (rest.head?.bind fun m => (d.grid.script m caps v).calm.failure) = some f ∨
      Explains d'.out f) : Account caps v Inv Explains d [] rest (some f, d') where
  inv := hout
  stays := hstays
  handedOn := hhanded.trans (List.append_nil _).symm
  clean _ hm := absurd hm List.not_mem_nil
  granted _ _ := CapabilitySet.grants_nil
  passed hnone := absurd hnone (Option.some_ne_none f)
  failed _ hf' := Option.some.inj hf' ▸ hf

omit [Destination σ] in
/-- A message that has been handled stands in front of those that a run goes on with. -/
theorem Account.cons (h : Account caps v Inv Explains d' handled rest r)
    (hstays : ∀ f, Explains d.out f → Explains d'.out f)
    (hm : (d.grid.script m caps v).calm.failure = none) (hgrid : d'.grid = d.grid.next m)
    (hhanded : d'.handedOn = d.handedOn ++ [m].filter (·.aux.isSome)) :
    Account caps v Inv Explains d (m :: handled) rest r := by
  obtain ⟨hgranted, hown⟩ := (Grid.failure_script_eq_none_iff v).mp hm
  constructor
  case inv => exact h.inv
  case stays => exact fun f hf => h.stays f (hstays f hf)
  case handedOn =>
    rw [h.handedOn, hhanded, List.append_assoc, ← List.filter_append, List.singleton_append]
  case clean => exact List.forall_mem_cons.mpr ⟨hown, h.clean⟩
  case granted =>
    intro set hset
    rw [Grid.asked, hown, if_neg (by simp), ← hgrid]
    exact CapabilitySet.grants_append.mpr ⟨hgranted set hset, h.granted set hset⟩
  case passed => exact h.passed
  case failed =>
    have hafter : d'.grid.after handled = d.grid.after (m :: handled) := by rw [hgrid]; rfl
    rw [← hafter]
    exact h.failed

end Accounts

theorem run_handled (h : Honest Inv Explains) (hout : Inv d.out) (messages : List Message) :
    ∃ rest, messages = d.handled caps v messages ++ rest ∧
      Account caps v Inv Explains d (d.handled caps v messages) rest (d.run caps v messages) := by
  induction messages generalizing d with
  | nil => exact ⟨[], rfl, .done hout⟩
  | cons m messages ih =>
    have hrender := blames_render caps v h hout m
    have hhanded := d.handedOn_render caps v m
    have hgrid := d.grid_render caps v m
    have haux {f : Failure} (hf : (d.render caps v m).1 = some f) : m.aux = none :=
      aux_of_failure caps v hf
    simp only [Display.handled, run, advance]
    generalize d.render caps v m = r at hrender hhanded hgrid haux
    obtain ⟨failure, d₁⟩ := r
    cases failure with
    | some f =>
      have hkept : d₁.handedOn = d.handedOn := by simpa [haux rfl] using hhanded
      exact ⟨m :: messages, rfl, .stopped hrender.inv hrender.stays hkept (hrender.failed f rfl)⟩
    | none =>
      have hm := hrender.passed rfl
      have hready := h.ready d₁.out hrender.inv
      dsimp only
      generalize Destination.ready d₁.out = r at hready
      obtain ⟨failure, out⟩ := r
      have hstays : ∀ f, Explains d.out f → Explains out f :=
        fun f hf => hready.stays f (hrender.stays f hf)
      cases failure with
      | some f =>
        have hlast : Account caps v Inv Explains { d₁ with out } [] messages
            (some f, { d₁ with out }) :=
          .stopped hready.inv (fun _ hf => hf) rfl (.inr (hready.explains rfl))
        exact ⟨messages, rfl, hlast.cons hstays hm hgrid hhanded⟩
      | none =>
        obtain ⟨rest, hrest, hlater⟩ := ih (d := { d₁ with out }) hready.inv
        exact ⟨rest, congrArg (m :: ·) hrest, hlater.cons hstays hm hgrid hhanded⟩

end Display
end LiveProgress
