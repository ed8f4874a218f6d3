import LiveProgress.Proofs.Display.Simulation
import LiveProgress.Proofs.Output.Device

/-!
# Pauses are not seen

A wait begins only behind a write that asked for a pause since the last wait, and the drain for
that write is still to come, so every wait ends. Drains that belong to earlier writes may end it
sooner, or go unheard; neither is seen in what is written, nor in how the display ends.
-/

namespace LiveProgress

namespace DeviceSink

variable {d d' : DeviceSink}

/-- Two devices on which the same writes fail have been written the same. -/
structure SameWrites (d d' : DeviceSink) : Prop where
  idle : d.sink.IsIdle
  idle' : d'.sink.IsIdle
  failing : d.device.failing = d'.device.failing
  failure : d.sink.failure = d'.sink.failure
  attempts : d.attempts = d'.attempts
  written : d.written = d'.written

namespace SameWrites

theorem write (h : SameWrites d d') (text : String) :
    AnswersAlike SameWrites (d.write text) (d'.write text) := by
  have hfailure' := h.failure
  cases hfailure : d.sink.failure with
  | none =>
    rw [hfailure] at hfailure'
    rw [write_of_healthy h.idle hfailure, write_of_healthy h.idle' hfailure'.symm]
    apply AnswersAlike.intro
    constructor
    · exact ⟨h.idle.pending, h.idle.draining, h.idle.flushing⟩
    · exact ⟨h.idle'.pending, h.idle'.draining, h.idle'.flushing⟩
    · exact h.failing
    · simp only [h.failing, h.attempts]
    · simp only [h.attempts]
    · simp only [h.failing, h.attempts, h.written]
  | some error =>
    rw [hfailure] at hfailure'
    rw [write_of_failure hfailure, write_of_failure hfailure'.symm]
    exact .intro _ h

theorem ready (h : SameWrites d d') : AnswersAlike SameWrites d.ready d'.ready := by
  obtain ⟨drains, hready, _⟩ := ready_of_draining h.idle.draining
  obtain ⟨drains', hready', _⟩ := ready_of_draining h.idle'.draining
  rw [hready, hready', h.failure]
  apply AnswersAlike.intro
  constructor
  · exact ⟨h.idle.pending, h.idle.draining, h.idle.flushing⟩
  · exact ⟨h.idle'.pending, h.idle'.draining, h.idle'.flushing⟩
  · exact h.failing
  · exact h.failure
  · exact h.attempts
  · exact h.written

theorem finish (h : SameWrites d d') (failure : Option Failure) :
    (d.finish failure).1 = (d'.finish failure).1 ∧
      (d.finish failure).2.written = (d'.finish failure).2.written := by
  obtain ⟨e, hfinish, _, hwritten, _⟩ := finish_of_idle h.idle failure
  obtain ⟨e', hfinish', _, hwritten', _⟩ := finish_of_idle h.idle' failure
  rw [hfinish, hfinish']
  constructor
  · rw [h.failure]
  · rw [hwritten, hwritten', h.written]

end SameWrites
end DeviceSink

namespace PacedSink

variable {p q : PacedSink} {text : String}

/-! ### Drains -/

/-- A drain that nobody waits for changes nothing. -/
theorem drain_of_idle (h : p.sink.sink.draining = []) :
    p.drain.2 = { p with owed := p.owed - 1 } := by
  simp [drain, StreamSink.step, StreamSink.onDrain, h]

theorem drains_of_idle (k : Nat) (h : p.sink.sink.draining = []) :
    p.drains k = { p with owed := p.owed - k } := by
  induction k generalizing p with
  | zero => rfl
  | succ k ih =>
    simp only [drains, drain_of_idle h]
    split
    case isTrue hnone =>
      have howed : p.owed = p.owed - (k + 1) := by omega
      rw [← howed]
    case isFalse =>
      have hnext := ih (p := { p with owed := p.owed - 1 }) h
      rw [hnext, Nat.sub_sub, Nat.add_comm 1 k]

/-- What happens before the next message comes is not seen in the sink. -/
theorem rest_of_idle (h : p.sink.sink.draining = []) :
    ∃ owed unheard, p.rest = { p with owed, unheard } := by
  cases hunheard : p.unheard with
  | nil =>
    refine ⟨p.owed, p.unheard, ?_⟩
    simp only [rest, hunheard]
    rw [← hunheard]
  | cons k unheard =>
    refine ⟨p.owed - k, unheard, ?_⟩
    simp only [rest, hunheard]
    exact drains_of_idle k h

/-! ### One step -/

/-- Between two calls: if the next wait has to wait for a drain, one is still to come. -/
structure Wakeful (p : PacedSink) : Prop where
  idle : p.sink.sink.IsIdle
  owed : p.sink.sink.failure = none → p.sink.sink.needsDrain = true → 0 < p.owed
  runs : p.stalled = false

theorem wakeful_start (device : Device) (unheard : List Nat) :
    Wakeful { sink := { device }, unheard } :=
  ⟨⟨rfl, rfl, rfl⟩, fun _ h => absurd h Bool.false_ne_true, rfl⟩

/-- A write does to the sink what it does on a device that ends its pauses at once. -/
theorem Wakeful.write (h : Wakeful p) (text : String) :
    ∃ p', p.write text = ((p.sink.write text).1, p') ∧ p'.sink = (p.sink.write text).2 ∧
      p'.sent = (if (p.sink.write text).1.isSome then p.sent else p.sent ++ [text]) ∧
      Wakeful p' := by
  cases hfailure : p.sink.sink.failure with
  | none =>
    simp only [PacedSink.write, DeviceSink.write_of_healthy h.idle hfailure]
    refine ⟨_, rfl, rfl, rfl, ?_⟩
    constructor
    · exact ⟨h.idle.pending, h.idle.draining, h.idle.flushing⟩
    · intro _ hdrain
      rw [Bool.or_eq_true] at hdrain
      rcases hdrain with hbefore | hasks
      · have howed := h.owed hfailure hbefore
        exact Nat.lt_add_right _ howed
      · simp only [hasks]
        exact Nat.lt_add_left _ Nat.one_pos
    · exact h.runs
  | some error =>
    simp only [PacedSink.write, DeviceSink.write_of_failure hfailure]
    exact ⟨p, rfl, rfl, rfl, h⟩

/-- A wait that begins while a drain is to come if it is needed is ended by that drain. -/
theorem Wakeful.ready_eq_rest (h : Wakeful p) :
    ∃ owed, p.ready = (p.sink.ready.1, rest { p with sink := p.sink.ready.2, owed }) := by
  cases hfailure : p.sink.sink.failure with
  | none =>
    cases hdrain : p.sink.sink.needsDrain with
    | false =>
      refine ⟨p.owed, ?_⟩
      simp [PacedSink.ready, DeviceSink.ready, StreamSink.step, StreamSink.ready, hfailure, hdrain]
    | true =>
      have howed : p.owed ≠ 0 := Nat.ne_of_gt (h.owed hfailure hdrain)
      refine ⟨p.owed - 1, ?_⟩
      simp [PacedSink.ready, DeviceSink.ready, drain, StreamSink.step, StreamSink.ready,
        StreamSink.onDrain, StreamSink.settle, hfailure, hdrain, howed, h.idle.draining, h.runs]
  | some error =>
    refine ⟨p.owed, ?_⟩
    simp [PacedSink.ready, DeviceSink.ready, StreamSink.step, StreamSink.ready, hfailure]

/-- A wait ends, and does to the sink what it does on a device that ends its pauses at once. -/
theorem Wakeful.ready (h : Wakeful p) :
    ∃ p', p.ready = (p.sink.ready.1, p') ∧ p'.sink = p.sink.ready.2 ∧ p'.sent = p.sent ∧
      Wakeful p' := by
  obtain ⟨owed, hready⟩ := h.ready_eq_rest
  obtain ⟨drains, hsink, hpaused⟩ := DeviceSink.ready_of_draining h.idle.draining
  have hidle : p.sink.ready.2.sink.IsIdle := by
    rw [hsink]
    exact ⟨h.idle.pending, h.idle.draining, h.idle.flushing⟩
  obtain ⟨left, unheard, hrest⟩ :=
    rest_of_idle (p := { p with sink := p.sink.ready.2, owed }) hidle.draining
  refine ⟨_, hready, ?_⟩
  rw [hrest]
  refine ⟨rfl, rfl, hidle, ?_, h.runs⟩
  intro hhealthy hneeds
  rw [hsink] at hhealthy hneeds
  rw [hpaused hhealthy] at hneeds
  exact absurd hneeds Bool.false_ne_true

/-- The end of the output is not kept waiting either. -/
theorem Wakeful.finish (h : Wakeful p) (failure : Option Failure) :
    ∃ p', p.finish failure = ((p.sink.finish failure).1, p') ∧
      p'.sink = (p.sink.finish failure).2 ∧ p'.sent = p.sent ∧ p'.stalled = false := by
  refine ⟨_, rfl, rfl, rfl, ?_⟩
  simp [StreamSink.step, StreamSink.flush, h.idle.pending, h.runs]

/-- A device that ends its pauses later is taken for one that ends them at once. -/
theorem alike_device :
    Destination.Alike fun (p : PacedSink) (d : DeviceSink) => p.Wakeful ∧ p.sink = d where
  write := by
    rintro p d ⟨hp, rfl⟩ text
    obtain ⟨p', hwrite, hsink, _, hp'⟩ := hp.write text
    simp only [Destination.write, hwrite]
    exact .intro _ ⟨hp', hsink⟩
  ready := by
    rintro p d ⟨hp, rfl⟩
    obtain ⟨p', hready, hsink, _, hp'⟩ := hp.ready
    simp only [Destination.ready, hready]
    exact .intro _ ⟨hp', hsink⟩

/-- Two devices that end their pauses later, and on which the same writes fail, have been written
the same. -/
structure Matches (p q : PacedSink) : Prop where
  left : p.Wakeful
  right : q.Wakeful
  sinks : p.sink.SameWrites q.sink
  sent : p.sent = q.sent

theorem alike_matches : Destination.Alike Matches where
  write := by
    intro p q h text
    obtain ⟨p', hwrite, hsink, hsent, hp'⟩ := h.left.write text
    obtain ⟨q', hwrite', hsink', hsent', hq'⟩ := h.right.write text
    have hsinks := h.sinks.write text
    simp only [Destination.write, hwrite, hwrite', hsinks.failure]
    apply AnswersAlike.intro
    constructor
    · exact hp'
    · exact hq'
    · rw [hsink, hsink']
      exact hsinks.states
    · rw [hsent, hsent', hsinks.failure, h.sent]
  ready := by
    intro p q h
    obtain ⟨p', hready, hsink, hsent, hp'⟩ := h.left.ready
    obtain ⟨q', hready', hsink', hsent', hq'⟩ := h.right.ready
    have hsinks := h.sinks.ready
    simp only [Destination.ready, hready, hready', hsinks.failure]
    apply AnswersAlike.intro
    constructor
    · exact hp'
    · exact hq'
    · rw [hsink, hsink']
      exact hsinks.states
    · rw [hsent, hsent', h.sent]

theorem matches_start (failing : List (Nat × String)) (slow slow' unheard unheard' : List Nat) :
    Matches { sink := { device := { failing, slow } }, unheard }
      { sink := { device := { failing, slow := slow' } }, unheard := unheard' } where
  left := wakeful_start _ _
  right := wakeful_start _ _
  sinks := ⟨⟨rfl, rfl, rfl⟩, ⟨rfl, rfl, rfl⟩, rfl, rfl, rfl, rfl⟩
  sent := rfl

end PacedSink

namespace Shown

variable (o : DisplayOptions) (read : FileReader) (chunks : List Chunk)

/-- A display on a device that ends its pauses later ends as it does on one that ends them at
once. -/
theorem onPacedDevice_eq_onDevice (device : Device) (unheard : List Nat) :
    let shown := onPacedDevice o read chunks device unheard
    let shown' := onDevice o read chunks device
    shown.out.stalled = false ∧ shown.out.sink = shown'.out ∧ shown.failure = shown'.failure ∧
      shown.handedOn = shown'.handedOn ∧ shown.grid = shown'.grid ∧ shown.log = shown'.log := by
  have hstart := PacedSink.wakeful_start device unheard
  have halike := alike_ofChunks PacedSink.alike_device o read chunks (b := { device }) ⟨hstart, rfl⟩
  simp only [onPacedDevice, onDevice, finished, log]
  generalize ofChunks o read chunks ({ sink := { device }, unheard } : PacedSink) = s at halike ⊢
  generalize ofChunks o read chunks ({ device } : DeviceSink) = s' at halike ⊢
  obtain ⟨hwakeful, hsink⟩ := halike.out
  obtain ⟨p, hfinish, hlast, _, hruns⟩ := hwakeful.finish s.failure
  rw [hsink, halike.failure] at hfinish hlast
  rw [halike.failure, hfinish, halike.prelude, halike.postlude]
  exact ⟨hruns, hlast, rfl, halike.handedOn, halike.grid, rfl⟩

/-- Which writes ask for a pause, and when the pauses end, is seen neither in what is written nor
in how the display ends: every wait ends, and the same texts are handed to the stream. -/
theorem pauses_are_not_seen (failing : List (Nat × String))
    (slow slow' unheard unheard' : List Nat) :
    let shown := onPacedDevice o read chunks { failing, slow } unheard
    let shown' := onPacedDevice o read chunks { failing, slow := slow' } unheard'
    (shown.out.stalled = false ∧ shown'.out.stalled = false) ∧
      shown.out.sent = shown'.out.sent ∧ shown.out.sink.written = shown'.out.sink.written ∧
      shown.failure = shown'.failure ∧ shown.handedOn = shown'.handedOn ∧
      shown.grid = shown'.grid ∧ shown.log = shown'.log := by
  have hstart := PacedSink.matches_start failing slow slow' unheard unheard'
  have halike := alike_ofChunks PacedSink.alike_matches o read chunks hstart
  simp only [onPacedDevice, finished, log]
  generalize ofChunks o read chunks
    ({ sink := { device := { failing, slow } }, unheard } : PacedSink) = s at halike ⊢
  generalize ofChunks o read chunks
    ({ sink := { device := { failing, slow := slow' } }, unheard := unheard' } : PacedSink) = s'
    at halike ⊢
  have hout := halike.out
  obtain ⟨p, hfinish, hsink, hsent, hruns⟩ := hout.left.finish s.failure
  obtain ⟨p', hfinish', hsink', hsent', hruns'⟩ := hout.right.finish s'.failure
  obtain ⟨hfailure, hwritten⟩ := hout.sinks.finish s'.failure
  rw [halike.failure] at hsink hfinish ⊢
  rw [hfinish, hfinish', halike.prelude, halike.postlude]
  refine ⟨⟨hruns, hruns'⟩, ?_, ?_, hfailure, halike.handedOn, halike.grid, rfl⟩
  · rw [hsent, hsent', hout.sent]
  · rw [hsink, hsink', hwritten]

end Shown
end LiveProgress
