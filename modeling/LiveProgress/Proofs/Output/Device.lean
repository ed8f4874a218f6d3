import LiveProgress.Output.Device
import Mathlib.Tactic.Common

/-!
# Writing to a device

A device reports on a write before the write returns, so between two writes nothing is
pending. As long as no write fails, every text is taken. The write that fails returns as if
nothing had happened, and whatever is asked of the sink afterwards fails with its error.
-/

namespace LiveProgress

/-- No write is waited for and no one waits. -/
structure StreamSink.IsIdle (s : StreamSink) : Prop where
  pending : s.pending = 0
  draining : s.draining = []
  flushing : s.flushing = []

namespace Device

variable {device : Device} {n low mid high top : Nat} {error : String}

theorem Spares.mono (h : device.Spares low high) (hlow : low ≤ mid) (hhigh : top ≤ high) :
    device.Spares mid top :=
  fun n hn hle => h n (by omega) (by omega)

theorem FailsFirst.spares (h : device.FailsFirst n error) (hlt : high < n) :
    device.Spares low high :=
  fun k hk hle => h.least k (by omega) (by omega)

/-- Among the writes up to a number, either there is a first one that fails, or none does. -/
theorem exists_failsFirst_or_spares (device : Device) (high : Nat) :
    (∃ n error, device.FailsFirst n error ∧ n ≤ high) ∨ device.Spares 0 high := by
  induction high with
  | zero =>
    right
    intro n hpos hle
    omega
  | succ high ih =>
    rcases ih with ⟨n, error, hfails, hle⟩ | hspares
    · exact .inl ⟨n, error, hfails, by omega⟩
    · cases hlookup : device.failing.lookup (high + 1) with
      | some error =>
        left
        refine ⟨high + 1, error, ?_, Nat.le_refl _⟩
        constructor
        · exact Nat.succ_pos high
        · exact hlookup
        · intro k hpos hlt
          exact hspares k hpos (by omega)
      | none =>
        right
        intro n hpos hle
        obtain rfl | hlt := Nat.eq_or_lt_of_le hle
        · exact hlookup
        · exact hspares n hpos (by omega)

end Device

theorem Destination.writeAll_append {σ : Type} [Destination σ] (out : σ) (a b : List String) :
    Destination.writeAll out (a ++ b) =
      match Destination.writeAll out a with
      | (some f, out) => (some f, out)
      | (none, out) => Destination.writeAll out b := by
  induction a generalizing out with
  | nil => rfl
  | cons text a ih =>
    simp only [List.cons_append, writeAll]
    split
    · rfl
    · exact ih _

namespace DeviceSink

/-- The device has taken some texts, and no write has failed. -/
structure Intact (device : Device) (taken : List String) (d : DeviceSink) : Prop where
  device : d.device = device
  idle : d.sink.IsIdle
  failure : d.sink.failure = none
  attempts : d.attempts = taken.length
  written : d.written = taken

/-- The last write was number `n` and has failed with an error; the device has taken what was
written before. -/
structure Broken (n : Nat) (error : String) (taken : List String) (d : DeviceSink) : Prop where
  idle : d.sink.IsIdle
  failure : d.sink.failure = some error
  attempts : d.attempts = n
  written : d.written = taken

variable {device : Device} {taken texts : List String} {d : DeviceSink} {n : Nat}
  {error text : String}

theorem intact_start (device : Device) : Intact device [] { device } :=
  ⟨rfl, ⟨rfl, rfl, rfl⟩, rfl, rfl, rfl⟩

/-! ### Single calls -/

/-- A write to a sink that has not failed reaches the device, and the report on it is kept. -/
theorem write_of_healthy (hidle : d.sink.IsIdle) (h : d.sink.failure = none) (text : String) :
    d.write text =
      (none, { d with
        sink := { d.sink with
          needsDrain := d.sink.needsDrain || d.device.slow.contains (d.attempts + 1)
          failure := d.device.failing.lookup (d.attempts + 1) }
        attempts := d.attempts + 1
        written := if (d.device.failing.lookup (d.attempts + 1)).isSome then d.written
          else d.written ++ [text] }) := by
  obtain ⟨hpending, hdraining, hflushing⟩ := hidle
  simp only [write, StreamSink.step, StreamSink.write, h, StreamSink.reported, Bool.not_not]
  cases d.device.failing.lookup (d.attempts + 1) with
  | none => simp [hpending, hflushing, StreamSink.wake]
  | some error => simp [hpending, hflushing, StreamSink.wake, StreamSink.record]

theorem write_of_failure (h : d.sink.failure = some error) (text : String) :
    d.write text = (some (.transfer error), d) := by
  simp only [write, StreamSink.step, StreamSink.write, h]

/-- Waiting for a device that is slow ends, since the end of the pause comes while one waits. -/
theorem ready_of_healthy (hdraining : d.sink.draining = []) (h : d.sink.failure = none) :
    d.ready =
      (none, { d with
        sink := { d.sink with needsDrain := false, tickets := d.sink.tickets + 1 } }) := by
  simp only [ready, StreamSink.step, StreamSink.ready, h]
  cases d.sink.needsDrain with
  | false => simp [outcome]
  | true => simp [hdraining, StreamSink.onDrain, StreamSink.settle, outcome]

theorem ready_of_failure (h : d.sink.failure = some error) :
    d.ready =
      (some (.transfer error), { d with
        sink := { d.sink with tickets := d.sink.tickets + 1 } }) := by
  simp [ready, StreamSink.step, StreamSink.ready, h, outcome]

/-- Waiting tells a failure of the writes, and else leaves no pause to wait for. -/
theorem ready_of_draining (hdraining : d.sink.draining = []) :
    ∃ needsDrain, d.ready = (d.sink.failure.map .transfer, { d with
        sink := { d.sink with needsDrain, tickets := d.sink.tickets + 1 } }) ∧
      (d.sink.failure = none → needsDrain = false) := by
  cases hfailure : d.sink.failure with
  | none =>
    refine ⟨false, ?_, fun _ => rfl⟩
    rw [ready_of_healthy hdraining hfailure]
    rfl
  | some error =>
    refine ⟨d.sink.needsDrain, ?_, nofun⟩
    rw [ready_of_failure hfailure]
    rfl

theorem Intact.write (h : Intact device taken d)
    (hlookup : device.failing.lookup (taken.length + 1) = none) (text : String) :
    ∃ d', d.write text = (none, d') ∧ Intact device (taken ++ [text]) d' := by
  rw [← h.attempts, ← h.device] at hlookup
  refine ⟨_, write_of_healthy h.idle h.failure text, ?_⟩
  constructor
  · exact h.device
  · exact ⟨h.idle.pending, h.idle.draining, h.idle.flushing⟩
  · exact hlookup
  · simp [h.attempts]
  · simp [hlookup, h.written]

theorem Intact.write_failing (h : Intact device taken d)
    (hlookup : device.failing.lookup (taken.length + 1) = some error) (text : String) :
    ∃ d', d.write text = (none, d') ∧ Broken (taken.length + 1) error taken d' := by
  rw [← h.attempts, ← h.device] at hlookup
  refine ⟨_, write_of_healthy h.idle h.failure text, ?_⟩
  constructor
  · exact ⟨h.idle.pending, h.idle.draining, h.idle.flushing⟩
  · exact hlookup
  · simp [h.attempts]
  · simp [hlookup, h.written]

theorem Broken.write (h : Broken n error taken d) (text : String) :
    d.write text = (some (.transfer error), d) :=
  write_of_failure h.failure text

theorem Intact.ready (h : Intact device taken d) :
    ∃ d', d.ready = (none, d') ∧ Intact device taken d' := by
  refine ⟨_, ready_of_healthy h.idle.draining h.failure, ?_⟩
  constructor
  · exact h.device
  · exact ⟨h.idle.pending, h.idle.draining, h.idle.flushing⟩
  · exact h.failure
  · exact h.attempts
  · exact h.written

theorem Broken.ready (h : Broken n error taken d) :
    ∃ d', d.ready = (some (.transfer error), d') ∧ Broken n error taken d' := by
  refine ⟨_, ready_of_failure h.failure, ?_⟩
  constructor
  · exact ⟨h.idle.pending, h.idle.draining, h.idle.flushing⟩
  · exact h.failure
  · exact h.attempts
  · exact h.written

/-- The end of the output tells a failure of the writes unless another one has been told, and
leaves nothing on the stream. -/
theorem finish_of_idle (hidle : d.sink.IsIdle) (failure : Option Failure) :
    ∃ d', d.finish failure = (failure.or (d.sink.failure.map .transfer), d') ∧
      d'.attempts = d.attempts ∧ d'.written = d.written ∧
      d'.sink.listeners = 0 ∧ d'.sink.draining = [] := by
  obtain ⟨hpending, hdraining, hflushing⟩ := hidle
  simp only [finish, StreamSink.step, StreamSink.flush, StreamSink.release,
    StreamSink.assertHealthy, hpending]
  cases d.sink.failure with
  | none => exact ⟨_, rfl, rfl, rfl, rfl, hdraining⟩
  | some error => exact ⟨_, rfl, rfl, rfl, rfl, hdraining⟩

/-! ### Several writes -/

theorem Intact.writeAll (h : Intact device taken d) (texts : List String)
    (hspares : device.Spares taken.length (taken ++ texts).length) :
    ∃ d', Destination.writeAll d texts = (none, d') ∧ Intact device (taken ++ texts) d' := by
  induction texts generalizing d taken with
  | nil => exact ⟨d, rfl, by simpa using h⟩
  | cons text texts ih =>
    have hlookup := hspares (taken.length + 1) (by omega) (by simp)
    obtain ⟨d₁, hwrite, h₁⟩ := h.write hlookup text
    have hrest : device.Spares (taken ++ [text]).length (taken ++ [text] ++ texts).length :=
      hspares.mono (by simp) (by simp)
    obtain ⟨d₂, hwrites, h₂⟩ := ih h₁ hrest
    refine ⟨d₂, ?_, by simpa using h₂⟩
    simp only [Destination.writeAll, Destination.write, hwrite]
    exact hwrites

theorem Broken.writeAll (h : Broken n error taken d) (texts : List String) :
    Destination.writeAll d texts =
      (if texts.isEmpty then none else some (.transfer error), d) := by
  cases texts with
  | nil => rfl
  | cons text texts =>
    simp only [Destination.writeAll, Destination.write, h.write]
    rfl

/-- Writes among which is the first one that fails: the texts before it are taken, and its
error is told by the next write if there is one. -/
theorem Intact.writeAll_failing (h : Intact device taken d) (hfails : device.FailsFirst n error)
    (hlow : taken.length < n) (hhigh : n ≤ (taken ++ texts).length) :
    ∃ d', Destination.writeAll d texts =
        (if n = (taken ++ texts).length then none else some (.transfer error), d') ∧
      Broken n error ((taken ++ texts).take (n - 1)) d' := by
  rw [List.length_append] at hhigh
  have hlt : n - 1 - taken.length < texts.length := by omega
  obtain ⟨a, text, b, rfl, ha⟩ : ∃ a text b, texts = a ++ text :: b ∧
      (taken ++ a).length + 1 = n := by
    have hsplit := List.take_append_drop (n - 1 - taken.length) texts
    rw [List.drop_eq_getElem_cons hlt] at hsplit
    refine ⟨_, _, _, hsplit.symm, ?_⟩
    simp only [List.length_append, List.length_take]
    omega
  have hspares : device.Spares taken.length (taken ++ a).length := hfails.spares (by omega)
  obtain ⟨d₁, hbefore, h₁⟩ := h.writeAll a hspares
  obtain ⟨d₂, hwrite, h₂⟩ := h₁.write_failing (ha ▸ hfails.fails) text
  refine ⟨d₂, ?_, ?_⟩
  · have hlast : n = (taken ++ (a ++ text :: b)).length ↔ b.isEmpty = true := by
      rw [← ha, List.isEmpty_iff_length_eq_zero]
      simp only [List.length_append, List.length_cons]
      omega
    rw [Destination.writeAll_append, hbefore]
    simp only [Destination.writeAll, Destination.write, hwrite, h₂.writeAll, hlast]
  · have htake : (taken ++ (a ++ text :: b)).take (n - 1) = taken ++ a := by
      rw [← List.append_assoc, ← ha, Nat.add_sub_cancel, List.take_left]
    rw [htake, ← ha]
    exact h₂

/-! ### Attempts -/

theorem Intact.attempt (h : Intact device taken d) (a : Attempt)
    (hspares : device.Spares taken.length (taken ++ a.texts).length) :
    ∃ d', a.run d = (a.failure, d') ∧ Intact device (taken ++ a.texts) d' := by
  obtain ⟨d', htexts, h'⟩ := h.writeAll a.texts hspares
  exact ⟨d', by simp only [Attempt.run, htexts, Option.none_or], h'⟩

theorem Broken.attempt (h : Broken n error taken d) (a : Attempt) :
    a.run d = (if a.texts.isEmpty then a.failure else some (.transfer error), d) := by
  simp only [Attempt.run, h.writeAll]
  split
  · rw [Option.none_or]
  · rw [Option.some_or]

theorem Intact.attempt_failing (h : Intact device taken d) (hfails : device.FailsFirst n error)
    (a : Attempt) (hlow : taken.length < n) (hhigh : n ≤ (taken ++ a.texts).length) :
    ∃ d', a.run d =
        (if n = (taken ++ a.texts).length then a.failure else some (.transfer error), d') ∧
      Broken n error ((taken ++ a.texts).take (n - 1)) d' := by
  obtain ⟨d', htexts, h'⟩ := h.writeAll_failing hfails hlow hhigh
  refine ⟨d', ?_, h'⟩
  simp only [Attempt.run, htexts]
  split
  · rw [Option.none_or]
  · rw [Option.some_or]

end DeviceSink
end LiveProgress
