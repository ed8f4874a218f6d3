import LiveProgress.Output.Reporting
import LiveProgress.Proofs.Display.Simulation
import LiveProgress.Proofs.Output.Blame
import LiveProgress.Proofs.Output.Device
import Mathlib.Data.List.Basic
import Mathlib.Tactic.Common

/-!
# What late reports tell

The sink counts the writes that it has no report on, so the wait for the last ones ends with the
last report. Until then a sink without an error has only been told of writes that went well, and
the error of one that has failed is that of a write.
-/

namespace LiveProgress

namespace Device

variable {device : Device} {high top : Nat} {f : Failure}

theorem Explains.mono (h : device.Explains high f) (hle : high ≤ top) : device.Explains top f := by
  obtain ⟨n, error, hpos, hn, hlookup, rfl⟩ := h
  exact ⟨n, error, hpos, Nat.le_trans hn hle, hlookup, rfl⟩

/-- No failure is the error of a write if no write fails. -/
theorem Spares.not_explains (h : device.Spares 0 high) : ¬ device.Explains high f := by
  rintro ⟨n, error, hpos, hn, hlookup, _⟩
  rw [h n hpos hn] at hlookup
  cases hlookup

end Device

namespace DeviceSink

variable {device : Device} {owed rest : List Nat} {d : DeviceSink} {n : Nat}

/-- The sink has been told of all writes but those that are owed. -/
structure Informed (device : Device) (owed : List Nat) (d : DeviceSink) : Prop where
  pending : d.sink.pending = owed.length
  draining : d.sink.draining = []
  flushing : owed = [] → d.sink.flushing = []
  closed : d.sink.closed = false
  numbered : ∀ n ∈ owed, 0 < n ∧ n ≤ d.attempts
  healthy : d.sink.failure = none → ∀ n, 0 < n → n ≤ d.attempts → n ∉ owed →
    device.failing.lookup n = none
  failed : ∀ error, d.sink.failure = some error → device.Explains d.attempts (.transfer error)
  device : d.device = device

theorem informed_start (device : Device) : Informed device [] { device } where
  pending := rfl
  draining := rfl
  flushing _ := rfl
  closed := rfl
  numbered := nofun
  healthy _ _ hpos hle := absurd (Nat.lt_of_lt_of_le hpos hle) (Nat.lt_irrefl 0)
  failed _ h := absurd h.symm (Option.some_ne_none _)
  device := rfl

theorem report_eq (d : DeviceSink) (n : Nat) :
    d.report n = { d with sink := { d.sink with
      failure := d.sink.failure.or (d.device.failing.lookup n)
      pending := d.sink.pending - 1
      flushing := if d.sink.pending - 1 = 0 then [] else d.sink.flushing } } := by
  simp only [report, StreamSink.step, StreamSink.reported]
  cases d.device.failing.lookup n with
  | none =>
    by_cases hlast : d.sink.pending - 1 = 0 <;> simp [StreamSink.wake, hlast]
  | some error =>
    by_cases hlast : d.sink.pending - 1 = 0 <;> simp [StreamSink.record, StreamSink.wake, hlast]

namespace Informed

/-- A sink that has been told of all writes, and has no error, has seen none fail. -/
theorem spares (h : d.Informed device []) (hnone : d.sink.failure = none) :
    device.Spares 0 d.attempts :=
  fun n hpos hle => h.healthy hnone n hpos hle List.not_mem_nil

theorem perm (h : d.Informed device owed) (hperm : owed.Perm rest) : d.Informed device rest where
  pending := h.pending.trans hperm.length_eq
  draining := h.draining
  flushing hrest := h.flushing (List.perm_nil.mp (hrest ▸ hperm))
  closed := h.closed
  numbered n hn := h.numbered n (hperm.mem_iff.mpr hn)
  healthy hnone n hpos hle hn :=
    h.healthy hnone n hpos hle (fun hmem => hn (hperm.mem_iff.mp hmem))
  failed := h.failed
  device := h.device

/-- A report settles one write. -/
theorem report (h : d.Informed device (n :: rest)) : (d.report n).Informed device rest := by
  have hpending : d.sink.pending - 1 = rest.length := by
    rw [h.pending, List.length_cons, Nat.add_sub_cancel]
  rw [report_eq]
  constructor
  case pending => exact hpending
  case draining => exact h.draining
  case flushing =>
    rintro rfl
    exact if_pos hpending
  case closed => exact h.closed
  case numbered => exact fun k hk => h.numbered k (List.mem_cons_of_mem n hk)
  case healthy =>
    intro hnone k hpos hle hk
    obtain ⟨hbefore, hlookup⟩ := Option.or_eq_none_iff.mp hnone
    rw [h.device] at hlookup
    by_cases hkn : k = n
    · rw [hkn, hlookup]
    · exact h.healthy hbefore k hpos hle (List.not_mem_cons_of_ne_of_not_mem hkn hk)
  case failed =>
    intro error hfailure
    rcases Option.or_eq_some_iff.mp hfailure with hbefore | ⟨-, hlookup⟩
    · exact h.failed error hbefore
    · obtain ⟨hpos, hle⟩ := h.numbered n List.mem_cons_self
      rw [h.device] at hlookup
      exact ⟨n, error, hpos, hle, hlookup, rfl⟩
  case device => exact h.device

theorem reports (h : d.Informed device (owed ++ rest)) :
    (owed.foldl DeviceSink.report d).Informed device rest := by
  induction owed generalizing d with
  | nil => exact h
  | cons n owed ih => exact ih h.report

/-- A write is owed a report. -/
theorem write (h : d.Informed device owed) (hnone : d.sink.failure = none) (needsDrain : Bool)
    (written : List String) :
    Informed device (owed ++ [d.attempts + 1]) { d with
      sink := { d.sink with pending := d.sink.pending + 1, needsDrain }
      attempts := d.attempts + 1
      written } where
  pending := by
    rw [h.pending, List.length_append, List.length_singleton]
  draining := h.draining
  flushing hnil := absurd hnil (List.append_ne_nil_of_right_ne_nil owed (List.cons_ne_nil _ _))
  closed := h.closed
  numbered n hn := by
    rcases List.mem_append.mp hn with hbefore | hnow
    · obtain ⟨hpos, hle⟩ := h.numbered n hbefore
      exact ⟨hpos, Nat.le_succ_of_le hle⟩
    · obtain rfl := List.mem_singleton.mp hnow
      exact ⟨Nat.succ_pos _, Nat.le_refl _⟩
  healthy _ n hpos hle hn := by
    rw [List.mem_append, List.mem_singleton, not_or] at hn
    exact h.healthy hnone n hpos (Nat.le_of_lt_succ (Nat.lt_of_le_of_ne hle hn.2)) hn.1
  failed error hfailure := absurd (hnone.symm.trans hfailure) nofun
  device := h.device

/-- The wait for the device ends, and says whether a write has failed. -/
theorem ready (h : d.Informed device owed) :
    ∃ d', d.ready = (d.sink.failure.map .transfer, d') ∧ d'.Informed device owed ∧
      d'.attempts = d.attempts := by
  obtain ⟨needsDrain, hready, _⟩ := ready_of_draining h.draining
  refine ⟨_, hready, ?_, rfl⟩
  exact ⟨h.pending, h.draining, h.flushing, h.closed, h.numbered, h.healthy, h.failed, h.device⟩

/-- The wait for the last reports begins, unless there are none. -/
theorem flush (h : d.Informed device owed) :
    Informed device owed { d with sink := (d.sink.step .flush).sink } := by
  simp only [StreamSink.step, StreamSink.flush]
  split
  case isTrue hbusy =>
    refine ⟨h.pending, h.draining, ?_, h.closed, h.numbered, h.healthy, h.failed, h.device⟩
    rintro rfl
    exact absurd h.pending (Nat.ne_of_gt hbusy.1)
  case isFalse =>
    exact ⟨h.pending, h.draining, h.flushing, h.closed, h.numbered, h.healthy, h.failed,
      h.device⟩

end Informed

theorem attempts_reports (d : DeviceSink) (owed : List Nat) :
    (owed.foldl report d).attempts = d.attempts := by
  induction owed generalizing d with
  | nil => rfl
  | cons n owed ih => exact ih (d.report n)

end DeviceSink

namespace LateSink

variable {device : Device} {l : LateSink} {error : String}

/-! ### Calls -/

theorem write_of_healthy (h : l.sink.sink.failure = none) (text : String) :
    ∃ needsDrain written, l.write text = (none, turn { l with
      sink := { l.sink with
        sink := { l.sink.sink with pending := l.sink.sink.pending + 1, needsDrain }
        attempts := l.sink.attempts + 1
        written }
      owed := l.owed ++ [l.sink.attempts + 1] }) := by
  simp only [write, StreamSink.step, StreamSink.write, h]
  exact ⟨_, _, rfl⟩

theorem write_of_failure (h : l.sink.sink.failure = some error) (text : String) :
    l.write text = (some (.transfer error), l.turn) := by
  simp only [write, StreamSink.step, StreamSink.write, h]

theorem informed_turn (h : l.sink.Informed device l.owed) :
    l.turn.sink.Informed device l.turn.owed := by
  have hsplit : l.owed.Perm (l.owed.filter (l.due l.calls) ++ l.turn.owed) :=
    (List.filter_append_perm (l.due l.calls) l.owed).symm
  exact (h.perm hsplit).reports

theorem attempts_turn (l : LateSink) : l.turn.sink.attempts = l.sink.attempts :=
  l.sink.attempts_reports _

/-! ### Failures -/

section Calls

variable (h : l.sink.Informed device l.owed)
include h

theorem blames_write (text : String) :
    Destination.Blames (fun l : LateSink => l.sink.Informed device l.owed)
      (fun l f => device.Explains l.sink.attempts f) none l (l.write text) := by
  cases hfailure : l.sink.sink.failure with
  | none =>
    obtain ⟨needsDrain, written, hwrite⟩ := write_of_healthy hfailure text
    rw [hwrite]
    constructor
    case inv => exact informed_turn (h.write hfailure needsDrain written)
    case stays =>
      intro f hf
      rw [attempts_turn]
      exact hf.mono (Nat.le_succ _)
    case failed => exact fun f hf => absurd hf.symm (Option.some_ne_none f)
    case passed => exact fun _ => rfl
  | some error =>
    rw [write_of_failure hfailure]
    constructor
    case inv => exact informed_turn h
    case stays =>
      intro f hf
      rwa [attempts_turn]
    case failed =>
      rintro _ ⟨⟩
      rw [attempts_turn]
      exact .inr (h.failed error hfailure)
    case passed => exact nofun

theorem blames_ready :
    Destination.Blames (fun l : LateSink => l.sink.Informed device l.owed)
      (fun l f => device.Explains l.sink.attempts f) none l l.ready := by
  obtain ⟨d, hready, hd, hattempts⟩ := h.ready
  have hturn : (turn { l with sink := d }).sink.attempts = l.sink.attempts :=
    (attempts_turn _).trans hattempts
  simp only [LateSink.ready, hready]
  constructor
  case inv => exact informed_turn (l := { l with sink := d }) hd
  case stays =>
    intro f hf
    rwa [hturn]
  case failed =>
    intro f hf
    obtain ⟨error, hfailure, rfl⟩ := Option.map_eq_some_iff.mp hf
    rw [hturn]
    exact .inr (h.failed error hfailure)
  case passed => exact fun _ => rfl

end Calls

/-- Whatever is reported, and when, the calls fail only with the error of a write. -/
theorem honest (device : Device) :
    Destination.Honest (fun l : LateSink => l.sink.Informed device l.owed)
      (fun l f => device.Explains l.sink.attempts f) where
  write _ h text := blames_write h text
  ready _ h := blames_ready h

/-- At the end of the output all reports have come, and the stream is let go. -/
theorem finish_of_informed (h : l.sink.Informed device l.owed) (failure : Option Failure) :
    ∃ l', l.finish failure = (failure.or (l'.sink.sink.failure.map .transfer), l') ∧
      l'.sink.Informed device [] ∧ l'.sink.attempts = l.sink.attempts ∧
      l'.sink.sink.listeners = 0 := by
  have hreports := h.flush
  rw [← List.append_nil l.owed] at hreports
  have hsettled := hreports.reports
  refine ⟨(l.finish failure).2, ?_, ?_, ?_, rfl⟩
  · simp only [finish, StreamSink.step, StreamSink.release, StreamSink.assertHealthy]
    generalize l.owed.foldl DeviceSink.report _ = settled
    cases settled.sink.failure <;> rfl
  · exact ⟨hsettled.pending, hsettled.draining, hsettled.flushing, hsettled.closed,
      hsettled.numbered, hsettled.healthy, hsettled.failed, hsettled.device⟩
  · exact DeviceSink.attempts_reports _ l.owed

/-- A device whose reports come behind each call is taken for one that reports before it
returns. -/
theorem alike_prompt :
    Destination.Alike fun (l : LateSink) (d : DeviceSink) =>
      ∃ calls, l = { sink := d, due := fun _ _ => true, calls } where
  write := by
    rintro _ d ⟨calls, rfl⟩ text
    cases hfailure : d.sink.failure with
    | none =>
      simp only [Destination.write, write, DeviceSink.write, StreamSink.step, StreamSink.write,
        hfailure]
      exact .intro none ⟨calls + 1, rfl⟩
    | some error =>
      simp only [Destination.write, write, DeviceSink.write, StreamSink.step, StreamSink.write,
        hfailure]
      exact .intro _ ⟨calls + 1, rfl⟩
  ready := by
    rintro _ d ⟨calls, rfl⟩
    exact .intro _ ⟨calls + 1, rfl⟩

end LateSink
end LiveProgress
