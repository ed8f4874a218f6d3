import LiveProgress.Proofs.Output.Record
import Mathlib.Data.List.Infix

/-!
# Waiting for the writes in flight

A flush waits as long as a write is in flight and the stream has not closed. Whenever that ends,
all flushes that wait are woken, each of them once and without an error; flushes that begin
meanwhile, or writes that are made behind them, do not get in their way.
-/

namespace LiveProgress.StreamSink

variable {s : StreamSink} {e : Event} {n : Nat}

/-- Whether a flush has to wait. -/
def isBusy (s : StreamSink) : Bool := 0 < s.pending && !s.closed

theorem isBusy_iff : s.isBusy = true ↔ 0 < s.pending ∧ s.closed = false := by
  simp [isBusy]

/-! ### Steps -/

/-- The last report and the close wake all who wait, and a flush of a busy sink joins them. -/
theorem flushing_step (s : StreamSink) (e : Event) :
    (s.step e).sink.flushing =
      if e.isReport = true ∧ s.pending ≤ 1 ∨ e = .close ∧ s.released = false then []
      else if e = .flush ∧ s.isBusy = true then s.flushing ++ [s.tickets + 1] else s.flushing := by
  cases e with
  | write accepted =>
    simp only [step, write]
    cases s.failure <;> simp
  | reported error =>
    simp only [step, reported]
    cases error <;> split <;> simp_all [wake, record] <;> omega
  | error text =>
    simp only [step, onError]
    split <;> simp [record]
  | close =>
    simp only [step, onClose]
    split <;> simp_all [wake]
  | drain =>
    simp only [step, onDrain]
    split <;> simp
  | ready =>
    simp only [step, ready]
    cases s.failure with
    | some error => simp
    | none => cases s.needsDrain <;> simp
  | flush =>
    simp only [step, flush, isBusy]
    split <;> simp_all
  | assertHealthy => simp [step, assertHealthy]
  | release => simp [step, release]

/-- Each ticket waits once, and only as long as there is something to wait for. -/
structure Flushes (s : StreamSink) : Prop where
  nodup : s.flushing.Nodup
  busy : s.flushing ≠ [] → s.isBusy = true

/-- Who waits goes on waiting as long as the sink is busy. -/
theorem mem_flushing_step (h : s.Flushes) (hheld : s.released = false) (hn : n ∈ s.flushing) :
    n ∈ (s.step e).sink.flushing ↔ (s.step e).sink.isBusy = true := by
  obtain ⟨hpending, hopen⟩ := isBusy_iff.mp (h.busy (List.ne_nil_of_mem hn))
  have hkeeps := keeps_step s e
  rw [isBusy_iff, hkeeps.pending, hkeeps.closed, hopen, hheld, flushing_step]
  cases e with
  | reported error =>
    have hanswer : (s.step (.reported error)).answer.isWritten = false := by
      simp only [step, reported]
      split <;> rfl
    have hmore : 0 < s.pending - 1 ↔ ¬ s.pending ≤ 1 := by omega
    rw [hanswer]
    by_cases hlast : s.pending ≤ 1
    · simp [hlast]
    · simp [hmore, hlast, hn]
  | close => simp [hheld]
  | flush =>
    have hpos (k : Nat) : 0 < s.pending + k := by omega
    simp [h.busy (List.ne_nil_of_mem hn), hn, hpos]
  | _ =>
    have hpos (k : Nat) : 0 < s.pending + k := by omega
    simp [hn, hpos]

theorem Flushes.step (h : s.Flushes) (htidy : s.IsTidy) (hheld : s.released = false) (e : Event) :
    (s.step e).sink.Flushes := by
  constructor
  · rw [flushing_step]
    split_ifs
    · exact List.nodup_nil
    · rw [List.nodup_append_comm, List.singleton_append, List.nodup_cons]
      exact ⟨htidy.not_mem_flushing, h.nodup⟩
    · exact h.nodup
  · intro hwaits
    obtain ⟨n, hn⟩ := List.exists_mem_of_ne_nil _ hwaits
    have hbefore : n ∈ s.flushing ∨ (e = .flush ∧ s.isBusy = true) := by
      rw [flushing_step] at hn
      split_ifs at hn with _ hcall
      · exact absurd hn List.not_mem_nil
      · exact .inr hcall
      · exact .inl hn
    rcases hbefore with hn' | ⟨rfl, hbusy⟩
    · exact (mem_flushing_step h hheld hn').mp hn
    · obtain ⟨hpending, hopen⟩ := isBusy_iff.mp hbusy
      have hkeeps := keeps_step s .flush
      rw [isBusy_iff, hkeeps.pending, hkeeps.closed, hopen]
      exact ⟨by simp only [Event.isReport, Bool.toNat_false]; omega, rfl⟩

theorem Effect.outcomes_of_settle {effect : Effect} {tickets : List Nat} {error : Option String}
    (h : effect.settled = settle tickets error) (n : Nat) :
    effect.outcomes n = List.replicate (tickets.count n) error := by
  rw [outcomes, h, settle]
  clear h
  induction tickets with
  | nil => rfl
  | cons m tickets ih =>
    by_cases hm : m = n
    · simp_all [List.replicate_succ]
    · simp_all

/-- A ticket that has been given out and does not wait for the stream to drain is settled by an
event exactly if the event wakes it. -/
theorem outcomes_step (hnodup : s.flushing.Nodup) (hgiven : n ≤ s.tickets)
    (hdraining : n ∉ s.draining) (e : Event) :
    n ∉ (s.step e).sink.draining ∧
      (s.step e).outcomes n =
        if n ∈ s.flushing ∧ n ∉ (s.step e).sink.flushing then [none] else [] := by
  have hnew : n ≠ s.tickets + 1 := by omega
  cases turn_step s e with
  | idle _ hsettled _ hdraining' hflushing =>
    simp [Effect.outcomes, hsettled, hdraining', hflushing, hdraining]
  | wakesDraining _ error hsettled _ hdraining' hflushing =>
    rw [Effect.outcomes_of_settle hsettled, List.count_eq_zero_of_not_mem hdraining, hdraining',
      hflushing]
    simp
  | wakesFlushing _ hsettled _ hdraining' hflushing =>
    rw [Effect.outcomes_of_settle hsettled, hnodup.count, hdraining', hflushing]
    refine ⟨hdraining, ?_⟩
    split_ifs <;> simp_all
  | answered _ error hsettled _ hdraining' hflushing =>
    simp [Effect.outcomes, hsettled, hdraining', hflushing, hdraining, hnew.symm]
  | drains _ _ hsettled _ hdraining' hflushing =>
    simp [Effect.outcomes, hsettled, hdraining', hflushing, hdraining, hnew]
  | flushes _ _ hsettled _ hdraining' hflushing =>
    simp [Effect.outcomes, hsettled, hdraining', hflushing, hdraining, hnew]

/-- No ticket is settled before it is given out. -/
theorem outcomes_step_of_lt (h : s.IsTidy) (e : Event) (hn : (s.step e).sink.tickets < n) :
    (s.step e).outcomes n = [] := by
  cases turn_step s e with
  | idle _ hsettled => simp [Effect.outcomes, hsettled]
  | wakesDraining _ error hsettled htickets =>
    have hother : n ∉ s.draining := by
      intro hmem
      have hle := h.draining n hmem
      omega
    rw [Effect.outcomes_of_settle hsettled, List.count_eq_zero_of_not_mem hother]
    rfl
  | wakesFlushing _ hsettled htickets =>
    have hother : n ∉ s.flushing := by
      intro hmem
      have hle := h.flushing n hmem
      omega
    rw [Effect.outcomes_of_settle hsettled, List.count_eq_zero_of_not_mem hother]
    rfl
  | answered _ error hsettled htickets =>
    have hnew : s.tickets + 1 ≠ n := by omega
    simp [Effect.outcomes, hsettled, hnew]
  | drains _ _ hsettled => simp [Effect.outcomes, hsettled]
  | flushes _ _ hsettled => simp [Effect.outcomes, hsettled]

/-! ### Histories -/

variable {history past later : List Event}

theorem released_after_eq_false (h : .release ∉ history) : (after history).released = false := by
  rw [← Bool.not_eq_true, released_after]
  exact h

theorem flushes_after (h : .release ∉ history) : (after history).Flushes := by
  induction history using List.reverseRecOn with
  | nil =>
    constructor
    · exact List.nodup_nil
    · exact fun hwaits => absurd rfl hwaits
  | append_singleton history e ih =>
    rw [List.mem_append, not_or] at h
    rw [after_concat]
    exact (ih h.1).step (isTidy_after history) (released_after_eq_false h.1) e

theorem isBusy_after (hreports : ReportsWrites history) (h : .release ∉ history) :
    (after history).isBusy = true ↔ Busy history := by
  rw [isBusy_iff, pending_after hreports, Busy, ← closed_after h, Bool.not_eq_true]

theorem outcomes_eq_nil_of_lt (hn : (after history).tickets < n) : outcomes n history = [] := by
  induction history using List.reverseRecOn with
  | nil => rfl
  | append_singleton history e ih =>
    rw [after_concat] at hn
    have hgrows := (keeps_step (after history) e).tickets
    rw [outcomes_concat, ih (by omega), outcomes_step_of_lt (isTidy_after history) e hn,
      List.append_nil]

/-- A flush that is called while the sink is busy waits, and otherwise it is settled at once. -/
theorem step_flush (s : StreamSink) :
    (s.step .flush).answer = .ticket (s.tickets + 1) ∧
    (s.step .flush).sink.draining = s.draining ∧
    (s.step .flush).sink.isBusy = s.isBusy ∧
    (s.step .flush).outcomes (s.tickets + 1) = if s.isBusy then [] else [none] := by
  simp only [step, flush, Effect.outcomes, isBusy]
  split
  · simp_all
  · simp_all

/-- What a ticket of a flush sees of a history: it waits as long as the sink was busy at all times
since the flush was called, and otherwise it has been settled. -/
structure Awaited (n : Nat) (past later : List Event) : Prop where
  given : n ≤ (after (past ++ .flush :: later)).tickets
  draining : n ∉ (after (past ++ .flush :: later)).draining
  flushing : n ∈ (after (past ++ .flush :: later)).flushing ↔
    ∀ d, d <+: later → Busy (past ++ .flush :: d)
  outcomes : outcomes n (past ++ .flush :: later) =
    if n ∈ (after (past ++ .flush :: later)).flushing then [] else [none]

theorem awaited_start (hreports : ReportsWrites (past ++ [.flush]))
    (hheld : .release ∉ past ++ [.flush]) : Awaited ((after past).tickets + 1) past [] := by
  have htidy := isTidy_after past
  obtain ⟨_, hdraining, hbusy, houtcomes⟩ := step_flush (after past)
  have hkeeps := keeps_step (after past) .flush
  have hwaits : (after past).tickets + 1 ∈ ((after past).step .flush).sink.flushing ↔
      (after past).isBusy = true := by
    rw [flushing_step]
    cases hfree : (after past).isBusy <;> simp [htidy.not_mem_flushing]
  have hnow : (after past).isBusy = true ↔ Busy (past ++ [.flush]) := by
    rw [← isBusy_after hreports hheld, after_concat, hbusy]
  constructor
  · rw [after_concat, hkeeps.tickets]
    exact Nat.le_refl _
  · rw [after_concat, hdraining]
    exact htidy.not_mem_draining
  · rw [after_concat, hwaits, hnow]
    simp [List.prefix_nil]
  · rw [outcomes_concat, outcomes_eq_nil_of_lt (Nat.lt_succ_self _), List.nil_append,
      houtcomes, after_concat]
    simp only [hwaits]

theorem Awaited.concat (h : Awaited n past later)
    (hreports : ReportsWrites (past ++ .flush :: (later ++ [e])))
    (hheld : .release ∉ past ++ .flush :: (later ++ [e])) : Awaited n past (later ++ [e]) := by
  have hsplit : past ++ .flush :: (later ++ [e]) = (past ++ .flush :: later) ++ [e] := by simp
  rw [hsplit] at hreports hheld
  have hheld' : .release ∉ past ++ .flush :: later := fun hmem => hheld (List.mem_append_left _ hmem)
  have hflushes := flushes_after hheld'
  obtain ⟨hdraining, houtcomes⟩ := outcomes_step hflushes.nodup h.given h.draining e
  have hnew : n ≠ (after (past ++ .flush :: later)).tickets + 1 := by
    have hle := h.given
    omega
  have hbegins (d : List Event) : d <+: later ++ [e] ↔ d <+: later ∨ d = later ++ [e] := by
    rw [List.prefix_concat_iff, or_comm]
  have hwaits : n ∈ ((after (past ++ .flush :: later)).step e).sink.flushing ↔
      n ∈ (after (past ++ .flush :: later)).flushing ∧ Busy (past ++ .flush :: (later ++ [e])) := by
    by_cases hbefore : n ∈ (after (past ++ .flush :: later)).flushing
    · rw [mem_flushing_step hflushes (released_after_eq_false hheld') hbefore, ← after_concat,
        isBusy_after hreports hheld, hsplit]
      exact (and_iff_right hbefore).symm
    · have hjoins : n ∉ ((after (past ++ .flush :: later)).step e).sink.flushing := by
        rw [flushing_step]
        split_ifs <;> simp [hbefore, hnew]
      exact iff_of_false hjoins fun hboth => hbefore hboth.1
  constructor
  · rw [hsplit, after_concat, (keeps_step _ e).tickets]
    exact Nat.le_add_right_of_le h.given
  · rw [hsplit, after_concat]
    exact hdraining
  · rw [hsplit, after_concat, hwaits, h.flushing]
    constructor
    · rintro ⟨hbefore, hnow⟩ d hd
      rcases (hbegins d).mp hd with hd | rfl
      · exact hbefore d hd
      · exact hnow
    · intro hall
      exact ⟨fun d hd => hall d ((hbegins d).mpr (.inl hd)), hall _ List.prefix_rfl⟩
  · rw [hsplit, outcomes_concat, h.outcomes, houtcomes, after_concat]
    by_cases hbefore : n ∈ (after (past ++ .flush :: later)).flushing
    · by_cases hafter : n ∈ ((after (past ++ .flush :: later)).step e).sink.flushing
      · simp [hbefore, hafter]
      · simp [hbefore, hafter]
    · have hafter : n ∉ ((after (past ++ .flush :: later)).step e).sink.flushing := by
        rw [hwaits]
        exact fun hboth => hbefore hboth.1
      simp [hbefore, hafter]

theorem awaited_flush (hreports : ReportsWrites (past ++ .flush :: later))
    (hheld : .release ∉ past ++ .flush :: later) :
    Awaited ((after past).tickets + 1) past later := by
  induction later using List.reverseRecOn with
  | nil => exact awaited_start hreports hheld
  | append_singleton later e ih =>
    have hbegins : past ++ .flush :: later <+: past ++ .flush :: (later ++ [e]) := by
      rw [List.prefix_append_right_inj, List.prefix_cons_inj]
      exact List.prefix_append later [e]
    have hpast := ih (hreports.of_prefix hbegins) (fun hmem => hheld (hbegins.subset hmem))
    exact hpast.concat hreports hheld

/-- A flush that is called before the sink is released is settled as soon as no write is in flight
or the stream has closed, once and never with an error; until then it is not settled. The tickets
are the numbers of the waits, so this holds of each flush by itself. -/
theorem flush_waits_for_writes_in_flight (past later : List Event)
    (hreports : ReportsWrites (past ++ .flush :: later))
    (hheld : .release ∉ past ++ .flush :: later) :
    let n := past.countP Event.isWait + 1
    ((after past).step .flush).answer = .ticket n ∧
    ((∀ d, d <+: later → Busy (past ++ .flush :: d)) →
      outcomes n (past ++ .flush :: later) = []) ∧
    ((∃ d, d <+: later ∧ ¬ Busy (past ++ .flush :: d)) →
      outcomes n (past ++ .flush :: later) = [none]) := by
  intro n
  have hawaited := awaited_flush hreports hheld
  rw [tickets_after] at hawaited
  refine ⟨?_, ?_, ?_⟩
  · rw [(step_flush _).1, tickets_after]
  · intro hbusy
    rw [hawaited.outcomes, if_pos (hawaited.flushing.mpr hbusy)]
  · rintro ⟨d, hd, hfree⟩
    rw [hawaited.outcomes, if_neg fun hwaits => hfree (hawaited.flushing.mp hwaits d hd)]

instance (history : List Event) : Decidable (Busy history) :=
  inferInstanceAs (Decidable (_ ∧ _))

theorem reportsWrites_iff_inits :
    ReportsWrites history ↔
      ∀ past ∈ history.inits, past.countP Event.isReport ≤ issued past := by
  simp only [ReportsWrites, List.mem_inits]

/-- Of two flushes that overlap, the second also waits for the write that was made between them:
the failed report on the first write does not wake it, but the close does. -/
theorem second_flush_waits_for_second_write :
    let past : List Event := [.write true, .flush, .write false]
    let later : List Event := [.reported (some "lost"), .ready]
    ReportsWrites (past ++ .flush :: (later ++ [.close])) ∧
      .release ∉ past ++ .flush :: (later ++ [.close]) ∧
      outcomes 2 (past ++ .flush :: later) = [] ∧
      outcomes 2 (past ++ .flush :: (later ++ [.close])) = [none] := by
  intro past later
  have hreports : ReportsWrites (past ++ .flush :: (later ++ [.close])) := by
    rw [reportsWrites_iff_inits]
    decide
  have hheld : .release ∉ past ++ .flush :: (later ++ [.close]) := by decide
  have hbegins : past ++ .flush :: later <+: past ++ .flush :: (later ++ [.close]) := by
    exact ⟨[.close], by decide⟩
  have hbusy : ∀ d, d <+: later → Busy (past ++ .flush :: d) := by
    intro d hd
    have hall : ∀ d ∈ later.inits, Busy (past ++ .flush :: d) := by decide
    exact hall d ((List.mem_inits d later).mpr hd)
  have hclosed : ¬ Busy (past ++ .flush :: (later ++ [.close])) := by decide
  obtain ⟨_, hwaits, _⟩ := flush_waits_for_writes_in_flight past later
    (hreports.of_prefix hbegins) (fun hmem => hheld (hbegins.subset hmem))
  obtain ⟨_, _, hsettled⟩ := flush_waits_for_writes_in_flight past (later ++ [.close]) hreports hheld
  exact ⟨hreports, hheld, hwaits hbusy, hsettled ⟨_, List.prefix_rfl, hclosed⟩⟩

end LiveProgress.StreamSink
