import LiveProgress.Proofs.Output.Waiting

/-!
# What a sink keeps

A sink keeps the first error that it is told, the number of its writes in flight and of the
tickets that it has given out, whether its stream has closed, and whether it has let go of it.
All of this is told by the history alone.
-/

namespace LiveProgress.StreamSink

/-! ### Steps -/

/-- How an event changes what the sink keeps. -/
structure Keeps (s : StreamSink) (e : Event) (effect : Effect) : Prop where
  failure : effect.sink.failure = s.failure.or (e.told s.released)
  pending : effect.sink.pending = s.pending + effect.answer.isWritten.toNat - e.isReport.toNat
  tickets : effect.sink.tickets = s.tickets + e.isWait.toNat
  closed : effect.sink.closed = (s.closed || (e == .close && !s.released))
  released : effect.sink.released = (s.released || e == .release)

theorem keeps_step (s : StreamSink) (e : Event) : s.Keeps e (s.step e) := by
  cases e with
  | write accepted =>
    simp only [step, write]
    split <;> constructor <;> simp
  | reported error =>
    simp only [step, reported]
    cases error <;> split <;> constructor <;> simp [wake, record]
  | error text =>
    simp only [step, onError]
    split <;> constructor <;> simp_all [record]
  | close =>
    simp only [step, onClose]
    split <;> constructor <;> simp_all [wake]
  | drain =>
    simp only [step, onDrain]
    split <;> constructor <;> simp
  | ready =>
    simp only [step, ready]
    split
    · constructor <;> simp
    · split <;> constructor <;> simp
  | flush =>
    simp only [step, flush]
    split <;> constructor <;> simp
  | assertHealthy =>
    simp only [step, assertHealthy]
    cases s.failure <;> constructor <;> simp
  | release => constructor <;> simp [step, release]

/-! ### Histories -/

theorem effects_concat (s : StreamSink) (history : List Event) (e : Event) :
    effects s (history ++ [e]) =
      effects s history ++ [(history.foldl (fun s e => (s.step e).sink) s).step e] := by
  induction history generalizing s with
  | nil => rfl
  | cons first history ih => simp only [List.cons_append, effects, ih, List.foldl_cons]

theorem outcomes_concat (n : Nat) (history : List Event) (e : Event) :
    outcomes n (history ++ [e]) = outcomes n history ++ ((after history).step e).outcomes n := by
  simp only [outcomes, effects_concat, List.flatMap_append, List.flatMap_cons, List.flatMap_nil,
    List.append_nil]
  rfl

theorem issued_concat (history : List Event) (e : Event) :
    issued (history ++ [e]) =
      issued history + ((after history).step e).answer.isWritten.toNat := by
  simp only [issued, effects_concat, List.countP_append, List.countP_singleton]
  change _ + (if ((after history).step e).answer.isWritten then 1 else 0) = _
  cases ((after history).step e).answer.isWritten <;> rfl

theorem tickets_after (history : List Event) :
    (after history).tickets = history.countP Event.isWait := by
  induction history using List.reverseRecOn with
  | nil => rfl
  | append_singleton history e ih =>
    rw [after_concat, (keeps_step _ e).tickets, ih, List.countP_append, List.countP_singleton]
    cases e.isWait <;> rfl

theorem released_after (history : List Event) :
    (after history).released = true ↔ .release ∈ history := by
  induction history using List.reverseRecOn with
  | nil => simp [after]
  | append_singleton history e ih =>
    rw [after_concat, (keeps_step _ e).released, Bool.or_eq_true, ih, beq_iff_eq,
      List.mem_append, List.mem_singleton, eq_comm (a := e)]

/-- Until it is released, a sink hears of the close of its stream. -/
theorem closed_after {history : List Event} (h : .release ∉ history) :
    (after history).closed = true ↔ .close ∈ history := by
  induction history using List.reverseRecOn with
  | nil => simp [after]
  | append_singleton history e ih =>
    rw [List.mem_append, not_or] at h
    have hheld : (after history).released = false := by
      rw [← Bool.not_eq_true, released_after]
      exact h.1
    rw [after_concat, (keeps_step _ e).closed, hheld, Bool.not_false, Bool.and_true,
      Bool.or_eq_true, ih h.1, beq_iff_eq, List.mem_append, List.mem_singleton, eq_comm (a := e)]

theorem ReportsWrites.of_prefix {past history : List Event} (h : ReportsWrites history)
    (hbegins : past <+: history) : ReportsWrites past :=
  fun _ hpast => h _ (hpast.trans hbegins)

/-- The sink counts the writes in flight. -/
theorem pending_after {history : List Event} (h : ReportsWrites history) :
    (after history).pending = outstanding history := by
  induction history using List.reverseRecOn with
  | nil => rfl
  | append_singleton history e ih =>
    have hpast := h.of_prefix (List.prefix_append history [e])
    have hreports := hpast history List.prefix_rfl
    rw [after_concat, (keeps_step _ e).pending, ih hpast, outstanding, outstanding, issued_concat,
      List.countP_append, List.countP_singleton]
    cases e.isReport <;> simp only [Bool.toNat_true, Bool.toNat_false, if_true,
      Bool.false_eq_true, if_false] <;> omega

/-- Having failed, the sink keeps the first error that it was told. -/
theorem failure_foldl (s : StreamSink) (history : List Event) :
    (history.foldl (fun s e => (s.step e).sink) s).failure =
      s.failure.or (firstError s.released history) := by
  induction history generalizing s with
  | nil => simp [firstError]
  | cons e history ih =>
    have hkeeps := keeps_step s e
    rw [List.foldl_cons, ih, hkeeps.failure, hkeeps.released, firstError, Option.or_assoc]

theorem failure_after (history : List Event) :
    (after history).failure = firstError false history := by
  rw [after, failure_foldl, Option.none_or]

end LiveProgress.StreamSink
