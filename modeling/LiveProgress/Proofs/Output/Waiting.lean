import LiveProgress.Output.History
import Mathlib.Data.List.Induction
import Mathlib.Data.List.Nodup
import Mathlib.Tactic.Common

/-!
# Waiting for a stream to drain

A wait begins if a write was refused and no drain has been heard since. Nothing but a drain or an
error ends it, so it is in vain exactly if it begins behind a drain or a close that no one heard,
or if the stream closes in the course of it.
-/

namespace LiveProgress.StreamSink

variable {s : StreamSink} {e : Event}

/-! ### Steps -/

/-- What an event does to those who wait: it leaves them alone, wakes those of one kind, or adds
a call, which is answered at once or waits with the others of its kind. -/
inductive Turn (s : StreamSink) (e : Event) (effect : Effect) : Prop
  | idle (answer : ∀ n, effect.answer ≠ .ticket n) (settled : effect.settled = [])
      (tickets : effect.sink.tickets = s.tickets)
      (draining : effect.sink.draining = s.draining)
      (flushing : effect.sink.flushing = s.flushing)
  | wakesDraining (answer : ∀ n, effect.answer ≠ .ticket n) (error : Option String)
      (settled : effect.settled = settle s.draining error)
      (tickets : effect.sink.tickets = s.tickets)
      (draining : effect.sink.draining = [])
      (flushing : effect.sink.flushing = s.flushing)
  | wakesFlushing (answer : ∀ n, effect.answer ≠ .ticket n)
      (settled : effect.settled = settle s.flushing none)
      (tickets : effect.sink.tickets = s.tickets)
      (draining : effect.sink.draining = s.draining)
      (flushing : effect.sink.flushing = [])
  | answered (answer : effect.answer = .ticket (s.tickets + 1)) (error : Option String)
      (settled : effect.settled = [⟨s.tickets + 1, error⟩])
      (tickets : effect.sink.tickets = s.tickets + 1)
      (draining : effect.sink.draining = s.draining)
      (flushing : effect.sink.flushing = s.flushing)
  | drains (call : e = .ready) (answer : effect.answer = .ticket (s.tickets + 1))
      (settled : effect.settled = []) (tickets : effect.sink.tickets = s.tickets + 1)
      (draining : effect.sink.draining = s.draining ++ [s.tickets + 1])
      (flushing : effect.sink.flushing = s.flushing)
  | flushes (call : e = .flush) (answer : effect.answer = .ticket (s.tickets + 1))
      (settled : effect.settled = []) (tickets : effect.sink.tickets = s.tickets + 1)
      (draining : effect.sink.draining = s.draining)
      (flushing : effect.sink.flushing = s.flushing ++ [s.tickets + 1])

theorem turn_step (s : StreamSink) (e : Event) : s.Turn e (s.step e) := by
  cases e with
  | write accepted =>
    simp only [step, write]
    cases s.failure with
    | none => exact .idle (by simp) rfl rfl rfl rfl
    | some error => exact .idle (by simp) rfl rfl rfl rfl
  | reported error =>
    simp only [step, reported]
    have hrecord : (error.elim s s.record).draining = s.draining ∧
        (error.elim s s.record).flushing = s.flushing ∧
        (error.elim s s.record).tickets = s.tickets := by
      cases error with
      | none => exact ⟨rfl, rfl, rfl⟩
      | some text => exact ⟨rfl, rfl, rfl⟩
    obtain ⟨hdraining, hflushing, htickets⟩ := hrecord
    split
    · apply Turn.wakesFlushing
      · simp [wake]
      · simp [wake, hflushing]
      · exact htickets
      · exact hdraining
      · rfl
    · exact .idle (by simp) rfl htickets hdraining hflushing
  | error text =>
    apply Turn.wakesDraining
    · simp [step, onError]
    · rfl
    · simp only [step, onError]
      split <;> rfl
    · rfl
    · simp only [step, onError]
      split <;> rfl
  | close =>
    simp only [step, onClose]
    split
    · exact .idle (by simp) rfl rfl rfl rfl
    · exact .wakesFlushing (by simp [wake]) rfl rfl rfl rfl
  | drain =>
    simp only [step, onDrain]
    split
    · exact .idle (by simp) rfl rfl rfl rfl
    · exact .wakesDraining (by simp) none rfl rfl rfl rfl
  | ready =>
    simp only [step, ready]
    cases s.failure with
    | some error => exact .answered rfl (some error) rfl rfl rfl rfl
    | none =>
      dsimp only
      split
      · exact .drains rfl rfl rfl rfl rfl rfl
      · exact .answered rfl none rfl rfl rfl rfl
  | flush =>
    simp only [step, flush]
    split
    · exact .flushes rfl rfl rfl rfl rfl rfl
    · exact .answered rfl none rfl rfl rfl rfl
  | assertHealthy =>
    simp only [step, assertHealthy]
    cases s.failure with
    | none => exact .idle (by simp) rfl rfl rfl rfl
    | some error => exact .idle (by simp) rfl rfl rfl rfl
  | release => exact .idle (by simp [step, release]) rfl rfl rfl rfl

/-- The tickets of those who wait have been given out, each for one kind of wait. -/
structure IsTidy (s : StreamSink) : Prop where
  disjoint : s.draining.Disjoint s.flushing
  draining : ∀ n ∈ s.draining, n ≤ s.tickets
  flushing : ∀ n ∈ s.flushing, n ≤ s.tickets

namespace IsTidy

theorem not_mem_draining (h : s.IsTidy) : s.tickets + 1 ∉ s.draining := by
  intro hmem
  have hle := h.draining _ hmem
  omega

theorem not_mem_flushing (h : s.IsTidy) : s.tickets + 1 ∉ s.flushing := by
  intro hmem
  have hle := h.flushing _ hmem
  omega

theorem step (h : s.IsTidy) (e : Event) : (s.step e).sink.IsTidy := by
  cases turn_step s e with
  | idle _ _ htickets hdraining hflushing =>
    constructor
    · rw [hdraining, hflushing]
      exact h.disjoint
    · rw [hdraining, htickets]
      exact h.draining
    · rw [hflushing, htickets]
      exact h.flushing
  | wakesDraining _ _ _ htickets hdraining hflushing =>
    constructor
    · rw [hdraining]
      exact List.disjoint_nil_left _
    · rw [hdraining]
      exact fun n hn => absurd hn List.not_mem_nil
    · rw [hflushing, htickets]
      exact h.flushing
  | wakesFlushing _ _ htickets hdraining hflushing =>
    constructor
    · rw [hflushing]
      exact List.disjoint_nil_right _
    · rw [hdraining, htickets]
      exact h.draining
    · rw [hflushing]
      exact fun n hn => absurd hn List.not_mem_nil
  | answered _ _ _ htickets hdraining hflushing =>
    constructor
    · rw [hdraining, hflushing]
      exact h.disjoint
    · rw [hdraining, htickets]
      exact fun n hn => Nat.le_succ_of_le (h.draining n hn)
    · rw [hflushing, htickets]
      exact fun n hn => Nat.le_succ_of_le (h.flushing n hn)
  | drains _ _ _ htickets hdraining hflushing =>
    constructor
    · rw [hdraining, hflushing, List.disjoint_append_left, List.singleton_disjoint]
      exact ⟨h.disjoint, h.not_mem_flushing⟩
    · rw [hdraining, htickets, List.forall_mem_append, List.forall_mem_singleton]
      exact ⟨fun n hn => Nat.le_succ_of_le (h.draining n hn), Nat.le_refl _⟩
    · rw [hflushing, htickets]
      exact fun n hn => Nat.le_succ_of_le (h.flushing n hn)
  | flushes _ _ _ htickets hdraining hflushing =>
    constructor
    · rw [hdraining, hflushing, List.disjoint_append_right, List.disjoint_singleton]
      exact ⟨h.disjoint, h.not_mem_draining⟩
    · rw [hdraining, htickets]
      exact fun n hn => Nat.le_succ_of_le (h.draining n hn)
    · rw [hflushing, htickets, List.forall_mem_append, List.forall_mem_singleton]
      exact ⟨fun n hn => Nat.le_succ_of_le (h.flushing n hn), Nat.le_refl _⟩

end IsTidy

namespace Effect

variable {effect : Effect} {call : Event}

theorem given_of_no_ticket (h : ∀ n, effect.answer ≠ .ticket n) : effect.given call e = [] := by
  unfold given
  split
  · rename_i n hanswer
    exact absurd hanswer (h n)
  · rfl

theorem given_of_ticket {n : Nat} (h : effect.answer = .ticket n) :
    effect.given call e = if e = call then [n] else [] := by
  rw [given, h]

theorem given_of_ne (h : e ≠ call) : effect.given call e = [] := by
  unfold given
  split
  · exact if_neg h
  · rfl

theorem settles_of_settle {tickets : List Nat} {error : Option String}
    (h : effect.settled = settle tickets error) (n : Nat) :
    effect.settles n = decide (n ∈ tickets) := by
  rw [Bool.eq_iff_iff]
  simp [settles, h, settle]

end Effect

/-- The tickets that wait for the stream to drain are those of waits that are not settled. -/
theorem draining_step (h : s.IsTidy) (e : Event) :
    (s.step e).sink.draining =
      (s.draining ++ (s.step e).given .ready e).filter (! (s.step e).settles ·) := by
  cases turn_step s e with
  | idle hanswer hsettled _ hdraining =>
    rw [Effect.given_of_no_ticket hanswer, hdraining]
    simp [Effect.settles, hsettled]
  | wakesDraining hanswer error hsettled _ hdraining =>
    rw [Effect.given_of_no_ticket hanswer, hdraining]
    simp [Effect.settles_of_settle hsettled]
  | wakesFlushing hanswer hsettled _ hdraining =>
    rw [Effect.given_of_no_ticket hanswer, hdraining, List.append_nil, eq_comm,
      List.filter_eq_self]
    intro n hn
    have hother := h.disjoint hn
    simpa [Effect.settles_of_settle hsettled] using hother
  | answered hanswer error hsettled _ hdraining =>
    have hsettles (n : Nat) : (s.step e).settles n = decide (n = s.tickets + 1) := by
      rw [Effect.settles, hsettled, Bool.eq_iff_iff]
      simp only [List.any_cons, List.any_nil, Bool.or_false, beq_iff_eq, decide_eq_true_eq]
      exact eq_comm
    have hgiven : ∀ n ∈ (s.step e).given .ready e, n = s.tickets + 1 := by
      intro n hn
      rw [Effect.given_of_ticket hanswer] at hn
      split at hn
      · exact List.mem_singleton.mp hn
      · exact absurd hn List.not_mem_nil
    have hkept : s.draining.filter (! (s.step e).settles ·) = s.draining := by
      rw [List.filter_eq_self]
      intro n hn
      have hne : n ≠ s.tickets + 1 := fun heq => h.not_mem_draining (heq ▸ hn)
      simpa [hsettles] using hne
    have hnone : ((s.step e).given .ready e).filter (! (s.step e).settles ·) = [] := by
      rw [List.filter_eq_nil_iff]
      intro n hn
      simpa [hsettles] using hgiven n hn
    rw [hdraining, List.filter_append, hkept, hnone, List.append_nil]
  | drains hcall hanswer hsettled _ hdraining =>
    have hgiven : (s.step e).given .ready e = [s.tickets + 1] := by
      rw [Effect.given_of_ticket hanswer, if_pos hcall]
    rw [hgiven, hdraining]
    simp [Effect.settles, hsettled]
  | flushes hcall _ hsettled _ hdraining =>
    have hgiven : (s.step e).given .ready e = [] :=
      Effect.given_of_ne (by rw [hcall]; exact Event.noConfusion)
    rw [hgiven, hdraining]
    simp [Effect.settles, hsettled]

/-! ### Histories -/

theorem after_concat (history : List Event) (e : Event) :
    after (history ++ [e]) = ((after history).step e).sink := by
  rw [after, List.foldl_append]
  rfl

theorem waiting_concat (call : Event) (history : List Event) (e : Event) :
    waiting call (history ++ [e]) =
      (waiting call history ++ ((after history).step e).given call e).filter
        (! ((after history).step e).settles ·) := by
  have hsink : ∀ w : StreamSink × List Nat,
      (history.foldl (fun (w : StreamSink × List Nat) e =>
        let effect := w.1.step e
        (effect.sink, (w.2 ++ effect.given call e).filter (! effect.settles ·))) w).1 =
      history.foldl (fun s e => (s.step e).sink) w.1 := by
    induction history with
    | nil => exact fun w => rfl
    | cons e history ih => exact fun w => ih _
  simp only [waiting, List.foldl_append, List.foldl_cons, List.foldl_nil, hsink]
  rfl

theorem isTidy_after (history : List Event) : (after history).IsTidy := by
  induction history using List.reverseRecOn with
  | nil =>
    constructor
    · exact List.disjoint_nil_left _
    · exact fun n hn => absurd hn List.not_mem_nil
    · exact fun n hn => absurd hn List.not_mem_nil
  | append_singleton history e ih =>
    rw [after_concat]
    exact ih.step e

theorem waiting_ready (history : List Event) :
    waiting .ready history = (after history).draining := by
  induction history using List.reverseRecOn with
  | nil => rfl
  | append_singleton history e ih =>
    rw [waiting_concat, ih, after_concat, draining_step (isTidy_after history)]

/-! ### Refusals -/

/-- A refusal of the past goes on with each event that has the property; an event that is itself
a refused write begins one. -/
theorem sinceRefusal_concat {P : List Event → Event → Prop} (history : List Event) (e : Event) :
    SinceRefusal P (history ++ [e]) ↔
      (e = .write false ∧ (after history).failure = none) ∨
        (SinceRefusal P history ∧ P history e) := by
  constructor
  · rintro ⟨a, b, hsplit, hhealthy, hsince⟩
    rcases List.eq_nil_or_concat' b with rfl | ⟨b, last, rfl⟩
    · obtain ⟨rfl, hlast⟩ := List.append_inj' hsplit rfl
      exact .inl ⟨List.singleton_inj.mp hlast, hhealthy⟩
    · rw [← List.cons_append, ← List.append_assoc] at hsplit
      obtain ⟨rfl, hlast⟩ := List.append_inj' hsplit rfl
      obtain rfl := List.singleton_inj.mp hlast
      right
      constructor
      · refine ⟨a, b, rfl, hhealthy, ?_⟩
        intro c e' d hb
        apply hsince c e' (d ++ [e])
        simp [hb]
      · exact hsince b e [] (by simp)
  · rintro (⟨rfl, hhealthy⟩ | ⟨⟨a, b, rfl, hhealthy, hsince⟩, hlast⟩)
    · refine ⟨history, [], rfl, hhealthy, ?_⟩
      intro c e d hnil
      exact absurd hnil (by simp)
    · refine ⟨a, b ++ [e], by simp, hhealthy, ?_⟩
      intro c e' d hb
      rcases List.eq_nil_or_concat' d with rfl | ⟨d, last, rfl⟩
      · obtain ⟨rfl, hlast'⟩ := List.append_inj' hb rfl
        obtain rfl := List.singleton_inj.mp hlast'
        exact hlast
      · rw [← List.cons_append, ← List.append_assoc] at hb
        obtain ⟨rfl, -⟩ := List.append_inj' hb rfl
        exact hsince c e' d rfl

theorem not_sinceRefusal_nil {P : List Event → Event → Prop} : ¬ SinceRefusal P [] := by
  rintro ⟨a, b, hnil, -⟩
  exact absurd hnil (by simp)

theorem owed_concat (history : List Event) (e : Event) :
    Owed (history ++ [e]) ↔
      (e = .write false ∧ (after history).failure = none) ∨
        (Owed history ∧ e.relieves = false) :=
  sinceRefusal_concat history e

theorem not_owed_of_relieves {e : Event} (h : e.relieves = true) (history : List Event) :
    ¬ Owed (history ++ [e]) := by
  rw [owed_concat]
  rintro (⟨rfl, _⟩ | ⟨_, hnot⟩)
  · exact absurd h Bool.false_ne_true
  · exact absurd (h.symm.trans hnot) (Ne.symm Bool.false_ne_true)

/-- The sink remembers a refusal until a drain is heard. -/
theorem needsDrain_step (s : StreamSink) (e : Event) :
    (s.step e).sink.needsDrain = true ↔
      (e = .write false ∧ s.failure = none) ∨
        (s.needsDrain = true ∧ (e = .drain → s.draining = [])) := by
  cases e with
  | write accepted =>
    simp only [step, write]
    cases s.failure with
    | some error => simp
    | none => cases accepted <;> simp
  | reported error =>
    simp only [step, reported]
    cases error <;> split <;> simp [wake, record]
  | error text =>
    simp only [step, onError]
    split <;> simp [record]
  | close =>
    simp only [step, onClose]
    split <;> simp [wake]
  | drain =>
    simp only [step, onDrain]
    cases hdraining : s.draining <;> simp
  | ready =>
    simp only [step, ready]
    cases s.failure with
    | some error => simp
    | none => cases s.needsDrain <;> simp
  | flush =>
    simp only [step, flush]
    split <;> simp
  | assertHealthy => simp [step, assertHealthy]
  | release => simp [step, release]

theorem needsDrain_after (history : List Event) :
    (after history).needsDrain = true ↔ Unheard history := by
  induction history using List.reverseRecOn with
  | nil =>
    constructor
    · exact fun h => absurd h Bool.false_ne_true
    · exact fun h => absurd h not_sinceRefusal_nil
  | append_singleton history e ih =>
    rw [after_concat, needsDrain_step, ih, ← waiting_ready]
    exact (sinceRefusal_concat history e).symm

/-- Someone waits behind an event who waited before and was not woken by it, or who begins. -/
theorem draining_step_ne_nil (s : StreamSink) (e : Event) :
    (s.step e).sink.draining ≠ [] ↔
      (s.draining ≠ [] ∧ (e.relieves = true → e = .close)) ∨
        (e = .ready ∧ s.failure = none ∧ s.needsDrain = true) := by
  cases e with
  | write accepted =>
    simp only [step, write]
    cases s.failure <;> simp [Event.relieves]
  | reported error =>
    simp only [step, reported]
    cases error <;> split <;> simp [wake, record, Event.relieves]
  | error text =>
    simp [step, onError, Event.relieves]
  | close =>
    simp only [step, onClose]
    split <;> simp [wake]
  | drain =>
    simp only [step, onDrain]
    cases hdraining : s.draining <;> simp [hdraining, Event.relieves]
  | ready =>
    simp only [step, ready]
    cases s.failure with
    | some error => simp [Event.relieves]
    | none => cases s.needsDrain <;> simp [Event.relieves]
  | flush =>
    simp only [step, flush]
    split <;> simp [Event.relieves]
  | assertHealthy => simp [step, assertHealthy, Event.relieves]
  | release => simp [step, release, Event.relieves]

/-- No wait is in vain exactly if the stream does not close while someone waits, and no wait
begins behind a drain or a close that came after the last refusal and that no one heard. -/
theorem waits_are_owed_iff (history : List Event) :
    (∀ past, past <+: history → waiting .ready past ≠ [] → Owed past) ↔
      ∀ past e, past ++ [e] <+: history →
        (e = .close → waiting .ready past = []) ∧
        (e = .ready → (after past).failure = none → Unheard past → Owed past) := by
  simp only [waiting_ready, ← needsDrain_after]
  constructor
  · intro h past e hprefix
    have hnow := h (past ++ [e]) hprefix
    rw [after_concat, draining_step_ne_nil] at hnow
    constructor
    · rintro rfl
      by_contra hwaits
      exact not_owed_of_relieves rfl past (hnow (.inl ⟨hwaits, fun _ => rfl⟩))
    · rintro rfl hhealthy hneeds
      rw [owed_concat] at hnow
      rcases hnow (.inr ⟨rfl, hhealthy, hneeds⟩) with ⟨hwrite, _⟩ | ⟨howes, _⟩
      · exact Event.noConfusion hwrite
      · exact howes
  · intro h past hprefix hwaits
    induction past using List.reverseRecOn with
    | nil => exact absurd rfl hwaits
    | append_singleton past e ih =>
      obtain ⟨hclose, hready⟩ := h past e hprefix
      rw [after_concat, draining_step_ne_nil] at hwaits
      rw [owed_concat]
      right
      rcases hwaits with ⟨hbefore, hrelieves⟩ | ⟨rfl, hhealthy, hneeds⟩
      · constructor
        · exact ih ((List.prefix_append past [e]).trans hprefix) hbefore
        · cases hr : e.relieves with
          | false => rfl
          | true => exact absurd (hclose (hrelieves hr)) hbefore
      · exact ⟨hready rfl hhealthy hneeds, rfl⟩

/-- A drain that comes before the wait is not heard, and a close in the course of the wait does
not end it: the stream owes nothing any more, but the wait goes on. -/
theorem wait_misses_its_wake_up :
    let drained : List Event := [.write false, .drain, .ready]
    let closed : List Event := [.write false, .ready, .close]
    (.release ∉ drained ∧ waiting .ready drained = [1] ∧ ¬ Owed drained) ∧
      (.release ∉ closed ∧ waiting .ready closed = [1] ∧ ¬ Owed closed) := by
  intro drained closed
  constructor
  · refine ⟨by decide, by decide, ?_⟩
    intro h
    rcases (owed_concat [.write false, .drain] .ready).mp h with ⟨hwrite, _⟩ | ⟨h, _⟩
    · exact Event.noConfusion hwrite
    · exact not_owed_of_relieves rfl [.write false] h
  · exact ⟨by decide, by decide, not_owed_of_relieves rfl [.write false, .ready]⟩

end LiveProgress.StreamSink
