import LiveProgress.Proofs.Output.Record

/-!
# The first error

A sink that has been told of an error fails every call with it, and gives nothing more to its
stream; until then it hands on each text as it is. Only who still waits for the stream to drain
when the sink is released is told of errors that the sink does not hear of any more.
-/

namespace LiveProgress.StreamSink

variable {s : StreamSink} {e : Event} {error : String}

/-! ### Calls -/

theorem send_of_failure {σ : Type} (take : σ → String → Bool × σ) (stream : σ) (text : String)
    (h : s.failure = some error) :
    s.send take stream text = ({ answer := .failed error, sink := s }, stream) := by
  simp only [send, step, assertHealthy, h, Option.elim_some]

theorem send_of_healthy {σ : Type} (take : σ → String → Bool × σ) (stream : σ) (text : String)
    (h : s.failure = none) :
    s.send take stream text = (s.step (.write (take stream text).1), (take stream text).2) := by
  simp only [send, step, assertHealthy, h, Option.elim_none]

theorem answer_assertHealthy (s : StreamSink) :
    (s.step .assertHealthy).answer = s.failure.elim .done .failed := rfl

theorem ready_of_failed (h : s.failure = some error) :
    (s.step .ready).answer = .ticket (s.tickets + 1) ∧
      (s.step .ready).settled = [⟨s.tickets + 1, some error⟩] := by
  simp only [step, ready, h, and_self]

/-! ### Settlements -/

theorem mem_settle {x : Settlement} {tickets : List Nat} {outcome : Option String} :
    x ∈ settle tickets outcome ↔ x.ticket ∈ tickets ∧ x.error = outcome := by
  simp only [settle, List.mem_map]
  constructor
  · rintro ⟨n, hn, rfl⟩
    exact ⟨hn, rfl⟩
  · rintro ⟨hn, rfl⟩
    exact ⟨x.ticket, hn, rfl⟩

/-- A wait fails if it begins when the sink has failed, or if the stream fails in its course. -/
theorem failed_settlement {x : Settlement} (hx : x ∈ (s.step e).settled)
    (herror : x.error = some error) :
    (e = .ready ∧ s.failure = some error) ∨ (e = .error error ∧ x.ticket ∈ s.draining) := by
  have hwoken {tickets : List Nat} (hmem : x ∈ settle tickets none) : False := by
    rw [mem_settle, herror] at hmem
    exact absurd hmem.2 (Option.some_ne_none error)
  have hanswered {n : Nat} (hmem : x ∈ [Settlement.mk n none]) : False := by
    rw [List.mem_singleton.mp hmem] at herror
    exact absurd herror.symm (Option.some_ne_none error)
  cases e with
  | write accepted =>
    simp only [step, write] at hx
    split at hx <;> exact absurd hx List.not_mem_nil
  | reported outcome =>
    simp only [step, reported] at hx
    split at hx
    · exact (hwoken hx).elim
    · exact absurd hx List.not_mem_nil
  | error text =>
    obtain ⟨hwaits, htext⟩ := mem_settle.mp hx
    rw [herror] at htext
    exact .inr ⟨by rw [Option.some.inj htext], hwaits⟩
  | close =>
    simp only [step, onClose] at hx
    split at hx
    · exact absurd hx List.not_mem_nil
    · exact (hwoken hx).elim
  | drain =>
    simp only [step, onDrain] at hx
    split at hx
    · exact absurd hx List.not_mem_nil
    · exact (hwoken hx).elim
  | ready =>
    cases hfailure : s.failure with
    | some first =>
      rw [(ready_of_failed hfailure).2, List.mem_singleton] at hx
      rw [hx] at herror
      exact .inl ⟨rfl, herror⟩
    | none =>
      simp only [step, ready, hfailure] at hx
      split at hx
      · exact absurd hx List.not_mem_nil
      · exact (hanswered hx).elim
  | flush =>
    simp only [step, flush] at hx
    split at hx
    · exact absurd hx List.not_mem_nil
    · exact (hanswered hx).elim
  | assertHealthy => exact absurd hx List.not_mem_nil
  | release => exact absurd hx List.not_mem_nil

/-! ### Histories -/

/-- The first error stays the first, whatever comes behind it. -/
theorem failure_after_append {past : List Event} (h : firstError false past = some error)
    (later : List Event) : (after (past ++ later)).failure = some error := by
  have hpast := failure_after past
  rw [after] at hpast
  rw [after, List.foldl_append, failure_foldl, hpast, h]
  rfl

/-- Once the sink has been told of an error, each write, check or wait that begins later fails
with the first one, and the stream is given nothing more. Before that no check or write fails, and
a write gives its text to the stream and answers as the stream does; nor does a wait fail, except
one that is still going on when the stream fails after the sink has been released. -/
theorem first_error_is_final {σ : Type} (take : σ → String → Bool × σ) (stream : σ)
    (text : String) (past later : List Event) :
    let history := past ++ later
    let s := after history
    let n := history.countP Event.isWait + 1
    (∀ error, firstError false past = some error →
      s.send take stream text = ({ answer := .failed error, sink := s }, stream) ∧
      (s.step .assertHealthy).answer = .failed error ∧
      (s.step .ready).answer = .ticket n ∧
      (s.step .ready).settled = [⟨n, some error⟩]) ∧
    (firstError false history = none →
      (s.send take stream text).1.answer = .written (take stream text).1 ∧
      (s.send take stream text).2 = (take stream text).2 ∧
      (s.step .assertHealthy).answer = .done ∧
      ∀ e, firstError false (history ++ [e]) = none →
        ∀ x ∈ (s.step e).settled, ∀ error, x.error = some error →
          .release ∈ history ∧ e = .error error ∧ x.ticket ∈ waiting .ready history) := by
  intro history s n
  have htickets : s.tickets + 1 = n := by rw [tickets_after]
  constructor
  · intro error hpast
    have hfailure : s.failure = some error := failure_after_append hpast later
    obtain ⟨hanswer, hsettled⟩ := ready_of_failed hfailure
    rw [htickets] at hanswer hsettled
    refine ⟨send_of_failure take stream text hfailure, ?_, hanswer, hsettled⟩
    rw [answer_assertHealthy, hfailure]
    rfl
  · intro hhealthy
    have hfailure : s.failure = none := (failure_after history).trans hhealthy
    rw [send_of_healthy take stream text hfailure]
    refine ⟨?_, rfl, ?_, ?_⟩
    · simp only [step, write, hfailure]
    · rw [answer_assertHealthy, hfailure]
      rfl
    · intro e hunheard x hx error herror
      rcases failed_settlement hx herror with ⟨rfl, hfailed⟩ | ⟨rfl, hwaits⟩
      · rw [hfailure] at hfailed
        exact absurd hfailed.symm (Option.some_ne_none error)
      · rw [← failure_after, after_concat, (keeps_step s _).failure, hfailure, Option.none_or]
          at hunheard
        refine ⟨?_, rfl, ?_⟩
        · rw [← released_after]
          by_contra hheld
          rw [Bool.not_eq_true] at hheld
          simp [s, hheld] at hunheard
        · rw [waiting_ready]
          exact hwaits

/-- The error of a report comes after the release and before another one; the stream, which is
told by the texts that it was given, is not given the last one. -/
theorem first_error_of_released_sink :
    let take (given : List String) (text : String) := (true, given ++ [text])
    let past : List Event := [.write true, .release, .error "unheard", .reported (some "first")]
    let later : List Event := [.error "second", .ready]
    firstError false past = some "first" ∧
      ((after (past ++ later)).send take ["a"] "b").1.answer = .failed "first" ∧
      ((after (past ++ later)).send take ["a"] "b").2 = ["a"] ∧
      firstError false (past.take 3) = none ∧
      ((after (past.take 3)).send take ["a"] "b").1.answer = .written true ∧
      ((after (past.take 3)).send take ["a"] "b").2 = ["a", "b"] := by
  intro take past later
  have htold : firstError false past = some "first" := by decide
  have huntold : firstError false (past.take 3 ++ []) = none := by decide
  obtain ⟨hfails, _⟩ := first_error_is_final take ["a"] "b" past later
  obtain ⟨hsend, _⟩ := hfails "first" htold
  obtain ⟨_, hhealthy⟩ := first_error_is_final take ["a"] "b" (past.take 3) []
  obtain ⟨hanswer, hgiven, _⟩ := hhealthy huntold
  rw [hsend]
  exact ⟨htold, rfl, rfl, huntold, hanswer, hgiven⟩

/-- A wait that began before the sink was released fails with an error of the stream that the sink
is not told of. -/
theorem wait_fails_with_unheard_error :
    let history : List Event := [.write false, .ready, .release]
    firstError false (history ++ [.error "lost"]) = none ∧
      waiting .ready history = [1] ∧
      ((after history).step (.error "lost")).settled = [⟨1, some "lost"⟩] := by
  decide

end LiveProgress.StreamSink
