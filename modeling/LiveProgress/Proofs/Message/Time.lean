import LiveProgress.Display.Line
import LiveProgress.Proofs.Message.Validation
import LiveProgress.Proofs.Number.Order

/-!
# The time of a message

Only whole numbers are read as times. So what a message that has been read tells as its time is
exact: the nanoseconds it gives, or else its seconds.
-/

namespace LiveProgress.Message

/-- Messages whose times are whole numbers, as they are in every message that is read. -/
structure HasWholeTimes (m : Message) : Prop where
  time : ∀ x, m.time = some x → x.isInteger = true
  timeNano : ∀ x, m.timeNano = some x → x.isInteger = true

theorem hasWholeTimes_of_ofJson {v : Json} {m : Message} (h : ofJson v = .ok m) :
    m.HasWholeTimes := by
  obtain ⟨_, hsound, hread⟩ := ofJson_eq_ok.mp h
  constructor
  · intro x hx
    have hat : v.at? ["time"] = some (.number x) := by rw [← hread.time, hx]; rfl
    exact hsound ⟨["time"], .integer⟩ (by decide) _ hat
  · intro x hx
    have hat : v.at? ["timeNano"] = some (.number x) := by rw [← hread.timeNano, hx]; rfl
    exact hsound ⟨["timeNano"], .integer⟩ (by decide) _ hat

/-- A whole number that is given as a time counts unless it is zero, and counts in full. -/
theorem given_eq_some_iff {time : Option Number} (h : ∀ x, time = some x → x.isInteger = true)
    {n : Int} : (time.filter (· != 0)).map (·.wholePart) = some n ↔
      n ≠ 0 ∧ ∃ hr, time = some (.finite n hr) := by
  cases time with
  | none => simp
  | some x =>
    obtain ⟨k, hr, rfl⟩ := Number.exists_of_isInteger (h x rfl)
    have hzero : Number.finite k hr = 0 ↔ k = 0 := by simp [Number.zero_eq_finite]
    simp only [Option.filter_some, bne_iff_ne, ne_eq, hzero]
    split
    case isTrue hk =>
      rw [Option.map_some, Number.wholePart_intCast]
      constructor
      · rintro ⟨⟩
        exact ⟨hk, hr, rfl⟩
      · rintro ⟨-, _, heq⟩
        simpa using heq
    case isFalse hk =>
      obtain rfl := of_not_not hk
      refine iff_of_false (Option.some_ne_none n).symm ?_
      rintro ⟨hn, _, heq⟩
      exact hn (by simpa using heq.symm)

theorem epochNanos?_eq_some_iff {m : Message} (h : m.HasWholeTimes) {n : Int} :
    m.epochNanos? = some n ↔ (n ≠ 0 ∧ ∃ hr, m.timeNano = some (.finite n hr)) ∨
      (∀ k : Int, k ≠ 0 → ∀ hr, m.timeNano ≠ some (.finite k hr)) ∧
        ∃ seconds : Int, seconds ≠ 0 ∧ (∃ hr, m.time = some (.finite seconds hr)) ∧
          n = seconds * 1000000000 := by
  have hnanos {k : Int} := given_eq_some_iff h.timeNano (n := k)
  have hseconds {k : Int} := given_eq_some_iff h.time (n := k)
  unfold epochNanos?
  dsimp only
  cases hgiven : (m.timeNano.filter (· != 0)).map (·.wholePart) with
  | some k =>
    obtain ⟨hk, hr, htime⟩ := hnanos.mp hgiven
    simp only [Option.some.injEq]
    constructor
    · rintro rfl
      exact .inl ⟨hk, hr, htime⟩
    · rintro (hn | ⟨hnone, -⟩)
      · exact Option.some.inj (hgiven.symm.trans (hnanos.mpr hn))
      · exact absurd htime (hnone k hk hr)
  | none =>
    have hnone : ∀ k : Int, k ≠ 0 → ∀ hr, m.timeNano ≠ some (.finite k hr) := by
      intro k hk hr htime
      have hsome := hnanos.mpr ⟨hk, hr, htime⟩
      rw [hgiven] at hsome
      cases hsome
    simp only [Option.map_eq_some_iff]
    constructor
    · rintro ⟨seconds, hfound, rfl⟩
      obtain ⟨hne, htime⟩ := hseconds.mp (Option.map_eq_some_iff.mpr hfound)
      exact .inr ⟨hnone, seconds, hne, htime, rfl⟩
    · rintro (⟨hn, hr, htime⟩ | ⟨-, seconds, hne, htime, rfl⟩)
      · exact absurd htime (hnone n hn hr)
      · exact ⟨seconds, Option.map_eq_some_iff.mp (hseconds.mpr ⟨hne, htime⟩), rfl⟩

end LiveProgress.Message
