import LiveProgress.Display.Bracket
import LiveProgress.Display.Course
import LiveProgress.Display.Handled
import LiveProgress.Display.Lookups
import LiveProgress.Proofs.Display.Ledger
import LiveProgress.Proofs.Terminal.Control

/-!
# Look-ups that are granted

If all that a message asks for is granted, showing it fails only with the error that it reports. If
something is refused, it fails with the failure of a look-up, whatever the message reports.
-/

namespace LiveProgress

/-! ### Capability sets -/

namespace CapabilitySet

variable {caps : CapabilitySet} {asked more : List (String × List Number)} {f : Failure}
  {a b : Attempt}

theorem Refuses.mono (h : caps.Refuses asked f) (hsub : asked ⊆ more) : caps.Refuses more f := by
  obtain ⟨lookup, hmem, hlookup⟩ := h
  exact ⟨lookup, hsub hmem, hlookup⟩

theorem Refuses.not_grants (h : caps.Refuses asked f) : ¬ caps.Grants asked := by
  obtain ⟨lookup, hmem, hlookup⟩ := h
  intro hgrants
  have hok := hgrants lookup hmem
  rw [hlookup] at hok
  cases hok

theorem grants_nil : caps.Grants [] :=
  List.forall_mem_nil _

theorem grants_append : caps.Grants (asked ++ more) ↔ caps.Grants asked ∧ caps.Grants more :=
  List.forall_mem_append

theorem grants_cons {lookup : String × List Number} :
    caps.Grants (lookup :: asked) ↔ caps.Grants [lookup] ∧ caps.Grants asked := by
  rw [← List.singleton_append, grants_append]

/-- An attempt that makes look-ups: it fails if and only if one of them is refused, and with the
failure of one that is. -/
structure Asks (caps : CapabilitySet) (asked : List (String × List Number)) (a : Attempt) :
    Prop where
  passed : a.failure = none → caps.Grants asked
  failed : ∀ f, a.failure = some f → caps.Refuses asked f

theorem Asks.failure_eq_none (h : caps.Asks asked a) (hgrants : caps.Grants asked) :
    a.failure = none :=
  Option.eq_none_iff_forall_ne_some.mpr fun f hf => (h.failed f hf).not_grants hgrants

theorem Asks.andThen (ha : caps.Asks asked a) (hb : caps.Asks more b) :
    caps.Asks (asked ++ more) (a.andThen b) where
  passed h := by
    rw [Attempt.failure_andThen, Option.or_eq_none_iff] at h
    exact grants_append.mpr ⟨ha.passed h.1, hb.passed h.2⟩
  failed f h := by
    rw [Attempt.failure_andThen, Option.or_eq_some_iff] at h
    rcases h with h | ⟨_, h⟩
    · exact (ha.failed f h).mono (List.subset_append_left asked more)
    · exact (hb.failed f h).mono (List.subset_append_right asked more)

theorem asks_texts (caps : CapabilitySet) (texts : List String) : caps.Asks [] { texts } where
  passed _ := grants_nil
  failed _ h := absurd h (Option.some_ne_none _).symm

theorem asks_write (caps : CapabilitySet) (name : String) (parameters : List Number)
    (plain : String) : caps.Asks [(name, parameters)] (caps.write name parameters plain) := by
  unfold write
  cases hlookup : caps.lookup name parameters with
  | ok text =>
    refine ⟨fun _ => ?_, fun _ h => absurd h (Option.some_ne_none _).symm⟩
    exact List.forall_mem_singleton.mpr (by rw [hlookup]; rfl)
  | error f =>
    refine ⟨fun h => absurd h (Option.some_ne_none f), fun f' hf' => ?_⟩
    obtain rfl := Option.some.inj hf'
    exact ⟨(name, parameters), List.mem_singleton_self _, hlookup⟩

theorem asks_clearLine (caps : CapabilitySet) :
    caps.Asks [("el1", []), ("el", [])] caps.clearLine :=
  (caps.asks_write ..).andThen (caps.asks_write ..)

theorem asks_cursorUp (caps : CapabilitySet) {rows : Nat} (h : rows ≠ 0) :
    caps.Asks [("cuu", [.ofNat rows])] (caps.cursorUp (.ofRows rows)) := by
  rw [cursorUp_ofRows, if_neg h]
  exact caps.asks_write ..

theorem asks_cursorDown (caps : CapabilitySet) {rows : Nat} (h : rows ≠ 0) :
    caps.Asks [("cud", [.ofNat rows])] (caps.cursorDown (.ofRows rows)) := by
  rw [cursorDown_ofRows, if_neg h]
  exact caps.asks_write ..

end CapabilitySet

/-! ### Lines -/

namespace Message

variable {m : Message}

theorem line_of_reported {e : ReportedError} (h : m.reportedError = some e)
    (caps : Option CapabilitySet) (v : Viewport) :
    m.line caps v = { failure := some (.ofReported e) } := by
  simp only [line, h]

theorem asks_line (h : m.reportedError = none) (caps : CapabilitySet) (v : Viewport) :
    caps.Asks m.lookups (m.line (some caps) v) := by
  simp only [line, lookups, h]
  cases m.isInPlace with
  | true => exact caps.asks_clearLine.andThen (caps.asks_texts _)
  | false => exact caps.asks_texts _

theorem lookups_of_reported {e : ReportedError} (h : m.reportedError = some e) :
    m.lookups = [] := by
  rw [lookups, h]
  exact if_neg fun hshown => Bool.false_ne_true hshown.1

theorem failure_line_plain (m : Message) (v : Viewport) :
    (m.line none v).failure = m.reportedError.map .ofReported := by
  unfold line
  cases m.reportedError with
  | some e => rfl
  | none =>
    dsimp only
    split
    · rfl
    · rfl

end Message

/-! ### Messages -/

theorem Message.ownFailure_of_payload {m : Message} (h : m.aux.isSome = true) :
    m.ownFailure = none :=
  if_pos h

theorem Message.ownFailure_of_aux {m : Message} (h : m.aux = none) :
    m.ownFailure = m.reportedError.map .ofReported := by
  rw [ownFailure, h]
  rfl

namespace Grid

variable {g : Grid} {m : Message} {caps : CapabilitySet} (v : Viewport)

/-- What is not handed on is written as a line in brackets. -/
theorem script_of_aux (g : Grid) (caps : Option CapabilitySet) (v : Viewport) {m : Message}
    (haux : m.aux = none) : g.script m caps v = g.bracket m caps v := by
  unfold script react bracket opening closing
  rw [haux]
  cases rowId? m with
  | none => rfl
  | some id =>
    cases caps with
    | none => rfl
    | some set => rfl

theorem script_of_payload (g : Grid) (caps : Option CapabilitySet) (v : Viewport) {m : Message}
    (haux : m.aux.isSome = true) : g.script m caps v = {} := by
  obtain ⟨payload, haux⟩ := Option.isSome_iff_exists.mp haux
  simp only [script, react, haux]

theorem ne_zero_distance (g : Grid) (id : Text) : (g.reserve id).distance id ≠ 0 := by
  obtain ⟨row, _, _, hdistance⟩ := g.distance_reserve id
  omega

theorem asks_opening (g : Grid) (caps : CapabilitySet) {id : Text} (hid : rowId? m = some id) :
    caps.Asks [("cuu", [.ofNat ((g.reserve id).distance id)])] (g.opening m (some caps)) := by
  rw [opening_of_row g hid]
  exact (caps.asks_texts _).andThen (caps.asks_cursorUp (g.ne_zero_distance id))

theorem asks_closing (g : Grid) (caps : CapabilitySet) {id : Text} (hid : rowId? m = some id) :
    caps.Asks [("cud", [.ofNat ((g.reserve id).distance id)])] (g.closing m (some caps)) := by
  rw [closing_of_row g hid]
  exact caps.asks_cursorDown (g.ne_zero_distance id)

/-- Nothing is refused in any part of a message that is granted what it asks for. -/
theorem IsGranted.parts {caps : Option CapabilitySet} (h : g.IsGranted caps m)
    (haux : m.aux = none) :
    (g.opening m caps).failure = none ∧
      (m.line caps v).failure = m.reportedError.map .ofReported ∧
      (g.closing m caps).failure = none := by
  cases caps with
  | none =>
    have hbare : _ ∧ g.closing m none = {} := g.bracket_bare none (.inr rfl)
    rw [hbare.1, hbare.2]
    exact ⟨rfl, m.failure_line_plain v, rfl⟩
  | some set =>
    have hset : set.Grants (g.lookups m) := h set rfl
    have hline (hgranted : set.Grants m.lookups) :
        (m.line (some set) v).failure = m.reportedError.map .ofReported := by
      cases hreported : m.reportedError with
      | some e => rw [m.line_of_reported hreported, Option.map_some]
      | none => exact (m.asks_line hreported set v).failure_eq_none hgranted
    cases hid : rowId? m with
    | none =>
      simp only [lookups, haux, hid] at hset
      have hbare := g.bracket_bare (some set) (.inl hid)
      rw [hbare.1, hbare.2]
      exact ⟨rfl, hline hset, rfl⟩
    | some id =>
      simp only [lookups, haux, hid] at hset
      obtain ⟨hup, hrest⟩ := CapabilitySet.grants_cons.mp hset
      obtain ⟨hcleared, hdown⟩ := CapabilitySet.grants_append.mp hrest
      exact ⟨(g.asks_opening set hid).failure_eq_none hup, hline hcleared,
        (g.asks_closing set hid).failure_eq_none hdown⟩

/-- With all that it asks for, a message fails as it reports. -/
theorem IsGranted.failure_script {caps : Option CapabilitySet} (h : g.IsGranted caps m) :
    (g.script m caps v).calm.failure = m.ownFailure := by
  cases haux : m.aux with
  | some payload =>
    have hsome : m.aux.isSome = true := by rw [haux]; rfl
    rw [script_of_payload g _ v hsome, m.ownFailure_of_payload hsome]
    rfl
  | none =>
    obtain ⟨hopening, hline, hclosing⟩ := h.parts v haux
    rw [script_of_aux g _ v haux, Script.failure_calm, m.ownFailure_of_aux haux, bracket, hopening,
      hline, hclosing, Option.none_or, Option.none_or]

/-- The line of a message that is refused something fails with that. -/
theorem failure_line_of_not_grants (h : ¬ caps.Grants m.lookups) :
    ∃ f, caps.Refuses m.lookups f ∧ (m.line (some caps) v).failure = some f := by
  cases hreported : m.reportedError with
  | some e =>
    rw [m.lookups_of_reported hreported] at h
    exact absurd CapabilitySet.grants_nil h
  | none =>
    have hasks := m.asks_line hreported caps v
    cases hline : (m.line (some caps) v).failure with
    | none => exact absurd (hasks.passed hline) h
    | some f => exact ⟨f, hasks.failed f hline, rfl⟩

/-- Without it, it fails with the failure of a look-up. -/
theorem failure_script_of_not_grants (h : ¬ caps.Grants (g.lookups m)) :
    ∃ f, caps.Refuses (g.lookups m) f ∧ (g.script m (some caps) v).calm.failure = some f := by
  cases haux : m.aux with
  | some payload =>
    simp only [lookups, haux] at h
    exact absurd CapabilitySet.grants_nil h
  | none =>
    rw [script_of_aux g _ v haux, Script.failure_calm]
    simp only [bracket]
    cases hid : rowId? m with
    | none =>
      simp only [lookups, haux, hid] at h ⊢
      have hbare := g.bracket_bare (some caps) (.inl hid)
      rw [hbare.1, hbare.2, Option.none_or, Option.none_or]
      exact failure_line_of_not_grants v h
    | some id =>
      have hup := g.asks_opening caps hid
      have hdown := g.asks_closing caps hid
      have hasked : g.lookups m = [("cuu", [.ofNat ((g.reserve id).distance id)])] ++
          (m.lookups ++ [("cud", [.ofNat ((g.reserve id).distance id)])]) := by
        simp only [lookups, haux, hid, List.singleton_append]
      rw [hasked] at h ⊢
      -- The opening is tried first, and a failure of the closing hides that of the line.
      cases hopening : (g.opening m (some caps)).failure with
      | some f =>
        exact ⟨f, (hup.failed f hopening).mono (List.subset_append_left _ _), rfl⟩
      | none =>
        cases hclosing : (g.closing m (some caps)).failure with
        | some f =>
          have hrefused := (hdown.failed f hclosing).mono (List.subset_append_right m.lookups _)
          exact ⟨f, hrefused.mono (List.subset_append_right [_] _), rfl⟩
        | none =>
          have hline : ¬ caps.Grants m.lookups := fun hgranted =>
            h (CapabilitySet.grants_append.mpr ⟨hup.passed hopening,
              CapabilitySet.grants_append.mpr ⟨hgranted, hdown.passed hclosing⟩⟩)
          obtain ⟨f, hrefused, hfailure⟩ := failure_line_of_not_grants v hline
          have hbefore := hrefused.mono
            (List.subset_append_left m.lookups [("cud", [.ofNat ((g.reserve id).distance id)])])
          exact ⟨f, hbefore.mono (List.subset_append_right [_] _), hfailure⟩

/-- Showing a message fails with the error that it reports or with the failure of a look-up. -/
theorem failure_script_cases {caps : Option CapabilitySet} {f : Failure}
    (h : (g.script m caps v).calm.failure = some f) :
    m.ownFailure = some f ∨ ∃ set ∈ caps, set.Refuses (g.lookups m) f := by
  by_cases hgranted : g.IsGranted caps m
  · rw [hgranted.failure_script v] at h
    exact .inl h
  · simp only [IsGranted, not_forall] at hgranted
    obtain ⟨set, rfl, hset⟩ := hgranted
    obtain ⟨f', hrefused, hfailure⟩ := failure_script_of_not_grants v hset
    obtain rfl := Option.some.inj (hfailure.symm.trans h)
    exact .inr ⟨set, rfl, hrefused⟩

theorem failure_script_eq_none_iff {caps : Option CapabilitySet} :
    (g.script m caps v).calm.failure = none ↔ g.IsGranted caps m ∧ m.ownFailure = none := by
  constructor
  · intro h
    have hgranted : g.IsGranted caps m := by
      rintro set rfl
      by_contra hset
      obtain ⟨f, _, hfailure⟩ := failure_script_of_not_grants v hset
      exact absurd (h.symm.trans hfailure) (Option.some_ne_none f).symm
    rw [hgranted.failure_script v] at h
    exact ⟨hgranted, h⟩
  · rintro ⟨hgranted, hown⟩
    rw [hgranted.failure_script v, hown]

end Grid
end LiveProgress
