import LiveProgress.Json.Calls
import LiveProgress.Proofs.Json.Splitter

/-!
# The values of a splitter tile its text

Whatever is asked of a splitter and in whatever order, the values that it has returned are pieces
of its text, one behind the other, with white space between them, and what it still holds is the
rest of the text from the first unit that is neither. No unit is lost, returned twice or made up.
-/

namespace LiveProgress.Json

/-- The text of a value stands in a text at its offset. -/
structure RawValue.StandsIn (v : RawValue) (text : Text) : Prop where
  nonempty : v.text ≠ []
  within : v.stop ≤ text.length
  slice : (text.drop v.offset).take v.text.length = v.text

/-- More text behind it does not move a value. -/
theorem RawValue.StandsIn.append {v : RawValue} {text : Text} (h : v.StandsIn text) (more : Text) :
    v.StandsIn (text ++ more) := by
  have hwithin := h.within
  unfold RawValue.stop at hwithin
  constructor
  · exact h.nonempty
  · rw [List.length_append]
    exact Nat.le_add_right_of_le h.within
  · rw [List.drop_append_of_le_length (by omega),
      List.take_append_of_le_length (by rw [List.length_drop]; omega)]
    exact h.slice

theorem isBlank_iff {u : CodeUnit} : isBlank u = true ↔ u.toChar ∈ [' ', '\t', '\r', '\n'] := by
  simp only [isBlank, Bool.or_eq_true, beq_iff_eq, List.mem_cons, List.not_mem_nil, or_false]
  tauto

namespace Splitter

/-- The values returned and the value that is held tile the text that has come. -/
structure Tiles (s : Splitter) (text : Text) (values : List RawValue) : Prop where
  offset_le : s.offset ≤ text.length
  held : text.drop s.offset = s.pending.reverse
  begins : ∀ u ∈ s.pending.getLast?, isBlank u = false
  idle : s.place = .between ↔ s.pending = []
  stand : ∀ v ∈ values, v.StandsIn text ∧ v.stop ≤ s.offset
  ordered : values.Pairwise fun v w => v.stop ≤ w.offset
  blank : ∀ i u, i < s.offset → text[i]? = some u →
    (∃ v ∈ values, v.offset ≤ i ∧ i < v.stop) ∨ isBlank u = true

variable {s : Splitter} {text : Text} {values : List RawValue} {u : CodeUnit}

theorem tiles_start : Tiles {} [] [] where
  offset_le := Nat.le_refl 0
  held := rfl
  begins := by simp
  idle := ⟨fun _ => rfl, fun _ => rfl⟩
  stand := by simp
  ordered := .nil
  blank _ _ h := absurd h (Nat.not_lt_zero _)

namespace Tiles

theorem length_eq (h : s.Tiles text values) : text.length = s.offset + s.pending.length := by
  have hheld := congrArg List.length h.held
  have hle := h.offset_le
  rw [List.length_drop, List.length_reverse] at hheld
  omega

/-- The units in front of the value that is held stay as they are. -/
theorem blank_append (h : s.Tiles text values) (more : Text) (i : Nat) (u : CodeUnit)
    (hi : i < s.offset) (hu : (text ++ more)[i]? = some u) :
    (∃ v ∈ values, v.offset ≤ i ∧ i < v.stop) ∨ isBlank u = true := by
  rw [List.getElem?_append_left (Nat.lt_of_lt_of_le hi h.offset_le)] at hu
  exact h.blank i u hi hu

/-! ### Single units -/

/-- A unit that is taken into the value that is held, or begins one. -/
theorem keep (h : s.Tiles text values) (hu : s.pending = [] → isBlank u = false) {place : Place}
    (hplace : place ≠ .between) : (s.keep u place).Tiles (text ++ [u]) values where
  offset_le := by
    rw [List.length_append]
    exact Nat.le_add_right_of_le h.offset_le
  held := by
    rw [Splitter.keep, List.drop_append_of_le_length h.offset_le, h.held, List.reverse_cons]
  begins := by
    intro first hfirst
    cases hpending : s.pending with
    | nil =>
      simp only [Splitter.keep, hpending, List.getLast?_singleton, Option.mem_some] at hfirst
      exact hfirst ▸ hu hpending
    | cons w rest =>
      simp only [Splitter.keep, hpending, List.getLast?_cons_cons] at hfirst
      exact h.begins first (hpending ▸ hfirst)
  idle := ⟨fun hbetween => absurd hbetween hplace, fun hnil => absurd hnil (List.cons_ne_nil _ _)⟩
  stand v hv := ⟨(h.stand v hv).1.append [u], (h.stand v hv).2⟩
  ordered := h.ordered
  blank := h.blank_append [u]

/-- White space between two values is passed over. -/
theorem skip (h : s.Tiles text values) (hnil : s.pending = []) (hu : isBlank u = true) :
    Tiles { s with offset := s.offset + 1 } (text ++ [u]) values := by
  have hlength := h.length_eq
  rw [hnil, List.length_nil, Nat.add_zero] at hlength
  constructor
  case offset_le => simp [hlength]
  case held => simp [hnil, ← hlength]
  case begins => exact h.begins
  case idle => exact h.idle
  case stand =>
    intro v hv
    exact ⟨(h.stand v hv).1.append [u], Nat.le_succ_of_le (h.stand v hv).2⟩
  case ordered => exact h.ordered
  case blank =>
    intro i w hi hw
    rcases Nat.lt_succ_iff_lt_or_eq.mp hi with hlt | rfl
    · exact h.blank_append [u] i w hlt hw
    · rw [← hlength, List.getElem?_concat_length] at hw
      exact .inr (Option.some.inj hw ▸ hu)

/-- The value that is held is returned. -/
theorem cut (h : s.Tiles text values) (hpending : s.pending ≠ []) :
    s.cut.2.Tiles text (values ++ [s.cut.1]) := by
  have hlength := h.length_eq
  have hstop : s.cut.1.stop = s.offset + s.pending.length := by
    rw [RawValue.stop, Splitter.cut, List.length_reverse]
  constructor
  case offset_le => exact Nat.le_of_eq hlength.symm
  case held => exact List.drop_of_length_le (Nat.le_of_eq hlength)
  case begins => simp [Splitter.cut]
  case idle => exact ⟨fun _ => rfl, fun _ => rfl⟩
  case stand =>
    intro v hv
    rcases List.mem_append.mp hv with hv | hv
    · exact ⟨(h.stand v hv).1, Nat.le_add_right_of_le (h.stand v hv).2⟩
    · obtain rfl := List.mem_singleton.mp hv
      refine ⟨⟨mt List.reverse_eq_nil_iff.mp hpending, ?_, ?_⟩, Nat.le_of_eq hstop⟩
      · exact Nat.le_of_eq (hstop.trans hlength.symm)
      · simp only [Splitter.cut, h.held, List.take_length]
  case ordered =>
    refine List.pairwise_append.mpr ⟨h.ordered, List.pairwise_singleton _ _, ?_⟩
    intro v hv w hw
    obtain rfl := List.mem_singleton.mp hw
    exact (h.stand v hv).2
  case blank =>
    intro i w hi hw
    by_cases hbefore : i < s.offset
    · rcases h.blank i w hbefore hw with ⟨v, hv, hcovers⟩ | hblank
      · exact .inl ⟨v, List.mem_append_left _ hv, hcovers⟩
      · exact .inr hblank
    · exact .inl ⟨s.cut.1, by simp, Nat.le_of_not_lt hbefore, hstop ▸ hi⟩

theorem close (h : s.Tiles text values) (hplace : s.place ≠ .between) (u : CodeUnit) :
    (s.close u).2.Tiles (text ++ [u]) (values ++ (s.close u).1.toList) :=
  (h.keep (fun hnil => absurd (h.idle.mpr hnil) hplace) hplace).cut (List.cons_ne_nil u _)

/-- A unit between two values. -/
theorem start (h : s.Tiles text values) (hnil : s.pending = []) (u : CodeUnit) :
    (s.start u).Tiles (text ++ [u]) values := by
  unfold Splitter.start
  cases hblank : isBlank u with
  | true => exact h.skip hnil hblank
  | false =>
    simp only [Bool.false_eq_true, if_false]
    split_ifs
    · exact h.keep (fun _ => hblank) (by simp)
    · exact h.keep (fun _ => hblank) (by simp)
    · exact h.keep (fun _ => hblank) (by simp)

theorem step (h : s.Tiles text values) (u : CodeUnit) :
    (s.step u).2.Tiles (text ++ [u]) (values ++ (s.step u).1.toList) := by
  have htakes := takes_step s u
  generalize s.step u = taken at htakes ⊢
  cases htakes with
  | start hplace =>
    rw [Option.toList_none, List.append_nil]
    exact h.start (h.idle.mp hplace) u
  | cut hplace =>
    have hheld : s.pending ≠ [] := mt h.idle.mpr (by simp [hplace])
    exact (h.cut hheld).start rfl u
  | keep hplace hnext _ =>
    rw [Option.toList_none, List.append_nil]
    exact h.keep (fun hnil => absurd (h.idle.mpr hnil) hplace) hnext
  | close hplace _ => exact h.close hplace u

/-! ### Calls -/

theorem push (h : s.Tiles text values) (more : Text) :
    (s.push more).2.Tiles (text ++ more) (values ++ (s.push more).1) := by
  induction more generalizing s text values with
  | nil => simpa [push_nil] using h
  | cons u more ih =>
    have hrest := ih (h.step u)
    rw [List.append_assoc, List.append_assoc] at hrest
    rw [push_cons]
    exact hrest

theorem call (h : s.Tiles text values) (c : Call) :
    (s.call c).2.Tiles (text ++ c.text) (values ++ (s.call c).1.values) := by
  cases c with
  | push more => exact h.push more
  | finish =>
    simp only [Splitter.call, Splitter.finish, Call.text, List.append_nil]
    cases hplace : s.place with
    | between => simpa [Answer.values] using h
    | scalar => exact h.cut (mt h.idle.mpr (by simp [hplace]))
    | quoted escaped => simpa [Answer.values] using h
    | nested depth quote => simpa [Answer.values] using h

theorem after (h : s.Tiles text values) (calls : List Call) :
    (s.after calls).Tiles (text ++ calls.flatMap Call.text)
      (values ++ (s.answers calls).flatMap Answer.values) := by
  induction calls generalizing s text values with
  | nil => simpa [Splitter.after, answers] using h
  | cons c calls ih =>
    have hrest := ih (h.call c)
    rw [List.append_assoc, List.append_assoc] at hrest
    exact hrest

end Tiles

/-- An end that is told too early tells the offset of the value that is held, and is forgotten. -/
theorem call_finish_error {offset : Nat} (h : (s.call .finish).1 = .error offset) :
    offset = s.offset ∧ s.place ≠ .between ∧ (s.call .finish).2 = s := by
  simp only [call, finish] at h ⊢
  cases hplace : s.place with
  | between =>
    rw [hplace] at h
    cases h
  | scalar =>
    rw [hplace] at h
    cases h
  | quoted escaped =>
    rw [hplace] at h
    exact ⟨(Except.error.inj h).symm, by simp, rfl⟩
  | nested depth quote =>
    rw [hplace] at h
    exact ⟨(Except.error.inj h).symm, by simp, rfl⟩

/-- After any calls, each value that was returned is a piece of the text that has come, at its
offset, the values stand one behind the other, and all other units up to the first that belongs to
a value which has not ended are white space. If the end is told there, it is answered by the offset
of that unit, and whatever is asked afterwards is answered as if it had not been told. -/
theorem values_tile_text (calls : List Call) :
    let s := ({} : Splitter).after calls
    let text := calls.flatMap Call.text
    let values := (({} : Splitter).answers calls).flatMap Answer.values
    (∀ v ∈ values, v.text ≠ [] ∧ v.stop ≤ text.length ∧
      v.text = (text.drop v.offset).take v.text.length) ∧
    values.Pairwise (fun v w => v.stop ≤ w.offset) ∧
    ∃ start, start ≤ text.length ∧ text.drop start = s.pending.reverse ∧
      (∀ u ∈ (text.drop start).head?, isBlank u = false) ∧
      (∀ v ∈ values, v.stop ≤ start) ∧
      (∀ i u, i < start → text[i]? = some u → (∀ v ∈ values, ¬ (v.offset ≤ i ∧ i < v.stop)) →
        u.toChar ∈ [' ', '\t', '\r', '\n']) ∧
      ∀ offset, (s.call .finish).1 = .error offset →
        offset = start ∧ start < text.length ∧
        ∀ more, (s.call .finish).2.answers more = s.answers more := by
  intro s text values
  have htiles : s.Tiles text values := tiles_start.after calls
  refine ⟨?_, htiles.ordered, s.offset, htiles.offset_le, htiles.held, ?_, ?_, ?_, ?_⟩
  · intro v hv
    have hstands := (htiles.stand v hv).1
    exact ⟨hstands.nonempty, hstands.within, hstands.slice.symm⟩
  · rw [htiles.held, List.head?_reverse]
    exact htiles.begins
  · exact fun v hv => (htiles.stand v hv).2
  · intro i u hi hu hfree
    rcases htiles.blank i u hi hu with ⟨v, hv, hcovers⟩ | hblank
    · exact absurd hcovers (hfree v hv)
    · exact isBlank_iff.mp hblank
  · intro offset herror
    obtain ⟨rfl, hplace, hsame⟩ := call_finish_error herror
    have hheld : s.pending ≠ [] := mt htiles.idle.mpr hplace
    refine ⟨rfl, ?_, fun more => by rw [hsame]⟩
    rw [htiles.length_eq]
    exact Nat.lt_add_of_pos_right (List.length_pos_iff.mpr hheld)

/-- A value is returned whole though the end was told inside it. -/
example :
    ({} : Splitter).answers
        [.push (Text.ofString " [1"), .finish, .push (Text.ofString "]2"), .finish] =
      [.ok [], .error 1, .ok [{ text := Text.ofString "[1]", offset := 1 }],
        .ok [{ text := Text.ofString "2", offset := 4 }]] := by
  rfl

end Splitter
end LiveProgress.Json
