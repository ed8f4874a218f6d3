import LiveProgress.Json.Buffer
import LiveProgress.Proofs.Json.Splitter

/-!
# A buffer splits as a splitter does

A buffer and a splitter that are given the same pieces of text give the same answers, however the
pieces are cut and wherever the end is told. Behind a piece of text nothing is left in the buffer
but the value that is being read.
-/

namespace LiveProgress.Json.Buffer

/-- The place that a buffer notes down. -/
inductive Stands (b : Buffer) : Place → Prop
  | between : b.start = none → Stands b .between
  | scalar {start : Nat} : b.start = some start → b.kind = .scalar → Stands b .scalar
  | quoted {start : Nat} : b.start = some start → b.kind = .quoted → b.inString = true →
      Stands b (.quoted b.escaped)
  | string {start depth : Nat} : b.start = some start → b.kind = .nested → b.inString = true →
      b.depth = depth → 0 < depth → Stands b (.nested depth (some b.escaped))
  | nested {start depth : Nat} : b.start = some start → b.kind = .nested → b.inString = false →
      b.escaped = false → b.depth = depth → 0 < depth → Stands b (.nested depth none)

/-- The units from the start of the value up to the position are those that a splitter holds. -/
structure Keeps (b : Buffer) (s : Splitter) : Prop where
  position_le : b.position ≤ b.units.length
  keepFrom_le : b.keepFrom ≤ b.position
  offset : s.offset = b.consumed + b.keepFrom
  pending : s.pending.reverse = (b.units.take b.position).drop b.keepFrom

/-- A buffer stands where a splitter does that has been given the units up to the position. -/
structure Holds (b : Buffer) (s : Splitter) : Prop extends Keeps b s where
  stands : b.Stands s.place

/-- A buffer stands one unit further on. -/
structure IsNext (b next : Buffer) : Prop where
  units : next.units = b.units
  consumed : next.consumed = b.consumed
  position : next.position = b.position + 1

/-- The turns that take one unit, of which at most one completes a value. -/
structure Round (b : Buffer) (value : Option RawValue) (next : Buffer) : Prop
    extends IsNext b next where
  scan : b.scan = (value.toList ++ next.scan.1, next.scan.2)

/-- A unit is taken with the outcome that it has for a splitter. -/
def Meets (b : Buffer) (outcome : Option RawValue × Splitter) : Prop :=
  ∃ next, b.Round outcome.1 next ∧ next.Holds outcome.2

variable {b next : Buffer} {s : Splitter} {u : CodeUnit} {value : Option RawValue} {start : Nat}

theorem keepFrom_of_some (h : b.start = some start) : b.keepFrom = start := by
  simp [keepFrom, h]

theorem keepFrom_of_none (h : b.start = none) : b.keepFrom = b.position := by
  simp [keepFrom, h]

/-! ### Turns -/

theorem scan_of_turn (hu : b.units[b.position]? = some u) (hturn : b.turn u = (value, next)) :
    b.scan = (value.toList ++ next.scan.1, next.scan.2) := by
  obtain ⟨hmore, rfl⟩ := List.getElem?_eq_some_iff.mp hu
  rw [scan, dif_pos hmore, hturn]

theorem scan_of_end (h : b.position = b.units.length) : b.scan = ([], b) := by
  rw [scan, dif_neg (by omega)]

/-- A turn in front of a unit, behind which the unit is taken. -/
theorem Round.behind {last : Buffer} (hu : b.units[b.position]? = some u)
    (hturn : b.turn u = (value, next)) (hunits : next.units = b.units)
    (hconsumed : next.consumed = b.consumed) (hposition : next.position = b.position)
    (hround : next.Round none last) : b.Round value last where
  units := hround.units.trans hunits
  consumed := hround.consumed.trans hconsumed
  position := by rw [hround.position, hposition]
  scan := by
    rw [scan_of_turn hu hturn, hround.scan]
    rfl

theorem isNext_advance (b : Buffer) : b.IsNext b.advance := ⟨rfl, rfl, rfl⟩

theorem isNext_begin (b : Buffer) (u : CodeUnit) : b.IsNext (b.begin u).advance :=
  ⟨b.begin_units u, b.begin_consumed u, congrArg (· + 1) (b.begin_position u)⟩

/-! ### The text that is held -/

/-- A unit is taken into a value. -/
theorem Keeps.keep (h : b.Keeps s) (hu : b.units[b.position]? = some u) (hnext : b.IsNext next)
    (hkeep : next.keepFrom = b.keepFrom) (place : Place) : next.Keeps (s.keep u place) := by
  obtain ⟨hmore, rfl⟩ := List.getElem?_eq_some_iff.mp hu
  obtain ⟨hunits, hconsumed, hposition⟩ := hnext
  exact
    { position_le := by
        rw [hposition, hunits]
        exact hmore
      keepFrom_le := by
        rw [hkeep, hposition]
        exact Nat.le_succ_of_le h.keepFrom_le
      offset := by
        rw [hconsumed, hkeep]
        exact h.offset
      pending := by
        have hle : b.keepFrom ≤ (b.units.take b.position).length := by
          rw [List.length_take, Nat.min_eq_left h.position_le]
          exact h.keepFrom_le
        rw [hunits, hposition, hkeep, ← List.take_append_getElem hmore,
          List.drop_append_of_le_length hle, ← h.pending]
        exact List.reverse_cons }

/-- A value ends in front of the next unit. -/
theorem Keeps.cut (h : b.Keeps s) (hstart : b.start = some start) :
    (b.cut start b.position).1 = some s.cut.1 ∧ (b.cut start b.position).2.Holds s.cut.2 := by
  have hkeep := keepFrom_of_some hstart
  have hlength : b.keepFrom + s.pending.length = b.position := by
    rw [← List.length_reverse, h.pending, List.length_drop, List.length_take,
      Nat.min_eq_left h.position_le]
    have := h.keepFrom_le
    omega
  constructor
  · simp only [Buffer.cut, Splitter.cut, h.pending, h.offset, hkeep]
  · exact
      { position_le := h.position_le
        keepFrom_le := Nat.le_refl _
        offset := by
          show s.offset + s.pending.length = b.consumed + b.position
          rw [h.offset, Nat.add_assoc, hlength]
        pending := by simp [Buffer.cut, Splitter.cut, keepFrom]
        stands := .between rfl }

/-! ### Rounds -/

theorem Stands.eq_between {place : Place} (h : b.Stands place) (hstart : b.start = none) :
    place = .between := by
  cases h with
  | between => rfl
  | scalar hsome | quoted hsome | string hsome | nested hsome =>
    rw [hstart] at hsome
    nomatch hsome

/-- What is blank between values belongs to none. -/
theorem Holds.meets_blank (h : b.Holds s) (hstart : b.start = none)
    (hu : b.units[b.position]? = some u) (hblank : isBlank u = true) :
    b.Meets (none, { s with offset := s.offset + 1 }) := by
  have hkeep := keepFrom_of_none hstart
  have hpending : s.pending = [] := by
    simpa [hkeep] using h.pending
  have hturn : b.turn u = (none, b.advance) := by
    simp [turn, hstart, hblank]
  have hlater : b.advance.keepFrom = b.position + 1 := keepFrom_of_none hstart
  refine ⟨b.advance, ⟨b.isNext_advance, scan_of_turn hu hturn⟩, ?_⟩
  exact
    { position_le := (List.getElem?_eq_some_iff.mp hu).choose
      keepFrom_le := Nat.le_of_eq hlater
      offset := by
        rw [hlater, ← Nat.add_assoc, ← hkeep]
        exact congrArg (· + 1) h.offset
      pending := by simp [hlater, hpending]
      stands := by
        rw [h.stands.eq_between hstart]
        exact .between hstart }

/-- A value begins with the unit that is taken. -/
theorem Holds.keep_first {place : Place} (h : b.Holds s) (hstart : b.start = none)
    (hu : b.units[b.position]? = some u) (hnext : b.IsNext next)
    (hfirst : next.start = some b.position) (hstands : next.Stands place) :
    next.Holds (s.keep u place) := by
  have hkeep : next.keepFrom = b.keepFrom := by
    rw [keepFrom_of_none hstart, keepFrom_of_some hfirst]
  exact { h.keep hu hnext hkeep place with stands := hstands }

/-- A bracket is met twice, first as the start of a value. -/
theorem Holds.meets_opening (h : b.Holds s) (hstart : b.start = none)
    (hu : b.units[b.position]? = some u) (hblank : isBlank u = false)
    (hopening : isOpening u = true) : b.Meets (none, s.keep u (.nested 1 none)) := by
  have hfirst : b.turn u = (none, b.begin u) := by
    simp [turn, hstart, hblank, hopening]
  have hsecond : (b.begin u).turn u = (none, { (b.begin u).advance with depth := 1 }) := by
    simp [turn, begin, advance, readNested, hopening, Splitter.not_isQuote_of_isOpening hopening]
  have hu' : (b.begin u).units[(b.begin u).position]? = some u := by simpa using hu
  have hround : (b.begin u).Round none { (b.begin u).advance with depth := 1 } :=
    ⟨⟨rfl, rfl, rfl⟩, scan_of_turn hu' hsecond⟩
  refine ⟨_, .behind hu hfirst (by simp) (by simp) (by simp) hround, ?_⟩
  have hstands : ({ (b.begin u).advance with depth := 1 } : Buffer).Stands (.nested 1 none) :=
    .nested (b.begin_start u) (by simp [begin, hopening, advance])
      (by simp [begin, hopening, advance]) (by simp [begin, hopening, advance]) rfl Nat.one_pos
  exact h.keep_first hstart hu ⟨b.begin_units u, b.begin_consumed u, (b.isNext_begin u).position⟩
    (b.begin_start u) hstands

/-- A string, a number or a name begins. -/
theorem Holds.meets_begin {place : Place} (h : b.Holds s) (hstart : b.start = none)
    (hu : b.units[b.position]? = some u) (hblank : isBlank u = false)
    (hopening : isOpening u = false) (hstands : (b.begin u).advance.Stands place) :
    b.Meets (none, s.keep u place) := by
  have hturn : b.turn u = (none, (b.begin u).advance) := by
    simp [turn, hstart, hblank, hopening]
  exact ⟨_, ⟨b.isNext_begin u, scan_of_turn hu hturn⟩,
    h.keep_first hstart hu (b.isNext_begin u) (b.begin_start u) hstands⟩

/-- A unit between values. -/
theorem Holds.meets_start (h : b.Holds s) (hstart : b.start = none)
    (hu : b.units[b.position]? = some u) : b.Meets (none, s.start u) := by
  unfold Splitter.start
  split_ifs with hblank hopening hquote
  · exact h.meets_blank hstart hu hblank
  · exact h.meets_opening hstart hu (Bool.eq_false_iff.mpr hblank) hopening
  · have hescaped : (b.begin u).advance.escaped = false := by
      simp [begin, advance, hopening, hquote]
    rw [← hescaped]
    exact h.meets_begin hstart hu (Bool.eq_false_iff.mpr hblank) (Bool.eq_false_iff.mpr hopening)
      (.quoted (b.begin_start u) (by simp [begin, advance, hopening, hquote])
        (by simp [begin, advance, hopening, hquote]))
  · exact h.meets_begin hstart hu (Bool.eq_false_iff.mpr hblank) (Bool.eq_false_iff.mpr hopening)
      (.scalar (b.begin_start u) (by simp [begin, advance, hopening, hquote]))

/-- A unit behind which the value is still being read. -/
theorem Holds.meets_keep {place : Place} (h : b.Holds s) (hu : b.units[b.position]? = some u)
    (hturn : b.turn u = (none, next)) (hnext : b.IsNext next) (hstart : next.start = b.start)
    (hsome : b.start = some start) (hstands : next.Stands place) :
    b.Meets (none, s.keep u place) := by
  have hkeep : next.keepFrom = b.keepFrom := by
    rw [keepFrom_of_some hsome, keepFrom_of_some (hstart.trans hsome)]
  exact ⟨next, ⟨hnext, scan_of_turn hu hturn⟩,
    { h.keep hu hnext hkeep place with stands := hstands }⟩

/-- The last unit of a value. -/
theorem Holds.meets_close (h : b.Holds s) (hu : b.units[b.position]? = some u)
    (hturn : b.turn u = next.cut start next.position) (hnext : b.IsNext next)
    (hstart : next.start = b.start) (hsome : b.start = some start) : b.Meets (s.close u) := by
  have hkeep : next.keepFrom = b.keepFrom := by
    rw [keepFrom_of_some hsome, keepFrom_of_some (hstart.trans hsome)]
  obtain ⟨hvalue, hcut⟩ := (h.keep hu hnext hkeep s.place).cut (hstart.trans hsome)
  have hclose : b.turn u = ((s.close u).1, (next.cut start next.position).2) :=
    hturn.trans (Prod.ext hvalue rfl)
  have hlast : b.IsNext (next.cut start next.position).2 :=
    ⟨hnext.units, hnext.consumed, hnext.position⟩
  exact ⟨_, ⟨hlast, scan_of_turn hu hclose⟩, hcut⟩

/-! ### Units of a number or a name -/

/-- A number or a name ends in front of what cannot belong to it. -/
theorem Holds.meets_scalar (h : b.Holds s) (hu : b.units[b.position]? = some u)
    (hstart : b.start = some start) (hkind : b.kind = .scalar) (hplace : s.place = .scalar) :
    b.Meets (s.step u) := by
  simp only [Splitter.step, hplace]
  split_ifs with hbreak
  · obtain ⟨hvalue, hcut⟩ := h.cut hstart
    obtain ⟨next, hround, hnext⟩ := hcut.meets_start rfl hu
    have hturn : b.turn u = (some s.cut.1, (b.cut start b.position).2) := by
      simp only [turn, hstart, hkind, if_pos, if_pos hbreak]
      exact Prod.ext hvalue rfl
    exact ⟨next, .behind hu hturn rfl rfl rfl hround, hnext⟩
  · have hturn : b.turn u = (none, b.advance) := by
      simp only [turn, hstart, hkind, if_pos, if_neg hbreak]
    exact h.meets_keep hu hturn b.isNext_advance rfl hstart (.scalar hstart hkind)

/-! ### Units of a string -/

theorem readInString_of_some {later : Bool} (h : Splitter.inString b.escaped u = some later) :
    b.readInString start u = (none, { b with escaped := later }) := by
  unfold Splitter.inString at h
  unfold readInString
  split_ifs at h ⊢ with hescaped hback hquote <;> cases h
  · rfl
  · rfl
  · rw [← Bool.eq_false_iff.mpr hescaped]

theorem readInString_of_none (h : Splitter.inString b.escaped u = none) :
    b.escaped = false ∧ b.readInString start u =
      if b.kind = .quoted then { b with inString := false }.cut start b.position
      else (none, { b with inString := false }) := by
  unfold Splitter.inString at h
  split_ifs at h with hescaped hback hquote
  refine ⟨Bool.eq_false_iff.mpr hescaped, ?_⟩
  rw [readInString, if_neg hescaped, if_neg hback, if_pos hquote]

theorem turn_of_inString (hstart : b.start = some start) (hkind : b.kind ≠ .scalar)
    (hin : b.inString = true) : b.turn u = b.advance.readInString start u := by
  simp [turn, hstart, hkind, hin]

theorem Holds.meets_quoted (h : b.Holds s) (hu : b.units[b.position]? = some u)
    (hstart : b.start = some start) (hkind : b.kind = .quoted) (hin : b.inString = true)
    (hplace : s.place = .quoted b.escaped) : b.Meets (s.step u) := by
  have hturn := turn_of_inString (u := u) hstart (by simp [hkind]) hin
  simp only [Splitter.step, hplace]
  cases hlater : Splitter.inString b.escaped u with
  | some later =>
    rw [readInString_of_some (b := b.advance) hlater] at hturn
    exact h.meets_keep hu hturn ⟨rfl, rfl, rfl⟩ rfl hstart (.quoted hstart hkind hin)
  | none =>
    rw [(readInString_of_none (b := b.advance) hlater).2, advance_kind, if_pos hkind] at hturn
    exact h.meets_close hu hturn ⟨rfl, rfl, rfl⟩ rfl hstart

/-- A string in an object or an array does not end it. -/
theorem Holds.meets_string {depth : Nat} (h : b.Holds s) (hu : b.units[b.position]? = some u)
    (hstart : b.start = some start) (hkind : b.kind = .nested) (hin : b.inString = true)
    (hdepth : b.depth = depth) (hpos : 0 < depth)
    (hplace : s.place = .nested depth (some b.escaped)) : b.Meets (s.step u) := by
  have hturn := turn_of_inString (u := u) hstart (by simp [hkind]) hin
  simp only [Splitter.step, hplace]
  cases hlater : Splitter.inString b.escaped u with
  | some later =>
    rw [readInString_of_some (b := b.advance) hlater] at hturn
    exact h.meets_keep hu hturn ⟨rfl, rfl, rfl⟩ rfl hstart (.string hstart hkind hin hdepth hpos)
  | none =>
    obtain ⟨hescaped, hread⟩ := readInString_of_none (b := b.advance) hlater
    rw [hread, advance_kind, if_neg (by simp [hkind])] at hturn
    exact h.meets_keep hu hturn ⟨rfl, rfl, rfl⟩ rfl hstart
      (.nested hstart hkind rfl hescaped hdepth hpos)

/-! ### Units of an object or an array -/

theorem turn_of_nested (hstart : b.start = some start) (hkind : b.kind = .nested)
    (hin : b.inString = false) : b.turn u = b.advance.readNested start u := by
  simp [turn, hstart, hkind, hin]

theorem readNested_of_closing (hquote : ¬ isQuote u = true) (hopening : ¬ isOpening u = true)
    (hclosing : isClosing u = true) : b.readNested start u =
      if b.depth - 1 = 0 then { b with depth := b.depth - 1 }.cut start b.position
      else (none, { b with depth := b.depth - 1 }) := by
  rw [readNested, if_neg hquote, if_neg hopening, if_pos hclosing]

/-- An object or an array ends with the bracket that closes its first one. -/
theorem Holds.meets_nested {depth : Nat} (h : b.Holds s) (hu : b.units[b.position]? = some u)
    (hstart : b.start = some start) (hkind : b.kind = .nested) (hin : b.inString = false)
    (hescaped : b.escaped = false) (hdepth : b.depth = depth) (hpos : 0 < depth)
    (hplace : s.place = .nested depth none) : b.Meets (s.step u) := by
  have hturn := turn_of_nested (u := u) hstart hkind hin
  simp only [Splitter.step, hplace]
  split_ifs with hquote hopening hclosing hone
  · rw [readNested, if_pos hquote] at hturn
    rw [← hescaped]
    exact h.meets_keep hu hturn ⟨rfl, rfl, rfl⟩ rfl hstart (.string hstart hkind rfl hdepth hpos)
  · rw [readNested, if_neg hquote, if_pos hopening] at hturn
    exact h.meets_keep hu hturn ⟨rfl, rfl, rfl⟩ rfl hstart
      (.nested hstart hkind hin hescaped (congrArg (· + 1) hdepth) (Nat.succ_pos _))
  · have hlast : b.advance.depth - 1 = 0 := by
      rw [advance_depth]
      omega
    rw [readNested_of_closing hquote hopening hclosing, if_pos hlast] at hturn
    exact h.meets_close hu hturn ⟨rfl, rfl, rfl⟩ rfl hstart
  · have hinner : b.advance.depth - 1 ≠ 0 := by
      rw [advance_depth]
      omega
    have hless : b.advance.depth - 1 = (depth - 1 : Nat) := by
      rw [advance_depth]
      omega
    rw [readNested_of_closing hquote hopening hclosing, if_neg hinner] at hturn
    exact h.meets_keep hu hturn ⟨rfl, rfl, rfl⟩ rfl hstart
      (.nested hstart hkind hin hescaped hless (by omega))
  · rw [readNested, if_neg hquote, if_neg hopening, if_neg hclosing] at hturn
    exact h.meets_keep hu hturn ⟨rfl, rfl, rfl⟩ rfl hstart
      (.nested hstart hkind hin hescaped hdepth hpos)

/-- One unit does to a buffer what it does to the splitter. -/
theorem Holds.meets_step (h : b.Holds s) (hu : b.units[b.position]? = some u) :
    b.Meets (s.step u) := by
  have hstands := h.stands
  generalize hplace : s.place = place at hstands
  cases hstands with
  | between hstart =>
    simp only [Splitter.step, hplace]
    exact h.meets_start hstart hu
  | scalar hstart hkind => exact h.meets_scalar hu hstart hkind hplace
  | quoted hstart hkind hin => exact h.meets_quoted hu hstart hkind hin hplace
  | string hstart hkind hin hdepth hpos =>
    exact h.meets_string hu hstart hkind hin hdepth hpos hplace
  | nested hstart hkind hin hescaped hdepth hpos =>
    exact h.meets_nested hu hstart hkind hin hescaped hdepth hpos hplace

/-! ### Pieces of text -/

/-- Reading to the end does to a buffer what the rest of its units do to the splitter. -/
theorem Holds.scan (h : b.Holds s) :
    b.scan.1 = (s.push (b.units.drop b.position)).1 ∧
      b.scan.2.Holds (s.push (b.units.drop b.position)).2 ∧
      b.scan.2.position = b.scan.2.units.length := by
  induction hrest : b.units.length - b.position generalizing b s with
  | zero =>
    have hend : b.position = b.units.length := by
      have := h.position_le
      omega
    rw [scan_of_end hend, List.drop_eq_nil_of_le (Nat.le_of_eq hend.symm), Splitter.push_nil]
    exact ⟨rfl, h, hend⟩
  | succ n ih =>
    have hmore : b.position < b.units.length := by omega
    obtain ⟨next, hround, hnext⟩ := h.meets_step (List.getElem?_eq_getElem hmore)
    obtain ⟨hvalues, hlast, hend⟩ := ih hnext (by rw [hround.units, hround.position]; omega)
    rw [hround.units, hround.position] at hvalues hlast
    rw [hround.scan, List.drop_eq_getElem_cons hmore, Splitter.push_cons]
    exact ⟨congrArg _ hvalues, hlast, hend⟩

/-- The place is noted apart from where the units are. -/
theorem Stands.relocate {place : Place} (h : b.Stands place) (units : Text)
    (consumed position : Nat) {start : Option Nat} (hstart : start.isSome = b.start.isSome) :
    ({ b with units, consumed, position, start } : Buffer).Stands place := by
  have hsome {first : Nat} (hfirst : b.start = some first) : ∃ first, start = some first := by
    rw [hfirst, Option.isSome_some, Option.isSome_iff_exists] at hstart
    exact hstart
  cases h with
  | between hnone =>
    rw [hnone, Option.isSome_none, Option.isSome_eq_false_iff, Option.isNone_iff_eq_none] at hstart
    exact .between hstart
  | scalar hfirst hkind => exact .scalar (hsome hfirst).choose_spec hkind
  | quoted hfirst hkind hin => exact .quoted (hsome hfirst).choose_spec hkind hin
  | string hfirst hkind hin hdepth hpos =>
    exact .string (hsome hfirst).choose_spec hkind hin hdepth hpos
  | nested hfirst hkind hin hescaped hdepth hpos =>
    exact .nested (hsome hfirst).choose_spec hkind hin hescaped hdepth hpos

/-! Dropping units does the same whether or not there are any to be dropped. -/

theorem compact_units (b : Buffer) : b.compact.units = b.units.drop b.keepFrom := by
  unfold compact
  split_ifs with hzero
  · rw [hzero, List.drop_zero]
  · rfl

theorem compact_consumed (b : Buffer) : b.compact.consumed = b.consumed + b.keepFrom := by
  unfold compact
  split_ifs with hzero
  · rw [hzero, Nat.add_zero]
  · rfl

theorem compact_position (b : Buffer) : b.compact.position = b.position - b.keepFrom := by
  unfold compact
  split_ifs with hzero
  · rw [hzero, Nat.sub_zero]
  · rfl

theorem compact_keepFrom (b : Buffer) : b.compact.keepFrom = 0 := by
  unfold compact
  split_ifs with hzero
  · exact hzero
  · cases hstart : b.start with
    | none => simp [keepFrom, hstart]
    | some first => simp [keepFrom]

theorem Stands.compact {place : Place} (h : b.Stands place) : b.compact.Stands place := by
  unfold Buffer.compact
  split_ifs with hzero
  · exact h
  · exact h.relocate _ _ _ Option.isSome_map

/-- What is dropped is held by no value, and all that is left is held. -/
theorem Holds.compact (h : b.Holds s) (hend : b.position = b.units.length) :
    b.compact.Holds s ∧ b.compact.position = b.compact.units.length ∧
      b.compact.units = s.pending.reverse ∧ b.compact.consumed = s.offset := by
  have hheld : b.compact.units = s.pending.reverse := by
    rw [compact_units, h.pending, hend, List.take_length]
  have hread : b.compact.position = b.compact.units.length := by
    rw [compact_position, compact_units, List.length_drop, hend]
  have hoffset : b.compact.consumed = s.offset := by
    rw [compact_consumed, h.offset]
  refine ⟨?_, hread, hheld, hoffset⟩
  exact
    { position_le := Nat.le_of_eq hread
      keepFrom_le := by
        rw [compact_keepFrom]
        exact Nat.zero_le _
      offset := by rw [compact_keepFrom, Nat.add_zero, hoffset]
      pending := by rw [compact_keepFrom, List.drop_zero, hread, List.take_length, hheld]
      stands := h.stands.compact }

/-- A piece of text is answered as the splitter answers it, and only the value that is being read
is left in the buffer. -/
theorem Holds.push (h : b.Holds s) (hend : b.position = b.units.length) (text : Text) :
    (b.push text).1 = (s.push text).1 ∧ (b.push text).2.Holds (s.push text).2 ∧
      (b.push text).2.position = (b.push text).2.units.length ∧
      (b.push text).2.units = (s.push text).2.pending.reverse ∧
      (b.push text).2.consumed = (s.push text).2.offset := by
  have hlonger : ({ b with units := b.units ++ text } : Buffer).Holds s :=
    { position_le := by
        rw [List.length_append, hend]
        exact Nat.le_add_right _ _
      keepFrom_le := h.keepFrom_le
      offset := h.offset
      pending := by
        rw [List.take_append_of_le_length h.position_le]
        exact h.pending
      stands := h.stands.relocate _ _ _ rfl }
  have hrest : (b.units ++ text).drop b.position = text := by
    rw [hend, List.drop_left]
  have hscan := hlonger.scan
  dsimp only at hscan
  rw [hrest] at hscan
  obtain ⟨hvalues, hlast, hread⟩ := hscan
  exact ⟨hvalues, hlast.compact hread⟩

/-! ### Calls -/

/-- Behind a call all that has come is read. -/
theorem Holds.call (h : b.Holds s) (hend : b.position = b.units.length) (c : Splitter.Call) :
    (b.call c).1 = (s.call c).1 ∧ (b.call c).2.Holds (s.call c).2 ∧
      (b.call c).2.position = (b.call c).2.units.length := by
  cases c with
  | push text =>
    obtain ⟨hvalues, hholds, hread, -⟩ := h.push hend text
    exact ⟨congrArg Except.ok hvalues, hholds, hread⟩
  | finish =>
    have hstands := h.stands
    simp only [Buffer.call, Splitter.call, finish, Splitter.finish]
    generalize hplace : s.place = place at hstands
    cases hstands with
    | between hstart =>
      simp only [hstart]
      exact ⟨trivial, h, hend⟩
    | scalar hstart hkind =>
      obtain ⟨hvalue, hcut⟩ := h.cut hstart
      simp only [hstart, hkind, if_pos, ← hend, hvalue]
      exact ⟨trivial, hcut, hend⟩
    | quoted hstart hkind | string hstart hkind | nested hstart hkind =>
      have hoffset := h.offset
      rw [keepFrom_of_some hstart] at hoffset
      simp only [hstart, hkind, hoffset, reduceCtorEq, if_false]
      exact ⟨trivial, h, hend⟩

theorem holds_new : ({} : Buffer).Holds {} where
  position_le := Nat.le_refl _
  keepFrom_le := Nat.le_refl _
  offset := rfl
  pending := rfl
  stands := .between rfl

theorem Holds.after (h : b.Holds s) (hend : b.position = b.units.length)
    (calls : List Splitter.Call) :
    (b.after calls).Holds (s.after calls) ∧
      (b.after calls).position = (b.after calls).units.length := by
  induction calls generalizing b s with
  | nil => exact ⟨h, hend⟩
  | cons c rest ih =>
    obtain ⟨-, hholds, hread⟩ := h.call hend c
    exact ih hholds hread

theorem Holds.answers (h : b.Holds s) (hend : b.position = b.units.length)
    (calls : List Splitter.Call) : b.answers calls = s.answers calls := by
  induction calls generalizing b s with
  | nil => rfl
  | cons c rest ih =>
    obtain ⟨hanswer, hholds, hread⟩ := h.call hend c
    exact congrArg₂ List.cons hanswer (ih hholds hread)

/-- A buffer answers every call as a splitter does. -/
theorem answers_eq (calls : List Splitter.Call) :
    ({} : Buffer).answers calls = ({} : Splitter).answers calls :=
  holds_new.answers rfl calls

/-- Behind a piece of text the buffer is the value that is being read, at its offset. -/
theorem push_leaves_pending (calls : List Splitter.Call) (text : Text) :
    let b := ((({} : Buffer).after calls).push text).2
    let s := ((({} : Splitter).after calls).push text).2
    b.units = s.pending.reverse ∧ b.consumed = s.offset := by
  obtain ⟨hholds, hread⟩ := holds_new.after rfl calls
  obtain ⟨-, -, -, hheld⟩ := hholds.push hread text
  exact hheld

end LiveProgress.Json.Buffer
