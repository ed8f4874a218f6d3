import LiveProgress.Terminfo.Access
import Mathlib.Tactic.Common

/-!
# No access outside of the data

Each integer is read behind a check that the data reaches that far, and a name whose letter is
asked for has been checked not to be empty. So the look-up that may raise a fault comes to what
the look-up without faults comes to.
-/

namespace LiveProgress.Terminfo

/-! ### Entries -/

theorem readSigned_of_le {size offset : Nat} {data : List UInt8}
    (h : offset + size ≤ data.length) :
    readSigned size data offset = .ok (signed ((data.drop offset).take size)) := by
  rw [readSigned, if_pos h, Entry.slice, Nat.add_sub_cancel_left]

theorem readEach_of_le {size count offset : Nat} {data : List UInt8}
    (h : offset + count * size ≤ data.length) :
    readEach size data count offset = .ok ((groups size count (data.drop offset)).map signed) := by
  induction count generalizing offset with
  | zero => rfl
  | succ count ih =>
    rw [Nat.succ_mul] at h
    have hfirst : readSigned size data offset = _ := readSigned_of_le (by omega)
    have hrest : readEach size data count (offset + size) = _ := ih (by omega)
    rw [readEach, hfirst, hrest, groups, List.map_cons, List.drop_drop]
    rfl

/-- Up to the first NUL is up to its index. -/
theorem takeWhile_take (count : Nat) (bytes : List UInt8) :
    (bytes.take count).takeWhile (· != 0) =
      bytes.take (((bytes.idxOf? 0).map (min count)).getD count) := by
  induction bytes generalizing count with
  | nil => simp
  | cons b bytes ih =>
    cases count with
    | zero => cases (b :: bytes).idxOf? 0 <;> simp
    | succ count =>
      rw [List.take_succ_cons, List.takeWhile_cons, List.idxOf?_cons]
      by_cases hb : b = 0
      · simp [hb]
      · have hne : (b != 0) = true := bne_iff_ne.mpr hb
        rw [hne, if_pos rfl, ih, if_neg (by simpa using hb)]
        cases bytes.idxOf? 0 with
        | none => rfl
        | some ahead => simp [Nat.succ_min_succ]

theorem stringAt_eq {h : Header} {data : List UInt8} (hsize : 0 ≤ h.tableSize)
    (hend : h.tableEnd ≤ data.length) (position : Int) :
    stringAt h data position =
      tableString (Entry.slice data h.tableStart h.tableEnd) position := by
  have hlength : (Entry.slice data h.tableStart h.tableEnd).length = h.tableSize := by
    rw [Header.tableEnd] at hend ⊢
    rw [Entry.slice, List.length_take, List.length_drop]
    omega
  unfold stringAt tableString
  rw [hlength]
  by_cases hinside : position < 0 ∨ h.tableSize ≤ position
  · rw [if_pos hinside, if_pos hinside]
  · rw [if_neg hinside, if_neg hinside]
    have hdrop : (Entry.slice data h.tableStart h.tableEnd).drop position.toNat =
        (data.drop (h.tableStart + position.toNat)).take
          (h.tableEnd - (h.tableStart + position.toNat)) := by
      rw [Entry.slice, List.drop_take, List.drop_drop, Nat.sub_sub]
    rw [hdrop, takeWhile_take]
    dsimp only
    rw [Entry.slice]
    cases (data.drop (h.tableStart + position.toNat)).idxOf? 0 with
    | none => rfl
    | some ahead =>
      have hstop : (if h.tableEnd < h.tableStart + position.toNat + ahead then h.tableEnd
          else h.tableStart + position.toNat + ahead) - (h.tableStart + position.toNat) =
          min (h.tableEnd - (h.tableStart + position.toNat)) ahead := by
        split <;> omega
      dsimp only
      rw [hstop]
      rfl

namespace Entry

variable {h : Header} {data : List UInt8}

theorem readSections_eq (hextents : h.extents.any (· < 0) = false)
    (hend : h.tableEnd ≤ data.length) : readSections h data = .ok (ofSections h data) := by
  have hsize : 0 ≤ h.tableSize := by
    have hany := List.any_eq_false.mp hextents h.tableSize (by simp [Header.extents])
    simpa using hany
  have htable : h.tableStart ≤ data.length := Nat.le_trans (Nat.le_add_right _ _) hend
  have hstrings : h.stringsStart ≤ data.length := Nat.le_trans (Nat.le_add_right _ _) htable
  have hnumbers : readEach h.numberSize data h.numberCount.toNat h.numbersStart = _ :=
    readEach_of_le hstrings
  have hpositions : readEach 2 data h.stringCount.toNat h.stringsStart = _ :=
    readEach_of_le htable
  have hplaced : stringAt h data = tableString (slice data h.tableStart h.tableEnd) :=
    funext (stringAt_eq hsize hend)
  rw [readSections, hnumbers, hpositions, ofSections]
  change Except.ok _ = Except.ok _
  rw [hplaced, List.map_map]
  rfl

/-- The header, if the data is long enough for one. -/
theorem header_ofBytes?_eq (data : List UInt8) :
    Header.ofBytes? data =
      if data.length < Header.size then none
      else some {
        magic := signed ((data.drop 0).take 2)
        namesSize := signed ((data.drop 2).take 2)
        booleanCount := signed ((data.drop 4).take 2)
        numberCount := signed ((data.drop 6).take 2)
        stringCount := signed ((data.drop 8).take 2)
        tableSize := signed ((data.drop 10).take 2) } := by
  simp only [Header.ofBytes?, groups, List.map_cons, List.map_nil, List.drop_drop, List.drop_zero]

/-- Every integer of the header lies within its twelve bytes. -/
theorem readBehind_eq (hlength : Header.size ≤ data.length)
    (hheader : Header.ofBytes? data = some h) :
    readBehind h.magic data =
      if h.extents.any (· < 0) then .error (.failure .corrupt)
      else if data.length < h.tableEnd then .error (.failure .truncated)
      else .ok (ofSections h data) := by
  have hread (offset : Nat) (hoffset : offset + 2 ≤ Header.size) :
      readSigned 2 data offset = .ok (signed ((data.drop offset).take 2)) :=
    readSigned_of_le (Nat.le_trans hoffset hlength)
  rw [header_ofBytes?_eq, if_neg (Nat.not_lt.mpr hlength)] at hheader
  rw [readBehind, hread 2 (by decide), hread 4 (by decide), hread 6 (by decide),
    hread 8 (by decide), hread 10 (by decide)]
  obtain rfl := Option.some.inj hheader
  simp only [bind, Except.bind]
  split
  · rfl
  · next hextents =>
    split
    · rfl
    · next hend =>
      exact readSections_eq (Bool.not_eq_true _ ▸ hextents) (Nat.not_lt.mp hend)

/-- Reading an entry comes to the same whether or not each access is checked. -/
theorem read_eq (data : List UInt8) : Entry.read data = (ofBytes data).mapError .failure := by
  by_cases hshort : data.length < Header.size
  · rw [Entry.read, if_pos hshort, ofBytes, header_ofBytes?_eq, if_pos hshort]
    rfl
  · have hlength := Nat.not_lt.mp hshort
    obtain ⟨h, hheader, hmagic⟩ :
        ∃ h, Header.ofBytes? data = some h ∧ readSigned 2 data 0 = .ok h.magic := by
      rw [header_ofBytes?_eq, if_neg hshort]
      exact ⟨_, rfl, readSigned_of_le (Nat.le_trans (by decide) hlength)⟩
    have hknown : (h.magic ≠ legacyMagic ∧ h.magic ≠ extendedMagic) ↔ (!h.isKnown) = true := by
      simp [Header.isKnown]
    rw [Entry.read, if_neg hshort, hmagic, ofBytes, hheader]
    simp only [bind, Except.bind]
    rw [readBehind_eq hlength hheader, if_congr hknown rfl rfl, apply_ite (Except.mapError _),
      apply_ite (Except.mapError _), apply_ite (Except.mapError _)]
    rfl

end Entry

/-! ### Files -/

theorem firstLetter_of_isValidName {term : String} (h : isValidName term = true) :
    ∃ first rest, Text.ofString term = first :: rest := by
  have hne : term.toList ≠ [] := by
    intro hnil
    have hempty : term = "" := String.toList_eq_nil_iff.mp hnil
    rw [hempty] at h
    revert h
    decide
  obtain ⟨c, rest, hterm⟩ := List.exists_cons_of_ne_nil hne
  rw [Text.ofString, hterm, Text.units, List.flatMap_cons, Text.charUnits]
  split
  · exact ⟨_, _, rfl⟩
  · exact ⟨_, _, rfl⟩

theorem candidatePaths_eq {term : String} (h : isValidName term = true) (dir : String) :
    candidatePaths term dir = .ok (entryPaths term dir) := by
  obtain ⟨first, rest, hterm⟩ := firstLetter_of_isValidName h
  rw [candidatePaths, entryPaths, hterm]
  rfl

theorem tryPaths_eq (read : FileReader) {behind : Except (Raised LookupError) Entry}
    {others : List String} (hbehind : behind = (firstEntry read others).mapError .failure)
    (paths : List String) :
    tryPaths read behind paths = (firstEntry read (paths ++ others)).mapError .failure := by
  induction paths with
  | nil => exact hbehind
  | cons path paths ih =>
    rw [tryPaths, List.cons_append, firstEntry]
    cases read path with
    | ok data =>
      dsimp only
      rw [Entry.read_eq]
      cases Entry.ofBytes data <;> rfl
    | error e =>
      dsimp only
      split
      · exact ih
      · rfl

theorem tryDirectories_eq (read : FileReader) {term : String} (h : isValidName term = true)
    (dirs : List String) :
    tryDirectories read term dirs =
      (firstEntry read (dirs.flatMap (entryPaths term))).mapError .failure := by
  induction dirs with
  | nil => rfl
  | cons dir dirs ih =>
    rw [tryDirectories, candidatePaths_eq h, List.flatMap_cons, ← tryPaths_eq read ih]
    rfl

/-- Opening an entry raises no fault. -/
theorem openEntry_eq (read : FileReader) (term : String) (dirs : List String) :
    openEntry read term dirs = (lookup read term dirs).mapError .failure := by
  unfold openEntry lookup
  split
  · next hvalid => exact tryDirectories_eq read hvalid dirs
  · rfl

section

variable (read : FileReader) (env : Environment) (term : Option String)
  (dirs : Option (List String))

/-- The entry of a look-up is the one that can be opened. -/
theorem resolve_fst_eq_some_iff {e : Entry} :
    (resolve read env term dirs).1 = some e ↔
      openEntry read (termOf env term) (dirs.getD (searchDirs env)) = .ok e := by
  rw [resolve, openEntry_eq]
  cases lookup read (termOf env term) (dirs.getD (searchDirs env)) <;> simp [Except.mapError]

theorem resolve_fst_eq_none_iff :
    (resolve read env term dirs).1 = none ↔
      ∃ error, openEntry read (termOf env term) (dirs.getD (searchDirs env)) =
        .error (.failure error) := by
  rw [resolve, openEntry_eq]
  cases lookup read (termOf env term) (dirs.getD (searchDirs env)) <;> simp [Except.mapError]

theorem level_resolve_snd : (resolve read env term dirs).2.level = .debug := by
  unfold resolve
  dsimp only
  split <;> rfl

end

/-- The look-up ends in what it is without faults, and in one line. -/
theorem attempt_eq (read : FileReader) (env : Environment) (term : Option String)
    (dirs : Option (List String)) :
    attempt read env term dirs =
      .ok ((resolve read env term dirs).1, [(resolve read env term dirs).2]) := by
  rw [attempt, resolve, openEntry_eq]
  cases lookup read (termOf env term) (dirs.getD (searchDirs env)) <;> rfl

end LiveProgress.Terminfo
