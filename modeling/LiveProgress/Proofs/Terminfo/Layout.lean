import LiveProgress.Proofs.Terminfo.Access
import LiveProgress.Proofs.Terminfo.Encoding
import LiveProgress.Terminfo.Layout
import Mathlib.Data.List.GetD

/-!
# Entries are read where they lie

The reader takes data for an entry exactly if the data has a layout, and the entry is then the only
one whose parts stand in the sections of that layout. All of them lie within the data, so no access
fails, and what stands behind them does not matter.
-/

namespace LiveProgress.Terminfo

variable {data : List UInt8}

/-! ### Integers -/

theorem unsigned_take_drop (data : List UInt8) (size offset : Nat) :
    unsigned ((data.drop offset).take size) = unsignedAt data size offset := by
  induction size generalizing offset with
  | zero => rfl
  | succ size ih =>
    rw [unsignedAt, ← ih]
    rcases Nat.lt_or_ge offset data.length with hlt | hge
    · rw [List.drop_eq_getElem_cons hlt, List.take_succ_cons, unsigned,
        List.getD_eq_getElem _ _ hlt]
    · rw [List.drop_eq_nil_of_le hge, List.drop_eq_nil_of_le (Nat.le_succ_of_le hge),
        List.getD_eq_default _ _ hge, List.take_nil, List.take_nil]
      rfl

theorem unsigned_lt (bytes : List UInt8) : unsigned bytes < Nat.pow 256 bytes.length := by
  induction bytes with
  | nil => exact Nat.one_pos
  | cons b bytes ih =>
    have hbyte : b.toNat < 256 := b.toNat_lt
    have hpow : Nat.pow 256 (b :: bytes).length = 256 * Nat.pow 256 bytes.length :=
      Nat.mul_comm _ _
    rw [unsigned, hpow]
    omega

theorem signed_take_drop {size offset : Nat} (h : offset + size ≤ data.length) :
    signed ((data.drop offset).take size) = signedAt data size offset := by
  have hlength : ((data.drop offset).take size).length = size := by
    rw [List.length_take, List.length_drop]
    omega
  have hbound := unsigned_lt ((data.drop offset).take size)
  have heven : Nat.pow 256 size = 1 ∨ ∃ half, Nat.pow 256 size = 2 * half := by
    cases size with
    | zero => exact .inl rfl
    | succ size => exact .inr ⟨Nat.pow 256 size * 128, by rw [Nat.mul_comm 2, Nat.mul_assoc]; rfl⟩
  rw [hlength, unsigned_take_drop] at hbound
  rw [signed, signedAt, hlength, unsigned_take_drop, Int.bmod_def,
    Int.emod_eq_of_lt (by omega) (by omega)]
  split <;> split <;> omega

theorem getElem?_groups {size count i : Nat} (h : i < count) (bytes : List UInt8) :
    (groups size count bytes)[i]? = some ((bytes.drop (i * size)).take size) := by
  induction count generalizing i bytes with
  | zero => omega
  | succ count ih =>
    cases i with
    | zero => rw [Nat.zero_mul, List.drop_zero]; rfl
    | succ i =>
      rw [groups, List.getElem?_cons_succ, ih (by omega), List.drop_drop, Nat.succ_mul,
        Nat.add_comm]

theorem length_groups (size count : Nat) (bytes : List UInt8) :
    (groups size count bytes).length = count := by
  induction count generalizing bytes with
  | zero => rfl
  | succ count ih => rw [groups, List.length_cons, ih]

/-! ### Text -/

theorem length_slice {start stop : Nat} (h : stop ≤ data.length) :
    (Entry.slice data start stop).length = stop - start := by
  rw [Entry.slice, List.length_take, List.length_drop]
  omega

theorem getElem?_slice {start stop i : Nat} (h : i < stop - start) :
    (Entry.slice data start stop)[i]? = data[start + i]? := by
  rw [Entry.slice, List.getElem?_take, if_pos h, List.getElem?_drop]

section

variable {start stop : Nat} {s t : Text}

theorem IsTextAt.length_le (h : IsTextAt data start stop s) (h' : IsTextAt data start stop t) :
    s.length ≤ t.length := by
  by_contra hlt
  obtain ⟨b, hbyte, hnonzero, -⟩ := h.units t.length (by omega)
  rcases h'.ending with hend | hnul
  · have hinside := h.inside
    omega
  · rw [hnul] at hbyte
    exact hnonzero (Option.some.inj hbyte).symm

/-- No two texts stand in one place. -/
theorem IsTextAt.unique (h : IsTextAt data start stop s) (h' : IsTextAt data start stop t) :
    s = t := by
  have hlength : s.length = t.length := Nat.le_antisymm (h.length_le h') (h'.length_le h)
  apply List.ext_getElem?
  intro i
  rcases Nat.lt_or_ge i s.length with hlt | hge
  · obtain ⟨b, hbyte, -, hunit⟩ := h.units i hlt
    obtain ⟨b', hbyte', -, hunit'⟩ := h'.units i (by omega)
    rw [hbyte] at hbyte'
    rw [hunit, hunit', Option.some.inj hbyte']
  · rw [List.getElem?_eq_none hge, List.getElem?_eq_none (by omega)]

/-- The bytes of a section up to the first NUL are the text that stands there. -/
theorem isTextAt_takeWhile (h : start ≤ stop) (hstop : stop ≤ data.length) :
    IsTextAt data start stop
      (latin1 ((Entry.slice data start stop).takeWhile (· != 0))) := by
  have hlength : (Entry.slice data start stop).length = stop - start := length_slice hstop
  -- The text ends at the first byte that is NUL.
  let first := (Entry.slice data start stop).findIdx fun b => !(b != 0)
  have hfirst : first ≤ stop - start := hlength ▸ List.findIdx_le_length
  have htext : (Entry.slice data start stop).takeWhile (· != 0) =
      (Entry.slice data start stop).take first := List.takeWhile_eq_take_findIdx_not
  have hcount : (latin1 ((Entry.slice data start stop).takeWhile (· != 0))).length = first := by
    rw [latin1, List.length_map, htext, List.length_take, hlength]
    omega
  refine ⟨by omega, ?_, ?_⟩
  · intro i hi
    rw [hcount] at hi
    have hwithin : i < (Entry.slice data start stop).length := by omega
    refine ⟨(Entry.slice data start stop)[i], ?_, ?_, ?_⟩
    · have hbyte : (Entry.slice data start stop)[i]? = data[start + i]? :=
        getElem?_slice (by omega)
      rw [← hbyte, List.getElem?_eq_getElem hwithin]
    · simpa using List.not_of_lt_findIdx hi
    · rw [latin1, List.getElem?_map, htext, List.getElem?_take, if_pos hi,
        List.getElem?_eq_getElem hwithin]
      rfl
  · rw [hcount]
    rcases Nat.lt_or_ge first (stop - start) with hlt | hge
    · right
      have hwithin : first < (Entry.slice data start stop).length := by omega
      have hnul : (Entry.slice data start stop)[first] = 0 := by
        simpa using List.findIdx_getElem (w := hwithin)
      rw [← getElem?_slice hlt, List.getElem?_eq_getElem hwithin, hnul]
    · left
      omega

theorem isTextAt_iff (h : start ≤ stop) (hstop : stop ≤ data.length) :
    IsTextAt data start stop s ↔
      s = latin1 ((Entry.slice data start stop).takeWhile (· != 0)) := by
  have htext := isTextAt_takeWhile h hstop
  constructor
  · intro hs
    exact hs.unique htext
  · intro hs
    rw [hs]
    exact htext

end

/-! ### Sections -/

namespace Layout

section

variable (l : Layout)

theorem tableStart_le : l.tableStart ≤ l.size := Nat.le_add_right _ _

theorem stringsStart_le : l.stringsStart + l.strings * 2 ≤ l.size := l.tableStart_le

theorem numbersStart_le : l.numbersStart + l.numbers * l.numberSize ≤ l.size :=
  Nat.le_trans (Nat.le_add_right _ _) l.stringsStart_le

theorem booleansStart_le : l.booleansStart + l.booleans ≤ l.size := by
  refine Nat.le_trans ?_ (Nat.le_trans (Nat.le_add_right _ _) l.numbersStart_le)
  dsimp only [numbersStart]
  split <;> omega

end

theorem stringAt_iff {l : Layout} (h : l.size ≤ data.length) (position : Int) (s : Option Text) :
    l.StringAt data position s ↔
      s = tableString (Entry.slice data l.tableStart l.size) position := by
  have hlength : (Entry.slice data l.tableStart l.size).length = l.table := by
    rw [length_slice h, size]
    omega
  rw [tableString, hlength]
  by_cases houtside : position < 0 ∨ (l.table : Int) ≤ position
  · rw [if_pos houtside]
    cases s with
    | none => exact iff_of_true houtside rfl
    | some s =>
      refine iff_of_false (fun hs => ?_) (Option.some_ne_none s)
      obtain ⟨place, rfl, hplace, -⟩ := hs
      omega
  · obtain ⟨place, rfl⟩ := Int.eq_ofNat_of_zero_le (a := position) (by omega)
    have hplace : place < l.table := by omega
    have hsection : (Entry.slice data l.tableStart l.size).drop place =
        Entry.slice data (l.tableStart + place) l.size := by
      rw [Entry.slice, List.drop_take, List.drop_drop, Nat.sub_sub, Entry.slice]
    rw [if_neg houtside, Int.toNat_natCast, hsection]
    cases s with
    | none => exact iff_of_false houtside (Option.some_ne_none _).symm
    | some s =>
      have hstart : l.tableStart + place ≤ l.size := by
        rw [size]
        omega
      have htext : IsTextAt data (l.tableStart + place) l.size s ↔ _ := isTextAt_iff hstart h
      rw [Option.some_inj, ← htext]
      constructor
      · rintro ⟨place', hsame, -, hs⟩
        rwa [Int.ofNat_inj.mp hsame]
      · exact fun hs => ⟨place, rfl, hplace, hs⟩

end Layout

namespace Header

variable (h : Header)

theorem numbersStart_layout : h.layout.numbersStart = h.numbersStart := by
  have hbehind : h.layout.booleansStart + h.layout.booleans =
      size + h.namesSize.toNat + h.booleanCount.toNat := rfl
  dsimp only [Layout.numbersStart, numbersStart]
  rw [hbehind]
  split <;> omega

theorem stringsStart_layout : h.layout.stringsStart = h.stringsStart := by
  rw [Layout.stringsStart, numbersStart_layout]
  rfl

theorem tableStart_layout : h.layout.tableStart = h.tableStart := by
  rw [Layout.tableStart, stringsStart_layout]
  rfl

theorem size_layout : h.layout.size = h.tableEnd := by
  rw [Layout.size, tableStart_layout]
  rfl

end Header

/-- The header that the first words of data make up. -/
def headerOf (data : List UInt8) : Header where
  magic := signedAt data 2 0
  namesSize := signedAt data 2 2
  booleanCount := signedAt data 2 4
  numberCount := signedAt data 2 6
  stringCount := signedAt data 2 8
  tableSize := signedAt data 2 10

/-- Data of which the reader takes the sections. -/
structure Passes (data : List UInt8) : Prop where
  header : Header.size ≤ data.length
  known : (headerOf data).isKnown = true
  extents : (headerOf data).extents.any (· < 0) = false
  tableEnd_le : (headerOf data).tableEnd ≤ data.length

theorem Header.ofBytes?_eq (data : List UInt8) :
    ofBytes? data = if data.length < size then none else some (headerOf data) := by
  rw [Entry.header_ofBytes?_eq]
  split
  case isTrue => rfl
  case isFalse hlong =>
    have hread (offset : Nat) (hoffset : offset + 2 ≤ size) :
        signed ((data.drop offset).take 2) = signedAt data 2 offset :=
      signed_take_drop (Nat.le_trans hoffset (Nat.le_of_not_lt hlong))
    rw [hread 0 (by decide), hread 2 (by decide), hread 4 (by decide), hread 6 (by decide),
      hread 8 (by decide), hread 10 (by decide)]
    rfl

theorem Entry.ofBytes_eq_ok_iff {e : Entry} :
    ofBytes data = .ok e ↔ Passes data ∧ e = ofSections (headerOf data) data := by
  rw [ofBytes, Header.ofBytes?_eq]
  constructor
  · intro hread
    split at hread
    case h_1 => cases hread
    case h_2 h hheader =>
      split at hheader
      case isTrue => cases hheader
      case isFalse hlong =>
        rw [← Option.some.inj hheader] at hread
        split at hread
        case isTrue => cases hread
        case isFalse hknown =>
          split at hread
          case isTrue => cases hread
          case isFalse hextents =>
            split at hread
            case isTrue => cases hread
            case isFalse hend =>
              refine ⟨⟨Nat.le_of_not_lt hlong, by simpa using hknown, ?_,
                Nat.le_of_not_lt hend⟩, (Except.ok.inj hread).symm⟩
              exact Bool.eq_false_iff.mpr hextents
  · rintro ⟨⟨hlong, hknown, hextents, hend⟩, rfl⟩
    simp only [Nat.not_lt.mpr hlong, hknown, hextents, Nat.not_lt.mpr hend, Bool.not_true,
      Bool.false_eq_true, if_false]

/-- Data has a layout exactly if the reader finds nothing wrong with it, and then that of its
header. -/
theorem Layout.isOf_iff {l : Layout} :
    l.IsOf data ↔ Passes data ∧ l = (headerOf data).layout := by
  constructor
  · intro hof
    have hnumberSize : (headerOf data).numberSize = l.numberSize := by
      rcases hof.magic with ⟨hmagic, hsize⟩ | ⟨hmagic, hsize⟩
      · rw [hsize, Header.numberSize, headerOf, hmagic]
        rfl
      · rw [hsize, Header.numberSize, headerOf, hmagic]
        rfl
    have hlayout : l = (headerOf data).layout := by
      rw [Header.layout, hnumberSize]
      simp only [headerOf, hof.names, hof.booleans, hof.numbers, hof.strings, hof.table,
        Int.toNat_natCast]
    refine ⟨⟨hof.header, ?_, ?_, ?_⟩, hlayout⟩
    · rcases hof.magic with ⟨hmagic, -⟩ | ⟨hmagic, -⟩
      · rw [Header.isKnown, headerOf, hmagic]
        rfl
      · rw [Header.isKnown, headerOf, hmagic]
        rfl
    · simp only [Header.extents, headerOf, hof.names, hof.booleans, hof.numbers, hof.strings,
        hof.table]
      simp
    · rw [← Header.size_layout, ← hlayout]
      exact hof.size_le
  · rintro ⟨hpasses, rfl⟩
    have hcount {n : Int} (hn : n ∈ (headerOf data).extents) : n = n.toNat := by
      have hsign := List.any_eq_false.mp hpasses.extents n hn
      rw [decide_eq_true_eq] at hsign
      omega
    refine ⟨hpasses.header, ?_, hcount (by simp [Header.extents, headerOf]),
      hcount (by simp [Header.extents, headerOf]), hcount (by simp [Header.extents, headerOf]),
      hcount (by simp [Header.extents, headerOf]), hcount (by simp [Header.extents, headerOf]), ?_⟩
    · have hknown := hpasses.known
      rw [Header.isKnown, Bool.or_eq_true, beq_iff_eq, beq_iff_eq] at hknown
      rcases hknown with hmagic | hmagic
      · left
        refine ⟨hmagic, ?_⟩
        rw [Header.layout, Header.numberSize, hmagic]
        rfl
      · right
        refine ⟨hmagic, ?_⟩
        rw [Header.layout, Header.numberSize, hmagic]
        rfl
    · rw [Header.size_layout]
      exact hpasses.tableEnd_le

namespace Entry

variable {l : Layout} {e e' : Entry}

/-- What is cut out of the sections of a layout. -/
def cut (l : Layout) (data : List UInt8) : Entry where
  names := namesOf (slice data 12 l.booleansStart)
  booleans := (slice data l.booleansStart (l.booleansStart + l.booleans)).map (· == 1)
  numbers := (groups l.numberSize l.numbers (data.drop l.numbersStart)).map signed
  strings := (groups 2 l.strings (data.drop l.stringsStart)).map fun word =>
    tableString (slice data l.tableStart l.size) (signed word)

/-- The data of a layout holds no more than one entry. -/
theorem LiesIn.unique (hsize : l.size ≤ data.length) (h : e.LiesIn l data)
    (h' : e'.LiesIn l data) : e = e' := by
  have hnames : e.names = e'.names := by
    have htext := congrArg Text.string (h.names.unique h'.names)
    rw [Text.string_ofString, Text.string_ofString] at htext
    calc e.names = ("|".intercalate e.names).splitOn "|" :=
        (Text.splitOn_intercalate h.names_ne_nil h.names_free).symm
      _ = ("|".intercalate e'.names).splitOn "|" := by rw [htext]
      _ = e'.names := Text.splitOn_intercalate h'.names_ne_nil h'.names_free
  have hbooleans : e.booleans = e'.booleans := by
    apply List.ext_getElem?'
    intro i hi
    rw [h.booleans_length, h'.booleans_length, Nat.max_self] at hi
    obtain ⟨b, hbyte, hboolean⟩ := h.booleans i hi
    obtain ⟨b', hbyte', hboolean'⟩ := h'.booleans i hi
    rw [hbyte] at hbyte'
    rw [hboolean, hboolean', Option.some.inj hbyte']
  have hnumbers : e.numbers = e'.numbers := by
    apply List.ext_getElem?'
    intro i hi
    rw [h.numbers_length, h'.numbers_length, Nat.max_self] at hi
    rw [h.numbers i hi, h'.numbers i hi]
  have hstrings : e.strings = e'.strings := by
    apply List.ext_getElem?'
    intro i hi
    rw [h.strings_length, h'.strings_length, Nat.max_self] at hi
    obtain ⟨s, hstring, hplace⟩ := h.strings i hi
    obtain ⟨s', hstring', hplace'⟩ := h'.strings i hi
    rw [hstring, hstring', (Layout.stringAt_iff hsize _ _).mp hplace,
      (Layout.stringAt_iff hsize _ _).mp hplace']
  cases e
  cases e'
  simp_all

/-- One of the integers that stand one behind the other from an offset on. -/
theorem signed_group {start size count i : Nat} (hi : i < count)
    (h : start + count * size ≤ data.length) :
    signed (((data.drop start).drop (i * size)).take size) =
      signedAt data size (start + i * size) := by
  have hnext : (i + 1) * size ≤ count * size := Nat.mul_le_mul_right size hi
  rw [Nat.succ_mul] at hnext
  rw [List.drop_drop, signed_take_drop (by omega)]

theorem names_free {s name : String} (h : name ∈ s.splitOn "|") : '|' ∉ name.toList :=
  Text.free_of_mem_splitOn h

/-- The sections of data hold an entry. -/
theorem liesIn_cut (hsize : l.size ≤ data.length) : (cut l data).LiesIn l data := by
  have hbooleans := Nat.le_trans l.booleansStart_le hsize
  have hnumbers := Nat.le_trans l.numbersStart_le hsize
  have hstrings := Nat.le_trans l.stringsStart_le hsize
  have hnames : 12 ≤ l.booleansStart := Nat.le_add_right _ _
  refine ⟨?names, Text.splitOn_ne_nil '|' _, fun name => names_free, ?_, ?booleans, ?_, ?numbers,
    ?_, ?strings⟩
  case names =>
    have htext := isTextAt_takeWhile hnames (Nat.le_trans (Nat.le_add_right _ _) hbooleans)
    have hlatin1 : ∀ u ∈ latin1 ((slice data 12 l.booleansStart).takeWhile (· != 0)),
        u.toNat < 256 := by
      intro u hu
      obtain ⟨b, -, rfl⟩ := List.mem_map.mp hu
      exact b.toNat_lt
    have hjoined := Text.intercalate_splitOn '|' (Text.string (latin1
      ((slice data 12 l.booleansStart).takeWhile (· != 0))))
    rw [← Text.ofString_string_of_lt hlatin1, ← hjoined] at htext
    exact htext
  case booleans =>
    intro i hi
    have hwithin : l.booleansStart + i < data.length := by omega
    have hslice : (slice data l.booleansStart (l.booleansStart + l.booleans))[i]? = _ :=
      getElem?_slice (by omega)
    refine ⟨data[l.booleansStart + i], List.getElem?_eq_getElem hwithin, ?_⟩
    rw [cut, List.getElem?_map, hslice, List.getElem?_eq_getElem hwithin]
    rfl
  case numbers =>
    intro i hi
    rw [cut, List.getElem?_map, getElem?_groups hi, Option.map_some, signed_group hi hnumbers]
  case strings =>
    intro i hi
    refine ⟨_, ?_, (Layout.stringAt_iff hsize _ _).mpr rfl⟩
    rw [cut, List.getElem?_map, getElem?_groups hi, Option.map_some, signed_group hi hstrings]
  · rw [cut, List.length_map, length_slice hbooleans, Nat.add_sub_cancel_left]
  · rw [cut, List.length_map, length_groups]
  · rw [cut, List.length_map, length_groups]

theorem ofSections_eq_cut (h : Header) (data : List UInt8) :
    ofSections h data = cut h.layout data := by
  rw [cut, Header.numbersStart_layout, Header.stringsStart_layout, Header.tableStart_layout,
    Header.size_layout]
  rfl

theorem ofBytes_eq_ok_iff_liesIn :
    ofBytes data = .ok e ↔ ∃ l : Layout, l.IsOf data ∧ e.LiesIn l data := by
  rw [ofBytes_eq_ok_iff, ofSections_eq_cut]
  constructor
  · rintro ⟨hpasses, rfl⟩
    have hof := Layout.isOf_iff.mpr ⟨hpasses, rfl⟩
    exact ⟨_, hof, liesIn_cut hof.size_le⟩
  · rintro ⟨l, hof, hlies⟩
    obtain ⟨hpasses, rfl⟩ := Layout.isOf_iff.mp hof
    exact ⟨hpasses, hlies.unique hof.size_le (liesIn_cut hof.size_le)⟩

end Entry

/-! ### What stands behind -/

section

variable {l : Layout} {e : Entry} (more : List UInt8)

theorem unsignedAt_append {size offset : Nat} (h : offset + size ≤ data.length) :
    unsignedAt (data ++ more) size offset = unsignedAt data size offset := by
  induction size generalizing offset with
  | zero => rfl
  | succ size ih =>
    rw [unsignedAt, unsignedAt, ih (by omega), List.getD_append _ _ _ _ (by omega)]

theorem signedAt_append {size offset : Nat} (h : offset + size ≤ data.length) :
    signedAt (data ++ more) size offset = signedAt data size offset := by
  rw [signedAt, signedAt, unsignedAt_append more h]

theorem getElem?_append_of_eq_some {i : Nat} {b : UInt8} (h : data[i]? = some b) :
    (data ++ more)[i]? = some b := by
  rw [List.getElem?_append_left (List.getElem?_eq_some_iff.mp h).1, h]

theorem IsTextAt.append {start stop : Nat} {s : Text} (h : IsTextAt data start stop s) :
    IsTextAt (data ++ more) start stop s := by
  refine ⟨h.inside, ?_, ?_⟩
  · intro i hi
    obtain ⟨b, hbyte, hb⟩ := h.units i hi
    exact ⟨b, getElem?_append_of_eq_some more hbyte, hb⟩
  · rcases h.ending with hend | hnul
    · exact .inl hend
    · exact .inr (getElem?_append_of_eq_some more hnul)

theorem Layout.IsOf.append (h : l.IsOf data) : l.IsOf (data ++ more) := by
  have hlength := h.header
  have hword (offset : Nat) (hoffset : offset + 2 ≤ 12) :
      signedAt (data ++ more) 2 offset = signedAt data 2 offset :=
    signedAt_append more (Nat.le_trans hoffset hlength)
  refine ⟨?_, ?_, ?_, ?_, ?_, ?_, ?_, ?_⟩
  · rw [List.length_append]
    omega
  · rw [hword 0 (by decide)]
    exact h.magic
  · rw [hword 2 (by decide), h.names]
  · rw [hword 4 (by decide), h.booleans]
  · rw [hword 6 (by decide), h.numbers]
  · rw [hword 8 (by decide), h.strings]
  · rw [hword 10 (by decide), h.table]
  · rw [List.length_append]
    exact Nat.le_add_right_of_le h.size_le

theorem Entry.LiesIn.append (hsize : l.size ≤ data.length) (h : e.LiesIn l data) :
    e.LiesIn l (data ++ more) := by
  have hnumbers := Nat.le_trans l.numbersStart_le hsize
  have hstrings := Nat.le_trans l.stringsStart_le hsize
  have hinside {start size count i : Nat} (hi : i < count)
      (hend : start + count * size ≤ data.length) : start + i * size + size ≤ data.length := by
    have hnext : (i + 1) * size ≤ count * size := Nat.mul_le_mul_right size hi
    rw [Nat.succ_mul] at hnext
    omega
  refine { h with names := h.names.append more, booleans := ?_, numbers := ?_, strings := ?_ }
  · intro i hi
    obtain ⟨b, hbyte, hboolean⟩ := h.booleans i hi
    exact ⟨b, getElem?_append_of_eq_some more hbyte, hboolean⟩
  · intro i hi
    rw [signedAt_append more (hinside hi hnumbers)]
    exact h.numbers i hi
  · intro i hi
    obtain ⟨s, hstring, hplace⟩ := h.strings i hi
    refine ⟨s, hstring, ?_⟩
    rw [signedAt_append more (hinside hi hstrings)]
    cases s with
    | none => exact hplace
    | some s =>
      obtain ⟨place, hposition, hwithin, htext⟩ := hplace
      exact ⟨place, hposition, hwithin, htext.append more⟩

end

namespace Entry

/-- What stands behind an entry does not matter. -/
theorem ofBytes_append {e : Entry} (h : ofBytes data = .ok e) (more : List UInt8) :
    ofBytes (data ++ more) = .ok e := by
  obtain ⟨l, hof, hlies⟩ := ofBytes_eq_ok_iff_liesIn.mp h
  exact ofBytes_eq_ok_iff_liesIn.mpr ⟨l, hof.append more, hlies.append more hof.size_le⟩

/-- Any data is read as an entry exactly if it has a layout, and the entry is the one that stands in
its sections, with as many booleans, numbers and strings as the header says. All other data ends in
a failure that is reported, never in an access outside of the data, and what stands behind an entry
does not matter. -/
theorem read_takes_what_is_laid_out (data : List UInt8) :
    Entry.read data = (ofBytes data).mapError .failure ∧
    ((∃ e, Entry.read data = .ok e) ↔ ∃ l : Layout, l.IsOf data) ∧
    (∀ e, Entry.read data = .ok e ↔ ∃ l : Layout, l.IsOf data ∧ e.LiesIn l data) ∧
    (∀ raised, Entry.read data = .error raised → ∃ error, raised = .failure error) ∧
    (∀ e more, Entry.read data = .ok e → Entry.read (data ++ more) = .ok e) := by
  have hread {d : List UInt8} {e : Entry} : Entry.read d = .ok e ↔ ofBytes d = .ok e := by
    rw [read_eq]
    cases ofBytes d <;> simp [Except.mapError]
  refine ⟨read_eq data, ?_, ?_, ?_, ?_⟩
  · constructor
    · rintro ⟨e, he⟩
      obtain ⟨l, hof, -⟩ := ofBytes_eq_ok_iff_liesIn.mp (hread.mp he)
      exact ⟨l, hof⟩
    · rintro ⟨l, hof⟩
      exact ⟨_, hread.mpr (ofBytes_eq_ok_iff_liesIn.mpr ⟨l, hof, liesIn_cut hof.size_le⟩)⟩
  · intro e
    rw [hread, ofBytes_eq_ok_iff_liesIn]
  · intro raised hraised
    rw [read_eq] at hraised
    cases hbytes : ofBytes data with
    | ok e =>
      rw [hbytes] at hraised
      cases hraised
    | error error =>
      rw [hbytes] at hraised
      exact ⟨error, (Except.error.inj hraised).symm⟩
  · intro e more he
    exact hread.mpr (ofBytes_append (hread.mp he) more)

end Entry
end LiveProgress.Terminfo
