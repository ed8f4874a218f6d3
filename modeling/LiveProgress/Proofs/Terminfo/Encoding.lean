import LiveProgress.Proofs.Text.Split
import LiveProgress.Proofs.Text.Units
import LiveProgress.Terminfo.Encoding
import Mathlib.Tactic.Common

/-!
# Reading what is encoded

An encoded entry is read as it was. Each section begins where the ones in front of it end, so the
reader's offsets are lengths of what has been written; the groups it cuts out of a section are the
fields of the section; and a position of the string table is the length of the strings in front.
-/

namespace LiveProgress

namespace Text

theorem ofString_of_lt {s : String} (h : ∀ c ∈ s.toList, c.toNat < 0x10000) :
    ofString s = s.toList.map CodeUnit.ofChar := by
  have hunits : ∀ c ∈ s.toList, charUnits c = [CodeUnit.ofChar c] := fun c hc => if_pos (h c hc)
  calc ofString s = s.toList.flatMap fun c => [CodeUnit.ofChar c] := List.flatMap_congr hunits
    _ = s.toList.map CodeUnit.ofChar := (List.map_eq_flatMap ..).symm

end Text

namespace Terminfo

/-! ### Fields -/

theorem signed_signedBytes_of_fits (format : NumberFormat) {n : Int}
    (h : -format.bound ≤ n ∧ n < format.bound) : signed (signedBytes format.size n) = n := by
  rw [signed_signedBytes]
  cases format with
  | legacy =>
    change -0x8000 ≤ n ∧ n < 0x8000 at h
    change n.bmod 0x10000 = n
    exact Int.bmod_eq_of_le (by omega) (by omega)
  | extended =>
    change -0x80000000 ≤ n ∧ n < 0x80000000 at h
    change n.bmod 0x100000000 = n
    exact Int.bmod_eq_of_le (by omega) (by omega)

theorem signed_word {n : Int} (h : -0x8000 ≤ n ∧ n < 0x8000) : signed (word n) = n :=
  signed_signedBytes_of_fits .legacy h

theorem length_signedBytes (size : Nat) (n : Int) : (signedBytes size n).length = size :=
  length_littleEndian _ _

theorem length_word (n : Int) : (word n).length = 2 := length_signedBytes 2 n

theorem length_flatMap_of_length {α β : Type} {f : α → List β} {size : Nat}
    (h : ∀ x, (f x).length = size) (xs : List α) :
    (xs.flatMap f).length = xs.length * size := by
  induction xs with
  | nil => simp
  | cons x xs ih =>
    rw [List.flatMap_cons, List.length_append, h, ih, List.length_cons, Nat.succ_mul]
    omega

/-- Fields of one size are cut apart again. -/
theorem groups_flatMap {α : Type} {f : α → List UInt8} {size : Nat} (h : ∀ x, (f x).length = size)
    (xs : List α) (rest : List UInt8) :
    groups size xs.length (xs.flatMap f ++ rest) = xs.map f := by
  induction xs with
  | nil => rfl
  | cons x xs ih =>
    rw [List.flatMap_cons, List.append_assoc, List.length_cons, groups,
      List.take_left' (h x), List.drop_left' (h x), ih, List.map_cons]

theorem latin1_latin1Bytes {s : Text} (h : ∀ u ∈ s, u.toNat < 256) :
    latin1 (latin1Bytes s) = s := by
  unfold latin1 latin1Bytes
  rw [List.map_map]
  calc s.map (UInt8.toUInt16 ∘ UInt16.toUInt8) = s.map id := by
        refine List.map_congr_left fun u hu => UInt16.toNat_inj.mp ?_
        have hbelow := h u hu
        simp [Nat.mod_eq_of_lt hbelow]
    _ = s := List.map_id s

/-- Text without NUL ends where the NUL behind it stands. -/
theorem takeWhile_latin1Bytes {s : Text} (h : ∀ u ∈ s, 0 < u.toNat ∧ u.toNat < 256)
    (rest : List UInt8) : (latin1Bytes s ++ [0] ++ rest).takeWhile (· != 0) = latin1Bytes s := by
  have hnonzero : ∀ b ∈ latin1Bytes s, (b != 0) = true := by
    intro b hb
    obtain ⟨u, hu, rfl⟩ := List.mem_map.mp hb
    have hbounds := h u hu
    rw [bne_iff_ne, ne_eq, ← UInt8.toNat_inj, UInt16.toNat_toUInt8, UInt8.toNat_zero]
    omega
  rw [List.append_assoc, List.takeWhile_append_of_pos hnonzero]
  simp

/-! ### Names -/

theorem forall_mem_intercalate {α : Type} {p : α → Prop} {separator : List α}
    {parts : List (List α)} (hseparator : ∀ x ∈ separator, p x)
    (hparts : ∀ part ∈ parts, ∀ x ∈ part, p x) : ∀ x ∈ separator.intercalate parts, p x := by
  induction parts with
  | nil => simp
  | cons part parts ih =>
    have hpart := hparts part List.mem_cons_self
    have hothers := ih fun other hother => hparts other (List.mem_cons_of_mem _ hother)
    cases parts with
    | nil => rwa [List.intercalate_singleton]
    | cons next parts =>
      intro x hx
      rw [List.intercalate_cons_cons, List.mem_append, List.mem_append] at hx
      rcases hx with (hx | hx) | hx
      · exact hpart x hx
      · exact hseparator x hx
      · exact hothers x hx

namespace Entry

variable {format : NumberFormat} {e : Entry}

namespace Encodable

/-- The names and the bars between them are Latin-1 without NUL. -/
theorem joined_latin1 (h : e.Encodable format) :
    ∀ c ∈ ("|".intercalate e.names).toList, 0 < c.toNat ∧ c.toNat < 256 := by
  rw [String.toList_intercalate]
  refine forall_mem_intercalate (by decide) fun part hpart c hc => ?_
  obtain ⟨name, hname, rfl⟩ := List.mem_map.mp hpart
  exact (h.names_latin1 name hname c hc).2

theorem namesOf_nameBytes (h : e.Encodable format) : namesOf e.nameBytes = e.names := by
  have hjoined := h.joined_latin1
  have hunits := Text.ofString_of_lt fun c hc => Nat.lt_trans (hjoined c hc).2 (by decide)
  have hlatin1 : ∀ u ∈ Text.ofString ("|".intercalate e.names), 0 < u.toNat ∧ u.toNat < 256 := by
    intro u hu
    rw [hunits] at hu
    obtain ⟨c, hc, rfl⟩ := List.mem_map.mp hu
    rw [CodeUnit.toNat_ofChar (Nat.lt_trans (hjoined c hc).2 (by decide))]
    exact hjoined c hc
  have hfree : ∀ name ∈ e.names, '|' ∉ name.toList := fun name hname hbar =>
    (h.names_latin1 name hname '|' hbar).1 rfl
  have hend := takeWhile_latin1Bytes hlatin1 []
  rw [List.append_nil] at hend
  rw [namesOf, nameBytes, hend, latin1_latin1Bytes fun u hu => (hlatin1 u hu).2,
    Text.string_ofString]
  exact Text.splitOn_intercalate h.names_ne_nil hfree

end Encodable

/-! ### Strings -/

theorem tableString_of_lt {before : List UInt8} {s : Text} (rest : List UInt8)
    (h : ∀ u ∈ s, 0 < u.toNat ∧ u.toNat < 256) :
    tableString (before ++ (stringBytes s ++ rest)) before.length = some s := by
  have hwithin : ¬ ((before.length : Int) < 0 ∨
      ((before ++ (stringBytes s ++ rest)).length : Int) ≤ before.length) := by
    simp only [stringBytes, List.length_append, List.length_singleton]
    omega
  rw [tableString, if_neg hwithin, Int.toNat_natCast, List.drop_left, stringBytes,
    takeWhile_latin1Bytes h, latin1_latin1Bytes fun u hu => (h u hu).2]

theorem tableString_absent (table : List UInt8) : tableString table (-1) = none :=
  if_pos (Or.inl (by decide))

theorem length_positionBytes (start : Nat) (strings : List (Option Text)) :
    (positionBytes start strings).length = strings.length * 2 := by
  induction strings generalizing start with
  | nil => rfl
  | cons s strings ih =>
    cases s with
    | none =>
      rw [positionBytes, List.length_append, length_word, ih, List.length_cons]
      omega
    | some s =>
      rw [positionBytes, List.length_append, length_word, ih, List.length_cons]
      omega

/-- The positions find the strings behind what stands before them in the table. -/
theorem strings_of_positionBytes (before rest : List UInt8) {strings : List (Option Text)}
    (hlatin1 : ∀ s, some s ∈ strings → ∀ u ∈ s, 0 < u.toNat ∧ u.toNat < 256)
    (hsize : before.length + (tableBytes strings).length < 32768) :
    (groups 2 strings.length (positionBytes before.length strings ++ rest)).map
      (fun position => tableString (before ++ tableBytes strings) (signed position)) = strings := by
  induction strings generalizing before with
  | nil => rfl
  | cons s strings ih =>
    have hothers : ∀ t, some t ∈ strings → ∀ u ∈ t, 0 < u.toNat ∧ u.toNat < 256 :=
      fun t ht => hlatin1 t (List.mem_cons_of_mem _ ht)
    cases s with
    | none =>
      have hword : signed (word (-1)) = -1 := signed_word (by decide)
      rw [positionBytes, List.append_assoc, List.length_cons, groups,
        List.take_left' (length_word _), List.drop_left' (length_word _), List.map_cons, hword,
        tableString_absent]
      exact congrArg (none :: ·) (ih before hothers hsize)
    | some s =>
      have htable : tableBytes (some s :: strings) = stringBytes s ++ tableBytes strings := rfl
      rw [htable, List.length_append] at hsize
      have hword : signed (word before.length) = before.length := signed_word (by omega)
      have hrest := ih (before ++ stringBytes s) hothers (by rw [List.length_append]; omega)
      rw [List.length_append, List.append_assoc, ← htable] at hrest
      rw [positionBytes, List.append_assoc, List.length_cons, groups,
        List.take_left' (length_word _), List.drop_left' (length_word _), List.map_cons, hword,
        hrest, htable, tableString_of_lt _ (hlatin1 s List.mem_cons_self)]

/-! ### Sections -/

/-- The header as the reader takes it. -/
def fields (format : NumberFormat) (e : Entry) : Header where
  magic := format.magic
  namesSize := e.nameBytes.length
  booleanCount := e.booleans.length
  numberCount := e.numbers.length
  stringCount := e.strings.length
  tableSize := (tableBytes e.strings).length

theorem length_header (format : NumberFormat) (e : Entry) :
    (e.header format).length = Header.size :=
  length_flatMap_of_length length_word _

theorem length_booleanBytes (e : Entry) : e.booleanBytes.length = e.booleans.length :=
  List.length_map _

theorem length_numberBytes (format : NumberFormat) (e : Entry) :
    (e.numberBytes format).length = e.numbers.length * format.size :=
  length_flatMap_of_length (length_signedBytes _) _

theorem length_alignment (e : Entry) :
    e.alignment.length = (e.nameBytes.length + e.booleans.length) % 2 := by
  unfold alignment
  split
  · next hodd => rw [hodd]; rfl
  · next heven => rw [List.length_nil]; omega

theorem numberSize_fields (format : NumberFormat) (e : Entry) :
    (e.fields format).numberSize = format.size := by
  cases format <;> rfl

/-- What stands in front of the numbers. -/
def preamble (format : NumberFormat) (e : Entry) : List UInt8 :=
  e.header format ++ e.nameBytes ++ e.booleanBytes ++ e.alignment

theorem numbersStart_fields (format : NumberFormat) (e : Entry) :
    (e.fields format).numbersStart = (e.preamble format).length := by
  simp only [Header.numbersStart, fields, preamble, List.length_append, length_header,
    length_booleanBytes, length_alignment, Header.size, Int.toNat_natCast]
  omega

theorem stringsStart_fields (format : NumberFormat) (e : Entry) :
    (e.fields format).stringsStart = (e.preamble format ++ e.numberBytes format).length := by
  rw [Header.stringsStart, numbersStart_fields, numberSize_fields, List.length_append,
    length_numberBytes]
  rfl

theorem tableStart_fields (format : NumberFormat) (e : Entry) :
    (e.fields format).tableStart =
      (e.preamble format ++ e.numberBytes format ++ positionBytes 0 e.strings).length := by
  rw [Header.tableStart, stringsStart_fields, List.length_append, List.length_append,
    List.length_append, length_positionBytes]
  rfl

theorem tableEnd_fields (format : NumberFormat) (e : Entry) :
    (e.fields format).tableEnd = (e.toBytes format).length := by
  rw [Header.tableEnd, tableStart_fields, toBytes]
  exact List.length_append.symm

theorem slice_middle (before middle after : List UInt8) :
    slice (before ++ (middle ++ after)) before.length (before.length + middle.length) = middle := by
  rw [slice, List.drop_left, Nat.add_sub_cancel_left, List.take_left]

namespace Encodable

theorem headerNumbers_fit (h : e.Encodable format) :
    ∀ n ∈ e.headerNumbers format, 0 ≤ n ∧ n < 0x8000 := by
  have hmagic : 0 ≤ format.magic ∧ format.magic < 0x8000 := by cases format <;> decide
  have hfield {size : Nat} (hsize : size < 32768) : 0 ≤ (size : Int) ∧ (size : Int) < 0x8000 :=
    ⟨Int.natCast_nonneg _, Int.ofNat_lt.mpr hsize⟩
  simp only [headerNumbers, List.forall_mem_cons]
  exact ⟨hmagic, hfield h.names_size, hfield h.booleans_size, hfield h.numbers_size,
    hfield h.strings_size, hfield h.table_size, nofun⟩

theorem map_signed_groups_header (h : e.Encodable format) (rest : List UInt8) :
    (groups 2 6 (e.header format ++ rest)).map signed = e.headerNumbers format := by
  have hwords : groups 2 6 (e.header format ++ rest) = (e.headerNumbers format).map word :=
    groups_flatMap length_word (e.headerNumbers format) rest
  have hsigned : ∀ n ∈ e.headerNumbers format, (signed ∘ word) n = id n := by
    intro n hn
    have hfit := h.headerNumbers_fit n hn
    rw [Function.comp_apply, signed_word (by omega), id]
  rw [hwords, List.map_map, List.map_congr_left hsigned, List.map_id]

theorem header_ofBytes? (h : e.Encodable format) (rest : List UInt8) :
    Header.ofBytes? (e.header format ++ rest) = some (e.fields format) := by
  have hlength : ¬ (e.header format ++ rest).length < Header.size := by
    rw [List.length_append, length_header]
    omega
  rw [Header.ofBytes?, h.map_signed_groups_header, headerNumbers]
  exact if_neg hlength

theorem names_ofSections (h : e.Encodable format) :
    (ofSections (e.fields format) (e.toBytes format)).names = e.names := by
  have hmiddle := slice_middle (e.header format) e.nameBytes (e.booleanBytes ++ (e.alignment ++
    (e.numberBytes format ++ (positionBytes 0 e.strings ++ tableBytes e.strings))))
  have hnames : slice (e.toBytes format) Header.size
      (Header.size + e.nameBytes.length) = e.nameBytes := by
    simpa only [length_header, toBytes, List.append_assoc] using hmiddle
  exact (congrArg namesOf hnames).trans h.namesOf_nameBytes

theorem booleans_ofSections (format : NumberFormat) (e : Entry) :
    (ofSections (e.fields format) (e.toBytes format)).booleans = e.booleans := by
  have hmiddle := slice_middle (e.header format ++ e.nameBytes) e.booleanBytes (e.alignment ++
    (e.numberBytes format ++ (positionBytes 0 e.strings ++ tableBytes e.strings)))
  have hbooleans : slice (e.toBytes format) (Header.size + e.nameBytes.length)
      (Header.size + e.nameBytes.length + e.booleans.length) = e.booleanBytes := by
    simpa only [List.length_append, length_header, length_booleanBytes, toBytes,
      List.append_assoc] using hmiddle
  have hmark : ∀ b ∈ e.booleans, ((· == (1 : UInt8)) ∘ fun b => if b then 1 else 0) b = id b := by
    intro b _
    cases b <;> rfl
  calc _ = e.booleanBytes.map (· == 1) := congrArg (List.map (· == 1)) hbooleans
    _ = e.booleans := by rw [booleanBytes, List.map_map, List.map_congr_left hmark, List.map_id]

theorem numbers_ofSections (h : e.Encodable format) :
    (ofSections (e.fields format) (e.toBytes format)).numbers = e.numbers := by
  have hnumbers : (e.toBytes format).drop (e.fields format).numbersStart =
      e.numberBytes format ++ (positionBytes 0 e.strings ++ tableBytes e.strings) := by
    rw [numbersStart_fields, toBytes, ← preamble, List.append_assoc, List.append_assoc,
      List.drop_left]
  have hsigned : ∀ n ∈ e.numbers, (signed ∘ signedBytes format.size) n = id n := fun n hn =>
    signed_signedBytes_of_fits format (h.numbers_fit n hn)
  have hgroups := groups_flatMap (length_signedBytes format.size) e.numbers
    (positionBytes 0 e.strings ++ tableBytes e.strings)
  rw [ofSections, numberSize_fields, hnumbers]
  exact ((congrArg (List.map signed) hgroups).trans (List.map_map ..)).trans
    ((List.map_congr_left hsigned).trans (List.map_id _))

theorem strings_ofSections (h : e.Encodable format) :
    (ofSections (e.fields format) (e.toBytes format)).strings = e.strings := by
  have hstrings : (e.toBytes format).drop (e.fields format).stringsStart =
      positionBytes 0 e.strings ++ tableBytes e.strings := by
    rw [stringsStart_fields, toBytes, ← preamble, List.append_assoc, List.drop_left]
  have htable : slice (e.toBytes format) (e.fields format).tableStart
      (e.fields format).tableEnd = tableBytes e.strings := by
    rw [tableStart_fields, tableEnd_fields, toBytes, ← preamble, slice, List.drop_left,
      List.length_append, Nat.add_sub_cancel_left, List.take_length]
  rw [ofSections, htable, hstrings]
  exact strings_of_positionBytes [] _ h.strings_latin1 (by simpa using h.table_size)

theorem ofSections_toBytes (h : e.Encodable format) :
    ofSections (e.fields format) (e.toBytes format) = e := by
  calc ofSections (e.fields format) (e.toBytes format)
      = ⟨(ofSections (e.fields format) (e.toBytes format)).names,
          (ofSections (e.fields format) (e.toBytes format)).booleans,
          (ofSections (e.fields format) (e.toBytes format)).numbers,
          (ofSections (e.fields format) (e.toBytes format)).strings⟩ := rfl
    _ = e := by
      rw [h.names_ofSections, booleans_ofSections, h.numbers_ofSections, h.strings_ofSections]

end Encodable

/-- An encoded entry is read as it was. -/
theorem ofBytes_toBytes (h : e.Encodable format) : ofBytes (e.toBytes format) = .ok e := by
  have hheader : Header.ofBytes? (e.toBytes format) = some (e.fields format) := by
    simpa only [toBytes, List.append_assoc] using h.header_ofBytes? _
  have hknown : (e.fields format).isKnown = true := by cases format <;> rfl
  have hextents : (e.fields format).extents.any (· < 0) = false := by
    simp [Header.extents, fields]
  have hend : ¬ (e.toBytes format).length < (e.fields format).tableEnd := by
    rw [tableEnd_fields]
    exact Nat.lt_irrefl _
  simp only [ofBytes, hheader, hknown, hextents, hend, h.ofSections_toBytes, Bool.not_true,
    Bool.false_eq_true, if_false]

end Entry

/-! ### Descriptions -/

namespace Description

variable {format : NumberFormat} {d : Description}

theorem isSome_lookup_iff {index : Nat} :
    (d.strings.lookup index).isSome ↔ index ∈ d.strings.map (·.1) := by
  rw [List.lookup_isSome_iff, List.mem_map]
  constructor
  · rintro ⟨given, hgiven, hindex⟩
    exact ⟨given, hgiven, (beq_iff_eq.mp hindex).symm⟩
  · rintro ⟨given, hgiven, rfl⟩
    exact ⟨given, hgiven, beq_self_eq_true _⟩

/-- The strings end behind the highest index that is given. -/
theorem lt_stringCount_iff {index : Nat} :
    index < d.stringCount ↔ ∃ other, index ≤ other ∧ (d.strings.lookup other).isSome := by
  simp only [isSome_lookup_iff, stringCount]
  cases hmax : (d.strings.map (·.1)).max? with
  | none => simp [List.max?_eq_none_iff.mp hmax]
  | some highest =>
    obtain ⟨hmem, hhighest⟩ := List.max?_eq_some_iff.mp hmax
    constructor
    · intro hindex
      exact ⟨highest, Nat.le_of_lt_succ hindex, hmem⟩
    · rintro ⟨other, hindex, hother⟩
      exact Nat.lt_succ_of_le (Nat.le_trans hindex (hhighest other hother))

/-- An encoded description is read with its names, booleans and numbers, and with as many strings
as the highest index that is given asks for, each as it was given. -/
theorem toBytes_reads_back (h : d.entry.Encodable format) :
    ∃ e, Entry.ofBytes (d.toBytes format) = .ok e ∧ e.names = d.names ∧ e.booleans = d.booleans ∧
      e.numbers = d.numbers ∧ e.strings.length = d.stringCount ∧
      (∀ index, index < d.stringCount → e.strings[index]? = some (d.strings.lookup index)) ∧
      ∀ index, index < d.stringCount ↔
        ∃ other, index ≤ other ∧ (d.strings.lookup other).isSome := by
  refine ⟨d.entry, Entry.ofBytes_toBytes h, rfl, rfl, rfl, ?_, ?_, fun _ => lt_stringCount_iff⟩
  · simp [entry]
  · intro index hindex
    simp [entry, hindex]

/-- A terminal with two names, so that the numbers stand behind a byte of alignment, and with two
strings, one of them empty, behind and between absent ones. -/
def sample : Description where
  names := ["xt", "X terminal"]
  booleans := [true, false, true]
  numbers := [80, -1, -2147483648]
  strings := [(3, Text.ofString "\x1b[K"), (1, [])]

theorem sample_reads_back :
    sample.entry.Encodable .extended ∧
    ∃ e, Entry.ofBytes (sample.toBytes .extended) = .ok e ∧ e.names = ["xt", "X terminal"] ∧
      e.booleans = [true, false, true] ∧ e.numbers = [80, -1, -2147483648] ∧
      e.strings.length = 4 ∧ e.strings[0]? = some none ∧ e.strings[1]? = some (some []) ∧
      e.strings[2]? = some none ∧ e.strings[3]? = some (some (Text.ofString "\x1b[K")) := by
  have hall : sample.entry.strings.all
      (fun s => (s.getD []).all fun u => 0 < u.toNat ∧ u.toNat < 256) = true := by
    decide
  have hlatin1 : ∀ s ∈ sample.entry.strings, ∀ u ∈ s.getD [], 0 < u.toNat ∧ u.toNat < 256 :=
    fun s hs u hu => of_decide_eq_true (List.all_eq_true.mp (List.all_eq_true.mp hall s hs) u hu)
  have hencodable : sample.entry.Encodable .extended :=
    ⟨by decide, by decide, by decide, fun s hs => hlatin1 (some s) hs, by decide, by decide,
      by decide, by decide, by decide⟩
  obtain ⟨e, hread, hnames, hbooleans, hnumbers, hlength, hstrings, -⟩ :=
    toBytes_reads_back hencodable
  exact ⟨hencodable, e, hread, hnames, hbooleans, hnumbers, hlength, hstrings 0 (by decide),
    hstrings 1 (by decide), hstrings 2 (by decide), hstrings 3 (by decide)⟩

end Description
end Terminfo
end LiveProgress
