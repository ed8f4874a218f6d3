import LiveProgress.Files.Tree
import LiveProgress.Proofs.Text.Split

/-!
# Paths of names

Names that a slash joins are a normal path, whose segments are these names. So joining them once
more does not change the path, and a file tree follows it name by name.
-/

namespace LiveProgress
namespace Path

/-- A segment that leads to an entry of a directory. -/
structure IsName (name : String) : Prop where
  ne_empty : name ≠ ""
  ne_here : name ≠ "."
  ne_up : name ≠ ".."
  no_slash : '/' ∉ name.toList

instance (name : String) : Decidable (IsName name) :=
  decidable_of_iff (name ≠ "" ∧ name ≠ "." ∧ name ≠ ".." ∧ '/' ∉ name.toList)
    ⟨fun h => ⟨h.1, h.2.1, h.2.2.1, h.2.2.2⟩, fun h => ⟨h.1, h.2, h.3, h.4⟩⟩

/-- A path that leads through names. -/
structure LeadsThrough (path : String) (names : List String) : Prop where
  joined : "/".intercalate names = path
  ne_nil : names ≠ []
  isName : ∀ name ∈ names, IsName name

variable {name path : String} {names : List String}

theorem IsName.toList_ne_nil (h : IsName name) : name.toList ≠ [] :=
  mt String.toList_eq_nil_iff.mp h.ne_empty

theorem IsName.enter (h : IsName name) (absolute : Bool) (back : List String) :
    Path.enter absolute back name = name :: back := by
  unfold Path.enter
  rw [if_neg (by simp [h.ne_empty, h.ne_here]), if_neg h.ne_up]

theorem foldl_enter (h : ∀ name ∈ names, IsName name) (absolute : Bool) (back : List String) :
    names.foldl (enter absolute) back = names.reverse ++ back := by
  induction names generalizing back with
  | nil => rfl
  | cons name names ih =>
    obtain ⟨hname, hnames⟩ := List.forall_mem_cons.mp h
    rw [List.foldl_cons, hname.enter, ih hnames, List.reverse_cons, List.append_assoc,
      List.singleton_append]

/-- The first and the last character of names that a slash joins belong to names. -/
theorem exists_ends_intercalate (hne : names ≠ []) (h : ∀ name ∈ names, IsName name) :
    (∃ c, ("/".intercalate names).toList.head? = some c ∧ c ≠ '/') ∧
      ∃ c, ("/".intercalate names).toList.getLast? = some c ∧ c ≠ '/' := by
  have hchar {name : String} (hname : IsName name) {c : Char} (hc : c ∈ name.toList) : c ≠ '/' := by
    rintro rfl
    exact hname.no_slash hc
  induction names with
  | nil => exact absurd rfl hne
  | cons name names ih =>
    obtain ⟨hname, hnames⟩ := List.forall_mem_cons.mp h
    have hnil := hname.toList_ne_nil
    have hfirst : name.toList.head? = some (name.toList.head hnil) := List.head?_eq_some_head hnil
    have hlast := List.getLast?_eq_some_getLast hnil
    cases names with
    | nil =>
      rw [String.intercalate_singleton]
      exact ⟨⟨_, hfirst, hchar hname (List.head_mem hnil)⟩,
        ⟨_, hlast, hchar hname (List.getLast_mem hnil)⟩⟩
    | cons other names =>
      obtain ⟨-, c, hc, hslash⟩ := ih (List.cons_ne_nil _ _) hnames
      rw [String.intercalate_cons_of_ne_nil (List.cons_ne_nil _ _), String.toList_append,
        String.toList_append, List.append_assoc, List.head?_append_of_ne_nil _ hnil,
        List.getLast?_append, List.getLast?_append, hc]
      exact ⟨⟨_, hfirst, hchar hname (List.head_mem hnil)⟩, c, rfl, hslash⟩

namespace LeadsThrough

theorem segments_eq_names (h : LeadsThrough path names) : segments path = names := by
  rw [← h.joined]
  exact Text.splitOn_intercalate h.ne_nil fun name hname => (h.isName name hname).no_slash

theorem names_eq (h : LeadsThrough path names) (absolute : Bool) :
    Path.names absolute path = names := by
  rw [Path.names, h.segments_eq_names, foldl_enter h.isName, List.append_nil, List.reverse_reverse]

theorem startsWith_eq_false (h : LeadsThrough path names) : path.startsWith "/" = false := by
  obtain ⟨⟨c, hc, hslash⟩, -⟩ := exists_ends_intercalate h.ne_nil h.isName
  rw [h.joined] at hc
  rw [String.startsWith_string_eq_false_iff]
  rintro ⟨rest, hrest⟩
  rw [← hrest] at hc
  exact hslash (Option.some.inj hc).symm

theorem endsWith_eq_false (h : LeadsThrough path names) : path.endsWith "/" = false := by
  obtain ⟨-, c, hc, hslash⟩ := exists_ends_intercalate h.ne_nil h.isName
  rw [h.joined] at hc
  rw [← String.endsWith_toSlice, String.Slice.endsWith_string_eq_false_iff, String.copy_toSlice]
  rintro ⟨rest, hrest⟩
  rw [← hrest, List.getLast?_append] at hc
  exact hslash (Option.some.inj hc).symm

theorem ne_empty (h : LeadsThrough path names) : path ≠ "" := by
  rintro rfl
  obtain ⟨⟨c, hc, -⟩, -⟩ := exists_ends_intercalate h.ne_nil h.isName
  rw [h.joined] at hc
  cases hc

theorem normalize_eq (h : LeadsThrough path names) : normalize path = path := by
  unfold normalize
  simp only [if_neg h.ne_empty, h.startsWith_eq_false, h.endsWith_eq_false, h.names_eq]
  have hjoined := h.joined
  cases names with
  | nil => exact absurd rfl h.ne_nil
  | cons name names => simpa using hjoined

theorem join_eq (h : LeadsThrough path names) : join names = path := by
  have hkept : names.filter (! ·.isEmpty) = names :=
    List.filter_eq_self.mpr fun name hname => by simpa using (h.isName name hname).ne_empty
  rw [join, hkept, h.joined, h.normalize_eq]

end LeadsThrough
end Path

/-- A tree follows a path of names from its own directory. -/
theorem FileTree.read_of_leadsThrough (t : FileTree) {path : String} {names : List String}
    (h : Path.LeadsThrough path names) (hnul : path.contains '\x00' = false)
    (hshort : path.utf8ByteSize < 4096) :
    t.read path =
      match t.walk [] names with
      | .ok (.file contents) => .ok contents
      | .ok .directory => .error .isDirectory
      | .error e => .error e := by
  have hlong : ¬ 4096 ≤ path.utf8ByteSize := Nat.not_le.mpr hshort
  cases hwalk : t.walk [] names with
  | error e =>
    simp only [read, hnul, hlong, h.ne_empty, h.startsWith_eq_false, h.segments_eq_names, hwalk,
      Bool.false_eq_true, if_false]
  | ok node =>
    cases node <;>
      simp only [read, hnul, hlong, h.ne_empty, h.startsWith_eq_false, h.segments_eq_names, hwalk,
        Bool.false_eq_true, if_false]

end LiveProgress
