import Mathlib.Data.String.Basic

/-!
# Splitting at a character

Splitting walks over a text by byte positions. Behind the characters already given out and those
of the part at hand stand the characters that are left, so each position it visits is the length
of what is behind it, and the parts are those of the list of characters.
-/

namespace LiveProgress.Text
open String

/-- The walk with `l` given out, the part `m` at hand and `r` left. -/
theorem splitOnAux_singleton (c : Char) (l m r : List Char) (acc : List String) :
    splitOnAux (ofList (l ++ m ++ r)) (ofList [c]) ⟨utf8Len l⟩ ⟨utf8Len l + utf8Len m⟩ 0 acc =
      acc.reverse ++ (List.splitOnPPrepend (· == c) r m.reverse).map ofList := by
  have hget : Pos.Raw.get (ofList [c]) 0 = c := get_of_valid [] [c]
  have hnext : Pos.Raw.next (ofList [c]) 0 = ⟨c.utf8Size⟩ := by
    have h := next_of_valid [] c []
    rwa [utf8Len_nil, Nat.zero_add] at h
  have hend : Pos.Raw.atEnd (ofList [c]) ⟨c.utf8Size⟩ = true := by
    simp only [atEnd_iff, rawEndPos_ofList, utf8Len_cons, utf8Len_nil, Pos.Raw.mk_le_mk]
    omega
  induction r generalizing l m acc with
  | nil =>
    have hatEnd : Pos.Raw.atEnd (ofList (l ++ m ++ [])) ⟨utf8Len l + utf8Len m⟩ = true := by
      simp only [atEnd_iff, rawEndPos_ofList, utf8Len_append, utf8Len_nil, Pos.Raw.mk_le_mk]
      omega
    rw [splitOnAux, if_pos hatEnd, extract_of_valid]
    simp
  | cons d r ih =>
    have hatEnd : ¬ Pos.Raw.atEnd (ofList (l ++ m ++ d :: r)) ⟨utf8Len l + utf8Len m⟩ = true := by
      have := d.utf8Size_pos
      simp only [atEnd_iff, rawEndPos_ofList, utf8Len_append, utf8Len_cons, Pos.Raw.mk_le_mk]
      omega
    have hchar : Pos.Raw.get (ofList (l ++ m ++ d :: r)) ⟨utf8Len l + utf8Len m⟩ = d := by
      have h := get_of_valid (l ++ m) (d :: r)
      rwa [utf8Len_append] at h
    have hstep : Pos.Raw.next (ofList (l ++ m ++ d :: r)) ⟨utf8Len l + utf8Len m⟩ =
        ⟨utf8Len l + utf8Len m + d.utf8Size⟩ := by
      have h := next_of_valid (l ++ m) d r
      rwa [utf8Len_append] at h
    rw [splitOnAux, if_neg hatEnd, hchar, hget]
    by_cases hd : d = c
    · subst hd
      have hback : Pos.Raw.unoffsetBy ⟨utf8Len l + utf8Len m + d.utf8Size⟩ ⟨d.utf8Size⟩ =
          ⟨utf8Len l + utf8Len m⟩ := by
        simp [Pos.Raw.unoffsetBy]
      have hrest := ih (l ++ m ++ [d]) [] (ofList m :: acc)
      simp only [beq_self_eq_true, if_true, hstep, hnext, hend, hback, extract_of_valid]
      simpa [List.splitOnPPrepend_cons_eq_if, Nat.add_assoc] using hrest
    · have hzero : Pos.Raw.unoffsetBy ⟨utf8Len l + utf8Len m⟩ 0 = ⟨utf8Len l + utf8Len m⟩ := by
        simp [Pos.Raw.unoffsetBy]
      have hrest := ih l (m ++ [d]) acc
      have hne : (d == c) = false := beq_false_of_ne hd
      simp only [hne, hzero, hstep, Bool.false_eq_true, if_false]
      simpa [List.splitOnPPrepend_cons_eq_if, hne, Nat.add_assoc] using hrest

/-- Splitting a text at a character splits the list of its characters. -/
theorem splitOn_ofList (c : Char) (s : String) :
    s.splitOn (ofList [c]) = (s.toList.splitOn c).map ofList := by
  have hsep : (ofList [c] == "") = false := by
    apply beq_false_of_ne
    intro h
    simpa using congrArg String.toList h
  have haux := splitOnAux_singleton c [] [] s.toList []
  simp only [List.nil_append, ofList_toList, utf8Len_nil, List.reverse_nil] at haux
  rw [splitOn, hsep, List.splitOn_eq_splitOnP]
  exact haux

/-- Parts without the separator are found again. -/
theorem splitOn_intercalate {c : Char} {parts : List String} (hne : parts ≠ [])
    (hfree : ∀ part ∈ parts, c ∉ part.toList) :
    ((ofList [c]).intercalate parts).splitOn (ofList [c]) = parts := by
  rw [splitOn_ofList, toList_intercalate, toList_ofList,
    List.splitOn_intercalate _ (by simpa using hfree) (by simpa using hne)]
  simp

/-- Put together again, the parts of a text make up the text. -/
theorem intercalate_splitOn (c : Char) (s : String) :
    (ofList [c]).intercalate (s.splitOn (ofList [c])) = s := by
  apply String.toList_inj.mp
  have hparts : ((s.toList.splitOn c).map ofList).map String.toList = s.toList.splitOn c := by
    simp
  rw [toList_intercalate, toList_ofList, splitOn_ofList, hparts, List.intercalate_splitOn]

theorem splitOn_ne_nil (c : Char) (s : String) : s.splitOn (ofList [c]) ≠ [] := by
  rw [splitOn_ofList]
  simp

theorem not_mem_of_mem_splitOn {c : Char} {s part : List Char} (h : part ∈ s.splitOn c) :
    c ∉ part := by
  rw [List.splitOn_eq_splitOnP] at h
  induction s generalizing part with
  | nil => simp_all
  | cons d s ih =>
    rw [List.splitOnP_cons_eq_if_modifyHead] at h
    split at h
    case isTrue =>
      rcases List.mem_cons.mp h with rfl | hrest
      · exact List.not_mem_nil
      · exact ih hrest
    case isFalse hd =>
      obtain ⟨first, others, hcons⟩ :=
        List.exists_cons_of_ne_nil (List.splitOnP_ne_nil (· == c) s)
      rw [hcons, List.modifyHead_cons] at h
      rw [hcons] at ih
      rcases List.mem_cons.mp h with rfl | hrest
      · rw [List.mem_cons, not_or]
        exact ⟨fun heq => hd (beq_iff_eq.mpr heq.symm), ih List.mem_cons_self⟩
      · exact ih (List.mem_cons_of_mem _ hrest)

/-- The separator is in none of the parts. -/
theorem free_of_mem_splitOn {c : Char} {s part : String} (h : part ∈ s.splitOn (ofList [c])) :
    c ∉ part.toList := by
  rw [splitOn_ofList] at h
  obtain ⟨characters, hmem, rfl⟩ := List.mem_map.mp h
  rw [toList_ofList]
  exact not_mem_of_mem_splitOn hmem

end LiveProgress.Text
