import LiveProgress.Terminfo.Candidates
import LiveProgress.Proofs.Terminfo.Encoding
import LiveProgress.Proofs.Files.Path

/-!
# What hides an entry

A search goes on behind a candidate only if nothing is there. So it finds the first entry among the
candidates, unless something else stands in front of it: a file that cannot be read for another
reason than that it is not there, or one that is no entry.
-/

namespace LiveProgress

namespace Terminfo

variable {read : FileReader} {path : String}

theorem entryAt?_of_isVacant (h : isVacant read path = true) : entryAt? read path = none := by
  unfold isVacant at h
  unfold entryAt?
  cases hread : read path with
  | ok bytes => simp [hread] at h
  | error e => rfl

theorem firstEntry_of_isVacant (h : isVacant read path = true) (rest : List String) :
    firstEntry read (path :: rest) = firstEntry read rest := by
  unfold isVacant at h
  rw [firstEntry]
  cases hread : read path with
  | ok bytes => simp [hread] at h
  | error e =>
    rw [hread] at h
    exact if_pos h

/-- The search ends at a candidate where something is. -/
theorem firstEntry_of_not_isVacant (h : isVacant read path = false) (rest : List String) :
    (firstEntry read (path :: rest)).toOption = entryAt? read path := by
  unfold isVacant at h
  rw [firstEntry, entryAt?]
  cases hread : read path with
  | ok bytes =>
    dsimp only
    cases Entry.ofBytes bytes <;> rfl
  | error e =>
    rw [hread] at h
    dsimp only at h ⊢
    rw [if_neg (Bool.eq_false_iff.mp h)]
    rfl

/-- What is found is the first entry among the candidates. -/
theorem findSome?_of_firstEntry {paths : List String} {e : Entry}
    (h : (firstEntry read paths).toOption = some e) :
    paths.findSome? (entryAt? read) = some e := by
  induction paths with
  | nil => cases h
  | cons path paths ih =>
    cases hvacant : isVacant read path with
    | true =>
      rw [firstEntry_of_isVacant hvacant] at h
      rw [List.findSome?_cons, entryAt?_of_isVacant hvacant]
      exact ih h
    | false =>
      rw [firstEntry_of_not_isVacant hvacant] at h
      rw [List.findSome?_cons, h]

theorem nothingHides_cons_of_isVacant (h : isVacant read path = true) (paths : List String) :
    NothingHides read (path :: paths) ↔ NothingHides read paths := by
  simp [NothingHides, entryAt?_of_isVacant h, h]

/-- The first entry is found exactly if nothing stands in front of it. -/
theorem firstEntry_eq_findSome?_iff (paths : List String) :
    (firstEntry read paths).toOption = paths.findSome? (entryAt? read) ↔
      NothingHides read paths := by
  induction paths with
  | nil => simp [NothingHides, firstEntry, Except.toOption]
  | cons path paths ih =>
    cases hvacant : isVacant read path with
    | true =>
      rw [firstEntry_of_isVacant hvacant, nothingHides_cons_of_isVacant hvacant, List.findSome?_cons,
        entryAt?_of_isVacant hvacant]
      exact ih
    | false =>
      rw [firstEntry_of_not_isVacant hvacant, List.findSome?_cons]
      cases hentry : entryAt? read path with
      | some e => simp [NothingHides, hentry]
      | none =>
        -- The search ends here with nothing found, so there must be nothing behind either.
        have hends : (none = paths.findSome? (entryAt? read)) ↔
            ¬ ∃ other ∈ paths, (entryAt? read other).isSome := by
          rw [eq_comm, List.findSome?_eq_none_iff]
          simp [Option.isSome_iff_ne_none]
        dsimp only
        rw [hends]
        simp [NothingHides, hentry, hvacant]

/-- The look-up of a valid name never takes a later entry for the first one among the candidates,
and it finds that one whenever there is any exactly if nothing hides it. -/
theorem lookup_finds_first_entry_iff (read : FileReader) {term : String}
    (h : isValidName term = true) (dirs : List String) :
    (∀ e, lookup read term dirs = .ok e →
      (candidates term dirs).findSome? (entryAt? read) = some e) ∧
    ((∀ e, lookup read term dirs = .ok e ↔
        (candidates term dirs).findSome? (entryAt? read) = some e) ↔
      NothingHides read (candidates term dirs)) := by
  have hlookup : lookup read term dirs = firstEntry read (candidates term dirs) := by
    rw [lookup, if_pos h, candidates]
  have hok (e : Entry) : lookup read term dirs = .ok e ↔
      (firstEntry read (candidates term dirs)).toOption = some e := by
    rw [hlookup]
    cases firstEntry read (candidates term dirs) <;> simp [Except.toOption]
  constructor
  · intro e he
    exact findSome?_of_firstEntry ((hok e).mp he)
  · rw [← firstEntry_eq_findSome?_iff, Option.ext_iff]
    exact forall_congr' fun e => iff_congr (hok e) Iff.rfl

/-! ### The terminal xt -/

/-- An entry without capabilities. -/
def bareEntry : Entry := { names := ["xt"], booleans := [], numbers := [], strings := [] }

def bareBytes : List UInt8 := [0x1a, 1, 3, 0, 0, 0, 0, 0, 0, 0, 0, 0, 0x78, 0x74, 0, 0]

theorem ofBytes_bareBytes : Entry.ofBytes bareBytes = .ok bareEntry := by
  have hencodable : bareEntry.Encodable .legacy :=
    ⟨by decide, by decide, by decide, fun s hs => absurd hs List.not_mem_nil, by decide, by decide,
      by decide, by decide, by decide⟩
  have hbytes : bareEntry.toBytes .legacy = bareBytes := by decide
  exact hbytes ▸ Entry.ofBytes_toBytes hencodable

theorem entryPaths_xt (dir : String) :
    entryPaths "xt" dir = [Path.join [dir, "x", "xt"], Path.join [dir, "78", "xt"]] := by
  have htext : Text.ofString "xt" = [120, 116] := by decide
  have hletter : Text.string [120] = "x" := by decide
  have hcode : (Number.ofNat (120 : CodeUnit).toNat).wholeText 16 = "78" := by decide +kernel
  simp only [entryPaths, htext, hletter, hcode]

/-- The names in the paths below two directories at which the entry may be. -/
theorem leadsThrough_xt :
    Path.LeadsThrough "a/x/xt" ["a", "x", "xt"] ∧ Path.LeadsThrough "a/78/xt" ["a", "78", "xt"] ∧
      Path.LeadsThrough "b/x/xt" ["b", "x", "xt"] ∧
      Path.LeadsThrough "b/78/xt" ["b", "78", "xt"] := by
  refine ⟨?_, ?_, ?_, ?_⟩
  all_goals exact ⟨by decide, by decide, by decide⟩

theorem candidates_xt :
    candidates "xt" ["a", "b"] = ["a/x/xt", "a/78/xt", "b/x/xt", "b/78/xt"] := by
  obtain ⟨hletterA, hcodeA, hletterB, hcodeB⟩ := leadsThrough_xt
  simp only [candidates, List.flatMap_cons, List.flatMap_nil, entryPaths_xt, hletterA.join_eq,
    hcodeA.join_eq, hletterB.join_eq, hcodeB.join_eq, List.cons_append, List.nil_append]

/-- A file where a directory is looked for, no file and a directory where a file is looked for are
passed over. -/
theorem entry_is_found_behind_vacant_paths :
    let tree : FileTree := ⟨[(["a", "x"], some []), (["b", "x", "xt"], none),
      (["b", "78", "xt"], some bareBytes)]⟩
    isValidName "xt" = true ∧ lookup tree.read "xt" ["a", "b"] = .ok bareEntry := by
  intro tree
  obtain ⟨hletterA, hcodeA, hletterB, hcodeB⟩ := leadsThrough_xt
  have hname : isValidName "xt" = true := by simp [isValidName]
  have hfile : isVacant tree.read "a/x/xt" = true := by
    rw [isVacant, tree.read_of_leadsThrough hletterA (by simp) (by decide)]
    rfl
  have hmissing : isVacant tree.read "a/78/xt" = true := by
    rw [isVacant, tree.read_of_leadsThrough hcodeA (by simp) (by decide)]
    rfl
  have hdirectory : isVacant tree.read "b/x/xt" = true := by
    rw [isVacant, tree.read_of_leadsThrough hletterB (by simp) (by decide)]
    rfl
  have hread : tree.read "b/78/xt" = .ok bareBytes :=
    (tree.read_of_leadsThrough hcodeB (by simp) (by decide)).trans rfl
  have hentry : entryAt? tree.read "b/78/xt" = some bareEntry := by
    simp only [entryAt?, hread, ofBytes_bareBytes, Except.toOption]
  obtain ⟨_, hfinds⟩ := lookup_finds_first_entry_iff tree.read hname ["a", "b"]
  refine ⟨hname, (hfinds.mpr ?_ bareEntry).mpr ?_⟩
  · intro _
    simp [candidates_xt, entryAt?_of_isVacant, hfile, hmissing, hdirectory, hentry]
  · simp [candidates_xt, entryAt?_of_isVacant, hfile, hmissing, hdirectory, hentry]

/-- A file that is truncated in a directory hides the entry in the next one. -/
theorem truncated_file_hides_entry :
    let tree : FileTree := ⟨[(["a", "x", "xt"], some [0x1a, 1]),
      (["b", "x", "xt"], some bareBytes)]⟩
    isValidName "xt" = true ∧
      (candidates "xt" ["a", "b"]).findSome? (entryAt? tree.read) = some bareEntry ∧
      lookup tree.read "xt" ["a", "b"] = .error (.badEntry .truncated) := by
  intro tree
  obtain ⟨hletterA, hcodeA, hletterB, -⟩ := leadsThrough_xt
  have hname : isValidName "xt" = true := by simp [isValidName]
  have htruncated : tree.read "a/x/xt" = .ok [0x1a, 1] :=
    (tree.read_of_leadsThrough hletterA (by simp) (by decide)).trans rfl
  have hmissing : isVacant tree.read "a/78/xt" = true := by
    rw [isVacant, tree.read_of_leadsThrough hcodeA (by simp) (by decide)]
    rfl
  have hread : tree.read "b/x/xt" = .ok bareBytes :=
    (tree.read_of_leadsThrough hletterB (by simp) (by decide)).trans rfl
  have hshort : Entry.ofBytes [0x1a, 1] = .error .truncated := rfl
  refine ⟨hname, ?_, ?_⟩
  · have hnone : entryAt? tree.read "a/x/xt" = none := by
      simp only [entryAt?, htruncated, hshort, Except.toOption]
    have hentry : entryAt? tree.read "b/x/xt" = some bareEntry := by
      simp only [entryAt?, hread, ofBytes_bareBytes, Except.toOption]
    simp [candidates_xt, hnone, entryAt?_of_isVacant hmissing, hentry]
  · rw [lookup, if_pos hname, ← candidates, candidates_xt, firstEntry, htruncated]
    rfl

end Terminfo
end LiveProgress
