import LiveProgress.Proofs.Message.Decoder

/-!
# Reading an input

Text and bytes may come in turns; what the input holds is told by its text alone. An input that
cannot be read to its end ends with a failure, whatever it holds.
-/

namespace LiveProgress

namespace Decoder

variable {d : Decoder} {chunks : List Chunk} {text : Text}

/-- An input is read as its text is. -/
theorem values_of_text (h : d.bytes.text? chunks = some text) :
    d.values chunks = ({ splitter := d.splitter } : Decoder).values [.text text] := by
  induction chunks generalizing d text with
  | nil =>
    obtain rfl := Option.some.inj h
    have hbytes : Text.units ({} : Utf8.Decoder).finish = [] := rfl
    simp only [values, finish, push, hbytes, Json.Splitter.push_nil]
    cases (d.splitter.push (Text.units d.bytes.finish)).2.finish with
    | error offset => simp only [List.append_nil]
    | ok last => simp only [List.nil_append]
  | cons c chunks ih =>
    cases c with
    | text s =>
      obtain ⟨rest, hrest, rfl⟩ := Option.map_eq_some_iff.mp h
      rw [← values_text_append]
      simp only [values, push]
      have hd := ih (d := { d with splitter := (d.splitter.push s).2 }) hrest
      rw [hd]
      rfl
    | bytes b =>
      obtain ⟨rest, hrest, rfl⟩ := Option.map_eq_some_iff.mp h
      rw [← values_text_append]
      simp only [values, push]
      have hd := ih (d := ⟨(d.bytes.push b).2, (d.splitter.push (Text.units (d.bytes.push b).1)).2⟩)
        hrest
      rw [hd]
      rfl
    | broken reason => cases h

theorem ending_of_unreadable (h : d.bytes.text? chunks = none) : (d.values chunks).2 ≠ none := by
  induction chunks generalizing d with
  | nil => cases h
  | cons c chunks ih =>
    cases c with
    | text s => exact ih (d := { d with splitter := _ }) (Option.map_eq_none_iff.mp h)
    | bytes b => exact ih (d := ⟨_, _⟩) (Option.map_eq_none_iff.mp h)
    | broken reason => exact Option.some_ne_none _

end Decoder

namespace Message

variable {chunks : List Chunk} {ms : List Message}

theorem ending_ofValues {ending : Option Failure} {values : List Json.RawValue}
    (h : (ofValues ending values).2 = none) : ending = none := by
  induction values with
  | nil => exact h
  | cons raw values ih =>
    simp only [ofValues] at h
    split at h
    · cases h
    · exact ih h

/-- An input ends without a failure exactly if it can be read and its text is a sequence of
messages, and then has these. -/
theorem ofChunks_eq_none_iff :
    ofChunks chunks = (ms, none) ↔
      ∃ text, ({} : Utf8.Decoder).text? chunks = some text ∧ MessageSequence text ms [] := by
  cases htext : ({} : Utf8.Decoder).text? chunks with
  | none =>
    constructor
    · intro h
      have hending := Decoder.ending_of_unreadable (d := {}) htext
      exact absurd (ending_ofValues (congrArg Prod.snd h)) hending
    · rintro ⟨_, h, _⟩
      cases h
  | some text =>
    have hread : ofChunks chunks = ofRest 0 text := by
      have htexts := ofChunks_texts [text]
      rw [List.flatten_singleton] at htexts
      rw [← htexts]
      simp only [ofChunks, Decoder.values_of_text (d := {}) htext, List.map_cons, List.map_nil]
    obtain ⟨ms', rest, hms, hrest⟩ := exists_sequence text 0
    have hsplit := (ofRest_sequence hms).2 0
    rw [hread]
    constructor
    · intro h
      rcases hrest with rfl | ⟨f, hf⟩
      · rw [hsplit, ofRest_nil, List.append_nil] at h
        obtain ⟨rfl, -⟩ := Prod.mk.inj h
        exact ⟨text, rfl, hms⟩
      · rw [hsplit, ofRest_offence hf] at h
        cases h
    · rintro ⟨_, ⟨rfl⟩, h⟩
      rw [(ofRest_sequence h).2, ofRest_nil, List.append_nil]

end Message
end LiveProgress
