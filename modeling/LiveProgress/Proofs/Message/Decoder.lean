import LiveProgress.Message.Sequence
import LiveProgress.Proofs.Json.Reader
import LiveProgress.Proofs.Json.Splitter
import LiveProgress.Proofs.Text.Utf8

/-!
# Decoding an input

A decoder carries over a cut of its input what it needs, so two chunks of one kind are one,
and an empty chunk is none. The decoder of a text accepts the sequences of messages and no
other text, and what it tells of another one is the first value that holds no message.
-/

namespace LiveProgress

/-! ### The values of an input -/

namespace Decoder

theorem values_congr {d : Decoder} {c : Chunk} {a b : List Chunk}
    (h : ∀ d : Decoder, d.values a = d.values b) : d.values (c :: a) = d.values (c :: b) := by
  simp only [values, h]

/-- If two chunks of a kind are one chunk and the empty one is none, then any number of
them is one. -/
theorem values_flatten {A : Type} {kind : List A → Chunk}
    (hnil : ∀ (d : Decoder) (rest : List Chunk), d.values (kind [] :: rest) = d.values rest)
    (happend : ∀ (d : Decoder) (a b : List A) (rest : List Chunk),
      d.values (kind a :: kind b :: rest) = d.values (kind (a ++ b) :: rest))
    (d : Decoder) (pieces : List (List A)) (rest : List Chunk) :
    d.values (pieces.map kind ++ rest) = d.values (kind pieces.flatten :: rest) := by
  induction pieces generalizing d with
  | nil => exact (hnil d rest).symm
  | cons a pieces ih =>
    rw [List.flatten_cons, ← happend]
    exact values_congr ih

theorem values_text_append (d : Decoder) (a b : Text) (rest : List Chunk) :
    d.values (.text a :: .text b :: rest) = d.values (.text (a ++ b) :: rest) := by
  simp only [values, push, Json.Splitter.push_append, List.append_assoc]

theorem values_texts (d : Decoder) (pieces : List Text) (rest : List Chunk) :
    d.values (pieces.map .text ++ rest) = d.values (.text pieces.flatten :: rest) :=
  values_flatten (fun _ _ => rfl) values_text_append d pieces rest

theorem values_bytes_append (d : Decoder) (a b : List UInt8) (rest : List Chunk) :
    d.values (.bytes a :: .bytes b :: rest) = d.values (.bytes (a ++ b) :: rest) := by
  simp only [values, push, Utf8.Decoder.push_append, Text.units_append,
    Json.Splitter.push_append, List.append_assoc]

theorem values_bytes (d : Decoder) (pieces : List (List UInt8)) (rest : List Chunk) :
    d.values (pieces.map .bytes ++ rest) = d.values (.bytes pieces.flatten :: rest) :=
  values_flatten (fun _ _ => rfl) values_bytes_append d pieces rest

/-- The bytes of a text bring the splitter where the text brings it, and leave no sequence
open. -/
theorem push_encoded {s : List Char} (h : s.head? ≠ some '\uFEFF') :
    ({} : Decoder).push (.bytes (Utf8.encode s)) =
      (({} : Decoder).push (.text (Text.units s))).map fun (values, d) =>
        (values, { d with bytes := ⟨none, s.isEmpty⟩ }) := by
  simp only [push, Utf8.Decoder.push_encode_start h, Except.map]

/-- A text is read alike from its units and from its bytes, and whether the input then
ends or fails. -/
theorem values_encoded {s : List Char} (h : s.head? ≠ some '\uFEFF') (failure : Option String) :
    ({} : Decoder).values (.bytes (Utf8.encode s) :: (failure.map Chunk.broken).toList) =
      ({} : Decoder).values (.text (Text.units s) :: (failure.map Chunk.broken).toList) := by
  unfold values
  rw [push_encoded h]
  cases failure with
  | none =>
    simp only [push, Except.map, Option.map_none, Option.toList_none, values, finish,
      Utf8.Decoder.finish_of_pending_none]
  | some reason => rfl

end Decoder

/-! ### The messages of a text -/

namespace Message
open Json Json.Grammar

/-- The messages of the rest of a text that stands at an offset. -/
def ofRest (offset : Nat) (text : Text) : List Message × Option Failure :=
  ofValues (((Splitter.between offset).values text).2.map fun n => .truncated (.ofNat n))
    ((Splitter.between offset).values text).1

theorem ofChunks_texts (pieces : List Text) :
    ofChunks (pieces.map .text) = ofRest 0 pieces.flatten := by
  have h := Decoder.values_texts {} pieces []
  rw [List.append_nil] at h
  have hbytes : Text.units ({} : Utf8.Decoder).finish = [] := rfl
  have hbetween : Splitter.between 0 = {} := rfl
  simp only [ofChunks, ofRest, h, Decoder.values, Decoder.push, Decoder.finish, hbytes,
    Splitter.push_nil, Splitter.values, hbetween]
  cases (Splitter.push {} pieces.flatten).2.finish with
  | error offset => simp only [Option.map_some, List.append_nil]
  | ok last => simp only [Option.map_none, List.nil_append]

theorem ofRest_nil (o : Nat) : ofRest o [] = ([], none) := rfl

theorem ofRest_blanks {s t : Text} (h : Blanks s t) (o : Nat) :
    ofRest o s = ofRest (o + (s.length - t.length)) t := by
  induction h generalizing o with
  | nil => rw [Nat.sub_self, Nat.add_zero]
  | @cons u s t hu h ih =>
    have hlength := h.length
    have hoffset : o + 1 + (s.length - t.length) = o + ((u :: s).length - t.length) := by
      simp only [List.length_cons]
      omega
    rw [← hoffset, ← ih, ofRest, Splitter.values_blank hu]
    rfl

/-- A value is read, and then those of the text behind it. -/
theorem ofRest_extent {x t : Text} (h : Extent (x ++ t) t) (o : Nat) :
    ofRest o (x ++ t) =
      match ofText x (.ofNat o) with
      | .error f => ([], some f)
      | .ok m => (m :: (ofRest (o + x.length) t).1, (ofRest (o + x.length) t).2) := by
  rw [ofRest, Splitter.values_of_extent h]
  rfl

theorem ofText_ok {x : Text} {v : Json} {m : Message} (hv : Json.read x = .ok v)
    (hm : Message.ofJson v = .ok m) (o : Number) : ofText x o = .ok m := by
  simp only [ofText, hv, hm, Except.mapError]

/-! ### Objects that hold a message -/

theorem Written.extent {m : Message} {x : Text} (h : m.Written x) (t : Text) :
    Extent (x ++ t) t := by
  obtain ⟨rest, hmark⟩ := h.isObject
  have hextent := extent_of_value h.isValue hmark (by decide)
  obtain ⟨hu⟩ := hmark
  exact hextent.append (by simp [isBreak, isOpening, hu]) t

theorem ofRest_written {m : Message} {x : Text} (h : m.Written x) (o : Nat) (t : Text) :
    ofRest o (x ++ t) = (m :: (ofRest (o + x.length) t).1, (ofRest (o + x.length) t).2) := by
  obtain ⟨v, hv, hm⟩ := h.holds
  rw [ofRest_extent (h.extent t), ofText_ok hv hm]

theorem object_of_ofJson {v : Json} {m : Message} (h : Message.ofJson v = .ok m) :
    ∃ members, v = .object members := by
  cases v with
  | object members => exact ⟨members, rfl⟩
  | null | bool _ | number _ | string _ | array _ => cases h

/-- A value that is read as a message is the text of an object. -/
theorem written_of_read {x t : Text} (h : Extent (x ++ t) t) {v : Json} {m : Message}
    (hv : Json.read x = .ok v) (hm : Message.ofJson v = .ok m) : m.Written x := by
  obtain ⟨members, rfl⟩ := object_of_ofJson hm
  have hstart : NoBlank x := h.noBlank.of_append
  obtain ⟨rest, hmark⟩ := object_of_read hstart hv
  obtain ⟨hblanks, hvalue, _⟩ := document_of_read hv
  obtain rfl := hblanks.eq_of_noBlank hstart
  have hextent := extent_of_value hvalue hmark (by decide)
  obtain ⟨hu⟩ := hmark
  have happend := hextent.append (by simp [isBreak, isOpening, hu]) t
  have hrest := Splitter.extent_unique happend h
  rw [List.append_left_eq_self.mp hrest] at hvalue
  exact ⟨⟨_, .mk hu⟩, hvalue, _, hv, hm⟩

/-! ### Sequences -/

theorem ofRest_sequence {s rest : Text} {ms : List Message} (h : MessageSequence s ms rest) :
    rest.length ≤ s.length ∧ ∀ o, ofRest o s =
      (ms ++ (ofRest (o + (s.length - rest.length)) rest).1,
        (ofRest (o + (s.length - rest.length)) rest).2) := by
  induction h with
  | done hblanks => exact ⟨hblanks.length, fun o => by rw [ofRest_blanks hblanks]; rfl⟩
  | @cons s x t rest m ms hblanks hx _ ih =>
    obtain ⟨hlength, ih⟩ := ih
    have hfront := hblanks.length
    rw [List.length_append] at hfront
    refine ⟨by omega, ?_⟩
    intro o
    have hoffset : o + (s.length - (x ++ t).length) + x.length + (t.length - rest.length) =
        o + (s.length - rest.length) := by
      rw [List.length_append]
      omega
    rw [ofRest_blanks hblanks, ofRest_written hx, ih, hoffset]
    rfl

theorem ofRest_offence {o : Nat} {s : Text} {f : Failure} (h : Offence o s f) :
    ofRest o s = ([], some f) := by
  cases h with
  | unfinished hu hopen =>
    rw [ofRest, Splitter.values_of_no_extent hu hopen]
    rfl
  | malformed hextent _ hread =>
    rw [ofRest_extent hextent]
    simp only [ofText, hread]
  | invalid hextent _ hread hv =>
    rw [ofRest_extent hextent]
    simp only [ofText, hread, hv, Except.mapError]

/-- What stands at the front of a text is a message or an offence. -/
theorem written_or_offence {u : CodeUnit} {s : Text} (hu : isBlank u = false) (o : Nat) :
    (∃ x t m, u :: s = x ++ t ∧ t.length < (u :: s).length ∧ Written m x) ∨
      ∃ f, Offence o (u :: s) f := by
  by_cases hextent : ∃ rest, Extent (u :: s) rest
  · obtain ⟨t, hextent⟩ := hextent
    obtain ⟨x, hx, hne, _⟩ := Splitter.values_extent hextent
    rw [hx] at hextent ⊢
    cases hread : Json.read x with
    | error fault =>
      have hno : ¬ Document x := by
        rw [← read_eq_ok_iff, hread]
        rintro ⟨_, h⟩
        cases h
      exact .inr ⟨_, .malformed hextent hno hread⟩
    | ok v =>
      cases hm : Message.ofJson v with
      | error defect => exact .inr ⟨_, .invalid hextent (document_of_read hread) hread hm⟩
      | ok m =>
        refine .inl ⟨x, t, m, rfl, ?_, written_of_read hextent hread hm⟩
        have := List.length_pos_iff.mpr hne
        rw [List.length_append]
        omega
  · exact .inr ⟨_, .unfinished hu (not_exists.mp hextent)⟩

/-- Every text is a sequence of messages up to its end or to an offence. -/
theorem exists_sequence (s : Text) (o : Nat) : ∃ ms rest, MessageSequence s ms rest ∧
    (rest = [] ∨ ∃ f, Offence (o + (s.length - rest.length)) rest f) := by
  -- On the length: what follows a message is shorter.
  induction hn : s.length using Nat.strongRecOn generalizing s o with
  | ind n ih =>
  have hblanks := blanks_skipBlanks s
  have hlength := hblanks.length
  have hstart := noBlank_skipBlanks s
  cases hs : skipBlanks s with
  | nil =>
    rw [hs] at hblanks
    exact ⟨[], [], .done hblanks, .inl rfl⟩
  | cons u t =>
    rw [hs] at hblanks hlength hstart
    rcases written_or_offence (s := t) (hstart u rfl) (o + (n - (u :: t).length)) with
      ⟨x, t', m, hx, hshort, hwritten⟩ | ⟨f, hf⟩
    · obtain ⟨ms, rest, hms, hrest⟩ :=
        ih t'.length (by omega) t' (o + (n - t'.length)) rfl
      rw [hx] at hblanks
      refine ⟨m :: ms, rest, .cons hblanks hwritten hms, ?_⟩
      have := (ofRest_sequence hms).1
      have hoffset : o + (n - t'.length) + (t'.length - rest.length) =
          o + (n - rest.length) := by omega
      rwa [hoffset] at hrest
    · exact ⟨[], u :: t, .done hblanks, .inr ⟨f, hf⟩⟩

/-! ### What the decoder tells -/

/-- A failure that an offence means is told with a code and, unless the value is JSON, with
the offset of its first unit. -/
theorem Offence.report {o : Nat} {s : Text} {f : Failure} (h : Offence o s f) :
    ∃ r, f.report? = some r ∧
      (StartsText s ∧ r.code = "INVALID_MESSAGE" ∨
        ¬ StartsText s ∧ r.code = "DECODE_FAILED" ∧
          r.details = Failure.detail "offset" (.number (.ofNat o))) := by
  cases h with
  | unfinished _ hopen =>
    refine ⟨_, rfl, .inr ⟨?_, rfl, rfl⟩⟩
    rintro ⟨_, rest, _, hextent, _⟩
    exact hopen rest hextent
  | malformed hextent hno _ =>
    refine ⟨_, rfl, .inr ⟨?_, rfl, rfl⟩⟩
    rintro ⟨x, rest, hx, hextent', hdocument⟩
    obtain rfl := Splitter.extent_unique hextent hextent'
    obtain rfl := List.append_cancel_right hx
    exact hno hdocument
  | invalid hextent hdocument _ _ =>
    exact ⟨_, rfl, .inl ⟨⟨_, _, rfl, hextent, hdocument⟩, rfl⟩⟩

/-- The decoder of a text ends without a failure exactly if the text is a sequence of
messages, and then has these. Else it has the messages in front of the first value that holds
none, and tells this one: as no message if it is JSON, and else by the offset where it begins.
How the text is cut does not matter. -/
theorem ofChunks_eq_iff_sequence (pieces : List Text) (ms : List Message) :
    (ofChunks (pieces.map .text) = (ms, none) ↔ MessageSequence pieces.flatten ms []) ∧
    ∀ f, ofChunks (pieces.map .text) = (ms, some f) ↔
      ∃ rest r, MessageSequence pieces.flatten ms rest ∧
        Offence (pieces.flatten.length - rest.length) rest f ∧ f.report? = some r ∧
          (StartsText rest ∧ r.code = "INVALID_MESSAGE" ∨
            ¬ StartsText rest ∧ r.code = "DECODE_FAILED" ∧ r.details =
              Failure.detail "offset" (.number (.ofNat (pieces.flatten.length - rest.length)))) := by
  rw [ofChunks_texts]
  generalize pieces.flatten = s
  have hdone {ms : List Message} (h : MessageSequence s ms []) : ofRest 0 s = (ms, none) := by
    rw [(ofRest_sequence h).2, ofRest_nil]
    simp only [List.append_nil]
  have hfailed {ms : List Message} {rest : Text} {f : Failure}
      (h : MessageSequence s ms rest) (hf : Offence (s.length - rest.length) rest f) :
      ofRest 0 s = (ms, some f) := by
    rw [(ofRest_sequence h).2, Nat.zero_add, ofRest_offence hf]
    simp only [List.append_nil]
  obtain ⟨ms', rest, hms, hrest⟩ := exists_sequence s 0
  rw [Nat.zero_add] at hrest
  refine ⟨⟨fun h => ?_, hdone⟩, fun f => ⟨fun h => ?_, ?_⟩⟩
  · rcases hrest with rfl | ⟨f, hf⟩
    · obtain ⟨rfl, _⟩ := Prod.mk.inj ((hdone hms).symm.trans h)
      exact hms
    · cases (hfailed hms hf).symm.trans h
  · rcases hrest with rfl | ⟨f', hf⟩
    · cases (hdone hms).symm.trans h
    · obtain ⟨rfl, hff⟩ := Prod.mk.inj ((hfailed hms hf).symm.trans h)
      obtain rfl := Option.some.inj hff
      obtain ⟨r, hr, hcode⟩ := hf.report
      exact ⟨rest, r, hms, hf, hr, hcode⟩
  · rintro ⟨rest, r, hms, hf, _, _⟩
    exact hfailed hms hf

end Message
end LiveProgress
