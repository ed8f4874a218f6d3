import LiveProgress.Display.Run
import LiveProgress.Output.Recorder
import LiveProgress.Proofs.Message.Decoder

/-!
# Cutting the input

How an input is cut into chunks is not seen in what is shown. A decoder carries over a cut
what it needs, and the display of a chunk's values goes on where that of the chunk before it
stopped, so feeding chunks comes to showing the values of the whole input.
-/

namespace LiveProgress

/-! ### Showing values -/

namespace Display

variable {σ : Type} [Destination σ]

theorem showValues_append (d : Display σ) (caps : Option CapabilitySet) (v : Viewport)
    (a b : List Json.RawValue) :
    d.showValues caps v (a ++ b) =
      match d.showValues caps v a with
      | (some f, d) => (some f, d)
      | (none, d) => d.showValues caps v b := by
  induction a generalizing d with
  | nil => rfl
  | cons raw a ih =>
    simp only [List.cons_append, showValues]
    split
    · rfl
    · split
      · rfl
      · exact ih _

/-- Feeding chunks shows the values of the input, and then tells how it ends. -/
theorem feed_eq_showValues (d : Display σ) (caps : Option CapabilitySet) (v : Viewport)
    (decoder : Decoder) (chunks : List Chunk) :
    d.feed caps v decoder chunks =
      ((d.showValues caps v (decoder.values chunks).1).1.or (decoder.values chunks).2,
        (d.showValues caps v (decoder.values chunks).1).2) := by
  induction chunks generalizing d decoder with
  | nil => rfl
  | cons c chunks ih =>
    simp only [feed, Decoder.values]
    cases decoder.push c with
    | error f => rfl
    | ok pushed =>
      obtain ⟨values, decoder⟩ := pushed
      dsimp only
      rw [showValues_append]
      rcases d.showValues caps v values with ⟨_ | f, d⟩
      · exact ih d decoder
      · rfl

/-- Showing values shows the messages they hold. -/
theorem showValues_eq_run (d : Display σ) (caps : Option CapabilitySet) (v : Viewport)
    (ending : Option Failure) (values : List Json.RawValue) :
    ((d.showValues caps v values).1.or ending, (d.showValues caps v values).2) =
      ((d.run caps v (Message.ofValues ending values).1).1.or (Message.ofValues ending values).2,
        (d.run caps v (Message.ofValues ending values).1).2) := by
  induction values generalizing d with
  | nil => rfl
  | cons raw values ih =>
    simp only [showValues, Message.ofValues]
    cases raw.message with
    | error f => rfl
    | ok m =>
      simp only [run]
      rcases d.advance caps v m with ⟨_ | f, d⟩
      · exact ih d
      · rfl

/-- Feeding chunks shows the messages of the input, and then tells how it ends. -/
theorem feed_eq_run (d : Display σ) (caps : Option CapabilitySet) (v : Viewport)
    (chunks : List Chunk) :
    d.feed caps v {} chunks =
      ((d.run caps v (Message.ofChunks chunks).1).1.or (Message.ofChunks chunks).2,
        (d.run caps v (Message.ofChunks chunks).1).2) := by
  rw [feed_eq_showValues, showValues_eq_run]
  rfl

theorem feed_congr (d : Display σ) (caps : Option CapabilitySet) (v : Viewport) {e : Decoder}
    {a b : List Chunk} (h : e.values a = e.values b) : d.feed caps v e a = d.feed caps v e b := by
  rw [feed_eq_showValues, feed_eq_showValues, h]

end Display

theorem Shown.ofChunks_congr {σ : Type} [Destination σ] (o : DisplayOptions) (read : FileReader)
    (out : σ) {a b : List Chunk} (h : ({} : Decoder).values a = ({} : Decoder).values b) :
    Shown.ofChunks o read a out = Shown.ofChunks o read b out := by
  simp only [Shown.ofChunks, Display.feed_congr _ _ _ h]

/-- What is shown of an input does not depend on how its text or its bytes are cut, nor on
which of the two it comes in if the text does not begin with a byte order mark; also if the
input fails behind them. -/
theorem shown_of_any_cutting {σ : Type} [Destination σ] (o : DisplayOptions) (read : FileReader)
    (out : σ) (failure : Option String) :
    let shown (chunks : List Chunk) :=
      Shown.ofChunks o read (chunks ++ (failure.map Chunk.broken).toList) out
    (∀ a b : List Text, a.flatten = b.flatten → shown (a.map .text) = shown (b.map .text)) ∧
    (∀ a b : List (List UInt8), a.flatten = b.flatten →
      shown (a.map .bytes) = shown (b.map .bytes)) ∧
    (∀ (s : String) (a : List Text) (b : List (List UInt8)), s.toList.head? ≠ some '\uFEFF' →
      a.flatten = Text.ofString s → b.flatten = s.toUTF8.data.toList →
      shown (a.map .text) = shown (b.map .bytes)) := by
  refine ⟨?_, ?_, ?_⟩
  · intro a b h
    apply Shown.ofChunks_congr
    rw [Decoder.values_texts, Decoder.values_texts, h]
  · intro a b h
    apply Shown.ofChunks_congr
    rw [Decoder.values_bytes, Decoder.values_bytes, h]
  · intro s a b hs ha hb
    apply Shown.ofChunks_congr
    rw [Decoder.values_texts, Decoder.values_bytes, ha, hb, Utf8.toUTF8_eq_encode,
      Decoder.values_encoded hs]
    rfl

/-- A text cut inside a surrogate pair, and its bytes cut inside the sequence of the same
character, while the input then fails. -/
theorem shown_of_cut_character :
    let s := "\x7b\"stream\":\"😀\"\x7d"
    let units := Text.ofString s
    let bytes := s.toUTF8.data.toList
    let shown (chunks : List Chunk) :=
      Shown.ofChunks {} (FileTree.ofList []).read
        (chunks ++ ((some "lost").map Chunk.broken).toList) ({} : Recorder)
    [units].flatten = [units.take 12, [], units.drop 12].flatten ∧
    [bytes].flatten = [bytes.take 13, bytes.drop 13].flatten ∧
    s.toList.head? ≠ some '\uFEFF' ∧
    shown ([units].map .text) = shown ([units.take 12, [], units.drop 12].map .text) ∧
    shown ([bytes].map .bytes) = shown ([bytes.take 13, bytes.drop 13].map .bytes) ∧
    shown ([units.take 12, [], units.drop 12].map .text) =
      shown ([bytes.take 13, bytes.drop 13].map .bytes) := by
  intro s units bytes shown
  have hunits : [units].flatten = [units.take 12, [], units.drop 12].flatten := by
    simp only [List.flatten_cons, List.flatten_nil, List.append_nil, List.nil_append,
      List.take_append_drop]
  have hbytes : [bytes].flatten = [bytes.take 13, bytes.drop 13].flatten := by
    simp only [List.flatten_cons, List.flatten_nil, List.append_nil, List.take_append_drop]
  have hstart : s.toList.head? ≠ some '\uFEFF' := by decide
  obtain ⟨htexts, hbyteses, hboth⟩ :=
    shown_of_any_cutting {} (FileTree.ofList []).read ({} : Recorder) (some "lost")
  refine ⟨hunits, hbytes, hstart, htexts _ _ hunits, hbyteses _ _ hbytes, hboth s _ _ hstart ?_ ?_⟩
  · rw [← hunits]
    exact List.append_nil _
  · rw [← hbytes]
    exact List.append_nil _

end LiveProgress
