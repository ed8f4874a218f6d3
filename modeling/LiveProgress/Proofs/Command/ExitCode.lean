import LiveProgress.Command.Late
import LiveProgress.Proofs.Display.Handled
import LiveProgress.Proofs.Display.Lookup
import LiveProgress.Proofs.Message.Input
import LiveProgress.Proofs.Output.Reporting
import LiveProgress.Proofs.Terminfo.Access

/-!
# The exit code

A run ends without a failure exactly if its input can be read, is a sequence of messages that
report no error, and no write fails, whenever the reports on the writes come. Any other run is
told by one log line, and what it has handed on are the payloads of the messages it has handled.
-/

namespace LiveProgress

/-! ### Displays -/

namespace Shown

variable (o : DisplayOptions) (read : FileReader) (chunks : List Chunk)

/-- The end of the output comes after the last message and the end of the input, and waits for the
last report. -/
theorem onLateDevice_of_run {o : DisplayOptions} {read : FileReader} {chunks : List Chunk}
    {device : Device} {due : Nat → Nat → Bool} {failure : Option Failure} {d : Display LateSink}
    (hrun : ({ out := { sink := { device }, due } } : Display LateSink).run (o.resolve read).1
      o.viewport (Message.ofChunks chunks).1 = (failure, d))
    (hinformed : d.out.sink.Informed device d.out.owed) :
    ∃ out : LateSink, onLateDevice o read chunks device due =
        { failure := (failure.or (Message.ofChunks chunks).2).or
            (out.sink.sink.failure.map .transfer)
          out
          handedOn := d.handedOn
          grid := d.grid
          prelude := (o.resolve read).2
          postlude :=
            if (failure.or (Message.ofChunks chunks).2).isSome then [] else [d.grid.summary] } ∧
      out.sink.Informed device [] ∧ out.sink.attempts = d.out.sink.attempts := by
  obtain ⟨out, hfinish, hout, hattempts, _⟩ :=
    LateSink.finish_of_informed hinformed (failure.or (Message.ofChunks chunks).2)
  refine ⟨out, ?_, hout, hattempts⟩
  simp only [onLateDevice, finished, ofChunks, ofDisplay, Display.feed_eq_run, hrun, hfinish]

/-- On a device whose reports come at once a display ends as on one that reports before its writes
return. -/
theorem onLateDevice_prompt (device : Device) :
    (onLateDevice o read chunks device fun _ _ => true).map (·.sink) =
      onDevice o read chunks device := by
  have halike := alike_ofChunks LateSink.alike_prompt o read chunks
    (a := { sink := { device }, due := fun _ _ => true }) (b := { device }) ⟨0, rfl⟩
  simp only [onLateDevice, onDevice]
  generalize ofChunks o read chunks
    ({ sink := { device }, due := fun _ _ => true } : LateSink) = s at halike ⊢
  generalize ofChunks o read chunks ({ device } : DeviceSink) = s' at halike ⊢
  obtain ⟨calls, hsink⟩ := halike.out
  simp only [finished, map, hsink, halike.failure, halike.handedOn, halike.grid, halike.prelude,
    halike.postlude]
  rfl

/-- Nothing is logged beside a display but on the debug level. -/
theorem level_onLateDevice (device : Device) (due : Nat → Nat → Bool) :
    ∀ line ∈ (onLateDevice o read chunks device due).log, line.level = .debug := by
  intro line hline
  rcases List.mem_append.mp hline with hprelude | hpostlude
  · simp only [onLateDevice, finished, ofChunks, ofDisplay, DisplayOptions.resolve] at hprelude
    split at hprelude
    · split at hprelude
      · cases hprelude
      · obtain rfl := List.mem_singleton.mp hprelude
        exact Terminfo.level_resolve_snd read o.env o.term o.searchDirs
    · cases hprelude
  · simp only [onLateDevice, finished, ofChunks, ofDisplay] at hpostlude
    split_ifs at hpostlude
    · cases hpostlude
    · obtain rfl := List.mem_singleton.mp hpostlude
      rfl

end Shown

/-! ### What is told -/

namespace RunResult

/-- Payloads are told, and else nothing but what is logged on the debug level. -/
structure Tells (o : Options) (payloads : List Json) (r : RunResult) (before after : List LogLine) :
    Prop where
  told : r.told = before.map .log ++ payloads.map o.payloadNotice ++ after.map .log
  levels : ∀ line ∈ before ++ after, line.level = .debug

variable {o : Options} {payloads : List Json} {r : RunResult} {before after : List LogLine}

theorem Tells.level_of_mem (h : r.Tells o payloads before after) {line : LogLine}
    (hline : .log line ∈ r.told) : line.level = .debug := by
  rw [h.told, List.mem_append, List.mem_append] at hline
  rcases hline with (hbefore | hpayload) | hafter
  · obtain ⟨line', hmem, ⟨⟩⟩ := List.mem_map.mp hbefore
    exact h.levels line (List.mem_append_left after hmem)
  · obtain ⟨payload, _, hnotice⟩ := List.mem_map.mp hpayload
    unfold Options.payloadNotice at hnotice
    split at hnotice <;> cases hnotice
    rfl
  · obtain ⟨line', hmem, ⟨⟩⟩ := List.mem_map.mp hafter
    exact h.levels line (List.mem_append_right before hmem)

/-- A failure is told by one line, and nothing else is. -/
theorem errorLines_of_tells (h : r.Tells o payloads before after) :
    r.errorLines = (r.failure.map fun f => ⟨.error, f.message⟩).toList := by
  unfold errorLines logLines notices
  rw [List.filterMap_append, List.filter_append]
  refine (congrArg (· ++ _) (List.filter_eq_nil_iff.mpr ?_)).trans ?_
  · intro line hline
    obtain ⟨notice, hmem, hnotice⟩ := List.mem_filterMap.mp hline
    cases notice with
    | aux text => cases hnotice
    | log line' =>
      cases hnotice
      simp [h.level_of_mem hmem]
  · cases r.failure with
    | none => rfl
    | some f => cases hreport : f.report? <;> simp [Options.failureLog, hreport]

theorem exitCode_eq_zero_iff : r.exitCode = some 0 ↔ r.died = false ∧ r.failure = none := by
  unfold exitCode
  cases r.died <;> cases r.failure <;> simp

theorem exitCode_eq_none_iff : r.exitCode = none ↔ r.died = true := by
  unfold exitCode
  split
  case isTrue hdied => exact iff_of_true rfl hdied
  case isFalse halive => exact iff_of_false (Option.some_ne_none _) halive

theorem outcome_of_tells (h : r.Tells o payloads before after) (halive : r.died = false) :
    r.exitCode = some 0 ∧ r.failure = none ∧ r.errorLines = [] ∨
      ∃ f, r.exitCode = some 1 ∧ r.failure = some f ∧ r.errorLines = [⟨.error, f.message⟩] := by
  have hlines := errorLines_of_tells h
  cases hfailure : r.failure with
  | none =>
    rw [hfailure] at hlines
    exact .inl ⟨exitCode_eq_zero_iff.mpr ⟨halive, hfailure⟩, rfl, hlines⟩
  | some f =>
    rw [hfailure] at hlines
    have hcode : r.exitCode = some 1 := by
      rw [exitCode, hfailure, halive]
      rfl
    exact .inr ⟨f, hcode, rfl, hlines⟩

/-- What is handed on are the texts of the payloads, if the options ask for them. -/
theorem auxTexts_of_tells (h : r.Tells o payloads before after) :
    r.auxTexts = (if o.aux then payloads else []).map (·.text ++ "\n") := by
  unfold auxTexts notices
  rw [h.told]
  cases haux : o.aux <;> simp [Options.payloadNotice, haux, List.filterMap_map,
    Function.comp_def]

end RunResult

/-! ### Runs -/

/-- What messages ask for behind messages that report no error. -/
theorem Grid.asked_append (g : Grid) {a : List Message} (h : ∀ m ∈ a, m.ownFailure = none)
    (b : List Message) : g.asked (a ++ b) = g.asked a ++ (g.after a).asked b := by
  induction a generalizing g with
  | nil => rfl
  | cons m a ih =>
    obtain ⟨hm, ha⟩ := List.forall_mem_cons.mp h
    have hrest : (g.next m).asked (a ++ b) = (g.next m).asked a ++ (g.after (m :: a)).asked b :=
      ih (g.next m) ha
    simp only [List.cons_append, asked, hm, Option.isSome_none, Bool.false_eq_true, if_false, hrest,
      List.append_assoc]

namespace Options

/-- What a run comes to that has handled some of the messages of its input and left the rest. -/
structure Account (o : Options) (caps : Option CapabilitySet) (device : Device)
    (input : List Message × Option Failure) (handled rest : List Message) (r : RunResult) :
    Prop where
  alive : r.died = false
  split : input.1 = handled ++ rest
  clean : ∀ m ∈ handled, m.ownFailure = none
  granted : ∀ set ∈ caps, set.Grants (({} : Grid).asked handled)
  passed : r.failure = none → rest = [] ∧ input.2 = none ∧ device.Spares 0 r.out.attempts
  failed : ∀ f, r.failure = some f →
    (∃ m, rest.head? = some m ∧ (m.ownFailure = some f ∨
      f = .oversized ∧ ∃ set ∈ caps, ¬ set.Grants ((({} : Grid).after handled).lookups m))) ∨
    rest = [] ∧ input.2 = some f ∨ device.Explains r.out.attempts f
  quiet : r.out.sink.pending = 0 ∧ r.out.sink.draining = [] ∧ r.out.sink.flushing = []
  tells : ∃ before after, r.Tells o (handled.filterMap (·.aux)) before after

variable (o : Options) (s : Surroundings) (due : Nat → Nat → Bool)

/-- The capabilities of a run are looked up, so nothing is refused but what is too long. -/
theorem oversized_of_refuses {set : CapabilitySet} (hset : set ∈ o.capabilities s)
    {asked : List (String × List Number)} {f : Failure} (h : set.Refuses asked f) :
    f = .oversized := by
  unfold capabilities DisplayOptions.resolve at hset
  split at hset
  · obtain rfl := Option.some.inj hset
    exact CapabilitySet.oversized_of_refuses h
  · cases hset

/-- A path that no file can have ends the run before anything is displayed. -/
theorem account_of_refused {f : Failure} (hinput : o.input s = .refused f) :
    o.Account (o.capabilities s) s.device (o.decoded s) (o.handled s due) [] (o.runLate s due) := by
  simp only [decoded, handled, runLate, runWith, hinput]
  constructor
  case alive => rfl
  case split => rfl
  case clean => exact fun m hm => absurd hm List.not_mem_nil
  case granted => exact fun _ _ => CapabilitySet.grants_nil
  case passed => exact fun hnone => absurd hnone (Option.some_ne_none f)
  case failed => exact fun f' hf => .inr (.inl ⟨rfl, hf⟩)
  case quiet => exact ⟨rfl, rfl, rfl⟩
  case tells =>
    refine ⟨[o.greeting s.isTerminal], [], rfl, ?_⟩
    exact List.forall_mem_singleton.mpr rfl

/-- The failure of a run is that of the display, else that of the input, else that of the last
writes. -/
theorem account_of_chunks {chunks : List Chunk} (hinput : o.input s = .chunks chunks) :
    ∃ rest, o.Account (o.capabilities s) s.device (o.decoded s) (o.handled s due) rest
      (o.runLate s due) := by
  obtain ⟨rest, hsplit, haccount⟩ := Display.run_handled
    (d := { out := { sink := { device := s.device }, due } })
    (o.capabilities s) (o.display s).viewport
    (LateSink.honest s.device) (DeviceSink.informed_start s.device) (Message.ofChunks chunks).1
  generalize hrun : Display.run (_ : Display LateSink) _ _ _ = r at haccount
  obtain ⟨failure, d⟩ := r
  obtain ⟨out, hshown, hout, hattempts⟩ := Shown.onLateDevice_of_run hrun haccount.inv
  have hlevels := Shown.level_onLateDevice (o.display s) s.read chunks s.device due
  rw [hshown] at hlevels
  refine ⟨rest, ?_⟩
  simp only [decoded, handled, runLate, runWith, hinput, hshown, Shown.map]
  constructor
  case alive => rfl
  case split => exact hsplit
  case clean => exact haccount.clean
  case granted => exact haccount.granted
  case passed =>
    intro hnone
    obtain ⟨hbefore, hlast⟩ := Option.or_eq_none_iff.mp hnone
    obtain ⟨hfailure, hending⟩ := Option.or_eq_none_iff.mp hbefore
    exact ⟨haccount.passed hfailure, hending, hout.spares (Option.map_eq_none_iff.mp hlast)⟩
  case failed =>
    intro f hf
    rcases Option.or_eq_some_iff.mp hf with hbefore | ⟨-, hlast⟩
    · rcases Option.or_eq_some_iff.mp hbefore with hfailure | ⟨hfailure, hending⟩
      · rw [hattempts]
        rcases haccount.failed f hfailure with hnext | hexplains
        · obtain ⟨m, hm, hscript⟩ := Option.bind_eq_some_iff.mp hnext
          refine .inl ⟨m, hm, ?_⟩
          rcases Grid.failure_script_cases _ hscript with hown | ⟨set, hset, hrefused⟩
          · exact .inl hown
          · exact .inr ⟨o.oversized_of_refuses s hset hrefused, set, hset, hrefused.not_grants⟩
        · exact .inr (.inr hexplains)
      · exact .inr (.inl ⟨haccount.passed hfailure, hending⟩)
    · obtain ⟨error, hfailure, rfl⟩ := Option.map_eq_some_iff.mp hlast
      exact .inr (.inr (hout.failed error hfailure))
  case quiet => exact ⟨hout.pending, hout.draining, hout.flushing rfl⟩
  case tells =>
    have hhanded : d.handedOn = _ := haccount.handedOn
    refine ⟨o.greeting s.isTerminal :: _, _, ?_, List.forall_mem_cons.mpr ⟨rfl, hlevels⟩⟩
    have hpayload (m : Message) : (if m.aux.isSome then m.aux else none) = m.aux := by
      cases m.aux <;> rfl
    rw [hhanded, List.nil_append, List.filterMap_filter,
      List.filterMap_congr fun m _ => hpayload m]
    rfl

theorem runLate_account (hheard : o.input s ≠ .unheard) :
    ∃ rest, o.Account (o.capabilities s) s.device (o.decoded s) (o.handled s due) rest
      (o.runLate s due) := by
  cases hinput : o.input s with
  | chunks chunks => exact o.account_of_chunks s due hinput
  | refused f => exact ⟨[], o.account_of_refused s due hinput⟩
  | unheard => exact absurd hinput hheard

/-- An input that nobody hears fail ends the run behind its greeting. -/
theorem runLate_of_unheard (h : o.input s = .unheard) :
    o.runLate s due =
      { out := { device := s.device }
        told := [.log (o.greeting s.isTerminal)]
        died := true } := by
  simp only [runLate, runWith, h]
  rfl

/-- It is one that cannot be opened, if that takes less time than the look-up of the terminal. -/
theorem input_eq_unheard_iff :
    o.input s = .unheard ↔ ∃ path e, o.file = some path ∧ path ≠ "" ∧ s.read path = .error e ∧
      e ≠ .malformedPath ∧ e ≠ .isDirectory ∧ s.openingWaits < o.waits s := by
  unfold input
  constructor
  · intro h
    split at h
    case h_1 => cases h
    case h_2 path hpath =>
      obtain ⟨hfile, hname⟩ := Option.filter_eq_some_iff.mp hpath
      refine ⟨path, ?_⟩
      split at h
      case h_1 => cases h
      case h_2 => cases h
      case h_3 => cases h
      case h_4 e hmalformed hdirectory hread =>
        split at h
        case isTrue hearly =>
          exact ⟨e, hfile, by simpa using hname, hread, hmalformed, hdirectory, hearly⟩
        case isFalse => cases h
  · rintro ⟨path, e, hfile, hname, hread, hmalformed, hdirectory, hearly⟩
    have hpath : o.file.filter (! ·.isEmpty) = some path :=
      Option.filter_eq_some_iff.mpr ⟨hfile, by simpa using hname⟩
    simp only [hpath, hread]
    cases e with
    | malformedPath => exact absurd rfl hmalformed
    | isDirectory => exact absurd rfl hdirectory
    | _ => exact if_pos hearly

variable {o s} in
theorem decoded_eq_none_iff {messages : List Message} (hheard : o.input s ≠ .unheard) :
    o.decoded s = (messages, none) ↔
      ∃ text, o.text? s = some text ∧ MessageSequence text messages [] := by
  unfold decoded text?
  cases hinput : o.input s with
  | chunks chunks => exact Message.ofChunks_eq_none_iff
  | refused f =>
    constructor
    · exact fun h => absurd (congrArg Prod.snd h) (Option.some_ne_none f)
    · rintro ⟨text, h, _⟩
      cases h
  | unheard => exact absurd hinput hheard

/-- An input is read to its end without a failure, and its messages are shown without one, if they
report no error and nothing that they ask for is refused. -/
theorem decoded_clean_iff (hheard : o.input s ≠ .unheard) :
    ((o.decoded s).2 = none ∧ (∀ m ∈ (o.decoded s).1, m.ownFailure = none) ∧
        ∀ set ∈ o.capabilities s, set.Grants (({} : Grid).asked (o.decoded s).1)) ↔
      ∃ text messages, o.text? s = some text ∧ MessageSequence text messages [] ∧
        (∀ m ∈ messages, m.aux = none → m.errorDetail = none ∧ m.error.getD [] = []) ∧
        ∀ set ∈ o.capabilities s, set.Grants (({} : Grid).asked messages) := by
  constructor
  · rintro ⟨hending, hclean, hgranted⟩
    obtain ⟨text, htext, hsequence⟩ :=
      (decoded_eq_none_iff hheard).mp (Prod.ext (Eq.refl (o.decoded s).1) hending)
    refine ⟨text, _, htext, hsequence, ?_, hgranted⟩
    exact fun m hm => Message.ownFailure_eq_none_iff.mp (hclean m hm)
  · rintro ⟨text, messages, htext, hsequence, hclean, hgranted⟩
    rw [(decoded_eq_none_iff hheard).mpr ⟨text, htext, hsequence⟩]
    exact ⟨rfl, fun m hm => Message.ownFailure_eq_none_iff.mpr (hclean m hm), hgranted⟩

variable {o} in
/-- A run goes well if its messages report no error, its input none either, nothing is refused and
no write fails. -/
theorem Account.failure_eq_none_iff {caps : Option CapabilitySet} {device : Device}
    {input : List Message × Option Failure} {handled rest : List Message} {r : RunResult}
    (h : o.Account caps device input handled rest r) :
    r.failure = none ↔ (input.2 = none ∧ (∀ m ∈ input.1, m.ownFailure = none) ∧
      ∀ set ∈ caps, set.Grants (({} : Grid).asked input.1)) ∧ device.Spares 0 r.out.attempts := by
  constructor
  · intro hnone
    obtain ⟨rfl, hending, hspares⟩ := h.passed hnone
    have hsplit := h.split
    rw [List.append_nil] at hsplit
    rw [hsplit]
    exact ⟨⟨hending, h.clean, h.granted⟩, hspares⟩
  · rintro ⟨⟨hending, hclean, hgranted⟩, hspares⟩
    cases hfailure : r.failure with
    | none => rfl
    | some f =>
      rcases h.failed f hfailure with ⟨m, hm, hnext⟩ | ⟨_, hlast⟩ | hexplains
      · obtain ⟨later, rfl⟩ := List.head?_eq_some_iff.mp hm
        rw [h.split] at hclean hgranted
        rcases hnext with hown | ⟨-, set, hset, hrefused⟩
        · rw [hclean m (by simp)] at hown
          cases hown
        · have hasked := hgranted set hset
          rw [Grid.asked_append _ h.clean, Grid.asked] at hasked
          have hbehind := (CapabilitySet.grants_append.mp hasked).2
          exact absurd (CapabilitySet.grants_append.mp hbehind).1 hrefused
      · rw [hending] at hlast
        cases hlast
      · exact absurd hexplains hspares.not_explains

theorem runLate_prompt : o.runLate s (fun _ _ => true) = o.run s := by
  simp only [runLate, run, runWith, Shown.onLateDevice_prompt]

end Options

/-- A run has no exit code exactly if its input is a file that cannot be opened and this shows while
the description of the terminal is still looked up: then it ends behind its greeting, with no line
on the error level. Otherwise, whenever the reports on the writes come, the exit code is 0 exactly
if all of the input can be read, its text is a sequence of messages, none of these reports an error,
no text that is asked for is too long, and no write fails. Every other run ends with the error of
the next message, with the failure of a look-up that it makes, with the error of the end of the
input or with that of a write, and this is told by the one line on the error level. What is handed
on are the payloads of the messages in front of it, and nothing is left to wait for. A run takes it
for granted that the reports come at once. -/
theorem failure_reaches_exit_code_iff_heard (o : Options) (s : Surroundings)
    (due : Nat → Nat → Bool) :
    let r := o.runLate s due
    let handled := o.handled s due
    let caps := o.capabilities s
    (r.exitCode = none ↔ ∃ path e, o.file = some path ∧ path ≠ "" ∧ s.read path = .error e ∧
      e ≠ .malformedPath ∧ e ≠ .isDirectory ∧ s.openingWaits < o.waits s) ∧
    (r.exitCode = none → r.told = [.log (o.greeting s.isTerminal)] ∧ r.errorLines = [] ∧
      r.out.written = []) ∧
    (r.exitCode = some 0 ↔
      (∃ text messages, o.text? s = some text ∧ MessageSequence text messages [] ∧
        (∀ m ∈ messages, m.aux = none → m.errorDetail = none ∧ m.error.getD [] = []) ∧
        ∀ set ∈ caps, set.Grants (({} : Grid).asked messages)) ∧
      s.device.Spares 0 r.out.attempts) ∧
    (r.exitCode = none ∨ r.exitCode = some 0 ∧ r.failure = none ∧ r.errorLines = [] ∨
      ∃ f, r.exitCode = some 1 ∧ r.failure = some f ∧ r.errorLines = [⟨.error, f.message⟩]) ∧
    (∃ rest, (o.decoded s).1 = handled ++ rest ∧ (r.exitCode = some 0 → rest = []) ∧
      ∀ f, r.failure = some f →
        (∃ m, rest.head? = some m ∧ (m.ownFailure = some f ∨
          f = .oversized ∧ ∃ set ∈ caps, ¬ set.Grants ((({} : Grid).after handled).lookups m))) ∨
        rest = [] ∧ (o.decoded s).2 = some f ∨ s.device.Explains r.out.attempts f) ∧
    r.auxTexts = (if o.aux then handled.filterMap (·.aux) else []).map (·.text ++ "\n") ∧
    (r.out.sink.pending = 0 ∧ r.out.sink.draining = [] ∧ r.out.sink.flushing = []) ∧
    o.run s = o.runLate s fun _ _ => true := by
  intro r handled caps
  by_cases hheard : o.input s = .unheard
  · have hr : r = _ := o.runLate_of_unheard s due hheard
    have hhandled : handled = [] := by simp only [handled, Options.handled, hheard]
    have hmessages : (o.decoded s).1 = [] := by simp only [Options.decoded, hheard]
    have htext : o.text? s = none := by simp only [Options.text?, hheard]
    rw [hr, hhandled, hmessages, htext, ← o.input_eq_unheard_iff]
    refine ⟨iff_of_true rfl hheard, fun _ => ⟨rfl, rfl, rfl⟩, ?_, .inl rfl, ⟨[], rfl, ?_, ?_⟩, ?_,
      ⟨rfl, rfl, rfl⟩, (o.runLate_prompt s).symm⟩
    · refine iff_of_false (Option.some_ne_none 0).symm ?_
      rintro ⟨⟨text, _, hnone, _⟩, _⟩
      cases hnone
    · exact fun _ => rfl
    · exact fun f hf => absurd hf (Option.some_ne_none f).symm
    · rw [List.filterMap_nil, ite_self]
      rfl
  · obtain ⟨rest, haccount⟩ := o.runLate_account s due hheard
    obtain ⟨before, after, htells⟩ := haccount.tells
    have hcode : r.exitCode ≠ none := by
      rw [ne_eq, RunResult.exitCode_eq_none_iff, haccount.alive]
      exact Bool.false_ne_true
    refine ⟨?_, fun hnone => absurd hnone hcode, ?_,
      .inr (RunResult.outcome_of_tells htells haccount.alive), ?_,
      RunResult.auxTexts_of_tells htells, haccount.quiet, (o.runLate_prompt s).symm⟩
    · rw [← o.input_eq_unheard_iff]
      exact iff_of_false hcode hheard
    · rw [RunResult.exitCode_eq_zero_iff, and_iff_right haccount.alive,
        haccount.failure_eq_none_iff, o.decoded_clean_iff s hheard]
    · refine ⟨rest, haccount.split, fun hzero => ?_, haccount.failed⟩
      exact (haccount.passed (RunResult.exitCode_eq_zero_iff.mp hzero).2).1

namespace Terminfo

theorem searchDirs_db : searchDirs [("TERMINFO", "db")] = "db" :: systemDirs := by decide +kernel

end Terminfo

/-- A file that does not exist leaves the run without an exit code, and an entry of a terminal that
moves the cursor by too wide a number ends one whose input is clean on a device that takes every
write. -/
theorem exit_code_misses_failures_of_surroundings :
    let s : Surroundings :=
      { read := Terminfo.overwideFiles.read
        env := [("TERMINFO", "db")]
        stdin := [.text (Text.ofString "\x7b\"id\":\"a\",\"progress\":\"x\"\x7d")]
        isTerminal := true }
    let missing : Options := { file := some "gone", term := some "wide" }
    let o : Options := { term := some "wide" }
    (s.read "gone" = .error .missing ∧ (missing.run s).exitCode = none ∧
      (missing.run s).errorLines = []) ∧
    (o.decoded s).2 = none ∧ (∀ m ∈ (o.decoded s).1, m.ownFailure = none) ∧
      s.device.failing = [] ∧ (o.run s).exitCode = some 1 := by
  intro s missing o
  have hterminfo : Terminfo.searchDirs s.env = "db" :: Terminfo.systemDirs := Terminfo.searchDirs_db
  have hgone : s.read "gone" = .error .missing := by
    have hpath : Path.LeadsThrough "gone" ["gone"] := ⟨by decide, by decide, by decide⟩
    exact (Terminfo.overwideFiles.read_of_leadsThrough hpath (by simp) (by decide)).trans rfl
  have hwaits : missing.waits s = 1 := by
    show Terminfo.waits s.read "wide" (Terminfo.searchDirs s.env) = 1
    rw [hterminfo]
    exact Terminfo.waits_overwide _
  have hunheard : missing.input s = .unheard :=
    (missing.input_eq_unheard_iff s).mpr
      ⟨"gone", .missing, rfl, by decide, hgone, nofun, nofun, hwaits ▸ Nat.one_pos⟩
  have hcaps : o.capabilities s = some (.ofEntry (.overwide 114 'A')) := by
    have hentry : (Terminfo.resolve s.read s.env (some "wide") none).1 =
        some (.overwide 114 'A') := Terminfo.resolve_overwide rfl hterminfo
    have hresolve := DisplayOptions.resolve_of_lookup (o := o.display s) s.read rfl rfl
    rw [Options.capabilities, hresolve]
    exact congrArg (fun entry => some (CapabilitySet.ofLookup entry)) hentry
  refine ⟨⟨hgone, ?_, ?_⟩, by decide +kernel, by decide +kernel, rfl, ?_⟩
  · rw [← missing.runLate_prompt s, missing.runLate_of_unheard s _ hunheard]
    rfl
  · rw [← missing.runLate_prompt s, missing.runLate_of_unheard s _ hunheard]
    rfl
  · obtain ⟨rest, haccount⟩ := o.runLate_account s (fun _ _ => true) nofun
    obtain ⟨before, after, htells⟩ := haccount.tells
    have hrefused : ¬ (CapabilitySet.ofEntry (.overwide 114 'A')).Grants
        (({} : Grid).asked (o.decoded s).1) := by decide +kernel
    rw [← o.runLate_prompt s]
    rcases RunResult.outcome_of_tells htells haccount.alive with ⟨-, hnone, -⟩ | ⟨f, hcode, -⟩
    · obtain ⟨⟨-, -, hgranted⟩, -⟩ := haccount.failure_eq_none_iff.mp hnone
      exact absurd (hgranted _ hcaps) hrefused
    · exact hcode

end LiveProgress
