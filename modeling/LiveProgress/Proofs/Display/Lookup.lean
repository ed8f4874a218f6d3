import LiveProgress.Proofs.Display.Course
import LiveProgress.Proofs.Display.Simulation
import LiveProgress.Proofs.Terminfo.Access
import LiveProgress.Proofs.Terminfo.Encoding
import LiveProgress.Proofs.Files.Path

/-!
# Displays that look up their capabilities

Where a set grants what is asked for, a message makes the same number of writes as with any other
set that does. So a destination on which it does not depend on their texts whether writes fail
cannot tell two such sets apart, and a display that looks up its capabilities ends as one that is
given the empty set. Where something is refused, the display fails because of it.
-/

namespace LiveProgress

/-! ### Destinations that do not look at texts -/

/-- Whether a write fails does not depend on its text. -/
structure Destination.Indifferent {σ : Type} [Destination σ] (R : σ → σ → Prop) : Prop where
  write : ∀ {a b}, R a b → ∀ text other,
    AnswersAlike R (Destination.write a text) (Destination.write b other)
  ready : ∀ {a b}, R a b → AnswersAlike R (Destination.ready a) (Destination.ready b)

/-- A destination to which nothing but empty texts is written. -/
structure Blank (σ : Type) where
  out : σ

namespace Blank

variable {σ : Type} [Destination σ]

instance : Destination (Blank σ) where
  write e _ := let (failure, out) := Destination.write e.out ""; (failure, ⟨out⟩)
  ready e := let (failure, out) := Destination.ready e.out; (failure, ⟨out⟩)

theorem alike {R : σ → σ → Prop} (h : Destination.Indifferent R) :
    Destination.Alike fun (a : σ) (e : Blank σ) => R a e.out := by
  constructor
  · intro a e hae text
    have hwrite := h.write hae text ""
    simp only [Destination.write]
    generalize Destination.write a text = x at hwrite ⊢
    generalize Destination.write e.out "" = y at hwrite ⊢
    obtain ⟨failure, hout⟩ := hwrite
    exact .intro failure hout
  · intro a e hae
    have hready := h.ready hae
    simp only [Destination.ready]
    generalize Destination.ready a = x at hready ⊢
    generalize Destination.ready e.out = y at hready ⊢
    obtain ⟨failure, hout⟩ := hready
    exact .intro failure hout

theorem writeAll_congr {texts others : List String} (h : texts.length = others.length)
    (e : Blank σ) : Destination.writeAll e texts = Destination.writeAll e others := by
  induction texts generalizing others e with
  | nil => rw [List.length_eq_zero_iff.mp h.symm]
  | cons text texts ih =>
    obtain ⟨other, others, rfl⟩ := List.exists_cons_of_length_eq_add_one h.symm
    have hrest := ih (Nat.succ.inj h)
    simp only [Destination.writeAll, Destination.write, hrest]

end Blank

/-- Attempts with the same number of writes and the same failure. -/
structure Attempt.SameShape (a b : Attempt) : Prop where
  length : a.texts.length = b.texts.length
  failure : a.failure = b.failure

namespace Attempt

variable {a b c d : Attempt}

theorem SameShape.andThen (h : a.SameShape b) (h' : c.SameShape d) :
    (a.andThen c).SameShape (b.andThen d) := by
  cases hfailure : a.failure with
  | some f =>
    rw [andThen_of_failure hfailure, andThen_of_failure (h.failure ▸ hfailure)]
    exact h
  | none =>
    rw [andThen_of_healthy hfailure, andThen_of_healthy (h.failure ▸ hfailure)]
    exact ⟨by simp only [List.length_append, h.length, h'.length], h'.failure⟩

theorem SameShape.run_blank {σ : Type} [Destination σ] (h : a.SameShape b) (e : Blank σ) :
    a.run e = b.run e := by
  simp only [run, Blank.writeAll_congr h.length, h.failure]

theorem failure_of_run {σ : Type} [Destination σ] {out : σ} (h : (a.run out).1 = none) :
    a.failure = none :=
  (Option.or_eq_none_iff.mp h).2

end Attempt

/-- Scripts with the same shape in each part. -/
structure Script.SameShape (s t : Script) : Prop where
  opening : s.opening.SameShape t.opening
  line : s.line.SameShape t.line
  closing : s.closing.SameShape t.closing

namespace Script

variable {σ : Type} [Destination σ] {s t : Script}

theorem SameShape.run_blank (h : s.SameShape t) (e : Blank σ) : s.run e = t.run e := by
  simp only [run, h.opening.run_blank, h.line.run_blank, h.closing.run_blank]

/-- What is carried out without a failure has none of its own. -/
theorem calm_of_run {out : σ} (h : (s.run out).1 = none) : s.calm.failure = none := by
  rw [failure_calm]
  unfold run at h
  split at h
  case h_1 f out' _ => exact absurd h (Option.some_ne_none f)
  case h_2 out' hopening =>
    obtain ⟨hstuck, hbroken⟩ := Option.or_eq_none_iff.mp h
    rw [Attempt.failure_of_run (congrArg Prod.fst hopening), Attempt.failure_of_run hstuck,
      Attempt.failure_of_run hbroken]
    rfl

end Script

/-! ### Capability sets -/

namespace CapabilitySet

variable {caps set : CapabilitySet}

theorem sameShape_write {name : String} {parameters : List Number} (plain : String)
    (h : caps.Grants [(name, parameters)]) (h' : set.Grants [(name, parameters)]) :
    (caps.write name parameters plain).SameShape (set.write name parameters plain) := by
  have hwrite (caps : CapabilitySet) (h : caps.Grants [(name, parameters)]) :
      ∃ text, caps.write name parameters plain = { texts := [text] } := by
    have hok := List.forall_mem_singleton.mp h
    unfold write
    cases hlookup : caps.lookup name parameters with
    | ok text => exact ⟨_, rfl⟩
    | error f =>
      rw [hlookup] at hok
      cases hok
  obtain ⟨text, htext⟩ := hwrite caps h
  obtain ⟨text', htext'⟩ := hwrite set h'
  rw [htext, htext']
  exact ⟨rfl, rfl⟩

theorem sameShape_clearLine (h : caps.Grants [("el1", []), ("el", [])])
    (h' : set.Grants [("el1", []), ("el", [])]) : caps.clearLine.SameShape set.clearLine := by
  obtain ⟨hstart, hend⟩ := grants_cons.mp h
  obtain ⟨hstart', hend'⟩ := grants_cons.mp h'
  exact (sameShape_write _ hstart hstart').andThen (sameShape_write _ hend hend')

theorem sameShape_cursorUp {rows : Nat} (hrows : rows ≠ 0)
    (h : caps.Grants [("cuu", [.ofNat rows])]) (h' : set.Grants [("cuu", [.ofNat rows])]) :
    (caps.cursorUp (.ofRows rows)).SameShape (set.cursorUp (.ofRows rows)) := by
  rw [cursorUp_ofRows, cursorUp_ofRows, if_neg hrows, if_neg hrows]
  exact sameShape_write _ h h'

theorem sameShape_cursorDown {rows : Nat} (hrows : rows ≠ 0)
    (h : caps.Grants [("cud", [.ofNat rows])]) (h' : set.Grants [("cud", [.ofNat rows])]) :
    (caps.cursorDown (.ofRows rows)).SameShape (set.cursorDown (.ofRows rows)) := by
  rw [cursorDown_ofRows, cursorDown_ofRows, if_neg hrows, if_neg hrows]
  exact sameShape_write _ h h'

theorem grants_empty (asked : List (String × List Number)) : empty.Grants asked :=
  fun _ _ => rfl

/-- A set with which lines are cleared and the cursor is moved by the plain sequences. -/
structure IsPlain (caps : CapabilitySet) : Prop where
  clearLine : caps.clearLine = { texts := ["\x1b[1K", "\x1b[K"] }
  cursorUp : ∀ lines : Number, caps.cursorUp (.ofNumber lines) =
    if lines.beq 0 then {} else { texts := ["\x1b[" ++ lines.text ++ "A"] }
  cursorDown : ∀ lines : Number, caps.cursorDown (.ofNumber lines) =
    if lines.beq 0 then {} else { texts := ["\x1b[" ++ lines.text ++ "B"] }
  rowsUp : ∀ rows, caps.cursorUp (.ofRows rows) =
    if rows = 0 then {} else { texts := ["\x1b[" ++ toString rows ++ "A"] }
  rowsDown : ∀ rows, caps.cursorDown (.ofRows rows) =
    if rows = 0 then {} else { texts := ["\x1b[" ++ toString rows ++ "B"] }

theorem isPlain_empty : empty.IsPlain where
  clearLine := rfl
  cursorUp _ := rfl
  cursorDown _ := rfl
  rowsUp := empty.cursorUp_ofRows
  rowsDown := empty.cursorDown_ofRows

/-- A set answers from the entry that backs it. -/
theorem answersFrom_ofEntry (e : Terminfo.Entry) : (ofEntry e).AnswersFrom e := by
  have htemplate (name : String) (template : Text) : template? e name = some template ↔
      ∃ index, indexOf? name = some index ∧ e.strings[index]? = some (some template) := by
    simp only [template?, Option.bind_eq_some_iff, Option.join_eq_some_iff]
  constructor
  · intro name parameters text
    simp only [ofEntry]
    constructor
    · intro h
      split at h
      case h_1 => cases h
      case h_2 template hfound =>
        obtain ⟨index, hindex, hstring⟩ := (htemplate name template).mp hfound
        cases hexpand : Template.expand (Template.stripPadding template) parameters with
        | ok units =>
          rw [hexpand] at h
          cases h
          exact ⟨index, template, units, hindex, hstring, hexpand, rfl⟩
        | error f => cases f <;> (rw [hexpand] at h; cases h)
    · rintro ⟨index, template, units, hindex, hstring, hexpand, rfl⟩
      simp only [(htemplate name template).mpr ⟨index, hindex, hstring⟩, hexpand, ofExpansion]
  · intro name parameters f
    simp only [ofEntry]
    constructor
    · intro h
      split at h
      case h_1 => cases h
      case h_2 template hfound =>
        obtain ⟨index, hindex, hstring⟩ := (htemplate name template).mp hfound
        cases hexpand : Template.expand (Template.stripPadding template) parameters with
        | ok units =>
          rw [hexpand] at h
          cases h
        | error fault =>
          rw [hexpand] at h
          cases fault <;> cases h
          exact ⟨rfl, index, template, hindex, hstring, hexpand⟩
    · rintro ⟨rfl, index, template, hindex, hstring, hexpand⟩
      simp only [(htemplate name template).mpr ⟨index, hindex, hstring⟩, hexpand, ofExpansion]

/-- A set that is looked up refuses nothing but texts that are too long. -/
theorem oversized_of_refuses {entry : Option Terminfo.Entry} {asked : List (String × List Number)}
    {f : Failure} (h : (ofLookup entry).Refuses asked f) : f = .oversized := by
  obtain ⟨lookup, -, hlookup⟩ := h
  cases entry with
  | none => cases hlookup
  | some e => exact (((answersFrom_ofEntry e).failure _ _ f).mp hlookup).1

end CapabilitySet

/-! ### Messages -/

namespace Grid

variable {caps set : CapabilitySet} (v : Viewport) {m : Message}

theorem sameShape_line (h : caps.Grants m.lookups) (h' : set.Grants m.lookups) :
    (m.line (some caps) v).SameShape (m.line (some set) v) := by
  unfold Message.lookups at h h'
  unfold Message.line
  cases hreported : m.reportedError with
  | some e => exact ⟨rfl, rfl⟩
  | none =>
    cases hplace : m.isInPlace with
    | false => exact ⟨rfl, rfl⟩
    | true =>
      rw [if_pos ⟨by rw [hreported]; rfl, hplace⟩] at h h'
      exact (CapabilitySet.sameShape_clearLine h h').andThen ⟨rfl, rfl⟩

theorem sameShape_script (g : Grid) (h : caps.Grants (g.lookups m))
    (h' : set.Grants (g.lookups m)) :
    (g.script m (some caps) v).SameShape (g.script m (some set) v) := by
  cases haux : m.aux with
  | some payload =>
    have hsome : m.aux.isSome = true := by rw [haux]; rfl
    rw [g.script_of_payload _ v hsome, g.script_of_payload _ v hsome]
    exact ⟨⟨rfl, rfl⟩, ⟨rfl, rfl⟩, ⟨rfl, rfl⟩⟩
  | none =>
    rw [g.script_of_aux _ v haux, g.script_of_aux _ v haux]
    simp only [lookups, haux] at h h'
    cases hid : rowId? m with
    | none =>
      rw [hid] at h h'
      have hbare (caps : CapabilitySet) := g.bracket_bare (some caps) (.inl hid)
      constructor
      · simp only [bracket, hbare]
        exact ⟨rfl, rfl⟩
      · exact sameShape_line v h h'
      · simp only [bracket, hbare]
        exact ⟨rfl, rfl⟩
    | some id =>
      rw [hid] at h h'
      obtain ⟨hup, hrest⟩ := CapabilitySet.grants_cons.mp h
      obtain ⟨hup', hrest'⟩ := CapabilitySet.grants_cons.mp h'
      obtain ⟨hline, hdown⟩ := CapabilitySet.grants_append.mp hrest
      obtain ⟨hline', hdown'⟩ := CapabilitySet.grants_append.mp hrest'
      have hdistance := g.ne_zero_distance id
      constructor
      · simp only [bracket, g.opening_of_row hid]
        exact .andThen ⟨rfl, rfl⟩ (CapabilitySet.sameShape_cursorUp hdistance hup hup')
      · exact sameShape_line v hline hline'
      · simp only [bracket, g.closing_of_row hid]
        exact CapabilitySet.sameShape_cursorDown hdistance hdown hdown'

end Grid

namespace Display

variable {σ : Type} [Destination σ] {caps set : CapabilitySet} (v : Viewport)

theorem render_blank (d : Display (Blank σ)) {m : Message} (h : caps.Grants (d.grid.lookups m))
    (h' : set.Grants (d.grid.lookups m)) :
    d.render (some caps) v m = d.render (some set) v m := by
  rw [render_eq_script, render_eq_script, (d.grid.sameShape_script v h h').run_blank]

theorem run_blank (d : Display (Blank σ)) {messages : List Message}
    (h : caps.Grants (d.grid.asked messages)) (h' : set.Grants (d.grid.asked messages)) :
    d.run (some caps) v messages = d.run (some set) v messages := by
  induction messages generalizing d with
  | nil => rfl
  | cons m messages ih =>
    obtain ⟨hm, hrest⟩ := CapabilitySet.grants_append.mp h
    obtain ⟨hm', hrest'⟩ := CapabilitySet.grants_append.mp h'
    simp only [run, advance, d.render_blank v hm hm']
    have hown : (d.render (some set) v m).1 = none → m.ownFailure = none := by
      rw [render_eq_script]
      exact fun hrun => ((Grid.failure_script_eq_none_iff v).mp (Script.calm_of_run hrun)).2
    have hgrid := d.grid_render (some set) v m
    generalize d.render (some set) v m = r at hown hgrid
    obtain ⟨failure, d₁⟩ := r
    cases failure with
    | some f => rfl
    | none =>
      rw [hown rfl, if_neg (by simp), ← hgrid] at hrest hrest'
      dsimp only
      generalize Destination.ready d₁.out = r
      obtain ⟨failure, out⟩ := r
      cases failure with
      | some f => rfl
      | none => exact ih { d₁ with out } hrest hrest'

end Display

/-! ### Displays that look up their capabilities -/

namespace DisplayOptions

variable {o : DisplayOptions} (read : FileReader)

theorem resolve_of_lookup (hterminal : o.onTerminal = true) (hgiven : o.capabilities = none) :
    o.resolve read = (some (.ofLookup (Terminfo.resolve read o.env o.term o.searchDirs).1),
      [(Terminfo.resolve read o.env o.term o.searchDirs).2]) := by
  simp only [resolve, hterminal, hgiven, if_true]

theorem resolve_of_given (hterminal : o.onTerminal = true) (caps : CapabilitySet) :
    { o with capabilities := some caps }.resolve read = (some caps, []) := by
  simp only [resolve, hterminal, if_true]

end DisplayOptions

/-- Displays that end the same, whatever they have written on their way. -/
structure Shown.EndsAlike {σ : Type} (s s' : Shown σ) : Prop where
  failure : s.failure = s'.failure
  handedOn : s.handedOn = s'.handedOn
  grid : s.grid = s'.grid
  postlude : s.postlude = s'.postlude

namespace Shown

/-- Where the texts of writes do not matter, no more do the capabilities that grant what is asked
for. -/
theorem ofChunks_indifferent {σ : Type} [Destination σ] {R : σ → σ → Prop}
    (h : Destination.Indifferent R) {o o' : DisplayOptions} {read : FileReader}
    {caps set : CapabilitySet} (hcaps : (o.resolve read).1 = some caps)
    (hset : (o'.resolve read).1 = some set) (hviewport : o.viewport = o'.viewport)
    {chunks : List Chunk} (hgrants : caps.Grants (({} : Grid).asked (Message.ofChunks chunks).1))
    (hgrants' : set.Grants (({} : Grid).asked (Message.ofChunks chunks).1)) (out : σ)
    (hout : R out out) :
    ∃ e : Blank σ, R (ofChunks o read chunks out).out e.out ∧
      R (ofChunks o' read chunks out).out e.out ∧
      (ofChunks o read chunks out).EndsAlike (ofChunks o' read chunks out) := by
  have hstart : Display.Alike (fun (a : σ) (e : Blank σ) => R a e.out) { out } { out := ⟨out⟩ } :=
    ⟨rfl, rfl, hout⟩
  have hrun := hstart.run (Blank.alike h) (some caps) o.viewport (Message.ofChunks chunks).1
  have hrun' := hstart.run (Blank.alike h) (some set) o.viewport (Message.ofChunks chunks).1
  rw [← Display.run_blank _ _ hgrants hgrants'] at hrun'
  simp only [ofChunks, ofDisplay, Display.feed_eq_run, hcaps, hset, ← hviewport]
  generalize Display.run ({ out := ⟨out⟩ } : Display (Blank σ)) _ _ _ = z at hrun hrun'
  generalize Display.run ({ out } : Display σ) (some caps) _ _ = x at hrun ⊢
  generalize Display.run ({ out } : Display σ) (some set) _ _ = y at hrun' ⊢
  obtain ⟨failure, hshown⟩ := hrun
  obtain ⟨_, hshown'⟩ := hrun'
  refine ⟨_, hshown.out, hshown'.out, rfl, ?_, ?_, ?_⟩
  · exact hshown.handedOn.trans hshown'.handedOn.symm
  · exact hshown.grid.trans hshown'.grid.symm
  · simp only [hshown.grid, hshown'.grid]

end Shown

/-- Recorders that refuse the same writes and have been asked for as many. -/
def Recorder.SameCount (r r' : Recorder) : Prop :=
  r.refused = r'.refused ∧ r.attempts = r'.attempts

theorem Recorder.indifferent : Destination.Indifferent Recorder.SameCount := by
  constructor
  · rintro r r' ⟨hrefused, hattempts⟩ text other
    simp only [Destination.write, Recorder.write, hrefused, hattempts]
    split
    · exact .intro _ ⟨rfl, rfl⟩
    · exact .intro _ ⟨rfl, rfl⟩
  · intro r r' hr
    exact .intro none hr

/-- Devices that are in the same state but for what has been written to them. -/
def DeviceSink.SameCount (d d' : DeviceSink) : Prop :=
  d.device = d'.device ∧ d.sink = d'.sink ∧ d.attempts = d'.attempts

theorem DeviceSink.indifferent : Destination.Indifferent DeviceSink.SameCount := by
  constructor
  · rintro d d' ⟨hdevice, hsink, hattempts⟩ text other
    simp only [Destination.write, DeviceSink.write, hdevice, hsink, hattempts]
    split
    · exact .intro _ ⟨rfl, rfl, rfl⟩
    · exact .intro _ ⟨rfl, rfl, rfl⟩
  · rintro d d' ⟨hdevice, hsink, hattempts⟩
    simp only [Destination.ready, DeviceSink.ready, hsink]
    split
    · exact .intro _ ⟨hdevice, rfl, hattempts⟩
    · exact .intro _ ⟨hdevice, rfl, hattempts⟩

theorem DeviceSink.SameCount.finish {d d' : DeviceSink} (h : SameCount d d')
    (failure : Option Failure) : (d.finish failure).1 = (d'.finish failure).1 := by
  obtain ⟨_, hsink, _⟩ := h
  simp only [DeviceSink.finish, hsink]

section

variable {o o' : DisplayOptions} {read : FileReader} {caps set : CapabilitySet}
  {chunks : List Chunk}

/-- A display on a recorder ends the same whatever the capabilities, if they grant what is asked
for. -/
theorem Shown.recorder_endsAlike (hcaps : (o.resolve read).1 = some caps)
    (hset : (o'.resolve read).1 = some set) (hviewport : o.viewport = o'.viewport)
    (hgrants : caps.Grants (({} : Grid).asked (Message.ofChunks chunks).1))
    (hgrants' : set.Grants (({} : Grid).asked (Message.ofChunks chunks).1)) (recorder : Recorder) :
    (ofChunks o read chunks recorder).EndsAlike (ofChunks o' read chunks recorder) := by
  obtain ⟨_, _, _, hends⟩ := ofChunks_indifferent Recorder.indifferent hcaps hset hviewport
    hgrants hgrants' recorder ⟨rfl, rfl⟩
  exact hends

/-- So does a display on a device. -/
theorem Shown.device_endsAlike (hcaps : (o.resolve read).1 = some caps)
    (hset : (o'.resolve read).1 = some set) (hviewport : o.viewport = o'.viewport)
    (hgrants : caps.Grants (({} : Grid).asked (Message.ofChunks chunks).1))
    (hgrants' : set.Grants (({} : Grid).asked (Message.ofChunks chunks).1)) (device : Device) :
    (onDevice o read chunks device).EndsAlike (onDevice o' read chunks device) := by
  obtain ⟨e, ⟨hdevice, hsink, hattempts⟩, ⟨hdevice', hsink', hattempts'⟩, hends⟩ :=
    ofChunks_indifferent DeviceSink.indifferent hcaps hset hviewport hgrants hgrants'
      { device } ⟨rfl, rfl, rfl⟩
  have hcount : DeviceSink.SameCount (ofChunks o read chunks ({ device } : DeviceSink)).out
      (ofChunks o' read chunks ({ device } : DeviceSink)).out :=
    ⟨hdevice.trans hdevice'.symm, hsink.trans hsink'.symm, hattempts.trans hattempts'.symm⟩
  have hfinish := hcount.finish (ofChunks o read chunks ({ device } : DeviceSink)).failure
  refine ⟨?_, hends.handedOn, hends.grid, hends.postlude⟩
  simp only [onDevice, finished, ← hends.failure]
  exact hfinish

/-- A display fails if something that it asks for is refused, and with the failure of a look-up
unless a write fails before. -/
theorem Shown.failure_of_not_grants (hcaps : (o.resolve read).1 = some caps)
    (h : ¬ caps.Grants (({} : Grid).asked (Message.ofChunks chunks).1)) (device : Device) :
    ∃ f, (onDevice o read chunks device).failure = some f ∧ (device.failing = [] →
      caps.Refuses (({} : Grid).asked (Message.ofChunks chunks).1) f) := by
  obtain ⟨f, hrefused, hcourse⟩ := Grid.failure_course_of_not_grants (v := o.viewport) h
  rw [← hcaps] at hcourse
  rcases device.exists_failsFirst_or_spares (course o read chunks).writes.length with
    ⟨n, error, hfails, hle⟩ | hspares
  · obtain ⟨⟨_, _, _, _, _, _, _, _, _, hfailure⟩, -⟩ :=
      onDevice_of_failsFirst o read chunks hfails hle
    refine ⟨_, hfailure, fun hnone => ?_⟩
    have hlookup := hfails.fails
    rw [hnone] at hlookup
    cases hlookup
  · obtain ⟨out, hshown, -⟩ := onDevice_of_spares o read chunks hspares
    refine ⟨f, ?_, fun _ => hrefused⟩
    rw [hshown, course, hcourse]
    rfl

end

namespace Terminfo

theorem ofBytes_overwide :
    Entry.ofBytes ((Entry.overwide 114 'A').toBytes .legacy) = .ok (.overwide 114 'A') := by
  apply Entry.ofBytes_toBytes
  constructor
  case strings_latin1 =>
    intro s hs
    rcases List.mem_append.mp hs with hempty | hup
    · cases List.eq_of_mem_replicate hempty
    · obtain rfl := Option.some.inj (List.mem_singleton.mp hup)
      have hall : (Text.ofString ("\x1b[%p1%999999999d" ++ String.singleton 'A')).all
          (fun u => decide (0 < u.toNat ∧ u.toNat < 256)) = true := by decide +kernel
      exact fun u hu => of_decide_eq_true (List.all_eq_true.mp hall u hu)
  all_goals decide +kernel

theorem read_overwideFiles :
    overwideFiles.read "db/w/wide" = .ok ((Entry.overwide 114 'A').toBytes .legacy) := by
  have hpath : Path.LeadsThrough "db/w/wide" ["db", "w", "wide"] :=
    ⟨by decide, by decide, by decide⟩
  rw [overwideFiles.read_of_leadsThrough hpath (by simp) (by decide)]
  rfl

theorem isValidName_wide : isValidName "wide" = true := by simp [isValidName]

/-- The file of the entry is the first one that is read, whatever other directories there are. -/
theorem entryPaths_overwide (dirs : List String) :
    ∃ rest, ("db" :: dirs).flatMap (entryPaths "wide") = "db/w/wide" :: rest := by
  have htext : Text.ofString "wide" = [119, 105, 100, 101] := by decide
  have hletter : Text.string [119] = "w" := by decide
  have hpath : Path.LeadsThrough "db/w/wide" ["db", "w", "wide"] :=
    ⟨by decide, by decide, by decide⟩
  simp only [List.flatMap_cons, entryPaths, htext, hletter, hpath.join_eq, List.cons_append]
  exact ⟨_, rfl⟩

theorem lookup_overwide (dirs : List String) :
    lookup overwideFiles.read "wide" ("db" :: dirs) = .ok (.overwide 114 'A') := by
  obtain ⟨rest, hpaths⟩ := entryPaths_overwide dirs
  rw [lookup, if_pos isValidName_wide, hpaths, firstEntry, read_overwideFiles]
  dsimp only
  rw [ofBytes_overwide]
  rfl

theorem waits_overwide (dirs : List String) :
    waits overwideFiles.read "wide" ("db" :: dirs) = 1 := by
  obtain ⟨rest, hpaths⟩ := entryPaths_overwide dirs
  rw [waits, if_pos isValidName_wide, hpaths, waitsAt, read_overwideFiles]

theorem resolve_overwide {env : Environment} {term : Option String} {given : Option (List String)}
    {dirs : List String} (hterm : termOf env term = "wide")
    (hdirs : given.getD (searchDirs env) = "db" :: dirs) :
    (resolve overwideFiles.read env term given).1 = some (.overwide 114 'A') := by
  simp only [resolve, hterm, hdirs, lookup_overwide]

end Terminfo

/-- The look-up of a terminal's capabilities ends without a fault, in an entry or in none, and
with one line for debugging. There is none exactly if the entry cannot be opened, which is a
failure that the look-up reports; then lines are cleared and the cursor is moved by plain
sequences, else by what the templates of the entry expand to. As long as no text that is asked for
is too long, a display on a terminal ends as one that looks nothing up. Otherwise it fails, and on
a device that takes every write it fails because of that text. -/
theorem lookup_ends_display_iff_oversized (read : FileReader) (env : Environment)
    (term : Option String) (dirs : Option (List String)) :
    ∃ entry line,
      Terminfo.attempt read env term dirs = .ok (entry, [line]) ∧ line.level = .debug ∧
      (∀ e, entry = some e ↔
        Terminfo.openEntry read (Terminfo.termOf env term)
          (dirs.getD (Terminfo.searchDirs env)) = .ok e) ∧
      (entry = none ↔ ∃ error,
        Terminfo.openEntry read (Terminfo.termOf env term)
          (dirs.getD (Terminfo.searchDirs env)) = .error (.failure error)) ∧
      (∀ e, entry = some e → (CapabilitySet.ofLookup entry).AnswersFrom e) ∧
      (entry = none →
        CapabilitySet.ofLookup entry = .empty ∧ (CapabilitySet.ofLookup entry).IsPlain) ∧
      ∀ (viewport : Viewport) (chunks : List Chunk),
        let looking : DisplayOptions :=
          { onTerminal := true, env, term, searchDirs := dirs, viewport }
        let given : DisplayOptions :=
          { onTerminal := true, capabilities := some .empty, viewport }
        let asked := ({} : Grid).asked (Message.ofChunks chunks).1
        looking.resolve read = (some (.ofLookup entry), [line]) ∧
        (entry = none → (CapabilitySet.ofLookup entry).Grants asked) ∧
        ((CapabilitySet.ofLookup entry).Grants asked →
          (∀ recorder : Recorder,
            (Shown.ofChunks looking read chunks recorder).EndsAlike
              (Shown.ofChunks given read chunks recorder)) ∧
          ∀ device : Device,
            (Shown.onDevice looking read chunks device).EndsAlike
              (Shown.onDevice given read chunks device)) ∧
        (¬ (CapabilitySet.ofLookup entry).Grants asked → ∀ device : Device,
          ∃ f, (Shown.onDevice looking read chunks device).failure = some f ∧
            (device.failing = [] → f = .oversized)) := by
  refine ⟨(Terminfo.resolve read env term dirs).1, (Terminfo.resolve read env term dirs).2,
    Terminfo.attempt_eq read env term dirs, Terminfo.level_resolve_snd read env term dirs,
    fun _ => Terminfo.resolve_fst_eq_some_iff read env term dirs,
    Terminfo.resolve_fst_eq_none_iff read env term dirs, ?_, ?_, ?_⟩
  · intro e he
    rw [he]
    exact CapabilitySet.answersFrom_ofEntry e
  · intro hnone
    rw [hnone]
    exact ⟨rfl, CapabilitySet.isPlain_empty⟩
  · intro viewport chunks looking given asked
    have hlooking := DisplayOptions.resolve_of_lookup (o := looking) read rfl rfl
    have hgiven := DisplayOptions.resolve_of_given (o := looking) read rfl .empty
    have hcaps := congrArg Prod.fst hlooking
    have hset : (given.resolve read).1 = some .empty := congrArg Prod.fst hgiven
    refine ⟨hlooking, ?_, fun hgrants => ⟨?_, ?_⟩, fun hrefused device => ?_⟩
    · intro hnone
      rw [hnone]
      exact CapabilitySet.grants_empty asked
    · exact Shown.recorder_endsAlike hcaps hset rfl hgrants (CapabilitySet.grants_empty asked)
    · exact Shown.device_endsAlike hcaps hset rfl hgrants (CapabilitySet.grants_empty asked)
    · obtain ⟨f, hfailure, hf⟩ := Shown.failure_of_not_grants hcaps hrefused device
      exact ⟨f, hfailure, fun hcalm => CapabilitySet.oversized_of_refuses (hf hcalm)⟩

/-- A terminal's entry that moves the cursor up by a number in more columns than a text can have
is found, and ends a display that is well without it. -/
theorem overwide_entry_ends_display :
    let read := Terminfo.overwideFiles.read
    let chunks := [Chunk.text (Text.ofString "\x7b\"id\":\"a\",\"progress\":\"x\"\x7d")]
    let o : DisplayOptions :=
      { onTerminal := true, term := some "wide", searchDirs := some ["db"] }
    (Terminfo.resolve read [] (some "wide") (some ["db"])).1 = some (.overwide 114 'A') ∧
      (Shown.onDevice o read chunks {}).failure = some .oversized ∧
      (Shown.onDevice { o with capabilities := some .empty } read chunks {}).failure = none := by
  intro read chunks o
  have hentry : (Terminfo.resolve read [] (some "wide") (some ["db"])).1 =
      some (.overwide 114 'A') := Terminfo.resolve_overwide rfl rfl
  have hcaps : (o.resolve read).1 = some (.ofEntry (.overwide 114 'A')) := by
    rw [DisplayOptions.resolve_of_lookup read rfl rfl]
    exact congrArg (fun entry => some (CapabilitySet.ofLookup entry)) hentry
  have hrefused : ¬ (CapabilitySet.ofEntry (.overwide 114 'A')).Grants
      (({} : Grid).asked (Message.ofChunks chunks).1) := by decide +kernel
  obtain ⟨f, hfailure, hf⟩ := Shown.failure_of_not_grants hcaps hrefused {}
  have hrefuses : (CapabilitySet.ofLookup (some (.overwide 114 'A'))).Refuses _ f := hf rfl
  refine ⟨hentry, ?_, by decide +kernel⟩
  rw [hfailure, CapabilitySet.oversized_of_refuses hrefuses]

end LiveProgress
