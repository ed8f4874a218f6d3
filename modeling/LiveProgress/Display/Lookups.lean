import LiveProgress.Display.Handled
import LiveProgress.Display.History
import LiveProgress.Terminfo.Encoding

/-!
# Look-ups

The capabilities that a message asks for on a terminal: those that clear its line, and those that
move the cursor to its row and back. A set that grants them answers, with a text or with none.
-/

namespace LiveProgress

/-- The capabilities that are asked for, with their parameters, are looked up without a failure. -/
def CapabilitySet.Grants (caps : CapabilitySet) (asked : List (String × List Number)) : Prop :=
  ∀ lookup ∈ asked, (caps.lookup lookup.1 lookup.2).isOk = true

/-- One of the capabilities that are asked for is looked up with the failure given. -/
def CapabilitySet.Refuses (caps : CapabilitySet) (asked : List (String × List Number))
    (f : Failure) : Prop :=
  ∃ lookup ∈ asked, caps.lookup lookup.1 lookup.2 = .error f

instance (caps : CapabilitySet) (asked : List (String × List Number)) :
    Decidable (caps.Grants asked) :=
  List.decidableBAll _ asked

/-- A look-up gives the expansion of the template that an entry has for the name, or fails if that
is too long. For any other name it gives none. -/
structure CapabilitySet.AnswersFrom (caps : CapabilitySet) (e : Terminfo.Entry) : Prop where
  text : ∀ name parameters text, caps.lookup name parameters = .ok (some text) ↔
    ∃ index template units, indexOf? name = some index ∧ e.strings[index]? = some (some template) ∧
      Template.expand (Template.stripPadding template) parameters = .ok units ∧
      text = units.string
  failure : ∀ name parameters f, caps.lookup name parameters = .error f ↔
    f = .oversized ∧ ∃ index template,
      indexOf? name = some index ∧ e.strings[index]? = some (some template) ∧
        Template.expand (Template.stripPadding template) parameters = .error .tooLong

/-- What the line of a message asks for. -/
def Message.lookups (m : Message) : List (String × List Number) :=
  if m.reportedError.isNone ∧ m.isInPlace then [("el1", []), ("el", [])] else []

/-- What a message asks for behind a grid; one that is handed on asks for nothing. -/
def Grid.lookups (g : Grid) (m : Message) : List (String × List Number) :=
  match m.aux, rowId? m with
  | some _, _ => []
  | none, some id =>
      let rows := Number.ofNat ((g.reserve id).distance id)
      ("cuu", [rows]) :: (m.lookups ++ [("cud", [rows])])
  | none, none => m.lookups

/-- What messages ask for behind a grid, up to the first that fails wherever it is shown. -/
def Grid.asked (g : Grid) : List Message → List (String × List Number)
  | [] => []
  | m :: rest => g.lookups m ++ if m.ownFailure.isSome then [] else (g.next m).asked rest

/-- All that a message asks for is granted; on what is no terminal it asks for nothing. -/
def Grid.IsGranted (g : Grid) (caps : Option CapabilitySet) (m : Message) : Prop :=
  ∀ set ∈ caps, set.Grants (g.lookups m)

/-- An entry whose one capability, at the index given, moves the cursor by a number that is filled
to more columns than a text can have. -/
def Terminfo.Entry.overwide (index : Nat) (final : Char) : Entry where
  names := ["overwide"]
  booleans := []
  numbers := []
  strings := List.replicate index none ++
    [some (Text.ofString ("\x1b[%p1%999999999d" ++ String.singleton final))]

/-- Files with the entry of one terminal, which moves the cursor up by such a number. -/
def Terminfo.overwideFiles : FileTree :=
  ⟨[(["db", "w", "wide"], some ((Entry.overwide 114 'A').toBytes .legacy))]⟩

end LiveProgress
