import LiveProgress.Json.Splitter

/-!
# Extents of values

How far the text of a value reaches, whether or not it is JSON. Brackets nest, but those of
one kind may close those of the other, and inside a string nothing counts but its end. The
relations are between a text and what follows the phrase at its front, as in the grammar.
-/

namespace LiveProgress.Json

/-- Units that end a value without brackets or quotation marks. -/
def isBreak (u : CodeUnit) : Bool := isBlank u || isOpening u || isQuote u

/-- Units inside brackets that neither nest nor open a string. -/
def isPlain (u : CodeUnit) : Bool := !isQuote u && !isOpening u && !isClosing u

/-- The rest of a string, behind its opening quotation mark. -/
inductive Quoted : Text → Text → Prop
  | close {u : CodeUnit} {rest : Text} : isQuote u = true → Quoted (u :: rest) rest
  | plain {u : CodeUnit} {s rest : Text} : isQuote u = false → isBackslash u = false →
      Quoted s rest → Quoted (u :: s) rest
  | escaped {u v : CodeUnit} {s rest : Text} : isBackslash u = true → Quoted s rest →
      Quoted (u :: v :: s) rest

/-- A stretch of text in which every bracket and every string is closed. -/
inductive Inside : Text → Text → Prop
  | nil {rest : Text} : Inside rest rest
  | plain {u : CodeUnit} {s rest : Text} : isPlain u = true → Inside s rest → Inside (u :: s) rest
  | string {u : CodeUnit} {s t rest : Text} : isQuote u = true → Quoted s t → Inside t rest →
      Inside (u :: s) rest
  | nested {u v : CodeUnit} {s t rest : Text} : isOpening u = true → Inside s (v :: t) →
      isClosing v = true → Inside t rest → Inside (u :: s) rest

/-- The text of one value. -/
inductive Extent : Text → Text → Prop
  | nested {u v : CodeUnit} {s rest : Text} : isOpening u = true → Inside s (v :: rest) →
      isClosing v = true → Extent (u :: s) rest
  | string {u : CodeUnit} {s rest : Text} : isQuote u = true → Quoted s rest →
      Extent (u :: s) rest
  | scalar {u : CodeUnit} {s : Text} : isBreak u = false →
      Extent (u :: s) (s.dropWhile (! isBreak ·))

end LiveProgress.Json
