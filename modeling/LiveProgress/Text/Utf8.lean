import LiveProgress.Text.Units

/-!
# Streaming UTF-8

A decoder of bytes that arrive in pieces. A byte that cannot continue the sequence
begun before it ends that sequence, which then stands for one replacement character,
and is read anew as a first byte; so each maximal ill-formed piece is replaced once.
A byte order mark at the very start of the bytes is dropped.
-/

namespace LiveProgress.Utf8
open Text (replacement)

/-- What an unfinished sequence still needs: the bits collected so far, the bytes
missing after the next one, and the bounds of the next one. -/
structure Partial where
  bits : Nat
  further : Nat
  least : UInt8
  greatest : UInt8
deriving DecidableEq, Repr

structure Decoder where
  pending : Option Partial := none
  /-- No character has come yet. -/
  atStart : Bool := true
deriving DecidableEq, Repr

/-- Reads the first byte of a sequence: a character at once, or a sequence to
continue. -/
def first (b : UInt8) : List Char × Option Partial :=
  let n := b.toNat
  if n < 0x80 then ([Char.ofNat n], none)
  else if 0xC2 ≤ n ∧ n ≤ 0xDF then ([], some ⟨n - 0xC0, 0, 0x80, 0xBF⟩)
  else if 0xE0 ≤ n ∧ n ≤ 0xEF then
    ([], some ⟨n - 0xE0, 1, if n = 0xE0 then 0xA0 else 0x80, if n = 0xED then 0x9F else 0xBF⟩)
  else if 0xF0 ≤ n ∧ n ≤ 0xF4 then
    ([], some ⟨n - 0xF0, 2, if n = 0xF0 then 0x90 else 0x80, if n = 0xF4 then 0x8F else 0xBF⟩)
  else ([replacement], none)

/-- Reads one byte after an unfinished sequence. -/
def next (p : Option Partial) (b : UInt8) : List Char × Option Partial :=
  match p with
  | none => first b
  | some p =>
      if p.least ≤ b ∧ b ≤ p.greatest then
        let bits := p.bits * 64 + (b.toNat - 0x80)
        match p.further with
        | 0 => ([Char.ofNat bits], none)
        | k + 1 => ([], some ⟨bits, k, 0x80, 0xBF⟩)
      else
        let (out, p) := first b
        (replacement :: out, p)

namespace Decoder

/-- Hands characters on, less a byte order mark in front of all of them. -/
def emit (d : Decoder) (pending : Option Partial) (out : List Char) : List Char × Decoder :=
  match d.atStart, out with
  | true, c :: rest => (if c = '\uFEFF' then rest else c :: rest, ⟨pending, false⟩)
  | _, out => (out, { d with pending })

def step (d : Decoder) (b : UInt8) : List Char × Decoder :=
  let (out, pending) := next d.pending b
  d.emit pending out

/-- The characters that a piece of the bytes completes. -/
def push (d : Decoder) (bytes : List UInt8) : List Char × Decoder :=
  let (out, d) := bytes.foldl (fun (out, d) b =>
    let (cs, d) := d.step b
    (cs.reverse ++ out, d)) ([], d)
  (out.reverse, d)

/-- The character that stands for a sequence cut off by the end of the bytes. -/
def finish (d : Decoder) : List Char :=
  (d.emit none (if d.pending.isSome then [replacement] else [])).1

theorem push_nil (d : Decoder) : d.push [] = ([], d) := rfl

theorem push_cons (d : Decoder) (b : UInt8) (bytes : List UInt8) :
    d.push (b :: bytes) =
      ((d.step b).1 ++ ((d.step b).2.push bytes).1, ((d.step b).2.push bytes).2) := by
  have shift (out : List Char) (d : Decoder) (bytes : List UInt8) :
      bytes.foldl (fun (out, d) b => ((d.step b).1.reverse ++ out, (d.step b).2)) (out, d) =
        ((d.push bytes).1.reverse ++ out, (d.push bytes).2) := by
    induction bytes generalizing out d with
    | nil => rfl
    | cons b bytes ih =>
      unfold push
      simp only [List.foldl_cons]
      rw [ih, ih]
      simp
  have h := shift ((d.step b).1.reverse ++ []) (d.step b).2 bytes
  unfold push at h ⊢
  simp only [List.foldl_cons]
  rw [h]
  simp

theorem push_append (d : Decoder) (a b : List UInt8) :
    d.push (a ++ b) = ((d.push a).1 ++ ((d.push a).2.push b).1, ((d.push a).2.push b).2) := by
  induction a generalizing d with
  | nil => simp [push_nil]
  | cons x a ih => simp [push_cons, ih]

end Decoder

/-- The bytes of a text. -/
def encode (s : List Char) : List UInt8 := s.flatMap String.utf8EncodeChar

end LiveProgress.Utf8
