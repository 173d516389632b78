import Reckon.Text.Utf8

/-!
# The line editor

The line that is being typed, with a cursor between two of its characters.  It holds a limited number
of characters; what does not fit is dropped.
-/

namespace Reckon
namespace Terminal

/-- A key that edits the line. -/
inductive EditKey where
  | backspace | delete
  | left | right | lineStart | lineEnd
  /-- Deletes all in front of the cursor. -/
  | deleteBefore
  /-- Deletes all behind the cursor. -/
  | deleteAfter
  /-- A key without effect. -/
  | idle
  deriving DecidableEq, Repr

/-- A line with a cursor. -/
structure LineEditor where
  /-- The characters in front of the cursor, the nearest first. -/
  before : List Char
  after : List Char
  deriving DecidableEq, Repr

namespace LineEditor

/-- The most characters a line can have. -/
def capacity : Nat :=
  1024

/-- The empty line. -/
def empty : LineEditor :=
  ⟨[], []⟩

/-- The characters of the line. -/
def chars (e : LineEditor) : List Char :=
  e.before.reverse ++ e.after

/-- The text of the line. -/
def value (e : LineEditor) : Bytes :=
  Utf8.ofChars e.chars

/-- Whether a character is a control character. -/
def isControl (c : Char) : Bool :=
  c.toNat < 0x20 || (0x7F ≤ c.toNat && c.toNat < 0xA0)

/-- What is inserted for a typed character: a space for a tab or the end of a line, and nothing for
another control character or for a character that could not be decoded. -/
def typed? (c : Char) : Option Char :=
  if c = '\t' || c = '\n' || c = '\r' then some ' '
  else if isControl c || c = Utf8.replacement then none
  else some c

/-- Inserts typed characters at the cursor as far as they fit. -/
def insert (e : LineEditor) (cs : List Char) : LineEditor :=
  let room := capacity - (e.before.length + e.after.length)
  let fitting := (cs.filterMap typed?).take room
  { e with before := fitting.reverse ++ e.before }

/-- The editing key that a typed text names, if it does: such a text acts as the key. -/
def keyNamed? (text : Bytes) : Option EditKey :=
  let names : List (Bytes × EditKey) := [
    ("backspace", .backspace), ("ctrl+h", .backspace), ("delete", .delete), ("ctrl+d", .delete),
    ("left", .left), ("ctrl+b", .left), ("right", .right), ("ctrl+f", .right),
    ("home", .lineStart), ("ctrl+a", .lineStart), ("end", .lineEnd), ("ctrl+e", .lineEnd),
    ("ctrl+u", .deleteBefore), ("ctrl+k", .deleteAfter), ("ctrl+v", .idle), ("up", .idle),
    ("down", .idle), ("ctrl+p", .idle), ("ctrl+n", .idle)]
  (names.find? (·.1 = text)).map (·.2)

/-- The line after an editing key. -/
def press (e : LineEditor) : EditKey → LineEditor
  | .backspace => { e with before := e.before.drop 1 }
  | .delete => { e with after := e.after.drop 1 }
  | .left =>
    match e.before with
    | c :: rest => ⟨rest, c :: e.after⟩
    | [] => e
  | .right =>
    match e.after with
    | c :: rest => ⟨c :: e.before, rest⟩
    | [] => e
  | .lineStart => ⟨[], e.chars⟩
  | .lineEnd => ⟨e.chars.reverse, []⟩
  | .deleteBefore => { e with before := [] }
  | .deleteAfter => { e with after := [] }
  | .idle => e

/-- The line after a typed text. -/
def type (e : LineEditor) (text : List Char) : LineEditor :=
  match keyNamed? (Utf8.ofChars text) with
  | some k => e.press k
  | none => e.insert text

end LineEditor
end Terminal
end Reckon
