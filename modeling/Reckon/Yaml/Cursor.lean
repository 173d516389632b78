import Reckon.Text.Utf8

/-!
# Places in a YAML text

The structure of a YAML text depends on columns and lines, so the text is read through a cursor that
counts both.  Blanks and line breaks between the words of a scalar are collected as a gap, which is
folded into a space or into line breaks when another word follows.
-/

namespace Reckon
namespace Yaml

/-- Whether a character is a blank inside a line. -/
def isBlank (c : Char) : Bool :=
  c = ' ' || c = '\t'

/-- Whether a character ends a line. -/
def isBreak (c : Char) : Bool :=
  let n := c.toNat
  n = 0x0A || n = 0x0D || n = 0x85 || n = 0x2028 || n = 0x2029

/-- Whether a character may occur in a text at all. -/
def isAllowed (c : Char) : Bool :=
  let n := c.toNat
  n = 0x09 || n = 0x0A || n = 0x0D || (0x20 ≤ n && n ≤ 0x7E) || n = 0x85
    || (0xA0 ≤ n && n ≤ 0xD7FF) || (0xE000 ≤ n && n ≤ 0xFFFD && n != 0xFEFF) || 0x10000 ≤ n

/-- The rest of a text and the place where it starts. -/
structure Cursor where
  rest : List Char
  line : Nat
  column : Nat
  /-- The number of characters in front. -/
  index : Nat

namespace Cursor

/-- The start of a text. -/
def start (cs : List Char) : Cursor :=
  ⟨cs, 0, 0, 0⟩

/-- The place after one character of the same line. -/
def skip (c : Cursor) : Cursor :=
  ⟨c.rest.drop 1, c.line, c.column + 1, c.index + 1⟩

/-- The place after some characters of the same line. -/
def skipMany (c : Cursor) (n : Nat) : Cursor :=
  ⟨c.rest.drop n, c.line, c.column + n, c.index + n⟩

/-- The line break at a place as it is kept in a scalar, and the place after it. -/
def takeBreak (c : Cursor) : List Char × Cursor :=
  match c.rest with
  | '\r' :: '\n' :: rest => (['\n'], ⟨rest, c.line + 1, 0, c.index + 2⟩)
  | b :: rest =>
    if !isBreak b then ([], c)
    else if b.toNat < 0x100 then (['\n'], ⟨rest, c.line + 1, 0, c.index + 1⟩)
    else ([b], ⟨rest, c.line + 1, 0, c.index + 1⟩)
  | [] => ([], c)

/-- The place after a line break. -/
def skipBreak (c : Cursor) : Cursor :=
  c.takeBreak.2

/-- The longest run of characters of a class that contains no line break, and the place after it. -/
def takeWhile (c : Cursor) (p : Char → Bool) : List Char × Cursor :=
  let run := c.rest.takeWhile p
  (run, c.skipMany run.length)

/-- The place after a run of characters of a class that contains no line break. -/
def skipWhile (c : Cursor) (p : Char → Bool) : Cursor :=
  (c.takeWhile p).2

/-- Whether there is a blank, a line break or the end of the text after `n` characters. -/
def isEndAt (c : Cursor) (n : Nat) : Bool :=
  match c.rest.drop n with
  | [] => true
  | b :: _ => isBlank b || isBreak b

/-- Whether a line starts here with one of the two marks between documents. -/
def isDocumentMark (c : Cursor) : Bool :=
  c.column = 0 && (c.rest.take 3 = ['-', '-', '-'] || c.rest.take 3 = ['.', '.', '.'])
    && c.isEndAt 3

/-- The place at the end of the line. -/
def skipLine (c : Cursor) : Cursor :=
  c.skipWhile (fun b => !isBreak b)

end Cursor

/-- Blanks and line breaks between two words. -/
structure Gap where
  /-- The blanks before the first line break. -/
  blanks : List Char
  breaks : List Char
  /-- Whether a tab stands left of the wanted indentation. -/
  outdentedTab : Bool

namespace Gap

/-- No gap. -/
def none : Gap :=
  ⟨[], [], false⟩

/-- A gap as part of a scalar: blanks within a line are kept, one line break becomes a space, and of
several the first is dropped. -/
def fold (g : Gap) : List Char :=
  match g.breaks with
  | [] => g.blanks
  | ['\n'] => [' ']
  | '\n' :: more => more
  | breaks => breaks

end Gap

/-- Reads a gap; `indent` is the indentation that tabs must not be left of. -/
def takeGap (indent : Nat) : (fuel : Nat) → (g : Gap) → (c : Cursor) → Gap × Cursor
  | 0, g, c => (g, c)
  | fuel + 1, g, c =>
    match c.rest with
    | [] => (g, c)
    | b :: _ =>
      if isBlank b then
        if g.breaks.isEmpty then
          takeGap indent fuel { g with blanks := g.blanks ++ [b] } c.skip
        else
          let outdented := b = '\t' && c.column < indent
          takeGap indent fuel { g with outdentedTab := g.outdentedTab || outdented } c.skip
      else if isBreak b then
        let (kept, c) := c.takeBreak
        takeGap indent fuel { g with breaks := g.breaks ++ kept } c
      else (g, c)

end Yaml
end Reckon
