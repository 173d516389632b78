import Reckon.Yaml.Scalar

/-!
# Tokens of a YAML text

Indentation and punctuation become tokens.  A word is recognised as a key only when a colon follows it
on the same line, so the token of the key, and that of the mapping it opens, are put in front of tokens
that were read before.  Anchors, aliases, tags and directives are not part of the notation that is
read here.
-/

namespace Reckon
namespace Yaml

/-- A token. -/
inductive Token where
  | documentStart | documentEnd | streamEnd
  | blockSequence | blockMapping | blockEnd
  | flowSequence | flowSequenceEnd
  | flowMapping | flowMappingEnd
  | blockEntry | flowEntry
  | key | value
  /-- A text; `plain` tells whether it was written without quotes. -/
  | scalar (text : List Char) (plain : Bool)
  deriving DecidableEq, Repr

/-- A token that may turn out to be the start of a key. -/
structure Candidate where
  /-- The number of tokens in front of it. -/
  position : Nat
  /-- Whether anything but a key would be out of place here. -/
  required : Bool
  line : Nat
  column : Nat
  index : Nat

/-- What the scanner remembers. -/
structure Scanner where
  cursor : Cursor
  /-- The tokens read so far, the latest first. -/
  tokens : List Token
  /-- The indentations of the open blocks, the innermost first. -/
  indents : List Nat
  /-- Whether a key may start here. -/
  keyAllowed : Bool
  /-- The candidate of the current level of brackets. -/
  candidate : Option Candidate
  /-- The candidates of the levels around it; there are as many as open brackets. -/
  outer : List (Option Candidate)

namespace Scanner

/-- The start of a text. -/
def start (cs : List Char) : Scanner :=
  ⟨.start cs, [], [], true, none, []⟩

/-- Whether a bracket is open. -/
def inFlow (s : Scanner) : Bool :=
  !s.outer.isEmpty

/-- The indentation of the innermost block, `-1` when there is none. -/
def indent (s : Scanner) : Int :=
  match s.indents with
  | [] => -1
  | n :: _ => n

/-- Appends a token. -/
def push (s : Scanner) (t : Token) : Scanner :=
  { s with tokens := t :: s.tokens }

/-- Puts a token behind the first `position` ones. -/
def insertAt (s : Scanner) (position : Nat) (t : Token) : Scanner :=
  let newer := s.tokens.length - position
  { s with tokens := s.tokens.take newer ++ t :: s.tokens.drop newer }

/-- Gives up the candidate; one that is required cannot be given up. -/
def dropCandidate (s : Scanner) : Option Scanner :=
  match s.candidate with
  | none => some s
  | some k => if k.required then none else some { s with candidate := none }

/-- Notes that the next token may start a key. -/
def noteCandidate (s : Scanner) : Option Scanner :=
  if !s.keyAllowed then some s
  else
    let c := s.cursor
    let required := !s.inFlow && s.indent = c.column
    s.dropCandidate.map fun s =>
      { s with candidate := some ⟨s.tokens.length, required, c.line, c.column, c.index⟩ }

/-- Opens a block at a column if it is further right than the innermost one; the token goes behind
the first `position` ones. -/
def openBlock (s : Scanner) (column position : Nat) (t : Token) : Scanner :=
  if s.inFlow || s.indent ≥ column then s
  else { s.insertAt position t with indents := column :: s.indents }

/-- Closes the blocks right of a column. -/
def closeBlocks (s : Scanner) (column : Int) : Scanner :=
  if s.inFlow then s
  else
    let closed := s.indents.takeWhile (fun n => decide (column < Int.ofNat n))
    { s with
      tokens := List.replicate closed.length .blockEnd ++ s.tokens
      indents := s.indents.drop closed.length }

/-- Passes over comment lines that follow a comment, together with the blank lines between. -/
def skipMoreComments : (fuel : Nat) → (c : Cursor) → Cursor
  | 0, c => c
  | fuel + 1, c =>
    let (_, next) := takeGap 0 (c.rest.length + 1) .none c
    if next.rest.head? = some '#' then skipMoreComments fuel next.skipLine else c

/-- Whether the latest token has a line that goes on: a dash has none of its own, and a scalar after
which a key may start has left its line. -/
def isWithinLine (s : Scanner) : Bool :=
  match s.tokens.head? with
  | some .blockEntry => false
  | some (.scalar _ _) => !s.keyAllowed
  | _ => true

/-- Passes over a comment at the end of the line of the latest token. -/
def skipLineComment (s : Scanner) : Scanner :=
  let next := s.cursor.skipWhile isBlank
  if s.isWithinLine && next.rest.head? = some '#' then { s with cursor := next.skipLine } else s

/-- Passes over blanks, comments and line breaks.  A tab is a blank only where no key may start. -/
def toNextToken : (fuel : Nat) → (s : Scanner) → Scanner
  | 0, s => s
  | fuel + 1, s =>
    let c := s.cursor.skipWhile
      (fun b => b = ' ' || (b = '\t' && (s.inFlow || !s.keyAllowed)))
    let c :=
      if c.rest.head? = some '#' then skipMoreComments (c.rest.length + 1) c.skipLine else c
    if c.rest.head?.any isBreak then
      toNextToken fuel { s with cursor := c.skipBreak, keyAllowed := s.keyAllowed || !s.inFlow }
    else { s with cursor := c }

/-- A mark between documents. -/
def documentMark (s : Scanner) : Option Scanner :=
  let t : Token := if s.cursor.rest.head? = some '-' then .documentStart else .documentEnd
  (s.closeBlocks (-1)).dropCandidate.map fun s =>
    { s.push t with keyAllowed := false, cursor := s.cursor.skipMany 3 }

/-- An opening bracket. -/
def openFlow (s : Scanner) (t : Token) : Option Scanner :=
  s.noteCandidate.map fun s =>
    { s.push t with
      outer := s.candidate :: s.outer
      candidate := none
      keyAllowed := true
      cursor := s.cursor.skip }

/-- A closing bracket. -/
def closeFlow (s : Scanner) (t : Token) : Option Scanner :=
  s.dropCandidate.map fun s =>
    { s.push t with
      candidate := s.outer.head?.getD s.candidate
      outer := s.outer.drop 1
      keyAllowed := false
      cursor := s.cursor.skip }

/-- A comma. -/
def flowComma (s : Scanner) : Option Scanner :=
  s.dropCandidate.map fun s =>
    { s.push .flowEntry with keyAllowed := true, cursor := s.cursor.skip }

/-- The dash in front of an item. -/
def dash (s : Scanner) : Option Scanner :=
  if !s.inFlow && !s.keyAllowed then none
  else
    (s.openBlock s.cursor.column s.tokens.length .blockSequence).dropCandidate.map fun s =>
      { s.push .blockEntry with keyAllowed := true, cursor := s.cursor.skip }

/-- The question mark in front of a key. -/
def questionMark (s : Scanner) : Option Scanner :=
  if !s.inFlow && !s.keyAllowed then none
  else
    (s.openBlock s.cursor.column s.tokens.length .blockMapping).dropCandidate.map fun s =>
      { s.push .key with keyAllowed := !s.inFlow, cursor := s.cursor.skip }

/-- The candidate, if it can still be a key: it starts on this line and not too far in front.  A
required one that cannot is malformed. -/
def validCandidate (s : Scanner) : Option (Option Candidate) :=
  match s.candidate with
  | none => some none
  | some k =>
    if k.line = s.cursor.line && s.cursor.index ≤ k.index + 1024 then some (some k)
    else if k.required then none
    else some none

/-- The colon between a key and its value. -/
def colon (s : Scanner) : Option Scanner :=
  s.validCandidate.bind fun candidate =>
    match candidate with
    | some k =>
      let s := (s.insertAt k.position .key).openBlock k.column k.position .blockMapping
      some { s.push .value with
        candidate := none
        keyAllowed := false
        cursor := s.cursor.skip }
    | none =>
      if !s.inFlow && !s.keyAllowed then none
      else
        let s := s.openBlock s.cursor.column s.tokens.length .blockMapping
        some { s.push .value with
          candidate := none
          keyAllowed := !s.inFlow
          cursor := s.cursor.skip }

/-- A scalar between quotes. -/
def quoted (s : Scanner) (single : Bool) : Option Scanner :=
  s.noteCandidate.bind fun s =>
    (takeQuoted single (s.cursor.rest.length + 1) [] s.cursor.skip).map fun (text, c) =>
      { s.push (.scalar text false) with keyAllowed := false, cursor := c }

/-- A block scalar. -/
def block (s : Scanner) (literal : Bool) : Option Scanner :=
  s.dropCandidate.bind fun s =>
    (takeBlock literal s.indent s.cursor.skip).map fun (text, c) =>
      { s.push (.scalar text false) with keyAllowed := true, cursor := c }

/-- A plain scalar. -/
def plain (s : Scanner) : Option Scanner :=
  s.noteCandidate.bind fun s =>
    (takePlain s.inFlow (s.indent + 1).toNat (s.cursor.rest.length + 1) [] .none s.cursor).map
      fun (text, newLine, c) =>
        { s.push (.scalar text true) with keyAllowed := newLine, cursor := c }

/-- Whether a plain scalar may start with a character. -/
def startsPlain (s : Scanner) (b : Char) : Bool :=
  let indicators :=
    ['-', '?', ':', ',', '[', ']', '\x7b', '\x7d', '#', '&', '*', '!', '|', '>', '\'', '"', '%',
      '@', '\x60']
  !(isBlank b || isBreak b || indicators.contains b)
    || (b = '-' && !(s.cursor.rest.drop 1).head?.any isBlank)
    || (!s.inFlow && (b = '?' || b = ':') && !s.cursor.isEndAt 1)

/-- The token that starts with a character. -/
def dispatch (s : Scanner) (b : Char) : Option Scanner :=
  let c := s.cursor
  if c.isDocumentMark then s.documentMark
  else if b = '[' then s.openFlow .flowSequence
  else if b = '\x7b' then s.openFlow .flowMapping
  else if b = ']' then s.closeFlow .flowSequenceEnd
  else if b = '\x7d' then s.closeFlow .flowMappingEnd
  else if b = ',' then s.flowComma
  else if b = '-' && c.isEndAt 1 then s.dash
  else if b = '?' && (s.inFlow || c.isEndAt 1) then s.questionMark
  else if b = ':' && (s.inFlow || c.isEndAt 1) then s.colon
  else if b = '|' && !s.inFlow then s.block true
  else if b = '>' && !s.inFlow then s.block false
  else if b = '\'' then s.quoted true
  else if b = '"' then s.quoted false
  else if s.startsPlain b then s.plain
  else none

/-- The end of the text. -/
def finish (s : Scanner) : Option Scanner :=
  (s.closeBlocks (-1)).dropCandidate.map (·.push .streamEnd)

/-- Reads all tokens.  After a fault the two latest tokens are withheld, because a token counts only
once the two behind it have been read. -/
def run : (fuel : Nat) → (s : Scanner) → List Token
  | 0, s => (s.tokens.drop 2).reverse
  | fuel + 1, s =>
    let s := toNextToken (s.cursor.rest.length + 1) s
    let ready := s.closeBlocks s.cursor.column
    match s.cursor.rest with
    | [] =>
      match s.finish with
      | some s => s.tokens.reverse
      | none => (s.tokens.drop 2).reverse
    | b :: _ =>
      match ready.dispatch b with
      | some next => run fuel next.skipLineComment
      | none => (ready.tokens.drop 2).reverse

end Scanner

/-- The tokens of a text. -/
def Token.scan (cs : List Char) : List Token :=
  Scanner.run (cs.length + 1) (.start cs)

end Yaml
end Reckon
