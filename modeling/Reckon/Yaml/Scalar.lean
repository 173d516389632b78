import Reckon.Yaml.Cursor

/-!
# Scalars of a YAML text

The four ways to write a text: plain, between single quotes, between double quotes, and as a block of
indented lines.  Each reader starts at the first character of the scalar and gives the text and the
place behind it, or nothing when the scalar is malformed.
-/

namespace Reckon
namespace Yaml

/-! ## Quoted scalars -/

/-- The number spelled by `count` hexadecimal digits and the rest. -/
def takeHex (count : Nat) (cs : List Char) : Option Nat :=
  let digits := (cs.take count).filterMap fun c =>
    if c.toNat < 0x80 then Bytes.hexValue? (Bytes.ofAscii c) else none
  if digits.length = count then some (digits.foldl (fun n d => 16 * n + d) 0) else none

/-- The character of a code point, unless it is a surrogate or too large. -/
def scalarOf? (n : Nat) : Option Char :=
  if n < 0xD800 || (0xE000 ≤ n && n < 0x110000) then some (Char.ofNat n) else none

/-- The character that a letter after a backslash stands for. -/
def escaped? (c : Char) : Option Nat :=
  match c with
  | '0' => some 0x00
  | 'a' => some 0x07
  | 'b' => some 0x08
  | 't' | '\t' => some 0x09
  | 'n' => some 0x0A
  | 'v' => some 0x0B
  | 'f' => some 0x0C
  | 'r' => some 0x0D
  | 'e' => some 0x1B
  | ' ' => some 0x20
  | '"' => some 0x22
  | '\'' => some 0x27
  | '/' => some 0x2F
  | '\\' => some 0x5C
  | 'N' => some 0x85
  | '_' => some 0xA0
  | 'L' => some 0x2028
  | 'P' => some 0x2029
  | _ => none

/-- The length of the hexadecimal escape that a letter opens. -/
def hexLength? (c : Char) : Option Nat :=
  match c with
  | 'x' => some 2
  | 'u' => some 4
  | 'U' => some 8
  | _ => none

/-- The character of an escape at a backslash and the number of characters that spell it. -/
def takeEscape (cs : List Char) : Option (Char × Nat) :=
  match cs with
  | '\\' :: c :: rest =>
    match hexLength? c with
    | some n => (takeHex n rest).bind fun code => (scalarOf? code).map fun c => (c, n + 2)
    | none => (escaped? c).map fun code => (Char.ofNat code, 2)
  | _ => none

/-- A scalar between quotes after the opening one; `done` holds what was read, in reverse. -/
def takeQuoted (single : Bool) : (fuel : Nat) → (done : List Char) → (c : Cursor) →
    Option (List Char × Cursor)
  | 0, _, _ => none
  | fuel + 1, done, c =>
    if c.isDocumentMark then none
    else match c.rest with
    | [] => none
    | b :: rest =>
      if single && b = '\'' then
        if rest.head? = some '\'' then takeQuoted single fuel ('\'' :: done) (c.skipMany 2)
        else some (done.reverse, c.skip)
      else if !single && b = '"' then some (done.reverse, c.skip)
      else if !single && b = '\\' then
        if rest.head?.any isBreak then
          let (gap, c) := takeGap 0 (rest.length + 1) .none c.skip.skipBreak
          takeQuoted single fuel (gap.breaks.reverse ++ done) c
        else
          (takeEscape (b :: rest)).bind fun (e, n) =>
            takeQuoted single fuel (e :: done) (c.skipMany n)
      else if isBlank b || isBreak b then
        let (gap, c) := takeGap 0 (rest.length + 2) .none c
        takeQuoted single fuel (gap.fold.reverse ++ done) c
      else takeQuoted single fuel (b :: done) c.skip

/-! ## Plain scalars -/

/-- Whether a plain scalar ends in front of a character because of its meaning: a colon at the end of
a word, or, inside brackets, one of the characters of the bracket notation. -/
def endsPlain (inFlow : Bool) (b : Char) (rest : List Char) : Bool :=
  (b = ':' && (rest.isEmpty || rest.head?.any (fun d => isBlank d || isBreak d)))
    || (inFlow && [',', '?', '[', ']', '\x7b', '\x7d'].contains b)

/-- A word of a plain scalar, in reverse, and the rest. -/
def takeWord (inFlow : Bool) (done : List Char) : List Char → List Char × List Char
  | [] => (done, [])
  | b :: rest =>
    if isBlank b || isBreak b || endsPlain inFlow b rest then (done, b :: rest)
    else takeWord inFlow (b :: done) rest

/-- A plain scalar: words with gaps between them.  `gap` is the gap in front of the next word.  Besides
the text and the place, it says whether the scalar ended at a new line. -/
def takePlain (inFlow : Bool) (indent : Nat) : (fuel : Nat) → (done : List Char) → (gap : Gap) →
    (c : Cursor) → Option (List Char × Bool × Cursor)
  | 0, _, _, _ => none
  | fuel + 1, done, gap, c =>
    let stop : Option (List Char × Bool × Cursor) := some (done.reverse, !gap.breaks.isEmpty, c)
    if c.isDocumentMark || c.rest.head? = some '#' then stop
    else
      let (word, rest) := takeWord inFlow [] c.rest
      if word.isEmpty then stop
      else
        let after := c.skipMany (c.rest.length - rest.length)
        let done := word ++ gap.fold.reverse ++ done
        if !(rest.head?.any fun b => isBlank b || isBreak b) then
          some (done.reverse, false, after)
        else
          let (gap, after) := takeGap indent (rest.length + 1) .none after
          if gap.outdentedTab then none
          else if !inFlow && after.column < indent then
            some (done.reverse, !gap.breaks.isEmpty, after)
          else takePlain inFlow indent fuel done gap after

/-! ## Block scalars -/

/-- What becomes of the line breaks at the end of a block. -/
inductive Chomping where
  | strip | clip | keep
  deriving DecidableEq, Repr

/-- The chomping that a sign asks for. -/
def chomping? (c : Char) : Option Chomping :=
  match c with
  | '+' => some .keep
  | '-' => some .strip
  | _ => none

/-- The indicators after the mark of a block: chomping and indentation, in either order.  An indentation
of zero is malformed. -/
def takeIndicators (c : Cursor) : Option (Chomping × Nat × Cursor) :=
  let digit? (c : Cursor) : Option Nat :=
    (c.rest.head?.filter Char.isDigit).map fun d => d.toNat - 0x30
  let sign? (c : Cursor) : Option Chomping := c.rest.head?.bind chomping?
  match sign? c with
  | some chomping =>
    match digit? c.skip with
    | some 0 => none
    | some n => some (chomping, n, c.skip.skip)
    | none => some (chomping, 0, c.skip)
  | none =>
    match digit? c with
    | some 0 => none
    | some n =>
      match sign? c.skip with
      | some chomping => some (chomping, n, c.skip.skip)
      | none => some (.clip, n, c.skip)
    | none => some (.clip, 0, c)

/-- Empty lines in front of the next line of a block: their line breaks, the widest indentation seen,
and the place after the indentation of the next line.  `indent` is zero as long as it is not known. -/
def takeEmptyLines (indent : Nat) : (fuel : Nat) → (breaks : List Char) → (widest : Nat) →
    (c : Cursor) → Option (List Char × Nat × Cursor)
  | 0, _, _, _ => none
  | fuel + 1, breaks, widest, c =>
    let spaces := (c.rest.takeWhile (· = ' ')).length
    let c := c.skipMany (if indent = 0 then spaces else min spaces (indent - c.column))
    let widest := max widest c.column
    match c.rest with
    | [] => some (breaks, widest, c)
    | b :: _ =>
      if b = '\t' && (indent = 0 || c.column < indent) then none
      else if isBreak b then
        let (kept, c) := c.takeBreak
        takeEmptyLines indent fuel (breaks ++ kept) widest c
      else some (breaks, widest, c)

/-- The lines of a block with indentation `indent`.  `lead` is the break of the line before and `breaks`
those of the empty lines after it; `blankLine` tells whether the line before starts with a blank. -/
def takeBlockLines (literal : Bool) (indent : Nat) : (fuel : Nat) → (done : List Char) →
    (lead breaks : List Char) → (blankLine : Bool) → (c : Cursor) →
    Option (List Char × List Char × List Char × Cursor)
  | 0, _, _, _, _, _ => none
  | fuel + 1, done, lead, breaks, blankLine, c =>
    match c.rest with
    | [] => some (done, lead, breaks, c)
    | b :: rest =>
      if c.column != indent then some (done, lead, breaks, c)
      else
        let blank := isBlank b
        let joint :=
          if !literal && !blankLine && !blank && lead = ['\n'] then
            if breaks.isEmpty then [' '] else breaks
          else lead ++ breaks
        let (text, c) := c.takeWhile (fun b => !isBreak b)
        let (lead, c) := c.takeBreak
        (takeEmptyLines indent (rest.length + 2) [] 0 c).bind fun (breaks, _, c) =>
          takeBlockLines literal indent fuel
            (text.reverse ++ joint.reverse ++ done) lead breaks blank c

/-- A block after its mark.  `parent` is the indentation of the surrounding block, `-1` at the top. -/
def takeBlock (literal : Bool) (parent : Int) (c : Cursor) : Option (List Char × Cursor) :=
  (takeIndicators c).bind fun (chomping, increment, c) =>
    let c := c.skipWhile isBlank
    let c := if c.rest.head? = some '#' then c.skipLine else c
    if c.rest.head?.any (fun b => !isBreak b) then none
    else
      let c := c.skipBreak
      let size := c.rest.length + 2
      let given := if increment = 0 then 0 else parent.toNat + increment
      (takeEmptyLines given size [] 0 c).bind fun (breaks, widest, c) =>
        let indent := if given = 0 then max widest (max (parent + 1).toNat 1) else given
        (takeBlockLines literal indent size [] [] breaks false c).map
          fun (done, lead, breaks, c) =>
            let tail : List Char :=
              match chomping with
              | .strip => []
              | .clip => lead
              | .keep => lead ++ breaks
            (done.reverse ++ tail, c)

end Yaml
end Reckon
