import Reckon.Toml.Value

/-!
# TOML documents

A document is a list of lines that open tables and set keys.  Reading one keeps every key under its
full path and the order in which the keys were written.  A table that only came into being as the
parent of another may still be opened once; any other key may be set once.
-/

namespace Reckon
namespace Toml

/-- The names that lead from the top of a document to a key. -/
abbrev Path := List Bytes

/-- What a path leads to. -/
inductive Node where
  | table
  /-- A list of tables, of which the latest is being written. -/
  | tables
  | leaf (v : Value)
  deriving DecidableEq, Repr

/-- A document read so far. -/
structure Document where
  /-- Every path and what it leads to. -/
  entries : List (Path × Node)
  /-- The tables that no line has opened yet. -/
  implied : List Path
  /-- The keys in the order of their lines, the latest first. -/
  written : List Path

namespace Document

/-- The empty document. -/
def empty : Document :=
  ⟨[], [], []⟩

/-- What a path leads to. -/
def get? (d : Document) (p : Path) : Option Node :=
  (d.entries.find? (·.1 = p)).map (·.2)

/-- The keys in the order of their lines. -/
def order (d : Document) : List Path :=
  d.written.reverse

/-- Adds an entry. -/
def insert (d : Document) (p : Path) (n : Node) : Document :=
  { d with entries := (p, n) :: d.entries }

/-- Notes that a line named a key. -/
def note (d : Document) (p : Path) : Document :=
  { d with written := p :: d.written }

/-- The paths from the first name of a path to its last but one. -/
def parents (p : Path) : List Path :=
  (List.range (p.length - 1)).map fun i => p.take (i + 1)

/-- Makes sure that the parents of a path are tables; missing ones are implied. -/
def ensureParents (d : Document) (p : Path) : Option Document :=
  (parents p).foldlM
    (fun d q =>
      match d.get? q with
      | none => some { d.insert q .table with implied := q :: d.implied }
      | some (.leaf _) => none
      | some _ => some d)
    d

/-- Sets a path whose parents are tables.  Of the paths already set only an implied table may be
given again. -/
def set (d : Document) (p : Path) (n : Node) : Option Document :=
  match d.get? p with
  | none => some (d.insert p n)
  | some _ =>
    if d.implied.contains p && n = .table then
      some { d with implied := d.implied.erase p }
    else none

/-- Opens a table. -/
def openTable (d : Document) (p : Path) : Option Document :=
  (d.ensureParents p).bind fun d => (d.set p .table).map (·.note p)

/-- Opens the next table of a list; the paths below the one before are forgotten. -/
def openTables (d : Document) (p : Path) : Option Document :=
  (d.ensureParents p).bind fun d =>
    match d.get? p with
    | none => some ((d.insert p .tables).note p)
    | some .tables =>
      let below (q : Path) : Bool := p.length < q.length && p = q.take p.length
      some ({ d with
        entries := d.entries.filter (fun e => !below e.1)
        implied := d.implied.filter (fun q => !below q) }.note p)
    | some _ => none

/-- The tables that a dotted key below `context` runs through.  Each is implied, or, if it was there
before, counts as opened. -/
def enterDotted (d : Document) (context : Path) (names : List Bytes) : Option Document :=
  (parents names).foldlM
    (fun d q =>
      let p := context ++ q
      match d.get? p with
      | none => some { d.insert p .table with implied := p :: d.implied }
      | some (.leaf _) => none
      | some _ => some { d with implied := d.implied.erase p })
    d

end Document

/-- Blanks, line breaks and comments between the items of an array. -/
def skipLines : (fuel : Nat) → (s : Bytes) → Bytes
  | 0, s => s
  | fuel + 1, s =>
    match s with
    | [] => []
    | b :: rest =>
      if isBlank b || b = 0x0A || b = 0x0D then skipLines fuel rest
      else if b = 0x23 then skipLines fuel (skipComment s)
      else s

mutual

/-- The value of the key at a path, which it sets in the document. -/
def takeValue (fuel : Nat) (d : Document) (p : Path) (s : Bytes) : Reading Document :=
  match fuel with
  | 0 => none
  | fuel + 1 =>
    match s with
    | 0x7B :: rest =>
      (d.set p .table).bind fun d => takeInline fuel d p (skipBlanks rest) true
    | s => (takeLeaf fuel s).bind fun (v, s) => (d.set p (.leaf v)).map fun d => (d, s)

/-- A value that is not an inline table. -/
def takeLeaf (fuel : Nat) (s : Bytes) : Reading Value :=
  match fuel with
  | 0 => none
  | fuel + 1 =>
    match s with
    | 0x5B :: rest => (takeItems fuel rest).map fun s => (.array, s)
    | 0x22 :: _ | 0x27 :: _ => (takeString s).map fun (text, s) => (.string text, s)
    | s => takeWord s

/-- The items of an array after its opening bracket, and the closing one. -/
def takeItems (fuel : Nat) (s : Bytes) : Option Bytes :=
  match fuel with
  | 0 => none
  | fuel + 1 =>
    match skipLines (s.length + 1) s with
    | 0x5D :: rest => some rest
    | s =>
      let item : Option Bytes :=
        match s with
        | 0x7B :: _ => (takeValue fuel .empty [[]] s).map (·.2)
        | s => (takeLeaf fuel s).map (·.2)
      item.bind fun s =>
        match skipLines (s.length + 1) s with
        | 0x2C :: rest => takeItems fuel rest
        | 0x5D :: rest => some rest
        | _ => none

/-- The keys of an inline table after its opening brace or a comma, and the closing brace.  An empty
table has no comma. -/
def takeInline (fuel : Nat) (d : Document) (context : Path) (s : Bytes) (first : Bool) :
    Reading Document :=
  match fuel with
  | 0 => none
  | fuel + 1 =>
    match s, first with
    | 0x7D :: rest, true => some (d, rest)
    | s, _ =>
      (takePair fuel d context s).bind fun (d, s) =>
        match skipBlanks s with
        | 0x2C :: rest => takeInline fuel d context (skipBlanks rest) false
        | 0x7D :: rest => some (d, rest)
        | _ => none

/-- A key, an equals sign and a value, below the path `context`. -/
def takePair (fuel : Nat) (d : Document) (context : Path) (s : Bytes) : Reading Document :=
  match fuel with
  | 0 => none
  | fuel + 1 =>
    (takeKey (s.length + 1) s).bind fun (names, s) =>
      match skipBlanks s with
      | 0x3D :: rest =>
        (d.enterDotted context names).bind fun d =>
          let p := context ++ names
          takeValue fuel (d.note p) p (skipBlanks rest)
      | _ => none

end

/-- The end of a line: blanks and a comment. -/
def endLine (s : Bytes) : Option Bytes :=
  match skipComment (skipBlanks s) with
  | [] => some []
  | rest => lineBreak? rest

/-- A line that opens a table or the next table of a list; gives the path of that table. -/
def takeHeader (d : Document) (s : Bytes) : Reading (Document × Path) :=
  match s with
  | 0x5B :: 0x5B :: s =>
    (takeKey (s.length + 1) s).bind fun (p, s) =>
      match s with
      | 0x5D :: 0x5D :: s => (d.openTables p).map fun d => ((d, p), s)
      | _ => none
  | 0x5B :: s =>
    (takeKey (s.length + 1) s).bind fun (p, s) =>
      match s with
      | 0x5D :: s => (d.openTable p).map fun d => ((d, p), s)
      | _ => none
  | _ => none

/-- The lines of a document, the keys being below the table opened last. -/
def takeLines : (fuel : Nat) → (d : Document) → (context : Path) → (s : Bytes) → Option Document
  | 0, _, _, _ => none
  | fuel + 1, d, context, s =>
    match skipBlanks s with
    | [] => some d
    | b :: rest =>
      match lineBreak? (b :: rest) with
      | some s => takeLines fuel d context s
      | none =>
        if b = 0x23 then takeLines fuel d context (skipComment (b :: rest))
        else if b = 0x5B then
          (takeHeader d (b :: rest)).bind fun ((d, p), s) =>
            (endLine s).bind fun s => takeLines fuel d p s
        else
          (takePair (2 * rest.length + 4) d context (b :: rest)).bind fun (d, s) =>
            (endLine s).bind fun s => takeLines fuel d context s

/-- Whether the control characters of a text are tabs and line breaks. -/
def hasPlainControls : Bytes → Bool
  | [] => true
  | 0x0D :: 0x0A :: s => hasPlainControls s
  | b :: s => (b = 0x09 || b = 0x0A || (0x20 ≤ b && b != 0x7F)) && hasPlainControls s

/-- A text without a byte order mark at its start. -/
def dropByteOrderMark : Bytes → Bytes
  | 0xEF :: 0xBB :: 0xBF :: s => s
  | s => s

/-- Reads a document; `none` when it is malformed. -/
def read? (s : Bytes) : Option Document :=
  let s := dropByteOrderMark s
  if Utf8.isValid s && hasPlainControls s then
    takeLines (s.length + 2) .empty [] s
  else none

/-- Characters that must be escaped in a quoted part of a path. -/
def quotePart (part : Bytes) : Bytes :=
  let escape (b : UInt8) : Bytes :=
    match b with
    | 0x22 => [0x5C, 0x22]
    | 0x5C => [0x5C, 0x5C]
    | 0x08 => [0x5C, 0x62]
    | 0x09 => [0x5C, 0x74]
    | 0x0A => [0x5C, 0x6E]
    | 0x0C => [0x5C, 0x66]
    | 0x0D => [0x5C, 0x72]
    | b =>
      if b < 0x20 || b = 0x7F then 0x5C :: 0x75 :: Bytes.hexOfNat 4 b.toNat else [b]
  0x22 :: part.flatMap escape ++ [0x22]

/-- A path as it is written: parts that are not bare are quoted. -/
def Path.render (p : Path) : Bytes :=
  Bytes.join [0x2E] (p.map fun part =>
    if part.isEmpty || !part.all isBare then quotePart part else part)

end Toml
end Reckon
