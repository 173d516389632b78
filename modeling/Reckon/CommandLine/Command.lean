import Reckon.CommandLine.Flag
import Reckon.Text.LowerCase

/-!
# Commands

The first word of the command line that is neither a flag nor the value of one names the command.  For
an unknown name those that are nearly the same are suggested.
-/

namespace Reckon
namespace CommandLine

/-- What the command line can do. -/
inductive Command where
  | completion
  | eval
  | help
  | repl
  | serve
  | tokens
  | version
  deriving DecidableEq, Repr

namespace Command

/-- The commands in the order of their names. -/
def all : List Command :=
  [.completion, .eval, .help, .repl, .serve, .tokens, .version]

/-- The name of a command. -/
def name : Command → Bytes
  | .completion => "completion"
  | .eval => "eval"
  | .help => "help"
  | .repl => "repl"
  | .serve => "serve"
  | .tokens => "tokens"
  | .version => "version"

/-- The command of a name. -/
def named? (s : Bytes) : Option Command :=
  all.find? (·.name = s)

/-- The flags that every command has. -/
def sharedFlags : List Flag := [
  { name := "config", kind := .text },
  { name := "verbose", kind := .switch, letter := some 0x76 },
  { name := "permissive", kind := .switch },
  { name := "precision", kind := .unsigned },
  { name := "format", kind := .text }]

/-- The flag that asks for help. -/
def helpFlag : Flag :=
  { name := "help", kind := .switch, letter := some 0x68 }

/-- The flags of a command besides those that every command has. -/
def ownFlags : Command → List Flag
  | .eval => [{ name := "ast", kind := .switch }, { name := "tokens", kind := .switch }]
  | .repl => [{ name := "plain", kind := .switch }]
  | .serve => [{ name := "addr", kind := .text }]
  | _ => []

end Command

/-! ## Finding the command -/

/-- Whether a word is a flag whose value is the next word.  An unknown flag counts as one. -/
def takesNext (flags : List Flag) (word : Bytes) : Bool :=
  if word.contains equals then false
  else if Bytes.startsWith word terminator then
    !(flags.any fun f => f.name = word.drop 2 && f.kind = .switch)
  else
    word.length = 2 && word.head? = some dash
      && !(flags.any fun f => f.letter = (word.drop 1).head? && f.kind = .switch)

/-- Whether a word is neither empty nor a flag. -/
def isPlain (word : Bytes) : Bool :=
  !word.isEmpty && word.head? != some dash

/-- The words that are neither flags nor the values of flags.  When at most one word follows a flag
that takes a value, none is left to look at. -/
def plainWords (flags : List Flag) : List Bytes → List Bytes
  | [] => []
  | [word] => if isPlain word then [word] else []
  | [word, next] =>
    if word = terminator || takesNext flags word then []
    else
      (if isPlain word then [word] else []) ++ plainWords flags [next]
  | word :: next :: third :: rest =>
    if word = terminator then []
    else if takesNext flags word then plainWords flags (third :: rest)
    else (if isPlain word then [word] else []) ++ plainWords flags (next :: third :: rest)

/-- The words without the first occurrence of a plain one. -/
def dropPlain (flags : List Flag) (name : Bytes) : List Bytes → List Bytes
  | [] => []
  | [word] => if word = name then [] else [word]
  | word :: next :: rest =>
    if word = terminator then word :: next :: rest
    else if takesNext flags word then word :: next :: dropPlain flags name rest
    else if word = name then next :: rest
    else word :: dropPlain flags name (next :: rest)

/-- What a command line asks for. -/
inductive Target where
  /-- No command is named. -/
  | none (words : List Bytes)
  | command (c : Command) (words : List Bytes)
  | unknown (name : Bytes)
  deriving DecidableEq, Repr

/-- The command of a command line and the words for it. -/
def findCommand (words : List Bytes) : Target :=
  match plainWords Command.sharedFlags words with
  | [] => .none words
  | name :: _ =>
    match Command.named? name with
    | some c => .command c (dropPlain Command.sharedFlags name words)
    | none => .unknown name

/-! ## Suggestions -/

/-- The next row of the table of edit distances: `above` is the row of the word in front, `left` the
entry just written and `diagonal` the one above it. -/
def editRow (a : UInt8) : (left diagonal : Nat) → Bytes → List Nat → List Nat
  | left, diagonal, b :: bs, up :: above =>
    let here := if a = b then diagonal else 1 + min left (min up diagonal)
    here :: editRow a here up bs above
  | _, _, _, _ => []

/-- The number of insertions, deletions and replacements that lead from one word to another. -/
def editDistance (s t : Bytes) : Nat :=
  let first := List.range (t.length + 1)
  let last := s.foldl
    (fun row a =>
      match row with
      | top :: above => (top + 1) :: editRow a (top + 1) top t above
      | [] => [])
    first
  last.getLast?.getD 0

/-- Whether a command is suggested for an unknown name: it is at most two edits away or starts with
the name. -/
def isSuggested (typed : Bytes) (c : Command) : Bool :=
  let typed := lowerText typed
  c != .help && (editDistance typed c.name ≤ 2 || Bytes.startsWith c.name typed)

/-- The commands suggested for an unknown name. -/
def suggestions (typed : Bytes) : List Command :=
  Command.all.filter (isSuggested typed)

/-- The name of the program. -/
def programName : Bytes :=
  "pemdas"

/-- The message of an unknown command. -/
def unknownMessage (typed : Bytes) : Bytes :=
  let found := suggestions typed
  let names : Bytes := found.flatMap fun c => 0x09 :: c.name ++ [0x0A]
  let hint : Bytes := if found.isEmpty then [] else "\n\nDid you mean this?\n" ++ names
  "unknown command " ++ Quoted.text typed ++ " for " ++ Quoted.text programName ++ hint

end CommandLine
end Reckon
