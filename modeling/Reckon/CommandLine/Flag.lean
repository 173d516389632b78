import Reckon.Settings.Environment

/-!
# Flags of the command line

A flag is written `--name value` or `--name=value`.  A switch may stand without a value, and one with a
letter may be written `-x`, also several in a row.  Flags and arguments may come in any order; after
`--` there are only arguments.
-/

namespace Reckon
namespace CommandLine

/-- The kind of value a flag takes. -/
inductive FlagKind where
  | switch
  | unsigned
  | text
  deriving DecidableEq, Repr

/-- A flag.  Only switches have a letter. -/
structure Flag where
  name : Bytes
  kind : FlagKind
  letter : Option UInt8 := none
  deriving DecidableEq, Repr

/-- The value given to a flag. -/
inductive FlagValue where
  | switch (on : Bool)
  | unsigned (n : Nat)
  | text (s : Bytes)
  deriving DecidableEq, Repr

/-- What is wrong with flags. -/
inductive FlagError where
  | malformed (word : Bytes)
  | unknown (name : Bytes)
  | unknownLetter (letter : UInt8) (word : Bytes)
  | missingValue (word : Bytes)
  | badValue (value : Bytes) (flag : Flag) (fault : ValueFault)
  deriving DecidableEq, Repr

/-- The dash. -/
def dash : UInt8 :=
  0x2D

/-- The equals sign. -/
def equals : UInt8 :=
  0x3D

/-- The word after which there are only arguments. -/
def terminator : Bytes :=
  [dash, dash]

/-- A flag as it is named in messages. -/
def Flag.shown (f : Flag) : Bytes :=
  match f.letter with
  | some c => dash :: c :: ", --" ++ f.name
  | none => terminator ++ f.name

/-- The message of an error. -/
def FlagError.message : FlagError → Bytes
  | .malformed word => "bad flag syntax: " ++ word
  | .unknown name => "unknown flag: --" ++ name
  | .unknownLetter c word =>
    "unknown shorthand flag: " ++ Quoted.char (Char.ofNat c.toNat) ++ " in -" ++ word
  | .missingValue word => "flag needs an argument: " ++ word
  | .badValue value flag fault =>
    "invalid argument " ++ Quoted.text value ++ " for " ++ Quoted.text flag.shown ++ " flag: "
      ++ fault.message

/-- Reads the value of a flag. -/
def FlagKind.read (kind : FlagKind) (value : Bytes) : Except ValueFault FlagValue :=
  match kind with
  | .switch => (Settings.readTruth value).map .switch
  | .unsigned =>
    ((Integer.ofAnyBase Integer.maxUnsigned value).mapError (.unsigned value)).map .unsigned
  | .text => .ok (.text value)

/-- The flags that were set, the latest first, and the arguments. -/
structure Parsed where
  values : List (Bytes × FlagValue)
  args : List Bytes
  deriving DecidableEq, Repr

namespace Parsed

/-- No flags and no arguments. -/
def empty : Parsed :=
  ⟨[], []⟩

/-- The value of a flag, if it was set. -/
def get? (p : Parsed) (name : Bytes) : Option FlagValue :=
  (p.values.find? (·.1 = name)).map (·.2)

/-- Whether a switch is on. -/
def isOn (p : Parsed) (name : Bytes) : Bool :=
  match p.get? name with
  | some (.switch on) => on
  | _ => false

/-- The text of a flag, if it was set. -/
def text? (p : Parsed) (name : Bytes) : Option Bytes :=
  match p.get? name with
  | some (.text s) => some s
  | _ => none

/-- Sets a flag. -/
def set (p : Parsed) (flag : Flag) (value : Bytes) : Except FlagError Parsed :=
  match flag.kind.read value with
  | .ok v => .ok { p with values := (flag.name, v) :: p.values }
  | .error fault => .error (.badValue value flag fault)

/-- Appends an argument. -/
def push (p : Parsed) (arg : Bytes) : Parsed :=
  { p with args := p.args ++ [arg] }

end Parsed

/-- The value of a switch that stands alone. -/
def switchedOn : Bytes :=
  "true"

/-- Letters that are passed over with all that follows them. -/
def ignoredLetters : Bytes :=
  "test."

/-- Sets the switches of a word of letters, given without its dash. -/
def parseLetters (flags : List Flag) (p : Parsed) : Bytes → Except FlagError Parsed
  | [] => .ok p
  | c :: rest =>
    if Bytes.startsWith (c :: rest) ignoredLetters then .ok p
    else match flags.find? (·.letter = some c) with
      | none => .error (.unknownLetter c (c :: rest))
      | some flag =>
        match rest with
        | 0x3D :: v :: value => p.set flag (v :: value)
        | _ =>
          match p.set flag switchedOn with
          | .error e => .error e
          | .ok p => parseLetters flags p rest

/-- A flag found in a word and the value given with it. -/
structure LongWord where
  flag : Flag
  value : Option Bytes

/-- The flag of a word with two dashes, and the value after its equals sign. -/
def longWord (flags : List Flag) (word : Bytes) : Except FlagError LongWord :=
  let body := word.drop 2
  if body.head? = some dash || body.head? = some equals then .error (.malformed word)
  else
    let name := body.takeWhile (· != equals)
    match flags.find? (·.name = name) with
    | none => .error (.unknown name)
    | some flag =>
      .ok ⟨flag, if name.length = body.length then none else some (body.drop (name.length + 1))⟩

/-- Parses words into flags and arguments. -/
def parseFlags (flags : List Flag) (p : Parsed) : List Bytes → Except FlagError Parsed
  | [] => .ok p
  | word :: rest =>
    if word.head? != some dash || word.length = 1 then parseFlags flags (p.push word) rest
    else if word = terminator then .ok { p with args := p.args ++ rest }
    else if Bytes.startsWith word terminator then
      match longWord flags word with
      | .error e => .error e
      | .ok ⟨flag, some value⟩ =>
        match p.set flag value with
        | .error e => .error e
        | .ok p => parseFlags flags p rest
      | .ok ⟨flag, none⟩ =>
        if flag.kind = .switch then
          match p.set flag switchedOn with
          | .error e => .error e
          | .ok p => parseFlags flags p rest
        else match rest with
          | [] => .error (.missingValue word)
          | value :: rest =>
            match p.set flag value with
            | .error e => .error e
            | .ok p => parseFlags flags p rest
    else
      match parseLetters flags p (word.drop 1) with
      | .error e => .error e
      | .ok p => parseFlags flags p rest

end CommandLine
end Reckon
