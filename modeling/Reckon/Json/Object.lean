import Reckon.Json.Text

/-!
# Objects in JSON

Objects are written from fields whose values are already written.  Those that are read have fields that
are strings or `null`; an object with any other value is not accepted.
-/

namespace Reckon
namespace Json

/-- A field: its name as a string, a colon, and its value. -/
def member (field : Bytes × Bytes) : Bytes :=
  ofText field.1 ++ 0x3A :: field.2

/-- An object of fields whose values are already written. -/
def object (fields : List (Bytes × Bytes)) : Bytes :=
  0x7B :: Bytes.join [0x2C] (fields.map member) ++ [0x7D]

/-- Whether a byte is white space between tokens. -/
def isSpace (b : UInt8) : Bool :=
  b = 0x20 || b = 0x09 || b = 0x0A || b = 0x0D

/-- The text after the white space at its start. -/
def skipSpace (s : Bytes) : Bytes :=
  s.dropWhile isSpace

/-- A string or `null` at the start of a text, and the rest. -/
def takeValue (s : Bytes) : Option (Option Bytes × Bytes) :=
  match Bytes.dropLeading? "null" s with
  | some rest => some (none, rest)
  | none => (takeString s).map fun (text, rest) => (some text, rest)

/-- A field at the start of a text, and the rest. -/
def takeMember (s : Bytes) : Option ((Bytes × Option Bytes) × Bytes) :=
  (takeString s).bind fun (name, s) =>
    match skipSpace s with
    | 0x3A :: rest => (takeValue (skipSpace rest)).map fun (v, s) => ((name, v), s)
    | _ => none

/-- Fields with commas between them up to the closing brace. -/
def takeMembers : (fuel : Nat) → (s : Bytes) → Option (List (Bytes × Option Bytes))
  | 0, _ => none
  | fuel + 1, s =>
    (takeMember s).bind fun (field, s) =>
      match skipSpace s with
      | 0x2C :: rest => (takeMembers fuel (skipSpace rest)).map (field :: ·)
      | 0x7D :: _ => some [field]
      | _ => none

/-- The fields of the object at the start of a text; `null` stands for an object without fields. -/
def readObject? (s : Bytes) : Option (List (Bytes × Option Bytes)) :=
  match skipSpace s with
  | 0x7B :: rest =>
    match skipSpace rest with
    | 0x7D :: _ => some []
    | body => takeMembers (body.length + 1) body
  | s => if Bytes.startsWith s "null" then some [] else none

end Json
end Reckon
