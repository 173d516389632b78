import Reckon.Settings.Field
import Reckon.Toml.Document

/-!
# Settings from a TOML document

Names of sections and fields may be written in any case.  The keys that belong to no field are passed
over, and told once every known field has been set.
-/

namespace Reckon
namespace Settings

/-- Sets a field from a value, if the value is of its kind.  A negative integer stands for the number
of 64 bits without a sign that is written alike. -/
def setFromToml (slot : Slot) (s : Settings) (v : Toml.Value) : Option Settings :=
  match slot, v with
  | .truth set, .boolean b => some (set s b)
  | .unsigned set, .integer n => some (set s (n % Int.pow 2 64).toNat)
  | .integer set, .integer n => some (set s n)
  | .text set, .string text => some (set s text)
  | .duration set, .string text => setDuration? set s text
  | .duration set, .integer n => setDuration? set s (Bytes.ofInt n)
  | _, _ => none

/-- What a path of a document is for. -/
inductive Target where
  | wholeSection
  | field (f : Field)
  | unknown

/-- What a path is for, its names in any case. -/
def targetOf (p : Toml.Path) : Target :=
  match p with
  | [first] =>
    match findSection? (matchesName · first) with
    | some _ => .wholeSection
    | none => .unknown
  | [first, second] =>
    match (findSection? (matchesName · first)).bind (findField? · (matchesName · second)) with
    | some f => .field f
    | none => .unknown
  | _ => .unknown

/-- Sets what an entry of a document sets. -/
def setEntry (s : Settings) (entry : Toml.Path × Toml.Node) : Option Settings :=
  match targetOf entry.1, entry.2 with
  | .unknown, _ => some s
  | .wholeSection, .table => some s
  | .wholeSection, _ => none
  | .field f, .leaf v => setFromToml f.slot s v
  | .field _, _ => none

/-- Whether a path is for nothing. -/
def isUnknown (p : Toml.Path) : Bool :=
  match targetOf p with
  | .unknown => true
  | _ => false

/-- Sets what a TOML text sets, and tells the keys that belong to no field; nothing when the text is
malformed. -/
def applyToml (s : Settings) (text : Bytes) : Option (Settings × List Bytes) :=
  (Toml.read? text).bind fun d =>
    (d.entries.reverse.foldlM setEntry s).map fun s =>
      (s, (d.order.filter isUnknown).map Toml.Path.render)

end Settings
end Reckon
