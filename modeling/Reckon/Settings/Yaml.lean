import Reckon.Settings.Field
import Reckon.Yaml.Meaning

/-!
# Settings from a YAML document

Names of sections and fields are written as they are.  Nothing (`null` or an empty value) leaves a
setting as it was.  Truth values have more spellings than elsewhere, and a real number may be given
for an integer, which takes its whole part.
-/

namespace Reckon
namespace Settings

/-- The whole part of a real number in 64 bits with a sign; one out of range becomes the least
number. -/
def wholePart (x : Float) : Int :=
  let least : Int := -(Int.pow 2 63)
  if Double.isFinite x then
    let n := Double.truncate x
    if least ≤ n && n < Int.pow 2 63 then n else least
  else least

/-- The whole part of a real number in 64 bits without a sign. -/
def wholePartUnsigned (x : Float) : Nat :=
  let half : Float := Double.ofInt (Int.pow 2 63)
  let n := if x < half then wholePart x else wholePart (x - half) + Int.pow 2 63
  (n % Int.pow 2 64).toNat

/-- The words for truth values besides the usual ones. -/
def truthWord? (text : Bytes) : Option Bool :=
  if [("y" : Bytes), "Y", "yes", "Yes", "YES", "on", "On", "ON"].contains text then some true
  else if [("n" : Bytes), "N", "no", "No", "NO", "off", "Off", "OFF"].contains text then
    some false
  else none

/-- Sets a field from a scalar, if the scalar can be read as a value of its kind. -/
def setFromScalar (slot : Slot) (s : Settings) (text : Bytes) (m : Yaml.Meaning) :
    Option Settings :=
  match slot, m with
  | _, .null => some s
  | .text set, _ => some (set s text)
  | .duration set, _ => setDuration? set s text
  | .truth set, .truth b => some (set s b)
  | .truth set, .text => (truthWord? text).map (set s)
  | .unsigned set, .integer n => if n < 0 then none else some (set s n.toNat)
  | .unsigned set, .real x =>
    if x ≤ Double.ofInt (Int.pow 2 64) then some (set s (wholePartUnsigned x)) else none
  | .integer set, .integer n => if n < Int.pow 2 63 then some (set s n) else none
  | .integer set, .real x =>
    if x ≤ Double.ofInt (Int.pow 2 63) then some (set s (wholePart x)) else none
  | _, _ => none

/-- The text that a mapping compares keys by: keys other than scalars all look alike. -/
def keyText : Yaml.Node → Nat × Bytes
  | .scalar text _ => (0, text)
  | .sequence _ => (1, [])
  | .mapping _ => (2, [])

/-- Whether no two keys of a mapping are the same. -/
def hasDistinctKeys : List (Yaml.Node × Yaml.Node) → Bool
  | [] => true
  | (k, _) :: rest =>
    !(rest.any fun e => keyText e.1 = keyText k) && hasDistinctKeys rest

/-- Sets what the entries of a mapping set, one by one; `set` handles the entry of a name.  An entry
whose key is nothing is passed over. -/
def setEntries (set : Settings → Bytes → Yaml.Node → Option Settings) (s : Settings)
    (entries : List (Yaml.Node × Yaml.Node)) : Option Settings :=
  if !hasDistinctKeys entries then none
  else
    entries.foldlM
      (fun s (k, v) =>
        match k with
        | .scalar text plain =>
          match Yaml.Meaning.ofScalar text plain with
          | .null => some s
          | _ => set s text v
        | _ => none)
      s

/-- Sets the duration of a field from a mapping, which names it once more. -/
def setNestedDuration (set : Settings → Duration → Settings) (s : Settings) (name : Bytes)
    (v : Yaml.Node) : Option Settings :=
  if name != ("duration" : Bytes) then none
  else match v with
    | .scalar text plain =>
      match Yaml.Meaning.ofScalar text plain with
      | .null => some s
      | .text => setDuration? set s text
      | _ => none
    | _ => none

/-- Sets a field of a section from a node. -/
def setField (sectionName : Bytes) (s : Settings) (name : Bytes) (v : Yaml.Node) :
    Option Settings :=
  (findField? sectionName (· = name)).bind fun f =>
    match v, f.slot with
    | .scalar text plain, slot => setFromScalar slot s text (.ofScalar text plain)
    | .mapping entries, .duration set => setEntries (setNestedDuration set) s entries
    | _, _ => none

/-- Sets a section from a node. -/
def setSection (s : Settings) (name : Bytes) (v : Yaml.Node) : Option Settings :=
  (findSection? (· = name)).bind fun sectionName =>
    match v with
    | .mapping entries => setEntries (setField sectionName) s entries
    | .scalar text plain =>
      match Yaml.Meaning.ofScalar text plain with
      | .null => some s
      | _ => none
    | .sequence _ => none

/-- Sets what a YAML text sets; nothing when it is malformed. -/
def applyYaml (s : Settings) (text : Bytes) : Option Settings :=
  match Yaml.Node.read? text with
  | none => none
  | some none => some s
  | some (some (.mapping entries)) => setEntries setSection s entries
  | some (some (.scalar text plain)) =>
    match Yaml.Meaning.ofScalar text plain with
    | .null => some s
    | _ => none
  | some (some (.sequence _)) => none

end Settings
end Reckon
