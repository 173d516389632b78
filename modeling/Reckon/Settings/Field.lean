import Reckon.Settings.Environment
import Reckon.Text.Fold

/-!
# The fields of a settings file

A settings file has sections, and each section has fields of a fixed kind.  The table of fields is the
same for every file format.
-/

namespace Reckon
namespace Settings

/-- The kind of a field and how it is set. -/
inductive Slot where
  | truth (set : Settings → Bool → Settings)
  | unsigned (set : Settings → Nat → Settings)
  | integer (set : Settings → Int → Settings)
  | text (set : Settings → Bytes → Settings)
  | duration (set : Settings → Duration → Settings)

/-- A field of a section. -/
structure Field where
  sectionName : Bytes
  name : Bytes
  slot : Slot

/-- All fields. -/
def fields : List Field := [
  ⟨"lexer", "permissive", .truth fun s b => { s with permissive := b }⟩,
  ⟨"eval", "precision", .unsigned fun s n => { s with precision := n }⟩,
  ⟨"eval", "max_depth", .integer fun s n => { s with maxDepth := n }⟩,
  ⟨"output", "format", .text fun s text => { s with format := text }⟩,
  ⟨"repl", "prompt", .text fun s text => { s with prompt := text }⟩,
  ⟨"repl", "banner", .text fun s text => { s with banner := text }⟩,
  ⟨"repl", "plain", .truth fun s b => { s with plain := b }⟩,
  ⟨"server", "addr", .text fun s text => { s with addr := text }⟩,
  ⟨"server", "read_timeout", .duration fun s d => { s with readTimeout := d }⟩]

/-- The section of a name that is compared by `same`. -/
def findSection? (same : Bytes → Bool) : Option Bytes :=
  (fields.find? fun f => same f.sectionName).map (·.sectionName)

/-- The field of a section, its name compared by `same`. -/
def findField? (sectionName : Bytes) (same : Bytes → Bool) : Option Field :=
  fields.find? fun f => f.sectionName = sectionName && same f.name

/-- Sets a duration from its text. -/
def setDuration? (set : Settings → Duration → Settings) (s : Settings) (text : Bytes) :
    Option Settings :=
  match Duration.read text with
  | .ok d => some (set s d)
  | .error _ => none

end Settings
end Reckon
