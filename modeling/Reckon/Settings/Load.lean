import Reckon.Settings.Toml
import Reckon.Settings.Yaml
import Reckon.Text.LowerCase

/-!
# Loading settings

Settings come from the defaults, then from a file if one is named, then from the environment, and are
checked at the end.  The format of a file is told by the extension of its name.

The readers of the two file formats are libraries.  What is done with what they report does not depend on
which readers they are.
-/

namespace Reckon

/-- Why a file cannot be read. -/
inductive FileFault where
  | missing
  | directory
  deriving DecidableEq, Repr

/-- The message of a file that cannot be read. -/
def FileFault.message (path : Bytes) : FileFault → Bytes
  | .missing => "open " ++ path ++ ": no such file or directory"
  | .directory => "read " ++ path ++ ": is a directory"

/-- The notation of a settings file. -/
inductive FileFormat where
  | toml
  | yaml
  deriving DecidableEq, Repr

/-- The name of a notation. -/
def FileFormat.name : FileFormat → Bytes
  | .toml => "toml"
  | .yaml => "yaml"

/-- Why settings cannot be loaded. -/
inductive LoadError where
  | unreadable (path : Bytes) (fault : FileFault)
  | unsupported (extension : Bytes)
  | malformed (format : FileFormat) (path detail : Bytes)
  | unknownKey (path key : Bytes)
  | environment (message : Bytes)
  | invalid (message : Bytes)
  deriving DecidableEq, Repr

namespace LoadError

/-- What the standard readers say of a malformed document, whose faults they do not tell apart. -/
def malformedDetail : Bytes :=
  "malformed document"

/-- The message of an error. -/
def message : LoadError → Bytes
  | .unreadable path fault => "read config: " ++ fault.message path
  | .unsupported extension => "unsupported config format " ++ Quoted.text extension
  | .malformed format path detail =>
    "parse " ++ format.name ++ " config " ++ Quoted.text path ++ ": " ++ detail
  | .unknownKey path key =>
    "parse toml config " ++ Quoted.text path ++ ": unknown key " ++ Quoted.text key
  | .environment text => text
  | .invalid text => text

end LoadError

/-- What a YAML reader reports when it sets nothing. -/
inductive YamlFault where
  /-- The text ends before any document. -/
  | ended
  | malformed (detail : Bytes)
  deriving DecidableEq, Repr

/-- A reader for each file format.  It sets what a text sets over the settings it is given, and may have
set a part of that when it reports a fault. -/
structure Decoders where
  /-- Tells what is wrong with the text, or else the keys that belong to no setting. -/
  toml : (text : Bytes) → Settings → Settings × Except Bytes (List Bytes)
  yaml : (text : Bytes) → Settings → Settings × Option YamlFault

/-- The readers of the program. -/
def Decoders.standard : Decoders where
  toml text s :=
    match s.applyToml text with
    | some (s, unknown) => (s, .ok unknown)
    | none => (s, .error LoadError.malformedDetail)
  yaml text s :=
    match s.applyYaml text with
    | some s => (s, none)
    | none => (s, some (.malformed LoadError.malformedDetail))

namespace Settings

/-- The extension of a file name: what starts with the last point of its last part. -/
def extensionOf (path : Bytes) : Bytes :=
  let name := (path.reverse.takeWhile (· != 0x2F))
  let tail := name.takeWhile (· != 0x2E)
  if tail.length = name.length then [] else 0x2E :: tail.reverse

/-- The notation of a file with an extension in lower case. -/
def formatOf? (extension : Bytes) : Option FileFormat :=
  if extension = (".yaml" : Bytes) || extension = (".yml" : Bytes) then some .yaml
  else if extension = (".toml" : Bytes) || extension.isEmpty then some .toml
  else none

/-- Sets what a file sets; a YAML text without a document sets nothing.  When there is an error, a part
may have been set. -/
def applyFile (s : Settings) (path : Bytes) (content : Except FileFault Bytes)
    (decoders : Decoders := .standard) : Settings × Option LoadError :=
  match content with
  | .error fault => (s, some (.unreadable path fault))
  | .ok text =>
    let extension := lowerText (extensionOf path)
    match formatOf? extension with
    | none => (s, some (.unsupported extension))
    | some .yaml =>
      match decoders.yaml text s with
      | (s, some (.malformed detail)) => (s, some (.malformed .yaml path detail))
      | (s, some .ended) | (s, none) => (s, none)
    | some .toml =>
      match decoders.toml text s with
      | (s, .error detail) => (s, some (.malformed .toml path detail))
      | (s, .ok (key :: _)) => (s, some (.unknownKey path key))
      | (s, .ok []) => (s, none)

/-- Applies the environment and checks the outcome. -/
def complete (s : Settings) (env : Environment) : Except LoadError Settings :=
  match s.applyEnvironment env with
  | (_, some text) => .error (.environment text)
  | (s, none) =>
    match s.validate with
    | .error text => .error (.invalid text)
    | .ok _ => .ok s

/-- Sets what the file of a path sets; an empty path stands for no file. -/
def applyPath (s : Settings) (path : Bytes) (content : Except FileFault Bytes)
    (decoders : Decoders := .standard) : Settings × Option LoadError :=
  if path.isEmpty then (s, none) else s.applyFile path content decoders

/-- Loads settings. -/
def load (path : Bytes) (content : Except FileFault Bytes) (env : Environment)
    (decoders : Decoders := .standard) : Except LoadError Settings :=
  match default.applyPath path content decoders with
  | (_, some e) => .error e
  | (s, none) => s.complete env

/-- Loads settings; those that cannot be loaded are blank. -/
def loadOrBlank (path : Bytes) (content : Except FileFault Bytes) (env : Environment)
    (decoders : Decoders := .standard) : Settings × Option LoadError :=
  match load path content env decoders with
  | .error e => (blank, some e)
  | .ok s => (s, none)

end Settings
end Reckon
