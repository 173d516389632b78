import Reckon.Yaml.Token

/-!
# The structure of a YAML text

A node is a scalar, a sequence or a mapping.  The first document of a text is read; what follows it is
not looked at.
-/

namespace Reckon
namespace Yaml

/-- A part of a document. -/
inductive Node where
  /-- A text; `plain` tells whether it was written without quotes. -/
  | scalar (text : Bytes) (plain : Bool)
  | sequence (items : List Node)
  | mapping (entries : List (Node × Node))

namespace Node

/-- The node that stands where nothing is written. -/
def empty : Node :=
  .scalar [] true

mutual

/-- The node at the start of some tokens.  `block` admits indented blocks and `indentless` a list
whose dashes are not indented. -/
def take (fuel : Nat) (block indentless : Bool) (ts : List Token) : Option (Node × List Token) :=
  match fuel with
  | 0 => none
  | fuel + 1 =>
    match ts with
    | .blockEntry :: _ =>
      if indentless then
        (takeIndentless fuel ts).map fun (items, ts) => (.sequence items, ts)
      else none
    | .scalar text plain :: ts => some (.scalar (Utf8.ofChars text) plain, ts)
    | .flowSequence :: ts =>
      (takeFlowItems fuel true ts).map fun (items, ts) => (.sequence items, ts)
    | .flowMapping :: ts =>
      (takeFlowEntries fuel true ts).map fun (entries, ts) => (.mapping entries, ts)
    | .blockSequence :: ts =>
      if block then (takeItems fuel ts).map fun (items, ts) => (.sequence items, ts) else none
    | .blockMapping :: ts =>
      if block then (takeEntries fuel ts).map fun (entries, ts) => (.mapping entries, ts)
      else none
    | _ => none

/-- The node at the start of some tokens, or the empty node in front of one of `ends`. -/
def takeOr (fuel : Nat) (block indentless : Bool) (ends : List Token) (ts : List Token) :
    Option (Node × List Token) :=
  match fuel with
  | 0 => none
  | fuel + 1 =>
    match ts with
    | [] => none
    | t :: _ => if ends.contains t then some (empty, ts) else take fuel block indentless ts

/-- The items of an indented list and its end. -/
def takeItems (fuel : Nat) (ts : List Token) : Option (List Node × List Token) :=
  match fuel with
  | 0 => none
  | fuel + 1 =>
    match ts with
    | .blockEntry :: ts =>
      (takeOr fuel true false [.blockEntry, .blockEnd] ts).bind fun (item, ts) =>
        (takeItems fuel ts).map fun (items, ts) => (item :: items, ts)
    | .blockEnd :: ts => some ([], ts)
    | _ => none

/-- The items of a list whose dashes are not indented. -/
def takeIndentless (fuel : Nat) (ts : List Token) : Option (List Node × List Token) :=
  match fuel with
  | 0 => none
  | fuel + 1 =>
    match ts with
    | [] => none
    | .blockEntry :: ts =>
      (takeOr fuel true false [.blockEntry, .key, .value, .blockEnd] ts).bind fun (item, ts) =>
        (takeIndentless fuel ts).map fun (items, ts) => (item :: items, ts)
    | ts => some ([], ts)

/-- The value after a key, empty when there is no colon. -/
def takeValue (fuel : Nat) (block : Bool) (ends : List Token) (ts : List Token) :
    Option (Node × List Token) :=
  match fuel with
  | 0 => none
  | fuel + 1 =>
    match ts with
    | [] => none
    | .value :: ts => takeOr fuel block block ends ts
    | ts => some (empty, ts)

/-- The entries of an indented mapping and its end. -/
def takeEntries (fuel : Nat) (ts : List Token) : Option (List (Node × Node) × List Token) :=
  match fuel with
  | 0 => none
  | fuel + 1 =>
    let ends : List Token := [.key, .value, .blockEnd]
    match ts with
    | .blockEnd :: ts => some ([], ts)
    | .key :: ts =>
      (takeOr fuel true true ends ts).bind fun (k, ts) =>
        (takeValue fuel true ends ts).bind fun (v, ts) =>
          (takeEntries fuel ts).map fun (entries, ts) => ((k, v) :: entries, ts)
    | _ => none

/-- The items of a list in brackets and the closing one.  An item may be a single entry. -/
def takeFlowItems (fuel : Nat) (first : Bool) (ts : List Token) :
    Option (List Node × List Token) :=
  match fuel with
  | 0 => none
  | fuel + 1 =>
    match ts, first with
    | .flowSequenceEnd :: ts, _ => some ([], ts)
    | .flowEntry :: ts, false => takeFlowItem fuel ts
    | ts, true => takeFlowItem fuel ts
    | _, false => none

/-- An item of a list in brackets and the items after it. -/
def takeFlowItem (fuel : Nat) (ts : List Token) : Option (List Node × List Token) :=
  match fuel with
  | 0 => none
  | fuel + 1 =>
    match ts with
    | .flowSequenceEnd :: ts => some ([], ts)
    | .key :: ts =>
      (takeOr fuel false false [.value, .flowEntry, .flowSequenceEnd] ts).bind fun (k, ts) =>
        (takeValue fuel false [.flowEntry, .flowSequenceEnd] ts).bind fun (v, ts) =>
          (takeFlowItems fuel false ts).map fun (items, ts) => (.mapping [(k, v)] :: items, ts)
    | ts =>
      (take fuel false false ts).bind fun (item, ts) =>
        (takeFlowItems fuel false ts).map fun (items, ts) => (item :: items, ts)

/-- The entries of a mapping in braces and the closing one. -/
def takeFlowEntries (fuel : Nat) (first : Bool) (ts : List Token) :
    Option (List (Node × Node) × List Token) :=
  match fuel with
  | 0 => none
  | fuel + 1 =>
    match ts, first with
    | .flowMappingEnd :: ts, _ => some ([], ts)
    | .flowEntry :: ts, false => takeFlowEntry fuel ts
    | ts, true => takeFlowEntry fuel ts
    | _, false => none

/-- An entry of a mapping in braces and the entries after it. -/
def takeFlowEntry (fuel : Nat) (ts : List Token) : Option (List (Node × Node) × List Token) :=
  match fuel with
  | 0 => none
  | fuel + 1 =>
    match ts with
    | .flowMappingEnd :: ts => some ([], ts)
    | .key :: ts =>
      (takeOr fuel false false [.value, .flowEntry, .flowMappingEnd] ts).bind fun (k, ts) =>
        (takeValue fuel false [.flowEntry, .flowMappingEnd] ts).bind fun (v, ts) =>
          (takeFlowEntries fuel false ts).map fun (entries, ts) => ((k, v) :: entries, ts)
    | ts =>
      (take fuel false false ts).bind fun (k, ts) =>
        (takeFlowEntries fuel false ts).map fun (entries, ts) => ((k, empty) :: entries, ts)

end

/-- The node of the first document; nothing when there is no document at all. -/
def ofTokens (ts : List Token) : Option (Option Node) :=
  let fuel := 4 * ts.length + 4
  let complete (r : Option (Node × List Token)) : Option (Option Node) :=
    r.bind fun (node, rest) => if rest.isEmpty then none else some (some node)
  match ts with
  | [] => none
  | .streamEnd :: _ => some none
  | .documentStart :: ts =>
    complete (takeOr fuel true false [.documentStart, .documentEnd, .streamEnd] ts)
  | ts => complete (take fuel true false ts)

/-- Reads the first document of a text: nothing when it is malformed, and no node when there is no
document. -/
def read? (s : Bytes) : Option (Option Node) :=
  let cs := Utf8.chars s
  let cs := if cs.head?.any (·.toNat = 0xFEFF) then cs.drop 1 else cs
  if Utf8.isValid s && cs.all isAllowed then ofTokens (Token.scan cs) else none

end Node
end Yaml
end Reckon
