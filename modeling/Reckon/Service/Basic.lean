import Reckon.Calculator
import Reckon.Json.Number
import Reckon.Json.Object
import Reckon.Text.Fold

/-!
# The evaluation service

A service evaluates expressions for remote clients.  Its reply to an expression is a JSON object with
the expression, the result if it is finite, the formatted result, and, if there is none, why.

It is built on libraries whose choices are not its own: how a fractional power is computed, how a byte
that is no text is spelled in JSON, and in which words a body that is no request is refused.
-/

namespace Reckon

/-- The settings of a service. -/
structure Service where
  calculator : Calculator
  /-- The format string of results; empty stands for the default one. -/
  format : Bytes
  /-- Whether failures and connections are logged. -/
  verbose : Bool
  deriving DecidableEq, Repr

namespace Service

/-- The most bytes of a request or a message. -/
def maxSize : Nat :=
  65536

/-- What the standard reader says of a body that is no request, whose faults it does not tell apart. -/
def badBodyDetail : Bytes :=
  "malformed request"

/-- The libraries that a service is built on. -/
structure Libraries where
  /-- Powers with a fractional exponent. -/
  fraction : Binary.FractionalPower := .rounded
  /-- How a stray byte is spelled in a JSON string. -/
  stray : Bytes := Utf8.encode Utf8.replacement
  /-- What is said of a body that is no request. -/
  refusal : (body : Bytes) → Bytes := fun _ => badBodyDetail

/-- The reply to an expression. -/
structure Reply where
  expression : Bytes
  /-- The result, if it is finite. -/
  result : Option Float
  text : Bytes
  error : Option Details

namespace Reply

/-- The fault of a reply as an object. -/
def ofDetails (d : Details) (lib : Libraries := {}) : Bytes :=
  Json.object [("kind", Json.ofText d.kind lib.stray), ("index", Bytes.ofInt d.index),
    ("message", Json.ofText d.message lib.stray)]

/-- A reply as one line. -/
def render (r : Reply) (lib : Libraries := {}) : Bytes :=
  let result := r.result.toList.map fun x => (("result" : Bytes), Json.ofDouble x)
  let text := if r.text.isEmpty then [] else [(("text" : Bytes), Json.ofText r.text lib.stray)]
  let error := r.error.toList.map fun d => (("error" : Bytes), ofDetails d lib)
  Json.object
      ((("expression" : Bytes), Json.ofText r.expression lib.stray) :: result ++ text ++ error)
    ++ [0x0A]

/-- A reply as it is sent, or why it cannot be: a result that is not finite has no JSON text. -/
def encode (r : Reply) (lib : Libraries := {}) : Except Bytes Bytes :=
  match r.result with
  | some x =>
    if Double.isFinite x then .ok (r.render lib)
    else .error ("json: unsupported value: " ++ Double.named x)
  | none => .ok (r.render lib)

/-- The reply to what is not a request at all. -/
def badRequest (message : Bytes) : Reply :=
  ⟨[], none, [], some ⟨"BadRequest", Failure.noIndex, message⟩⟩

end Reply

/-- An answer and what was logged for it. -/
structure Answer where
  reply : Reply
  /-- Whether the expression has a value. -/
  succeeded : Bool
  log : Bytes

/-- The answer to an expression. -/
def evaluate (s : Service) (expression : Bytes) (lib : Libraries := {}) (location : UInt64 := 0) :
    Answer :=
  match s.calculator.eval expression lib.fraction location with
  | .ok r =>
    let result := if Double.isFinite r.value then some r.value else none
    ⟨⟨expression, result, r.format s.format, none⟩, true, []⟩
  | .error f =>
    let details := { f.details with message := f.describe expression }
    let log :=
      if s.verbose then "Evaluate " ++ Quoted.text expression ++ ": " ++ f.message ++ ".\n"
      else []
    ⟨⟨expression, none, [], some details⟩, false, log⟩

/-- The name of the only field of a request. -/
def expressionField : Bytes :=
  "expression"

/-- The expression of a request body: the last one given counts, and `null` does not change it.  A
body with other fields is not accepted. -/
def readRequest? (body : Bytes) : Option Bytes :=
  (Json.readObject? (body.take maxSize)).bind fun fields =>
    fields.foldlM
      (fun expression (name, value) =>
        if matchesName expressionField name then some (value.getD expression) else none)
      []

end Service
end Reckon
