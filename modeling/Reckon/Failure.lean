import Reckon.Expr.Evaluate
import Reckon.Parser

/-!
# What can go wrong with an expression

A failure has a cause and may name the steps during which it arose.  It can be put into words in three
ways: as a message, as a record of kind and place, and as a line for an interactive user.
-/

namespace Reckon

/-- Why an expression has no value. -/
inductive Failure where
  | lexical (e : LexError)
  | structural (e : ParseError)
  | domain (op : Operation) (reason : Undefined)
  /-- A cause known by its wording alone. -/
  | plain (text : Bytes)
  /-- A tree that is not well formed, which no text leads to. -/
  | defective (d : Defect)
  /-- A failure that arose during a step. -/
  | during (step : Bytes) (cause : Failure)
  deriving Repr

/-- A failure as a record. -/
structure Details where
  kind : Bytes
  /-- The index in the input, or `-1` when there is none. -/
  index : Int
  message : Bytes
  deriving DecidableEq, Repr

namespace Failure

/-- The wording of an undefined constant. -/
def undefinedConstantText : Bytes :=
  "NaN constant has no arbitrary precision value"

/-- The failure of an evaluation. -/
def ofEvalError : EvalError → Failure
  | .domain op reason => .domain op reason
  | .undefinedConstant => .plain undefinedConstantText
  | .defect d => .defective d

/-- The failure without the steps. -/
def cause : Failure → Failure
  | .during _ f => f.cause
  | f => f

/-- The defect that keeps a failure from being put into words: that of a tree, or an operation
without a name. -/
def defect? (f : Failure) : Option Defect :=
  match f.cause with
  | .defective d => some d
  | .domain (.undefined code) _ => some (.namedUndefined code)
  | _ => none

/-- The message of a failure. -/
def message : Failure → Bytes
  | .lexical e => e.message
  | .structural e => e.message
  | .domain op reason =>
    match op.name with
    | .ok name => "domain error in " ++ name ++ ": " ++ reason.message
    | .error d => d.message
  | .plain text => text
  | .defective d => d.message
  | .during step f => step ++ ": " ++ f.message

/-- Whether a failure has one of the kinds that expressions can have. -/
def isKnown (f : Failure) : Bool :=
  match f.cause with
  | .lexical _ | .structural _ | .domain _ _ => true
  | _ => false

/-- Whether a failure is the nesting limit. -/
def isDepth (f : Failure) : Bool :=
  match f.cause with
  | .structural e => e.reason.isDepth
  | _ => false

/-- The index of a failure without a place. -/
def noIndex : Int := -1

/-- A failure as a record.  A failure of no known kind keeps the names of its steps. -/
def details (f : Failure) : Details :=
  match f.cause with
  | .lexical e => ⟨e.kind.name, e.index, e.message⟩
  | .structural e => ⟨e.kind.name, e.index, e.message⟩
  | .domain op reason => ⟨"Domain", noIndex, message (.domain op reason)⟩
  | _ => ⟨"Internal", noIndex, f.message⟩

/-- The record of no failure at all. -/
def noDetails : Details :=
  ⟨[], 0, []⟩

/-- The character at an index of a text, quoted, or the end of the text. -/
def shown (s : Bytes) (index : Int) : Bytes :=
  match index with
  | .negSucc _ => "end of input"
  | .ofNat n =>
    match Utf8.head? (s.drop n) with
    | some c => Quoted.char c
    | none => "end of input"

/-- A failure of an input as a line for an interactive user. -/
def describe (input : Bytes) (f : Failure) : Bytes :=
  match f.cause with
  | .lexical e =>
    e.kind.name ++ " at index: " ++ Bytes.ofInt e.index ++ " => " ++ shown input e.index
  | .structural e =>
    if e.kind = .unbalancedParenthesis then "Semantic error: " ++ e.kind.name
    else
      e.kind.name ++ " at index: " ++ Bytes.ofInt e.index ++ " => " ++ shown input e.index
        ++ " (" ++ e.reason.message ++ ")"
  | .domain _ reason => "Domain error: " ++ reason.message
  | _ => "Error: " ++ f.message

end Failure
end Reckon
