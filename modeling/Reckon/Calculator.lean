import Reckon.Expr.Stored
import Reckon.Failure
import Reckon.Format.Template

/-!
# The calculator

A calculator holds the settings of an evaluation: what to do with unknown symbols, the precision and
the nesting limit.  It takes a text through tokens and tree to a value.  Every call is independent of
the others.

Two things are not the calculator's own.  Powers with a fractional exponent are computed by another
library, `fraction`; and where in memory a value in arbitrary precision comes to stand, its `location`,
is up to the machine and may be another one at every call.
-/

namespace Reckon

/-- The value of an expression. -/
structure Result where
  /-- The value in double precision, rounded if there is an exact one. -/
  value : Float
  /-- The value in arbitrary precision, if that was asked for. -/
  exact : Option Binary
  /-- How the value in arbitrary precision is stored; it is worked out when it is looked at. -/
  stored : Unit → Option Stored := fun _ => none
  /-- Where in memory the value in arbitrary precision is stored, if there is one. -/
  location : UInt64 := 0

namespace Result

/-- The format of results unless another one is given: two decimals. -/
def defaultFormat : Bytes :=
  "%.2f"

/-- The value as an operand of a format string. -/
def operand (r : Result) : Format.Operand :=
  match r.exact with
  | some x => .binary x (fun _ => (r.stored ()).getD (Stored.make x 1 .eq)) r.location
  | none => .double r.value

/-- The value formatted; an empty format string stands for the default one. -/
def format (r : Result) (template : Bytes) : Bytes :=
  Format.fill (if template.isEmpty then defaultFormat else template) r.operand

end Result

/-- The tree of a text. -/
def parseText (mode : Mode) (limit : Int) (s : Bytes) : Except Failure Expr :=
  match Lexer.tokenize mode s with
  | .error e => .error (.during "tokenize" (.lexical e))
  | .ok ts =>
    match Parser.parse limit ts with
    | .error e => .error (.structural e)
    | .ok tree => .ok tree

/-- The settings of an evaluation. -/
structure Calculator where
  mode : Mode := .strict
  /-- The mantissa's bits, zero for double precision. -/
  precision : Nat := 0
  /-- The nesting limit; zero or less is no limit. -/
  maxDepth : Int := Parser.defaultDepth
  deriving DecidableEq, Repr

namespace Calculator

/-- The value of a tree in the calculator's arithmetic. -/
def value (c : Calculator) (tree : Expr) (fraction : Binary.FractionalPower := .rounded)
    (location : UInt64 := 0) : Except Failure Result :=
  if c.precision = 0 then
    match tree.evaluate with
    | .error d => .error (.defective d)
    | .ok x => .ok { value := x, exact := none, location }
  else
    match tree.evaluateBinary c.precision fraction with
    | .error (.defect d) => .error (.defective d)
    | .error e => .error (.during "evaluate" (.ofEvalError e))
    | .ok x =>
      .ok ⟨x.toDouble, some x, fun _ => tree.stored? x.prec fraction, location⟩

/-- Evaluates a text. -/
def eval (c : Calculator) (s : Bytes) (fraction : Binary.FractionalPower := .rounded)
    (location : UInt64 := 0) : Except Failure Result :=
  match parseText c.mode c.maxDepth s with
  | .error f => .error (.during "parse" f)
  | .ok tree => c.value tree fraction location

/-- Evaluates a text in double precision, whatever the precision of the calculator. -/
def evalDouble (c : Calculator) (s : Bytes) : Except Failure Float :=
  match eval { c with precision := 0 } s with
  | .error f => .error f
  | .ok r => .ok r.value

/-- Evaluates a text in arbitrary precision, with the default precision if the calculator has none. -/
def evalBinary (c : Calculator) (s : Bytes) (fraction : Binary.FractionalPower := .rounded) :
    Except Failure Binary :=
  let precision := if c.precision = 0 then Expr.defaultPrecision else c.precision
  match eval { c with precision } s fraction with
  | .error f => .error f
  | .ok r => .ok (r.exact.getD (Binary.ofDouble precision r.value))

end Calculator
end Reckon
