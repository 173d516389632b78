import Reckon.Double.Text

/-!
# Expression trees

A tree is a constant or an operation on two subtrees.  Trees that were not built by the parser may
also lack a subtree or name an operation that does not exist; the functions on trees report such a
*defect* instead of a result.

`walk` visits a tree in post-order with a callback that carries a state and may stop the walk.
-/

namespace Reckon

/-- A binary arithmetic operation.  One known by its code alone is not defined. -/
inductive Operation where
  | add | subtract | multiply | divide | exponent
  | undefined (code : Int)
  deriving DecidableEq, Repr

/-- Why a tree, or an operation in it, has no meaning. -/
inductive Defect where
  /-- An operation that is not defined was applied. -/
  | appliedUndefined (op : Operation)
  /-- The name of an operation that is not defined was asked for. -/
  | namedUndefined (code : Int)
  /-- A subtree is missing. -/
  | missingNode
  /-- The text of a missing subtree was asked for. -/
  | missingText
  deriving DecidableEq, Repr

namespace Operation

/-- The operation with a given code; the five operations have the codes one to five, and every other
code is undefined. -/
def ofCode (code : Int) : Operation :=
  match code with
  | 1 => .add
  | 2 => .subtract
  | 3 => .multiply
  | 4 => .divide
  | 5 => .exponent
  | n => .undefined n

/-- The code of an operation. -/
def code : Operation → Int
  | .add => 1
  | .subtract => 2
  | .multiply => 3
  | .divide => 4
  | .exponent => 5
  | .undefined n => n

/-- The symbol of an operation. -/
def symbol : Operation → Bytes
  | .add => "+"
  | .subtract => "-"
  | .multiply => "*"
  | .divide => "/"
  | .exponent => "^"
  | .undefined n => "Operation(" ++ Bytes.ofInt n ++ ")"

/-- The long name of an operation. -/
def name : Operation → Except Defect Bytes
  | .add => .ok "Add"
  | .subtract => .ok "Subtract"
  | .multiply => .ok "Multiply"
  | .divide => .ok "Divide"
  | .exponent => .ok "Exponent"
  | .undefined n => .error (.namedUndefined n)

end Operation

/-- The message of a defect. -/
def Defect.message : Defect → Bytes
  | .appliedUndefined op => "unsupported operation " ++ op.symbol
  | .namedUndefined code => "unsupported operation " ++ Bytes.ofInt code
  | .missingNode => "unsupported node type <nil>"
  | .missingText => "runtime error"

/-- The tree of an expression. -/
inductive Expr where
  /-- A number, and the literal it was read from if there was one. -/
  | constant (value : Float) (text : Bytes)
  | binary (op : Operation) (left right : Expr)
  /-- A subtree that is missing. -/
  | absent
  deriving Inhabited

namespace Expr

/-- The text of a constant: its literal, or the number when there is none. -/
def constantText (value : Float) (text : Bytes) : Bytes :=
  if text.isEmpty then Double.render value else text

/-- The fully parenthesised text of a tree in front of `tail`. -/
def dumpOnto : Expr → Bytes → Except Defect Bytes
  | .constant value text, tail => .ok (constantText value text ++ tail)
  | .binary op left right, tail =>
    match dumpOnto right (0x29 :: tail) with
    | .error d => .error d
    | .ok tail =>
      match dumpOnto left (0x20 :: op.symbol ++ 0x20 :: tail) with
      | .error d => .error d
      | .ok tail => .ok (0x28 :: tail)
  | .absent, _ => .error .missingText

/-- The fully parenthesised text of a tree, such as `((2 - 3) - 4)`. -/
def dump (e : Expr) : Except Defect Bytes :=
  e.dumpOnto []

/-- The height of a tree; a constant has height one. -/
def depth : Expr → Except Defect Nat
  | .constant _ _ => .ok 1
  | .binary _ left right =>
    match left.depth with
    | .error d => .error d
    | .ok l =>
      match right.depth with
      | .error d => .error d
      | .ok r => .ok (1 + max l r)
  | .absent => .error .missingNode

/-- Visits the nodes of a tree in post-order.  The callback turns its state into a new one and says
whether to go on; the walk returns the last state and whether no call stopped it. -/
def walk {σ : Type} (visit : Expr → σ → σ × Bool) : Expr → σ → Except Defect (σ × Bool)
  | .constant value text, s => .ok (visit (.constant value text) s)
  | .binary op left right, s =>
    match walk visit left s with
    | .error d => .error d
    | .ok (s, false) => .ok (s, false)
    | .ok (s, true) =>
      match walk visit right s with
      | .error d => .error d
      | .ok (s, false) => .ok (s, false)
      | .ok (s, true) => .ok (visit (.binary op left right) s)
  | .absent, _ => .error .missingNode

/-- The mark of a node in a listing of a walk: the text of a constant, the symbol of an operation. -/
def mark : Expr → Bytes
  | .constant value text => constantText value text
  | .binary op _ _ => op.symbol
  | .absent => []

/-- The marks of the nodes a walk visits, which ends once `stop` nodes were seen (never, when `stop`
is zero), and whether it reached the root. -/
def listing (e : Expr) (stop : Nat) : Except Defect (List Bytes × Bool) :=
  let visit (node : Expr) (seen : List Bytes) : List Bytes × Bool :=
    let seen := node.mark :: seen
    (seen, !(0 < stop && stop ≤ seen.length))
  match e.walk visit [] with
  | .error d => .error d
  | .ok (seen, done) => .ok (seen.reverse, done)

end Expr
end Reckon
