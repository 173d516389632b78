import Reckon.Expr.Basic
import Reckon.Text.Quoted

/-!
# Outlines of trees

The outline of a tree shows one field to a line, indented by level.  A constant takes one line; a
tree whose fields are all empty shows none; below the tenth level nodes are not shown.
-/

namespace Reckon
namespace Expr

/-- An opening brace. -/
def openBrace : UInt8 := 0x7B

/-- A closing brace. -/
def closeBrace : UInt8 := 0x7D

/-- The deepest level whose nodes are shown. -/
def outlineLevels : Nat := 10

/-- Whether the outline of a node goes over several lines. -/
def spreads (room : Nat) : Expr → Bool
  | .binary op left right =>
    0 < room && !(op.code = 0 && left matches .absent && right matches .absent)
  | _ => false

/-- The outline of a constant. -/
def constantOutline (value : Float) (text : Bytes) : Bytes :=
  let fields : Bytes :=
    if value == 0.0 && text.isEmpty then []
    else "Value:" ++ Double.render value ++ ", Text:" ++ Quoted.text text
  "&ast.Constant" ++ openBrace :: fields ++ [closeBrace]

/-- Four blanks for each level. -/
def indentation (level : Nat) : Bytes :=
  List.replicate (4 * level) 0x20

/-- The outline of a node at a level, of which `room` more levels are shown. -/
def outlineAt (room level : Nat) : Expr → Bytes
  | .absent => "nil"
  | .constant value text =>
    if room = 0 then "&!%v(DEPTH EXCEEDED)" else constantOutline value text
  | .binary op left right =>
    if room = 0 then "&!%v(DEPTH EXCEEDED)"
    else if !spreads room (.binary op left right) then
      "&ast.Binary" ++ [openBrace, closeBrace]
    else
      let inner := indentation (level + 1)
      -- The names of neighbouring one-line fields are padded to the same width.
      let rightName : Bytes := if spreads (room - 1) left then "Right: " else "Right:     "
      "&ast.Binary" ++ openBrace :: 0x0A :: inner
        ++ "Operation: " ++ Bytes.ofInt op.code ++ ",\n" ++ inner
        ++ "Left:      " ++ outlineAt (room - 1) (level + 1) left ++ ",\n" ++ inner
        ++ rightName ++ outlineAt (room - 1) (level + 1) right ++ ",\n"
        ++ indentation level ++ [closeBrace]

/-- The outline of a tree. -/
def outline (e : Expr) : Bytes :=
  outlineAt outlineLevels 0 e

end Expr
end Reckon
