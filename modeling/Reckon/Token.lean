import Reckon.Numeral
import Reckon.Text.Quoted

/-!
# Tokens

A token is a piece of an expression: its kind, the bytes it was read from, the number they spell
when it is a literal, and the position of its first byte.
-/

namespace Reckon

/-- The kinds of token.  A kind that is known by its code alone has no name and no meaning. -/
inductive TokenKind where
  | error | eof | number
  | minus | plus | asterisk | slash | caret
  | parenLeft | parenRight
  | unknown (code : Int)
  deriving DecidableEq, Repr

namespace TokenKind

/-- The kind with a given code. -/
def ofCode (code : Int) : TokenKind :=
  match code with
  | 0 => .error
  | 1 => .eof
  | 2 => .number
  | 3 => .minus
  | 4 => .plus
  | 5 => .asterisk
  | 6 => .slash
  | 7 => .caret
  | 8 => .parenLeft
  | 9 => .parenRight
  | n => .unknown n

/-- The name of a kind; an unknown one has none. -/
def name : TokenKind → Bytes
  | .error => "ERROR"
  | .eof => "EOF"
  | .number => "NUMBER"
  | .minus => "MINUS"
  | .plus => "PLUS"
  | .asterisk => "ASTERISK"
  | .slash => "SLASH"
  | .caret => "CARET"
  | .parenLeft => "PAREN_LEFT"
  | .parenRight => "PAREN_RIGHT"
  | .unknown _ => []

/-- Whether a kind is one of the five binary operators. -/
def isOperator : TokenKind → Bool
  | .minus | .plus | .asterisk | .slash | .caret => true
  | _ => false

/-- Whether a kind is a parenthesis. -/
def isParenthesis : TokenKind → Bool
  | .parenLeft | .parenRight => true
  | _ => false

end TokenKind

/-- A piece of an expression. -/
structure Token where
  kind : TokenKind
  /-- The bytes of the token, or the message of an error token. -/
  value : Bytes
  /-- The number a literal spells, zero for every other kind. -/
  num : Float
  /-- The index of the first byte. -/
  pos : Int

namespace Token

/-- A token of the given kind; a literal gets the number its bytes spell, or zero when they spell
none. -/
def make (kind : TokenKind) (value : Bytes) (pos : Int) : Token :=
  { kind, value, pos, num := if kind = .number then Double.readOrZero value else 0.0 }

/-- The index just past the last byte. -/
def stop (t : Token) : Int :=
  t.pos + t.value.length

/-- A token on one line: its kind, position and quoted bytes.  Of more than sixteen bytes only the
first sixteen characters are shown. -/
def render (t : Token) : Bytes :=
  match t.kind with
  | .eof => "EOF"
  | .error => "ERROR [" ++ Bytes.ofInt t.pos ++ "]: " ++ t.value
  | kind =>
    let shown := if t.value.length > 16 then Quoted.leading 16 t.value else Quoted.text t.value
    kind.name ++ "[" ++ Bytes.ofInt t.pos ++ "]: " ++ shown

end Token
end Reckon
