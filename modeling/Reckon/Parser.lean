import Reckon.Expr.Basic
import Reckon.Lexer

/-!
# From tokens to trees

The grammar is

* a sum is a product, or a sum, `+` or `-`, and a product;
* a product is a power, or a product, `*` or `/`, and a power;
* a power is an atom, or an atom, `^` and a power;
* an atom is a literal, or a sum in parentheses.

The parser climbs this ladder by binding power: an operator is taken while it binds more tightly than
the operator to its left.  `^` passes a lower power to its right operand than its own and so groups
to the right.  Parentheses are counted before anything else.

Each function returns the tokens it left over with a proof that they are fewer, so that it ends on
every sequence of tokens.
-/

namespace Reckon

/-- The kinds of structural error. -/
inductive ParseErrorKind where
  | unbalancedParenthesis | malformedExpression
  | unknown (code : Int)
  deriving DecidableEq, Repr

namespace ParseErrorKind

/-- The kind with a given code. -/
def ofCode (code : Int) : ParseErrorKind :=
  match code with
  | 1 => .unbalancedParenthesis
  | 2 => .malformedExpression
  | n => .unknown n

/-- The name of a kind. -/
def name : ParseErrorKind → Bytes
  | .unbalancedParenthesis => "UnbalancedParenthesis"
  | .malformedExpression => "MalformedExpression"
  | .unknown code => "ErrorKind(" ++ Bytes.ofInt code ++ ")"

end ParseErrorKind

/-- Why a sequence of tokens is no expression. -/
inductive ParseReason where
  | excessOpening
  | excessClosing
  | emptyExpression
  | emptyParentheses
  | unexpectedEnd
  | unexpected (kind : TokenKind)
  | unclosed (found : TokenKind)
  | trailing (kind : TokenKind)
  | tooDeep (limit : Int)
  /-- A reason given in words; `depth` says that it is about the nesting limit. -/
  | stated (text : Bytes) (depth : Bool)
  deriving DecidableEq, Repr

namespace ParseReason

/-- The wording of a reason. -/
def message : ParseReason → Bytes
  | .excessOpening => "more opening than closing parentheses"
  | .excessClosing => "more closing than opening parentheses"
  | .emptyExpression => "empty expression"
  | .emptyParentheses => "empty parentheses"
  | .unexpectedEnd => "unexpected end of expression"
  | .unexpected kind => "unexpected " ++ kind.name
  | .unclosed found => "expected PAREN_RIGHT but got " ++ found.name
  | .trailing kind => "unexpected trailing " ++ kind.name
  | .tooDeep limit => "nesting deeper than " ++ Bytes.ofInt limit
  | .stated text _ => text

/-- Whether a reason is the nesting limit. -/
def isDepth : ParseReason → Bool
  | .tooDeep _ => true
  | .stated _ depth => depth
  | _ => false

end ParseReason

/-- A sequence of tokens that is no expression. -/
structure ParseError where
  kind : ParseErrorKind
  /-- The index in the input of the token at which the error was noticed. -/
  index : Int
  reason : ParseReason
  deriving DecidableEq, Repr

/-- The message of a structural error. -/
def ParseError.message (e : ParseError) : Bytes :=
  locatedMessage e.kind.name e.index e.reason.message

namespace Parser

/-- The nesting limit that is in force unless another one is given. -/
def defaultDepth : Int := 1000

/-- How tightly a token binds its operands; zero for a token that is no operator. -/
def bindingPower : TokenKind → Nat
  | .plus | .minus => 1
  | .asterisk | .slash => 2
  | .caret => 3
  | _ => 0

/-- The operation of an operator token. -/
def operation? : TokenKind → Option Operation
  | .plus => some .add
  | .minus => some .subtract
  | .asterisk => some .multiply
  | .slash => some .divide
  | .caret => some .exponent
  | _ => none

/-- The parentheses seen so far. -/
structure Balance where
  /-- The positions of the open parentheses, the latest first. -/
  opens : List Int
  /-- The position of the first closing parenthesis that closes nothing; negative while there is
  none. -/
  stray : Int
  /-- The number of opening parentheses minus the number of closing ones. -/
  excess : Int

/-- Counts one token. -/
def Balance.step (b : Balance) (t : Token) : Balance :=
  match t.kind with
  | .parenLeft => { b with opens := t.pos :: b.opens, excess := b.excess + 1 }
  | .parenRight =>
    match b.opens with
    | _ :: opens => { b with opens, excess := b.excess - 1 }
    | [] => { b with stray := if b.stray < 0 then t.pos else b.stray, excess := b.excess - 1 }
  | _ => b

/-- Counts the tokens of a sequence. -/
def balance (ts : List Token) : Balance :=
  ts.foldl Balance.step ⟨[], -1, 0⟩

/-- The error of a sequence with unequal numbers of opening and closing parentheses: it points at the
first closing one that closes nothing, or else at the outermost one left open. -/
def balanceError? (ts : List Token) : Option ParseError :=
  let b := balance ts
  if b.excess = 0 then none
  else
    some {
      kind := .unbalancedParenthesis
      index := if b.stray < 0 then b.opens.getLast?.getD b.stray else b.stray
      reason := if b.excess < 0 then .excessClosing else .excessOpening }

/-- What stays the same while a sequence is parsed. -/
structure Frame where
  /-- The nesting limit; zero or less is no limit. -/
  limit : Int
  /-- The index just past the last token. -/
  stop : Int

namespace Frame

/-- Whether one more level of nesting is refused at a depth. -/
def refuses (f : Frame) (depth : Int) : Bool :=
  0 < f.limit && f.limit ≤ depth

/-- The token that stands for the end of the sequence. -/
def finish (f : Frame) : Token :=
  Token.make .eof [] f.stop

end Frame

/-- The index just past the last token of a sequence, zero when there is none. -/
def stopOf (ts : List Token) : Int :=
  (ts.getLast?.map Token.stop).getD 0

/-- An error about the shape of the expression. -/
def malformed (index : Int) (reason : ParseReason) : ParseError :=
  ⟨.malformedExpression, index, reason⟩

/-- The error of a token that cannot stand where it does. -/
def unexpected (t : Token) : ParseError :=
  malformed t.pos (if t.kind = .eof then .unexpectedEnd else .unexpected t.kind)

/-- The error of a token that opens one level of nesting too many. -/
def tooDeep (f : Frame) (t : Token) : ParseError :=
  malformed t.pos (.tooDeep f.limit)

/-- What changes while a sequence is parsed. -/
structure State where
  /-- The tokens that were not taken yet. -/
  rest : List Token
  /-- The number of levels of nesting that are open. -/
  depth : Int

namespace State

/-- The token to be taken next, or the end. -/
def peek (s : State) (f : Frame) : Token :=
  s.rest.head?.getD f.finish

/-- The state after the next token was taken. -/
def advance (s : State) : State :=
  { s with rest := s.rest.tail }

/-- The state with one more level open; it is reducible because its tokens bound outcomes. -/
@[reducible] def nest (s : State) : State :=
  { s with depth := s.depth + 1 }

/-- The state with one level less open. -/
def unnest (s : State) : State :=
  { s with depth := s.depth - 1 }

end State

/-- How a part of the parser ends: with a tree or with an error, and with a state in either case.  A
tree leaves fewer than `n` tokens. -/
inductive Outcome (n : Nat) where
  | parsed (tree : Expr) (after : State) (fewer : after.rest.length < n)
  | failed (e : ParseError) (after : State)

/-- Closes a level of nesting, whether there is a tree or an error. -/
def Outcome.unnest {n : Nat} : Outcome n → Outcome n
  | .parsed tree after fewer => .parsed tree after.unnest fewer
  | .failed e after => .failed e after.unnest

mutual

/-- Parses an atom and the operators after it that bind more tightly than `power`. -/
def expression (f : Frame) (power : Nat) (s : State) : Outcome s.rest.length :=
  match s with
  | ⟨[], depth⟩ => .failed (unexpected f.finish) ⟨[], depth⟩
  | ⟨t :: ts, depth⟩ =>
    match t.kind with
    | .number =>
      climb f power (t :: ts).length (.constant t.num t.value) ⟨ts, depth⟩ (by simp)
    | .parenLeft =>
      match group f t ⟨ts, depth⟩ with
      | .failed e after => .failed e after
      | .parsed inner after h =>
        have h : after.rest.length < ts.length := h
        climb f power (t :: ts).length inner after (by simp only [List.length_cons]; omega)
    | _ => .failed (unexpected t) ⟨t :: ts, depth⟩
termination_by (s.rest.length, 0)

/-- Parses what stands after the parenthesis `opening`, up to the closing one and with it. -/
def group (f : Frame) (opening : Token) (s : State) : Outcome s.rest.length :=
  if f.refuses s.depth then .failed (tooDeep f opening) s
  else (enclosed f s.nest).unnest
termination_by (s.rest.length, 2)

/-- Parses an expression that is not empty and the closing parenthesis after it. -/
def enclosed (f : Frame) (s : State) : Outcome s.rest.length :=
  if (s.peek f).kind = .parenRight then
    .failed (malformed (s.peek f).pos .emptyParentheses) s
  else
    match expression f 0 s with
    | .failed e after => .failed e after
    | .parsed tree after h =>
      let close := after.peek f
      if close.kind = .parenRight then
        .parsed tree after.advance (by simp only [State.advance, List.length_tail]; omega)
      else .failed (malformed close.pos (.unclosed close.kind)) after
termination_by (s.rest.length, 1)

/-- Parses the right operand of the operator `t`.  The one of `^` opens a level of nesting and may
itself go on with `^`. -/
def operand (f : Frame) (t : Token) (s : State) : Outcome s.rest.length :=
  if t.kind = .caret then
    if f.refuses s.depth then .failed (tooDeep f t) s
    else (expression f (bindingPower t.kind - 1) s.nest).unnest
  else expression f (bindingPower t.kind) s
termination_by (s.rest.length, 1)

/-- Takes operators that bind more tightly than `power`, with `left` as the first left operand.  The
tokens are fewer than `n`, and so are those left over. -/
def climb (f : Frame) (power n : Nat) (left : Expr) (s : State) (fewer : s.rest.length < n) :
    Outcome n :=
  match s with
  | ⟨[], depth⟩ => .parsed left ⟨[], depth⟩ fewer
  | ⟨t :: ts, depth⟩ =>
    if bindingPower t.kind ≤ power then .parsed left ⟨t :: ts, depth⟩ fewer
    else
      match operation? t.kind with
      | none => .failed (unexpected t) ⟨t :: ts, depth⟩
      | some op =>
        match operand f t ⟨ts, depth⟩ with
        | .failed e after => .failed e after
        | .parsed right after h =>
          have h : after.rest.length < ts.length := h
          climb f power n (.binary op left right) after
            (by simp only [List.length_cons] at fewer; omega)
termination_by (s.rest.length, 0)

end

/-- Parses a whole sequence of tokens.  The parentheses are checked first; then the sequence must
be one expression. -/
def parse (limit : Int) (ts : List Token) : Except ParseError Expr :=
  match balanceError? ts with
  | some e => .error e
  | none =>
    let f : Frame := ⟨limit, stopOf ts⟩
    if ts.isEmpty then .error (malformed f.stop .emptyExpression)
    else
      match expression f 0 ⟨ts, 0⟩ with
      | .failed e _ => .error e
      | .parsed tree ⟨[], _⟩ _ => .ok tree
      | .parsed _ ⟨t :: _, _⟩ _ => .error (malformed t.pos (.trailing t.kind))

end Parser
end Reckon
