import Reckon.Text.Cursor
import Reckon.Token

/-!
# Reading tokens

Digits and points accumulate into literals, each of `+ - * / ^ ( )` is a token of its own, and
blanks are skipped.  Any other symbol is reported in strict mode and skipped in permissive mode.

The input is read character by character with a `Cursor`.  `step` looks for one token from a place on;
`scan` reads them all, and `Reader` hands them out one at a time.  A run of digits and points is
always taken as a whole, so that a literal with two points is one faulty literal and not two tokens.
-/

namespace Reckon

/-- What the lexer does with a symbol it does not know.  A mode known by its code alone is treated
as strict. -/
inductive Mode where
  | strict | permissive
  | unknown (code : Int)
  deriving DecidableEq, Repr

namespace Mode

/-- The mode with a given code. -/
def ofCode (code : Int) : Mode :=
  match code with
  | 0 => .strict
  | 1 => .permissive
  | n => .unknown n

/-- The name of a mode. -/
def name : Mode → Bytes
  | .strict => "strict"
  | .permissive => "permissive"
  | .unknown code => "Mode(" ++ Bytes.ofInt code ++ ")"

end Mode

/-- The kinds of lexical error. -/
inductive LexErrorKind where
  | invalidConstant | unknownSymbol
  | unknown (code : Int)
  deriving DecidableEq, Repr

namespace LexErrorKind

/-- The kind with a given code. -/
def ofCode (code : Int) : LexErrorKind :=
  match code with
  | 1 => .invalidConstant
  | 2 => .unknownSymbol
  | n => .unknown n

/-- The name of a kind. -/
def name : LexErrorKind → Bytes
  | .invalidConstant => "InvalidConstant"
  | .unknownSymbol => "UnknownSymbol"
  | .unknown code => "ErrorKind(" ++ Bytes.ofInt code ++ ")"

end LexErrorKind

/-- A text that is not a sequence of tokens. -/
structure LexError where
  kind : LexErrorKind
  /-- The index of the fault. -/
  index : Int
  /-- The faulty literal or character, quoted. -/
  text : Bytes
  deriving DecidableEq, Repr

/-- A kind and an index, followed by a reason unless that is empty. -/
def locatedMessage (kind : Bytes) (index : Int) (reason : Bytes) : Bytes :=
  let place := kind ++ " at index " ++ Bytes.ofInt index
  if reason.isEmpty then place else place ++ ": " ++ reason

/-- The message of a lexical error. -/
def LexError.message (e : LexError) : Bytes :=
  locatedMessage e.kind.name e.index e.text

namespace Lexer

/-- Whether a character may stand between tokens. -/
def isBlank (c : Char) : Bool :=
  c = ' ' || c = '\t' || c = '\r' || c = '\n'

/-- Whether a character belongs to literals. -/
def isNumeric (c : Char) : Bool :=
  c.isDigit || c = '.'

/-- The kind of the token that a character is by itself. -/
def single? (c : Char) : Option TokenKind :=
  match c with
  | '-' => some .minus
  | '+' => some .plus
  | '*' => some .asterisk
  | '/' => some .slash
  | '^' => some .caret
  | '(' => some .parenLeft
  | ')' => some .parenRight
  | _ => none

/-- The error of a run that is no literal: it is reported where the run stopped, or at the last byte
of the input. -/
def badLiteral (c : Cursor) : LexError where
  kind := .invalidConstant
  index := if c.ahead.isEmpty then (c.pos : Int) - 1 else c.pos
  text := Quoted.text c.piece

/-- The error of an unknown symbol, which quotes the character. -/
def unknownSymbol (g : Glyph) (c : Cursor) : LexError where
  kind := .unknownSymbol
  index := c.pos
  text := Quoted.char g.toChar

/-- The outcome of looking for one token, and the cursor after it. -/
inductive Step where
  | token (t : Token) (after : Cursor)
  /-- The end of the input, and the token that stands for it. -/
  | finish (t : Token) (after : Cursor)
  | fault (e : LexError) (after : Cursor)

/-- Ends the current piece, which is a token of the given kind. -/
def emit (kind : TokenKind) (c : Cursor) : Step :=
  .token (Token.make kind c.piece c.start) c.mark

/-- Reads the literal that starts at a place. -/
def number (c : Cursor) : Step :=
  let c := c.acceptRun isNumeric
  match Double.read? c.piece with
  | some num => .token { kind := .number, value := c.piece, num, pos := c.start } c.mark
  | none => .fault (badLiteral c) c.mark

/-- Looks for the next token. -/
def step (mode : Mode) (c : Cursor) : Step :=
  match _h : c.peek with
  | (none, c) => .finish (Token.make .eof c.piece c.start) c.mark
  | (some g, c) =>
    if isBlank g.toChar then step mode (c.acceptRun isBlank).mark
    else if isNumeric g.toChar then number c
    else
      match single? g.toChar with
      | some kind => emit kind c.next.2
      | none =>
        if mode = .permissive then step mode c.next.2.mark
        else .fault (unknownSymbol g c) c
termination_by c.ahead.length
decreasing_by
  · obtain ⟨hahead, hnext⟩ := Cursor.next_fst_of_peek ‹_›
    simpa [hahead] using Cursor.length_ahead_acceptRun_lt hnext ‹_›
  · obtain ⟨hahead, hnext⟩ := Cursor.next_fst_of_peek ‹_›
    simpa [hahead] using Cursor.length_ahead_next_lt hnext

/-- A token takes at least one byte. -/
theorem length_lt_of_step_eq_token {mode : Mode} {c d : Cursor} {t : Token}
    (h : step mode c = .token t d) : d.ahead.length < c.ahead.length := by
  fun_induction step mode c with
  | case1 c c₁ hpeek => simp at h
  | case2 c g c₁ hpeek hblank ih =>
    obtain ⟨hahead, hnext⟩ := Cursor.next_fst_of_peek hpeek
    have := Cursor.length_ahead_acceptRun_lt hnext hblank
    have := ih h
    simp [hahead] at *
    omega
  | case3 c g c₁ hpeek hblank hnumeric =>
    obtain ⟨hahead, hnext⟩ := Cursor.next_fst_of_peek hpeek
    have hlt := Cursor.length_ahead_acceptRun_lt hnext hnumeric
    simp only [number] at h
    split at h
    · simp only [Step.token.injEq] at h
      simpa [← h.2, hahead] using hlt
    · simp at h
  | case4 c g c₁ hpeek hblank hnumeric kind hkind =>
    obtain ⟨hahead, hnext⟩ := Cursor.next_fst_of_peek hpeek
    have hlt := Cursor.length_ahead_next_lt hnext
    simp only [emit, Step.token.injEq] at h
    simpa [← h.2, hahead] using hlt
  | case5 c g c₁ hpeek hblank hnumeric hkind hmode ih =>
    obtain ⟨hahead, hnext⟩ := Cursor.next_fst_of_peek hpeek
    have := Cursor.length_ahead_next_lt hnext
    have := ih h
    simp [hahead] at *
    omega
  | case6 c g c₁ hpeek hblank hnumeric hkind hmode => simp at h

/-- The token of the end is one. -/
theorem kind_of_step_eq_finish {mode : Mode} {c d : Cursor} {t : Token}
    (h : step mode c = .finish t d) : t.kind = .eof := by
  fun_induction step mode c with
  | case1 c c₁ hpeek =>
    obtain ⟨rfl, -⟩ := Step.finish.injEq .. ▸ h
    rfl
  | case2 c g c₁ hpeek hblank ih => exact ih h
  | case3 c g c₁ hpeek hblank hnumeric =>
    simp only [number] at h
    split at h <;> cases h
  | case4 c g c₁ hpeek hblank hnumeric kind hkind => cases h
  | case5 c g c₁ hpeek hblank hnumeric hkind hmode ih => exact ih h
  | case6 c g c₁ hpeek hblank hnumeric hkind hmode => cases h

/-- The tokens in front of the end or the first fault, and that fault. -/
structure Scan where
  tokens : List Token
  fault : Option LexError

/-- Reads tokens after those already collected, the latest first. -/
def scanOnto (mode : Mode) (done : List Token) (c : Cursor) : Scan :=
  match _h : step mode c with
  | .token t after => scanOnto mode (t :: done) after
  | .finish _ _ => ⟨done.reverse, none⟩
  | .fault e _ => ⟨done.reverse, some e⟩
termination_by c.ahead.length
decreasing_by exact length_lt_of_step_eq_token ‹_›

/-- Reads all tokens of an input. -/
def scan (mode : Mode) (s : Bytes) : Scan :=
  scanOnto mode [] (Cursor.ofText s)

/-- The tokens of an input, or its first fault. -/
def tokenize (mode : Mode) (s : Bytes) : Except LexError (List Token) :=
  match scan mode s with
  | ⟨tokens, none⟩ => .ok tokens
  | ⟨_, some e⟩ => .error e

/-- An item of the sequence of tokens: a token, or the error that ends the sequence. -/
abbrev Item := Except LexError Token

/-- A lexer that hands out one token at a time. -/
structure Reader where
  mode : Mode
  cursor : Cursor
  /-- The error that stopped the lexer. -/
  failure : Option LexError

namespace Reader

/-- A lexer at the start of an input. -/
def start (mode : Mode) (s : Bytes) : Reader :=
  ⟨mode, Cursor.ofText s, none⟩

/-- The token that stands for an error. -/
def errorToken (e : LexError) : Token :=
  Token.make .error e.message e.index

/-- The next token and the lexer after it.  At the end of the input the end is handed out again and
again, and after an error that error. -/
def next (r : Reader) : Token × Reader :=
  match r.failure with
  | some e => (errorToken e, r)
  | none =>
    match step r.mode r.cursor with
    | .token t after => (t, { r with cursor := after })
    | .finish t after => (t, { r with cursor := after })
    | .fault e after => (errorToken e, { r with cursor := after, failure := some e })

/-- The first `n` tokens handed out, each with the error known after it. -/
def take (r : Reader) : Nat → List (Token × Option LexError)
  | 0 => []
  | n + 1 =>
    let (t, r) := r.next
    (t, r.failure) :: r.take n

/-- A token that is neither the end nor an error takes at least one byte. -/
theorem length_lt_of_next {r r' : Reader} {t : Token} (h : r.next = (t, r'))
    (heof : t.kind ≠ .eof) (herror : t.kind ≠ .error) :
    r'.cursor.ahead.length < r.cursor.ahead.length := by
  unfold next at h
  split at h
  · obtain ⟨rfl, -⟩ := Prod.mk.inj h
    exact absurd rfl herror
  · split at h
    · obtain ⟨rfl, rfl⟩ := Prod.mk.inj h
      exact length_lt_of_step_eq_token ‹_›
    · obtain ⟨rfl, -⟩ := Prod.mk.inj h
      exact absurd (kind_of_step_eq_finish ‹_›) heof
    · obtain ⟨rfl, -⟩ := Prod.mk.inj h
      exact absurd rfl herror

/-- A pass over the tokens that a lexer hands out.  The body gets them one by one, and at an error that
error as the last item; it turns its state into a new one and says whether to go on. -/
def each {σ : Type} (body : Item → σ → σ × Bool) (r : Reader) (s : σ) : σ :=
  match _h : r.next with
  | (t, r') =>
    if _heof : t.kind = .eof then s
    else if _herror : t.kind = .error then
      match r'.failure with
      | some e => (body (.error e) s).1
      | none => (body (.ok t) s).1
    else
      match body (.ok t) s with
      | (s, false) => s
      | (s, true) => each body r' s
termination_by r.cursor.ahead.length
decreasing_by exact length_lt_of_next ‹_› ‹_› ‹_›

end Reader

/-- The items of an input: its tokens, and the fault after them if there is one. -/
def items (mode : Mode) (s : Bytes) : List Item :=
  let found := scan mode s
  found.tokens.map .ok ++ (found.fault.map (fun e => [.error e])).getD []

/-- A pass over the items of an input, which starts from the beginning each time. -/
def each {σ : Type} (mode : Mode) (s : Bytes) (body : Item → σ → σ × Bool) (state : σ) : σ :=
  (Reader.start mode s).each body state

/-- What one pass over the items sees when it leaves after `count` of them; a count of zero or less
is no limit. -/
def pass (mode : Mode) (s : Bytes) (count : Int) : List Item :=
  let body (item : Item) (seen : List Item) : List Item × Bool :=
    let seen := item :: seen
    (seen, !(0 < count && count ≤ seen.length))
  (each mode s body []).reverse

end Lexer
end Reckon
