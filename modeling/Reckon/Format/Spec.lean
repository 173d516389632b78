import Reckon.Decimal.Layout
import Reckon.Text.Utf8

/-!
# Format specifications

The flags, width and precision of a directive, and what they do to a text: padding, truncation and
the choice of a decimal notation.
-/

namespace Reckon
namespace Format

/-- The flags, width and precision of a directive. -/
structure Spec where
  sharp : Bool := false
  zero : Bool := false
  plus : Bool := false
  minus : Bool := false
  space : Bool := false
  /-- A plus flag given to the general verb, which shows no sign in double precision. -/
  verbosePlus : Bool := false
  width : Option Nat := none
  precision : Option Nat := none
  deriving DecidableEq, Repr

namespace Spec

/-- Copies of a byte that fill a text of `length` characters to the width. -/
def fill (spec : Spec) (byte : UInt8) (length : Nat) : Bytes :=
  List.replicate (spec.width.getD 0 - length) byte

/-- Pads a text to the width: on the right with the minus flag, else on the left, with zeros if the
zero flag asks for them. -/
def pad (spec : Spec) (text : Bytes) : Bytes :=
  let length := (Utf8.glyphs text).length
  if spec.minus then text ++ spec.fill 0x20 length
  else spec.fill (if spec.zero then 0x30 else 0x20) length ++ text

/-- Pads a text after cutting it to as many characters as the precision says. -/
def padText (spec : Spec) (text : Bytes) : Bytes :=
  match spec.precision with
  | none => spec.pad text
  | some n => spec.pad (((Utf8.glyphs text).take n).flatMap Glyph.bytes)

/-- The specification for the general verb: a plus flag no longer asks for a sign, and a sharp flag
for a point. -/
def forGeneral (spec : Spec) : Spec :=
  { spec with sharp := false, plus := false, verbosePlus := spec.plus }

end Spec

/-- The ways to write a decimal. -/
inductive Style where
  | exponential | positional | general
  deriving DecidableEq, Repr

/-- A number that can be written in decimal: its exact expansion, and the fewest digits that identify
it. -/
structure Source where
  exact : Decimal
  shortest : Unit → Decimal

/-- Writes a number in a style, with the precision or with the fewest digits that identify it.
`mark` is the letter before the exponent. -/
def write (source : Source) (style : Style) (precision : Option Nat) (mark : UInt8) : Bytes :=
  match precision with
  | some places =>
    let d := source.exact
    match style with
    | .exponential => (d.round (places + 1)).exponential places mark
    | .positional => (d.round (d.exp + places)).positional places
    | .general =>
      let digits := max places 1
      (d.round digits).generalRounded digits mark
  | none =>
    let d := source.shortest ()
    match style with
    | .exponential => d.exponential (d.digits.length - 1) mark
    | .positional => d.positional (d.digits.length - d.exp).toNat
    | .general => d.generalShortest mark

end Format
end Reckon
