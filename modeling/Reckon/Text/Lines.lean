import Reckon.Text.Bytes

/-!
# Lines of input

An input is read line by line.  A line ends with a line feed, and a carriage return in front of it
belongs to the ending.  A line has to fit in a buffer together with its line feed; reading stops at the
first line that does not.
-/

namespace Reckon

/-- The lines of an input up to its end or to a line that is too long. -/
structure Lines where
  lines : List Bytes
  /-- Whether reading stopped at a line that is too long. -/
  tooLong : Bool
  deriving DecidableEq, Repr

namespace Lines

/-- The size of the buffer for a line. -/
def bufferSize : Nat :=
  65536

/-- What is said of a line that is too long. -/
def tooLongMessage : Bytes :=
  "bufio.Scanner: token too long"

/-- A line without the carriage return at its end. -/
def dropReturn (line : Bytes) : Bytes :=
  match line.reverse with
  | 0x0D :: rest => rest.reverse
  | _ => line

/-- The pieces of an input between line feeds.  What follows the last line feed is a line if it is
not empty; it is left out while more of the input may come. -/
def pieces (isOpen : Bool) (s : Bytes) : List Bytes :=
  let all := Bytes.splitOn 0x0A s
  match all.getLast? with
  | some last =>
    if last.isEmpty || (isOpen && last.length < bufferSize) then all.dropLast else all
  | none => all

/-- The lines of an input; `isOpen` tells that more of it may come. -/
def ofBytes (isOpen : Bool) (s : Bytes) : Lines :=
  let all := pieces isOpen s
  let fitting := all.takeWhile (fun line => decide (line.length < bufferSize))
  ⟨fitting.map dropReturn, fitting.length < all.length⟩

end Lines
end Reckon
