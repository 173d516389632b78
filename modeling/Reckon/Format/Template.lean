import Reckon.Format.Binary

/-!
# Format strings

A format string is copied to the output, except for its directives: a percent sign, flags, an optional
width and precision, and a verb.  There is one operand.  Whatever a format string gets wrong is
reported inside the output: an unknown verb, a missing verb, an operand that is used twice or not at
all.

A directive may name the operand by number in brackets.  Such a string is taken to pick its operands
on purpose, and an operand left over is not reported.
-/

namespace Reckon
namespace Format

/-- The value that a format string formats. -/
inductive Operand where
  | double (x : Float)
  /-- A number of chosen precision, how it is stored, and where in memory. -/
  | binary (x : Binary) (stored : Unit → Stored) (location : UInt64)

namespace Spec

/-- The number of digits that an integer is filled up to with zeros: the precision, or with the zero
flag the width, less the room for a sign. -/
def leastDigits (spec : Spec) : Nat :=
  match spec.precision with
  | some n => n
  | none =>
    if spec.zero && !spec.minus then
      spec.width.getD 0 - (if spec.plus || spec.space then 1 else 0)
    else 0

/-- A place in memory in hexadecimal digits.  The sharp flag leaves out the mark of the base. -/
def locationText (spec : Spec) (location : UInt64) : Bytes :=
  let spaced := { spec with zero := false }
  if spec.precision = some 0 && location = 0 then spaced.pad []
  else
    let digits := hexText location.toNat
    let zeros := List.replicate (spec.leastDigits - digits.length) 0x30
    let mark : Bytes := if spec.sharp then [] else "0x"
    let sign : Bytes := if spec.plus then "+" else if spec.space then " " else []
    spaced.pad (sign ++ mark ++ zeros ++ digits)

end Spec

namespace Operand

/-- The name of an operand's type. -/
def typeName : Operand → Bytes
  | .double _ => "float64"
  | .binary _ _ _ => "*big.Float"

/-- The operand in its default notation under some flags. -/
def general (v : Operand) (spec : Spec) : Bytes :=
  match v with
  | .double x => (formatDouble? x spec 'v').getD []
  | .binary x _ _ => (formatBinary? x spec 'v').getD []

/-- The report of a verb that an operand does not have. -/
def badVerb (verb : Char) (typeName shown : Bytes) : Bytes :=
  "%!" ++ Utf8.encode verb ++ "(" ++ typeName ++ "=" ++ shown ++ ")"

/-- The operand for a verb.  The verb `T` shows its type, and the verb `p` where a number of chosen
precision is stored.  A verb that the operand does not have is reported with the operand in default
notation, and the verb `w` with its fields. -/
def format (v : Operand) (spec : Spec) (verb : Char) : Bytes :=
  if verb = 'T' then spec.padText v.typeName
  else
    let spec := if verb = 'v' || verb = 'w' then spec.forGeneral else spec
    match v with
    | .double x =>
      match formatDouble? x spec verb with
      | some text => text
      | none => badVerb verb v.typeName (v.general spec)
    | .binary x stored location =>
      if verb = 'p' then spec.locationText location
      else if verb = 'w' then badVerb verb v.typeName (fieldsText (stored ()))
      else match formatBinary? x spec verb with
        | some text => text
        | none => badVerb verb v.typeName (shownBinary x)

end Operand

/-- What is known about the operand while a format string is read. -/
structure State where
  /-- Whether the operand is still to be used. -/
  unused : Bool := true
  /-- Whether a directive named an operand by number. -/
  picked : Bool := false
  /-- Whether the numbers named by the current directive exist. -/
  valid : Bool := true
  deriving DecidableEq, Repr

/-- Reads the flags of a directive. -/
def takeFlags (spec : Spec) : Bytes → Spec × Bytes
  | [] => (spec, [])
  | b :: s =>
    match b with
    | 0x23 => takeFlags { spec with sharp := true } s
    | 0x30 => takeFlags { spec with zero := true } s
    | 0x2B => takeFlags { spec with plus := true } s
    | 0x2D => takeFlags { spec with minus := true } s
    | 0x20 => takeFlags { spec with space := true } s
    | _ => (spec, b :: s)

/-- The largest number that may be followed by another digit. -/
def numberLimit : Nat := 1000000

/-- Reads a decimal number.  One that is too large is no number, and ends the format string. -/
def takeNumber (read : Option Nat) : Bytes → Option Nat × Bytes
  | [] => (read, [])
  | b :: s =>
    if Bytes.isDigit b then
      let n := read.getD 0
      if n > numberLimit then (none, [])
      else takeNumber (some (n * 10 + Bytes.digitValue b)) s
    else (read, b :: s)

/-- The number between brackets, if it is one. -/
def bracketNumber? (inner : Bytes) : Option Nat :=
  match takeNumber none inner with
  | (some n, []) => some n
  | _ => none

/-- Reads the number of an operand in brackets, and says whether there was one.  Only the number one
exists. -/
def takeIndex (state : State) (s : Bytes) : State × Bytes × Bool :=
  match s with
  | 0x5B :: rest =>
    let state := { state with picked := true }
    let inner := rest.takeWhile (· != 0x5D)
    match rest.dropWhile (· != 0x5D) with
    | [] => ({ state with valid := false }, rest, false)
    | _ :: after =>
      if s.length < 3 then ({ state with valid := false }, rest, false)
      else match bracketNumber? inner with
        | some 1 => ({ state with unused := true }, after, true)
        | some _ => ({ state with valid := false }, after, true)
        | none => ({ state with valid := false }, after, false)
  | _ => (state, s, false)

/-- A directive in front of its verb. -/
structure Opening where
  state : State
  spec : Spec
  /-- What the directive has written so far. -/
  written : Bytes
  /-- Whether a number in brackets stands just before `rest`. -/
  indexed : Bool
  /-- What is left of the format string. -/
  rest : Bytes

/-- Reads flags and the number of an operand. -/
def startOpening (state : State) (s : Bytes) : Opening :=
  let flags := takeFlags {} s
  let (state, rest, indexed) := takeIndex { state with valid := true } flags.2
  ⟨state, flags.1, [], indexed, rest⟩

/-- Reads a width.  One taken from the operand uses it up and is reported, because the operand is no
integer. -/
def takeWidth (o : Opening) : Opening :=
  match o.rest with
  | 0x2A :: rest =>
    { o with
      state := { o.state with unused := false }
      written := o.written ++ "%!(BADWIDTH)"
      indexed := false
      rest }
  | s =>
    let (width, rest) := takeNumber none s
    { o with
      state := { o.state with valid := o.state.valid && !(o.indexed && width.isSome) }
      spec := { o.spec with width }
      rest }

/-- Reads a precision after its point.  One taken from the operand uses it up and is reported. -/
def takePrecision (o : Opening) : Opening :=
  match o.rest with
  | 0x2E :: s =>
    let (state, s, indexed) :=
      takeIndex { o.state with valid := o.state.valid && !o.indexed } s
    match s with
    | 0x2A :: rest =>
      { o with
        state := { state with unused := false }
        written := o.written ++ "%!(BADPREC)"
        indexed := false
        rest }
    | s =>
      let (precision, rest) := takeNumber none s
      { o with
        state
        spec := { o.spec with precision := some (precision.getD 0) }
        indexed
        rest }
  | _ => o

/-- Reads the number of an operand unless one was just read. -/
def endOpening (o : Opening) : Opening :=
  if o.indexed then o
  else
    let (state, rest, indexed) := takeIndex o.state o.rest
    { o with state, rest, indexed }

/-- Reads a directive up to its verb. -/
def takeOpening (state : State) (s : Bytes) : Opening :=
  endOpening (takePrecision (takeWidth (startOpening state s)))

/-- Flags are taken off the front. -/
theorem length_takeFlags_le (spec : Spec) (s : Bytes) :
    (takeFlags spec s).2.length ≤ s.length := by
  fun_induction takeFlags spec s <;> simp_all <;> omega

/-- A number is taken off the front. -/
theorem length_takeNumber_le (read : Option Nat) (s : Bytes) :
    (takeNumber read s).2.length ≤ s.length := by
  fun_induction takeNumber read s with
  | case1 => exact Nat.le_refl _
  | case2 => exact Nat.zero_le _
  | case3 read b s _ _ _ ih => exact Nat.le_succ_of_le ih
  | case4 => exact Nat.le_refl _

/-- A number in brackets is taken off the front. -/
theorem length_takeIndex_le (state : State) (s : Bytes) :
    (takeIndex state s).2.1.length ≤ s.length := by
  unfold takeIndex
  split
  · next rest =>
    have h := (List.dropWhile_suffix (p := fun b : UInt8 => b != 0x5D) (l := rest)).length_le
    simp only
    split
    · simp
    · next after heq =>
      rw [heq] at h
      simp only [List.length_cons] at h
      repeat' split
      all_goals simp only [List.length_cons]
      all_goals omega
  · simp

/-- Reading the opening of a directive takes nothing but its front off the format string. -/
theorem length_takeOpening_le (state : State) (s : Bytes) :
    (takeOpening state s).rest.length ≤ s.length := by
  have hstart : (startOpening state s).rest.length ≤ s.length :=
    Nat.le_trans (length_takeIndex_le _ _) (length_takeFlags_le _ _)
  have hwidth (o : Opening) : (takeWidth o).rest.length ≤ o.rest.length := by
    unfold takeWidth
    split
    · next h => simp [h]
    · exact length_takeNumber_le _ _
  have hprec (o : Opening) : (takePrecision o).rest.length ≤ o.rest.length := by
    unfold takePrecision
    split
    · next s h =>
      generalize hstate : ({ o.state with valid := o.state.valid && !o.indexed } : State) = st
      have hi := length_takeIndex_le st s
      rw [h]
      simp only
      split
      · next h' =>
        rw [h'] at hi
        simp only [List.length_cons] at hi ⊢
        omega
      · exact Nat.le_trans (length_takeNumber_le none _) (Nat.le_succ_of_le hi)
    · exact Nat.le_refl _
  have hend (o : Opening) : (endOpening o).rest.length ≤ o.rest.length := by
    unfold endOpening
    split
    · exact Nat.le_refl _
    · exact length_takeIndex_le _ _
  exact Nat.le_trans (hend _) (Nat.le_trans (hprec _) (Nat.le_trans (hwidth _) hstart))

/-- The text of a directive with its verb, and the state after it. -/
def applyVerb (v : Operand) (state : State) (spec : Spec) (verb : Char) : Bytes × State :=
  if verb = '%' then ("%", state)
  else if !state.valid then ("%!" ++ Utf8.encode verb ++ "(BADINDEX)", state)
  else if !state.unused then ("%!" ++ Utf8.encode verb ++ "(MISSING)", state)
  else (v.format spec verb, { state with unused := false })

/-- The end of the output: a report of an operand that no directive used. -/
def closing (v : Operand) (state : State) : Bytes :=
  if state.unused && !state.picked then
    "%!(EXTRA " ++ v.typeName ++ "=" ++ v.general {} ++ ")"
  else []

/-- Formats the rest of a format string after the output so far, which is given in reverse. -/
def fillFrom (v : Operand) (state : State) (done : Bytes) (s : Bytes) : Bytes :=
  match s with
  | [] => done.reverse ++ closing v state
  | b :: s =>
    if b = 0x25 then
      let o := takeOpening state s
      match _h : o.rest with
      | [] => done.reverse ++ o.written ++ "%!(NOVERB)" ++ closing v o.state
      | c :: after =>
        let (text, state') := applyVerb v o.state o.spec (Utf8.front c after).1.toChar
        fillFrom v state' (text.reverse ++ o.written.reverse ++ done) (Utf8.front c after).2
    else fillFrom v state (b :: done) s
termination_by s.length
decreasing_by
  · have h₁ := length_takeOpening_le state s
    have h₂ := Utf8.length_front_le c after
    have h₃ : (takeOpening state s).rest.length = after.length + 1 := congrArg List.length _h
    simp_all only [List.length_cons]
    omega
  · simp

/-- The output of a format string for an operand. -/
def fill (template : Bytes) (v : Operand) : Bytes :=
  fillFrom v {} [] template

end Format
end Reckon
