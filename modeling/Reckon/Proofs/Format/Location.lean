import Reckon.Calculator
import Reckon.Proofs.Format.Pieces

/-!
# Where a number is stored

The place of a number in memory is no part of its value, and it may be another one whenever the same
expression is evaluated.  Evaluation passes it on and does nothing else with it.  It is seen in one way
only: a number of chosen precision shows it for the verb `p`.  So a format string without a directive for
that verb has the same output wherever the operand is stored.
-/

namespace Reckon
namespace Format

/-- Whether a directive of a format string has the verb for the place of the operand. -/
def ShowsLocation (template : Bytes) : Prop :=
  ∃ tail, .directive tail ∈ pieces template ∧ verb? tail = some 'p'

/-- Two operands that are told apart by the verb `p` only. -/
structure Operand.Alike (v w : Operand) : Prop where
  typeName_eq : v.typeName = w.typeName
  general_eq : ∀ spec, v.general spec = w.general spec
  format_eq : ∀ spec verb, verb ≠ 'p' → v.format spec verb = w.format spec verb

theorem Operand.alike_binary (x : Binary) (stored : Unit → Stored) (location location' : UInt64) :
    (Operand.binary x stored location).Alike (.binary x stored location') where
  typeName_eq := rfl
  general_eq _ := rfl
  format_eq spec verb hverb := by simp [Operand.format, Operand.typeName, hverb]

variable {v w : Operand} (h : v.Alike w)

include h

theorem Piece.write_of_alike
    {p : Piece} (hp : ∀ tail, p = .directive tail → verb? tail ≠ some 'p') (state : State) :
    p.write v state = p.write w state := by
  cases p with
  | byte b => rfl
  | directive tail =>
    cases hverb : verb? tail with
    | none => simp [Piece.write, hverb]
    | some verb =>
      have hne : verb ≠ 'p' := fun heq => hp tail rfl (heq ▸ hverb)
      simp [Piece.write, hverb, applyVerb, h.format_eq _ verb hne]

theorem writeAll_of_alike
    {ps : List Piece} (hps : ∀ tail, .directive tail ∈ ps → verb? tail ≠ some 'p') (state : State) :
    writeAll v state ps = writeAll w state ps := by
  induction ps generalizing state with
  | nil => rfl
  | cons p ps ih =>
    have hp : p.write v state = p.write w state :=
      Piece.write_of_alike h (fun tail htail => hps tail (htail ▸ List.mem_cons_self)) state
    rw [writeAll_cons, writeAll_cons, hp, ih fun tail hmem => hps tail (List.mem_cons_of_mem _ hmem)]

theorem fill_of_alike {template : Bytes} (hshows : ¬ ShowsLocation template) :
    fill template v = fill template w := by
  have hps : ∀ tail, .directive tail ∈ pieces template → verb? tail ≠ some 'p' :=
    fun tail hmem hverb => hshows ⟨tail, hmem, hverb⟩
  rw [fill_eq, fill_eq, writeAll_of_alike h hps, closing, closing, h.typeName_eq, h.general_eq]

end Format

namespace Result

/-- Whether results show where they are stored: they are in arbitrary precision, and the format string,
or the default one if it is empty, asks for that. -/
def ShowsLocation (precision : Nat) (template : Bytes) : Prop :=
  precision ≠ 0 ∧ Format.ShowsLocation (if template.isEmpty then defaultFormat else template)

theorem format_of_not_showsLocation
    {template : Bytes} (r : Result) (location : UInt64)
    (h : r.exact = none ∨
      ¬ Format.ShowsLocation (if template.isEmpty then defaultFormat else template)) :
    ({ r with location } : Result).format template = r.format template := by
  unfold format operand
  cases hexact : r.exact with
  | none => rfl
  | some x =>
    have hshows := h.resolve_left (by simp [hexact])
    exact Format.fill_of_alike (Format.Operand.alike_binary x _ location r.location) hshows

end Result

namespace Calculator

variable (c : Calculator) (fraction : Binary.FractionalPower) (location location' : UInt64)

/-- Where a value is stored does not bear on what it is, or on whether there is one. -/
theorem eval_location (s : Bytes) :
    c.eval s fraction location' =
      (c.eval s fraction location).map fun r => { r with location := location' } := by
  unfold eval value
  cases parseText c.mode c.maxDepth s with
  | error f => rfl
  | ok tree =>
    dsimp only
    split
    · cases tree.evaluate <;> rfl
    · cases tree.evaluateBinary c.precision fraction with
      | ok x => rfl
      | error e => cases e <;> rfl

theorem exact_eq_none_of_eval
    {s : Bytes} {r : Result} (hprec : c.precision = 0) (h : c.eval s fraction location = .ok r) :
    r.exact = none := by
  unfold eval value at h
  cases hparse : parseText c.mode c.maxDepth s with
  | error f => simp [hparse] at h
  | ok tree =>
    cases hvalue : tree.evaluate with
    | error d => simp [hparse, hprec, hvalue] at h
    | ok x =>
      simp only [hparse, hprec, hvalue, ↓reduceIte, Except.ok.injEq] at h
      rw [← h]

/-- The text of a result is the same wherever the result is stored, unless it shows that. -/
theorem format_eval_location
    {template : Bytes} (h : ¬ Result.ShowsLocation c.precision template) (s : Bytes) :
    (c.eval s fraction location').map (·.format template) =
      (c.eval s fraction location).map (·.format template) := by
  rw [c.eval_location fraction location location']
  cases heval : c.eval s fraction location with
  | error f => rfl
  | ok r =>
    refine congrArg Except.ok (Result.format_of_not_showsLocation r location' ?_)
    by_cases hprec : c.precision = 0
    · exact Or.inl (c.exact_eq_none_of_eval fraction location hprec heval)
    · exact Or.inr fun hshows => h ⟨hprec, hshows⟩

end Calculator
end Reckon
