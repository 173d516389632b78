import Reckon.Proofs.Format.LeftOver
import Reckon.Settings.Basic

/-!
# Results in an accepted format

A format string is accepted if it has a percent sign.  So it has a directive; but the directive may be a
percent sign that is written as such, or may end before its verb.  If no piece of the format string has a
use for the result, the result is reported as left over.  Otherwise it is used, and if the pieces are
plain, the first one that asks for it shows it.
-/

namespace Reckon
namespace Settings

open Format

variable {s : Settings}

/-- Settings are accepted exactly if the format string has a percent sign, and neither the nesting limit
nor the read timeout is negative. -/
theorem validate_eq_ok_iff :
    s.validate = .ok () ↔ percent ∈ s.format ∧ 0 ≤ s.maxDepth ∧ 0 ≤ s.readTimeout.ns := by
  have hvalid : s.validate = .ok () ↔ s.faults = [] := by
    unfold validate
    cases s.faults <;> simp
  have hformat : formatFault? s.format = none ↔ percent ∈ s.format := by
    unfold formatFault?
    cases s.format with
    | nil => simp
    | cons b rest => by_cases hb : percent = b <;> simp [hb]
  rw [hvalid, ← hformat]
  simp [faults]

theorem format_eq_fill (h : percent ∈ s.format) (r : Result) :
    r.format s.format = fill s.format r.operand := by
  have hne : s.format.isEmpty = false := by
    rw [List.isEmpty_eq_false_iff]
    exact List.ne_nil_of_mem h
  simp [Result.format, hne]

/-- A format string that is accepted has a directive.  If all its pieces are idle, the result is
reported as left over.  Otherwise it is not reported: it is used up, unless a piece names it by number.
And if the pieces are plain, the first one that is not idle shows it. -/
theorem format_of_accepted (h : s.validate = .ok ()) (r : Result) :
    let ps := pieces s.format
    (∃ tail, .directive tail ∈ ps) ∧
      (ps.all Piece.isIdle = true →
        r.format s.format = ps.flatMap Piece.unserved ++ leftOverReport r.operand) ∧
      (ps.all Piece.isIdle = false →
        r.format s.format = (writeAll r.operand {} ps).1 ∧
          (ps.any Piece.picks = false → (writeAll r.operand {} ps).2.unused = false)) ∧
      (ps.all Piece.isIdle = false → (∀ p ∈ ps, p.isPlain = true) →
        ∃ front p back spec verb, ps = front ++ p :: back ∧ front.all Piece.isIdle = true ∧
          p.asks? = some (spec, verb) ∧
          r.format s.format =
            front.flatMap Piece.unserved ++ r.operand.format spec verb ++
              back.flatMap Piece.unserved) := by
  intro ps
  have hpercent : percent ∈ s.format := (validate_eq_ok_iff.mp h).1
  have htext : r.format s.format =
      (writeAll r.operand {} ps).1 ++
        if ps.all Piece.isIdle then leftOverReport r.operand else [] := by
    rw [format_eq_fill hpercent, fill_eq_report]
  refine ⟨exists_directive_of_mem hpercent, ?_, ?_, ?_⟩
  · intro hidle
    rw [htext, if_pos hidle, writeAll_of_isIdle hidle]
  · intro hidle
    refine ⟨?_, fun hpicks => unused_writeAll hidle hpicks r.operand⟩
    simpa [hidle] using htext
  · intro hidle hplain
    obtain ⟨front, p, back, spec, verb, hps, hfront, hasks, hshown⟩ :=
      exists_writeAll_eq hplain hidle r.operand
    refine ⟨front, p, back, spec, verb, hps, hfront, hasks, ?_⟩
    rw [htext, hidle, ← hshown]
    simp

/-- The second directive of `a%.3f%%` is a percent sign, and the first one shows the result with three
decimals. -/
theorem format_of_accepted_thousandths :
    let s : Settings := { default with format := "a%.3f%%" }
    let r : Result := { value := 2, exact := none }
    s.validate = .ok () ∧
      r.format s.format = "a" ++ r.operand.format { precision := some 3 } 'f' ++ "%" := by
  intro s r
  have hvalid : s.validate = .ok () := validate_eq_ok_iff.mpr (by decide)
  have hpieces : pieces s.format = [.byte 0x61, .directive ".3f%%", .directive "%"] := by
    decide +kernel
  refine ⟨hvalid, ?_⟩
  obtain ⟨-, -, -, hshown⟩ := format_of_accepted hvalid r
  obtain ⟨front, p, back, spec, verb, hps, hfront, hasks, htext⟩ :=
    hshown (by decide +kernel) (isPlain_of_ordinary (by decide))
  rw [hpieces] at hps
  -- The byte in front does not ask for the result, and the directive behind it is not idle.
  rcases front with _ | ⟨b, _ | ⟨q, front⟩⟩ <;>
    simp only [List.nil_append, List.cons_append, List.cons.injEq] at hps
  · obtain ⟨rfl, -⟩ := hps
    cases hasks
  · obtain ⟨rfl, rfl, rfl⟩ := hps
    have hasked : Piece.asks? (.directive ".3f%%") = some ({ precision := some 3 }, 'f') := by
      decide +kernel
    obtain ⟨rfl, rfl⟩ := Prod.mk.inj (Option.some.inj (hasked.symm.trans hasks))
    rw [htext]
    rfl
  · obtain ⟨-, rfl, -⟩ := hps
    have hbusy : Piece.isIdle (.directive ".3f%%") = false := by decide +kernel
    simp [hbusy] at hfront

/-- A format string that is accepted may leave the result over: the only directive of `%%` writes a
percent sign. -/
theorem accepted_format_leaves_over :
    ¬ ∀ (s : Settings) (r : Result), s.validate = .ok () →
      ¬ leftOverReport r.operand <:+ r.format s.format := by
  intro h
  let s : Settings := { default with format := "%%" }
  let r : Result := { value := 2, exact := none }
  refine h s r (validate_eq_ok_iff.mpr (by decide)) ?_
  have hidle : (pieces s.format).all Piece.isIdle = true := by decide +kernel
  rw [format_eq_fill (by decide), fill_eq_report, if_pos hidle]
  exact List.suffix_append _ _

end Settings
end Reckon
