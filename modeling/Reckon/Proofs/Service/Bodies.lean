import Reckon.Proofs.Service.Replies

/-!
# Bodies sent for evaluation

A body is a request if it starts with a document whose fields all have the name that stands for an
expression.  The expression that is given last is evaluated, and any other body is refused without an
evaluation.

A request is read up to the end of its document only.  What stands behind it is not looked at, so a body
that goes on with something else is not refused.
-/

namespace Reckon
namespace Service

/-- A document that requests the value of an expression: the one given last, or an empty one if none is
given. -/
def Requests (document e : Bytes) : Prop :=
  ∃ fields, Json.Document document fields ∧
    (∀ field ∈ fields, matchesName expressionField field.1 = true) ∧
    e = (fields.filterMap Prod.snd).getLastD []

/-! ## Reading -/

theorem foldlM_expression_eq_some_iff {fields : List (Bytes × Option Bytes)} {e₀ e : Bytes} :
    fields.foldlM
        (fun expression (name, value) =>
          if matchesName expressionField name then some (value.getD expression) else none) e₀ =
        some e ↔
      (∀ field ∈ fields, matchesName expressionField field.1 = true) ∧
        e = (fields.filterMap Prod.snd).getLastD e₀ := by
  induction fields generalizing e₀ with
  | nil =>
    rw [List.foldlM_nil]
    simpa using eq_comm
  | cons field fields ih =>
    obtain ⟨name, value⟩ := field
    by_cases hname : matchesName expressionField name = true
    · cases value with
      | none => simp [hname, ih]
      | some text =>
        have hlast : (((name, some text) :: fields).filterMap Prod.snd).getLastD e₀ =
            (fields.filterMap Prod.snd).getLastD text := by
          rw [List.filterMap_cons]
          exact List.getLastD_cons
        rw [List.foldlM_cons, hlast]
        simp [hname, ih]
    · simp [hname]

/-- An expression is read exactly in the bodies that start with a document requesting its value. -/
theorem readRequest_eq_some_iff {body e : Bytes} (hsize : body.length ≤ maxSize) :
    readRequest? body = some e ↔
      ∃ document rest, body = document ++ rest ∧ Requests document e := by
  rw [readRequest?, List.take_of_length_le hsize, Option.bind_eq_some_iff]
  constructor
  · rintro ⟨fields, hread, hfields⟩
    obtain ⟨document, rest, hsplit, hdocument⟩ := Json.readObject_eq_some_iff.mp hread
    exact ⟨document, rest, hsplit, fields, hdocument, foldlM_expression_eq_some_iff.mp hfields⟩
  · rintro ⟨document, rest, hsplit, fields, hdocument, hfields⟩
    exact ⟨fields, Json.readObject_eq_some_iff.mpr ⟨document, rest, hsplit, hdocument⟩,
      foldlM_expression_eq_some_iff.mpr hfields⟩

theorem respondEvaluate_of_not_readRequest
    (s : Service) (lib : Libraries) (location : UInt64) {body : Bytes}
    (h : readRequest? body = none) :
    s.respondEvaluate body lib location =
      (⟨400, "application/json", none,
        (Reply.badRequest (badBody (lib.refusal body))).render lib⟩, []) := by
  simp only [respondEvaluate, h]
  rfl

/-- A body of the allowed size that starts with a document requesting the value of an expression is
answered with the line for that expression, whatever stands behind the document.  Every other one is
refused as a bad request, in the same words by every service and with nothing logged. -/
theorem respond_to_body
    (s : Service) (lib : Libraries) (location : UInt64) {body : Bytes}
    (hsize : body.length ≤ maxSize) :
    (∀ document rest e, body = document ++ rest → Requests document e →
      s.respond ⟨"POST", "/evaluate", body⟩ lib location =
        (⟨if (s.evaluate e lib location).succeeded then 200 else 422, "application/json", none,
          s.lineFor lib (.text e) location⟩, (s.evaluate e lib location).log)) ∧
    ((∀ document rest e, body = document ++ rest → ¬ Requests document e) →
      s.respond ⟨"POST", "/evaluate", body⟩ lib location =
        (⟨400, "application/json", none,
          (Reply.badRequest (badBody (lib.refusal body))).render lib⟩, [])) := by
  rw [respond_evaluate]
  constructor
  · intro document rest e hsplit hrequests
    apply s.respondEvaluate_of_readRequest
    exact (readRequest_eq_some_iff hsize).mpr ⟨document, rest, hsplit, hrequests⟩
  · intro hnone
    apply s.respondEvaluate_of_not_readRequest
    rw [Option.eq_none_iff_forall_ne_some]
    intro e hread
    obtain ⟨document, rest, hsplit, hrequests⟩ := (readRequest_eq_some_iff hsize).mp hread
    exact hnone document rest e hsplit hrequests

/-- A request with a word behind it is answered with the line for its expression, and an object with
a field of another name is refused, with what the reader of bodies says of it. -/
theorem respond_to_body_of_two :
    let s : Service := ⟨{}, [], false⟩
    let lib : Libraries := { refusal := fun _ => "json: unknown field \"mode\"" }
    (s.respond ⟨"POST", "/evaluate", "\x7b\"expression\":\"1\"\x7d trailing"⟩ lib).1.body =
        s.lineFor lib (.text "1") 0 ∧
      s.respond ⟨"POST", "/evaluate", "\x7b\"expression\":\"1\",\"mode\":null\x7d"⟩ lib =
        (⟨400, "application/json", none,
          (Reply.badRequest "invalid request body: json: unknown field \"mode\"").render lib⟩, []) := by
  intro s lib
  constructor
  · have hread : readRequest? "\x7b\"expression\":\"1\"\x7d trailing" = some "1" := by
      decide +kernel
    have hsize : ("\x7b\"expression\":\"1\"\x7d trailing" : Bytes).length ≤ maxSize := by
      decide +kernel
    obtain ⟨document, rest, hsplit, hrequests⟩ := (readRequest_eq_some_iff hsize).mp hread
    rw [(respond_to_body s lib 0 hsize).1 document rest "1" hsplit hrequests]
  · have hread : readRequest? "\x7b\"expression\":\"1\",\"mode\":null\x7d" = none := by
      decide +kernel
    have hsize : ("\x7b\"expression\":\"1\",\"mode\":null\x7d" : Bytes).length ≤ maxSize := by
      decide +kernel
    apply (respond_to_body s lib 0 hsize).2
    intro document rest e hsplit hrequests
    cases hread.symm.trans ((readRequest_eq_some_iff hsize).mpr ⟨document, rest, hsplit, hrequests⟩)

/-- A request with a word behind it is not refused, although the body is not one document. -/
theorem trailing_word_accepted :
    let s : Service := ⟨{}, [], false⟩
    let body : Bytes := "\x7b\"expression\":\"1\"\x7d trailing"
    body.length ≤ maxSize ∧ (s.respond ⟨"POST", "/evaluate", body⟩).1.status ∈ [200, 422] ∧
      ¬ ∃ document spacing e, body = document ++ spacing ∧ Json.IsSpacing spacing ∧
        Requests document e := by
  intro s body
  refine ⟨by decide +kernel, ?_, ?_⟩
  · have hread : readRequest? body = some "1" := by decide +kernel
    rw [s.respond_of_readRequest {} hread]
    dsimp only
    split <;> decide
  · rintro ⟨document, spacing, e, hsplit, hspacing, fields, hdocument, -⟩
    -- The last byte of the body is neither white space nor the end of a document.
    have hlast : body.getLast? = some 0x67 := by decide +kernel
    rcases List.eq_nil_or_concat spacing with rfl | ⟨front, b, rfl⟩
    · obtain ⟨front, b, rfl, hb⟩ := hdocument.exists_concat
      rw [hsplit] at hlast
      rcases hb with rfl | rfl <;> simp at hlast
    · have hb : Json.isSpace b = true := hspacing b (by simp)
      rw [hsplit] at hlast
      simp at hlast
      subst hlast
      cases hb

end Service
end Reckon
