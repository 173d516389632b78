import Reckon.Proofs.Calculator.Outcome
import Reckon.Proofs.Failure.Place
import Reckon.Proofs.Format.Location
import Reckon.Proofs.Json.Document
import Reckon.Service.Http
import Reckon.Service.Socket

/-!
# Replies over a socket and over HTTP

A service answers an expression in the same words whether it comes as a message over a socket or in the
body of a request.  The reply says what became of the expression and can always be encoded, so a socket
stays open as long as its client sends messages of the allowed size and takes the replies.  No message
has an influence on the reply to another one.

A request may spell its expression in any way that JSON allows.

A reply also depends on the libraries that a service is built on, which are the same for all its replies,
and it may show where the machine has stored the value, which is another place for every expression.  So
a turn of a session, and a request, come with the place of the value.  Unless results show that place,
it has no influence on the reply either.
-/

namespace Reckon

/-- A failure to read a text is at a place in it. -/
theorem index_of_parseText
    {mode : Mode} {limit : Int} {s : Bytes} {f : Failure} (h : parseText mode limit s = .error f)
    (step : Bytes) :
    0 ≤ (Failure.during step f).details.index ∧ (Failure.during step f).details.index ≤ s.length := by
  rcases parseText_cases mode limit s with
    ⟨e, htokens, herror⟩ | ⟨ts, e, htokens, hparse, herror⟩ | ⟨ts, tree, -, -, hok⟩
  · cases h.symm.trans herror
    have hplaced := LexError.placed_of_tokenize htokens
    exact ⟨hplaced.nonneg, Int.le_of_lt hplaced.lt_length⟩
  · cases h.symm.trans herror
    have hplaced := ParseError.placed_of_parse htokens hparse
    exact ⟨hplaced.nonneg, hplaced.le_length⟩
  · cases h.symm.trans hok

/-- A failure of a text has one of the kinds, and a place in the text unless an operation has no
result. -/
theorem Calculator.details_of_eval
    {c : Calculator} {s : Bytes} {fraction : Binary.FractionalPower} {location : UInt64}
    {f : Failure} (h : c.eval s fraction location = .error f) :
    f.details.kind ∈ Failure.kinds ∧
      if f.details.kind = ("Domain" : Bytes) then f.details.index = Failure.noIndex
      else 0 ≤ f.details.index ∧ f.details.index ≤ s.length := by
  rcases c.eval_cases s fraction location with ⟨g, hparse, herror⟩ | ⟨tree, hparse, hvalue⟩
  · cases h.symm.trans herror
    obtain ⟨hclassified, -, hkind⟩ := parseText_error_classified hparse "parse"
    have hne : (Failure.during "parse" g).details.kind ≠ ("Domain" : Bytes) := by
      intro hdomain
      rw [hdomain] at hkind
      exact absurd hkind (by decide)
    rw [if_neg hne]
    exact ⟨hclassified.kind_mem, index_of_parseText hparse "parse"⟩
  · rw [hvalue] at h
    rcases c.value_cases (spelled_of_parseText hparse) fraction location with
      ⟨r, hr⟩ | ⟨-, op, reason, hop, herror⟩
    · cases h.symm.trans hr
    · cases h.symm.trans herror
      exact ⟨List.mem_cons_self, rfl⟩

namespace Service

variable (s : Service) (lib : Libraries)

/-! ## What a reply says -/

/-- The status and the reply that an expression is answered with.  The reply to an expression with a
value has the result in the format of the service, and the number if it is finite; the reply to another
one has the failure alone. -/
inductive Answers (location : UInt64) (e : Bytes) : Nat → Reply → Prop
  | value {r : Result} (heval : s.calculator.eval e lib.fraction location = .ok r) :
    Answers location e 200
      ⟨e, if Double.isFinite r.value then some r.value else none,
        Format.fill (if s.format.isEmpty then Result.defaultFormat else s.format) r.operand, none⟩
  | failure {f : Failure} (heval : s.calculator.eval e lib.fraction location = .error f)
    (hkind : f.details.kind ∈ Failure.kinds)
    (hindex : if f.details.kind = ("Domain" : Bytes) then f.details.index = -1
      else 0 ≤ f.details.index ∧ f.details.index ≤ e.length) :
    Answers location e 422 ⟨e, none, [], some ⟨f.details.kind, f.details.index, f.describe e⟩⟩

theorem answers_evaluate (location : UInt64) (e : Bytes) :
    s.Answers lib location e (if (s.evaluate e lib location).succeeded then 200 else 422)
      (s.evaluate e lib location).reply := by
  cases heval : s.calculator.eval e lib.fraction location with
  | ok r =>
    simp only [evaluate, heval]
    exact .value heval
  | error f =>
    obtain ⟨hkind, hindex⟩ := Calculator.details_of_eval heval
    simp only [evaluate, heval]
    exact .failure heval hkind hindex

theorem Answers.encode_eq
    {s : Service} {lib : Libraries} {location : UInt64} {e : Bytes} {status : Nat} {r : Reply}
    (h : s.Answers lib location e status r) : r.encode lib = .ok (r.render lib) := by
  cases h with
  | @value result _ =>
    by_cases hfinite : Double.isFinite result.value = true
    · simp [Reply.encode, hfinite]
    · simp [Reply.encode, hfinite]
  | failure => rfl

/-- Where a value is stored has no influence on the answer, unless results show it. -/
theorem evaluate_location
    (h : ¬ Result.ShowsLocation s.calculator.precision s.format) (e : Bytes)
    (location location' : UInt64) : s.evaluate e lib location' = s.evaluate e lib location := by
  have htext := s.calculator.format_eval_location lib.fraction location location' h e
  unfold evaluate
  rw [s.calculator.eval_location lib.fraction location location'] at htext ⊢
  cases heval : s.calculator.eval e lib.fraction location with
  | error f => rfl
  | ok r =>
    rw [heval] at htext
    have hsame := Except.ok.inj htext
    simp only [Except.map, hsame]

/-! ## A session -/

/-- Whether a session ends at a turn: the client closes the connection, its message is too long, or
the reply cannot be delivered. -/
def Turn.ends (t : Turn) : Bool :=
  match t.frame with
  | .close _ _ => true
  | .text payload | .binary payload => maxSize < payload.length || t.fault.isSome

/-- The line that a message is answered with when the value of its expression is stored at a place; a
closing frame gets none. -/
def lineFor (frame : Frame) (location : UInt64) : Bytes :=
  match frame with
  | .text payload => (s.evaluate payload lib location).reply.render lib
  | .binary _ => notText.render lib
  | .close _ _ => []

/-- A turn at which the session does not end is answered, and the session goes on. -/
theorem receipts_serveTurns_cons {t : Turn} (h : t.ends = false) (rest : List Turn) :
    (s.serveTurns (t :: rest) lib).receipts =
      .reply (s.lineFor lib t.frame t.location) :: (s.serveTurns rest lib).receipts := by
  obtain ⟨frame, fault, location⟩ := t
  cases frame with
  | close code reason => cases h
  | text payload =>
    simp [Turn.ends] at h
    obtain ⟨hsize, rfl⟩ := h
    have hencode := (s.answers_evaluate lib location payload).encode_eq
    simp [serveTurns, Nat.not_lt.mpr hsize, deliver, hencode, Exchange.after, lineFor]
  | binary payload =>
    simp [Turn.ends] at h
    obtain ⟨hsize, rfl⟩ := h
    have hencode : notText.encode lib = .ok (notText.render lib) := rfl
    simp [serveTurns, Nat.not_lt.mpr hsize, deliver, hencode, Exchange.after, lineFor]

theorem receipts_serveTurns_append
    {turns : List Turn} (h : ∀ t ∈ turns, t.ends = false) (rest : List Turn) :
    (s.serveTurns (turns ++ rest) lib).receipts =
      (turns.map fun t => .reply (s.lineFor lib t.frame t.location)) ++
        (s.serveTurns rest lib).receipts := by
  induction turns with
  | nil => rfl
  | cons t turns ih =>
    rw [List.cons_append, receipts_serveTurns_cons s lib (h t (.head _)),
      ih fun t' hmem => h t' (.tail _ hmem)]
    rfl

/-- Nothing follows a reply that cannot be delivered. -/
theorem deliver_undelivered (r : Reply) (log e : Bytes) (next next' : Exchange) :
    deliver r log (some e) next lib = deliver r log (some e) next' lib := by
  unfold deliver
  cases r.encode lib with
  | ok line => rfl
  | error e' => rfl

/-- Nothing is read behind a turn at which the session ends. -/
theorem serveTurns_cons_of_ends {t : Turn} (h : t.ends = true) (rest : List Turn) :
    s.serveTurns (t :: rest) lib = s.serveTurns [t] lib := by
  obtain ⟨frame, fault, location⟩ := t
  cases frame with
  | close code reason => rfl
  | text payload | binary payload =>
    by_cases hsize : maxSize < payload.length
    · simp [serveTurns, hsize]
    · have hfault : fault.isSome = true := by simpa [Turn.ends, hsize] using h
      obtain ⟨e, rfl⟩ := Option.isSome_iff_exists.mp hfault
      simp only [serveTurns, gt_iff_lt, if_neg hsize]
      exact deliver_undelivered ..

/-! ## Requests -/

/-- The bodies that spell a request for the value of an expression. -/
def Asks (body e : Bytes) : Prop :=
  Json.SpellsField (Utf8.chars expressionField) (Utf8.chars e) body

theorem asks_object (e : Bytes) : Asks (Json.object [(expressionField, Json.ofText e)]) e :=
  Json.spellsField_object expressionField e

/-- A request is read as the expression that it asks for. -/
theorem readRequest_of_asks
    {body e : Bytes} (h : Asks body e) (hvalid : Utf8.isValid e = true)
    (hsize : body.length ≤ maxSize) : readRequest? body = some e := by
  have hname : matchesName expressionField (Utf8.ofChars (Utf8.chars expressionField)) = true := by
    decide +kernel
  rw [readRequest?, List.take_of_length_le hsize, h.readObject, Option.bind_some,
    Utf8.ofChars_chars hvalid]
  simp [hname]

theorem respond_evaluate (body : Bytes) (location : UInt64) :
    s.respond ⟨"POST", "/evaluate", body⟩ lib location = s.respondEvaluate body lib location := by
  have hpath : pathOf "/evaluate" = ("/evaluate" : Bytes) := by decide
  have hclean : cleanPath "/evaluate" = ("/evaluate" : Bytes) := by decide
  have hroute : Route.ofPath? (unescape "/evaluate") = some .evaluate := by decide
  have hmethod : ("POST" : Bytes) ∈ Route.evaluate.methods := by decide
  simp [respond, hpath, hclean, respondPath, hroute, hmethod]

/-- A body in which an expression is read is answered with the line for it. -/
theorem respondEvaluate_of_readRequest
    {body e : Bytes} (h : readRequest? body = some e) (location : UInt64) :
    s.respondEvaluate body lib location =
      (⟨if (s.evaluate e lib location).succeeded then 200 else 422, "application/json", none,
        s.lineFor lib (.text e) location⟩, (s.evaluate e lib location).log) := by
  have hencode := (s.answers_evaluate lib location e).encode_eq
  simp only [respondEvaluate, h, ofReply, hencode, List.append_nil]
  rfl

/-- The response to a body in which an expression is read carries the answer to it. -/
theorem respond_of_readRequest
    {body e : Bytes} (h : readRequest? body = some e) (location : UInt64) :
    (s.respond ⟨"POST", "/evaluate", body⟩ lib location).1 =
      ⟨if (s.evaluate e lib location).succeeded then 200 else 422, "application/json", none,
        s.lineFor lib (.text e) location⟩ := by
  rw [respond_evaluate, s.respondEvaluate_of_readRequest lib h]

/-- Every message of the allowed size gets one reply over a socket, in its turn and whatever the other
messages are, and the session ends at no other place than where the connection is closed, a message is
too long or a reply cannot be delivered.  The reply to an expression says what became of it and can be
encoded.  It is the body of the response to every request in which that expression is read, however the
request spells it.  Where values are stored is seen in no reply, unless results show it. -/
theorem socket_agrees_with_http :
    (∀ turns rest : List Turn, (∀ t ∈ turns, t.ends = false) →
      (s.serveTurns (turns ++ rest) lib).receipts =
        (turns.map fun t => .reply (s.lineFor lib t.frame t.location)) ++
          (s.serveTurns rest lib).receipts) ∧
    (∀ (t : Turn) (rest : List Turn), t.ends = true →
      s.serveTurns (t :: rest) lib = s.serveTurns [t] lib) ∧
    (∀ (e : Bytes) (location : UInt64), ∃ status reply, s.Answers lib location e status reply ∧
      reply.encode lib = .ok (s.lineFor lib (.text e) location) ∧
      (∀ body, readRequest? body = some e →
        (s.respond ⟨"POST", "/evaluate", body⟩ lib location).1 =
          ⟨status, "application/json", none, s.lineFor lib (.text e) location⟩) ∧
      (Utf8.isValid e = true →
        Asks (Json.object [(expressionField, Json.ofText e)]) e ∧
          ∀ body, Asks body e → body.length ≤ maxSize →
            (s.respond ⟨"POST", "/evaluate", body⟩ lib location).1 =
              ⟨status, "application/json", none, s.lineFor lib (.text e) location⟩)) ∧
    (¬ Result.ShowsLocation s.calculator.precision s.format →
      ∀ frame location location', s.lineFor lib frame location' = s.lineFor lib frame location) := by
  refine ⟨?_, ?_, ?_, ?_⟩
  · intro turns rest h
    exact receipts_serveTurns_append s lib h rest
  · intro t rest h
    exact serveTurns_cons_of_ends s lib h rest
  · intro e location
    have hanswers := s.answers_evaluate lib location e
    refine ⟨_, _, hanswers, hanswers.encode_eq, ?_, ?_⟩
    · intro body hread
      exact s.respond_of_readRequest lib hread location
    · intro hvalid
      refine ⟨asks_object e, ?_⟩
      intro body hasks hsize
      exact s.respond_of_readRequest lib (readRequest_of_asks hasks hvalid hsize) location
  · intro hshows frame location location'
    cases frame with
    | text payload => simp only [lineFor, s.evaluate_location lib hshows payload location location']
    | binary payload => rfl
    | close code reason => rfl

/-- Behind a message that is not text, a number of 64 bits and an unknown symbol.  Over the socket and
over HTTP the number is answered with two decimals, and the symbol with its place. -/
theorem socket_agrees_with_http_of_number :
    let s : Service := ⟨{ precision := 64, maxDepth := 0 }, [], false⟩
    let lib : Libraries := {}
    let line : Bytes := "\x7b\"expression\":\"#\",\"error\":\x7b\"kind\":\"UnknownSymbol\","
      ++ "\"index\":0,\"message\":\"UnknownSymbol at index: 0 =\\u003e '#'\"\x7d\x7d\n"
    ∃ result : Option Float,
      (s.serveTurns [⟨.binary [0x31], none, 0⟩, ⟨.text "2.5", none, 1⟩, ⟨.text "#", none, 2⟩]
          lib).receipts =
        [.reply (notText.render lib), .reply (Reply.render ⟨"2.5", result, "2.50", none⟩ lib),
          .reply line] ∧
      (s.respond ⟨"POST", "/evaluate", Json.object [(expressionField, Json.ofText "2.5")]⟩ lib 1).1 =
        ⟨200, "application/json", none, Reply.render ⟨"2.5", result, "2.50", none⟩ lib⟩ ∧
      (s.respond ⟨"POST", "/evaluate", Json.object [(expressionField, Json.ofText "#")]⟩ lib 2).1 =
        ⟨422, "application/json", none, line⟩ := by
  intro s lib line
  have hspells : Literal.Spells "2.5" (Double.readOrZero "2.5") :=
    Literal.spells_readOrZero (List.all_eq_true.mp rfl) ⟨⟨0x32, by decide, rfl⟩, by decide⟩
  have hshown : ((s.calculator.eval "2.5" lib.fraction 1).map fun r => r.format s.format).toOption =
      some "2.50" := by
    rw [s.calculator.eval_literal hspells rfl]
    decide +kernel
  have hfails : (s.calculator.eval "#" lib.fraction 2).toBool = false := by decide +kernel
  have hline : s.lineFor lib (.text "#") 2 = line := by decide +kernel
  obtain ⟨hsession, -, hanswers, -⟩ := socket_agrees_with_http s lib
  obtain ⟨status, reply, hanswer, hencode, -, hrequest⟩ := hanswers "2.5" 1
  obtain ⟨status', reply', hanswer', -, -, hrequest'⟩ := hanswers "#" 2
  obtain ⟨hasks, hrespond⟩ := hrequest (by decide +kernel)
  obtain ⟨hasks', hrespond'⟩ := hrequest' (by decide +kernel)
  obtain ⟨hstatus, result, hreply⟩ :
      status = 200 ∧ ∃ result, reply = ⟨"2.5", result, "2.50", none⟩ := by
    cases hanswer with
    | @value r hr =>
      rw [hr] at hshown
      have htext : r.format s.format = "2.50" := Option.some.inj hshown
      exact ⟨rfl, _, by rw [← htext]; rfl⟩
    | failure hf =>
      rw [hf] at hshown
      cases hshown
  have hstatus' : status' = 422 := by
    cases hanswer' with
    | value hr =>
      rw [hr] at hfails
      cases hfails
    | failure => rfl
  have hnumber : s.lineFor lib (.text "2.5") 1 = Reply.render ⟨"2.5", result, "2.50", none⟩ lib := by
    rw [← hreply]
    exact Except.ok.inj (hencode.symm.trans hanswer.encode_eq)
  refine ⟨result, ?_, ?_, ?_⟩
  · have hreceipts := hsession
      [⟨.binary [0x31], none, 0⟩, ⟨.text "2.5", none, 1⟩, ⟨.text "#", none, 2⟩] [] (by decide)
    simp only [List.map_cons, List.map_nil, hline, hnumber] at hreceipts
    exact hreceipts
  · rw [hrespond _ hasks (by decide +kernel), hnumber, hstatus]
  · rw [hrespond' _ hasks' (by decide +kernel), hline, hstatus']

end Service
end Reckon
