import Reckon.Proofs.Lexer.Tokenize
import Reckon.Proofs.Visit

/-!
# Reading token by token

A lexer that hands out one token at a time and one that reads everything take the same steps.  What is
handed out is the tokens of the text and then, for good, the end or the error; a loop over the tokens
sees them and then the error if there is one, and may leave at any of them.

Behind the last step nothing changes any more: at the end of the text a step finds the end again, and a
lexer that has failed does not step.
-/

namespace Reckon
namespace Lexer

open Lexical

variable {mode : Mode} {c d : Cursor} {t : Token} {e : LexError}

/-! ## The end of the text -/

/-- A cursor stands behind the last byte, and no piece is open. -/
structure AtEnd (c : Cursor) : Prop where
  ahead_eq : c.ahead = []
  start_eq : c.start = c.pos

theorem step_of_atEnd (mode : Mode) (h : AtEnd c) :
    step mode c = .finish (Token.make .eof [] c.text.length) c.settled.mark := by
  have hpeek : c.peek = (none, c.settled) := by
    rw [Cursor.peek_eq, (Cursor.next_of_ahead_eq_nil h.ahead_eq)]
  have hlength : c.text.length = c.pos := by simp [c.length_text, h.ahead_eq]
  have hpiece : c.settled.piece = [] := by
    show c.piece = []
    rw [c.piece_eq_slice, h.start_eq, slice, ← hlength, List.take_length, List.drop_length]
  have hstart : c.settled.start = c.text.length := h.start_eq.trans hlength.symm
  rw [step, hpeek]
  dsimp only
  rw [hpiece, hstart]

/-- The end is found behind the last byte, and the cursor stays there. -/
theorem of_step_eq_finish
    (hstart : c.start = c.pos) (h : step mode c = .finish t d) :
    t = Token.make .eof [] c.text.length ∧ AtEnd d ∧ d.text = c.text := by
  fun_induction step mode c with
  | case1 c c₁ hpeek =>
    have hahead : c.ahead = [] := by
      cases hahead : c.ahead with
      | nil => rfl
      | cons b rest =>
        have hnone := congrArg Prod.fst (c.peek_eq.symm.trans hpeek)
        rw [(Cursor.next_of_ahead_eq_cons hahead).1] at hnone
        cases hnone
    have hfinish := step_of_atEnd mode ⟨hahead, hstart⟩
    rw [step, hpeek] at hfinish
    obtain ⟨rfl, rfl⟩ := Step.finish.inj (hfinish.symm.trans h)
    exact ⟨rfl, ⟨hahead, rfl⟩, rfl⟩
  | case2 c g c₁ hpeek hblank ih =>
    obtain ⟨rfl, -⟩ := exists_of_peek hpeek
    have htext : (c.settled.acceptRun isBlank).mark.text = c.text :=
      (passes_isBlank c.settled).text_eq
    rw [← htext]
    exact ih rfl h
  | case3 c g c₁ hpeek hblank hnumeric =>
    simp only [number] at h
    split at h <;> cases h
  | case4 c g c₁ hpeek hblank hnumeric kind hkind => cases h
  | case5 c g c₁ hpeek hblank hnumeric hkind hmode ih =>
    obtain ⟨rfl, -⟩ := exists_of_peek hpeek
    have htext : c.settled.next.2.mark.text = c.text := c.settled.text_next
    rw [← htext]
    exact ih rfl h
  | case6 c g c₁ hpeek hblank hnumeric hkind hmode => cases h

theorem kind_of_step_eq_token (h : step mode c = .token t d) :
    t.kind ≠ .eof ∧ t.kind ≠ .error := by
  fun_induction step mode c with
  | case1 c c₁ hpeek => cases h
  | case2 c g c₁ hpeek hblank ih => exact ih h
  | case3 c g c₁ hpeek hblank hnumeric =>
    simp only [number] at h
    split at h <;> cases h
    show TokenKind.number ≠ .eof ∧ TokenKind.number ≠ .error
    decide
  | case4 c g c₁ hpeek hblank hnumeric kind hkind =>
    cases h
    show kind ≠ .eof ∧ kind ≠ .error
    unfold single? at hkind
    split at hkind <;> cases hkind <;> decide
  | case5 c g c₁ hpeek hblank hnumeric hkind hmode ih => exact ih h
  | case6 c g c₁ hpeek hblank hnumeric hkind hmode => cases h

/-! ## Runs of steps -/

/-- The steps from a cursor on: tokens, and then the end or an error. -/
inductive Steps (mode : Mode) : Cursor → List Token → Option LexError → Prop
  | token {c d : Cursor} {t : Token} {ts : List Token} {r : Option LexError}
      (hstep : step mode c = .token t d) (hrest : Steps mode d ts r) : Steps mode c (t :: ts) r
  | finish {c d : Cursor} {t : Token} (hstep : step mode c = .finish t d) : Steps mode c [] none
  | fault {c d : Cursor} {e : LexError} (hstep : step mode c = .fault e d) :
      Steps mode c [] (some e)

variable {ts : List Token} {r : Option LexError}

/-- A token shortens what is ahead, so that the steps come to an end. -/
theorem exists_steps (mode : Mode) (c : Cursor) : ∃ ts r, Steps mode c ts r := by
  induction hn : c.ahead.length using Nat.strongRecOn generalizing c with
  | ind n ih =>
    cases hstep : step mode c with
    | token t d =>
      have hlt := length_lt_of_step_eq_token hstep
      obtain ⟨ts, r, hrest⟩ := ih d.ahead.length (by omega) d rfl
      exact ⟨t :: ts, r, .token hstep hrest⟩
    | finish t d => exact ⟨[], none, .finish hstep⟩
    | fault e d => exact ⟨[], some e, .fault hstep⟩

/-- Reading everything takes the steps one after another. -/
theorem Steps.scanOnto_eq (h : Steps mode c ts r) (done : List Token) :
    scanOnto mode done c = ⟨done.reverse ++ ts, r⟩ := by
  induction h generalizing done with
  | token hstep _ ih =>
    rw [scanOnto]
    split <;> cases hstep.symm.trans ‹_›
    rw [ih, List.reverse_cons, List.append_assoc, List.singleton_append]
  | finish hstep =>
    rw [scanOnto]
    split <;> cases hstep.symm.trans ‹_›
    rw [List.append_nil]
  | fault hstep =>
    rw [scanOnto]
    split <;> cases hstep.symm.trans ‹_›
    rw [List.append_nil]

/-! ## One token at a time -/

theorem next_of_token (h : step mode c = .token t d) :
    (Reader.mk mode c none).next = (t, ⟨mode, d, none⟩) := by
  simp only [Reader.next, h]

theorem next_of_finish (h : step mode c = .finish t d) :
    (Reader.mk mode c none).next = (t, ⟨mode, d, none⟩) := by
  simp only [Reader.next, h]

theorem next_of_fault (h : step mode c = .fault e d) :
    (Reader.mk mode c none).next = (Reader.errorToken e, ⟨mode, d, some e⟩) := by
  simp only [Reader.next, h]

/-- What is handed out for good behind the tokens of a text of a given length. -/
def last (length : Nat) : Option LexError → Token × Option LexError
  | none => (Token.make .eof [] length, none)
  | some e => (Reader.errorToken e, some e)

/-- What is handed out, call by call: the tokens without an error, and then the end or the error. -/
def handedOut (length : Nat) (ts : List Token) (r : Option LexError) (i : Nat) :
    Token × Option LexError :=
  match ts[i]? with
  | some t => (t, none)
  | none => last length r

theorem handedOut_nil (length : Nat) (r : Option LexError) (n : Nat) :
    (List.range n).map (handedOut length [] r) = List.replicate n (last length r) := by
  rw [List.eq_replicate_iff]
  simp [handedOut]

theorem take_of_failed (mode : Mode) (c : Cursor) (e : LexError) (n : Nat) :
    (Reader.mk mode c (some e)).take n = List.replicate n (Reader.errorToken e, some e) := by
  induction n with
  | zero => rfl
  | succ n ih =>
    rw [List.replicate_succ, ← ih]
    rfl

theorem take_of_atEnd (mode : Mode) (h : AtEnd c) (n : Nat) :
    (Reader.mk mode c none).take n = List.replicate n (Token.make .eof [] c.text.length, none) := by
  induction n generalizing c with
  | zero => rfl
  | succ n ih =>
    have hsettled : AtEnd c.settled.mark := ⟨h.ahead_eq, rfl⟩
    rw [Reader.take, next_of_finish (step_of_atEnd mode h), List.replicate_succ]
    dsimp only
    rw [ih hsettled]
    rfl

/-- The first tokens handed out are those of the steps, and then the last one again and again. -/
theorem Steps.take_eq (h : Steps mode c ts r) (hready : Ready c) (n : Nat) :
    (Reader.mk mode c none).take n = (List.range n).map (handedOut c.text.length ts r) := by
  induction h generalizing n with
  | @token c d t ts r hstep hrest ih =>
    cases n with
    | zero => rfl
    | succ n =>
      have hfollows := follows_step mode c hready
      rw [hstep] at hfollows
      obtain ⟨htext, hready', -⟩ := hfollows
      rw [Reader.take, next_of_token hstep, List.range_succ_eq_map, List.map_cons, List.map_map]
      dsimp only
      rw [ih hready', htext]
      rfl
  | @finish c d t hstep =>
    rw [handedOut_nil]
    cases n with
    | zero => rfl
    | succ n =>
      obtain ⟨rfl, hatEnd, htext⟩ := of_step_eq_finish hready.start_eq hstep
      rw [Reader.take, next_of_finish hstep, List.replicate_succ]
      dsimp only
      rw [take_of_atEnd mode hatEnd, htext]
      rfl
  | @fault c d e hstep =>
    rw [handedOut_nil]
    cases n with
    | zero => rfl
    | succ n =>
      rw [Reader.take, next_of_fault hstep, List.replicate_succ]
      dsimp only
      rw [take_of_failed]
      rfl

/-! ## Loops over the tokens -/

/-- The items of a sequence of tokens: the tokens, and the error behind them if there is one. -/
def itemsOf (ts : List Token) : Option LexError → List Item
  | none => ts.map .ok
  | some e => ts.map .ok ++ [.error e]

section Loops

variable {σ : Type} (body : Item → σ → σ × Bool)

theorem each_of_token
    {r r' : Reader} (h : r.next = (t, r')) (hkind : t.kind ≠ .eof ∧ t.kind ≠ .error) (s : σ) :
    r.each body s =
      match body (.ok t) s with
      | (s, true) => r'.each body s
      | (s, false) => s := by
  rw [Reader.each]
  split
  cases h.symm.trans ‹_›
  rw [dif_neg hkind.1, dif_neg hkind.2]
  rcases body (.ok t) s with ⟨s', _ | _⟩ <;> rfl

theorem each_of_eof {r r' : Reader} (h : r.next = (t, r')) (hkind : t.kind = .eof) (s : σ) :
    r.each body s = s := by
  rw [Reader.each]
  split
  cases h.symm.trans ‹_›
  rw [dif_pos hkind]

theorem each_of_error
    {r r' : Reader} (h : r.next = (Reader.errorToken e, r')) (hfailure : r'.failure = some e)
    (s : σ) : r.each body s = (body (.error e) s).1 := by
  rw [Reader.each]
  split
  cases h.symm.trans ‹_›
  have hkind : (Reader.errorToken e).kind = .error := rfl
  rw [dif_neg (by rw [hkind]; decide), dif_pos hkind]
  simp only [hfailure]

/-- A loop visits the items of the steps in their order, up to the one at which it leaves. -/
theorem Steps.each_eq (h : Steps mode c ts r) (s : σ) :
    (Reader.mk mode c none).each body s = (visitList body (itemsOf ts r) s).1 := by
  induction h generalizing s with
  | @token c d t ts r hstep hrest ih =>
    have hitems : itemsOf (t :: ts) r = .ok t :: itemsOf ts r := by cases r <;> rfl
    rw [each_of_token body (next_of_token hstep) (kind_of_step_eq_token hstep), hitems]
    rcases hbody : body (.ok t) s with ⟨s', _ | _⟩
    · rw [visitList_cons_of_false body hbody]
    · rw [visitList_cons_of_true body hbody]
      exact ih s'
  | @finish c d t hstep =>
    rw [each_of_eof body (next_of_finish hstep) (kind_of_step_eq_finish hstep)]
    rfl
  | @fault c d e hstep =>
    rw [each_of_error body (next_of_fault hstep) rfl]
    exact (congrArg Prod.fst (visitList_singleton body (.error e) s)).symm

end Loops

/-- Collecting items, the latest first, until there are `count` of them; all of them if the number is
zero or less. -/
theorem visitList_collect
    (count : Int) (items seen : List Item) (hroom : 0 < count → (seen.length : Int) < count) :
    (visitList (fun item seen => (item :: seen, !(0 < count && count ≤ (item :: seen).length)))
        items seen).1 =
      (if count ≤ 0 then items else items.take (count.toNat - seen.length)).reverse ++ seen := by
  induction items generalizing seen with
  | nil => simp [visitList]
  | cons item items ih =>
    by_cases hlast : 0 < count ∧ count ≤ ((item :: seen).length : Int)
    · obtain ⟨hpos, hle⟩ := hlast
      have hstop : (!(decide (0 < count) && decide (count ≤ ((item :: seen).length : Int)))) =
          false := by
        rw [decide_eq_true hpos, decide_eq_true hle]
        rfl
      rw [visitList_cons_of_false _ (congrArg (Prod.mk (item :: seen)) hstop)]
      have hroom := hroom hpos
      have hone : count.toNat - seen.length = 1 := by
        rw [List.length_cons] at hle
        omega
      simp [hone, Int.not_le.mpr hpos]
    · have hroom' : 0 < count → ((item :: seen).length : Int) < count :=
        fun hpos => Int.not_le.mp fun hle => hlast ⟨hpos, hle⟩
      have hgo : (!(decide (0 < count) && decide (count ≤ ((item :: seen).length : Int)))) = true := by
        rw [← Bool.decide_and, decide_eq_false hlast]
        rfl
      rw [visitList_cons_of_true _ (congrArg (Prod.mk (item :: seen)) hgo), ih _ hroom']
      by_cases hpos : 0 < count
      · have hroom := hroom hpos
        have hsucc : count.toNat - seen.length = count.toNat - (item :: seen).length + 1 := by
          rw [List.length_cons]
          omega
        simp [Int.not_le.mpr hpos, hsucc]
      · simp [Int.not_lt.mp hpos]

/-- One token at a time, all at once or in loops, the same tokens are read, and the same error.

What is handed out call by call is the tokens without an error, and then for good either the end at the
length of the text or the error.  Loops one after another over the same text, each of which may leave
where it likes, all visit the tokens from the first on and then the error if there is one. -/
theorem reader_agrees_with_tokenize (mode : Mode) (s : Bytes) :
    ∃ ts r, Reads mode s 0 ts r ∧
      tokenize mode s = (match r with | none => .ok ts | some e => .error e) ∧
      (∀ n, (Reader.start mode s).take n = (List.range n).map (handedOut s.length ts r)) ∧
      (∀ {σ : Type} (bodies : List (Item → σ → σ × Bool)) (state : σ),
        bodies.foldl (fun state body => each mode s body state) state =
          bodies.foldl (fun state body => (visitList body (itemsOf ts r) state).1) state) ∧
      ∀ count, pass mode s count =
        if count ≤ 0 then itemsOf ts r else (itemsOf ts r).take count.toNat := by
  have hready : Ready (Cursor.ofText s) := ⟨rfl, fun _ k hk => by cases hk⟩
  obtain ⟨ts, r, hsteps⟩ := exists_steps mode (Cursor.ofText s)
  obtain ⟨ts', r', hscan, hreads⟩ := exists_reads mode [] (Cursor.ofText s) hready
  obtain ⟨rfl, rfl⟩ := Scan.mk.inj ((hsteps.scanOnto_eq []).symm.trans hscan)
  have heach {σ : Type} (body : Item → σ → σ × Bool) (state : σ) :
      each mode s body state = (visitList body (itemsOf ts r) state).1 :=
    hsteps.each_eq body state
  refine ⟨ts, r, hreads, ?_, hsteps.take_eq hready, ?_, ?_⟩
  · have hscan' : scan mode s = ⟨ts, r⟩ := hscan
    rw [tokenize, hscan']
    cases r <;> rfl
  · intro σ bodies state
    simp only [heach]
  · intro count
    unfold pass
    dsimp only
    rw [heach, visitList_collect count _ [] id]
    simp

end Lexer
end Reckon
