/-!
# Visiting a list

A callback turns a state into a new one and says whether to go on.  Visiting a list hands its members
to the callback one by one and leaves off behind the first that stops it.  Walks over trees and loops
over token sequences are compared with visits of lists.

Which members a visit hands over is seen by a callback that records them.  They are the shortest
beginning of the list at whose last member the callback stops the visit.
-/

namespace Reckon

variable {α σ : Type}

/-- Visits the members of a list; returns the last state and whether no call stopped the visit. -/
def visitList (visit : α → σ → σ × Bool) : List α → σ → σ × Bool
  | [], s => (s, true)
  | a :: as, s =>
    match visit a s with
    | (s, true) => visitList visit as s
    | (s, false) => (s, false)

variable (visit : α → σ → σ × Bool)

theorem visitList_cons_of_true {a : α} {s s' : σ} (h : visit a s = (s', true)) (as : List α) :
    visitList visit (a :: as) s = visitList visit as s' := by
  simp only [visitList, h]

theorem visitList_cons_of_false {a : α} {s s' : σ} (h : visit a s = (s', false)) (as : List α) :
    visitList visit (a :: as) s = (s', false) := by
  simp only [visitList, h]

theorem visitList_singleton (a : α) (s : σ) : visitList visit [a] s = visit a s := by
  rcases h : visit a s with ⟨s', _ | _⟩
  · rw [visitList_cons_of_false visit h]
  · rw [visitList_cons_of_true visit h]
    rfl

/-- The second of two lists is visited if the first was visited to its end. -/
theorem visitList_append (as bs : List α) (s : σ) :
    visitList visit (as ++ bs) s =
      match visitList visit as s with
      | (s, true) => visitList visit bs s
      | (s, false) => (s, false) := by
  induction as generalizing s with
  | nil => rfl
  | cons a as ih =>
    rcases h : visit a s with ⟨s', _ | _⟩
    · rw [List.cons_append, visitList_cons_of_false visit h, visitList_cons_of_false visit h]
    · rw [List.cons_append, visitList_cons_of_true visit h, visitList_cons_of_true visit h, ih]

/-! ## What is handed over -/

/-- What a callback answers when the members of a list are handed to it one after the other. -/
def answers : List α → σ → List Bool
  | [], _ => []
  | a :: as, s => (visit a s).2 :: answers as (visit a s).1

/-- The callback stops the visit at the last member of a list. -/
def StopsAtLast (as : List α) (s : σ) : Prop :=
  (answers visit as s).getLast? = some false

/-- The members of a list that a visit hands over: the shortest beginning at whose last member the
callback stops the visit, or the whole list if there is none. -/
def HandsOver (as handed : List α) (s : σ) : Prop :=
  (handed <+: as ∧ StopsAtLast visit handed s ∧
      ∀ other, other <+: as → StopsAtLast visit other s → handed.length ≤ other.length) ∨
    (handed = as ∧ ∀ other, other <+: as → ¬ StopsAtLast visit other s)

/-- A callback that also records the members that it is given. -/
def recording (a : α) (s : σ × List α) : (σ × List α) × Bool :=
  (((visit a s.1).1, s.2 ++ [a]), (visit a s.1).2)

section HandsOver

variable {visit} {a : α} {as handed : List α} {s s' : σ}

theorem ne_nil_of_stopsAtLast (h : StopsAtLast visit as s) : as ≠ [] := by
  rintro rfl
  cases h

theorem stopsAtLast_singleton (h : visit a s = (s', false)) : StopsAtLast visit [a] s := by
  simp [StopsAtLast, answers, h]

theorem stopsAtLast_cons_iff (h : visit a s = (s', true)) :
    StopsAtLast visit (a :: as) s ↔ StopsAtLast visit as s' := by
  simp only [StopsAtLast, answers, h, List.getLast?_cons, Option.some.injEq]
  cases (answers visit as s').getLast? <;> simp

theorem handsOver_of_false (h : visit a s = (s', false)) : HandsOver visit (a :: as) [a] s := by
  refine Or.inl ⟨⟨as, rfl⟩, stopsAtLast_singleton h, ?_⟩
  intro other _ hother
  exact List.length_pos_iff.mpr (ne_nil_of_stopsAtLast hother)

theorem HandsOver.cons (h : HandsOver visit as handed s') (ha : visit a s = (s', true)) :
    HandsOver visit (a :: as) (a :: handed) s := by
  rcases h with ⟨hbegin, hstop, hshortest⟩ | ⟨rfl, hnone⟩
  · refine Or.inl ⟨List.cons_prefix_cons.mpr ⟨rfl, hbegin⟩, (stopsAtLast_cons_iff ha).mpr hstop, ?_⟩
    intro other hother hstop'
    obtain ⟨b, rest, rfl⟩ := List.exists_cons_of_ne_nil (ne_nil_of_stopsAtLast hstop')
    obtain ⟨rfl, hrest⟩ := List.cons_prefix_cons.mp hother
    exact Nat.succ_le_succ (hshortest rest hrest ((stopsAtLast_cons_iff ha).mp hstop'))
  · refine Or.inr ⟨rfl, ?_⟩
    intro other hother hstop'
    obtain ⟨b, rest, rfl⟩ := List.exists_cons_of_ne_nil (ne_nil_of_stopsAtLast hstop')
    obtain ⟨rfl, hrest⟩ := List.cons_prefix_cons.mp hother
    exact hnone rest hrest ((stopsAtLast_cons_iff ha).mp hstop')

theorem HandsOver.prefix (h : HandsOver visit as handed s) : handed <+: as := by
  rcases h with ⟨hbegin, -⟩ | ⟨rfl, -⟩
  · exact hbegin
  · exact List.prefix_refl _

/-- Nothing is handed over behind a member at which the callback stops the visit. -/
theorem HandsOver.eq_of_stopsAtLast {other : List α} (h : HandsOver visit as handed s)
    (hother : other <+: handed) (hstop : StopsAtLast visit other s) : other = handed := by
  rcases h with ⟨hbegin, -, hshortest⟩ | ⟨rfl, hnone⟩
  · exact hother.eq_of_length_le (hshortest other (hother.trans hbegin) hstop)
  · exact (hnone other hother hstop).elim

end HandsOver

/-- A visit hands over what it should, and no call stops it exactly if every answer to what it hands
over is to go on. -/
theorem exists_handsOver (as seen : List α) (s : σ) :
    ∃ handed,
      visitList (recording visit) as (s, seen) =
        (((visitList visit as s).1, seen ++ handed), (visitList visit as s).2) ∧
      HandsOver visit as handed s ∧
      ((visitList visit as s).2 = true ↔ ∀ answer ∈ answers visit handed s, answer = true) := by
  induction as generalizing s seen with
  | nil =>
    refine ⟨[], by simp [visitList], Or.inr ⟨rfl, ?_⟩, by simp [visitList, answers]⟩
    intro other hother hstop
    exact ne_nil_of_stopsAtLast hstop (List.prefix_nil.mp hother)
  | cons a as ih =>
    rcases h : visit a s with ⟨s', _ | _⟩
    · have hrecord : recording visit a (s, seen) = ((s', seen ++ [a]), false) := by
        simp [recording, h]
      rw [visitList_cons_of_false _ hrecord, visitList_cons_of_false _ h]
      exact ⟨[a], rfl, handsOver_of_false h, by simp [answers, h]⟩
    · have hrecord : recording visit a (s, seen) = ((s', seen ++ [a]), true) := by
        simp [recording, h]
      rw [visitList_cons_of_true _ hrecord, visitList_cons_of_true _ h]
      obtain ⟨handed, hvisit, hhanded, hdone⟩ := ih (seen ++ [a]) s'
      exact ⟨a :: handed, by simp [hvisit], hhanded.cons h, by simp [answers, h, hdone]⟩

end Reckon
