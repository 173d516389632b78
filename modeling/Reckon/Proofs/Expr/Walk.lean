import Mathlib.Order.Bounds.Basic
import Reckon.Proofs.Expr.Paths
import Reckon.Proofs.Expr.PostOrder

/-!
# Walks over trees

A walk hands the nodes of a complete tree to a callback in post-order, each of them once, until the
callback stops it.  The callback has a state, so that what it answers at a node may depend on all the
nodes before; the walk is compared with a visit of the list of nodes for every callback and state.

That no node is handed over twice is said of places, because nodes that stand at different places may
be equal.
-/

namespace Reckon
namespace Expr

variable {e : Expr}

/-! ## The nodes of a tree -/

/-- The number of operations in a tree. -/
def operations : Expr → Nat
  | .constant _ _ | .absent => 0
  | .binary _ left right => left.operations + right.operations + 1

/-- A tree has a node for each operation and one more constant than operations. -/
theorem Complete.length_postOrder (h : e.Complete) : e.postOrder.length = 2 * e.operations + 1 := by
  induction h with
  | constant value text => rfl
  | binary op _ _ ihl ihr =>
    simp only [postOrder, operations, List.length_append, List.length_singleton, ihl, ihr]
    omega

/-- The nodes in post-order are those at the places in post-order. -/
theorem map_nodeAt?_places (e : Expr) : e.places.map e.nodeAt? = e.postOrder.map some := by
  induction e with
  | constant value text => rfl
  | absent => rfl
  | binary op left right ihl ihr =>
    simp only [places, postOrder, List.map_append, List.map_map, ← ihl, ← ihr]
    rfl

/-- Every node of a complete tree has its place in post-order. -/
theorem Complete.mem_places_iff (h : e.Complete) (place : List Edge) :
    place ∈ e.places ↔ (e.nodeAt? place).isSome = true := by
  induction h generalizing place with
  | constant value text => cases place <;> simp [places, nodeAt?]
  | binary op _ _ ihl ihr =>
    rcases place with _ | ⟨_ | _, path⟩
    · simp [places, nodeAt?]
    · simp [places, nodeAt?, ihl]
    · simp [places, nodeAt?, ihr]

/-- The height of a complete tree is the largest number of nodes on a path from the root to a leaf. -/
theorem Complete.exists_depth (h : e.Complete) :
    ∃ d, e.depth = .ok d ∧ IsGreatest {n | ∃ path ∈ e.paths, path.length + 1 = n} d := by
  induction h with
  | constant value text => exact ⟨1, rfl, ⟨[], by simp [paths], rfl⟩, by simp [paths, upperBounds]⟩
  | @binary op left right _ _ ihl ihr =>
    obtain ⟨l, hl, ⟨pathl, hpathl, hlengthl⟩, hboundl⟩ := ihl
    obtain ⟨r, hr, ⟨pathr, hpathr, hlengthr⟩, hboundr⟩ := ihr
    refine ⟨1 + max l r, by simp only [depth, hl, hr], ?_, ?_⟩
    · rcases Nat.le_total l r with hle | hle
      · exact ⟨.right :: pathr, by simp [paths, hpathr], by simp; omega⟩
      · exact ⟨.left :: pathl, by simp [paths, hpathl], by simp; omega⟩
    · rintro n ⟨path, hpath, rfl⟩
      simp only [paths, List.mem_append, List.mem_map] at hpath
      rcases hpath with ⟨rest, hrest, rfl⟩ | ⟨rest, hrest, rfl⟩
      · have hle : rest.length + 1 ≤ l := hboundl ⟨rest, hrest, rfl⟩
        simp only [List.length_cons]
        omega
      · have hle : rest.length + 1 ≤ r := hboundr ⟨rest, hrest, rfl⟩
        simp only [List.length_cons]
        omega

/-! ## Walks -/

/-- A beginning of the nodes in post-order are the nodes at as many places. -/
theorem map_some_of_prefix {handed : List Expr} (h : handed <+: e.postOrder) :
    handed.map some = (e.places.take handed.length).map e.nodeAt? := by
  obtain ⟨rest, hrest⟩ := h
  rw [List.map_take, map_nodeAt?_places, ← hrest, List.map_append,
    List.take_left' (List.length_map _)]

/-- A walk over a complete tree hands over the shortest beginning of the nodes in post-order at whose
last node the callback stops it, or all of them if there is none: nothing comes behind a node at which
it was stopped, and the nodes stand at different places.  It says whether every answer was to go on.
The nodes are one more than twice the operations, and the height of the tree is the largest number of
nodes on a path from the root to a leaf. -/
theorem walk_stops_in_postOrder
    {σ : Type} (visit : Expr → σ → σ × Bool) (h : e.Complete) (s : σ) :
    (∃ handed s' done,
      e.walk visit s = .ok (s', done) ∧
      e.walk (recording visit) (s, []) = .ok ((s', handed), done) ∧
      HandsOver visit e.postOrder handed s ∧
      (∀ other, other <+: handed → StopsAtLast visit other s → other = handed) ∧
      handed.map some = (e.places.take handed.length).map e.nodeAt? ∧
      (done = true ↔ ∀ answer ∈ answers visit handed s, answer = true)) ∧
    e.places.Nodup ∧ (∀ place, place ∈ e.places ↔ (e.nodeAt? place).isSome = true) ∧
    e.postOrder.length = 2 * e.operations + 1 ∧
    ∃ d, e.depth = .ok d ∧ IsGreatest {n | ∃ path ∈ e.paths, path.length + 1 = n} d := by
  refine ⟨?_, e.nodup_places, h.mem_places_iff, h.length_postOrder, h.exists_depth⟩
  obtain ⟨handed, hvisit, hhanded, hdone⟩ := exists_handsOver visit e.postOrder [] s
  refine ⟨handed, _, _, h.walk_eq visit s, ?_, hhanded, ?_, ?_, hdone⟩
  · rw [h.walk_eq, hvisit, List.nil_append]
  · intro other hother hstop
    exact hhanded.eq_of_stopsAtLast hother hstop
  · exact map_some_of_prefix hhanded.prefix

/-- A callback that counts nodes and stops a walk over `2 * 2 + 2` at the second one is given the
constant `2` twice, from different places. -/
theorem walk_stops_at_second_constant :
    let two := constant 2 []
    let e := binary .add (binary .multiply two two) two
    let visit : Expr → Nat → Nat × Bool := fun _ n => (n + 1, decide (n + 1 < 2))
    e.Complete ∧ ∃ handed, e.walk (recording visit) (0, []) = .ok ((2, handed), false) ∧
      HandsOver visit e.postOrder handed 0 ∧ handed = [two, two] ∧
      e.places.take 2 = [[.left, .left], [.left, .right]] := by
  intro two e visit
  have hcomplete : e.Complete := .binary _ (.binary _ (.constant _ _) (.constant _ _)) (.constant _ _)
  obtain ⟨⟨handed, s', done, -, hrecorded, hhanded, -⟩, -⟩ :=
    walk_stops_in_postOrder visit hcomplete 0
  have hrun : e.walk (recording visit) (0, []) = .ok ((2, [two, two]), false) := rfl
  cases hrun.symm.trans hrecorded
  exact ⟨hcomplete, _, hrun, hhanded, rfl, rfl⟩

end Expr
end Reckon
