import Mathlib.Data.List.Nodup
import Reckon.Expr.Basic

/-!
# Paths in a tree

A path leads from the root of a tree downwards, over the edges from operations to their operands.  It
tells a node apart from another one that is equal to it but stands elsewhere: the *place* of a node is
the path that leads to it.
-/

namespace Reckon

/-- The edges from an operation to its operands. -/
inductive Edge where
  | left | right
  deriving DecidableEq

namespace Expr

/-- The paths from the root of a tree to its leaves. -/
def paths : Expr → List (List Edge)
  | .constant _ _ | .absent => [[]]
  | .binary _ left right => left.paths.map (.left :: ·) ++ right.paths.map (.right :: ·)

/-- The node that a path leads to. -/
def nodeAt? : Expr → List Edge → Option Expr
  | e, [] => some e
  | .binary _ left _, .left :: path => left.nodeAt? path
  | .binary _ _ right, .right :: path => right.nodeAt? path
  | _, _ :: _ => none

/-- The places of the nodes of a tree in post-order. -/
def places : Expr → List (List Edge)
  | .constant _ _ => [[]]
  | .binary _ left right =>
    left.places.map (.left :: ·) ++ right.places.map (.right :: ·) ++ [[]]
  | .absent => []

/-- No two places are the same. -/
theorem nodup_places (e : Expr) : e.places.Nodup := by
  induction e with
  | constant value text => simp [places]
  | absent => simp [places]
  | binary op left right ihl ihr =>
    have hcons (edge : Edge) : Function.Injective (edge :: · : List Edge → List Edge) :=
      fun _ _ h => List.tail_eq_of_cons_eq h
    rw [places, List.nodup_append, List.nodup_append]
    refine ⟨⟨ihl.map (hcons .left), ihr.map (hcons .right), ?_⟩, List.nodup_singleton _, ?_⟩
    · simp
    · simp only [List.mem_append, List.mem_map, List.mem_singleton]
      rintro _ (⟨path, -, rfl⟩ | ⟨path, -, rfl⟩) _ rfl
      · exact List.cons_ne_nil _ _
      · exact List.cons_ne_nil _ _

end Expr
end Reckon
