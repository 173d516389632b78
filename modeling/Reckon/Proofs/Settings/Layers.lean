import Reckon.Settings.Basic

/-!
# Layers of settings

A file, the environment and the flags give values to some of the settings each.  Such values form a
layer: laid over settings, it replaces those that it has a value for and leaves the others alone.
-/

namespace Reckon
namespace Settings

/-- The settings one by one. -/
inductive Key where
  | permissive
  | precision
  | maxDepth
  | format
  | prompt
  | banner
  | plain
  | addr
  | readTimeout
  deriving DecidableEq

/-- The values that a setting can have. -/
def Key.Value : Key → Type
  | .permissive | .plain => Bool
  | .precision => Nat
  | .maxDepth => Int
  | .format | .prompt | .banner | .addr => Bytes
  | .readTimeout => Duration

/-- The value of a setting. -/
def get (s : Settings) : (k : Key) → k.Value
  | .permissive => s.permissive
  | .precision => s.precision
  | .maxDepth => s.maxDepth
  | .format => s.format
  | .prompt => s.prompt
  | .banner => s.banner
  | .plain => s.plain
  | .addr => s.addr
  | .readTimeout => s.readTimeout

theorem eq_of_forall_get {s t : Settings} (h : ∀ k, s.get k = t.get k) : s = t := by
  cases s
  cases t
  rw [mk.injEq]
  exact ⟨h .permissive, h .precision, h .maxDepth, h .format, h .prompt, h .banner, h .plain,
    h .addr, h .readTimeout⟩

/-- Values for some of the settings. -/
def Layer :=
  (k : Key) → Option k.Value

namespace Layer

/-- No values. -/
def empty : Layer :=
  fun _ => none

/-- A value for one setting. -/
def single (k : Key) (v : k.Value) : Layer :=
  fun j => if h : j = k then some (h ▸ v) else none

/-- The values of a layer, and those of another one for the settings that it has no value for. -/
def orElse (l m : Layer) : Layer :=
  fun k => (l k).or (m k)

/-- Settings with the values of a layer in place of their own. -/
def laidOver (l : Layer) (s : Settings) : Settings where
  permissive := (l .permissive).getD s.permissive
  precision := (l .precision).getD s.precision
  maxDepth := (l .maxDepth).getD s.maxDepth
  format := (l .format).getD s.format
  prompt := (l .prompt).getD s.prompt
  banner := (l .banner).getD s.banner
  plain := (l .plain).getD s.plain
  addr := (l .addr).getD s.addr
  readTimeout := (l .readTimeout).getD s.readTimeout

@[simp] theorem get_laidOver (l : Layer) (s : Settings) (k : Key) :
    (l.laidOver s).get k = (l k).getD (s.get k) := by
  cases k <;> rfl

@[simp] theorem single_self (k : Key) (v : k.Value) : single k v k = some v := by
  simp [single]

@[simp] theorem single_of_ne {j k : Key} (h : j ≠ k) (v : k.Value) : single k v j = none := by
  simp [single, h]

theorem empty_laidOver (s : Settings) : empty.laidOver s = s :=
  rfl

/-- A setting may be replaced by itself. -/
theorem single_get_laidOver (k : Key) (s : Settings) : (single k (s.get k)).laidOver s = s := by
  apply eq_of_forall_get
  intro j
  by_cases hj : j = k
  · subst hj
    simp
  · simp [hj]

theorem laidOver_laidOver (l m : Layer) (s : Settings) :
    l.laidOver (m.laidOver s) = (l.orElse m).laidOver s := by
  apply eq_of_forall_get
  intro k
  simp [orElse, Option.getD_or]

/-- The values of a layer for some of the settings. -/
def restrict (l : Layer) (keys : List Key) : Layer :=
  fun k => if k ∈ keys then l k else none

theorem restrict_nil (l : Layer) : l.restrict [] = empty := by
  funext k
  simp [restrict, empty]

theorem restrict_congr {l m : Layer} {keys : List Key} (h : ∀ k ∈ keys, l k = m k) :
    l.restrict keys = m.restrict keys := by
  funext k
  by_cases hk : k ∈ keys
  · simp [restrict, hk, h k hk]
  · simp [restrict, hk]

theorem get_restrict_laidOver {keys : List Key} {k : Key} (l : Layer) (h : k ∉ keys) (s : Settings) :
    ((l.restrict keys).laidOver s).get k = s.get k := by
  simp [restrict, h]

theorem restrict_singleton_laidOver (l : Layer) (k : Key) (s : Settings) :
    (l.restrict [k]).laidOver s =
      match l k with
      | some v => (single k v).laidOver s
      | none => s := by
  apply eq_of_forall_get
  intro j
  by_cases hj : j = k
  · subst hj
    cases hvalue : l j <;> simp [restrict, hvalue]
  · cases l k <;> simp [restrict, hj]

theorem restrict_laidOver_restrict (l : Layer) (k : Key) (keys : List Key) (s : Settings) :
    (l.restrict keys).laidOver ((l.restrict [k]).laidOver s) =
      (l.restrict (k :: keys)).laidOver s := by
  apply eq_of_forall_get
  intro j
  by_cases hj : j ∈ keys
  · by_cases hjk : j = k
    · cases hvalue : l j with
      | none => simp [restrict, hjk, hvalue]
      | some v => simp [restrict, hj, hvalue]
    · simp [restrict, hj, hjk]
  · simp [restrict, hj]

end Layer

end Settings
end Reckon
