import Mathlib.Data.List.Forall2
import Reckon.Proofs.Settings.Layers
import Reckon.Settings.Environment

/-!
# The environment as a layer

Every setting but the banner has a variable.  The variables are applied one after another.  Each sees its
own setting only: it sets it, or it is reported and leaves a remnant of it.  So what all of them make of
settings can be told setting by setting, and the reports stand in the order of the variables.

If none is reported, what they have changed is the layer of the values that can be read from them.
-/

namespace Reckon

namespace Settings

/-- The variable of a setting, without the common start of the names. -/
def Key.variable? : Key → Option Bytes
  | .permissive => some "PERMISSIVE"
  | .precision => some "PRECISION"
  | .maxDepth => some "MAX_DEPTH"
  | .format => some "FORMAT"
  | .prompt => some "PROMPT"
  | .banner => none
  | .plain => some "PLAIN"
  | .addr => some "ADDR"
  | .readTimeout => some "READ_TIMEOUT"

/-- Reads the value of a setting, or tells what is wrong with the text. -/
def Key.readOrFault : (k : Key) → Bytes → Except ValueFault k.Value
  | .permissive, text | .plain, text => readTruth text
  | .precision, text => readPrecision text
  | .maxDepth, text => readDepth text
  | .format, text | .prompt, text | .banner, text | .addr, text => .ok text
  | .readTimeout, text => (Duration.read text).mapError .duration

/-- Reads the value of a setting. -/
def Key.read? : (k : Key) → Bytes → Option k.Value
  | .permissive, text | .plain, text => (readTruth text).toOption
  | .precision, text => (readPrecision text).toOption
  | .maxDepth, text => (readDepth text).toOption
  | .format, text | .prompt, text | .banner, text | .addr, text => some text
  | .readTimeout, text => (Duration.read text).toOption

theorem Key.read?_eq (k : Key) (text : Bytes) : k.read? text = (k.readOrFault text).toOption := by
  cases k with
  | readTimeout =>
    simp only [read?, readOrFault]
    cases Duration.read text <;> rfl
  | _ => rfl

/-- What is left of a setting when the text of its variable cannot be read: the setting itself, but the
read timeout becomes zero. -/
def remnant (s : Settings) : (k : Key) → k.Value
  | .readTimeout => (⟨0⟩ : Duration)
  | k => s.get k

theorem remnant_of_ne (s : Settings) {k : Key} (h : k ≠ .readTimeout) : s.remnant k = s.get k := by
  cases k with
  | readTimeout => exact (h rfl).elim
  | _ => rfl

theorem remnant_congr {s t : Settings} {k : Key} (h : s.get k = t.get k) :
    s.remnant k = t.remnant k := by
  by_cases hk : k = .readTimeout
  · subst hk
    rfl
  · rw [remnant_of_ne s hk, remnant_of_ne t hk, h]

end Settings

open Settings

namespace Environment

/-- The text of the variable of a setting, if it is set. -/
def text? (env : Environment) (k : Key) : Option Bytes :=
  k.variable?.bind fun name => env.get? (variableStart ++ name)

/-- The values that can be read from the variables. -/
def layer (env : Environment) : Layer :=
  fun k => (env.text? k).bind k.read?

/-- The variable of a setting can be read if it is set. -/
def ReadableAt (env : Environment) (k : Key) : Prop :=
  ∀ text, env.text? k = some text → k.read? text ≠ none

theorem ReadableAt.isSome_layer {env : Environment} {k : Key} (h : env.ReadableAt k) :
    (env.layer k).isSome = (env.text? k).isSome := by
  unfold layer
  cases htext : env.text? k with
  | none => rfl
  | some text => simpa [Option.isSome_iff_ne_none] using h text htext

/-- What is reported of the variable of a setting, if it cannot be read. -/
def complaint? (env : Environment) (k : Key) : Option Bytes :=
  k.variable?.bind fun name => (env.get? (variableStart ++ name)).bind fun text =>
    match k.readOrFault text with
    | .ok _ => none
    | .error fault => some (variableStart ++ name ++ ": " ++ fault.message)

/-- What the variables make of settings, one by one. -/
def effect (env : Environment) (s : Settings) : Layer :=
  fun k => (env.text? k).map fun text =>
    match k.readOrFault text with
    | .ok v => v
    | .error _ => s.remnant k

/-- The effect on a setting depends on this setting only. -/
theorem effect_congr (env : Environment) {s t : Settings} {k : Key} (h : s.get k = t.get k) :
    env.effect s k = env.effect t k := by
  unfold effect
  rw [remnant_congr h]

theorem readableAt_iff {env : Environment} {k : Key} :
    env.ReadableAt k ↔ env.complaint? k = none := by
  unfold ReadableAt complaint? text?
  cases k.variable? with
  | none => simp
  | some name =>
    simp only [Option.bind_some]
    cases env.get? (variableStart ++ name) with
    | none => simp
    | some text =>
      rw [Option.bind_some]
      cases hread : k.readOrFault text with
      | ok v => simp [Key.read?_eq, hread, Except.toOption]
      | error fault => simp [Key.read?_eq, hread, Except.toOption]

instance (env : Environment) (k : Key) : Decidable (env.ReadableAt k) :=
  decidable_of_iff _ readableAt_iff.symm

theorem effect_of_readableAt {env : Environment} {k : Key} (h : env.ReadableAt k) (s : Settings) :
    env.effect s k = env.layer k := by
  unfold effect layer
  cases htext : env.text? k with
  | none => rfl
  | some text =>
    have hread := h text htext
    rw [Key.read?_eq] at hread
    rw [Option.bind_some, Key.read?_eq, Option.map_some]
    cases hvalue : k.readOrFault text with
    | ok v => rfl
    | error fault => exact (hread (by rw [hvalue]; rfl)).elim

/-- Every variable that is set can be read. -/
def Readable (env : Environment) : Prop :=
  ∀ k, env.ReadableAt k

end Environment

namespace Settings

/-! ## One variable -/

/-- An override changes one setting, or reports a text that cannot be read as a value of it. -/
structure Overrides (k : Key) (entry : Bytes × Override) : Prop where
  named : k.variable? = some entry.1
  sets : ∀ s text v, k.read? text = some v → entry.2 s text = ((Layer.single k v).laidOver s, none)
  reports : ∀ s text, k.read? text = none → ∃ t fault, entry.2 s text = (t, some fault)

/-- An override leaves the remnant of its setting when it reports a text. -/
structure Settles (k : Key) (entry : Bytes × Override) : Prop extends Overrides k entry where
  leaves : ∀ s text fault, k.readOrFault text = .error fault →
    entry.2 s text = ((Layer.single k (s.remnant k)).laidOver s, some fault)

theorem settles_of_eq
    {k : Key} {name : Bytes} {override : Override} (hname : k.variable? = some name)
    (h : ∀ s text, override s text =
      match k.readOrFault text with
      | .ok v => ((Layer.single k v).laidOver s, none)
      | .error fault => ((Layer.single k (s.remnant k)).laidOver s, some fault)) :
    Settles k (name, override) := by
  have hleaves : ∀ s text fault, k.readOrFault text = .error fault →
      override s text = ((Layer.single k (s.remnant k)).laidOver s, some fault) := by
    intro s text fault hfault
    rw [h, hfault]
  refine ⟨⟨hname, ?_, ?_⟩, hleaves⟩
  · intro s text v hv
    rw [Key.read?_eq] at hv
    dsimp only
    rw [h]
    cases hread : k.readOrFault text with
    | ok a =>
      rw [hread] at hv
      cases hv
      rfl
    | error fault =>
      rw [hread] at hv
      cases hv
  · intro s text hnone
    rw [Key.read?_eq] at hnone
    cases hread : k.readOrFault text with
    | ok a =>
      rw [hread] at hnone
      cases hnone
    | error fault => exact ⟨_, fault, hleaves s text fault hread⟩

theorem settles_overrideWith
    {k : Key} {name : Bytes} {set : Settings → k.Value → Settings}
    (hname : k.variable? = some name) (hkey : k ≠ .readTimeout)
    (hset : ∀ s v, set s v = (Layer.single k v).laidOver s) :
    Settles k (name, overrideWith k.readOrFault set) := by
  apply settles_of_eq hname
  intro s text
  unfold overrideWith
  cases k.readOrFault text with
  | ok v => simp only [hset]
  | error fault => simp only [remnant_of_ne s hkey, Layer.single_get_laidOver]

/-- The read timeout is lost when it cannot be read. -/
theorem settles_overrideTimeout : Settles .readTimeout ("READ_TIMEOUT", overrideTimeout) := by
  apply settles_of_eq rfl
  intro s text
  simp only [overrideTimeout, Key.readOrFault]
  cases Duration.read text <;> rfl

/-- The settings that have a variable, in the order in which the variables are looked at. -/
def variableKeys : List Key :=
  [.permissive, .precision, .maxDepth, .format, .prompt, .plain, .addr, .readTimeout]

theorem settles_variableKeys : List.Forall₂ Settles variableKeys overrides := by
  refine .cons ?_ <| .cons ?_ <| .cons ?_ <| .cons ?_ <| .cons ?_ <| .cons ?_ <| .cons ?_ <|
    .cons settles_overrideTimeout .nil
  all_goals exact settles_overrideWith rfl (by decide) fun _ _ => rfl

variable {env : Environment} {k : Key} {entry : Bytes × Override} {s : Settings}

theorem text?_of_named (h : Overrides k entry) :
    env.text? k = env.get? (variableStart ++ entry.1) := by
  rw [Environment.text?, h.named, Option.bind_some]

/-- A variable has its effect on its own setting, and is reported if it cannot be read. -/
theorem applyVariable_eq (h : Settles k entry) (s : Settings) (messages : List Bytes) :
    applyVariable env (s, messages) entry =
      (((env.effect s).restrict [k]).laidOver s, messages ++ (env.complaint? k).toList) := by
  unfold applyVariable
  dsimp only
  rw [Layer.restrict_singleton_laidOver, Environment.effect, Environment.complaint?, h.named,
    Option.bind_some, text?_of_named h.toOverrides]
  cases env.get? (variableStart ++ entry.1) with
  | none => simp
  | some text =>
    simp only [Option.map_some, Option.bind_some]
    cases hread : k.readOrFault text with
    | ok v =>
      have hv : k.read? text = some v := by rw [Key.read?_eq, hread]; rfl
      simp [h.sets s text v hv]
    | error fault => simp [h.leaves s text fault hread]

/-! ## All variables -/

/-- Some variables have the effect that each has by itself, and the reports stand in their order. -/
theorem foldl_applyVariable
    {keys : List Key} {entries : List (Bytes × Override)} (h : List.Forall₂ Settles keys entries)
    (hnodup : keys.Nodup) (s : Settings) (messages : List Bytes) :
    entries.foldl (applyVariable env) (s, messages) =
      (((env.effect s).restrict keys).laidOver s, messages ++ keys.filterMap env.complaint?) := by
  induction h generalizing s messages with
  | nil => simp [Layer.restrict_nil, Layer.empty_laidOver]
  | @cons k entry keys entries hfirst hrest ih =>
    obtain ⟨hk, hkeys⟩ := List.nodup_cons.mp hnodup
    rw [List.foldl_cons, applyVariable_eq hfirst, ih hkeys]
    -- The settings of the other variables are still as they were.
    have hsame : (env.effect (((env.effect s).restrict [k]).laidOver s)).restrict keys =
        (env.effect s).restrict keys := by
      apply Layer.restrict_congr
      intro j hj
      apply env.effect_congr
      apply Layer.get_restrict_laidOver
      rw [List.mem_singleton]
      exact fun heq => hk (heq ▸ hj)
    rw [hsame, Layer.restrict_laidOver_restrict]
    cases hcomplaint : env.complaint? k with
    | none => simp [hcomplaint]
    | some message => simp [hcomplaint]

/-- The reports of all variables. -/
def complaints (env : Environment) : List Bytes :=
  variableKeys.filterMap env.complaint?

theorem applyEnvironment_eq (env : Environment) (s : Settings) :
    s.applyEnvironment env =
      ((env.effect s).laidOver s, if complaints env = [] then none else some (lines (complaints env))) := by
  have heffect : (env.effect s).restrict variableKeys = env.effect s := by
    funext k
    cases k <;> rfl
  unfold applyEnvironment
  rw [foldl_applyVariable settles_variableKeys (by decide), heffect, List.nil_append]
  unfold complaints
  cases variableKeys.filterMap env.complaint? with
  | nil => rfl
  | cons message rest => rfl

theorem complaints_eq_nil_iff : complaints env = [] ↔ env.Readable := by
  unfold complaints Environment.Readable
  simp only [List.filterMap_eq_nil_iff, ← Environment.readableAt_iff]
  constructor
  · intro h k
    by_cases hk : k ∈ variableKeys
    · exact h k hk
    · cases k with
      | banner => exact nofun
      | _ => exact absurd (by decide) hk
  · exact fun h k _ => h k

/-- The environment is a layer if all of it can be read, and else there is a message. -/
theorem applyEnvironment_layer (env : Environment) (s : Settings) :
    (env.Readable ∧ s.applyEnvironment env = (env.layer.laidOver s, none)) ∨
      ¬ env.Readable ∧ ∃ t message, s.applyEnvironment env = (t, some message) := by
  rw [applyEnvironment_eq, ← complaints_eq_nil_iff]
  by_cases h : complaints env = []
  · left
    have heffect : env.effect s = env.layer := by
      funext k
      exact Environment.effect_of_readableAt (complaints_eq_nil_iff.mp h k) s
    exact ⟨h, by rw [if_pos h, heffect]⟩
  · right
    exact ⟨h, _, _, by rw [if_neg h]⟩

end Settings
end Reckon
