import Reckon.Proofs.Settings.Environment

/-!
# Variables do not depend on each other

Whatever the other variables are, one that can be read takes effect, one that is not set changes nothing,
and one that cannot be read is reported, in one message that names it.  The messages stand in the order
in which the variables are looked at.

A variable that cannot be read leaves its setting as it was.  The read timeout is the exception: its text
is read into the setting itself, and an error leaves zero there.
-/

namespace Reckon

open Settings

namespace Environment

/-- A message names the variable of a setting and tells what is wrong with the text it is set to. -/
def Blames (env : Environment) (k : Key) (message : Bytes) : Prop :=
  ∃ name text fault, k.variable? = some name ∧ env.get? (variableStart ++ name) = some text ∧
    k.readOrFault text = .error fault ∧ message = variableStart ++ name ++ ": " ++ fault.message

variable {env : Environment}

theorem blames_of_complaint? {k : Key} {message : Bytes} (h : env.complaint? k = some message) :
    env.Blames k message := by
  obtain ⟨name, hname, hcomplaint⟩ := Option.bind_eq_some_iff.mp h
  obtain ⟨text, htext, hfault⟩ := Option.bind_eq_some_iff.mp hcomplaint
  split at hfault
  · cases hfault
  next fault hread =>
    cases hfault
    exact ⟨name, text, fault, hname, htext, hread, rfl⟩

/-- The reports are those of the variables that cannot be read, one of each. -/
theorem forall₂_blames (env : Environment) (keys : List Key) :
    List.Forall₂ env.Blames (keys.filter fun k => ¬ env.ReadableAt k)
      (keys.filterMap env.complaint?) := by
  induction keys with
  | nil => exact .nil
  | cons k keys ih =>
    cases hcomplaint : env.complaint? k with
    | none =>
      have hread : env.ReadableAt k := readableAt_iff.mpr hcomplaint
      rw [List.filterMap_cons_none hcomplaint, List.filter_cons_of_neg (by simpa using hread)]
      exact ih
    | some message =>
      have hread : ¬ env.ReadableAt k := by simp [readableAt_iff, hcomplaint]
      rw [List.filterMap_cons_some hcomplaint, List.filter_cons_of_pos (by simpa using hread)]
      exact .cons (blames_of_complaint? hcomplaint) ih

end Environment

namespace Settings

/-- The settings whose variables have to be read; every text is a value of the others. -/
def parsedKeys : List Key :=
  [.permissive, .precision, .maxDepth, .plain, .readTimeout]

variable {env : Environment}

theorem readableAt_of_notMem {k : Key} (h : k ∉ parsedKeys) : env.ReadableAt k := by
  intro text htext
  cases k with
  | format | prompt | addr | banner => exact nofun
  | _ => exact absurd (by decide) h

theorem complaints_eq (env : Environment) : complaints env = parsedKeys.filterMap env.complaint? := by
  have hnone (k : Key) (h : k ∉ parsedKeys) : env.complaint? k = none :=
    Environment.readableAt_iff.mp (readableAt_of_notMem h)
  simp [complaints, variableKeys, parsedKeys, List.filterMap_cons, hnone .format (by decide),
    hnone .prompt (by decide), hnone .addr (by decide)]

theorem get_applyEnvironment (env : Environment) (s : Settings) (k : Key) :
    (s.applyEnvironment env).1.get k = (env.effect s k).getD (s.get k) := by
  rw [applyEnvironment_eq, Layer.get_laidOver]

/-- Over settings that all variables have been applied to, those that can be read have no effect. -/
theorem applyEnvironment_again {s : Settings} (h : env.Readable) :
    (s.applyEnvironment env).1.applyEnvironment env = ((s.applyEnvironment env).1, none) := by
  have heffect (t : Settings) : env.effect t = env.layer := by
    funext k
    exact Environment.effect_of_readableAt (h k) t
  have hreport : complaints env = [] := complaints_eq_nil_iff.mpr h
  simp only [applyEnvironment_eq, hreport, if_true, heffect]
  congr 1
  apply eq_of_forall_get
  intro k
  cases hvalue : env.layer k <;> simp [hvalue]

/-- Variables are reported exactly if one that has to be read cannot be, and then each of these is blamed
by one message, in their order.  Whatever is reported, every variable that can be read takes effect, and
a setting whose variable is not set stays as it was.  An environment that is not reported changes
nothing when it is applied again. -/
theorem applyEnvironment_independent (env : Environment) (s : Settings) :
    let t := (s.applyEnvironment env).1
    let report := (s.applyEnvironment env).2
    (report = none ↔ ∀ k ∈ parsedKeys, env.ReadableAt k) ∧
      (report ≠ none → ∃ messages, report = some (lines messages) ∧
        List.Forall₂ env.Blames (parsedKeys.filter fun k => ¬ env.ReadableAt k) messages) ∧
      (∀ k text v, env.text? k = some text → k.read? text = some v → t.get k = v) ∧
      (∀ k, env.text? k = none → t.get k = s.get k) ∧
      (report = none → t.applyEnvironment env = (t, none)) := by
  intro t report
  have hreport : report = if complaints env = [] then none else some (lines (complaints env)) :=
    congrArg Prod.snd (applyEnvironment_eq env s)
  have hnone : report = none ↔ env.Readable := by
    rw [hreport, ← complaints_eq_nil_iff]
    simp
  refine ⟨?_, ?_, ?_, ?_, ?_⟩
  · rw [hnone]
    constructor
    · exact fun h k _ => h k
    · intro h k
      by_cases hk : k ∈ parsedKeys
      · exact h k hk
      · exact readableAt_of_notMem hk
  · intro hsome
    rw [Ne, hnone, ← complaints_eq_nil_iff] at hsome
    refine ⟨complaints env, by rw [hreport, if_neg hsome], ?_⟩
    rw [complaints_eq]
    exact env.forall₂_blames parsedKeys
  · intro k text v htext hv
    have hread : env.ReadableAt k := by
      intro text' htext'
      cases htext.symm.trans htext'
      simp [hv]
    rw [get_applyEnvironment, Environment.effect_of_readableAt hread]
    simp [Environment.layer, htext, hv]
  · intro k htext
    rw [get_applyEnvironment]
    simp [Environment.effect, htext]
  · intro h
    exact applyEnvironment_again (hnone.mp h)

/-- Two variables that cannot be read stand in front of variables that can: each of these takes effect,
also the empty format, and both of the others are reported. -/
theorem applyEnvironment_independent_of_two :
    let env : Environment := [("PEMDAS_PERMISSIVE", "maybe"), ("PEMDAS_PRECISION", "-1"),
      ("PEMDAS_MAX_DEPTH", "10"), ("PEMDAS_FORMAT", []), ("PEMDAS_READ_TIMEOUT", "5s")]
    let t := (default.applyEnvironment env).1
    let report : Bytes := "PEMDAS_PERMISSIVE: strconv.ParseBool: parsing \"maybe\": invalid syntax\n"
      ++ "PEMDAS_PRECISION: strconv.ParseUint: parsing \"-1\": invalid syntax"
    (default.applyEnvironment env).2 = some report ∧ t.maxDepth = 10 ∧ t.format = [] ∧
      t.readTimeout = ⟨5000000000⟩ ∧ t.prompt = default.prompt := by
  intro env t report
  obtain ⟨-, -, hset, hunset, -⟩ := applyEnvironment_independent env default
  refine ⟨by decide +kernel, ?_, ?_, ?_, ?_⟩
  · exact hset .maxDepth "10" (10 : Int) rfl rfl
  · exact hset .format [] [] rfl rfl
  · exact hset .readTimeout "5s" (⟨5000000000⟩ : Duration) rfl rfl
  · exact hunset .prompt rfl

/-! ## Variables that cannot be read -/

theorem effect_of_not_readableAt {k : Key} (h : ¬ env.ReadableAt k) (s : Settings) :
    env.effect s k = some (s.remnant k) := by
  unfold Environment.ReadableAt at h
  push Not at h
  obtain ⟨text, htext, hread⟩ := h
  rw [Key.read?_eq] at hread
  rw [Environment.effect, htext, Option.map_some]
  cases hvalue : k.readOrFault text with
  | ok v =>
    rw [hvalue] at hread
    cases hread
  | error fault => rfl

/-- A variable that cannot be read does not change its setting, except that it makes the read timeout
zero. -/
theorem get_applyEnvironment_of_unreadable {k : Key} (h : ¬ env.ReadableAt k) (s : Settings) :
    (k ≠ .readTimeout → (s.applyEnvironment env).1.get k = s.get k) ∧
      (k = .readTimeout → (s.applyEnvironment env).1.readTimeout = ⟨0⟩) := by
  have hremnant : (s.applyEnvironment env).1.get k = s.remnant k := by
    rw [get_applyEnvironment, effect_of_not_readableAt h, Option.getD_some]
  constructor
  · intro hk
    rw [hremnant, remnant_of_ne s hk]
  · rintro rfl
    exact hremnant

/-- Of a nesting limit and a read timeout that cannot be read the default limit stays, and the default
timeout of ten seconds is lost. -/
theorem get_applyEnvironment_of_later :
    let env : Environment := [("PEMDAS_MAX_DEPTH", "deep"), ("PEMDAS_READ_TIMEOUT", "later")]
    (default.applyEnvironment env).1.maxDepth = 1000 ∧
      (default.applyEnvironment env).1.readTimeout = ⟨0⟩ := by
  intro env
  have hdepth : ¬ env.ReadableAt .maxDepth := by decide +kernel
  have htimeout : ¬ env.ReadableAt .readTimeout := by decide +kernel
  exact ⟨(get_applyEnvironment_of_unreadable hdepth default).1 (by decide),
    (get_applyEnvironment_of_unreadable htimeout default).2 rfl⟩

/-- A read timeout that cannot be read does not stay as it was. -/
theorem readTimeout_lost :
    ¬ ∀ (s : Settings) (env : Environment) (k : Key), ¬ env.ReadableAt k →
      (s.applyEnvironment env).1.get k = s.get k := by
  intro h
  have hkept := h default [("PEMDAS_READ_TIMEOUT", "later")] .readTimeout (by decide +kernel)
  exact absurd (congrArg Duration.ns hkept) (by decide +kernel)

end Settings
end Reckon
