import Reckon.CommandLine.Run
import Reckon.Proofs.Settings.Documents
import Reckon.Proofs.Settings.Environment

/-!
# Which settings are in force

The settings of a command are the defaults with three layers over them: that of the settings file, then
that of the environment, then that of the flags.  They are checked twice, before and after the flags
are applied.

They replace the settings in force as a whole.  If the file, the environment or one of the checks
fails, there is a message instead and nothing is replaced.

This holds with any readers of settings files that set exactly what is present in a text, or fail.  A
reader that fails may have set a part of it, which is lost with everything else.
-/

namespace Reckon

/-! ## Loading -/

namespace Settings

variable (reads : FileFormat → Bytes → Option Document)

/-- A stage of loading fails: the file cannot be read or decoded, a variable cannot be read, or the
settings that they give are not valid. -/
inductive LoadFails (path : Bytes) (content : Except FileFault Bytes) (env : Environment) : Prop
  | file (h : FileFails reads path content)
  | environment (h : ¬ env.Readable)
  | invalid {l : Layer} (hfile : FileGives reads path content l)
      (h : (env.layer.laidOver (l.laidOver default)).validate ≠ .ok ())

variable {reads} {decoders : Decoders}
variable {path : Bytes} {content : Except FileFault Bytes} {env : Environment} {s t : Settings}

theorem complete_eq_ok_iff :
    s.complete env = .ok t ↔ env.Readable ∧ t = env.layer.laidOver s ∧ t.validate = .ok () := by
  unfold complete
  rcases applyEnvironment_layer env s with ⟨hreadable, hrun⟩ | ⟨hreadable, u, message, hrun⟩
  · simp only [hrun, hreadable, true_and]
    cases hvalid : (env.layer.laidOver s).validate with
    | error text =>
      constructor
      · intro h
        cases h
      · rintro ⟨rfl, h⟩
        rw [hvalid] at h
        cases h
    | ok _ =>
      constructor
      · intro h
        cases h
        exact ⟨rfl, hvalid⟩
      · rintro ⟨rfl, -⟩
        rfl
  · simp [hrun, hreadable]

section Loading

variable (h : decoders.AssignPresent reads)

include h

theorem load_of_fileGives {l : Layer} (hfile : FileGives reads path content l) :
    load path content env decoders = (l.laidOver default).complete env := by
  unfold load
  rw [hfile.applyPath_eq h]

theorem exists_load_eq_error_of_fileFails
    (hfile : FileFails reads path content) (env : Environment) :
    ∃ e, load path content env decoders = .error e := by
  unfold load
  obtain ⟨t, e, hrun⟩ := hfile.exists_applyPath_eq h default
  rw [hrun]
  exact ⟨e, rfl⟩

theorem load_eq_ok_iff :
    load path content env decoders = .ok s ↔
      ∃ l, FileGives reads path content l ∧ env.Readable ∧
        s = env.layer.laidOver (l.laidOver default) ∧ s.validate = .ok () := by
  constructor
  · intro hload
    rcases fileFails_or_exists_fileGives reads path content with hfile | ⟨l, hfile⟩
    · obtain ⟨e, he⟩ := exists_load_eq_error_of_fileFails h hfile env
      rw [he] at hload
      cases hload
    · rw [load_of_fileGives h hfile] at hload
      exact ⟨l, hfile, complete_eq_ok_iff.mp hload⟩
  · rintro ⟨l, hfile, hcomplete⟩
    rw [load_of_fileGives h hfile]
    exact complete_eq_ok_iff.mpr hcomplete

theorem exists_load_iff :
    (∃ s, load path content env decoders = .ok s) ↔ ¬ LoadFails reads path content env := by
  constructor
  · rintro ⟨s, hs⟩ hfails
    obtain ⟨l, hfile, hreadable, rfl, hvalid⟩ := (load_eq_ok_iff h).mp hs
    cases hfails with
    | file hfails =>
      obtain ⟨e, he⟩ := exists_load_eq_error_of_fileFails h hfails env
      rw [hs] at he
      cases he
    | environment hfails => exact hfails hreadable
    | invalid hfile' hfails =>
      rw [hfile'.unique hfile] at hfails
      exact hfails hvalid
  · intro hworks
    rcases fileFails_or_exists_fileGives reads path content with hfile | ⟨l, hfile⟩
    · exact absurd (.file hfile) hworks
    · refine ⟨env.layer.laidOver (l.laidOver default),
        (load_eq_ok_iff h).mpr ⟨l, hfile, ?_, rfl, ?_⟩⟩
      · by_contra hreadable
        exact hworks (.environment hreadable)
      · by_contra hvalid
        exact hworks (.invalid hfile hvalid)

theorem exists_load_error_iff :
    (∃ e, load path content env decoders = .error e) ↔ LoadFails reads path content env := by
  rw [← not_iff_not, ← exists_load_iff h]
  cases load path content env decoders <;> simp

end Loading

end Settings

namespace CommandLine

open Settings

/-! ## Flags -/

/-- The kind of flag that a value belongs to. -/
def FlagValue.kind : FlagValue → FlagKind
  | .switch _ => .switch
  | .unsigned _ => .unsigned
  | .text _ => .text

/-- Every value was given to one of the flags, and is of its kind. -/
def Parsed.Kinded (flags : List Flag) (p : Parsed) : Prop :=
  ∀ entry ∈ p.values, ∃ flag ∈ flags, flag.name = entry.1 ∧ flag.kind = entry.2.kind

variable {flags : List Flag} {flag : Flag} {p q : Parsed} {v : FlagValue}

theorem exists_of_map_eq_ok
    {ε α β : Type} {r : Except ε α} {f : α → β} {b : β} (h : r.map f = .ok b) : ∃ a, f a = b := by
  cases r with
  | error => cases h
  | ok a =>
    cases h
    exact ⟨a, rfl⟩

theorem kind_of_read {kind : FlagKind} {value : Bytes} (h : kind.read value = .ok v) :
    kind = v.kind := by
  cases kind with
  | text =>
    cases h
    rfl
  | switch =>
    obtain ⟨on, rfl⟩ := exists_of_map_eq_ok h
    rfl
  | unsigned =>
    obtain ⟨n, rfl⟩ := exists_of_map_eq_ok h
    rfl

theorem Parsed.Kinded.set
    (h : p.Kinded flags) (hflag : flag ∈ flags) {value : Bytes} (hset : p.set flag value = .ok q) :
    q.Kinded flags := by
  unfold Parsed.set at hset
  cases hread : flag.kind.read value with
  | error => simp [hread] at hset
  | ok v =>
    simp only [hread, Except.ok.injEq] at hset
    subst hset
    exact List.forall_mem_cons.mpr ⟨⟨flag, hflag, rfl, kind_of_read hread⟩, h⟩

theorem kinded_parseLetters
    (h : p.Kinded flags) (letters : Bytes) (hparse : parseLetters flags p letters = .ok q) :
    q.Kinded flags := by
  induction letters generalizing p with
  | nil =>
    cases hparse
    exact h
  | cons c rest ih =>
    unfold parseLetters at hparse
    split at hparse
    · cases hparse
      exact h
    split at hparse
    · cases hparse
    have hflag := List.mem_of_find?_eq_some ‹_›
    split at hparse
    · exact h.set hflag hparse
    split at hparse
    · cases hparse
    · exact ih (h.set hflag ‹_›) hparse

theorem mem_of_longWord {word : Bytes} {value : Option Bytes}
    (h : longWord flags word = .ok ⟨flag, value⟩) : flag ∈ flags := by
  unfold longWord at h
  dsimp only at h
  split at h
  · cases h
  split at h
  · cases h
  · cases h
    exact List.mem_of_find?_eq_some ‹_›

theorem kinded_parseFlags
    (h : p.Kinded flags) (words : List Bytes) (hparse : parseFlags flags p words = .ok q) :
    q.Kinded flags := by
  fun_induction parseFlags flags p words
  case case1 | case3 =>
    cases hparse
    exact h
  case case2 ih => exact ih h hparse
  case case4 | case5 | case7 | case9 | case10 | case12 => cases hparse
  case case6 hword _ hset ih => exact ih (h.set (mem_of_longWord hword) hset) hparse
  case case8 hword _ _ hset ih => exact ih (h.set (mem_of_longWord hword) hset) hparse
  case case11 hword _ _ _ _ hset ih => exact ih (h.set (mem_of_longWord hword) hset) hparse
  case case13 hletters ih => exact ih (kinded_parseLetters h _ hletters) hparse

theorem kinded_empty : Parsed.empty.Kinded flags := by
  intro entry hentry
  cases hentry

theorem kinded_of_parsed? {words : List Bytes} {c : Command} (h : parsed? words = some (c, p)) :
    p.Kinded (Command.helpFlag :: c.ownFlags ++ Command.sharedFlags) := by
  unfold parsed? at h
  split at h
  · split at h
    · cases h
      exact kinded_parseFlags kinded_empty _ ‹_›
    · cases h
  · cases h

theorem Parsed.Kinded.get? (h : p.Kinded flags) {name : Bytes} (hget : p.get? name = some v) :
    ∃ flag ∈ flags, flag.name = name ∧ flag.kind = v.kind := by
  obtain ⟨entry, hfound, rfl⟩ := Option.map_eq_some_iff.mp hget
  have hname : entry.1 = name := by simpa using List.find?_some hfound
  obtain ⟨flag, hflag, hentry, hkind⟩ := h entry (List.mem_of_find?_eq_some hfound)
  exact ⟨flag, hflag, hentry.trans hname, hkind⟩

/-- The flag of a setting. -/
def flagOf? : Key → Option Flag
  | .permissive => some { name := "permissive", kind := .switch }
  | .precision => some { name := "precision", kind := .unsigned }
  | .format => some { name := "format", kind := .text }
  | _ => none

/-- The value of a flag as one of a setting. -/
def ofFlagValue? : (k : Key) → FlagValue → Option k.Value
  | .permissive, .switch on => some on
  | .precision, .unsigned n => some n
  | .format, .text s => some s
  | _, _ => none

/-- The values that the flags give. -/
def Parsed.layer (p : Parsed) : Layer :=
  fun k => (flagOf? k).bind fun flag => (p.get? flag.name).bind (ofFlagValue? k)

theorem layer_eq {k : Key} {f : Flag} (hk : flagOf? k = some f) :
    p.layer k = (p.get? f.name).bind (ofFlagValue? k) := by
  rw [Parsed.layer, hk, Option.bind_some]

theorem applyFlags_eq (s : Settings) (p : Parsed) : applyFlags s p = p.layer.laidOver s := by
  have hlayer : p.layer.restrict [.permissive, .precision, .format] = p.layer := by
    funext k
    cases k <;> rfl
  rw [← hlayer, ← Layer.restrict_laidOver_restrict, ← Layer.restrict_laidOver_restrict]
  simp only [Layer.restrict_singleton_laidOver]
  rw [layer_eq (k := .permissive) rfl, layer_eq (k := .precision) rfl, layer_eq (k := .format) rfl]
  unfold applyFlags Parsed.text?
  -- Each flag sets its own field, whatever the two others are.
  rcases p.get? "permissive" with _ | _ | _ | _ <;> rcases p.get? "precision" with _ | _ | _ | _ <;>
    rcases p.get? "format" with _ | _ | _ | _ <;> rfl

/-- The flag of a setting is the only one of its name. -/
theorem kind_eq_of_name_eq
    {c : Command} {k : Key} {f : Flag} (hk : flagOf? k = some f)
    (hflag : flag ∈ Command.helpFlag :: c.ownFlags ++ Command.sharedFlags)
    (hname : flag.name = f.name) : flag.kind = f.kind := by
  have hunique : ∀ f ∈ Command.sharedFlags,
      ∀ flag ∈ Command.helpFlag :: c.ownFlags ++ Command.sharedFlags,
        flag.name = f.name → flag.kind = f.kind := by
    cases c <;> decide
  have hshared : f ∈ Command.sharedFlags := by
    cases k <;> cases hk <;> decide
  exact hunique f hshared flag hflag hname

theorem isSome_ofFlagValue? {k : Key} {f : Flag} (hk : flagOf? k = some f) (hv : f.kind = v.kind) :
    (ofFlagValue? k v).isSome = true := by
  cases k <;> cases hk <;> cases v <;> cases hv <;> rfl

/-- The flags of a command line give a value to a setting exactly if its flag was set. -/
theorem isSome_layer_iff
    {words : List Bytes} {c : Command} (h : parsed? words = some (c, p)) (k : Key) :
    (p.layer k).isSome = true ↔ ∃ f, flagOf? k = some f ∧ (p.get? f.name).isSome = true := by
  cases hk : flagOf? k with
  | none => simp [Parsed.layer, hk]
  | some f =>
    rw [layer_eq hk]
    cases hget : p.get? f.name with
    | none => simp [hget]
    | some v =>
      obtain ⟨flag, hflag, hname, hkind⟩ := (kinded_of_parsed? h).get? hget
      have hv : f.kind = v.kind := (kind_eq_of_name_eq hk hflag hname).symm.trans hkind
      simp [hget, isSome_ofFlagValue? hk hv]

/-! ## Settings in force -/

/-- The path of the settings file. -/
def Parsed.path (p : Parsed) : Bytes :=
  (p.text? "config").getD []

/-- A stage of putting settings in force fails: they cannot be loaded, or they are not valid with the
flags. -/
inductive Fails (reads : FileFormat → Bytes → Option Document) (w : World) (p : Parsed) : Prop
  | load (h : LoadFails reads p.path (w.file p.path) w.environment)
  | invalid {file : Layer} (hfile : FileGives reads p.path (w.file p.path) file)
      (h : (p.layer.laidOver (w.environment.layer.laidOver (file.laidOver default))).validate ≠
        .ok ())

section Enforcing

variable {w : World} {reads : FileFormat → Bytes → Option Document} {decoders : Decoders}

theorem enforce_of_load_eq_error
    (current : Settings) {e : LoadError}
    (hload : Settings.load p.path (w.file p.path) w.environment decoders = .error e) :
    enforce current w p decoders = (current, some ("load config: " ++ e.message)) := by
  unfold Parsed.path at hload
  simp only [enforce, loadOrBlank, hload]

theorem enforce_of_validate_eq_error
    (current : Settings) {s : Settings} {text : Bytes}
    (hload : Settings.load p.path (w.file p.path) w.environment decoders = .ok s)
    (hvalid : (p.layer.laidOver s).validate = .error text) :
    enforce current w p decoders = (current, some ("invalid settings: " ++ text)) := by
  unfold Parsed.path at hload
  simp only [enforce, loadOrBlank, hload, applyFlags_eq, hvalid]

theorem enforce_of_validate_eq_ok
    (current : Settings) {s : Settings}
    (hload : Settings.load p.path (w.file p.path) w.environment decoders = .ok s)
    (hvalid : (p.layer.laidOver s).validate = .ok ()) :
    enforce current w p decoders = (p.layer.laidOver s, none) := by
  unfold Parsed.path at hload
  simp only [enforce, loadOrBlank, hload, applyFlags_eq, hvalid]

variable (h : decoders.AssignPresent reads)

include h

theorem enforce_of_fails (current : Settings) (hfails : Fails reads w p) :
    ∃ message, enforce current w p decoders = (current, some message) := by
  by_cases hload : LoadFails reads p.path (w.file p.path) w.environment
  · obtain ⟨e, he⟩ := (exists_load_error_iff h).mpr hload
    exact ⟨_, enforce_of_load_eq_error current he⟩
  cases hfails with
  | load hfails => exact absurd hfails hload
  | invalid hfile hfails =>
    obtain ⟨s, hs⟩ := (exists_load_iff h).mpr hload
    obtain ⟨l, hl, -, rfl, -⟩ := (load_eq_ok_iff h).mp hs
    rw [hfile.unique hl] at hfails
    cases hvalid : (p.layer.laidOver (w.environment.layer.laidOver (l.laidOver default))).validate with
    | error text => exact ⟨_, enforce_of_validate_eq_error current hs hvalid⟩
    | ok _ => exact absurd hvalid hfails

theorem enforce_of_not_fails (current : Settings) (hworks : ¬ Fails reads w p) :
    ∃ file, FileGives reads p.path (w.file p.path) file ∧ w.environment.Readable ∧
      let s := p.layer.laidOver (w.environment.layer.laidOver (file.laidOver default))
      s.validate = .ok () ∧ enforce current w p decoders = (s, none) := by
  obtain ⟨s, hs⟩ := (exists_load_iff h).mpr fun hfails => hworks (.load hfails)
  obtain ⟨file, hfile, hreadable, rfl, -⟩ := (load_eq_ok_iff h).mp hs
  have hvalid :
      (p.layer.laidOver (w.environment.layer.laidOver (file.laidOver default))).validate = .ok () := by
    by_contra hvalid
    exact hworks (.invalid hfile hvalid)
  exact ⟨file, hfile, hreadable, hvalid, enforce_of_validate_eq_ok current hs hvalid⟩

theorem not_fails_of_enforce_eq
    {current s : Settings} (hrun : enforce current w p decoders = (s, none)) : ¬ Fails reads w p := by
  intro hfails
  obtain ⟨message, hmessage⟩ := enforce_of_fails h current hfails
  rw [hrun] at hmessage
  cases hmessage

end Enforcing

/-- The settings in force after a command line, with readers that set exactly what is present in a text
or fail.  If a stage fails there is a message, and the settings in force are those from before; what
cannot be loaded is blank.  Otherwise the settings are valid, every variable has been read, and a setting
has the value of its flag if that was set, else that of its variable, else that of the file, else the
default. -/
theorem enforce_layers
    {reads : FileFormat → Bytes → Option Document} {decoders : Decoders}
    (h : decoders.AssignPresent reads) (current : Settings) (w : World) (p : Parsed) :
    (Fails reads w p → ∃ message, enforce current w p decoders = (current, some message)) ∧
      (LoadFails reads p.path (w.file p.path) w.environment →
        ∃ e, loadOrBlank p.path (w.file p.path) w.environment decoders = (blank, some e)) ∧
      (¬ Fails reads w p → ∃ s file, enforce current w p decoders = (s, none) ∧ s.validate = .ok () ∧
        FileGives reads p.path (w.file p.path) file ∧
          (∀ k, (w.environment.layer k).isSome = (w.environment.text? k).isSome) ∧
            ∀ k, s.get k = (((p.layer k).or (w.environment.layer k)).or (file k)).getD
              (Settings.default.get k)) ∧
      ∀ words c, parsed? words = some (c, p) → ∀ k,
        (p.layer k).isSome = true ↔ ∃ f, flagOf? k = some f ∧ (p.get? f.name).isSome = true := by
  refine ⟨enforce_of_fails h current, ?_, ?_, ?_⟩
  · intro hfails
    obtain ⟨e, he⟩ := (exists_load_error_iff h).mpr hfails
    refine ⟨e, ?_⟩
    simp only [loadOrBlank, he]
  · intro hworks
    obtain ⟨file, hfile, hreadable, hvalid, hrun⟩ := enforce_of_not_fails h current hworks
    refine ⟨_, file, hrun, hvalid, hfile, fun k => (hreadable k).isSome_layer, ?_⟩
    intro k
    simp only [Layer.get_laidOver, Option.getD_or]
  · intro words c hwords
    exact isSome_layer_iff hwords

/-- A flag over variables over a file over the defaults, for a file of each format, and a variable that
spoils the settings. -/
theorem enforce_layers_of_documents :
    let toml : Bytes := "[eval]\nprecision = 64\nmax_depth = 5\n[output]\nformat = \"%g\"\n"
    let yaml : Bytes := "eval:\n  max_depth: 7\nrepl: \x7bprompt: '> '\x7d\n"
    let w : World := ⟨fun path => .ok (if path = ("a.yml" : Bytes) then yaml else toml),
      [("PEMDAS_PRECISION", "32"), ("PEMDAS_FORMAT", "%.3f")], []⟩
    let spoilt : World := { w with environment := [("PEMDAS_MAX_DEPTH", "-5")] }
    let p : Parsed := ⟨[("precision", .unsigned 80), ("config", .text "pemdas.toml")], ["1"]⟩
    let q : Parsed := ⟨[("config", .text "a.yml")], []⟩
    ∃ reads, Decoders.standard.AssignPresent reads ∧
      (∃ file, FileGives reads "pemdas.toml" (.ok toml) file ∧ file .maxDepth = some (5 : Int) ∧
        enforce .blank w p =
          ({ Settings.default with precision := 80, maxDepth := 5, format := "%.3f" }, none)) ∧
      (∃ file, FileGives reads "a.yml" (.ok yaml) file ∧ file .maxDepth = some (7 : Int) ∧
        enforce .blank w q =
          ({ Settings.default with precision := 32, maxDepth := 7, format := "%.3f", prompt := "> " },
            none)) ∧
      (∃ message, enforce .blank spoilt p = (.blank, some message)) ∧
      (∃ e, loadOrBlank p.path (spoilt.file p.path) spoilt.environment = (blank, some e)) ∧
      ((p.layer .format).isSome = true ↔
        ∃ f, flagOf? .format = some f ∧ (p.get? f.name).isSome = true) := by
  intro toml yaml w spoilt p q
  obtain ⟨reads, h⟩ := Decoders.exists_assignPresent_standard
  have hp : enforce .blank w p =
      ({ Settings.default with precision := 80, maxDepth := 5, format := "%.3f" }, none) := by
    decide +kernel
  have hq : enforce .blank w q =
      ({ Settings.default with precision := 32, maxDepth := 7, format := "%.3f", prompt := "> " },
        none) := by
    decide +kernel
  have hwords : parsed? ["eval", "--config", "pemdas.toml", "--precision", "80", "1"] =
      some (.eval, p) := by decide +kernel
  have hload : ∃ e, Settings.load p.path (spoilt.file p.path) spoilt.environment = .error e :=
    ⟨.invalid "eval.max_depth -5 is negative", by decide +kernel⟩
  have hspoilt := (exists_load_error_iff h).mp hload
  obtain ⟨hfails, hblank, -, hflags⟩ := enforce_layers h .blank spoilt p
  refine ⟨reads, h, ?_, ?_, hfails (.load hspoilt), hblank hspoilt, hflags _ _ hwords .format⟩
  · obtain ⟨s, file, hs, -, hfile, -, hvalues⟩ :=
      (enforce_layers h .blank w p).2.2.1 (not_fails_of_enforce_eq h hp)
    cases hp.symm.trans hs
    have hdepth : (file .maxDepth).getD Settings.default.maxDepth = (5 : Int) :=
      (hvalues .maxDepth).symm
    have hdefault : Settings.default.maxDepth ≠ 5 := by decide
    exact ⟨file, hfile,
      (Option.getD_eq_iff.mp hdepth).resolve_right fun hnone => hdefault hnone.2, hp⟩
  · obtain ⟨s, file, hs, -, hfile, -, hvalues⟩ :=
      (enforce_layers h .blank w q).2.2.1 (not_fails_of_enforce_eq h hq)
    cases hq.symm.trans hs
    have hdepth : (file .maxDepth).getD Settings.default.maxDepth = (7 : Int) :=
      (hvalues .maxDepth).symm
    have hdefault : Settings.default.maxDepth ≠ 7 := by decide
    exact ⟨file, hfile,
      (Option.getD_eq_iff.mp hdepth).resolve_right fun hnone => hdefault hnone.2, hq⟩

end CommandLine
end Reckon
