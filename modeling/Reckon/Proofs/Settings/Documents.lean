import Mathlib.Tactic.Choose
import Reckon.Proofs.Settings.Layers
import Reckon.Settings.Load

/-!
# What settings files say

A settings file gives a layer, and it may name keys that belong to no setting.  It may be impossible to
read or decode, but then it is so whatever it is read over; otherwise the values it gives do not depend on
the settings below it, and neither does the choice of the settings that it gives a value to.

This is what is expected of readers of settings files, and the readers of the program meet it.  With such
readers, what the file of a path gives and how it fails can be told from its text alone.
-/

namespace Reckon
namespace Settings

/-! ## Steps that lay a layer -/

/-- A step that fails whatever the settings are, or lays the same layer over all of them. -/
def Layered (f : Settings → Option Settings) : Prop :=
  (∀ s, f s = none) ∨ ∃ l : Layer, ∀ s, f s = some (l.laidOver s)

variable {α : Type} {f g : Settings → Option Settings}

theorem layered_none : Layered fun _ => none :=
  Or.inl fun _ => rfl

theorem layered_some : Layered some := by
  refine Or.inr ⟨.empty, ?_⟩
  intro s
  rw [Layer.empty_laidOver]

theorem Layered.bind (hf : Layered f) (hg : Layered g) : Layered fun s => (f s).bind g := by
  rcases hf with hf | ⟨l, hf⟩
  · left
    intro s
    simp only [hf, Option.bind_none]
  rcases hg with hg | ⟨m, hg⟩
  · left
    intro s
    simp only [hf, Option.bind_some, hg]
  · right
    refine ⟨m.orElse l, ?_⟩
    intro s
    simp only [hf, Option.bind_some, hg, Layer.laidOver_laidOver]

theorem Layered.foldlM
    {step : Settings → α → Option Settings} {xs : List α} (h : ∀ x ∈ xs, Layered (step · x)) :
    Layered fun s => xs.foldlM step s := by
  induction xs with
  | nil => exact layered_some
  | cons x xs ih =>
    have hfirst : Layered (step · x) := h x List.mem_cons_self
    have hrest : Layered fun s => xs.foldlM step s :=
      ih fun y hy => h y (List.mem_cons_of_mem x hy)
    exact hfirst.bind hrest

theorem Layered.ite {c : Prop} [Decidable c] (hf : Layered f) (hg : Layered g) :
    Layered fun s => if c then f s else g s := by
  by_cases hc : c
  · simpa only [if_pos hc] using hf
  · simpa only [if_neg hc] using hg

/-! ## Fields -/

/-- A way to set a value that lays a layer. -/
def Lays (set : Settings → α → Settings) : Prop :=
  ∀ a, ∃ l : Layer, ∀ s, set s a = l.laidOver s

theorem Lays.layered {set : Settings → α → Settings} (h : Lays set) (a : α) :
    Layered fun s => some (set s a) := by
  obtain ⟨l, hl⟩ := h a
  refine Or.inr ⟨l, ?_⟩
  intro s
  simp only [hl]

theorem Lays.layered_map {set : Settings → α → Settings} (h : Lays set) (a : Option α) :
    Layered fun s => a.map (set s) := by
  cases a with
  | none => exact layered_none
  | some a => exact h.layered a

/-- A kind of field that lays a layer, whatever value it is given. -/
def Slot.Lays : Slot → Prop
  | .truth set => Settings.Lays set
  | .unsigned set => Settings.Lays set
  | .integer set => Settings.Lays set
  | .text set => Settings.Lays set
  | .duration set => Settings.Lays set

/-- Every field is one of the settings. -/
theorem lays_of_mem_fields {f : Field} (hf : f ∈ fields) : f.slot.Lays := by
  revert f
  simp only [fields, List.forall_mem_cons]
  refine ⟨?_, ?_, ?_, ?_, ?_, ?_, ?_, ?_, ?_, nofun⟩
  · exact fun b => ⟨.single .permissive b, fun _ => rfl⟩
  · exact fun n => ⟨.single .precision n, fun _ => rfl⟩
  · exact fun n => ⟨.single .maxDepth n, fun _ => rfl⟩
  · exact fun text => ⟨.single .format text, fun _ => rfl⟩
  · exact fun text => ⟨.single .prompt text, fun _ => rfl⟩
  · exact fun text => ⟨.single .banner text, fun _ => rfl⟩
  · exact fun b => ⟨.single .plain b, fun _ => rfl⟩
  · exact fun text => ⟨.single .addr text, fun _ => rfl⟩
  · exact fun d => ⟨.single .readTimeout d, fun _ => rfl⟩

theorem mem_fields_of_findField?
    {sectionName : Bytes} {same : Bytes → Bool} {f : Field}
    (h : findField? sectionName same = some f) : f ∈ fields :=
  List.mem_of_find?_eq_some h

theorem layered_setDuration?
    {set : Settings → Duration → Settings} (hset : Lays set) (text : Bytes) :
    Layered fun s => setDuration? set s text := by
  unfold setDuration?
  cases Duration.read text with
  | ok d => exact hset.layered d
  | error => exact layered_none

/-! ## Documents -/

theorem layered_setFromToml {slot : Slot} (h : slot.Lays) (v : Toml.Value) :
    Layered fun s => setFromToml slot s v := by
  cases slot with
  | truth set =>
    cases v with
    | boolean b => exact Lays.layered h b
    | _ => exact layered_none
  | unsigned set =>
    cases v with
    | integer n => exact Lays.layered h _
    | _ => exact layered_none
  | integer set =>
    cases v with
    | integer n => exact Lays.layered h n
    | _ => exact layered_none
  | text set =>
    cases v with
    | string text => exact Lays.layered h text
    | _ => exact layered_none
  | duration set =>
    cases v with
    | string text => exact layered_setDuration? h text
    | integer n => exact layered_setDuration? h _
    | _ => exact layered_none

theorem mem_fields_of_targetOf {p : Toml.Path} {f : Field} (h : targetOf p = .field f) :
    f ∈ fields := by
  unfold targetOf at h
  split at h
  · split at h <;> cases h
  · split at h
    · cases h
      rename_i hfound
      obtain ⟨name, -, hfound⟩ := Option.bind_eq_some_iff.mp hfound
      exact mem_fields_of_findField? hfound
    · cases h
  · cases h

theorem layered_setEntry (entry : Toml.Path × Toml.Node) : Layered (setEntry · entry) := by
  unfold setEntry
  cases htarget : targetOf entry.1 with
  | unknown => exact layered_some
  | wholeSection =>
    cases entry.2 with
    | table => exact layered_some
    | _ => exact layered_none
  | field f =>
    cases entry.2 with
    | leaf v => exact layered_setFromToml (lays_of_mem_fields (mem_fields_of_targetOf htarget)) v
    | _ => exact layered_none

theorem layered_setFromScalar {slot : Slot} (h : slot.Lays) (text : Bytes) (m : Yaml.Meaning) :
    Layered fun s => setFromScalar slot s text m := by
  cases slot with
  | truth set =>
    cases m with
    | null => exact layered_some
    | truth b => exact Lays.layered h b
    | text => exact Lays.layered_map h (truthWord? text)
    | _ => exact layered_none
  | unsigned set =>
    cases m with
    | null => exact layered_some
    | integer n => exact layered_none.ite (Lays.layered h _)
    | real x => exact (Lays.layered h _).ite layered_none
    | _ => exact layered_none
  | integer set =>
    cases m with
    | null => exact layered_some
    | integer n => exact (Lays.layered h _).ite layered_none
    | real x => exact (Lays.layered h _).ite layered_none
    | _ => exact layered_none
  | text set =>
    cases m with
    | null => exact layered_some
    | _ => exact Lays.layered h text
  | duration set =>
    cases m with
    | null => exact layered_some
    | _ => exact layered_setDuration? h text

theorem layered_setEntries
    {set : Settings → Bytes → Yaml.Node → Option Settings}
    (h : ∀ name v, Layered fun s => set s name v) (entries : List (Yaml.Node × Yaml.Node)) :
    Layered fun s => setEntries set s entries := by
  unfold setEntries
  split
  · exact layered_none
  apply Layered.foldlM
  rintro ⟨k, v⟩ -
  cases k with
  | scalar text plain =>
    dsimp only
    cases Yaml.Meaning.ofScalar text plain with
    | null => exact layered_some
    | _ => exact h text v
  | _ => exact layered_none

theorem layered_setNestedDuration
    {set : Settings → Duration → Settings} (h : Lays set) (name : Bytes) (v : Yaml.Node) :
    Layered fun s => setNestedDuration set s name v := by
  unfold setNestedDuration
  split
  · exact layered_none
  cases v with
  | scalar text plain =>
    dsimp only
    cases Yaml.Meaning.ofScalar text plain with
    | null => exact layered_some
    | text => exact layered_setDuration? h text
    | _ => exact layered_none
  | _ => exact layered_none

theorem layered_setField (sectionName name : Bytes) (v : Yaml.Node) :
    Layered fun s => setField sectionName s name v := by
  unfold setField
  cases hfound : findField? sectionName (· = name) with
  | none => exact layered_none
  | some f =>
    have hlays : f.slot.Lays := lays_of_mem_fields (mem_fields_of_findField? hfound)
    simp only [Option.bind_some]
    cases v with
    | scalar text plain => exact layered_setFromScalar hlays text _
    | mapping entries =>
      cases hslot : f.slot with
      | duration set =>
        rw [hslot] at hlays
        exact layered_setEntries (layered_setNestedDuration hlays) entries
      | _ => exact layered_none
    | sequence => exact layered_none

theorem layered_setSection (name : Bytes) (v : Yaml.Node) :
    Layered fun s => setSection s name v := by
  unfold setSection
  cases findSection? (· = name) with
  | none => exact layered_none
  | some sectionName =>
    simp only [Option.bind_some]
    cases v with
    | mapping entries => exact layered_setEntries (layered_setField sectionName) entries
    | scalar text plain =>
      dsimp only
      cases Yaml.Meaning.ofScalar text plain with
      | null => exact layered_some
      | _ => exact layered_none
    | sequence => exact layered_none

theorem layered_applyYaml (text : Bytes) : Layered fun s => s.applyYaml text := by
  unfold applyYaml
  cases Yaml.Node.read? text with
  | none => exact layered_none
  | some document =>
    cases document with
    | none => exact layered_some
    | some root =>
      cases root with
      | mapping entries => exact layered_setEntries layered_setSection entries
      | scalar text plain =>
        dsimp only
        cases Yaml.Meaning.ofScalar text plain with
        | null => exact layered_some
        | _ => exact layered_none
      | sequence => exact layered_none

theorem applyToml_layer (text : Bytes) :
    (∀ s : Settings, s.applyToml text = none) ∨
      ∃ (l : Layer) (unknown : List Bytes), ∀ s : Settings,
        s.applyToml text = some (l.laidOver s, unknown) := by
  unfold applyToml
  cases Toml.read? text with
  | none => exact Or.inl fun _ => rfl
  | some d =>
    have hentries : Layered fun s => d.entries.reverse.foldlM setEntry s :=
      Layered.foldlM fun entry _ => layered_setEntry entry
    rcases hentries with hfail | ⟨l, hl⟩
    · left
      intro s
      simp only [Option.bind_some, hfail, Option.map_none]
    · right
      refine ⟨l, (d.order.filter isUnknown).map Toml.Path.render, ?_⟩
      intro s
      simp only [Option.bind_some, hl, Option.map_some]

/-- What a settings file says: values for some of the settings, and keys that belong to none. -/
structure Document where
  values : Layer
  unknown : List Bytes

end Settings

/-! ## Readers -/

namespace Decoders

open Settings

/-- A reader takes a text for a document, or refuses it.  The values of the document are set over whatever
settings the reader is given, and nothing else is.  A YAML text is refused if it has a key that belongs to
no setting, and it may end before any document, which says nothing. -/
def ReadsAs (d : Decoders) (text : Bytes) : FileFormat → Option Document → Prop
  | .toml, some doc => ∀ s, d.toml text s = (doc.values.laidOver s, .ok doc.unknown)
  | .toml, none => ∀ s, ∃ t detail, d.toml text s = (t, .error detail)
  | .yaml, some doc => doc.unknown = [] ∧
      ((∀ s, d.yaml text s = (doc.values.laidOver s, none)) ∨
        doc.values = .empty ∧ ∀ s, d.yaml text s = (s, some .ended))
  | .yaml, none => ∀ s, ∃ t detail, d.yaml text s = (t, some (.malformed detail))

/-- The readers set exactly what is present in a text, or they fail: `reads` tells which documents the
texts are. -/
def AssignPresent (d : Decoders) (reads : FileFormat → Bytes → Option Document) : Prop :=
  ∀ format text, d.ReadsAs text format (reads format text)

theorem exists_readsAs_standard (format : FileFormat) (text : Bytes) :
    ∃ document, standard.ReadsAs text format document := by
  cases format with
  | toml =>
    rcases applyToml_layer text with hfail | ⟨l, unknown, hl⟩
    · exact ⟨none, fun s => ⟨s, LoadError.malformedDetail, by simp only [standard, hfail]⟩⟩
    · exact ⟨some ⟨l, unknown⟩, fun s => by simp only [standard, hl]⟩
  | yaml =>
    rcases layered_applyYaml text with hfail | ⟨l, hl⟩
    · exact ⟨none, fun s => ⟨s, LoadError.malformedDetail, by simp only [standard, hfail]⟩⟩
    · exact ⟨some ⟨l, []⟩, rfl, Or.inl fun s => by simp only [standard, hl]⟩

/-- The readers of the program set exactly what is present in a text, or they fail. -/
theorem exists_assignPresent_standard : ∃ reads, standard.AssignPresent reads := by
  choose reads hreads using exists_readsAs_standard
  exact ⟨reads, hreads⟩

end Decoders

/-! ## Files -/

namespace Settings

section Files

variable (reads : FileFormat → Bytes → Option Document)
variable (path : Bytes) (content : Except FileFault Bytes)

/-- The values that the file of a path gives.  An empty path stands for no file.  Otherwise the file can be
read, the extension of its name tells a format, and its text is a document in that format in which every
key belongs to a setting. -/
inductive FileGives : Layer → Prop
  | nothing (hpath : path = []) : FileGives .empty
  | document {text : Bytes} {format : FileFormat} {doc : Document} (hpath : path ≠ [])
      (hcontent : content = .ok text)
      (hformat : formatOf? (lowerText (extensionOf path)) = some format)
      (hread : reads format text = some doc) (hknown : doc.unknown = []) : FileGives doc.values

/-- The file of a path cannot be read, the extension of its name tells no format, its text is no document
in that format, or a key of the document belongs to no setting. -/
inductive FileFails : Prop
  | unreadable {fault : FileFault} (hpath : path ≠ []) (hcontent : content = .error fault)
  | unsupported {text : Bytes} (hpath : path ≠ []) (hcontent : content = .ok text)
      (hformat : formatOf? (lowerText (extensionOf path)) = none)
  | malformed {text : Bytes} {format : FileFormat} (hpath : path ≠ []) (hcontent : content = .ok text)
      (hformat : formatOf? (lowerText (extensionOf path)) = some format)
      (hread : reads format text = none)
  | unknownKey {text : Bytes} {format : FileFormat} {doc : Document} (hpath : path ≠ [])
      (hcontent : content = .ok text)
      (hformat : formatOf? (lowerText (extensionOf path)) = some format)
      (hread : reads format text = some doc) (hunknown : doc.unknown ≠ [])

theorem fileFails_or_exists_fileGives :
    FileFails reads path content ∨ ∃ l, FileGives reads path content l := by
  by_cases hpath : path = []
  · exact Or.inr ⟨_, .nothing hpath⟩
  cases hcontent : content with
  | error fault => exact Or.inl (.unreadable hpath rfl)
  | ok text =>
    cases hformat : formatOf? (lowerText (extensionOf path)) with
    | none => exact Or.inl (.unsupported hpath rfl hformat)
    | some format =>
      cases hread : reads format text with
      | none => exact Or.inl (.malformed hpath rfl hformat hread)
      | some doc =>
        by_cases hknown : doc.unknown = []
        · exact Or.inr ⟨_, .document hpath rfl hformat hread hknown⟩
        · exact Or.inl (.unknownKey hpath rfl hformat hread hknown)

variable {reads path content} {d : Decoders}

theorem FileGives.unique
    {l m : Layer} (hl : FileGives reads path content l) (hm : FileGives reads path content m) :
    l = m := by
  cases hl with
  | nothing hpath =>
    cases hm with
    | nothing => rfl
    | document hpath' => exact absurd hpath hpath'
  | document hpath hcontent hformat hread =>
    cases hm with
    | nothing hpath' => exact absurd hpath' hpath
    | document _ hcontent' hformat' hread' =>
      cases hcontent.symm.trans hcontent'
      cases hformat.symm.trans hformat'
      cases hread.symm.trans hread'
      rfl

theorem applyPath_of_ne_nil (hpath : path ≠ []) (s : Settings) :
    s.applyPath path content d = s.applyFile path content d :=
  if_neg (by simpa using hpath)

/-- The values that a file gives are set over whatever settings there are. -/
theorem FileGives.applyPath_eq
    {l : Layer} (hgives : FileGives reads path content l) (h : d.AssignPresent reads) (s : Settings) :
    s.applyPath path content d = (l.laidOver s, none) := by
  cases hgives with
  | nothing hpath =>
    rw [applyPath, hpath]
    rfl
  | @document text format doc hpath hcontent hformat hread hknown =>
    have hreads := h format text
    rw [hread] at hreads
    rw [applyPath_of_ne_nil hpath, hcontent]
    unfold applyFile
    cases format with
    | toml => simp only [hformat, hreads s, hknown]
    | yaml =>
      obtain ⟨-, hset | ⟨hempty, hended⟩⟩ := hreads
      · simp only [hformat, hset s]
      · simp only [hformat, hended s, hempty, Layer.empty_laidOver]

/-- A file that fails does so whatever settings there are. -/
theorem FileFails.exists_applyPath_eq
    (hfails : FileFails reads path content) (h : d.AssignPresent reads) (s : Settings) :
    ∃ t e, s.applyPath path content d = (t, some e) := by
  cases hfails with
  | @unreadable fault hpath hcontent =>
    refine ⟨s, .unreadable path fault, ?_⟩
    rw [applyPath_of_ne_nil hpath, hcontent]
    rfl
  | unsupported hpath hcontent hformat =>
    refine ⟨s, .unsupported (lowerText (extensionOf path)), ?_⟩
    rw [applyPath_of_ne_nil hpath, hcontent]
    simp only [applyFile, hformat]
  | @malformed text format hpath hcontent hformat hread =>
    have hreads := h format text
    rw [hread] at hreads
    rw [applyPath_of_ne_nil hpath, hcontent]
    unfold applyFile
    cases format with
    | toml =>
      obtain ⟨t, detail, hrun⟩ := hreads s
      exact ⟨t, .malformed .toml path detail, by simp only [hformat, hrun]⟩
    | yaml =>
      obtain ⟨t, detail, hrun⟩ := hreads s
      exact ⟨t, .malformed .yaml path detail, by simp only [hformat, hrun]⟩
  | @unknownKey text format doc hpath hcontent hformat hread hunknown =>
    have hreads := h format text
    rw [hread] at hreads
    obtain ⟨key, keys, hkeys⟩ := List.exists_cons_of_ne_nil hunknown
    refine ⟨doc.values.laidOver s, .unknownKey path key, ?_⟩
    rw [applyPath_of_ne_nil hpath, hcontent]
    unfold applyFile
    cases format with
    | toml => simp only [hformat, hreads s, hkeys]
    | yaml => exact absurd hreads.1 hunknown

end Files

end Settings
end Reckon
