import Mathlib.Data.List.TakeWhile
import Reckon.Proofs.Json.Spelling

/-!
# Documents in JSON

A document of strings is an object whose fields are strings or `null`, or it is `null` itself.  White
space may stand in front of it and between its tokens.

The reader of objects accepts a text exactly if the text starts with such a document.  It gets the
fields of the document in their order, and what stands behind the document has no influence on them.
-/

namespace Reckon
namespace Json

/-! ## Spellings -/

/-- The spellings of a value. -/
inductive SpellsValue : Bytes → Option Bytes → Prop
  | null : SpellsValue "null" none
  | string {piece text : Bytes} (h : SpellsString piece text) : SpellsValue piece (some text)

/-- The spellings of a field. -/
inductive SpellsMember : Bytes → Bytes × Option Bytes → Prop
  | field {namePiece valuePiece before after name : Bytes} {value : Option Bytes}
    (hname : SpellsString namePiece name) (hbefore : IsSpacing before) (hafter : IsSpacing after)
    (hvalue : SpellsValue valuePiece value) :
    SpellsMember (namePiece ++ (before ++ 0x3A :: (after ++ valuePiece))) (name, value)

/-- The spellings of fields behind an opening brace, with the closing one. -/
inductive SpellsMembers : Bytes → List (Bytes × Option Bytes) → Prop
  | last {piece before : Bytes} {field : Bytes × Option Bytes} (hfield : SpellsMember piece field)
    (hbefore : IsSpacing before) : SpellsMembers (piece ++ (before ++ [0x7D])) [field]
  | more {piece before after rest : Bytes} {field : Bytes × Option Bytes}
    {fields : List (Bytes × Option Bytes)} (hfield : SpellsMember piece field)
    (hbefore : IsSpacing before) (hafter : IsSpacing after) (hrest : SpellsMembers rest fields) :
    SpellsMembers (piece ++ (before ++ 0x2C :: (after ++ rest))) (field :: fields)

/-- The documents of strings, each with its fields.  A document ends with its last token. -/
inductive Document : Bytes → List (Bytes × Option Bytes) → Prop
  | null {before : Bytes} (hbefore : IsSpacing before) : Document (before ++ ("null" : Bytes)) []
  | empty {before inside : Bytes} (hbefore : IsSpacing before) (hinside : IsSpacing inside) :
    Document (before ++ 0x7B :: (inside ++ [0x7D])) []
  | object {before inside members : Bytes} {fields : List (Bytes × Option Bytes)}
    (hbefore : IsSpacing before) (hinside : IsSpacing inside)
    (hmembers : SpellsMembers members fields) :
    Document (before ++ 0x7B :: (inside ++ members)) fields

/-! ## White space -/

theorem exists_spacing (s : Bytes) : ∃ spacing, IsSpacing spacing ∧ s = spacing ++ skipSpace s :=
  ⟨s.takeWhile isSpace, fun _ => List.mem_takeWhile_imp, List.takeWhile_append_dropWhile.symm⟩

theorem skipSpace_append {spacing : Bytes} (h : IsSpacing spacing) {b : UInt8}
    (hb : isSpace b = false) (s : Bytes) : skipSpace (spacing ++ b :: s) = b :: s := by
  rw [skipSpace, List.dropWhile_append_of_pos h, List.dropWhile_cons_of_neg (by simp [hb])]

/-! ## The first and the last byte -/

theorem SpellsString.exists_cons {piece text : Bytes} (h : SpellsString piece text) :
    ∃ rest, piece = quote :: rest := by
  cases h
  exact ⟨_, rfl⟩

theorem SpellsValue.exists_cons {piece : Bytes} {value : Option Bytes}
    (h : SpellsValue piece value) : ∃ b rest, piece = b :: rest ∧ isSpace b = false := by
  cases h with
  | null => exact ⟨0x6E, [0x75, 0x6C, 0x6C], by decide, by decide⟩
  | string hstring =>
    obtain ⟨rest, rfl⟩ := hstring.exists_cons
    exact ⟨quote, rest, rfl, by decide⟩

theorem SpellsMember.exists_cons {piece : Bytes} {field : Bytes × Option Bytes}
    (h : SpellsMember piece field) : ∃ rest, piece = quote :: rest := by
  obtain ⟨hname, -, -, -⟩ := h
  obtain ⟨rest, rfl⟩ := hname.exists_cons
  exact ⟨_, rfl⟩

theorem SpellsMembers.exists_cons {piece : Bytes} {fields : List (Bytes × Option Bytes)}
    (h : SpellsMembers piece fields) : ∃ rest, piece = quote :: rest := by
  cases h with
  | last hfield | more hfield =>
    obtain ⟨rest, rfl⟩ := hfield.exists_cons
    exact ⟨_, rfl⟩

theorem SpellsMembers.exists_concat {piece : Bytes} {fields : List (Bytes × Option Bytes)}
    (h : SpellsMembers piece fields) : ∃ front, piece = front ++ [0x7D] := by
  induction h with
  | @last piece before =>
    exact ⟨piece ++ before, by simp⟩
  | @more piece before after _ _ _ _ _ _ _ ih =>
    obtain ⟨front, rfl⟩ := ih
    exact ⟨piece ++ (before ++ 0x2C :: (after ++ front)), by simp⟩

/-- A document ends with a closing brace or with the last letter of `null`. -/
theorem Document.exists_concat {document : Bytes} {fields : List (Bytes × Option Bytes)}
    (h : Document document fields) :
    ∃ front b, document = front ++ [b] ∧ (b = 0x7D ∨ b = 0x6C) := by
  cases h with
  | @null before => exact ⟨before ++ [0x6E, 0x75, 0x6C], 0x6C, by simp; rfl, .inr rfl⟩
  | @empty before inside => exact ⟨before ++ 0x7B :: inside, 0x7D, by simp, .inl rfl⟩
  | @object before inside _ _ _ _ hmembers =>
    obtain ⟨front, rfl⟩ := hmembers.exists_concat
    exact ⟨before ++ 0x7B :: (inside ++ front), 0x7D, by simp, .inl rfl⟩

/-! ## Reading -/

theorem dropLeading_eq_some_iff {part s rest : Bytes} :
    Bytes.dropLeading? part s = some rest ↔ s = part ++ rest := by
  fun_induction Bytes.dropLeading? part s with
  | case1 s => simp
  | case2 => simp
  | case3 => simp_all
  | case4 => simp_all [eq_comm]

theorem takeValue_eq_some_iff {s rest : Bytes} {value : Option Bytes} :
    takeValue s = some (value, rest) ↔ ∃ piece, s = piece ++ rest ∧ SpellsValue piece value := by
  constructor
  · intro h
    unfold takeValue at h
    split at h
    case h_1 hnull =>
      cases h
      exact ⟨"null", dropLeading_eq_some_iff.mp hnull, .null⟩
    case h_2 =>
      obtain ⟨⟨text, rest'⟩, hstring, hresult⟩ := Option.map_eq_some_iff.mp h
      cases hresult
      obtain ⟨piece, rfl, hpiece⟩ := takeString_eq_some_iff.mp hstring
      exact ⟨piece, rfl, .string hpiece⟩
  · rintro ⟨piece, rfl, hpiece⟩
    cases hpiece with
    | null =>
      have hnull := dropLeading_eq_some_iff.mpr (Eq.refl (("null" : Bytes) ++ rest))
      simp only [takeValue, hnull]
    | @string _ text hstring =>
      have hread := takeString_eq_some_iff.mpr ⟨piece, Eq.refl (piece ++ rest), hstring⟩
      obtain ⟨more, rfl⟩ := hstring.exists_cons
      have hnull : Bytes.dropLeading? "null" (quote :: more ++ rest) = none := rfl
      simp only [takeValue, hnull, hread, Option.map_some]

theorem takeMember_eq_some_iff {s rest : Bytes} {field : Bytes × Option Bytes} :
    takeMember s = some (field, rest) ↔ ∃ piece, s = piece ++ rest ∧ SpellsMember piece field := by
  constructor
  · intro h
    obtain ⟨⟨name, s₁⟩, hread, hmore⟩ := Option.bind_eq_some_iff.mp h
    obtain ⟨namePiece, rfl, hname⟩ := takeString_eq_some_iff.mp hread
    obtain ⟨before, hbefore, hs₁⟩ := exists_spacing s₁
    dsimp only at hmore
    split at hmore
    case h_2 => cases hmore
    case h_1 s₂ hcolon =>
      obtain ⟨⟨value, rest'⟩, hvalue, hresult⟩ := Option.map_eq_some_iff.mp hmore
      cases hresult
      obtain ⟨after, hafter, hs₂⟩ := exists_spacing s₂
      obtain ⟨valuePiece, hsplit, hvalue⟩ := takeValue_eq_some_iff.mp hvalue
      refine ⟨_, ?_, .field hname hbefore hafter hvalue⟩
      rw [hs₁, hcolon, hs₂, hsplit]
      simp
  · rintro ⟨piece, rfl, hpiece⟩
    obtain @⟨namePiece, valuePiece, before, after, name, value, hname, hbefore, hafter, hvalue⟩ :=
      hpiece
    have hread := takeValue_eq_some_iff.mpr ⟨valuePiece, Eq.refl (valuePiece ++ rest), hvalue⟩
    obtain ⟨b, more, rfl, hb⟩ := hvalue.exists_cons
    have hcolon := skipSpace_append hbefore (b := 0x3A) (by decide) (after ++ (b :: more ++ rest))
    have hskip := skipSpace_append hafter hb (more ++ rest)
    have hsplit : namePiece ++ (before ++ 0x3A :: (after ++ b :: more)) ++ rest =
        namePiece ++ (before ++ 0x3A :: (after ++ (b :: more ++ rest))) := by simp
    have hstring := takeString_eq_some_iff.mpr ⟨namePiece, hsplit, hname⟩
    rw [takeMember, hstring, Option.bind_some]
    simp only [hcolon]
    rw [List.cons_append, hskip, ← List.cons_append, hread, Option.map_some]

/-- Fields behind an opening brace are read up to the closing one if the bound allows it. -/
theorem SpellsMembers.takeMembers {piece : Bytes} {fields : List (Bytes × Option Bytes)}
    (h : SpellsMembers piece fields) (rest : Bytes) :
    ∀ fuel, piece.length ≤ fuel → Json.takeMembers fuel (piece ++ rest) = some fields := by
  induction h with
  | @last piece before field hfield hbefore =>
    rintro (_ | fuel) hfuel
    · simp at hfuel
    · have hread := takeMember_eq_some_iff.mpr
        ⟨piece, Eq.refl (piece ++ (before ++ 0x7D :: rest)), hfield⟩
      have hclose := skipSpace_append hbefore (b := 0x7D) (by decide) rest
      simp [Json.takeMembers, hread, hclose]
  | @more piece before after members field fields hfield hbefore hafter hrest ih =>
    rintro (_ | fuel) hfuel
    · simp at hfuel
    · have hfuel' : members.length ≤ fuel := by
        simp at hfuel
        omega
      have hread := takeMember_eq_some_iff.mpr
        ⟨piece, Eq.refl (piece ++ (before ++ 0x2C :: (after ++ (members ++ rest)))), hfield⟩
      have hcomma := skipSpace_append hbefore (b := 0x2C) (by decide)
        (after ++ (members ++ rest))
      have hskip : skipSpace (after ++ (members ++ rest)) = members ++ rest := by
        obtain ⟨tail, rfl⟩ := hrest.exists_cons
        exact skipSpace_append hafter (by decide) (tail ++ rest)
      simp [Json.takeMembers, hread, hcomma, hskip, ih fuel hfuel']

theorem exists_members_of_takeMembers {fields : List (Bytes × Option Bytes)} (fuel : Nat)
    {s : Bytes} (h : takeMembers fuel s = some fields) :
    ∃ piece rest, s = piece ++ rest ∧ SpellsMembers piece fields := by
  induction fuel generalizing s fields with
  | zero => cases h
  | succ fuel ih =>
    rw [takeMembers] at h
    obtain ⟨⟨field, s₁⟩, hfield, hmore⟩ := Option.bind_eq_some_iff.mp h
    obtain ⟨piece, rfl, hpiece⟩ := takeMember_eq_some_iff.mp hfield
    obtain ⟨before, hbefore, hs₁⟩ := exists_spacing s₁
    dsimp only at hmore
    split at hmore
    case h_1 s₂ hcomma =>
      obtain ⟨fields, hfields, rfl⟩ := Option.map_eq_some_iff.mp hmore
      obtain ⟨after, hafter, hs₂⟩ := exists_spacing s₂
      obtain ⟨members, rest, hsplit, hmembers⟩ := ih hfields
      refine ⟨_, rest, ?_, .more hpiece hbefore hafter hmembers⟩
      rw [hs₁, hcomma, hs₂, hsplit]
      simp
    case h_2 rest hclose =>
      cases hmore
      refine ⟨_, rest, ?_, .last hpiece hbefore⟩
      rw [hs₁, hclose]
      simp
    case h_3 => cases hmore

/-- A text is read as an object exactly if it starts with a document. -/
theorem readObject_eq_some_iff {s : Bytes} {fields : List (Bytes × Option Bytes)} :
    readObject? s = some fields ↔
      ∃ document rest, s = document ++ rest ∧ Document document fields := by
  constructor
  · intro h
    obtain ⟨before, hbefore, hs⟩ := exists_spacing s
    unfold readObject? at h
    split at h
    case h_1 s₁ hopen =>
      obtain ⟨inside, hinside, hs₁⟩ := exists_spacing s₁
      split at h
      case h_1 rest hclose =>
        cases h
        refine ⟨_, rest, ?_, .empty hbefore hinside⟩
        rw [hs, hopen, hs₁, hclose]
        simp
      case h_2 =>
        obtain ⟨members, rest, hsplit, hmembers⟩ := exists_members_of_takeMembers _ h
        refine ⟨_, rest, ?_, .object hbefore hinside hmembers⟩
        rw [hs, hopen, hs₁, hsplit]
        simp
    case h_2 =>
      split at h
      case isFalse => cases h
      case isTrue hnull =>
        cases h
        obtain ⟨rest, hrest⟩ := Option.isSome_iff_exists.mp hnull
        refine ⟨_, rest, ?_, .null hbefore⟩
        rw [hs, dropLeading_eq_some_iff.mp hrest, List.append_assoc]
  · rintro ⟨document, rest, rfl, hdocument⟩
    cases hdocument with
    | @null before hbefore =>
      have hskip := skipSpace_append hbefore (b := 0x6E) (by decide) (0x75 :: 0x6C :: 0x6C :: rest)
      have hstarts : Bytes.startsWith (0x6E :: 0x75 :: 0x6C :: 0x6C :: rest) "null" = true := rfl
      have hsplit : before ++ ("null" : Bytes) ++ rest =
          before ++ 0x6E :: 0x75 :: 0x6C :: 0x6C :: rest := List.append_assoc ..
      simp only [readObject?, hsplit, hskip]
      exact if_pos hstarts
    | @empty before inside hbefore hinside =>
      have hopen := skipSpace_append hbefore (b := 0x7B) (by decide) (inside ++ 0x7D :: rest)
      have hclose := skipSpace_append hinside (b := 0x7D) (by decide) rest
      simp [readObject?, hopen, hclose]
    | @object before inside members fields hbefore hinside hmembers =>
      have hread := hmembers.takeMembers rest
      have hopen := skipSpace_append hbefore (b := 0x7B) (by decide) (inside ++ (members ++ rest))
      obtain ⟨tail, rfl⟩ := hmembers.exists_cons
      have hskip := skipSpace_append hinside (b := quote) (by decide) (tail ++ rest)
      simp only [List.cons_append] at hread hopen
      simp only [readObject?, List.append_assoc, List.cons_append, hopen, hskip]
      exact hread _ (by simp; omega)

/-! ## Objects of one field -/

/-- However an object of one field is spelled, that field is read. -/
theorem SpellsField.readObject {name value : List Char} {body : Bytes}
    (h : SpellsField name value body) :
    readObject? body = some [(Utf8.ofChars name, some (Utf8.ofChars value))] := by
  obtain @⟨s₀, s₁, s₂, s₃, s₄, s₅, nameText, valueText, hspacing, hname, hvalue⟩ := h
  simp only [List.mem_cons, List.not_mem_nil, or_false, forall_eq_or_imp, forall_eq] at hspacing
  obtain ⟨h₀, h₁, h₂, h₃, h₄, -⟩ := hspacing
  have hmember := SpellsMember.field hname.spellsString h₂ h₃ (.string hvalue.spellsString)
  refine readObject_eq_some_iff.mpr ⟨_, s₅, ?_, .object h₀ h₁ (.last hmember h₄)⟩
  simp

end Json
end Reckon
