import Reckon.Proofs.Text.Encoding
import Reckon.Text.Blank

/-!
# What trimming takes away

Trimming cuts a text between two of its units.  The units of what is left are those that stood there, so
no byte comes to belong to another character by the cut.  White space is taken from both ends, and none
is left at either.
-/

namespace Reckon
namespace Utf8

/-! ## Units of a part of a text -/

/-- A byte that is stray in front of a text is stray in front of its beginning. -/
theorem front_stray_of_append
    {b b' : UInt8} {s t : Bytes} (h : (front b (s ++ t)).1 = .stray b') :
    front b s = (.stray b, s) := by
  have hbytes := bytes_front b s
  cases hglyph : (front b s).1 with
  | char c =>
    -- The character would be read in front of the longer text as well.
    obtain ⟨b₁, tail, hencode, hfront⟩ := front_encode c ((front b s).2 ++ t)
    rw [hglyph, Glyph.bytes, hencode, List.cons_append, List.cons.injEq] at hbytes
    obtain ⟨rfl, hs⟩ := hbytes
    rw [← hs, List.append_assoc, hfront] at h
    cases h
  | stray b₁ =>
    rw [hglyph, Glyph.bytes, List.singleton_append, List.cons.injEq] at hbytes
    obtain ⟨rfl, hs⟩ := hbytes
    exact Prod.ext hglyph hs

/-- The units at the end of a text are the units of their bytes. -/
theorem glyphs_flatMap_of_eq_append
    {s : Bytes} {xs ys : List Glyph} (h : glyphs s = xs ++ ys) :
    glyphs (ys.flatMap Glyph.bytes) = ys := by
  induction xs generalizing s with
  | nil => rw [← List.nil_append ys, ← h, flatMap_bytes_glyphs]
  | cons g xs ih =>
    cases s with
    | nil => simp at h
    | cons b rest =>
      rw [glyphs_cons, List.cons_append, List.cons.injEq] at h
      exact ih h.2

/-- The units at the start of a text are the units of their bytes. -/
theorem glyphs_flatMap_of_append_eq
    {s : Bytes} {xs ys : List Glyph} (h : glyphs s = xs ++ ys) :
    glyphs (xs.flatMap Glyph.bytes) = xs := by
  induction xs generalizing s with
  | nil => exact glyphs_nil
  | cons g xs ih =>
    cases s with
    | nil => simp at h
    | cons b rest =>
      rw [glyphs_cons, List.cons_append, List.cons.injEq] at h
      obtain ⟨hfirst, hrest⟩ := h
      have htext : (front b rest).2 = xs.flatMap Glyph.bytes ++ ys.flatMap Glyph.bytes := by
        rw [← List.flatMap_append, ← hrest, flatMap_bytes_glyphs]
      rw [List.flatMap_cons]
      cases g with
      | char c => rw [Glyph.bytes, glyphs_encode_append, ih hrest]
      | stray b' =>
        have hbytes := bytes_front b rest
        rw [hfirst, Glyph.bytes, List.singleton_append, List.cons.injEq] at hbytes
        obtain ⟨rfl, hsame⟩ := hbytes
        rw [← hsame, htext] at hfirst
        rw [Glyph.bytes, List.singleton_append, glyphs_cons, front_stray_of_append hfirst, ih hrest]

end Utf8

/-! ## Both ends -/

/-- The units that are left when white space is taken from both ends. -/
def trimmedGlyphs (gs : List Glyph) : List Glyph :=
  ((gs.dropWhile Glyph.isBlank).reverse.dropWhile Glyph.isBlank).reverse

theorem exists_trimmedGlyphs (gs : List Glyph) :
    ∃ front back, gs = front ++ trimmedGlyphs gs ++ back ∧
      (∀ g ∈ front, g.isBlank = true) ∧ ∀ g ∈ back, g.isBlank = true := by
  have hsplit (l : List Glyph) :
      l = l.takeWhile Glyph.isBlank ++ l.dropWhile Glyph.isBlank := by simp
  have hblank (l : List Glyph) : ∀ g ∈ l.takeWhile Glyph.isBlank, g.isBlank = true := by
    intro g hg
    exact List.all_eq_true.mp List.all_takeWhile g hg
  refine ⟨gs.takeWhile Glyph.isBlank,
    ((gs.dropWhile Glyph.isBlank).reverse.takeWhile Glyph.isBlank).reverse, ?_, hblank gs, ?_⟩
  · rw [trimmedGlyphs, List.append_assoc, ← List.reverse_append, ← hsplit, List.reverse_reverse,
      ← hsplit]
  · intro g hg
    exact hblank _ g (List.mem_reverse.mp hg)

theorem isBlank_of_mem_head?_dropWhile
    {gs : List Glyph} {g : Glyph} (h : g ∈ (gs.dropWhile Glyph.isBlank).head?) :
    g.isBlank = false := by
  have hhead := List.head?_dropWhile_not Glyph.isBlank gs
  rw [Option.mem_def.mp h] at hhead
  exact hhead

/-- A text is another one without the white space at its two ends. -/
structure Trims (s t : Bytes) : Prop where
  exists_ends : ∃ front back, Utf8.glyphs s = front ++ Utf8.glyphs t ++ back ∧
    (∀ g ∈ front, g.isBlank = true) ∧ ∀ g ∈ back, g.isBlank = true
  head : ∀ g ∈ (Utf8.glyphs t).head?, g.isBlank = false
  last : ∀ g ∈ (Utf8.glyphs t).getLast?, g.isBlank = false

theorem trims_trimBlank (s : Bytes) : Trims s (trimBlank s) := by
  obtain ⟨front, back, hall, hfront, hback⟩ := exists_trimmedGlyphs (Utf8.glyphs s)
  have htail : Utf8.glyphs (((trimmedGlyphs (Utf8.glyphs s)) ++ back).flatMap Glyph.bytes) =
      trimmedGlyphs (Utf8.glyphs s) ++ back :=
    Utf8.glyphs_flatMap_of_eq_append (hall.trans (List.append_assoc ..))
  have hglyphs : Utf8.glyphs (trimBlank s) = trimmedGlyphs (Utf8.glyphs s) :=
    Utf8.glyphs_flatMap_of_append_eq htail
  refine ⟨?_, ?_, ?_⟩
  · rw [hglyphs]
    exact ⟨front, back, hall, hfront, hback⟩
  · intro g hg
    -- What is left is the beginning of what has no white space in front.
    have hprefix : trimmedGlyphs (Utf8.glyphs s) <+: (Utf8.glyphs s).dropWhile Glyph.isBlank := by
      rw [← List.reverse_suffix, trimmedGlyphs, List.reverse_reverse]
      exact List.dropWhile_suffix _
    obtain ⟨rest, hrest⟩ := hprefix
    apply @isBlank_of_mem_head?_dropWhile (Utf8.glyphs s)
    rw [hglyphs] at hg
    rw [← hrest, List.head?_append, Option.mem_def.mp hg]
    rfl
  · intro g hg
    rw [hglyphs, trimmedGlyphs, List.getLast?_reverse] at hg
    exact isBlank_of_mem_head?_dropWhile hg

theorem trimmedGlyphs_of_ends
    {front gs back : List Glyph} (hfront : ∀ g ∈ front, g.isBlank = true)
    (hback : ∀ g ∈ back, g.isBlank = true) (hhead : ∀ g ∈ gs.head?, g.isBlank = false)
    (hlast : ∀ g ∈ gs.getLast?, g.isBlank = false) :
    trimmedGlyphs (front ++ gs ++ back) = gs := by
  have hkeep {l : List Glyph} (h : ∀ g ∈ l.head?, g.isBlank = false) :
      l.dropWhile Glyph.isBlank = l := by
    cases l with
    | nil => rfl
    | cons g l => simp [h g rfl]
  rw [trimmedGlyphs, List.append_assoc, List.dropWhile_append_of_pos hfront]
  cases gs with
  | nil =>
    rw [List.nil_append, ← List.append_nil back, List.dropWhile_append_of_pos hback,
      List.dropWhile_nil]
    rfl
  | cons g gs =>
    have hreverse : ∀ g' ∈ (g :: gs).reverse.head?, g'.isBlank = false := by
      rwa [List.head?_reverse]
    have hfirst : ∀ g' ∈ (g :: gs ++ back).head?, g'.isBlank = false := by simpa using hhead
    rw [hkeep hfirst, List.reverse_append, List.dropWhile_append_of_pos (by simpa using hback),
      hkeep hreverse, List.reverse_reverse]

/-- There is only one way to trim a text. -/
theorem Trims.eq {s t : Bytes} (h : Trims s t) : t = trimBlank s := by
  obtain ⟨front, back, hall, hfront, hback⟩ := h.exists_ends
  have hglyphs : trimmedGlyphs (Utf8.glyphs s) = Utf8.glyphs t := by
    rw [hall, trimmedGlyphs_of_ends hfront hback h.head h.last]
  calc t = (Utf8.glyphs t).flatMap Glyph.bytes := (Utf8.flatMap_bytes_glyphs t).symm
    _ = (trimmedGlyphs (Utf8.glyphs s)).flatMap Glyph.bytes := by rw [hglyphs]
    _ = trimBlank s := rfl

/-- Nothing is left of a text exactly if it is all white space. -/
theorem trimBlank_eq_nil_iff {s : Bytes} :
    trimBlank s = [] ↔ ∀ g ∈ Utf8.glyphs s, g.isBlank = true := by
  have htrims := trims_trimBlank s
  obtain ⟨front, back, hall, hfront, hback⟩ := htrims.exists_ends
  constructor
  · intro hnil
    rw [hall, hnil, Utf8.glyphs_nil, List.append_nil]
    exact List.forall_mem_append.mpr ⟨hfront, hback⟩
  · intro hblank
    rw [← Utf8.flatMap_bytes_glyphs (trimBlank s)]
    cases hglyphs : Utf8.glyphs (trimBlank s) with
    | nil => rfl
    | cons g gs =>
      have hleft : g.isBlank = false := htrims.head g (by simp [hglyphs])
      have hmem : g ∈ Utf8.glyphs s := by
        rw [hall, hglyphs]
        simp
      rw [hblank g hmem] at hleft
      cases hleft

end Reckon
