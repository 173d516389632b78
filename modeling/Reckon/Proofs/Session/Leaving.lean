import Reckon.Proofs.Text.Encoding
import Reckon.Session
import Mathlib.Data.List.Forall2

/-!
# The words for leaving

A line asks to leave if it is one of two words, with each letter small or capital.  The small letter of
a character is found in a table, so which characters have a given small letter is told by searching the
table for it: besides the letter and its capital there is one more for `i`, the capital with a dot.
-/

namespace Reckon

/-! ## Characters with a given small letter -/

namespace LowerCase

theorem mapCode_cases (n : Nat) (table : List (Nat × Nat × Nat × Int)) :
    mapCode n table = n ∨
      ∃ run ∈ table, run.1 ≤ n ∧ n ≤ run.2.1 ∧ mapCode n table = (n + run.2.2.2).toNat := by
  induction table with
  | nil => exact Or.inl rfl
  | cons run rest ih =>
    obtain ⟨first, last, step, distance⟩ := run
    by_cases hbelow : n < first
    · simp [mapCode, hbelow]
    · by_cases hin : n ≤ last ∧ (n - first) % step = 0
      · right
        refine ⟨_, List.mem_cons_self, by omega, hin.1, ?_⟩
        simp [mapCode, hbelow, hin]
      · have hmap : mapCode n ((first, last, step, distance) :: rest) = mapCode n rest := by
          simp [mapCode, hbelow, hin]
        rw [hmap]
        refine ih.imp_right ?_
        rintro ⟨run, hrun, h⟩
        exact ⟨run, List.mem_cons_of_mem _ hrun, h⟩

/-- The code points in the runs of a table whose small letter could be the one of a code point, and
that code point itself. -/
def sources (m : Nat) (table : List (Nat × Nat × Nat × Int)) : List Nat :=
  m :: (table.filter fun run =>
    run.1 ≤ ((m : Int) - run.2.2.2).toNat && ((m : Int) - run.2.2.2).toNat ≤ run.2.1).map
      fun run => ((m : Int) - run.2.2.2).toNat

theorem mem_sources {n m : Nat} {table : List (Nat × Nat × Nat × Int)} (hm : m ≠ 0)
    (h : mapCode n table = m) : n ∈ sources m table := by
  rcases mapCode_cases n table with hsame | ⟨run, hrun, hfirst, hlast, hmap⟩
  · rw [← h, hsame]
    exact List.mem_cons_self
  · have hn : n = ((m : Int) - run.2.2.2).toNat := by omega
    apply List.mem_cons_of_mem
    rw [hn, List.mem_map]
    refine ⟨run, ?_, rfl⟩
    rw [List.mem_filter, ← hn]
    simp [hrun, hfirst, hlast]

end LowerCase

theorem toNat_of_ofNat_eq {n : Nat} {c : Char} (h : Char.ofNat n = c) (hc : c.toNat ≠ 0) :
    n = c.toNat := by
  subst h
  by_cases hvalid : n.isValidChar
  · exact (Utf8.toNat_ofNat_of_valid hvalid).symm
  · simp [Char.ofNat, hvalid] at hc

namespace Session

/-- The words for leaving. -/
def leavingWords : List (List Char) :=
  [['e', 'x', 'i', 't'], ['q', 'u', 'i', 't']]

/-- The characters that a small letter may be given as. -/
def forms (letter : Char) : List Char :=
  if letter = 'i' then ['i', 'I', '\u0130'] else [letter, letter.toUpper]

theorem lowerChar_eq_iff {letter : Char} (h : letter ∈ leavingWords.flatten) (c : Char) :
    lowerChar c = letter ↔ c ∈ forms letter := by
  -- Over lists and not over characters, of which there are too many to try.
  have hall : leavingWords.flatten.all (fun letter =>
      letter.toNat ≠ 0 ∧
        (LowerCase.sources letter.toNat LowerCase.runs).map Char.ofNat = forms letter ∧
          (forms letter).all (fun c => lowerChar c = letter) = true) = true := by
    decide +kernel
  obtain ⟨hne, hsources, hlower⟩ := of_decide_eq_true (List.all_eq_true.mp hall letter h)
  refine ⟨?_, fun hc => of_decide_eq_true (List.all_eq_true.mp hlower c hc)⟩
  intro hc
  have hcode := toNat_of_ofNat_eq hc hne
  rw [← hsources, List.mem_map]
  exact ⟨c.toNat, LowerCase.mem_sources hne hcode, Char.ofNat_toNat c⟩

/-! ## Lines that ask to leave -/

/-- A text is one of the words for leaving, each letter in one of its forms. -/
def SpellsLeaving (line : Bytes) : Prop :=
  ∃ word ∈ leavingWords, List.Forall₂ (fun c letter => c ∈ forms letter) (Utf8.chars line) word

theorem forall₂_lowerChar_iff
    {word : List Char} (h : ∀ letter ∈ word, letter ∈ leavingWords.flatten) (cs : List Char) :
    List.Forall₂ (fun c letter => lowerChar c = letter) cs word ↔
      List.Forall₂ (fun c letter => c ∈ forms letter) cs word := by
  induction word generalizing cs with
  | nil => simp
  | cons letter word ih =>
    obtain ⟨hletter, hword⟩ := List.forall_mem_cons.mp h
    cases cs with
    | nil => simp
    | cons c cs => rw [List.forall₂_cons, List.forall₂_cons, lowerChar_eq_iff hletter, ih hword]

theorem lowerText_eq_iff {word : List Char} (h : word ∈ leavingWords) (line : Bytes) :
    lowerText line = Utf8.ofChars word ↔
      List.Forall₂ (fun c letter => c ∈ forms letter) (Utf8.chars line) word := by
  calc lowerText line = Utf8.ofChars word
      ↔ (Utf8.chars line).map lowerChar = word := by
        refine ⟨fun heq => ?_, fun heq => congrArg Utf8.ofChars heq⟩
        have hchars := congrArg Utf8.chars heq
        rwa [lowerText, Utf8.chars_ofChars, Utf8.chars_ofChars] at hchars
    _ ↔ List.Forall₂ (fun c letter => lowerChar c = letter) (Utf8.chars line) word := by
        rw [← List.forall₂_map_left_iff, List.forall₂_eq_eq_eq]
    _ ↔ List.Forall₂ (fun c letter => c ∈ forms letter) (Utf8.chars line) word :=
        forall₂_lowerChar_iff (fun _ hmem => List.mem_flatten_of_mem h hmem) _

/-- A line asks to leave exactly if it spells one of the words. -/
theorem isExit_iff {line : Bytes} : isExit line = true ↔ SpellsLeaving line := by
  have hexit : Utf8.ofChars ['e', 'x', 'i', 't'] = ("exit" : Bytes) := by decide
  have hquit : Utf8.ofChars ['q', 'u', 'i', 't'] = ("quit" : Bytes) := by decide
  have hspells : SpellsLeaving line ↔ ∃ word ∈ leavingWords, lowerText line = Utf8.ofChars word :=
    exists_congr fun word => and_congr_right fun hword => (lowerText_eq_iff hword line).symm
  rw [hspells]
  simp [isExit, leavingWords, hexit, hquit]

instance (line : Bytes) : Decidable (SpellsLeaving line) :=
  decidable_of_iff _ isExit_iff

/-- The capital with a dot counts as an `i`. -/
example : isExit (Utf8.ofChars ['E', 'x', '\u0130', 't']) = true := by decide +kernel

end Session
end Reckon
