import Reckon.Json.Object
import Reckon.Proofs.Text.Encoding

/-!
# The spellings of a text in JSON

A text has many spellings as a JSON string: most characters may stand for themselves, every character
of the basic plane has an escape by its number, one of another plane has an escape by two surrogates,
and some have a short escape.  An object may have white space around each of its tokens.

A string may also have bytes that are no characters, and numbers of surrogates that stand alone.

Whatever the spelling, a reader gets what is spelled, and it reads nothing that is not a spelling.  What
the writer of strings produces is one of the spellings.
-/

namespace Reckon
namespace Json

/-! ## Characters and texts -/

/-- The characters that have a short escape, each behind the byte that stands for it. -/
def shortEscapes : List (UInt8 × Char) :=
  [(0x22, '"'), (0x5C, '\\'), (0x2F, '/'), (0x62, Char.ofNat 0x08), (0x66, Char.ofNat 0x0C),
    (0x6E, '\n'), (0x72, '\r'), (0x74, '\t')]

/-- Four hexadecimal digits of either case spell a number. -/
def SpellsNumber (digits : Bytes) (n : Nat) : Prop :=
  ∃ a b c d, digits.map Bytes.hexValue? = [some a, some b, some c, some d] ∧
    n = ((a * 16 + b) * 16 + c) * 16 + d

/-- The escapes of a character, without the backslash in front. -/
inductive Escapes : Bytes → Char → Prop
  | short {b : UInt8} {c : Char} (h : (b, c) ∈ shortEscapes) : Escapes [b] c
  | code {digits : Bytes} {n : Nat} (hdigits : SpellsNumber digits n)
    (hplane : n < 0xD800 ∨ 0xE000 ≤ n) : Escapes (0x75 :: digits) (Char.ofNat n)
  | surrogates {digits digits' : Bytes} {high low : Nat}
    (hdigits : SpellsNumber digits high) (hdigits' : SpellsNumber digits' low)
    (hhigh : 0xD800 ≤ high ∧ high < 0xDC00) (hlow : 0xDC00 ≤ low ∧ low < 0xE000) :
    Escapes (0x75 :: digits ++ backslash :: 0x75 :: digits')
      (Char.ofNat (0x10000 + (high - 0xD800) * 0x400 + (low - 0xDC00)))

/-- The spellings of a character between quotes. -/
inductive SpellsChar : Bytes → Char → Prop
  | plain {c : Char} (hprintable : 0x20 ≤ c.toNat) (hquote : c ≠ '"') (hbackslash : c ≠ '\\') :
    SpellsChar (Utf8.encode c) c
  | escaped {text : Bytes} {c : Char} (h : Escapes text c) : SpellsChar (backslash :: text) c

/-- The spellings of a sequence of characters between quotes. -/
inductive SpellsText : Bytes → List Char → Prop
  | nil : SpellsText [] []
  | cons {spelling rest : Bytes} {c : Char} {cs : List Char} (hc : SpellsChar spelling c)
    (hcs : SpellsText rest cs) : SpellsText (spelling ++ rest) (c :: cs)

/-! ## Writing -/

theorem hexValue_hexDigit : ∀ k < 16, Bytes.hexValue? (Bytes.hexDigit k) = some k := by
  decide

theorem spellsNumber_hexOfNat {n : Nat} (h : n < 0x10000) :
    SpellsNumber (Bytes.hexOfNat 4 n) n := by
  refine ⟨n / 4096 % 16, n / 256 % 16, n / 16 % 16, n % 16, ?_, by omega⟩
  have hlist : Bytes.hexOfNat 4 n =
      [n / 4096 % 16, n / 256 % 16, n / 16 % 16, n % 16].map Bytes.hexDigit := by
    simp [Bytes.hexOfNat, List.range_succ]
  simp [hlist, hexValue_hexDigit, Nat.mod_lt]

/-- What is written for a character spells it. -/
theorem spellsChar_escape (c : Char) : SpellsChar (escape c) c := by
  have hchar : ∀ n, c.toNat = n → c = Char.ofNat n := by
    intro n hn
    rw [← hn, Char.ofNat_toNat]
  unfold escape
  dsimp only
  split
  case h_8 hquote hbackslash _ _ _ _ _ =>
    split
    next hcode =>
      have hescapes := Escapes.code (spellsNumber_hexOfNat (n := c.toNat) (by grind))
        (Or.inl (by grind))
      rw [Char.ofNat_toNat] at hescapes
      exact .escaped hescapes
    next hplain =>
      refine .plain (by grind) ?_ ?_
      · rintro rfl
        exact hquote rfl
      · rintro rfl
        exact hbackslash rfl
  all_goals
    next hn =>
    rw [hchar _ hn]
    exact .escaped (.short (by decide))

theorem spellsText_flatMap_escape (cs : List Char) : SpellsText (cs.flatMap escape) cs := by
  induction cs with
  | nil => exact .nil
  | cons c cs ih => exact .cons (spellsChar_escape c) ih

/-! ## Reading -/

theorem fourHex_append {digits : Bytes} {n : Nat} (h : SpellsNumber digits n) (s : Bytes) :
    digits.length = 4 ∧ fourHex? (digits ++ s) = some n := by
  obtain ⟨a, b, c, d, hmap, rfl⟩ := h
  have hlength : digits.length = 4 := by simpa using congrArg List.length hmap
  refine ⟨hlength, ?_⟩
  have htake : (digits ++ s).take 4 = digits := by rw [← hlength, List.take_left]
  have hvalues : digits.filterMap Bytes.hexValue? = [a, b, c, d] := by
    calc digits.filterMap Bytes.hexValue? = (digits.map Bytes.hexValue?).filterMap id := by
          rw [List.filterMap_map, Function.id_comp]
      _ = [a, b, c, d] := by
          rw [hmap]
          rfl
  simp [fourHex?, htake, hvalues]
  omega

theorem takeCode_surrogates {digits digits' : Bytes} {high low : Nat}
    (hdigits : SpellsNumber digits high) (hdigits' : SpellsNumber digits' low)
    (hhigh : 0xD800 ≤ high ∧ high < 0xDC00) (hlow : 0xDC00 ≤ low ∧ low < 0xE000) (s : Bytes) :
    takeCode (digits ++ (backslash :: 0x75 :: digits' ++ s)) =
      some (Char.ofNat (0x10000 + (high - 0xD800) * 0x400 + (low - 0xDC00)), s) := by
  obtain ⟨hlength, hfour⟩ := fourHex_append hdigits (backslash :: 0x75 :: digits' ++ s)
  obtain ⟨hlength', hfour'⟩ := fourHex_append hdigits' s
  have hdrop : (digits ++ (backslash :: 0x75 :: digits' ++ s)).drop 4 =
      backslash :: 0x75 :: digits' ++ s := by
    rw [← hlength, List.drop_left]
  have hdrop' : (backslash :: 0x75 :: digits' ++ s).drop 6 = s :=
    List.drop_left' (by simp [hlength'])
  have hplane : ¬ (high < 0xD800 ∨ 0xE000 ≤ high) := by omega
  have hpair : (fourHex? (digits' ++ s)).bind (ofSurrogates? high) =
      some (Char.ofNat (0x10000 + (high - 0xD800) * 0x400 + (low - 0xDC00))) := by
    simp [hfour', ofSurrogates?, hhigh, hlow]
  simp only [takeCode, hfour, hdrop, Option.map_some, Bool.or_eq_true, decide_eq_true_eq,
    if_neg hplane, hdrop']
  simp only [backslash, List.cons_append, hpair]

/-- An escape is read as its character, whatever follows it. -/
theorem takeEscape_append {text : Bytes} {c : Char} (h : Escapes text c) (s : Bytes) :
    takeEscape (text ++ s) = some (c, s) := by
  cases h with
  | short h =>
    simp [shortEscapes] at h
    rcases h with ⟨rfl, rfl⟩ | ⟨rfl, rfl⟩ | ⟨rfl, rfl⟩ | ⟨rfl, rfl⟩ | ⟨rfl, rfl⟩ | ⟨rfl, rfl⟩ |
      ⟨rfl, rfl⟩ | ⟨rfl, rfl⟩
    all_goals rfl
  | @code digits n hdigits hplane =>
    obtain ⟨hlength, hfour⟩ := fourHex_append hdigits s
    have hdrop : (digits ++ s).drop 4 = s := by rw [← hlength, List.drop_left]
    simp [takeEscape, takeCode, hfour, hdrop, hplane]
  | surrogates hdigits hdigits' hhigh hlow =>
    rw [List.cons_append, List.cons_append, List.append_assoc]
    exact takeCode_surrogates hdigits hdigits' hhigh hlow s

/-! ## Strings -/

theorem spellsNumber_of_fourHex {s : Bytes} {n : Nat} (h : fourHex? s = some n) :
    SpellsNumber (s.take 4) n := by
  unfold fourHex? at h
  dsimp only at h
  split at h
  case isFalse => cases h
  case isTrue hcount =>
    cases h
    have hfour : (s.take 4).length = 4 := by
      have hle := List.length_filterMap_le Bytes.hexValue? (s.take 4)
      have htake := List.length_take_le 4 s
      omega
    have hsome := List.filterMap_length_eq_length.mp (hcount.trans hfour.symm)
    generalize s.take 4 = digits at hcount hfour hsome ⊢
    match digits, hfour with
    | [a, b, c, d], _ =>
      simp only [List.mem_cons, List.not_mem_nil, or_false, forall_eq_or_imp, forall_eq,
        Option.isSome_iff_exists] at hsome
      obtain ⟨⟨a', ha⟩, ⟨b', hb⟩, ⟨c', hc⟩, ⟨d', hd⟩⟩ := hsome
      refine ⟨a', b', c', d', by simp [ha, hb, hc, hd], ?_⟩
      simp [ha, hb, hc, hd]
      omega

theorem quote_notMem_of_spellsNumber {digits : Bytes} {n : Nat} (h : SpellsNumber digits n) :
    quote ∉ digits := by
  intro hmem
  obtain ⟨a, b, c, d, hmap, -⟩ := h
  have hnone : Bytes.hexValue? quote ∈ digits.map Bytes.hexValue? := List.mem_map_of_mem hmem
  rw [hmap] at hnone
  exact absurd hnone (by simp [show Bytes.hexValue? quote = none by decide])

/-- The escapes of a character where a given text is next.  The number of a surrogate that is not the
first of two stands for U+FFFD. -/
inductive EscapesBefore (next : Bytes) : Bytes → Char → Prop
  | whole {text : Bytes} {c : Char} (h : Escapes text c) : EscapesBefore next text c
  | alone {digits : Bytes} {n : Nat} (hdigits : SpellsNumber digits n)
    (hnone : ∀ text c, Escapes text c → ¬ text <+: 0x75 :: digits ++ next) :
    EscapesBefore next (0x75 :: digits) Utf8.replacement

/-- The spellings of a sequence of bytes behind an opening quote, with the closing one. -/
inductive SpellsBytes : Bytes → Bytes → Prop
  | close : SpellsBytes [quote] []
  | plain {b : UInt8} {text kept : Bytes} (hcontrol : ¬ b < 0x20) (hquote : b ≠ quote)
    (hbackslash : b ≠ backslash) (h : SpellsBytes text kept) : SpellsBytes (b :: text) (b :: kept)
  | escaped {text rest kept : Bytes} {c : Char} (hc : EscapesBefore rest text c)
    (h : SpellsBytes rest kept) :
    SpellsBytes (backslash :: (text ++ rest)) (Utf8.encode c ++ kept)

/-- The spellings of a text as a string: the bytes of the string, with U+FFFD for stray ones. -/
inductive SpellsString : Bytes → Bytes → Prop
  | quoted {text kept : Bytes} (h : SpellsBytes text kept) :
    SpellsString (quote :: text) (Utf8.sanitize kept)

/-! ### Escapes -/

/-- A number that is an escape by itself is not a surrogate. -/
theorem plane_of_escapes {digits : Bytes} {n : Nat} {c : Char} (hdigits : SpellsNumber digits n)
    (h : Escapes (0x75 :: digits) c) : n < 0xD800 ∨ 0xE000 ≤ n := by
  have hlength := (fourHex_append hdigits []).1
  generalize htext : 0x75 :: digits = text at h
  cases h with
  | short hshort =>
    cases htext
    cases hlength
  | code hdigits' hplane =>
    cases htext
    have hsame := (fourHex_append hdigits []).2.symm.trans (fourHex_append hdigits' []).2
    cases hsame
    exact hplane
  | surrogates hdigits' =>
    have hlength' := (fourHex_append hdigits' []).1
    simpa [hlength, hlength'] using congrArg List.length htext

/-- What a number is read as, followed by what is left, is one of its escapes. -/
theorem exists_escape_of_takeCode {s rest : Bytes} {c : Char} (h : takeCode s = some (c, rest)) :
    ∃ digits, s = digits ++ rest ∧ EscapesBefore rest (0x75 :: digits) c := by
  obtain ⟨n, hn, hresult⟩ := Option.map_eq_some_iff.mp h
  have hdigits := spellsNumber_of_fourHex hn
  have hsplit : s = s.take 4 ++ s.drop 4 := (List.take_append_drop 4 s).symm
  dsimp only at hresult
  split at hresult
  case isTrue hplane =>
    cases hresult
    exact ⟨_, hsplit, .whole (.code hdigits (by simpa using hplane))⟩
  case isFalse hplane =>
    split at hresult
    case h_1 _ hpair =>
      split at hpair
      case h_2 => cases hpair
      case h_1 _ more hmore =>
        cases hresult
        obtain ⟨low, hlow, hpair⟩ := Option.bind_eq_some_iff.mp hpair
        have hdigits' := spellsNumber_of_fourHex hlow
        unfold ofSurrogates? at hpair
        split at hpair
        case isFalse => cases hpair
        case isTrue hranges =>
          obtain rfl := Option.some.inj hpair
          simp only [Bool.and_eq_true, decide_eq_true_eq] at hranges
          refine ⟨s.take 4 ++ backslash :: 0x75 :: more.take 4, ?_, ?_⟩
          · rw [hmore] at hsplit ⊢
            simpa [backslash] using hsplit
          · exact .whole (.surrogates hdigits hdigits' (by omega) (by omega))
    case h_2 hpair =>
      cases hresult
      refine ⟨_, hsplit, .alone hdigits ?_⟩
      rintro text c hescape ⟨r, hr⟩
      have hread := takeEscape_append hescape r
      rw [hr, List.cons_append, ← hsplit] at hread
      have hsame := Option.some.inj (h.symm.trans hread)
      obtain ⟨rfl, rfl⟩ := Prod.mk.inj hsame
      obtain rfl := List.append_cancel_right hr
      exact hplane (by simpa using plane_of_escapes hdigits hescape)

/-- The number of a lone surrogate is read as U+FFFD. -/
theorem takeCode_alone {digits next : Bytes} {n : Nat} (hdigits : SpellsNumber digits n)
    (hnone : ∀ text c, Escapes text c → ¬ text <+: 0x75 :: digits ++ next) :
    takeCode (digits ++ next) = some (Utf8.replacement, next) := by
  obtain ⟨hlength, hfour⟩ := fourHex_append hdigits next
  obtain ⟨⟨c, rest⟩, hread⟩ : ∃ p, takeCode (digits ++ next) = some p := by
    simp [takeCode, hfour]
  obtain ⟨digits', hsplit, hescape⟩ := exists_escape_of_takeCode hread
  rw [hread]
  generalize htext : 0x75 :: digits' = text at hescape
  cases hescape with
  | whole hwhole =>
    refine absurd ⟨rest, ?_⟩ (hnone _ _ hwhole)
    rw [← htext, List.cons_append, ← hsplit, List.cons_append]
  | alone hdigits' =>
    cases htext
    have hsame : digits.length = digits'.length :=
      hlength.trans (fourHex_append hdigits' []).1.symm
    rw [(List.append_inj hsplit hsame).2]

/-- What an escape is read as, followed by what is left, is what is escaped. -/
theorem takeEscape_eq_some_iff {s rest : Bytes} {c : Char} :
    takeEscape s = some (c, rest) ↔ ∃ text, s = text ++ rest ∧ EscapesBefore rest text c := by
  constructor
  · intro h
    unfold takeEscape at h
    split at h
    case h_9 s =>
      obtain ⟨digits, hsplit, hescape⟩ := exists_escape_of_takeCode h
      exact ⟨0x75 :: digits, by rw [hsplit, List.cons_append], hescape⟩
    case h_10 => cases h
    all_goals
      cases h
      exact ⟨[_], rfl, .whole (.short (by decide))⟩
  · rintro ⟨text, rfl, hescape⟩
    cases hescape with
    | whole h => exact takeEscape_append h rest
    | alone hdigits hnone => exact takeCode_alone hdigits hnone

/-! ### What is kept -/

theorem EscapesBefore.of_append {next rest text : Bytes} {c : Char}
    (h : EscapesBefore (next ++ rest) text c) : EscapesBefore next text c := by
  cases h with
  | whole hwhole => exact .whole hwhole
  | alone hdigits hnone =>
    refine .alone hdigits ?_
    intro text c hescape hprefix
    apply hnone text c hescape
    rw [← List.append_assoc]
    exact hprefix.trans (List.prefix_append _ _)

/-- An escape by number has no quote in it. -/
theorem Escapes.quote_notMem {text : Bytes} {c : Char} (h : Escapes (0x75 :: text) c) :
    quote ∉ text := by
  generalize hwhole : 0x75 :: text = whole at h
  cases h with
  | short =>
    cases hwhole
    exact List.not_mem_nil
  | code hdigits =>
    cases hwhole
    exact quote_notMem_of_spellsNumber hdigits
  | surrogates hdigits hdigits' =>
    cases hwhole
    have hne : quote ≠ backslash ∧ quote ≠ 0x75 := by decide
    simp [hne, quote_notMem_of_spellsNumber hdigits, quote_notMem_of_spellsNumber hdigits']

/-- What stands behind a closing quote has no influence on an escape in front of it. -/
theorem EscapesBefore.append {next text : Bytes} {c : Char} (h : EscapesBefore next text c)
    (hquote : quote ∈ next) (rest : Bytes) : EscapesBefore (next ++ rest) text c := by
  cases h with
  | whole hwhole => exact .whole hwhole
  | @alone digits n hdigits hnone =>
    refine .alone hdigits ?_
    intro text c hescape hprefix
    rw [← List.append_assoc] at hprefix
    rcases List.prefix_or_prefix_of_prefix hprefix (List.prefix_append _ rest) with hfront | hover
    · exact hnone text c hescape hfront
    · obtain ⟨more, rfl⟩ := hover
      exact hescape.quote_notMem (by simp [hquote])

theorem SpellsBytes.quote_mem {text kept : Bytes} (h : SpellsBytes text kept) : quote ∈ text := by
  induction h with
  | close => simp
  | plain _ _ _ _ ih | escaped _ _ ih => simp [ih]

/-- Bytes behind an opening quote are read up to the closing one if the bound allows it. -/
theorem SpellsBytes.takeStringFrom {text kept : Bytes} (h : SpellsBytes text kept) (rest : Bytes) :
    ∀ fuel done, text.length ≤ fuel → Json.takeStringFrom fuel done (text ++ rest) =
      some (Utf8.sanitize (done.reverse ++ kept), rest) := by
  induction h with
  | close =>
    rintro (_ | fuel) done hfuel
    · simp at hfuel
    · simp [Json.takeStringFrom]
  | plain hcontrol hquote hbackslash _ ih =>
    rintro (_ | fuel) done hfuel
    · simp at hfuel
    · simp [Json.takeStringFrom, hcontrol, hquote, hbackslash, ih fuel _ (by simpa using hfuel)]
  | @escaped text more kept c hc htext ih =>
    rintro (_ | fuel) done hfuel
    · simp at hfuel
    · have hquote : backslash ≠ quote := by decide
      have hcontrol : ¬ backslash < 0x20 := by decide
      have hescape : takeEscape (text ++ (more ++ rest)) = some (c, more ++ rest) :=
        takeEscape_eq_some_iff.mpr ⟨text, rfl, hc.append htext.quote_mem rest⟩
      have hfuel' : more.length ≤ fuel := by
        simp at hfuel
        omega
      simp [Json.takeStringFrom, hquote, hcontrol, hescape, ih fuel _ hfuel']

theorem exists_bytes_of_takeStringFrom {text rest : Bytes} (fuel : Nat) {done s : Bytes}
    (h : takeStringFrom fuel done s = some (text, rest)) :
    ∃ piece kept, s = piece ++ rest ∧ SpellsBytes piece kept ∧
      text = Utf8.sanitize (done.reverse ++ kept) := by
  induction fuel generalizing done s with
  | zero => cases h
  | succ fuel ih =>
    cases s with
    | nil => cases h
    | cons b s =>
      rw [takeStringFrom] at h
      split at h
      case isTrue hquote =>
        cases h
        exact ⟨[b], [], rfl, hquote ▸ .close, by simp⟩
      case isFalse hquote =>
        split at h
        case isTrue => cases h
        case isFalse hcontrol =>
          split at h
          case isTrue hbackslash =>
            split at h
            case h_2 => cases h
            case h_1 c more hescape =>
              obtain ⟨piece, kept, rfl, hpiece, htext⟩ := ih h
              obtain ⟨escape, rfl, hc⟩ := takeEscape_eq_some_iff.mp hescape
              refine ⟨_, _, ?_, .escaped hc.of_append hpiece, ?_⟩
              · simp [hbackslash]
              · simpa using htext
          case isFalse hbackslash =>
            obtain ⟨piece, kept, rfl, hpiece, htext⟩ := ih h
            refine ⟨_, _, ?_, .plain hcontrol hquote hbackslash hpiece, ?_⟩
            · rfl
            · simpa using htext

/-- A string is read exactly if a text starts with one. -/
theorem takeString_eq_some_iff {s text rest : Bytes} :
    takeString s = some (text, rest) ↔ ∃ piece, s = piece ++ rest ∧ SpellsString piece text := by
  constructor
  · intro h
    unfold takeString at h
    split at h
    case h_2 => cases h
    case h_1 s =>
      obtain ⟨piece, kept, rfl, hpiece, htext⟩ := exists_bytes_of_takeStringFrom _ h
      refine ⟨quote :: piece, rfl, ?_⟩
      rw [htext]
      exact .quoted hpiece
  · rintro ⟨piece, rfl, ⟨hpiece⟩⟩
    exact hpiece.takeStringFrom rest _ _ (by simp; omega)

/-! ### Texts -/

/-- Bytes that are neither control bytes, quotes nor backslashes are kept as they are. -/
theorem SpellsBytes.append_plain {text kept piece : Bytes}
    (hpiece : ∀ b ∈ piece, 0x20 ≤ b.toNat ∧ b ≠ quote ∧ b ≠ backslash)
    (h : SpellsBytes text kept) : SpellsBytes (piece ++ text) (piece ++ kept) := by
  induction piece with
  | nil => exact h
  | cons b piece ih =>
    obtain ⟨hcontrol, hquote, hbackslash⟩ := hpiece b (.head _)
    refine .plain ?_ hquote hbackslash (ih fun b' hb' => hpiece b' (.tail _ hb'))
    rw [UInt8.lt_iff_toNat_lt]
    exact Nat.not_lt.mpr hcontrol

/-- A spelling of a character is kept as the bytes of that character. -/
theorem SpellsChar.spellsBytes {spelling text kept : Bytes} {c : Char} (hc : SpellsChar spelling c)
    (h : SpellsBytes text kept) : SpellsBytes (spelling ++ text) (Utf8.encode c ++ kept) := by
  cases hc with
  | plain hprintable hquote hbackslash =>
    apply h.append_plain
    intro b hb
    have hkeep : ∀ d : Char, d.toNat < 0x80 → c ≠ d → b.toNat ≠ d.toNat := by
      intro d hd hne heq
      rcases Utf8.toNat_of_mem_encode hb with hsame | hhigh
      · exact hne (Char.toNat_inj.mp (hsame.symm.trans heq))
      · omega
    refine ⟨?_, ?_, ?_⟩
    · rcases Utf8.toNat_of_mem_encode hb with hsame | hhigh <;> omega
    · rintro rfl
      exact hkeep '"' (by decide) hquote rfl
    · rintro rfl
      exact hkeep '\\' (by decide) hbackslash rfl
  | escaped hescape => exact .escaped (.whole hescape) h

theorem SpellsText.spellsBytes {text : Bytes} {cs : List Char} (h : SpellsText text cs) :
    SpellsBytes (text ++ [quote]) (Utf8.ofChars cs) := by
  induction h with
  | nil => exact .close
  | cons hc _ ih =>
    rw [List.append_assoc]
    exact hc.spellsBytes ih

/-- A sequence of characters that is spelled between quotes is spelled as the text of these. -/
theorem SpellsText.spellsString {text : Bytes} {cs : List Char} (h : SpellsText text cs) :
    SpellsString (quote :: (text ++ [quote])) (Utf8.ofChars cs) := by
  have hstring := SpellsString.quoted h.spellsBytes
  rwa [Utf8.sanitize_ofChars] at hstring

/-! ## Objects of one field -/

/-- White space that may stand around a token. -/
def IsSpacing (s : Bytes) : Prop :=
  ∀ b ∈ s, isSpace b = true

/-- The spellings of an object whose only field is a string. -/
inductive SpellsField (name value : List Char) : Bytes → Prop
  | object {s₀ s₁ s₂ s₃ s₄ s₅ nameText valueText : Bytes}
    (hspacing : ∀ s ∈ [s₀, s₁, s₂, s₃, s₄, s₅], IsSpacing s)
    (hname : SpellsText nameText name) (hvalue : SpellsText valueText value) :
    SpellsField name value
      (s₀ ++ 0x7B :: (s₁ ++ (quote :: nameText ++ quote :: (s₂ ++ 0x3A :: (s₃ ++
        (quote :: valueText ++ quote :: (s₄ ++ 0x7D :: s₅)))))))

/-- With a stray byte written as U+FFFD, a text is written as the characters that are read from it. -/
theorem ofText_eq (s : Bytes) : ofText s = quote :: (Utf8.chars s).flatMap escape ++ [quote] := by
  have hglyph (g : Glyph) : escapeGlyph (Utf8.encode Utf8.replacement) g = escape g.toChar := by
    cases g with
    | char c => rfl
    | stray b => exact (by decide : Utf8.encode Utf8.replacement = escape Utf8.replacement)
  rw [ofText, Utf8.chars, List.flatMap_map, funext hglyph]

/-- What is written for an object of one field is one of its spellings. -/
theorem spellsField_object (name value : Bytes) :
    SpellsField (Utf8.chars name) (Utf8.chars value) (object [(name, ofText value)]) := by
  have h := @SpellsField.object _ _ [] [] [] [] [] [] _ _ (by simp [IsSpacing])
    (spellsText_flatMap_escape (Utf8.chars name))
    (spellsText_flatMap_escape (Utf8.chars value))
  simpa [object, member, Bytes.join, ofText_eq] using h

end Json
end Reckon
