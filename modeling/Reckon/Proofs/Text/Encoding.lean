import Reckon.Text.Boundary

/-!
# Reading what was encoded

Every character is read back from its bytes, whatever follows them, and the units of a text are read
from exactly its bytes.  So the texts without a stray byte are those that encode a sequence of
characters, and that sequence is what is read.

Both directions go through the number that a character of more than one byte has by its bytes: reading
builds the character from that number, and encoding takes the bytes from it.
-/

namespace Reckon
namespace Utf8

/-- The number of the character `b :: tail`: the bits of `b` that do not tell the width, and then the
payload of each byte after it. -/
def codePoint (b : UInt8) (tail : Bytes) : Nat :=
  match tail with
  | [c] => b.toNat % 32 * 64 + payload c
  | [c, d] => b.toNat % 16 * 4096 + payload c * 64 + payload d
  | [c, d, e] => b.toNat % 8 * 262144 + payload c * 4096 + payload d * 64 + payload e
  | _ => b.toNat

/-- The bytes of a character of more than one byte, by its width. -/
theorem isWide_cases {b : UInt8} {tail : Bytes} (h : isWide b tail = true) :
    (∃ c, tail = [c] ∧ (0xC2 ≤ b.toNat ∧ b.toNat ≤ 0xDF) ∧ isTail c = true) ∨
      (∃ c d, tail = [c, d] ∧ (0xE0 ≤ b.toNat ∧ b.toNat ≤ 0xEF) ∧ isSecond b c = true ∧
        isTail d = true) ∨
      ∃ c d e, tail = [c, d, e] ∧ (0xF0 ≤ b.toNat ∧ b.toNat ≤ 0xF4) ∧ isSecond b c = true ∧
        isTail d = true ∧ isTail e = true := by
  unfold isWide at h
  split at h
  case h_4 => simp at h
  case h_1 c =>
    simp [UInt8.le_iff_toNat_le] at h
    exact Or.inl ⟨c, rfl, h.1, h.2⟩
  case h_2 c d =>
    simp [UInt8.le_iff_toNat_le] at h
    exact Or.inr (Or.inl ⟨c, d, rfl, h.1.1, h.1.2, h.2⟩)
  case h_3 c d e =>
    simp [UInt8.le_iff_toNat_le] at h
    exact Or.inr (Or.inr ⟨c, d, e, rfl, h.1.1.1, h.1.1.2, h.1.2, h.2⟩)

theorem isValidChar_codePoint {b : UInt8} {tail : Bytes} (h : isWide b tail = true) :
    (codePoint b tail).isValidChar := by
  rcases isWide_cases h with ⟨c, rfl, hb, hc⟩ | ⟨c, d, rfl, hb, hc, hd⟩ |
    ⟨c, d, e, rfl, hb, hc, hd, he⟩
  · simp only [codePoint, payload, Nat.isValidChar]
    omega
  · have hc := isSecond_bounds hc
    simp only [codePoint, payload, Nat.isValidChar]
    omega
  · have hc := isSecond_bounds hc
    simp only [codePoint, payload, Nat.isValidChar]
    omega

/-- A character of more than one byte is read as the one with its number. -/
theorem front_append_eq {b : UInt8} {tail : Bytes} (h : isWide b tail = true) (rest : Bytes) :
    front b (tail ++ rest) = (.char (Char.ofNat (codePoint b tail)), rest) := by
  have hlow : ¬ b < 0x80 := by
    have := (isWide_shape h).1
    simp [UInt8.lt_iff_toNat_lt]
    omega
  rcases isWide_cases h with ⟨c, rfl, hb, hc⟩ | ⟨c, d, rfl, hb, hc, hd⟩ |
    ⟨c, d, e, rfl, hb, hc, hd, he⟩
  · simp [front, codePoint, UInt8.le_iff_toNat_le, hlow, hb, hc]
  · have htwo : ¬ b.toNat ≤ 0xDF := by omega
    simp [front, codePoint, UInt8.le_iff_toNat_le, hlow, htwo, hb, hc, hd]
  · have htwo : ¬ b.toNat ≤ 0xDF := by omega
    have hthree : ¬ b.toNat ≤ 0xEF := by omega
    simp [front, codePoint, UInt8.le_iff_toNat_le, hlow, htwo, hthree, hb, hc, hd, he]

theorem toUInt8_eq_iff {n : Nat} {b : UInt8} (h : n < 256) : n.toUInt8 = b ↔ n = b.toNat := by
  rw [← UInt8.toNat_inj]
  simp [Nat.mod_eq_of_lt h]

/-- The bytes of a character of more than one byte are those with its number. -/
theorem encode_eq_of_toNat {b : UInt8} {tail : Bytes} {x : Char} (h : isWide b tail = true)
    (hx : x.toNat = codePoint b tail) : encode x = b :: tail := by
  rcases isWide_cases h with ⟨c, rfl, hb, hc⟩ | ⟨c, d, rfl, hb, hc, hd⟩ |
    ⟨c, d, e, rfl, hb, hc, hd, he⟩
  · have hc := isTail_iff.mp hc
    simp only [codePoint, payload] at hx
    simp only [encode]
    rw [if_neg (by omega), if_pos (by omega)]
    simp (disch := omega) only [toUInt8_eq_iff, List.cons.injEq, and_true]
    omega
  · have hc := isSecond_bounds hc
    have hd := isTail_iff.mp hd
    simp only [codePoint, payload] at hx
    simp only [encode]
    rw [if_neg (by omega), if_neg (by omega), if_pos (by omega)]
    simp (disch := omega) only [toUInt8_eq_iff, List.cons.injEq, and_true]
    omega
  · have hc := isSecond_bounds hc
    have hd := isTail_iff.mp hd
    have he := isTail_iff.mp he
    simp only [codePoint, payload] at hx
    simp only [encode]
    rw [if_neg (by omega), if_neg (by omega), if_neg (by omega)]
    simp (disch := omega) only [toUInt8_eq_iff, List.cons.injEq, and_true]
    omega

theorem isSecond_of_bounds {b c : UInt8}
    (h : 0x80 ≤ c.toNat ∧ c.toNat ≤ 0xBF ∧
      (b.toNat = 0xE0 → 0xA0 ≤ c.toNat) ∧ (b.toNat = 0xF0 → 0x90 ≤ c.toNat) ∧
      (b.toNat = 0xED → c.toNat ≤ 0x9F) ∧ (b.toNat = 0xF4 → c.toNat ≤ 0x8F)) :
    isSecond b c = true := by
  simp only [isSecond, Bool.and_eq_true, decide_eq_true_eq, UInt8.le_iff_toNat_le,
    ← UInt8.toNat_inj]
  constructor
  · repeat' split
    all_goals simp at *
    all_goals omega
  · repeat' split
    all_goals simp at *
    all_goals omega

/-- Every character that is not in the ASCII range is one of more than one byte. -/
theorem exists_isWide {x : Char} (h : 0x80 ≤ x.toNat) :
    ∃ b tail, isWide b tail = true ∧ x.toNat = codePoint b tail := by
  have hvalid : x.toNat < 0xD800 ∨ 0xDFFF < x.toNat ∧ x.toNat < 0x110000 := x.valid
  generalize x.toNat = n at h hvalid
  by_cases htwo : n < 0x800
  · refine ⟨(0xC0 + n / 64).toUInt8, [(0x80 + n % 64).toUInt8], ?_, ?_⟩
    · simp [isWide, isTail, UInt8.le_iff_toNat_le]
      omega
    · simp [codePoint, payload]
      omega
  by_cases hthree : n < 0x10000
  · refine ⟨(0xE0 + n / 4096).toUInt8,
      [(0x80 + n / 64 % 64).toUInt8, (0x80 + n % 64).toUInt8], ?_, ?_⟩
    · have hsecond : isSecond (0xE0 + n / 4096).toUInt8 (0x80 + n / 64 % 64).toUInt8 = true := by
        apply isSecond_of_bounds
        simp
        omega
      rw [isWide, hsecond]
      simp [isTail, UInt8.le_iff_toNat_le]
      omega
    · simp [codePoint, payload]
      omega
  · refine ⟨(0xF0 + n / 262144).toUInt8,
      [(0x80 + n / 4096 % 64).toUInt8, (0x80 + n / 64 % 64).toUInt8, (0x80 + n % 64).toUInt8],
      ?_, ?_⟩
    · have hsecond :
          isSecond (0xF0 + n / 262144).toUInt8 (0x80 + n / 4096 % 64).toUInt8 = true := by
        apply isSecond_of_bounds
        simp
        omega
      rw [isWide, hsecond]
      simp [isTail, UInt8.le_iff_toNat_le]
      omega
    · simp [codePoint, payload]
      omega

/-- The bytes of a character are read as that character, whatever follows them. -/
theorem front_encode (x : Char) (rest : Bytes) :
    ∃ b tail, encode x = b :: tail ∧ front b (tail ++ rest) = (.char x, rest) := by
  by_cases hlow : x.toNat < 0x80
  · refine ⟨x.toNat.toUInt8, [], by simp [encode, hlow], ?_⟩
    have hbyte : x.toNat.toUInt8.toNat = x.toNat := ((toUInt8_eq_iff (by omega)).mp rfl).symm
    have hlt : x.toNat.toUInt8 < 0x80 := by simpa [UInt8.lt_iff_toNat_lt, hbyte] using hlow
    simp [front, hlt, hbyte]
  · obtain ⟨b, tail, hwide, hx⟩ := exists_isWide (Nat.le_of_not_lt hlow)
    refine ⟨b, tail, encode_eq_of_toNat hwide hx, ?_⟩
    rw [front_append_eq hwide, ← hx, Char.ofNat_toNat]

/-- A byte of a character outside the ASCII range is outside of it, too. -/
theorem toNat_of_mem_encode {x : Char} {b : UInt8} (h : b ∈ encode x) :
    b.toNat = x.toNat ∨ 0x80 ≤ b.toNat := by
  by_cases hlow : x.toNat < 0x80
  · simp only [encode, if_pos hlow, List.mem_singleton] at h
    exact Or.inl ((toUInt8_eq_iff (by omega)).mp h.symm).symm
  · obtain ⟨lead, tail, hwide, hx⟩ := exists_isWide (Nat.le_of_not_lt hlow)
    obtain ⟨hlead, -, -, htail⟩ := isWide_shape hwide
    rw [encode_eq_of_toNat hwide hx, List.mem_cons] at h
    rcases h with rfl | h
    · exact Or.inr (by omega)
    · exact Or.inr (isTail_iff.mp (htail b h)).1

/-- A unit is read from exactly its bytes. -/
theorem bytes_front (b : UInt8) (rest : Bytes) :
    (front b rest).1.bytes ++ (front b rest).2 = b :: rest := by
  rcases front_cases b rest with ⟨hlow, hfront⟩ | ⟨-, hfront⟩ | ⟨tail, after, rfl, hwide⟩
  · have hlt : b.toNat < 0x80 := UInt8.lt_iff_toNat_lt.mp hlow
    have hchar : (Char.ofNat b.toNat).toNat = b.toNat :=
      toNat_ofNat_of_valid (Or.inl (by omega))
    simp [hfront, Glyph.bytes, encode, hchar, hlt]
  · simp [hfront, Glyph.bytes]
  · have hchar := toNat_ofNat_of_valid (isValidChar_codePoint hwide)
    simp [front_append_eq hwide, Glyph.bytes, encode_eq_of_toNat hwide hchar]

/-! ## Whole texts -/

theorem glyphsOnto_append (done far : List Glyph) (s : Bytes) :
    glyphsOnto (done ++ far) s = far.reverse ++ glyphsOnto done s := by
  fun_induction glyphsOnto done s with
  | case1 done => simp [glyphsOnto]
  | case2 done b rest ih => rw [glyphsOnto, ← List.cons_append, ih]

@[simp]
theorem glyphs_nil : glyphs [] = [] := by
  rw [glyphs, glyphsOnto, List.reverse_nil]

theorem glyphs_cons (b : UInt8) (rest : Bytes) :
    glyphs (b :: rest) = (front b rest).1 :: glyphs (front b rest).2 := by
  rw [glyphs, glyphsOnto]
  exact glyphsOnto_append [] [(front b rest).1] (front b rest).2

theorem glyphs_encode_append (x : Char) (rest : Bytes) :
    glyphs (encode x ++ rest) = .char x :: glyphs rest := by
  obtain ⟨b, tail, hencode, hfront⟩ := front_encode x rest
  rw [hencode, List.cons_append, glyphs_cons, hfront]

theorem glyphs_ofChars (xs : List Char) : glyphs (ofChars xs) = xs.map .char := by
  induction xs with
  | nil => simp [ofChars, glyphs, glyphsOnto]
  | cons x xs ih =>
    rw [ofChars, List.flatMap_cons, glyphs_encode_append, ← ofChars, ih, List.map_cons]

/-- A sequence of characters is read back from its bytes. -/
@[simp]
theorem chars_ofChars (xs : List Char) : chars (ofChars xs) = xs := by
  simp [chars, glyphs_ofChars, Function.comp_def, Glyph.toChar]

@[simp]
theorem sanitize_ofChars (xs : List Char) : sanitize (ofChars xs) = ofChars xs := by
  rw [sanitize, chars_ofChars]

/-- The units of a text are read from exactly its bytes. -/
theorem flatMap_bytes_glyphs (s : Bytes) : (glyphs s).flatMap Glyph.bytes = s := by
  have honto : ∀ done, (glyphsOnto done s).flatMap Glyph.bytes =
      done.reverse.flatMap Glyph.bytes ++ s := by
    intro done
    fun_induction glyphsOnto done s with
    | case1 done => simp
    | case2 done b rest ih => simp [ih, bytes_front]
  exact honto []

/-- A text without a stray byte encodes the characters that are read from it. -/
theorem ofChars_chars {s : Bytes} (h : isValid s = true) : ofChars (chars s) = s := by
  have hbytes : ∀ g ∈ glyphs s, encode g.toChar = g.bytes := by
    intro g hg
    have := List.all_eq_true.mp h g hg
    cases g with
    | char x => rfl
    | stray b => simp at this
  calc ofChars (chars s) = (glyphs s).flatMap fun g => encode g.toChar := by
        rw [ofChars, chars, List.flatMap_map]
    _ = (glyphs s).flatMap Glyph.bytes := by
        rw [List.flatMap_def, List.flatMap_def, List.map_congr_left hbytes]
    _ = s := flatMap_bytes_glyphs s

end Utf8
end Reckon
