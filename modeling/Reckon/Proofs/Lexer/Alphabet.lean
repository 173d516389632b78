import Reckon.Lexer
import Reckon.Proofs.Lexer.Literal

/-!
# The bytes of an expression

The lexer reads characters, but every character that means anything to it is a single byte.  What a
unit of the input is to the lexer can therefore be told from its first byte, whatever follows; and
the bytes of a unit of more than one byte are all foreign to it, the first one as well as the others.
-/

namespace Reckon
namespace Alphabet

/-- Whether a byte may stand between tokens. -/
def isBlank (b : UInt8) : Bool :=
  b = 0x20 || b = 0x09 || b = 0x0D || b = 0x0A

/-- The kind of the token that a byte is by itself. -/
def symbol? (b : UInt8) : Option TokenKind :=
  match b with
  | 0x2D => some .minus
  | 0x2B => some .plus
  | 0x2A => some .asterisk
  | 0x2F => some .slash
  | 0x5E => some .caret
  | 0x28 => some .parenLeft
  | 0x29 => some .parenRight
  | _ => none

/-- Whether a byte is not in the alphabet of expressions. -/
def isForeign (b : UInt8) : Bool :=
  !isBlank b && !Literal.isNumeric b && (symbol? b).isNone

/-! ## The four classes of byte -/

theorem isNumeric_of_isBlank {b : UInt8} (h : isBlank b = true) : Literal.isNumeric b = false := by
  simp only [isBlank, Bool.or_eq_true, decide_eq_true_eq] at h
  rcases h with ((rfl | rfl) | rfl) | rfl
  all_goals decide

theorem symbol?_of_isBlank {b : UInt8} (h : isBlank b = true) : symbol? b = none := by
  simp only [isBlank, Bool.or_eq_true, decide_eq_true_eq] at h
  rcases h with ((rfl | rfl) | rfl) | rfl
  all_goals decide

theorem isNumeric_of_symbol? {b : UInt8} {kind : TokenKind} (h : symbol? b = some kind) :
    Literal.isNumeric b = false := by
  unfold symbol? at h
  split at h
  case h_8 => cases h
  all_goals decide

/-- The bytes of the alphabet are those of the ASCII range that are not foreign. -/
theorem isForeign_of_le {b : UInt8} (h : 0x80 ≤ b.toNat) : isForeign b = true := by
  have hblank : isBlank b = false := by
    rw [Bool.eq_false_iff]
    intro hblank
    simp only [isBlank, Bool.or_eq_true, decide_eq_true_eq] at hblank
    rcases hblank with ((rfl | rfl) | rfl) | rfl
    all_goals simp at h
  have hnumeric : Literal.isNumeric b = false := by
    rw [Bool.eq_false_iff]
    intro hnumeric
    have := Literal.bounds_of_isNumeric hnumeric
    omega
  have hsymbol : symbol? b = none := by
    unfold symbol?
    split
    case h_8 => rfl
    all_goals simp at h
  simp [isForeign, hblank, hnumeric, hsymbol]

theorem lt_of_isForeign {b : UInt8} (h : isForeign b = false) : b.toNat < 0x80 := by
  rcases Nat.lt_or_ge b.toNat 0x80 with hlt | hge
  · exact hlt
  · simp [isForeign_of_le hge] at h

/-! ## Characters and their first bytes -/

/-- The lexer treats a character as a byte. -/
structure Agrees (c : Char) (b : UInt8) : Prop where
  isBlank : Lexer.isBlank c = Alphabet.isBlank b
  isNumeric : Lexer.isNumeric c = Literal.isNumeric b
  single? : Lexer.single? c = symbol? b

/-- A character that the lexer has no use for is told by a foreign byte. -/
theorem Agrees.isForeign {c : Char} {b : UInt8} (h : Agrees c b) (hblank : ¬ Lexer.isBlank c = true)
    (hnumeric : ¬ Lexer.isNumeric c = true) (hsingle : Lexer.single? c = none) :
    Alphabet.isForeign b = true := by
  rw [h.isBlank] at hblank
  rw [h.isNumeric] at hnumeric
  rw [h.single?] at hsingle
  simp [Alphabet.isForeign, hblank, hnumeric, hsingle]

theorem agrees_ascii {b : UInt8} (h : b < 0x80) : Agrees (Char.ofNat b.toNat) b := by
  -- There are few enough characters to look at each of them.
  have hall : ∀ n < 128,
      Lexer.isBlank (Char.ofNat n) = Alphabet.isBlank n.toUInt8 ∧
      Lexer.isNumeric (Char.ofNat n) = Literal.isNumeric n.toUInt8 ∧
      Lexer.single? (Char.ofNat n) = symbol? n.toUInt8 := by decide
  have hlt : b.toNat < 128 := by simpa [UInt8.lt_iff_toNat_lt] using h
  obtain ⟨hblank, hnumeric, hsingle⟩ := hall b.toNat hlt
  rw [show b.toNat.toUInt8 = b by simp] at hblank hnumeric hsingle
  exact ⟨hblank, hnumeric, hsingle⟩

/-- Outside the ASCII range neither characters nor bytes mean anything to the lexer. -/
theorem agrees_of_le {c : Char} {b : UInt8} (hc : 0x80 ≤ c.toNat) (hb : 0x80 ≤ b.toNat) :
    Agrees c b := by
  have hforeign := isForeign_of_le hb
  simp only [isForeign, Bool.and_eq_true, Bool.not_eq_true', Option.isNone_iff_eq_none] at hforeign
  obtain ⟨⟨hblank, hnumeric⟩, hsymbol⟩ := hforeign
  have hne : ∀ d : Char, d.toNat < 0x80 → c ≠ d := by
    rintro d hd rfl
    omega
  refine ⟨?_, ?_, ?_⟩
  · rw [hblank]
    simp [Lexer.isBlank, hne]
  · have hdigit : ¬ c.val ≤ 57 := by
      rw [UInt32.le_iff_toNat_le]
      exact Nat.not_le.mpr (Nat.lt_of_lt_of_le (by decide) hc)
    rw [hnumeric]
    simp [Lexer.isNumeric, Char.isDigit, hdigit, hne]
  · rw [hsymbol]
    unfold Lexer.single?
    split
    case h_8 => rfl
    all_goals simp at hc

/-- What the first unit of a text is to the lexer is told by its first byte. -/
theorem agrees_front (b : UInt8) (rest : Bytes) : Agrees (Utf8.front b rest).1.toChar b := by
  rcases Utf8.front_cases b rest with ⟨hlow, hfront⟩ | ⟨hhigh, hfront⟩ | ⟨tail, after, rfl, hwide⟩
  · rw [hfront]
    exact agrees_ascii hlow
  · rw [hfront]
    refine agrees_of_le (show 0x80 ≤ Utf8.replacement.toNat by decide) ?_
    simpa [UInt8.lt_iff_toNat_lt] using hhigh
  · obtain ⟨c, hfront, hc⟩ := Utf8.front_append_of_isWide hwide after
    have := (Utf8.isWide_shape hwide).1
    rw [hfront]
    exact agrees_of_le hc (by omega)

end Alphabet
end Reckon
