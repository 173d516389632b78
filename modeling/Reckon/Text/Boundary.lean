import Reckon.Text.Utf8

/-!
# Places between characters

A text is read forwards one unit at a time, and a unit that was read can be given back.  Reading
finds the width of a unit from its first byte and the bytes after it; giving back has to find that
width from its last byte and the bytes before it.

The two agree at every place that is a *boundary*: no character begins in front of the place and ends
behind it.  The start of a text is one, and reading and giving back lead from one to another.
Elsewhere they may differ: after two bytes of a character of three, reading takes one byte and giving
back takes three.
-/

namespace Reckon
namespace Utf8

/-- The number of bytes of the first unit of the text `b :: rest`. -/
def width (b : UInt8) (rest : Bytes) : Nat :=
  match (front b rest).1 with
  | .stray _ => 1
  | .char _ => if b < 0x80 then 1 else if b < 0xE0 then 2 else if b < 0xF0 then 3 else 4

/-- The number of bytes of the last unit of a text, which is given from its end.  A byte that is no
character by itself belongs to the unit that starts at the nearest byte before it that continues
none, provided that this unit ends with it. -/
def lastWidth : Bytes → Nat
  | [] => 0
  | b :: before =>
    if b < 0x80 then 1
    else
      let tails := (before.take 3).takeWhile isTail
      match before.drop tails.length with
      | [] => 1
      | lead :: _ =>
        if width lead (tails.reverse ++ [b]) = tails.length + 2 then tails.length + 2 else 1

/-! ## Characters of more than one byte -/

/-- Whether the bytes `b :: tail` are one character of more than one byte. -/
def isWide (b : UInt8) (tail : Bytes) : Bool :=
  match tail with
  | [c] => 0xC2 ≤ b && b ≤ 0xDF && isTail c
  | [c, d] => 0xE0 ≤ b && b ≤ 0xEF && isSecond b c && isTail d
  | [c, d, e] => 0xF0 ≤ b && b ≤ 0xF4 && isSecond b c && isTail d && isTail e
  | _ => false

theorem isTail_iff {b : UInt8} : isTail b = true ↔ 0x80 ≤ b.toNat ∧ b.toNat ≤ 0xBF := by
  simp [isTail, UInt8.le_iff_toNat_le]

/-- The bounds on a second byte, by the byte before it. -/
theorem isSecond_bounds {b c : UInt8} (h : isSecond b c = true) :
    0x80 ≤ c.toNat ∧ c.toNat ≤ 0xBF ∧
      (b.toNat = 0xE0 → 0xA0 ≤ c.toNat) ∧ (b.toNat = 0xF0 → 0x90 ≤ c.toNat) ∧
      (b.toNat = 0xED → c.toNat ≤ 0x9F) ∧ (b.toNat = 0xF4 → c.toNat ≤ 0x8F) := by
  simp only [isSecond, Bool.and_eq_true, decide_eq_true_eq, UInt8.le_iff_toNat_le,
    ← UInt8.toNat_inj] at h
  obtain ⟨hlow, hhigh⟩ := h
  repeat' split at hlow
  all_goals repeat' split at hhigh
  all_goals simp at *
  all_goals omega

/-- A character of more than one byte begins with no continuation byte, and one to three of them
follow. -/
theorem isWide_shape {b : UInt8} {tail : Bytes} (h : isWide b tail = true) :
    0xC2 ≤ b.toNat ∧ tail ≠ [] ∧ tail.length ≤ 3 ∧ ∀ c ∈ tail, isTail c = true := by
  unfold isWide at h
  split at h
  case h_4 => simp at h
  all_goals simp [UInt8.le_iff_toNat_le] at h
  · exact ⟨h.1.1, by simp, by simp, by simp [h.2]⟩
  · have hsecond := isSecond_bounds h.1.2
    exact ⟨by omega, by simp, by simp, by simp [isTail_iff.mpr ⟨hsecond.1, hsecond.2.1⟩, h.2]⟩
  · have hsecond := isSecond_bounds h.1.1.2
    exact ⟨by omega, by simp, by simp,
      by simp [isTail_iff.mpr ⟨hsecond.1, hsecond.2.1⟩, h.1.2, h.2]⟩

/-- No character holds an ASCII byte besides its first byte. -/
theorem not_mem_tail_of_lt
    {lead b : UInt8} {tail : Bytes} (hwide : isWide lead tail = true) (hb : b.toNat < 0x80) :
    b ∉ tail := by
  intro hmem
  have htail := (isWide_shape hwide).2.2.2 b hmem
  have hbounds := isTail_iff.mp htail
  omega

theorem toNat_ofNat_of_valid {n : Nat} (h : n.isValidChar) : (Char.ofNat n).toNat = n := by
  rw [Char.ofNat, dif_pos h]
  rfl

/-- A character of more than one byte is read whole, whatever follows it, and is not in the ASCII
range. -/
theorem front_append_of_isWide {b : UInt8} {tail : Bytes} (h : isWide b tail = true)
    (rest : Bytes) :
    ∃ c, front b (tail ++ rest) = (.char c, rest) ∧ 0x80 ≤ c.toNat := by
  unfold isWide at h
  split at h
  case h_4 => simp at h
  case h_1 c =>
    simp only [Bool.and_eq_true, decide_eq_true_eq] at h
    have hb := h.1
    have hc := isTail_iff.mp h.2
    simp [UInt8.le_iff_toNat_le] at hb
    refine ⟨Char.ofNat (b.toNat % 32 * 64 + payload c), ?_, ?_⟩
    · have hlow : ¬ b < 0x80 := by simp [UInt8.lt_iff_toNat_lt]; omega
      simp [front, hlow, h]
    · rw [toNat_ofNat_of_valid] <;> simp only [payload, Nat.isValidChar] <;> omega
  case h_2 c d =>
    simp only [Bool.and_eq_true, decide_eq_true_eq] at h
    have hb := h.1.1
    have hc := isSecond_bounds h.1.2
    have hd := isTail_iff.mp h.2
    simp [UInt8.le_iff_toNat_le] at hb
    refine ⟨Char.ofNat (b.toNat % 16 * 4096 + payload c * 64 + payload d), ?_, ?_⟩
    · have hlow : ¬ b < 0x80 := by simp [UInt8.lt_iff_toNat_lt]; omega
      have htwo : ¬ b ≤ 0xDF := by simp [UInt8.le_iff_toNat_le]; omega
      simp [front, hlow, htwo, h]
    · rw [toNat_ofNat_of_valid] <;> simp only [payload, Nat.isValidChar] <;> omega
  case h_3 c d e =>
    simp only [Bool.and_eq_true, decide_eq_true_eq] at h
    have hb := h.1.1.1
    have hc := isSecond_bounds h.1.1.2
    have hd := isTail_iff.mp h.1.2
    have he := isTail_iff.mp h.2
    simp [UInt8.le_iff_toNat_le] at hb
    refine ⟨Char.ofNat
      (b.toNat % 8 * 262144 + payload c * 4096 + payload d * 64 + payload e), ?_, ?_⟩
    · have hlow : ¬ b < 0x80 := by simp [UInt8.lt_iff_toNat_lt]; omega
      have htwo : ¬ b ≤ 0xDF := by simp [UInt8.le_iff_toNat_le]; omega
      have hthree : ¬ b ≤ 0xEF := by simp [UInt8.le_iff_toNat_le]; omega
      simp [front, hlow, htwo, hthree, h]
    · rw [toNat_ofNat_of_valid] <;> simp only [payload, Nat.isValidChar] <;> omega

/-- The first unit of a text is a byte of the ASCII range, a stray byte, or a character of more than
one byte. -/
theorem front_cases (b : UInt8) (rest : Bytes) :
    (b < 0x80 ∧ front b rest = (.char (Char.ofNat b.toNat), rest)) ∨
      (¬ b < 0x80 ∧ front b rest = (.stray b, rest)) ∨
      ∃ tail after, rest = tail ++ after ∧ isWide b tail = true := by
  unfold front
  by_cases hlow : b < 0x80
  · simp [hlow]
  rw [if_neg hlow]
  refine Or.inr ?_
  split
  next htwo =>
    split
    next c after =>
      split
      next => exact Or.inr ⟨[c], after, rfl, by simp_all [isWide]⟩
      next => exact Or.inl ⟨hlow, rfl⟩
    next => exact Or.inl ⟨hlow, rfl⟩
  next =>
  split
  next hthree =>
    split
    next c d after =>
      split
      next => exact Or.inr ⟨[c, d], after, rfl, by simp_all [isWide]⟩
      next => exact Or.inl ⟨hlow, rfl⟩
    next => exact Or.inl ⟨hlow, rfl⟩
  next =>
  split
  next hfour =>
    split
    next c d e after =>
      split
      next => exact Or.inr ⟨[c, d, e], after, rfl, by simp_all [isWide]⟩
      next => exact Or.inl ⟨hlow, rfl⟩
    next => exact Or.inl ⟨hlow, rfl⟩
  next => exact Or.inl ⟨hlow, rfl⟩

theorem width_append_of_isWide {b : UInt8} {tail : Bytes} (h : isWide b tail = true)
    (rest : Bytes) : width b (tail ++ rest) = tail.length + 1 := by
  obtain ⟨c, hfront, -⟩ := front_append_of_isWide h rest
  simp only [width, hfront, UInt8.lt_iff_toNat_lt]
  unfold isWide at h
  split at h
  case h_4 => simp at h
  all_goals
    simp [UInt8.le_iff_toNat_le] at h ⊢
    repeat' split
    all_goals omega

/-- A unit is one byte wide unless it is a character of more than one byte. -/
theorem width_cases (b : UInt8) (rest : Bytes) :
    (width b rest = 1 ∧ (front b rest).2 = rest) ∨
      ∃ tail after, rest = tail ++ after ∧ isWide b tail = true ∧
        width b rest = tail.length + 1 ∧ (front b rest).2 = after := by
  rcases front_cases b rest with ⟨hlow, hfront⟩ | ⟨-, hfront⟩ | ⟨tail, after, rfl, hwide⟩
  · exact Or.inl ⟨by simp [width, hfront, hlow], by simp [hfront]⟩
  · exact Or.inl ⟨by simp [width, hfront], by simp [hfront]⟩
  · obtain ⟨c, hfront, -⟩ := front_append_of_isWide hwide after
    exact Or.inr ⟨tail, after, rfl, hwide, width_append_of_isWide hwide after, by simp [hfront]⟩

theorem width_pos (b : UInt8) (rest : Bytes) : 0 < width b rest := by
  rcases width_cases b rest with ⟨h, -⟩ | ⟨tail, after, -, -, h, -⟩
  · omega
  · omega

theorem width_le (b : UInt8) (rest : Bytes) : width b rest ≤ rest.length + 1 := by
  rcases width_cases b rest with ⟨h, -⟩ | ⟨tail, after, rfl, -, h, -⟩
  · omega
  · simp [h]

/-- A continuation byte that starts a unit is a stray byte. -/
theorem width_eq_one_of_isTail {b : UInt8} (h : isTail b = true) (rest : Bytes) :
    width b rest = 1 := by
  rcases width_cases b rest with ⟨hw, -⟩ | ⟨tail, after, -, hwide, -⟩
  · exact hw
  · have hlead := (isWide_shape hwide).1
    have := isTail_iff.mp h
    omega

/-- If all of `tail` and no more belongs to the unit that starts at `b`, then `b :: tail` is a
character by itself. -/
theorem isWide_of_width {b : UInt8} {tail : Bytes} (rest : Bytes) (hne : tail ≠ [])
    (h : width b (tail ++ rest) = tail.length + 1) : isWide b tail = true := by
  rcases width_cases b (tail ++ rest) with ⟨hw, -⟩ | ⟨tail', after, happ, hwide, hw, -⟩
  · have := List.length_pos_iff.mpr hne
    omega
  · have hlen : tail.length = tail'.length := by omega
    obtain ⟨rfl, -⟩ := List.append_inj happ hlen
    exact hwide

/-! ## Boundaries -/

/-- No character begins in `behind`, which is given from its end, and ends in `ahead`. -/
def Boundary (behind ahead : Bytes) : Prop :=
  ∀ near b far, behind = near ++ b :: far → width b (near.reverse ++ ahead) ≤ near.length + 1

theorem boundary_nil (ahead : Bytes) : Boundary [] ahead := by
  intro near b far h
  simp at h

/-- Reading a unit leads from a boundary to a boundary. -/
theorem Boundary.next {behind rest : Bytes} {b : UInt8} (h : Boundary behind (b :: rest)) :
    Boundary ((rest.take (width b rest - 1)).reverse ++ b :: behind)
      (rest.drop (width b rest - 1)) := by
  intro near x far heq
  have htails : ∀ c ∈ rest.take (width b rest - 1), isTail c = true := by
    rcases width_cases b rest with ⟨hw, -⟩ | ⟨tail, after, rfl, hwide, hw, -⟩
    · simp [hw]
    · simpa [hw] using (isWide_shape hwide).2.2.2
  have hsplit := List.take_append_drop (width b rest - 1) rest
  have hlength : width b rest ≤ (rest.take (width b rest - 1)).length + 1 := by
    have := width_le b rest
    simp
    omega
  generalize rest.take (width b rest - 1) = unit at *
  generalize rest.drop (width b rest - 1) = after at *
  subst hsplit
  -- The unit at `x` starts behind the old place, with the unit just read, or inside that unit.
  rcases List.append_eq_append_iff.mp heq with ⟨inner, rfl, hfar⟩ | ⟨inner, hunit, hfar⟩
  · cases inner with
    | nil =>
      obtain ⟨rfl, rfl⟩ := List.cons.inj hfar
      simpa using hlength
    | cons y inner =>
      obtain ⟨rfl, rfl⟩ := List.cons.inj hfar
      have := h inner x far rfl
      simp at this ⊢
      omega
  · cases inner with
    | nil =>
      obtain ⟨rfl, rfl⟩ := List.cons.inj hfar
      simp at hunit
      simpa [← hunit] using hlength
    | cons y inner =>
      obtain ⟨rfl, -⟩ := List.cons.inj hfar
      have hx : x ∈ unit := by
        rw [← List.mem_reverse, hunit]
        simp
      rw [width_eq_one_of_isTail (htails x hx)]
      omega

/-- A text that ends with a character of more than one byte has that character as its last unit. -/
theorem lastWidth_of_isWide {lead : UInt8} {tail : Bytes} (h : isWide lead tail = true)
    (far : Bytes) : lastWidth (tail.reverse ++ lead :: far) = tail.length + 1 := by
  obtain ⟨hlead, hne, hlen, htails⟩ := isWide_shape h
  have hstop : isTail lead = false := by
    rw [Bool.eq_false_iff]
    intro htail
    have := isTail_iff.mp htail
    omega
  obtain ⟨b, near, hrev⟩ := List.exists_cons_of_ne_nil (List.reverse_ne_nil_iff.mpr hne)
  obtain rfl : tail = near.reverse ++ [b] := by simpa using congrArg List.reverse hrev
  have hhigh : ¬ b < 0x80 := by
    have := isTail_iff.mp (htails b (by simp))
    simp [UInt8.lt_iff_toNat_lt]
    omega
  -- The search goes back over `near`, which holds continuation bytes only, and stops at `lead`.
  have htake : ((near ++ lead :: far).take 3).takeWhile isTail = near := by
    have hnear : ∀ c ∈ near, isTail c = true := fun c hc => htails c (by simp [hc])
    rw [List.length_append, List.length_reverse, List.length_singleton] at hlen
    obtain ⟨k, hk⟩ : ∃ k, 3 - near.length = k + 1 := ⟨2 - near.length, by omega⟩
    rw [List.take_append, hk, List.take_succ_cons, List.take_of_length_le (by omega),
      List.takeWhile_append_of_pos hnear, List.takeWhile_cons_of_neg (by simp [hstop])]
    simp
  have hwidth : width lead (near.reverse ++ [b]) = near.length + 2 := by
    simpa using width_append_of_isWide h []
  rw [hrev, List.cons_append]
  simp [lastWidth, hhigh, htake, hwidth]

/-- The last unit of a text is one byte wide unless the text ends with a character of more than one
byte. -/
theorem lastWidth_cases (b : UInt8) (before : Bytes) :
    lastWidth (b :: before) = 1 ∨
      ∃ lead tail far, b :: before = tail.reverse ++ lead :: far ∧ isWide lead tail = true ∧
        lastWidth (b :: before) = tail.length + 1 := by
  simp only [lastWidth]
  split
  · exact Or.inl rfl
  split
  · exact Or.inl rfl
  next lead far hdrop =>
    split
    next hw =>
      have hprefix : (before.take 3).takeWhile isTail <+: before :=
        (List.takeWhile_prefix _).trans (List.take_prefix _ _)
      generalize (before.take 3).takeWhile isTail = tails at *
      obtain ⟨after, rfl⟩ := hprefix
      rw [List.drop_left] at hdrop
      refine Or.inr ⟨lead, tails.reverse ++ [b], far, ?_, ?_, ?_⟩
      · simp [hdrop]
      · exact isWide_of_width [] (by simp) (by simpa using hw)
      · simp
    · exact Or.inl rfl

/-- At a boundary, the unit that was read last is the one that is given back. -/
theorem Boundary.lastWidth_next {behind rest : Bytes} {b : UInt8}
    (h : Boundary behind (b :: rest)) :
    lastWidth ((rest.take (width b rest - 1)).reverse ++ b :: behind) = width b rest := by
  rcases width_cases b rest with ⟨hw, -⟩ | ⟨tail, after, rfl, hwide, hw, -⟩
  · simp only [hw, Nat.sub_self, List.take_zero, List.reverse_nil, List.nil_append]
    rcases lastWidth_cases b behind with hlast | ⟨lead, tail, far, heq, hwide, -⟩
    · exact hlast
    · -- A character that ends with `b` would begin behind and end ahead.
      obtain ⟨c, near, hrev⟩ := List.exists_cons_of_ne_nil
        (List.reverse_ne_nil_iff.mpr (isWide_shape hwide).2.1)
      rw [hrev] at heq
      obtain ⟨rfl, hbehind⟩ := List.cons.inj heq
      obtain rfl : tail = near.reverse ++ [b] := by simpa using congrArg List.reverse hrev
      have hle := h near lead far hbehind
      have heq := width_append_of_isWide hwide rest
      simp at hle heq
      omega
  · rw [hw]
    simpa using lastWidth_of_isWide hwide behind

/-- Giving a unit back leads from a boundary to a boundary. -/
theorem Boundary.back {behind ahead : Bytes} (h : Boundary behind ahead) :
    Boundary (behind.drop (lastWidth behind))
      ((behind.take (lastWidth behind)).reverse ++ ahead) := by
  cases behind with
  | nil => exact boundary_nil _
  | cons b before =>
    intro near x far heq
    rcases lastWidth_cases b before with hlast | ⟨lead, tail, far', hsplit, hwide, hlast⟩
    · -- A unit from `x` over the place would end with `b` and be given back whole.
      simp only [hlast, List.drop_one, List.tail_cons] at heq
      subst heq
      have hle := h (b :: near) x far rfl
      simp only [hlast, List.take_succ_cons, List.take_zero, List.reverse_cons, List.reverse_nil,
        List.nil_append, List.append_assoc, List.cons_append, List.length_cons] at hle ⊢
      rcases Nat.lt_or_ge (near.length + 1) (width x (near.reverse ++ b :: ahead)) with hgt | hge
      · have hfull :
            width x ((near.reverse ++ [b]) ++ ahead) = (near.reverse ++ [b]).length + 1 := by
          simp
          omega
        have hwide := isWide_of_width ahead (by simp) hfull
        have := lastWidth_of_isWide hwide far
        simp [hlast] at this
      · exact hge
    · -- The unit given back begins with `lead`, which continues no unit from `x`.
      have htake : (b :: before).take (tail.length + 1) = tail.reverse ++ [lead] := by
        rw [hsplit, List.take_append, List.take_of_length_le (by simp)]
        simp
      rw [hlast, htake]
      rcases width_cases x (near.reverse ++ ((tail.reverse ++ [lead]).reverse ++ ahead)) with
        ⟨hone, -⟩ | ⟨tail', after, happ, hwide', hw, -⟩
      · omega
      · rw [hw]
        rcases Nat.lt_or_ge near.length tail'.length with hlt | hge
        · have hmem : lead ∈ tail' := by
            have hget : (tail' ++ after)[near.length]? = some lead := by
              rw [← happ]
              simp
            rw [List.getElem?_append_left hlt] at hget
            exact List.mem_of_getElem? hget
          have := isTail_iff.mp ((isWide_shape hwide').2.2.2 lead hmem)
          have := (isWide_shape hwide).1
          omega
        · omega

end Utf8
end Reckon
