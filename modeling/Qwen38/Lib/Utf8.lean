import Mathlib.Data.List.Basic
import Mathlib.Tactic.IntervalCases

/-!
# Cutting a UTF-8 text

Byte lists that encode a sequence of Unicode scalar values, with the standard
library's notion of validity, and where such a list may be cut.

The one fact of substance is `Utf8.valid_take_iff`: the beginning of a valid text is
valid exactly when the byte it stops before *starts* a character. Everything else is
its bookkeeping – what remains after the cut is valid again (`Utf8.Valid.drop`), and
an ASCII byte is always a place to cut.
-/

namespace Utf8

/-- The byte list is the UTF-8 encoding of some sequence of scalar values. -/
def Valid (l : List UInt8) : Prop := l.toByteArray.IsValidUTF8

instance (l : List UInt8) : Decidable (Valid l) :=
  decidable_of_iff _ ByteArray.validateUTF8_eq_true_iff

/-- Position `k` of a byte list is not inside a character: it is the end, or the byte
there is one that starts a character. -/
def Boundary (l : List UInt8) (k : Nat) : Prop := ∀ b ∈ l[k]?, b.IsUTF8FirstByte

instance (l : List UInt8) (k : Nat) : Decidable (Boundary l k) :=
  match h : l[k]? with
  | none => isTrue (by simp [Boundary, h])
  | some b => decidable_of_iff b.IsUTF8FirstByte (by simp [Boundary, h])

variable {l r : List UInt8} {k : Nat}

/-! ### Building valid texts -/

theorem valid_iff_exists : Valid l ↔ ∃ m : List Char, m.flatMap String.utf8EncodeChar = l := by
  constructor
  · rintro ⟨m, hm⟩
    refine ⟨m, ?_⟩
    have h := congrArg (fun b => b.data.toList) hm
    simpa [List.utf8Encode] using h.symm
  · rintro ⟨m, rfl⟩
    exact ⟨m, rfl⟩

@[simp] theorem valid_nil : Valid [] := valid_iff_exists.mpr ⟨[], rfl⟩

theorem Valid.append (hl : Valid l) (hr : Valid r) : Valid (l ++ r) := by
  obtain ⟨m, rfl⟩ := valid_iff_exists.mp hl
  obtain ⟨n, rfl⟩ := valid_iff_exists.mp hr
  exact valid_iff_exists.mpr ⟨m ++ n, List.flatMap_append⟩

/-- One encoded character in front neither helps nor hurts. -/
theorem valid_encodeChar_append {c : Char} :
    Valid (String.utf8EncodeChar c ++ l) ↔ Valid l := by
  have h := ByteArray.isValidUTF8_utf8Encode_singleton_append_iff (b := l.toByteArray) (c := c)
  rw [List.utf8Encode_singleton] at h
  rw [Valid, Valid, ← h]
  simp

/-- **A valid beginning can be cancelled**: UTF-8 is a prefix code. -/
theorem Valid.append_iff (hl : Valid l) : Valid (l ++ r) ↔ Valid r := by
  obtain ⟨m, rfl⟩ := valid_iff_exists.mp hl
  induction m with
  | nil => simp
  | cons c m ih =>
    rw [List.flatMap_cons, List.append_assoc, valid_encodeChar_append]
    exact ih (valid_iff_exists.mpr ⟨m, rfl⟩)

/-! ### Where a valid text may be cut -/

theorem boundary_append_right : Boundary (l ++ r) (l.length + k) ↔ Boundary r k := by
  rw [Boundary, Boundary, List.getElem?_append_right (Nat.le_add_right _ _),
    Nat.add_sub_cancel_left]

/-- A valid text starts with a byte that starts a character. -/
theorem Valid.boundary_zero (h : Valid l) : Boundary l 0 := by
  obtain ⟨m, rfl⟩ := valid_iff_exists.mp h
  rcases m with _ | ⟨c, m⟩
  · simp [Boundary]
  intro b hb
  have hpos : 0 < (String.utf8EncodeChar c).length := by simp [c.utf8Size_pos]
  rw [List.flatMap_cons, List.getElem?_append_left hpos, List.getElem?_eq_getElem hpos,
    Option.mem_some_iff] at hb
  subst hb
  exact UInt8.isUTF8FirstByte_getElem_zero_utf8EncodeChar

/-- Inside the encoding of one character there is no boundary. -/
theorem not_boundary_encodeChar {c : Char} (h0 : 0 < k)
    (hk : k < (String.utf8EncodeChar c).length) : ¬Boundary (String.utf8EncodeChar c ++ r) k := by
  intro h
  have hb := h ((String.utf8EncodeChar c)[k])
    (by rw [List.getElem?_append_left hk, List.getElem?_eq_getElem hk]; rfl)
  rw [UInt8.isUTF8FirstByte_getElem_utf8EncodeChar] at hb
  omega

theorem Valid.take_of_boundary (h : Valid l) (hk : Boundary l k) : Valid (l.take k) := by
  obtain ⟨m, rfl⟩ := valid_iff_exists.mp h
  induction m generalizing k with
  | nil => simp
  | cons c m ih =>
    rw [List.flatMap_cons] at hk ⊢
    rcases Nat.lt_or_ge k (String.utf8EncodeChar c).length with hlt | hge
    · -- A boundary inside the first character can only be its start.
      rcases Nat.eq_zero_or_pos k with rfl | hpos
      · simp
      · exact absurd hk (not_boundary_encodeChar hpos hlt)
    · obtain ⟨j, rfl⟩ := Nat.exists_eq_add_of_le hge
      rw [boundary_append_right] at hk
      rw [List.take_length_add_append, valid_encodeChar_append]
      exact ih (valid_iff_exists.mpr ⟨m, rfl⟩) hk

/-- **Where a valid text may be cut**: the beginning is valid exactly when the byte it
stops before starts a character. -/
theorem valid_take_iff (h : Valid l) :
    Valid (l.take k) ↔ Boundary l k := by
  refine ⟨fun ht => ?_, h.take_of_boundary⟩
  have hd : Valid (l.drop k) := (ht.append_iff).mp ((List.take_append_drop k l).symm ▸ h)
  have h0 := hd.boundary_zero
  rw [Boundary, List.getElem?_drop, Nat.add_zero] at h0
  exact h0

/-- What remains after a legal cut is valid. -/
theorem Valid.drop_of_boundary (h : Valid l) (hk : Boundary l k) : Valid (l.drop k) :=
  (h.take_of_boundary hk).append_iff.mp ((List.take_append_drop k l).symm ▸ h)

/-! ### ASCII bytes -/

/-- A byte below `0x80` starts a character. -/
theorem isUTF8FirstByte_of_lt {b : UInt8} (hb : b < 0x80) : b.IsUTF8FirstByte := by
  have hlt : b.toNat < 2 ^ 7 := by simpa [UInt8.lt_iff_toNat_lt] using hb
  refine Or.inl (UInt8.toNat_inj.mp (Nat.eq_of_testBit_eq fun i => ?_))
  rw [UInt8.toNat_and, Nat.testBit_and]
  -- The mask has bit 7 only, and the byte has no bit from 7 on.
  rcases Nat.lt_or_ge i 7 with hi | hi
  · have hmask : (0x80 : UInt8).toNat.testBit i = false := by
      interval_cases i <;> decide
    rw [hmask, Bool.and_false, UInt8.toNat_zero, Nat.zero_testBit]
  · have hbyte : b.toNat.testBit i = false :=
      Nat.testBit_lt_two_pow (lt_of_lt_of_le hlt (Nat.pow_le_pow_right (by omega) hi))
    rw [hbyte, Bool.false_and, UInt8.toNat_zero, Nat.zero_testBit]

/-- A byte below `0x80` is a character by itself. -/
theorem valid_singleton {b : UInt8} (hb : b < 0x80) : Valid [b] := by
  have hlt : b.toNat < 128 := by simpa [UInt8.lt_iff_toNat_lt] using hb
  refine valid_iff_exists.mpr ⟨[Char.ofNat b.toNat], ?_⟩
  have hval : (Char.ofNat b.toNat).val.toNat = b.toNat := by
    rw [Char.ofNat, dif_pos (Or.inl (by omega))]
    exact UInt32.toNat_ofNatLT
  have hsize : (Char.ofNat b.toNat).utf8Size = 1 := by
    rw [Char.utf8Size, if_pos (UInt32.le_iff_toNat_le.mpr (by rw [hval]; exact by simp; omega))]
  rw [List.flatMap_singleton, String.utf8EncodeChar_eq_singleton hsize]
  refine congrArg (fun a => [a]) (UInt8.toNat_inj.mp ?_)
  rw [UInt32.toNat_toUInt8, hval]
  omega

/-- A text of bytes below `0x80` is valid. -/
theorem valid_of_ascii (h : ∀ b ∈ l, b < 0x80) : Valid l := by
  induction l with
  | nil => exact valid_nil
  | cons b l ih =>
    exact (valid_singleton (h b (by simp))).append (ih fun a ha => h a (by simp [ha]))

/-- **An ASCII byte is a place to cut**, on either side. -/
theorem Valid.append_ascii_iff {m : List UInt8} (hm : ∀ b ∈ m, b < 0x80) (h0 : m ≠ [])
    (h : Valid (l ++ m ++ r)) : Valid l ∧ Valid r := by
  obtain ⟨b, m', rfl⟩ := List.exists_cons_of_ne_nil h0
  have hcut : Boundary (l ++ (b :: m') ++ r) l.length := by
    intro c hc
    rw [List.append_assoc, List.getElem?_append_right (Nat.le_refl _), Nat.sub_self] at hc
    obtain rfl : b = c := by simpa using hc
    exact isUTF8FirstByte_of_lt (hm b (by simp))
  have hl : Valid l := by simpa using h.take_of_boundary hcut
  refine ⟨hl, ?_⟩
  rw [List.append_assoc, hl.append_iff, (valid_of_ascii hm).append_iff] at h
  exact h

end Utf8
