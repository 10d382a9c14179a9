import Mathlib.Data.List.DropRight
import Mathlib.Tactic.Ring
import Qwen38.Lib.Search
import Qwen38.Lib.Utf8

/-!
# Byte strings

The text layer of the server works on `std::string` and `std::string_view`, that is, on
bytes: a search, a cut or a trim may fall anywhere. Byte strings are lists of `UInt8`
here, a cursor into a string is the list of the bytes from the cursor on, and the
positions the code compares are lengths.

The two trims of the source (`trim` in the tool-call parser, `trim_chat_segment` in the
API) are the same function, and every comparison “up to leading and trailing white
space” below is equality of trims.
-/

namespace Qwen38

/-- A byte string. -/
abbrev Bytes := List UInt8

/-- The bytes of an ASCII literal. -/
def ascii (s : List Char) : Bytes := s.map fun c => c.toNat.toUInt8

/-- `std::isspace` in the C locale: tab, line feed, vertical tab, form feed, carriage
return and space. -/
def isspace (b : UInt8) : Bool := b == 32 || (9 ≤ b && b ≤ 13)

/-- `skip_space`: move the cursor over white space. -/
def skip_space (input : Bytes) : Bytes := input.dropWhile isspace

/-- `trim`: drop white space on both sides. -/
def trim (input : Bytes) : Bytes := (skip_space input).rdropWhile isspace

/-- `consume`: move the cursor over `value` if the input continues with it. -/
def consume (input value : Bytes) : Option Bytes :=
  if value <+: input then some (input.drop value.length) else none

/-! ### Trimming -/

theorem isspace_iff {b : UInt8} : isspace b = true ↔ b = 32 ∨ 9 ≤ b ∧ b ≤ 13 := by
  simp [isspace]

theorem isspace_lt {b : UInt8} (h : isspace b = true) : b < 0x80 := by
  rcases isspace_iff.mp h with rfl | ⟨-, hb⟩
  · decide
  · exact UInt8.lt_of_le_of_lt hb (by decide)

variable {a b s ws : Bytes}

theorem skip_space_append (hws : ∀ c ∈ ws, isspace c = true) (s : Bytes) :
    skip_space (ws ++ s) = skip_space s :=
  List.dropWhile_append_of_pos hws

/-- What is skipped is white space. -/
theorem exists_skip_space (s : Bytes) :
    ∃ ws, (∀ c ∈ ws, isspace c = true) ∧ s = ws ++ skip_space s :=
  ⟨s.takeWhile isspace, fun _ hc => List.mem_takeWhile_imp hc, List.takeWhile_append_dropWhile.symm⟩

theorem trim_append_left (hws : ∀ c ∈ ws, isspace c = true) (s : Bytes) :
    trim (ws ++ s) = trim s := by
  rw [trim, skip_space_append hws, trim]

theorem rdropWhile_append (hws : ∀ c ∈ ws, isspace c = true) (s : Bytes) :
    (s ++ ws).rdropWhile isspace = s.rdropWhile isspace := by
  rw [List.rdropWhile, List.reverse_append,
    List.dropWhile_append_of_pos fun c hc => hws c (List.mem_reverse.mp hc), List.rdropWhile]

theorem trim_append_right (hws : ∀ c ∈ ws, isspace c = true) (s : Bytes) :
    trim (s ++ ws) = trim s := by
  by_cases hs : ∀ c ∈ s, isspace c = true
  · -- Both sides are nothing but white space.
    have h1 : skip_space (s ++ ws) = [] := by
      rw [skip_space, List.dropWhile_eq_nil_iff]
      intro c hc
      rcases List.mem_append.mp hc with hc | hc
      · exact hs c hc
      · exact hws c hc
    have h2 : skip_space s = [] := List.dropWhile_eq_nil_iff.mpr hs
    rw [trim, h1, trim, h2]
  · have hskip : skip_space (s ++ ws) = skip_space s ++ ws := by
      rw [skip_space, List.dropWhile_append, if_neg, skip_space]
      simpa [skip_space, List.dropWhile_eq_nil_iff] using hs
    rw [trim, hskip, rdropWhile_append hws, trim]

@[simp] theorem trim_nil : trim [] = [] := rfl

/-- A string is its trim with white space around it. -/
theorem exists_trim (s : Bytes) :
    ∃ ws ws', (∀ c ∈ ws, isspace c = true) ∧ (∀ c ∈ ws', isspace c = true) ∧
      s = ws ++ trim s ++ ws' := by
  obtain ⟨ws, hws, hs⟩ := exists_skip_space s
  refine ⟨ws, (skip_space s).rtakeWhile isspace, hws, fun c hc => List.mem_rtakeWhile_imp hc, ?_⟩
  rw [trim, List.append_assoc, List.rdropWhile_append_rtakeWhile]
  exact hs

/-- Trimming twice is trimming once. -/
@[simp] theorem trim_trim (s : Bytes) : trim (trim s) = trim s := by
  obtain ⟨ws, ws', hws, hws', hs⟩ := exists_trim s
  calc trim (trim s) = trim (ws ++ trim s ++ ws') := by
        rw [trim_append_right hws', trim_append_left hws]
    _ = trim s := by rw [← hs]

theorem trim_eq_nil_iff : trim s = [] ↔ ∀ c ∈ s, isspace c = true := by
  constructor
  · intro h
    obtain ⟨ws, ws', hws, hws', hs⟩ := exists_trim s
    intro c hc
    rw [hs, h, List.append_nil] at hc
    exact (List.mem_append.mp hc).elim (hws c) (hws' c)
  · intro h
    simpa using trim_append_left h []

/-- Only the leading white space of a string separates it from its skip. -/
@[simp] theorem trim_skip_space (s : Bytes) : trim (skip_space s) = trim s := by
  obtain ⟨ws, hws, hs⟩ := exists_skip_space s
  conv_rhs => rw [hs]
  exact (trim_append_left hws _).symm

/-- **Trimming keeps a text valid**: white space is ASCII. -/
theorem valid_trim (h : Utf8.Valid s) : Utf8.Valid (trim s) := by
  obtain ⟨ws, ws', hws, hws', hs⟩ := exists_trim s
  have hw : Utf8.Valid ws := Utf8.valid_of_ascii fun c hc => isspace_lt (hws c hc)
  rw [hs, List.append_assoc, hw.append_iff] at h
  rcases eq_or_ne ws' [] with rfl | hne
  · simpa using h
  · exact (Utf8.Valid.append_ascii_iff (r := []) (fun c hc => isspace_lt (hws' c hc)) hne
      (by simpa using h)).1

theorem valid_skip_space (h : Utf8.Valid s) : Utf8.Valid (skip_space s) := by
  obtain ⟨ws, hws, hs⟩ := exists_skip_space s
  rw [hs, (Utf8.valid_of_ascii fun c hc => isspace_lt (hws c hc)).append_iff] at h
  exact h

end Qwen38
