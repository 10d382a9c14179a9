import Mathlib.Data.List.TakeWhile
import Qwen38.Lib.Search

/-!
# The chunked transfer coding

A body in chunks, each with its size in hexadecimal digits before it, and a chunk of size zero
with the trailer behind the last one. `Chunked.decode` reads as much of a body as there is:
the data so far, and whether the body has ended, is cut short or is not one.

A reader finds the data of whole chunks again (`Chunked.decode_encode`), the end where it is
(`Chunked.decode_last`), and of a chunk that is cut short what is there of its data
(`Chunked.decode_of_prefix`).
-/

namespace Chunked

/-- The end of a line. -/
def crlf : List UInt8 := [13, 10]

theorem length_crlf : crlf.length = 2 := rfl

/-! ### Reading -/

/-- The value of a hexadecimal digit, of either case. -/
def hexValue (b : UInt8) : Option Nat :=
  if 48 ≤ b ∧ b ≤ 57 then some (b.toNat - 48)
  else if 97 ≤ b ∧ b ≤ 102 then some (b.toNat - 87)
  else if 65 ≤ b ∧ b ≤ 70 then some (b.toNat - 55)
  else none

/-- The number that digits stand for, the most significant first. -/
def value (digits : List UInt8) : Nat :=
  digits.foldl (fun n b => 16 * n + (hexValue b).getD 0) 0

/-- The size in the line before a chunk; an extension behind a semicolon is passed over. -/
def size (line : List UInt8) : Option Nat :=
  let digits := line.takeWhile fun b => (hexValue b).isSome
  let rest := line.dropWhile fun b => (hexValue b).isSome
  if digits ≠ [] ∧ (rest = [] ∨ rest.head? = some 59) then some (value digits) else none

/-- How a body ends. -/
inductive Ending
  /-- With the last chunk and its trailer; what stands behind them is not the body's. -/
  | complete (rest : List UInt8)
  | truncated
  | malformed
deriving DecidableEq

/-- The data of the chunks, and how the body ends. -/
structure Decoded where
  data : List UInt8
  ending : Ending
deriving DecidableEq

/-- More data before what has been read. -/
def Decoded.prepend (data : List UInt8) (d : Decoded) : Decoded :=
  { d with data := data ++ d.data }

theorem length_drop_lt {bytes : List UInt8} {i : Nat} (h : Search.find crlf bytes = some i) {k : Nat}
    (hk : i + 2 ≤ k) : (bytes.drop k).length < bytes.length := by
  have hbound : i + 2 ≤ bytes.length := Search.find_bound h
  rw [List.length_drop]
  omega

/-- The trailer: lines up to an empty one. -/
def trailer (bytes : List UInt8) : Ending :=
  match h : Search.find crlf bytes with
  | none => .truncated
  | some 0 => .complete (bytes.drop 2)
  | some (i + 1) => trailer (bytes.drop (i + 3))
termination_by bytes.length
decreasing_by exact length_drop_lt h (by omega)

/-- What there is of a body. -/
def decode (bytes : List UInt8) : Decoded :=
  match _ : Search.find crlf bytes with
  | none => ⟨[], .truncated⟩
  | some i =>
    match size (bytes.take i) with
    | none => ⟨[], .malformed⟩
    | some 0 => ⟨[], trailer (bytes.drop (i + 2))⟩
    | some (n + 1) =>
      let data := (bytes.drop (i + 2)).take (n + 1)
      let behind := (bytes.drop (i + 2)).drop (n + 1)
      if crlf <+: behind then (decode (bytes.drop (i + 2 + (n + 1) + 2))).prepend data
      else if behind <+: crlf then ⟨data, .truncated⟩
      else ⟨data, .malformed⟩
termination_by bytes.length
decreasing_by exact length_drop_lt ‹_› (by omega)

/-! ### Writing -/

/-- A number in hexadecimal digits. -/
def hex (n : Nat) : List UInt8 := (Nat.toDigits 16 n).map fun c => c.toNat.toUInt8

/-- A chunk. -/
def chunk (data : List UInt8) : List UInt8 := hex data.length ++ crlf ++ data ++ crlf

/-- The last chunk, without a trailer. -/
def last : List UInt8 := hex 0 ++ crlf ++ crlf

/-- A sequence of chunks. -/
def encode (chunks : List (List UInt8)) : List UInt8 := chunks.flatMap chunk

/-! ### The size -/

theorem hex_ne_nil (n : Nat) : hex n ≠ [] := by
  intro h
  exact Nat.toDigits_ne_nil (List.map_eq_nil_iff.mp h)

/-- A number is its leading digits and the last one. -/
theorem hex_eq (n : Nat) :
    hex n = (if n < 16 then [] else hex (n / 16)) ++ [(n % 16).digitChar.toNat.toUInt8] := by
  rw [hex, Nat.toDigits_eq_if (by decide)]
  split
  · next h => rw [Nat.mod_eq_of_lt h, List.map_singleton, List.nil_append]
  · rw [List.map_append, hex, List.map_singleton]

theorem hexValue_digit : ∀ d < 16, hexValue d.digitChar.toNat.toUInt8 = some d := by decide

theorem value_hex (n : Nat) : value (hex n) = n := by
  induction n using Nat.strongRecOn with
  | ind n ih =>
    rw [hex_eq, value, List.foldl_append, List.foldl_cons, List.foldl_nil,
      hexValue_digit _ (Nat.mod_lt n (by decide)), Option.getD_some]
    split
    · next h => rw [List.foldl_nil, Nat.mod_eq_of_lt h, Nat.mul_zero, Nat.zero_add]
    · have hvalue := ih (n / 16) (by omega)
      rw [value] at hvalue
      rw [hvalue]
      omega

theorem isSome_hexValue {n : Nat} {b : UInt8} (h : b ∈ hex n) : (hexValue b).isSome = true := by
  induction n using Nat.strongRecOn with
  | ind n ih =>
    rw [hex_eq] at h
    rcases List.mem_append.mp h with h | h
    · split at h
      · cases h
      · exact ih (n / 16) (by omega) h
    · rw [List.mem_singleton.mp h, hexValue_digit _ (Nat.mod_lt n (by decide))]
      rfl

theorem size_hex (n : Nat) : size (hex n) = some n := by
  have hall : ∀ b ∈ hex n, (hexValue b).isSome = true := fun b hb => isSome_hexValue hb
  rw [size, List.takeWhile_eq_self_iff.mpr hall, List.dropWhile_eq_nil_iff.mpr hall,
    if_pos ⟨hex_ne_nil n, Or.inl rfl⟩, value_hex]

theorem cr_not_mem_hex (n : Nat) : (13 : UInt8) ∉ hex n := fun h => by
  have hdigit := isSome_hexValue h
  revert hdigit
  decide

theorem find_hex (n : Nat) (rest : List UInt8) :
    Search.find crlf (hex n ++ crlf ++ rest) = some (hex n).length := by
  rw [List.append_assoc, crlf, Search.find_append_of_not_mem (cr_not_mem_hex n),
    Search.find_of_prefix (List.prefix_append _ _), Option.map_some, Nat.zero_add]

theorem drop_line (n : Nat) (rest : List UInt8) :
    (hex n ++ crlf ++ rest).drop ((hex n).length + 2) = rest := by
  rw [List.drop_left' (by simp [crlf])]

/-! ### Reading what has been written -/

/-- The data behind a size. -/
theorem decode_data (n : Nat) (rest : List UInt8) :
    decode (hex (n + 1) ++ crlf ++ rest) =
      if crlf <+: rest.drop (n + 1) then
        (decode (rest.drop (n + 1 + 2))).prepend (rest.take (n + 1))
      else if rest.drop (n + 1) <+: crlf then ⟨rest.take (n + 1), .truncated⟩
      else ⟨rest.take (n + 1), .malformed⟩ := by
  have hfind := find_hex (n + 1) rest
  have hsize : size ((hex (n + 1) ++ crlf ++ rest).take (hex (n + 1)).length) = some (n + 1) := by
    rw [List.append_assoc, List.take_left, size_hex]
  rw [decode]
  split
  next hnone =>
    rw [hnone] at hfind
    cases hfind
  next i hsome =>
    obtain rfl := Option.some.inj (hsome.symm.trans hfind)
    rw [hsize]
    dsimp only
    rw [drop_line, Nat.add_assoc _ (n + 1), ← List.drop_drop (i := n + 1 + 2), drop_line]

theorem decode_chunk {data : List UInt8} (hdata : data ≠ []) (rest : List UInt8) :
    decode (chunk data ++ rest) = (decode rest).prepend data := by
  obtain ⟨n, hn⟩ := Nat.exists_eq_succ_of_ne_zero (List.length_pos_iff.mpr hdata).ne'
  rw [chunk, List.append_assoc, List.append_assoc, hn, decode_data, ← Nat.succ_eq_add_one, ← hn,
    List.drop_left, List.take_left, if_pos (List.prefix_append _ _), ← List.drop_drop,
    List.drop_left, List.drop_left' length_crlf]

/-- **The data of whole chunks.** -/
theorem decode_encode {chunks : List (List UInt8)} (h : ∀ data ∈ chunks, data ≠ [])
    (rest : List UInt8) :
    decode (encode chunks ++ rest) = (decode rest).prepend chunks.flatten := by
  induction chunks with
  | nil => rfl
  | cons data chunks ih =>
    rw [List.forall_mem_cons] at h
    rw [encode, List.flatMap_cons, List.append_assoc, decode_chunk h.1, ← encode, ih h.2,
      List.flatten_cons, Decoded.prepend, Decoded.prepend, Decoded.prepend, List.append_assoc]

/-- What stands behind the size of the last chunk. -/
theorem decode_zero (rest : List UInt8) : decode (hex 0 ++ crlf ++ rest) = ⟨[], trailer rest⟩ := by
  have hfind := find_hex 0 rest
  have hsize : size ((hex 0 ++ crlf ++ rest).take (hex 0).length) = some 0 := by
    rw [List.append_assoc, List.take_left, size_hex]
  rw [decode]
  split
  next hnone =>
    rw [hnone] at hfind
    cases hfind
  next i hsome =>
    obtain rfl := Option.some.inj (hsome.symm.trans hfind)
    rw [hsize]
    dsimp only
    rw [drop_line]

theorem trailer_of_find {bytes : List UInt8} (h : Search.find crlf bytes = none) :
    trailer bytes = .truncated := by
  rw [trailer]
  split
  next => rfl
  next hsome =>
    rw [h] at hsome
    cases hsome
  next hsome =>
    rw [h] at hsome
    cases hsome

/-- **The end of a body.** -/
theorem decode_last (rest : List UInt8) : decode (last ++ rest) = ⟨[], .complete rest⟩ := by
  have hfind : Search.find crlf (crlf ++ rest) = some 0 :=
    Search.find_of_prefix (List.prefix_append _ _)
  rw [last, List.append_assoc, decode_zero, trailer]
  split
  next hnone =>
    rw [hfind] at hnone
    cases hnone
  next => rfl
  next hsome =>
    rw [hfind] at hsome
    cases hsome

/-! ### Reading what is cut short -/

theorem decode_of_find {bytes : List UInt8} (h : Search.find crlf bytes = none) :
    decode bytes = ⟨[], .truncated⟩ := by
  rw [decode]
  split
  next => rfl
  next hsome =>
    rw [h] at hsome
    cases hsome

/-- The beginning of a line with a size and of what follows: the line is not complete, or it is
there with a beginning of the rest. -/
theorem prefix_line {n : Nat} {rest p : List UInt8} (h : p <+: hex n ++ crlf ++ rest) :
    Search.find crlf p = none ∨ ∃ q, q <+: rest ∧ p = hex n ++ crlf ++ q := by
  rcases Nat.lt_or_ge p.length ((hex n).length + 2) with hlt | hge
  · obtain ⟨r, hr⟩ := h
    have hfind := find_hex n rest
    rw [← hr] at hfind
    rw [Search.find_left hfind, length_crlf, if_neg (Nat.not_le.mpr hlt)]
    exact Or.inl rfl
  · have hline : hex n ++ crlf <+: p := by
      refine List.prefix_of_prefix_length_le (List.prefix_append _ _) h ?_
      rw [List.length_append]
      exact hge
    obtain ⟨q, rfl⟩ := hline
    exact Or.inr ⟨q, (List.prefix_append_right_inj _).mp h, rfl⟩

theorem find_of_short {p : List UInt8} (h : p.length < 2) : Search.find crlf p = none := by
  rcases hfind : Search.find crlf p with _ | i
  · rfl
  · have hbound : i + 2 ≤ p.length := Search.find_bound hfind
    omega

/-- **A chunk that is cut short**: a beginning of its data. -/
theorem decode_of_prefix {data p : List UInt8} (h : p <+: chunk data) (hne : p ≠ chunk data) :
    ∃ q, q <+: data ∧ decode p = ⟨q, .truncated⟩ := by
  rw [chunk, List.append_assoc] at h hne
  rcases prefix_line h with hfind | ⟨q, hq, rfl⟩
  · exact ⟨[], List.nil_prefix, decode_of_find hfind⟩
  · have hlength : q.length < (data ++ crlf).length := by
      refine lt_of_le_of_ne hq.length_le fun heq => hne ?_
      rw [hq.eq_of_length heq]
    rw [List.length_append] at hlength
    refine ⟨q.take data.length, ?_, ?_⟩
    · have htake := hq.take data.length
      rwa [List.take_left] at htake
    · rcases hsize : data.length with _ | n
      · -- an empty chunk reads as the last one, and what is left of a trailer is too short
        rw [hsize, Nat.zero_add] at hlength
        rw [decode_zero, trailer_of_find (find_of_short hlength), List.take_zero]
      · rw [hsize] at hlength
        have hshort : (q.drop (n + 1)).length < 2 := by
          rw [List.length_drop]
          change q.length < n + 1 + 2 at hlength
          omega
        have hdrop := hq.drop data.length
        rw [List.drop_left, hsize] at hdrop
        rw [decode_data, if_neg fun hle => absurd hle.length_le (Nat.not_le.mpr hshort),
          if_pos hdrop]

/-- The last chunk, cut short. -/
theorem decode_of_prefix_last {p : List UInt8} (h : p <+: last) (hne : p ≠ last) :
    decode p = ⟨[], .truncated⟩ := by
  rw [last] at h hne
  rcases prefix_line h with hfind | ⟨q, hq, rfl⟩
  · exact decode_of_find hfind
  · have hlength : q.length < 2 := by
      refine lt_of_le_of_ne hq.length_le fun heq => hne ?_
      rw [hq.eq_of_length heq]
    rw [decode_zero, trailer_of_find (find_of_short hlength)]

end Chunked
