import Mathlib.Data.List.GetD
import Mathlib.Data.BitVec
import Mathlib.Tactic.Common
import Qwen38.Layer.DecoderState

/-!
# The n-gram hash

`NgramHash.row_ids` maps a token, with the two tokens before it, to the rows of the n-gram
table: eight rows of the hash of two tokens and eight of the hash of three. The tokens
before it are kept in an `NgramState` and are counted from the last end of sequence on.

The state is a function of the tokens consumed (`Qwen38.NgramHash.Tracks`), so the rows are
those of the last three tokens, wherever the tokens come from
(`Qwen38.NgramHash.Tracks.row_ids`).
-/

namespace Qwen38

/-- What `NgramHash` is made of. The multipliers are the bits of `std::int64_t` values. -/
structure NgramHash where
  eos_ : UInt32
  multipliers_ : Fin 3 → BitVec 64
  vocabulary_ : Fin 16 → Int
  offsets_ : Fin 16 → Int

/-- The rows of the n-gram table for a token, one for each head. -/
abbrev RowIds := Fin 16 → Int

/-- `positive_remainder`. -/
def positive_remainder (bits : BitVec 64) (divisor : Int) : Int :=
  let value := bits.toInt
  let result := value.tmod divisor
  if result < 0 then result + divisor else result

namespace NgramHash

variable (hash : NgramHash)

/-- The product of a token and a multiplier, as the hash takes it. -/
def term (token : UInt32) (index : Fin 3) : BitVec 64 :=
  token.toBitVec.setWidth 64 * hash.multipliers_ index

/-- The rows of a token after two others. -/
def rows_after (token previous_one previous_two : UInt32) : RowIds := fun head =>
  let mixed := hash.term token 0 ^^^ hash.term previous_one 1
  if head < 8 then positive_remainder mixed (hash.vocabulary_ head) + hash.offsets_ head
  else
    let mixed := mixed ^^^ hash.term previous_two 2
    positive_remainder mixed (hash.vocabulary_ head) + hash.offsets_ head

/-- `NgramHash::row_ids`. -/
def row_ids (token : UInt32) (state : NgramState) : RowIds × NgramState :=
  let state :=
    if ¬state.initialized then
      { state with previous := (hash.eos_, hash.eos_), initialized := true }
    else state
  let previous_one := if state.segment_length ≥ 1 then state.previous.2 else hash.eos_
  let previous_two := if state.segment_length ≥ 2 then state.previous.1 else hash.eos_
  let result := hash.rows_after token previous_one previous_two
  if token = hash.eos_ then
    (result, { state with previous := (hash.eos_, hash.eos_), segment_length := 0 })
  else
    (result, { state with
      previous := (state.previous.2, token)
      segment_length := min 2 (state.segment_length + 1) })

/-- The loop of `Ple::forward_verify` over the tokens: the rows of each, and the state after
it. -/
def each_row_ids : List UInt32 → NgramState → List RowIds × List NgramState
  | [], _ => ([], [])
  | token :: tokens, ngram =>
    let r := hash.row_ids token ngram
    let rest := each_row_ids tokens r.2
    (r.1 :: rest.1, r.2 :: rest.2)

/-! ### What the rows are rows of -/

/-- The token so many places before a position, or the end of sequence where that is before
the start, or at or before the last end of sequence that precedes the position. -/
def token_before (tokens : List UInt32) (position back : Nat) : UInt32 :=
  if back ≤ position ∧ ∀ i < position, position - back ≤ i → tokens[i]? ≠ some hash.eos_ then
    tokens.getD (position - back) hash.eos_
  else hash.eos_

/-- The rows of a position in a sequence of tokens. -/
def rows_at (tokens : List UInt32) (position : Nat) : RowIds :=
  hash.rows_after (tokens.getD position hash.eos_) (hash.token_before tokens position 1)
    (hash.token_before tokens position 2)

/-- The rows of a whole sequence of tokens, computed at once from a new state. -/
def rows_of_all (tokens : List UInt32) : List RowIds := (hash.each_row_ids tokens default).1

section TokenBefore

variable {hash} {ctx tokens : List UInt32} {token : UInt32} {position back : Nat}

/-- What comes later does not matter. -/
theorem token_before_append (hposition : position ≤ ctx.length) (hback : 0 < back) :
    hash.token_before (ctx ++ tokens) position back = hash.token_before ctx position back := by
  have hsame : ∀ i < position, (ctx ++ tokens)[i]? = ctx[i]? := fun i hi =>
    List.getElem?_append_left (by omega)
  have hcondition : (back ≤ position ∧ ∀ i < position, position - back ≤ i →
      (ctx ++ tokens)[i]? ≠ some hash.eos_) ↔
      back ≤ position ∧ ∀ i < position, position - back ≤ i → ctx[i]? ≠ some hash.eos_ := by
    refine and_congr_right fun _ => forall_congr' fun i => forall_congr' fun hi => ?_
    rw [hsame i hi]
  rw [token_before, token_before]
  by_cases h : back ≤ position ∧ ∀ i < position, position - back ≤ i → ctx[i]? ≠ some hash.eos_
  · rw [if_pos (hcondition.mpr h), if_pos h, List.getD_append _ _ _ _ (by omega)]
  · rw [if_neg fun hcon => h (hcondition.mp hcon), if_neg h]

/-- The window of the next position: the token just seen, then the window it had. -/
theorem token_before_concat :
    hash.token_before (ctx ++ [token]) (ctx.length + 1) (back + 1) =
      if token = hash.eos_ then hash.eos_
      else if back = 0 then token else hash.token_before ctx ctx.length back := by
  have hlast : (ctx ++ [token])[ctx.length]? = some token := by simp
  split
  -- behind the end of a sequence the window is empty
  · next heos =>
    rw [token_before, if_neg]
    rintro ⟨-, hall⟩
    exact hall ctx.length (by omega) (by omega) (by rw [hlast, heos])
  · next hne =>
    split
    · next hzero =>
      subst hzero
      rw [token_before, if_pos]
      · simp
      · refine ⟨by omega, fun i hi hle => ?_⟩
        obtain rfl : i = ctx.length := by omega
        rw [hlast]
        simpa using hne
    · next hback =>
      -- the new token is behind the window, and has ended nothing
      have hold : hash.token_before (ctx ++ [token]) ctx.length back =
          hash.token_before ctx ctx.length back :=
        token_before_append le_rfl (Nat.pos_of_ne_zero hback)
      rw [← hold, token_before, token_before, Nat.add_sub_add_right]
      by_cases h : back ≤ ctx.length ∧ ∀ i < ctx.length, ctx.length - back ≤ i →
          (ctx ++ [token])[i]? ≠ some hash.eos_
      · rw [if_pos h, if_pos]
        refine ⟨by omega, fun i hi hle => ?_⟩
        rcases Nat.lt_or_ge i ctx.length with hlt | hge
        · exact h.2 i hlt hle
        · obtain rfl : i = ctx.length := by omega
          rw [hlast]
          simpa using hne
      · rw [if_neg h, if_neg]
        rintro ⟨hle, hall⟩
        exact h ⟨by omega, fun i hi hge => hall i (by omega) hge⟩

/-- The rows of a position do not depend on what comes later. -/
theorem rows_at_append (hposition : position < ctx.length) :
    hash.rows_at (ctx ++ tokens) position = hash.rows_at ctx position := by
  rw [rows_at, rows_at, List.getD_append _ _ _ _ hposition,
    token_before_append hposition.le Nat.one_pos, token_before_append hposition.le Nat.two_pos]

end TokenBefore

/-! ### The state is a function of the tokens -/

/-- A state in which these tokens have been consumed. -/
structure Tracks (ctx : List UInt32) (state : NgramState) : Prop where
  new : state.initialized = false → state.segment_length = 0
  one : (if state.segment_length ≥ 1 then state.previous.2 else hash.eos_) =
    hash.token_before ctx ctx.length 1
  two : (if state.segment_length ≥ 2 then state.previous.1 else hash.eos_) =
    hash.token_before ctx ctx.length 2
  length_le : state.segment_length ≤ 2

theorem tracks_nil : hash.Tracks [] default where
  new _ := rfl
  one := rfl
  two := rfl
  length_le := Nat.zero_le 2

section Tracks

variable {hash} {ctx : List UInt32} {state : NgramState}

/-- **The rows of the next token are those of its position.** What the hash keeps of the tokens
before it, two at most and none from before an end of sequence, is all that the position needs. -/
theorem Tracks.row_ids (h : hash.Tracks ctx state) (token : UInt32) :
    (hash.row_ids token state).1 = hash.rows_at (ctx ++ [token]) ctx.length := by
  have hrows : hash.rows_at (ctx ++ [token]) ctx.length =
      hash.rows_after token (if state.segment_length ≥ 1 then state.previous.2 else hash.eos_)
        (if state.segment_length ≥ 2 then state.previous.1 else hash.eos_) := by
    rw [rows_at, token_before_append le_rfl Nat.one_pos, token_before_append le_rfl Nat.two_pos,
      h.one, h.two]
    simp
  rw [hrows, NgramHash.row_ids]
  cases hinitialized : state.initialized with
  | false =>
    have hzero := h.new hinitialized
    simp only [hzero]
    split <;> rfl
  | true =>
    simp only [not_true_eq_false, if_false]
    split <;> rfl

/-- **The state moves on.** -/
theorem Tracks.next (h : hash.Tracks ctx state) (token : UInt32) :
    hash.Tracks (ctx ++ [token]) (hash.row_ids token state).2 := by
  have hwindow : ∀ back, hash.token_before (ctx ++ [token]) (ctx ++ [token]).length (back + 1) =
      if token = hash.eos_ then hash.eos_
      else if back = 0 then token else hash.token_before ctx ctx.length back := fun back => by
    rw [List.length_append, List.length_singleton, token_before_concat]
  have hone := hwindow 0
  have htwo := hwindow 1
  rw [if_pos rfl] at hone
  rw [if_neg one_ne_zero, ← h.one] at htwo
  by_cases heos : token = hash.eos_
  · rw [if_pos heos] at hone htwo
    rw [NgramHash.row_ids, if_pos heos]
    exact ⟨fun _ => rfl, hone.symm, htwo.symm, Nat.zero_le 2⟩
  · rw [if_neg heos] at hone htwo
    rw [NgramHash.row_ids, if_neg heos]
    refine ⟨fun hcon => ?_, ?_, ?_, Nat.min_le_left 2 _⟩
    · cases hinitialized : state.initialized <;> simp [hinitialized] at hcon
    · rw [hone]
      exact if_pos (Nat.le_min.mpr ⟨by decide, Nat.le_add_left 1 _⟩)
    · rw [htwo]
      -- the older of the two tokens counts from the second token of a segment on
      cases hinitialized : state.initialized with
      | false =>
        have hzero := h.new hinitialized
        simp [hzero]
      | true =>
        simp only [not_true_eq_false, if_false]
        by_cases hsegment : state.segment_length ≥ 1
        · rw [if_pos hsegment, if_pos (by omega)]
        · rw [if_neg hsegment, if_neg (by omega)]

/-- **The rows of tokens that come together**, and the state after each of them: every token has the
rows of its own position in the whole sequence, and a state to go back to. -/
theorem Tracks.each_row_ids (h : hash.Tracks ctx state) (tokens : List UInt32) :
    (hash.each_row_ids tokens state).1.length = tokens.length ∧
      (hash.each_row_ids tokens state).2.length = tokens.length ∧
      ∀ row < tokens.length,
        (hash.each_row_ids tokens state).1[row]? =
            some (hash.rows_at (ctx ++ tokens) (ctx.length + row)) ∧
          ∃ ngram, (hash.each_row_ids tokens state).2[row]? = some ngram ∧
            hash.Tracks (ctx ++ tokens.take (row + 1)) ngram := by
  induction tokens generalizing ctx state with
  | nil => exact ⟨rfl, rfl, fun row hrow => absurd hrow (Nat.not_lt_zero row)⟩
  | cons token tokens ih =>
    obtain ⟨hrows, hstates, hrow⟩ := ih (h.next token)
    refine ⟨by simp [NgramHash.each_row_ids, hrows], by simp [NgramHash.each_row_ids, hstates],
      fun row hlt => ?_⟩
    have hsplit : ctx ++ token :: tokens = ctx ++ [token] ++ tokens := by simp
    cases row with
    | zero =>
      refine ⟨?_, _, rfl, by simpa using h.next token⟩
      rw [hsplit, Nat.add_zero, rows_at_append (by simp), ← h.row_ids token]
      rfl
    | succ row =>
      obtain ⟨hids, ngram, hngram, htracks⟩ := hrow row (by simpa using hlt)
      rw [List.length_append, List.length_singleton, Nat.add_assoc, Nat.add_comm 1 row] at hids
      refine ⟨?_, ngram, hngram, ?_⟩
      · rw [hsplit]
        exact hids
      · rw [List.take_succ_cons]
        simpa using htracks

theorem Tracks.fst_each_row_ids (h : hash.Tracks ctx state) (tokens : List UInt32) :
    (hash.each_row_ids tokens state).1 =
      (List.range tokens.length).map fun row => hash.rows_at (ctx ++ tokens) (ctx.length + row) := by
  obtain ⟨hlength, -, hrow⟩ := h.each_row_ids tokens
  refine List.ext_getElem? fun i => ?_
  rcases Nat.lt_or_ge i tokens.length with hlt | hge
  · rw [(hrow i hlt).1]
    simp [hlt]
  · rw [List.getElem?_eq_none (by omega), List.getElem?_eq_none (by simpa using hge)]

variable (hash) in
/-- **The rows of a whole sequence**, computed at once. -/
theorem rows_of_all_eq (tokens : List UInt32) :
    hash.rows_of_all tokens = (List.range tokens.length).map (hash.rows_at tokens) := by
  have hrows := (tracks_nil hash).fst_each_row_ids tokens
  simp only [List.nil_append, List.length_nil, Nat.zero_add] at hrows
  exact hrows

/-- The rows of a longer sequence are those of the part consumed, and those of the rest. -/
theorem Tracks.rows_of_all_append (h : hash.Tracks ctx state) (tokens : List UInt32) :
    hash.rows_of_all (ctx ++ tokens) =
      hash.rows_of_all ctx ++ (hash.each_row_ids tokens state).1 := by
  rw [rows_of_all_eq, rows_of_all_eq, h.fst_each_row_ids, List.length_append, List.range_add,
    List.map_append, List.map_map]
  refine congrArg (· ++ _) (List.map_congr_left fun i hi => ?_)
  exact rows_at_append (List.mem_range.mp hi)

end Tracks

theorem take_fst_each_row_ids (tokens : List UInt32) (state : NgramState) (count : Nat) :
    (hash.each_row_ids tokens state).1.take count =
      (hash.each_row_ids (tokens.take count) state).1 := by
  induction tokens generalizing state count with
  | nil => simp [each_row_ids]
  | cons token tokens ih =>
    cases count with
    | zero => rfl
    | succ count => simp [each_row_ids, ih]

end NgramHash

end Qwen38
