import Mathlib.Data.Nat.Bitwise
import Mathlib.Tactic.Linarith
import Mathlib.Tactic.Ring
import Qwen38.Lib.Bitonic
import Qwen38.Lib.Selection

/-!
# The top 128 blocks of a query

`qsa_bitonic256` sorts 256 scores with their ids, in a threadgroup of 128 threads. The first pass
keeps the upper half of every group of 256 blocks, each merge pass the upper half of two groups,
until one is left; its ids are published. Padding scores `⊥`, below every block.

The loops of the kernel are the bitonic network on every aligned block of places
(`Qwen38.places_stages`), and what is left of two groups is the top of both together
(`Selection.IsTop.merge`).
-/

namespace Qwen38

/-! ### The kernels -/

section Kernels

variable {V : Type} [LinearOrder V]

/-- A score and its block. -/
abbrev Scored (V : Type) := V × Nat

/-- The lower place of a thread. -/
def left_of (stride tid : Nat) : Nat := tid / stride * (stride * 2) + tid % stride

/-- The body of the inner loop, for one thread. -/
def exchange (width stride : Nat) (places : Nat → Scored V) (tid : Nat) : Nat → Scored V :=
  let left := left_of stride tid
  let right := left + stride
  let swap : Bool := if left &&& width = 0 then (places right).1 < (places left).1
    else (places left).1 < (places right).1
  if swap then fun place =>
    if place = left then places right else if place = right then places left else places place
  else places

/-- All threads, up to the barrier. They have a pair of places each. -/
def exchange_all (threads width stride : Nat) (places : Nat → Scored V) : Nat → Scored V :=
  (List.range threads).foldl (exchange width stride) places

/-- The inner loop, for a width of `2 ^ stage`: the strides from `2 ^ (levels - 1)` down. -/
def strides (threads stage : Nat) : Nat → (Nat → Scored V) → Nat → Scored V
  | 0, places => places
  | levels + 1, places =>
    strides threads stage levels (exchange_all threads (2 ^ stage) (2 ^ levels) places)

/-- The outer loop: the widths `2`, `4`, up to `2 ^ stages`. -/
def stages (threads : Nat) : Nat → (Nat → Scored V) → Nat → Scored V
  | 0, places => places
  | stage + 1, places => strides threads (stage + 1) (stage + 1) (stages threads stage places)

/-- `qsa_bitonic256`. -/
def qsa_bitonic256 (places : Nat → Scored V) : Nat → Scored V := stages 128 8 places

/-- The buffers of the selector. -/
structure QsaBuffers (V : Type) where
  scores_a : Nat → V
  scores_b : Nat → V
  ids_a : Nat → Nat
  ids_b : Nat → Nat
  selected : Nat → Nat

/-- The lengths of the buffers in bytes. -/
structure QsaLengths where
  scores : Nat
  scores_a : Nat
  scores_b : Nat
  ids_a : Nat
  ids_b : Nat
  selected : Nat

/-- `make_buffer`, for the buffers of the selector. -/
def qsa_lengths : QsaLengths where
  scores := 65536 * 4
  scores_a := 32768 * 4
  scores_b := 32768 * 4
  ids_a := 32768 * 4
  ids_b := 32768 * 4
  selected := 128 * 4

/-- The places of a threadgroup that has sorted its part of a buffer. -/
def sorted_group (scores : Nat → V) (ids : Nat → Nat) (group : Nat) : Nat → Scored V :=
  qsa_bitonic256 fun place => (scores (group * 256 + place), ids (group * 256 + place))

/-- `qsa_top128_first`: what the threadgroup writes for its thread. -/
def qsa_top128_first (scores : Nat → V) (group tid : Nat) : Scored V :=
  sorted_group scores id group (128 + tid)

/-- `qsa_top128_merge`. -/
def qsa_top128_merge (input_scores : Nat → V) (input_ids : Nat → Nat) (input_groups group tid : Nat) :
    Scored V :=
  if input_groups ≤ group * 2 + 1 then (input_scores (group * 256 + tid), input_ids (group * 256 + tid))
  else sorted_group input_scores input_ids group (128 + tid)

/-- What a dispatch of so many threadgroups leaves in a buffer. -/
def dispatched {β : Type} (groups : Nat) (output : Nat → Nat → β) (buffer : Nat → β) : Nat → β :=
  fun place => if place < groups * 128 then output (place / 128) (place % 128) else buffer place

/-- The first pass, into `scores_a`. -/
def first_pass (groups : Nat) (scores : Nat → V) (buffers : QsaBuffers V) : QsaBuffers V :=
  let output := qsa_top128_first scores
  let ids := dispatched groups fun group tid => (output group tid).2
  let buffers := { buffers with
    scores_a := dispatched groups (fun group tid => (output group tid).1) buffers.scores_a }
  if groups = 1 then { buffers with selected := ids buffers.selected }
  else { buffers with ids_a := ids buffers.ids_a }

/-- The body of the loop: a merge pass from one pair of buffers to the other. -/
def merge_pass (groups : Nat) (source_a : Bool) (buffers : QsaBuffers V) : QsaBuffers V :=
  let output_groups := (groups + 1) / 2
  let output := qsa_top128_merge (if source_a then buffers.scores_a else buffers.scores_b)
    (if source_a then buffers.ids_a else buffers.ids_b) groups
  let scores := dispatched output_groups fun group tid => (output group tid).1
  let ids := dispatched output_groups fun group tid => (output group tid).2
  let buffers := if source_a then { buffers with scores_b := scores buffers.scores_b }
    else { buffers with scores_a := scores buffers.scores_a }
  if output_groups = 1 then { buffers with selected := ids buffers.selected }
  else if source_a then { buffers with ids_b := ids buffers.ids_b }
  else { buffers with ids_a := ids buffers.ids_a }

/-- The loop over the passes. -/
def merge_passes (groups : Nat) (source_a : Bool) (buffers : QsaBuffers V) : QsaBuffers V :=
  if 1 < groups then merge_passes ((groups + 1) / 2) (!source_a) (merge_pass groups source_a buffers)
  else buffers
termination_by groups
decreasing_by omega

/-- `encode_qsa_top128`. -/
def encode_qsa_top128 (lengths : QsaLengths) (scores : Nat → V) (padded_count : Nat)
    (buffers : QsaBuffers V) : Except String (QsaBuffers V) :=
  if padded_count < 256 ∨ 65536 < padded_count ∨ padded_count % 256 ≠ 0 then
    .error "QSA selector padding must be 256..65536 in groups of 256"
  else
    let groups := padded_count / 256
    if lengths.scores < padded_count * 4 ∨ lengths.scores_a < groups * 128 * 4 ∨
        lengths.scores_b < groups * 128 * 4 ∨ lengths.ids_a < groups * 128 * 4 ∨
        lengths.ids_b < groups * 128 * 4 ∨ lengths.selected < 128 * 4 then
      .error "QSA selector buffer is too small"
    else
      .ok (merge_passes groups true (first_pass groups scores buffers))

/-- `qsa_score_blocks`. `score` is what the kernel computes for a block, `⊥` is `-INFINITY`. -/
def qsa_score_blocks [OrderBot V] (score : Nat → V) (block_count padded_count : Nat)
    (scores : Nat → V) : Nat → V := fun block =>
  if padded_count ≤ block then scores block
  else if block_count ≤ block then ⊥
  else score block

/-- `encode_qsa_selection`: the buffers and `selected_count`. -/
def encode_qsa_selection [OrderBot V] (score : Nat → V) (block_count : Nat) (qsa_scores : Nat → V)
    (buffers : QsaBuffers V) : Except String (QsaBuffers V × Nat) :=
  if block_count ≤ 128 then
    let ids := fun index => if index < block_count then index else buffers.selected index
    .ok ({ buffers with selected := ids }, block_count * 4)
  else
    let padded := (block_count + 255) / 256 * 256
    let scores := qsa_score_blocks score block_count padded qsa_scores
    (encode_qsa_top128 qsa_lengths scores padded buffers).map fun buffers => (buffers, 512)

end Kernels

/-! ### The threads -/

section Threads

variable {V : Type} [LinearOrder V] {stride width tid tid' place threads : Nat}
  {places places' : Nat → Scored V}

/-- The thread of a place. -/
def thread_of (stride place : Nat) : Nat := place / (stride * 2) * stride + place % stride

theorem left_of_eq (h : place < stride) (pair : Nat) :
    left_of stride (pair * stride + place) = pair * (stride * 2) + place := by
  rw [left_of, Nat.mul_comm pair stride, Nat.mul_add_div (by omega), Nat.div_eq_of_lt h,
    Nat.add_zero, Nat.mul_add_mod, Nat.mod_eq_of_lt h]

theorem thread_of_left (hstride : 0 < stride) (tid : Nat) :
    thread_of stride (left_of stride tid) = tid := by
  have hmod := Nat.mod_lt tid hstride
  have hdiv : left_of stride tid / (stride * 2) = tid / stride := by
    rw [left_of, Nat.mul_comm (tid / stride), Nat.mul_add_div (by omega),
      Nat.div_eq_of_lt (show tid % stride < stride * 2 by omega), Nat.add_zero]
  have hrest : left_of stride tid % stride = tid % stride := by
    rw [left_of, ← Nat.mul_assoc, Nat.mul_comm (tid / stride), Nat.mul_assoc, Nat.mul_add_mod,
      Nat.mod_mod]
  rw [thread_of, hdiv, hrest, Nat.mul_comm]
  exact Nat.div_add_mod tid stride

theorem thread_of_right (hstride : 0 < stride) (tid : Nat) :
    thread_of stride (left_of stride tid + stride) = tid := by
  have hmod := Nat.mod_lt tid hstride
  have hdiv : (left_of stride tid + stride) / (stride * 2) = tid / stride := by
    rw [left_of, Nat.mul_comm (tid / stride), Nat.add_assoc, Nat.mul_add_div (by omega),
      Nat.div_eq_of_lt (show tid % stride + stride < stride * 2 by omega), Nat.add_zero]
  have hrest : (left_of stride tid + stride) % stride = tid % stride := by
    rw [Nat.add_mod_right, left_of, ← Nat.mul_assoc, Nat.mul_comm (tid / stride), Nat.mul_assoc,
      Nat.mul_add_mod, Nat.mod_mod]
  rw [thread_of, hdiv, hrest, Nat.mul_comm]
  exact Nat.div_add_mod tid stride

/-- A thread leaves the places of the others. -/
theorem exchange_of_ne (hstride : 0 < stride) (hne : thread_of stride place ≠ tid) :
    exchange width stride places tid place = places place := by
  have hleft : place ≠ left_of stride tid := by
    rintro rfl
    exact hne (thread_of_left hstride tid)
  have hright : place ≠ left_of stride tid + stride := by
    rintro rfl
    exact hne (thread_of_right hstride tid)
  rw [exchange]
  generalize (if left_of stride tid &&& width = 0 then _ else _ : Bool) = swap
  cases swap with
  | false => rfl
  | true => exact (if_neg hleft).trans (if_neg hright)

/-- A thread reads its own places only. -/
theorem exchange_congr (hleft : places (left_of stride tid) = places' (left_of stride tid))
    (hright : places (left_of stride tid + stride) = places' (left_of stride tid + stride))
    (hplace : places place = places' place) :
    exchange width stride places tid place = exchange width stride places' tid place := by
  rw [exchange, exchange, hleft, hright]
  generalize (if left_of stride tid &&& width = 0 then _ else _ : Bool) = swap
  cases swap with
  | false => exact hplace
  | true =>
    change (if place = left_of stride tid then _ else if _ then _ else places place) =
      if place = left_of stride tid then _ else if _ then _ else places' place
    rw [hplace]

/-- **All threads at once**: a place is what its own thread leaves there. -/
theorem exchange_all_apply (hstride : 0 < stride) (place : Nat) :
    exchange_all threads width stride places place =
      if thread_of stride place < threads
        then exchange width stride places (thread_of stride place) place else places place := by
  induction threads generalizing place with
  | zero => rfl
  | succ threads ih =>
    have hstep : exchange_all (threads + 1) width stride places place =
        exchange width stride (exchange_all threads width stride places) threads place := by
      rw [exchange_all, List.range_succ, List.foldl_append]
      rfl
    rw [hstep]
    by_cases hthread : thread_of stride place = threads
    · rw [if_pos (by omega), hthread]
      refine exchange_congr ?_ ?_ ?_
      · rw [ih, thread_of_left hstride, if_neg (lt_irrefl _)]
      · rw [ih, thread_of_right hstride, if_neg (lt_irrefl _)]
      · rw [ih, hthread, if_neg (lt_irrefl _)]
    · rw [exchange_of_ne hstride hthread, ih]
      by_cases hlt : thread_of stride place < threads
      · rw [if_pos hlt, if_pos (by omega)]
      · rw [if_neg hlt, if_neg (by omega)]

end Threads

/-! ### The network of the kernel -/

section Blocks

variable {V : Type}

/-- The aligned block of places with a number. -/
def places_of (places : Nat → Scored V) (size number : Nat) : List (Scored V) :=
  (List.range size).map fun place => places (number * size + place)

@[simp] theorem length_places_of (places : Nat → Scored V) (size number : Nat) :
    (places_of places size number).length = size := by
  rw [places_of, List.length_map, List.length_range]

theorem getElem_places_of {places : Nat → Scored V} {size number place : Nat}
    (h : place < (places_of places size number).length) :
    (places_of places size number)[place] = places (number * size + place) := by
  simp [places_of]

/-- A block is its two halves. -/
theorem places_of_halves (places : Nat → Scored V) (size number : Nat) :
    places_of places (size + size) number =
      places_of places size (2 * number) ++ places_of places size (2 * number + 1) := by
  rw [places_of, List.range_add, List.map_append, List.map_map]
  refine congrArg₂ _ (List.map_congr_left fun place _ => congrArg places ?_)
    (List.map_congr_left fun place _ => congrArg places ?_)
  · ring
  · simp only []
    ring

end Blocks

section Network

variable {V : Type} [LinearOrder V] {places : Nat → Scored V} {threads stage levels number : Nat}

/-- The compare-exchange of a block of places. -/
def lower_of (ascending : Bool) : Scored V → Scored V → Scored V :=
  if ascending then Bitonic.keyLow Prod.fst else Bitonic.keyUpper Prod.fst

def higher_of (ascending : Bool) : Scored V → Scored V → Scored V :=
  if ascending then Bitonic.keyHigh Prod.fst else Bitonic.keyLower Prod.fst

/-- What a thread leaves in its pair. -/
theorem exchange_apply {width stride tid : Nat} {ascending : Bool} (hstride : 0 < stride)
    (hascending : left_of stride tid &&& width = 0 ↔ ascending = true) :
    exchange width stride places tid (left_of stride tid) =
        lower_of ascending (places (left_of stride tid)) (places (left_of stride tid + stride)) ∧
      exchange width stride places tid (left_of stride tid + stride) =
        higher_of ascending (places (left_of stride tid)) (places (left_of stride tid + stride)) := by
  rw [exchange]
  cases ascending with
  | true =>
    rw [if_pos (hascending.mpr rfl), lower_of, if_pos rfl, higher_of, if_pos rfl,
      Bitonic.keyLow, Bitonic.keyHigh]
    by_cases hswap : (places (left_of stride tid + stride)).1 < (places (left_of stride tid)).1
    · simp [hswap, hstride.ne']
    · simp [hswap]
  | false =>
    rw [if_neg (fun hc => Bool.false_ne_true (hascending.mp hc)), lower_of,
      if_neg Bool.false_ne_true, higher_of, if_neg Bool.false_ne_true,
      Bitonic.keyUpper, Bitonic.keyLower]
    by_cases hswap : (places (left_of stride tid)).1 < (places (left_of stride tid + stride)).1
    · simp [hswap, hstride.ne']
    · simp [hswap]

/-- The direction that the kernel reads off a place is that of the place's block. -/
theorem and_two_pow_eq_zero (place : Nat) : place &&& 2 ^ stage = 0 ↔ place / 2 ^ stage % 2 = 0 := by
  rw [Nat.and_two_pow, Nat.testBit_eq_decide_div_mod_eq]
  have hpos : 2 ^ stage ≠ 0 := (Nat.two_pow_pos stage).ne'
  rcases Nat.mod_two_eq_zero_or_one (place / 2 ^ stage) with h | h <;> simp [h]

/-- The block of a pair of places. -/
theorem direction_of (h : levels < stage) {place : Nat} (hplace : place < 2 ^ levels) :
    left_of (2 ^ levels) (number * 2 ^ levels + place) &&& 2 ^ stage = 0 ↔
      decide (number / 2 ^ (stage - levels - 1) % 2 = 0) = true := by
  have hstage : 2 ^ stage = 2 ^ levels * 2 * 2 ^ (stage - levels - 1) := by
    rw [← Nat.pow_succ, ← Nat.pow_add]
    congr 1
    omega
  rw [and_two_pow_eq_zero, left_of_eq hplace, hstage, ← Nat.div_div_eq_div_mul,
    Nat.mul_comm number, Nat.mul_add_div (by omega),
    Nat.div_eq_of_lt (show place < 2 ^ levels * 2 by omega), Nat.add_zero, decide_eq_true_iff]

/-- **One pass of the inner loop**: the halves of each block are compared place by place. -/
theorem places_exchange_all (h : levels < stage) (hthreads : (number + 1) * 2 ^ levels ≤ threads) :
    places_of (exchange_all threads (2 ^ stage) (2 ^ levels) places) (2 ^ levels) (2 * number) =
        List.zipWith (lower_of (decide (number / 2 ^ (stage - levels - 1) % 2 = 0)))
          (places_of places (2 ^ levels) (2 * number))
          (places_of places (2 ^ levels) (2 * number + 1)) ∧
      places_of (exchange_all threads (2 ^ stage) (2 ^ levels) places) (2 ^ levels)
          (2 * number + 1) =
        List.zipWith (higher_of (decide (number / 2 ^ (stage - levels - 1) % 2 = 0)))
          (places_of places (2 ^ levels) (2 * number))
          (places_of places (2 ^ levels) (2 * number + 1)) := by
  have hpos := Nat.two_pow_pos levels
  have hbound : (number + 1) * 2 ^ levels = number * 2 ^ levels + 2 ^ levels := by ring
  have hpair (place : Nat) (hplace : place < 2 ^ levels) :
      2 * number * 2 ^ levels + place = left_of (2 ^ levels) (number * 2 ^ levels + place) ∧
        (2 * number + 1) * 2 ^ levels + place =
          left_of (2 ^ levels) (number * 2 ^ levels + place) + 2 ^ levels := by
    rw [left_of_eq hplace]
    exact ⟨by ring, by ring⟩
  constructor
  -- the place of the lower half, and that of the higher one, belong to one thread
  · refine List.ext_getElem (by simp) fun place hlt hlt' => ?_
    have hplace : place < 2 ^ levels := by simpa using hlt
    rw [getElem_places_of, List.getElem_zipWith, getElem_places_of, getElem_places_of,
      (hpair place hplace).1, (hpair place hplace).2, exchange_all_apply hpos,
      thread_of_left hpos, if_pos (by omega)]
    exact (exchange_apply hpos (direction_of h hplace)).1
  · refine List.ext_getElem (by simp) fun place hlt hlt' => ?_
    have hplace : place < 2 ^ levels := by simpa using hlt
    rw [getElem_places_of, List.getElem_zipWith, getElem_places_of, getElem_places_of,
      (hpair place hplace).1, (hpair place hplace).2, exchange_all_apply hpos,
      thread_of_right hpos, if_pos (by omega)]
    exact (exchange_apply hpos (direction_of h hplace)).2

/-- **The inner loop merges each block.** -/
theorem places_strides (h : levels ≤ stage) (hthreads : (number + 1) * 2 ^ levels ≤ 2 * threads) :
    places_of (strides threads stage levels places) (2 ^ levels) number =
      Bitonic.merge (lower_of (decide (number / 2 ^ (stage - levels) % 2 = 0)))
        (higher_of (decide (number / 2 ^ (stage - levels) % 2 = 0))) levels
        (places_of places (2 ^ levels) number) := by
  induction levels generalizing places number with
  | zero => rfl
  | succ levels ih =>
    have hhalf : 2 ^ (levels + 1) = 2 ^ levels + 2 ^ levels := by ring
    have hpass := @places_exchange_all V _ places threads stage levels number h (by
      rw [hhalf] at hthreads
      nlinarith)
    have hstage : stage - levels = stage - (levels + 1) + 1 := by omega
    -- both halves go on in the direction of the block
    have hlow : 2 * number / 2 ^ (stage - levels) = number / 2 ^ (stage - (levels + 1)) := by
      rw [hstage, Nat.pow_succ, Nat.mul_comm _ 2, ← Nat.div_div_eq_div_mul,
        Nat.mul_div_cancel_left _ Nat.two_pos]
    have hhigh : (2 * number + 1) / 2 ^ (stage - levels) = number / 2 ^ (stage - (levels + 1)) := by
      rw [hstage, Nat.pow_succ, Nat.mul_comm _ 2, ← Nat.div_div_eq_div_mul]
      congr 1
      omega
    have hbound₁ : (2 * number + 1) * 2 ^ levels ≤ 2 * threads := by
      rw [hhalf] at hthreads
      nlinarith [Nat.two_pow_pos levels]
    have hbound₂ : (2 * number + 1 + 1) * 2 ^ levels ≤ 2 * threads := by
      rw [hhalf] at hthreads
      nlinarith
    rw [strides, hhalf, places_of_halves, places_of_halves, ih (Nat.le_of_succ_le h) hbound₁,
      ih (Nat.le_of_succ_le h) hbound₂, hlow, hhigh, hpass.1, hpass.2, Bitonic.merge,
      List.take_left' (length_places_of _ _ _), List.drop_left' (length_places_of _ _ _)]
    rfl

/-- **The outer loop is the network**, in each block of places. After the stages up to a size the
places of a block are its own ones sorted, in one direction in the even blocks and in the other in
the odd ones, and no block has looked at another. -/
theorem places_stages (hthreads : (number + 1) * 2 ^ stage ≤ 2 * threads) :
    places_of (stages threads stage places) (2 ^ stage) number =
      Bitonic.sort (Bitonic.keyLow Prod.fst) (Bitonic.keyHigh Prod.fst)
        (Bitonic.keyUpper Prod.fst) (Bitonic.keyLower Prod.fst) (decide (number % 2 = 0)) stage
        (places_of places (2 ^ stage) number) := by
  induction stage generalizing number with
  | zero => rfl
  | succ stage ih =>
    have hhalf : 2 ^ (stage + 1) = 2 ^ stage + 2 ^ stage := by ring
    have hbound₁ : (2 * number + 1) * 2 ^ stage ≤ 2 * threads := by
      rw [hhalf] at hthreads
      nlinarith [Nat.two_pow_pos stage]
    have hbound₂ : (2 * number + 1 + 1) * 2 ^ stage ≤ 2 * threads := by
      rw [hhalf] at hthreads
      nlinarith
    have heven : decide (2 * number % 2 = 0) = true := by simp
    have hodd : decide ((2 * number + 1) % 2 = 0) = false := by simp
    rw [stages, places_strides le_rfl hthreads, Nat.sub_self, Nat.pow_zero, Nat.div_one, hhalf,
      places_of_halves, places_of_halves, ih hbound₁, ih hbound₂, heven, hodd, Bitonic.sort,
      List.take_left' (length_places_of _ _ _), List.drop_left' (length_places_of _ _ _)]
    rfl

/-- **`qsa_bitonic256` sorts.** -/
theorem qsa_bitonic256_sorts (places : Nat → Scored V) :
    (places_of (qsa_bitonic256 places) 256 0).Perm (places_of places 256 0) ∧
      (places_of (qsa_bitonic256 places) 256 0).Pairwise fun a b => a.1 ≤ b.1 := by
  have hnetwork := @places_stages V _ places 128 8 0 (by norm_num)
  rw [qsa_bitonic256, show 256 = 2 ^ 8 by norm_num, hnetwork]
  exact ⟨Bitonic.perm_sortBy _ (length_places_of _ _ _),
    Bitonic.pairwise_sortBy _ (length_places_of _ _ _)⟩

end Network

/-! ### A threadgroup -/

section Group

variable {V : Type} [LinearOrder V] {score : Nat → V} {part part₁ part₂ : Finset Nat}
  {entries entries' : List (Scored V)} {scores : Nat → V} {ids : Nat → Nat} {group groups tid : Nat}

/-- What a group of a buffer holds: the best 128 blocks of its part, with their scores. -/
structure Held (score : Nat → V) (part : Finset Nat) (entries : List (Scored V)) : Prop where
  scored : ∀ entry ∈ entries, entry.1 = score entry.2
  nodup : (entries.map Prod.snd).Nodup
  top : Selection.IsTop score 128 part (entries.map Prod.snd).toFinset

/-- The upper half of sorted entries. -/
theorem Held.of_sorted (hscored : ∀ entry ∈ entries, entry.1 = score entry.2)
    (hnodup : (entries.map Prod.snd).Nodup) (hlength : entries.length = 256)
    (hsorted : entries.Pairwise fun a b => a.1 ≤ b.1) :
    Held score (entries.map Prod.snd).toFinset (entries.drop 128) where
  scored entry hentry := hscored entry (List.mem_of_mem_drop hentry)
  nodup := by
    rw [List.map_drop]
    exact hnodup.sublist (List.drop_sublist _ _)
  top := by
    rw [List.map_drop]
    refine Selection.isTop_drop hnodup (List.pairwise_map.mpr ?_) (by simp [hlength])
    refine hsorted.imp_of_mem fun {a b} ha hb hle => ?_
    rw [← hscored a ha, ← hscored b hb]
    exact hle

/-- The pairs of a buffer. -/
def paired (scores : Nat → V) (ids : Nat → Nat) (place : Nat) : Scored V := (scores place, ids place)

/-- The source of a threadgroup. -/
def source_of (scores : Nat → V) (ids : Nat → Nat) (group : Nat) : List (Scored V) :=
  places_of (paired scores ids) 256 group

/-- What a threadgroup that sorts publishes. -/
theorem held_sorted_group (hscored : ∀ entry ∈ source_of scores ids group, entry.1 = score entry.2)
    (hnodup : ((source_of scores ids group).map Prod.snd).Nodup) :
    Held score ((source_of scores ids group).map Prod.snd).toFinset
      ((List.range 128).map fun tid => sorted_group scores ids group (128 + tid)) := by
  obtain ⟨hperm, hsorted⟩ := qsa_bitonic256_sorts fun place => paired scores ids (group * 256 + place)
  have hsource : places_of (fun place => paired scores ids (group * 256 + place)) 256 0 =
      source_of scores ids group := by simp [source_of, places_of]
  rw [hsource] at hperm
  have hheld := @Held.of_sorted V _ score _
    (fun entry hentry => hscored entry (hperm.mem_iff.mp hentry))
    ((hperm.map Prod.snd).nodup_iff.mpr hnodup) (length_places_of _ _ _) hsorted
  rw [List.toFinset_eq_of_perm _ _ (hperm.map Prod.snd)] at hheld
  have hdrop : (places_of (sorted_group scores ids group) 256 0).drop 128 =
      (List.range 128).map fun tid => sorted_group scores ids group (128 + tid) := by
    refine List.ext_getElem (by simp) fun place hlt hlt' => ?_
    rw [List.getElem_drop, getElem_places_of]
    simp
  rw [← hdrop]
  exact hheld

end Group

/-! ### A pass -/

section Pass

variable {V : Type} {score : Nat → V} {scores : Nat → V} {ids : Nat → Nat}
  {padded_count width group groups tid : Nat}

/-- The blocks that a group stands for. -/
def part_of (padded_count width group : Nat) : Finset Nat :=
  (Finset.range padded_count).filter fun block => block / width = group

theorem dispatched_apply {β : Type} {output : Nat → Nat → β} {buffer : Nat → β}
    (hgroup : group < groups) (htid : tid < 128) :
    dispatched groups output buffer (group * 128 + tid) = output group tid := by
  have hdiv : (group * 128 + tid) / 128 = group := by omega
  have hmod : (group * 128 + tid) % 128 = tid := by omega
  rw [dispatched, if_pos (by omega), hdiv, hmod]

/-- The groups that a dispatch leaves in the two buffers it writes. -/
theorem places_of_dispatched (output : Nat → Nat → Scored V) (scores : Nat → V) (ids : Nat → Nat)
    (hgroup : group < groups) :
    places_of (paired (dispatched groups (fun group tid => (output group tid).1) scores)
      (dispatched groups (fun group tid => (output group tid).2) ids)) 128 group =
      (List.range 128).map (output group) := by
  refine List.map_congr_left fun tid htid => ?_
  have hlt := List.mem_range.mp htid
  rw [paired, dispatched_apply hgroup hlt, dispatched_apply hgroup hlt]

variable [LinearOrder V]

/-- **The invariant of the passes**: each group of the buffers holds the best of its part. -/
def Level (score : Nat → V) (padded_count width groups : Nat) (scores : Nat → V) (ids : Nat → Nat) :
    Prop :=
  ∀ group < groups,
    Held score (part_of padded_count width group) (places_of (paired scores ids) 128 group)

/-- The blocks of a group of 256. -/
theorem part_of_256 (h : (group + 1) * 256 ≤ padded_count) :
    ((List.range 256).map fun place => group * 256 + place).toFinset =
      part_of padded_count 256 group := by
  ext block
  simp only [part_of, List.mem_toFinset, List.mem_map, List.mem_range, Finset.mem_filter,
    Finset.mem_range]
  constructor
  · rintro ⟨place, hplace, rfl⟩
    omega
  · rintro ⟨-, rfl⟩
    exact ⟨block % 256, by omega, by omega⟩

/-- **The first pass.** -/
theorem level_first (scores : Nat → V) (ids : Nat → Nat) (hpadded : padded_count = groups * 256) :
    Level score padded_count 256 groups
      (dispatched groups (fun group tid => (qsa_top128_first score group tid).1) scores)
      (dispatched groups (fun group tid => (qsa_top128_first score group tid).2) ids) := by
  intro group hgroup
  rw [places_of_dispatched (qsa_top128_first score) scores ids hgroup]
  have hids : (source_of score id group).map Prod.snd =
      (List.range 256).map fun place => group * 256 + place := by
    rw [source_of, places_of, List.map_map]
    rfl
  have hheld : Held score ((source_of score id group).map Prod.snd).toFinset
      ((List.range 128).map fun tid => sorted_group score id group (128 + tid)) := by
    refine held_sorted_group ?_ ?_
    · intro entry hentry
      obtain ⟨place, -, rfl⟩ := List.mem_map.mp hentry
      rfl
    · rw [hids]
      exact List.nodup_range.map fun a b hab => Nat.add_left_cancel hab
  rw [hids, part_of_256 (show (group + 1) * 256 ≤ padded_count by omega)] at hheld
  exact hheld

/-- A part of double width is two parts. -/
theorem part_of_double (padded_count width group : Nat) :
    part_of padded_count (width * 2) group =
      part_of padded_count width (2 * group) ∪ part_of padded_count width (2 * group + 1) := by
  ext block
  have hdiv : block / (width * 2) = block / width / 2 := (Nat.div_div_eq_div_mul _ _ _).symm
  simp only [part_of, Finset.mem_union, Finset.mem_filter, Finset.mem_range, hdiv]
  constructor
  · rintro ⟨hlt, hgroup⟩
    have : block / width = 2 * group ∨ block / width = 2 * group + 1 := by omega
    exact this.imp (fun h => ⟨hlt, h⟩) fun h => ⟨hlt, h⟩
  · rintro (⟨hlt, h⟩ | ⟨hlt, h⟩)
    · exact ⟨hlt, by omega⟩
    · exact ⟨hlt, by omega⟩

/-- Past the groups there is no part. -/
theorem part_of_eq_empty (hpadded : padded_count ≤ groups * width) (h : groups ≤ group) :
    part_of padded_count width group = ∅ := by
  refine Finset.filter_eq_empty_iff.mpr fun {block} hblock => ?_
  have hlt : block < width * groups := by
    rw [Nat.mul_comm]
    exact lt_of_lt_of_le (Finset.mem_range.mp hblock) hpadded
  have hdiv := Nat.div_lt_of_lt_mul hlt
  omega

/-- Two groups with blocks of their own. -/
theorem Level.nodup (h : Level score padded_count width groups scores ids)
    (hgroup : group * 2 + 1 < groups) : ((source_of scores ids group).map Prod.snd).Nodup := by
  have hleft := h (2 * group) (by omega)
  have hright := h (2 * group + 1) (by omega)
  rw [source_of, show 256 = 128 + 128 by norm_num, places_of_halves, List.map_append]
  refine List.nodup_append.mpr ⟨hleft.nodup, hright.nodup, ?_⟩
  rintro a ha b hb rfl
  have hmem := hleft.top.subset (List.mem_toFinset.mpr ha)
  have hmem' := hright.top.subset (List.mem_toFinset.mpr hb)
  have := (Finset.mem_filter.mp hmem).2
  have := (Finset.mem_filter.mp hmem').2
  omega

/-- **A merge pass.** -/
theorem Level.merge (h : Level score padded_count width groups scores ids)
    (hpadded : padded_count ≤ groups * width) (scores' : Nat → V) (ids' : Nat → Nat) :
    Level score padded_count (width * 2) ((groups + 1) / 2)
      (dispatched ((groups + 1) / 2)
        (fun group tid => (qsa_top128_merge scores ids groups group tid).1) scores')
      (dispatched ((groups + 1) / 2)
        (fun group tid => (qsa_top128_merge scores ids groups group tid).2) ids') := by
  intro group hgroup
  rw [places_of_dispatched (qsa_top128_merge scores ids groups) scores' ids' hgroup, part_of_double]
  have hleft := h (2 * group) (by omega)
  by_cases hlast : groups ≤ group * 2 + 1
  · -- an odd last group is copied
    rw [part_of_eq_empty hpadded (by omega : groups ≤ 2 * group + 1), Finset.union_empty]
    have hcopy : (List.range 128).map (qsa_top128_merge scores ids groups group) =
        places_of (paired scores ids) 128 (2 * group) := by
      refine List.map_congr_left fun tid _ => ?_
      rw [qsa_top128_merge, if_pos hlast, paired, show 2 * group * 128 = group * 256 by omega]
    rw [hcopy]
    exact hleft
  · have hright := h (2 * group + 1) (by omega)
    have hsource : source_of scores ids group =
        places_of (paired scores ids) 128 (2 * group) ++
          places_of (paired scores ids) 128 (2 * group + 1) := by
      rw [source_of, show 256 = 128 + 128 by norm_num, places_of_halves]
    have hscored : ∀ entry ∈ source_of scores ids group, entry.1 = score entry.2 := by
      intro entry hentry
      rw [hsource] at hentry
      rcases List.mem_append.mp hentry with hentry | hentry
      · exact hleft.scored entry hentry
      · exact hright.scored entry hentry
    have hheld := held_sorted_group hscored (h.nodup (by omega))
    have hsorted : (List.range 128).map (qsa_top128_merge scores ids groups group) =
        (List.range 128).map fun tid => sorted_group scores ids group (128 + tid) := by
      refine List.map_congr_left fun tid _ => ?_
      rw [qsa_top128_merge, if_neg hlast]
    rw [hsorted]
    refine ⟨hheld.scored, hheld.nodup, hleft.top.merge hright.top ?_⟩
    have htop := hheld.top
    rw [hsource, List.map_append, List.toFinset_append] at htop
    exact htop

end Pass

/-! ### The selection -/

section Selector

variable {V : Type} [LinearOrder V] {score : Nat → V} {buffers : QsaBuffers V}
  {padded_count width groups : Nat} {source_a : Bool}

/-- The ids that the last pass wrote. -/
def written_ids (groups : Nat) (source_a : Bool) (buffers : QsaBuffers V) : Nat → Nat :=
  if groups = 1 then buffers.selected else if source_a then buffers.ids_a else buffers.ids_b

/-- The scores that the last pass wrote. -/
def written_scores (source_a : Bool) (buffers : QsaBuffers V) : Nat → V :=
  if source_a then buffers.scores_a else buffers.scores_b

/-- The first pass makes the invariant true. -/
theorem level_first_pass (hpadded : padded_count = groups * 256) :
    Level score padded_count 256 groups (written_scores true (first_pass groups score buffers))
      (written_ids groups true (first_pass groups score buffers)) := by
  have hlevel := @level_first V score padded_count groups _ buffers.scores_a
  rw [written_scores, written_ids, first_pass]
  by_cases hone : groups = 1
  · simp only [if_pos hone]
    exact hlevel _ hpadded
  · simp only [if_neg hone]
    exact hlevel _ hpadded

/-- A pass leaves the invariant in the buffers it wrote. -/
theorem level_merge_pass (hgroups : 1 < groups) (hpadded : padded_count ≤ groups * width)
    (h : Level score padded_count width groups (written_scores source_a buffers)
      (written_ids groups source_a buffers)) :
    Level score padded_count (width * 2) ((groups + 1) / 2)
      (written_scores (!source_a) (merge_pass groups source_a buffers))
      (written_ids ((groups + 1) / 2) (!source_a) (merge_pass groups source_a buffers)) := by
  rw [written_ids, if_neg (show groups ≠ 1 by omega)] at h
  have hmerge := h.merge hpadded
  rw [written_scores] at hmerge
  rw [written_scores, written_ids, merge_pass]
  by_cases hone : (groups + 1) / 2 = 1
  · simp only [if_pos hone]
    cases source_a with
    | true => exact hmerge _ _
    | false => exact hmerge _ _
  · simp only [if_neg hone]
    cases source_a with
    | true => exact hmerge _ _
    | false => exact hmerge _ _

/-- **The passes publish the top of all blocks.** -/
theorem merge_passes_top (hgroups : 0 < groups) (hpadded : padded_count ≤ groups * width)
    (h : Level score padded_count width groups (written_scores source_a buffers)
      (written_ids groups source_a buffers)) :
    ∃ (scores : Nat → V) (width : Nat), padded_count ≤ width ∧
      Level score padded_count width 1 scores (merge_passes groups source_a buffers).selected := by
  induction groups using Nat.strong_induction_on generalizing source_a buffers width with
  | _ groups ih =>
    rw [merge_passes]
    by_cases hlt : 1 < groups
    · rw [if_pos hlt]
      have hbound : padded_count ≤ (groups + 1) / 2 * (width * 2) := by
        calc padded_count ≤ groups * width := hpadded
          _ ≤ (groups + 1) / 2 * 2 * width := Nat.mul_le_mul_right _ (by omega)
          _ = (groups + 1) / 2 * (width * 2) := by ring
      exact ih ((groups + 1) / 2) (by omega) (by omega) hbound (level_merge_pass hlt hpadded h)
    · have hone : groups = 1 := by omega
      subst hone
      rw [if_neg hlt]
      rw [written_ids, if_pos rfl] at h
      exact ⟨_, width, by omega, h⟩

/-- The buffers of the selector hold the groups of any admitted padding. -/
theorem qsa_lengths_fit (hhigh : padded_count ≤ 65536) :
    ¬(qsa_lengths.scores < padded_count * 4 ∨
      qsa_lengths.scores_a < padded_count / 256 * 128 * 4 ∨
      qsa_lengths.scores_b < padded_count / 256 * 128 * 4 ∨
      qsa_lengths.ids_a < padded_count / 256 * 128 * 4 ∨
      qsa_lengths.ids_b < padded_count / 256 * 128 * 4 ∨ qsa_lengths.selected < 128 * 4) := by
  simp only [qsa_lengths]
  omega

/-- What `encode_qsa_top128` publishes. -/
theorem encode_qsa_top128_top (score : Nat → V) (buffers : QsaBuffers V)
    (hlow : 256 ≤ padded_count) (hhigh : padded_count ≤ 65536) (hmod : padded_count % 256 = 0) :
    ∃ buffers', encode_qsa_top128 qsa_lengths score padded_count buffers = .ok buffers' ∧
      ((List.range 128).map buffers'.selected).Nodup ∧
      Selection.IsTop score 128 (Finset.range padded_count)
        ((List.range 128).map buffers'.selected).toFinset := by
  have hgroups : padded_count = padded_count / 256 * 256 := by omega
  obtain ⟨scores, width, hwidth, hlevel⟩ := merge_passes_top (by omega) (le_of_eq hgroups)
    (@level_first_pass V _ score buffers padded_count _ hgroups)
  generalize hresult : merge_passes (padded_count / 256) true
    (first_pass (padded_count / 256) score buffers) = result at hlevel
  refine ⟨result, ?_, ?_⟩
  · rw [encode_qsa_top128, if_neg (by omega), ← hresult]
    exact if_neg (qsa_lengths_fit hhigh)
  · have hheld := hlevel 0 Nat.one_pos
    have hids : (places_of (paired scores result.selected) 128 0).map Prod.snd =
        (List.range 128).map result.selected := by
      rw [places_of, List.map_map]
      refine List.map_congr_left fun tid _ => ?_
      simp [paired]
    have hall : part_of padded_count width 0 = Finset.range padded_count := by
      refine Finset.filter_true_of_mem fun block hblock => ?_
      exact Nat.div_eq_of_lt (lt_of_lt_of_le (Finset.mem_range.mp hblock) hwidth)
    have hnodup := hheld.nodup
    have htop := hheld.top
    rw [hids] at hnodup htop
    rw [hall] at htop
    exact ⟨hnodup, htop⟩

/-- **The tournament is exact.** From 129 blocks on the 128 that are published are different, exist,
and have no lower score than any block that is left out; and this for every number of blocks up to
the capacity, whatever the buffers held before. -/
theorem encode_qsa_selection_exact [OrderBot V] (score : Nat → V) (block_count : Nat)
    (qsa_scores : Nat → V) (buffers : QsaBuffers V) (hlow : 129 ≤ block_count)
    (hhigh : block_count ≤ 65536) (hfinite : ∀ block < block_count, ⊥ < score block) :
    ∃ buffers', encode_qsa_selection score block_count qsa_scores buffers = .ok (buffers', 512) ∧
      (∀ i < 128, ∀ j < 128, buffers'.selected i = buffers'.selected j → i = j) ∧
      (∀ i < 128, buffers'.selected i < block_count) ∧
      ∀ block < block_count, (∀ i < 128, buffers'.selected i ≠ block) →
        ∀ i < 128, score block ≤ score (buffers'.selected i) := by
  have hpadded : block_count ≤ (block_count + 255) / 256 * 256 := by omega
  obtain ⟨buffers', hrun, hnodup, htop⟩ := @encode_qsa_top128_top V _ ((block_count + 255) / 256 * 256)
    (qsa_score_blocks score block_count ((block_count + 255) / 256 * 256) qsa_scores) buffers
    (by omega) (by omega) (by omega)
  have hmem {i : Nat} (hi : i < 128) :
      buffers'.selected i ∈ ((List.range 128).map buffers'.selected).toFinset :=
    List.mem_toFinset.mpr (List.mem_map_of_mem (List.mem_range.mpr hi))
  have hscore {block : Nat} (hblock : block < block_count) :
      qsa_score_blocks score block_count ((block_count + 255) / 256 * 256) qsa_scores block =
        score block := by
    rw [qsa_score_blocks, if_neg (by omega), if_neg (by omega)]
  -- one of the 129 real blocks is left out, and it scores above the padding
  have hreal (i : Nat) (hi : i < 128) : buffers'.selected i < block_count := by
    by_contra hge
    obtain ⟨block, hblock, hle⟩ := htop.exists_le
      (Finset.range_subset_range.mpr hpadded) (by rw [Finset.card_range]; omega) (hmem hi)
    have hlt := Finset.mem_range.mp (htop.subset (hmem hi))
    rw [hscore (Finset.mem_range.mp hblock)] at hle
    rw [qsa_score_blocks, if_neg (by omega), if_pos (by omega)] at hle
    exact absurd (hfinite block (Finset.mem_range.mp hblock)) (not_lt_of_ge hle)
  refine ⟨buffers', ?_, ?_, hreal, ?_⟩
  · rw [encode_qsa_selection, if_neg (by omega)]
    simp only [hrun]
    rfl
  · intro i hi j hj heq
    have hinj := List.inj_on_of_nodup_map hnodup
    exact hinj (List.mem_range.mpr hi) (List.mem_range.mpr hj) heq
  · intro block hblock hnot i hi
    have hout : block ∉ ((List.range 128).map buffers'.selected).toFinset := by
      rw [List.mem_toFinset, List.mem_map]
      rintro ⟨j, hj, heq⟩
      exact hnot j (List.mem_range.mp hj) heq
    have hle := htop.best block (Finset.mem_range.mpr (by omega)) hout _ (hmem hi)
    rw [hscore hblock, hscore (hreal i hi)] at hle
    exact hle

/-- Three hundred blocks that score the more the older they are. -/
theorem encode_qsa_selection_exact_oldest :
    ∃ buffers', encode_qsa_selection (fun block => 300 - block) 300 (fun _ => 0)
        ⟨fun _ => 0, fun _ => 0, fun _ => 0, fun _ => 0, fun _ => 0⟩ = .ok (buffers', 512) ∧
      ∀ i < 128, buffers'.selected i < 300 := by
  obtain ⟨buffers', hrun, -, hreal, -⟩ := encode_qsa_selection_exact (fun block => 300 - block) 300
    (fun _ => 0) ⟨fun _ => 0, fun _ => 0, fun _ => 0, fun _ => 0, fun _ => 0⟩ (by decide) (by decide)
    (fun block hblock => Nat.sub_pos_of_lt hblock)
  exact ⟨buffers', hrun, hreal⟩

end Selector

end Qwen38
