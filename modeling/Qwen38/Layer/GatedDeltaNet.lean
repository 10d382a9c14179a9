import Mathlib.Algebra.BigOperators.Intervals
import Mathlib.Algebra.BigOperators.Ring.Finset
import Mathlib.Tactic.Ring
import Qwen38.Layer.DecoderState
import Qwen38.Lib.Except
import Qwen38.Lib.Window

/-!
# The gated delta net

A linear attention keeps the last three rows of its convolution and, for each of its heads,
a matrix that every row changes by the gated delta rule. A decode step takes one row; a
verification takes many and gives the state after each of them, either in full or, for the
rows before the last, as the state before all of them with the inputs to replay; a prefill
takes many and gives the last state. Three of these loops are kernels, with a sum over the
lanes of a SIMD group where the graph sums over the key dimension, and one of them reads
the keys before they are repeated over the value heads.

Every lane has `DK / 32` entries of a key. When 32 does not divide the key dimension, the
entries behind the last lane's are not read, and not written in the kernel's new state. Only
the prefill checks that.

Numbers are those of a commutative ring, so that all of these are exact. What is computed
row by row before and after the recurrence is a parameter.
-/

namespace Qwen38

open Pipeline Window

/-- A row of numbers, by head and index. -/
abbrev Row (K : Type) := Nat → Nat → K

/-- A tensor, as the list of its rows; of a recurrent state, the matrices of the heads. -/
abbrev Tensor (K : Type) := List (Row K)

/-- The state of a linear attention. -/
abbrev DeltaState (K : Type) := GatedDeltaNetState (Tensor K) (Tensor K)

/-- The environment variables that choose between graphs and kernels. -/
structure DeltaFlags where
  metal_verify : Bool
  compact_rollback : Bool
  metal_prefill : Bool

/-- What `GatedDeltaNet` is made of. -/
structure GatedDeltaNet (K : Type) where
  key_head_count_ : Nat
  value_head_count_ : Nat
  key_head_dimension_ : Nat
  /-- What the memory of a kernel's new state holds where the kernel does not write it. -/
  unwritten : Tensor K
  qkv_projection_ : Row K → Row K
  /-- The convolution over four rows, and its activation. -/
  convolve : List (Row K) → Row K
  /-- The normalised and scaled query of a convolved row. -/
  query : Row K → Row K
  key : Row K → Row K
  value : Row K → Row K
  /-- The update gate of an input row. -/
  beta : Row K → Row K
  /-- The decay of an input row. -/
  decay : Row K → Row K
  z_projection_ : Row K → Row K
  /-- The norm, the output gate and the output projection. -/
  output : Row K → Row K → Row K

namespace GatedDeltaNet

variable {K : Type} [CommRing K] (gdn : GatedDeltaNet K)

/-! ### The recurrence -/

/-- `repeat_axis` over the heads of a row. -/
def repeat_axis (repetition : Nat) (row : Row K) : Row K := fun head => row (head / repetition)

/-- How many value heads share a key head. -/
def repetition : Nat := gdn.value_head_count_ / gdn.key_head_count_

/-- The matrix of a head. -/
def matrix (recurrent : Tensor K) (head : Nat) : Nat → Nat → K := recurrent.getD head 0

/-- The gated delta rule, as the graph computes it. -/
def delta_rule (key value decay beta : Row K) (recurrent : Tensor K) : Tensor K :=
  (List.range gdn.value_head_count_).map fun head =>
    let state := fun v k => matrix recurrent head v k * decay head 0
    let recalled := fun v => ∑ k ∈ Finset.range gdn.key_head_dimension_, state v k * key head k
    let delta := fun v => (value head v - recalled v) * beta head 0
    fun v k => state v k + delta v * key head k

/-- What the query reads from the state. -/
def read (query : Row K) (recurrent : Tensor K) : Row K := fun head v =>
  ∑ k ∈ Finset.range gdn.key_head_dimension_, matrix recurrent head v k * query head k

/-- `simd_sum` of what each lane has summed over its entries. -/
def simd_sum (f : Nat → K) : K :=
  ∑ lane ∈ Finset.range 32, ∑ i ∈ Finset.range (gdn.key_head_dimension_ / 32),
    f (lane * (gdn.key_head_dimension_ / 32) + i)

/-- What one token does to the state in `verify_recurrence_bf16_sum` and
`rollback_recurrence_bf16_sum`. -/
def kernel_rule (k_row v_row gate_row beta_row : Row K) (state : Tensor K) : Tensor K :=
  (List.range gdn.value_head_count_).map fun hv_idx dv_idx index =>
    let gated := fun index => matrix state hv_idx dv_idx index * gate_row hv_idx 0
    let recalled := gdn.simd_sum fun index => gated index * k_row hv_idx index
    let residual := v_row hv_idx dv_idx - recalled
    let delta := residual * beta_row hv_idx 0
    gated index + k_row hv_idx index * delta

/-- What the query reads in the kernels. -/
def kernel_read (q_row : Row K) (state : Tensor K) : Row K := fun hv_idx dv_idx =>
  gdn.simd_sum fun index => matrix state hv_idx dv_idx index * q_row hv_idx index

/-- What one token does to the state in `recurrence`, the kernel of the prefill: the keys
are those of the key heads. -/
def prefill_rule (k_row v_row gate_row beta_row : Row K) (state : Tensor K) : Tensor K :=
  (List.range gdn.value_head_count_).map fun hv_idx dv_idx state_index =>
    let hk_idx := hv_idx / (gdn.value_head_count_ / gdn.key_head_count_)
    let gated := fun index => matrix state hv_idx dv_idx index * gate_row hv_idx 0
    let recalled := gdn.simd_sum fun index => gated index * k_row hk_idx index
    let delta := (v_row hv_idx dv_idx - recalled) * beta_row hv_idx 0
    gated state_index + k_row hk_idx state_index * delta

/-- What the query reads in the kernel of the prefill. -/
def prefill_read (q_row : Row K) (state : Tensor K) : Row K := fun hv_idx dv_idx =>
  let hk_idx := hv_idx / (gdn.value_head_count_ / gdn.key_head_count_)
  gdn.simd_sum fun index => matrix state hv_idx dv_idx index * q_row hk_idx index

/-- The state after so many tokens, by a rule for one token. -/
def replay (rule : Row K → Row K → Row K → Row K → Tensor K → Tensor K)
    (key value decay beta : Tensor K) (rows : Nat) (recurrent : Tensor K) : Tensor K :=
  (List.range rows).foldl (fun state token =>
    rule (key.getD token 0) (value.getD token 0) (decay.getD token 0) (beta.getD token 0) state)
    recurrent

/-- The new state of a kernel: the lanes write their entries, and what is behind them in a
key stays as it is in memory. -/
def written (state : Tensor K) : Tensor K :=
  state.mapIdx fun head row v index =>
    if gdn.key_head_dimension_ / 32 * 32 ≤ index ∧ index < gdn.key_head_dimension_ then
      matrix gdn.unwritten head v index
    else row v index

/-- `rollback_recurrence_bf16_sum`. -/
def rollback_recurrence (key value decay beta : Tensor K) (rows : Nat) (state_in : Tensor K) :
    Tensor K :=
  gdn.written (replay gdn.kernel_rule key value decay beta rows state_in)

/-- `verify_recurrence_bf16_sum`: the outputs, and the state after every row or, without
`store_rows`, after the last. -/
def verify_recurrence (query key value decay beta : Tensor K) (rows : Nat) (store_rows : Bool)
    (state_in : Tensor K) : Tensor K × List (Tensor K) :=
  let state_after := fun token => replay gdn.kernel_rule key value decay beta (token + 1) state_in
  ((List.range rows).map fun token => gdn.kernel_read (query.getD token 0) (state_after token),
    if store_rows then (List.range rows).map fun token => gdn.written (state_after token)
    else [gdn.written (state_after (rows - 1))])

/-- `recurrence`: the outputs, and the state after the last row. -/
def prefill_recurrence (query key value decay beta : Tensor K) (rows : Nat)
    (state_in : Tensor K) : Tensor K × Tensor K :=
  let state_after := fun token => replay gdn.prefill_rule key value decay beta token state_in
  ((List.range rows).map fun token =>
      gdn.prefill_read (query.getD token 0) (state_after (token + 1)),
    gdn.written (state_after rows))

/-! ### The steps -/

/-- The convolution state that a step starts from. -/
def convolution_of (state : DeltaState K) : Tensor K :=
  if state.initialized then state.convolution else List.replicate 3 0

/-- The recurrent state that a step starts from. -/
def recurrent_of (state : DeltaState K) : Tensor K :=
  if state.initialized then state.recurrent else List.replicate gdn.value_head_count_ 0

/-- `GatedDeltaNet::materialize_rollback`. -/
def materialize_rollback (state : DeltaState K) : Except String (DeltaState K) :=
  if state.rollback_rows = 0 then .ok state
  else if ¬state.initialized ∨ state.rollback_rows > 64 then
    .error "invalid deferred GatedDeltaNet rollback state"
  else
    .ok { state with
      recurrent := gdn.rollback_recurrence state.rollback_key state.rollback_value
        state.rollback_decay state.rollback_beta state.rollback_rows state.recurrent
      rollback_key := []
      rollback_value := []
      rollback_decay := []
      rollback_beta := []
      rollback_rows := 0 }

/-- `GatedDeltaNet::forward_decode`, behind the rollback. -/
def step (input : Row K) (state : DeltaState K) : Row K × DeltaState K :=
  let qkv := gdn.qkv_projection_ input
  let convolution_input := convolution_of state ++ [qkv]
  let convolved := gdn.convolve convolution_input
  let query := repeat_axis gdn.repetition (gdn.query convolved)
  let key := repeat_axis gdn.repetition (gdn.key convolved)
  let recurrent := gdn.delta_rule key (gdn.value convolved) (gdn.decay input) (gdn.beta input)
    (gdn.recurrent_of state)
  (gdn.output (gdn.read query recurrent) (gdn.z_projection_ input),
    { state with
      convolution := slice 1 4 convolution_input
      recurrent := recurrent
      initialized := true })

/-- `GatedDeltaNet::forward_decode`. -/
def forward_decode (input : Row K) (state : DeltaState K) : Except String (Row K × DeltaState K) :=
  do
    let state ← gdn.materialize_rollback state
    .ok (gdn.step input state)

/-- `GatedDeltaNet::forward_verify`, behind the checks: the rows, and the checkpoints. -/
def verify_rows (flags : DeltaFlags) (input : List (Row K)) (origin : DeltaState K) :
    List (Row K) × List (DeltaState K) :=
  let rows := input.length
  let recurrent := gdn.recurrent_of origin
  let convolution_input := convolution_of origin ++ input.map gdn.qkv_projection_
  let convolved := slide 4 gdn.convolve convolution_input
  let query := convolved.map fun row => repeat_axis gdn.repetition (gdn.query row)
  let key := convolved.map fun row => repeat_axis gdn.repetition (gdn.key row)
  let value := convolved.map gdn.value
  let beta := input.map gdn.beta
  let decay := input.map gdn.decay
  let z := input.map gdn.z_projection_
  if flags.metal_verify then
    let recurrence := gdn.verify_recurrence query key value decay beta rows
      (¬flags.compact_rollback) recurrent
    let checkpoints := (List.range rows).map fun row =>
      let checkpoint : DeltaState K :=
        { (default : DeltaState K) with
          convolution := slice (row + 1) (row + 1 + 3) convolution_input
          initialized := true }
      if flags.compact_rollback ∧ row + 1 ≠ rows then
        { checkpoint with
          recurrent := recurrent
          rollback_key := key
          rollback_value := value
          rollback_decay := decay
          rollback_beta := beta
          rollback_rows := row + 1 }
      else
        let state_row := if flags.compact_rollback then 0 else row
        { checkpoint with recurrent := recurrence.2.getD state_row [] }
    (List.zipWith gdn.output recurrence.1 z, checkpoints)
  else
    let recurrent_after := fun row =>
      replay gdn.delta_rule key value decay beta (row + 1) recurrent
    let outputs := (List.range rows).map fun row =>
      gdn.output (gdn.read (query.getD row 0) (recurrent_after row)) (z.getD row 0)
    let checkpoints := (List.range rows).map fun row =>
      { (default : DeltaState K) with
        convolution := slice (row + 1) (row + 1 + 3) convolution_input
        recurrent := recurrent_after row
        initialized := true }
    (outputs, checkpoints)

/-- `GatedDeltaNet::forward_verify`. -/
def forward_verify (flags : DeltaFlags) (input : List (Row K)) (origin : DeltaState K) :
    Except String (List (Row K) × List (DeltaState K)) := do
  Except.throw_if (origin.rollback_rows ≠ 0)
    "GatedDeltaNet verifier received deferred rollback state"
  Except.throw_if (input.length < 1 ∨ input.length > 64)
    "GatedDeltaNet batch requires shape [1,S,hidden], S=1..64"
  .ok (gdn.verify_rows flags input origin)

/-- `GatedDeltaNet::forward_prefill` with the kernel, behind the checks. -/
def prefill_rows (input : List (Row K)) (state : DeltaState K) : List (Row K) × DeltaState K :=
  let rows := input.length
  let convolution_input := convolution_of state ++ input.map gdn.qkv_projection_
  let convolved := slide 4 gdn.convolve convolution_input
  let recurrence := gdn.prefill_recurrence (convolved.map gdn.query) (convolved.map gdn.key)
    (convolved.map gdn.value) (input.map gdn.decay) (input.map gdn.beta) rows
    (gdn.recurrent_of state)
  (List.zipWith gdn.output recurrence.1 (input.map gdn.z_projection_),
    { state with
      convolution := slice rows (rows + 3) convolution_input
      recurrent := recurrence.2
      initialized := true })

/-- `GatedDeltaNet::forward_prefill`. -/
def forward_prefill (flags : DeltaFlags) (input : List (Row K)) (state : DeltaState K) :
    Except String (List (Row K) × DeltaState K) := do
  let state ← gdn.materialize_rollback state
  Except.throw_if (input.length < 2 ∨ input.length > 2048)
    "GatedDeltaNet prefill requires shape [1,S,hidden], S=2..2048"
  if ¬flags.metal_prefill then do
    let (output, checkpoints) ← gdn.forward_verify flags input state
    .ok (output, checkpoints.getLastD default)
  else do
    Except.throw_if
      (gdn.key_head_dimension_ % 32 ≠ 0 ∨ gdn.value_head_count_ % gdn.key_head_count_ ≠ 0)
      "unsupported GatedDeltaNet Metal prefill geometry"
    .ok (gdn.prefill_rows input state)

end GatedDeltaNet

end Qwen38
