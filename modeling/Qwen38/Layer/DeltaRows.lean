import Qwen38.Layer.GatedDeltaNet

/-!
# Rows of the gated delta net, one by one or together

In exact arithmetic and where the lanes cover the key dimension, the kernels compute the
gated delta rule. So a batch of rows gives the outputs of single steps, and each of its
checkpoints is the state of single steps once its rollback has been replayed
(`Qwen38.GatedDeltaNet.Settled.forward_verify`). The same holds of the rows of a prefill
(`Qwen38.GatedDeltaNet.Settled.forward_prefill`), which checks the key dimension itself.
-/

namespace Qwen38

open Pipeline Window

namespace GatedDeltaNet

variable {K : Type} [CommRing K] (gdn : GatedDeltaNet K)

/-! ### The kernels compute the rule -/

/-- A sum over blocks of one length. -/
theorem sum_blocks (f : Nat → K) (items count : Nat) :
    ∑ lane ∈ Finset.range count, ∑ i ∈ Finset.range items, f (lane * items + i) =
      ∑ k ∈ Finset.range (count * items), f k := by
  induction count with
  | zero => simp
  | succ count ih =>
    rw [Finset.sum_range_succ, ih, Nat.succ_mul, Finset.sum_range_add]

section Lanes

variable {gdn} (hlanes : 32 ∣ gdn.key_head_dimension_)
include hlanes

/-- The lanes cover the key dimension. -/
theorem simd_sum_eq (f : Nat → K) :
    gdn.simd_sum f = ∑ k ∈ Finset.range gdn.key_head_dimension_, f k := by
  rw [simd_sum, sum_blocks, Nat.mul_div_cancel' hlanes]

theorem kernel_rule_eq : gdn.kernel_rule = gdn.delta_rule := by
  funext k_row v_row gate_row beta_row state
  rw [kernel_rule, delta_rule]
  refine List.map_congr_left fun head _ => ?_
  funext v k
  simp only [simd_sum_eq hlanes]
  ring

theorem kernel_read_eq : gdn.kernel_read = gdn.read := by
  funext q_row state head v
  exact simd_sum_eq hlanes _

/-- Nothing of the new state is left as it was in memory. -/
theorem written_eq (state : Tensor K) : gdn.written state = state := by
  have hcover : gdn.key_head_dimension_ / 32 * 32 = gdn.key_head_dimension_ :=
    Nat.div_mul_cancel hlanes
  have hnone : ∀ index, ¬(gdn.key_head_dimension_ / 32 * 32 ≤ index ∧
      index < gdn.key_head_dimension_) := fun index => by omega
  simp only [written, hnone, if_false]
  exact List.ext_getElem (by simp) (by simp)

theorem prefill_rule_eq (k_row v_row gate_row beta_row : Row K) (state : Tensor K) :
    gdn.prefill_rule k_row v_row gate_row beta_row state =
      gdn.delta_rule (repeat_axis gdn.repetition k_row) v_row gate_row beta_row state := by
  rw [prefill_rule, delta_rule]
  refine List.map_congr_left fun head _ => ?_
  funext v k
  simp only [simd_sum_eq hlanes, repeat_axis, repetition]
  ring

theorem prefill_read_eq (q_row : Row K) (state : Tensor K) :
    gdn.prefill_read q_row state = gdn.read (repeat_axis gdn.repetition q_row) state := by
  funext head v
  rw [prefill_read, simd_sum_eq hlanes]
  rfl

end Lanes

/-! ### Replaying rows -/

section Replay

variable (rule : Row K → Row K → Row K → Row K → Tensor K → Tensor K)
  (k v d b : Row K) (key value decay beta : Tensor K) (rows : Nat) (recurrent : Tensor K)

@[simp] theorem replay_zero : replay rule key value decay beta 0 recurrent = recurrent := rfl

/-- The first row, and then the others. -/
theorem replay_cons :
    replay rule (k :: key) (v :: value) (d :: decay) (b :: beta) (rows + 1) recurrent =
      replay rule key value decay beta rows (rule k v d b recurrent) := by
  rw [replay, List.range_succ_eq_map, List.foldl_cons, List.foldl_map]
  rfl

theorem replay_prefill_rule (hlanes : 32 ∣ gdn.key_head_dimension_) :
    replay gdn.prefill_rule key value decay beta rows recurrent =
      replay gdn.delta_rule (key.map (repeat_axis gdn.repetition)) value decay beta rows
        recurrent := by
  have hzero : repeat_axis gdn.repetition (0 : Row K) = 0 := rfl
  have hget : ∀ token, (key.map (repeat_axis gdn.repetition)).getD token 0 =
      repeat_axis gdn.repetition (key.getD token 0) := fun token => by
    rw [List.getD_eq_getElem?_getD, List.getD_eq_getElem?_getD, List.getElem?_map]
    cases key[token]? with
    | none => rfl
    | some row => rfl
  rw [replay, replay]
  refine congrArg (fun f => List.foldl f recurrent (List.range rows)) ?_
  funext state token
  rw [prefill_rule_eq hlanes, hget]

end Replay

/-! ### A batch of rows -/

/-- A state without a rollback to replay, and whose convolution has its three rows. -/
structure Settled (state : DeltaState K) : Prop where
  rollback_rows : state.rollback_rows = 0
  rollback_key : state.rollback_key = []
  rollback_value : state.rollback_value = []
  rollback_decay : state.rollback_decay = []
  rollback_beta : state.rollback_beta = []
  convolution : state.initialized = true → state.convolution.length = 3

omit [CommRing K] in
theorem settled_default : Settled (default : DeltaState K) :=
  ⟨rfl, rfl, rfl, rfl, rfl, fun h => nomatch h⟩

omit [CommRing K] in
/-- Nothing but its convolution and its recurrent state. -/
theorem Settled.eq_of_initialized {state : DeltaState K} (h : Settled state)
    (hinitialized : state.initialized = true) :
    { (default : DeltaState K) with
      convolution := state.convolution
      recurrent := state.recurrent
      initialized := true } = state := by
  obtain ⟨hrows, hkey, hvalue, hdecay, hbeta, -⟩ := h
  cases state
  dsimp only at hrows hkey hvalue hdecay hbeta hinitialized
  subst hrows hkey hvalue hdecay hbeta hinitialized
  rfl

section Batch

variable {gdn} {state : DeltaState K} (x : Row K) (xs : List (Row K))

theorem Settled.length_convolution_of (h : Settled state) : (convolution_of state).length = 3 := by
  rw [convolution_of]
  split
  · next hinitialized => exact h.convolution hinitialized
  · exact List.length_replicate

/-- The convolution state moves on by one row. -/
theorem Settled.convolution_of_step (h : Settled state) :
    convolution_of (gdn.step x state).2 =
      push (convolution_of state) (gdn.qkv_projection_ x) := by
  have hslice := slice_one (convolution_of state) (gdn.qkv_projection_ x) []
  rw [h.length_convolution_of] at hslice
  exact (if_pos rfl).trans hslice

variable (gdn) in
theorem Settled.step (h : Settled state) : Settled (gdn.step x state).2 where
  rollback_rows := h.rollback_rows
  rollback_key := h.rollback_key
  rollback_value := h.rollback_value
  rollback_decay := h.rollback_decay
  rollback_beta := h.rollback_beta
  convolution _ := by
    have hnext : convolution_of (gdn.step x state).2 = (gdn.step x state).2.convolution := if_pos rfl
    rw [← hnext, h.convolution_of_step, length_push, h.length_convolution_of]

variable (gdn) in
/-- The convolved rows of a batch. -/
def convolved_rows (input : List (Row K)) (origin : DeltaState K) : List (Row K) :=
  slide 4 gdn.convolve (convolution_of origin ++ input.map gdn.qkv_projection_)

theorem Settled.convolved_rows_cons (h : Settled state) :
    gdn.convolved_rows (x :: xs) state =
      gdn.convolve (convolution_of state ++ [gdn.qkv_projection_ x]) ::
        gdn.convolved_rows xs (gdn.step x state).2 := by
  have hslide := slide_append gdn.convolve (convolution_of state) (gdn.qkv_projection_ x)
    (xs.map gdn.qkv_projection_)
  rw [h.length_convolution_of] at hslide
  rw [convolved_rows, convolved_rows, h.convolution_of_step]
  exact hslide

variable (gdn) in
/-- The keys of a batch, one for each value head. -/
def key_rows (input : List (Row K)) (origin : DeltaState K) : List (Row K) :=
  (gdn.convolved_rows input origin).map fun row => repeat_axis gdn.repetition (gdn.key row)

variable (gdn) in
/-- The recurrent state after so many rows of a batch. -/
def recurrent_after (input : List (Row K)) (origin : DeltaState K) (rows : Nat) : Tensor K :=
  replay gdn.delta_rule (gdn.key_rows input origin) ((gdn.convolved_rows input origin).map gdn.value)
    (input.map gdn.decay) (input.map gdn.beta) rows (gdn.recurrent_of origin)

variable (gdn) in
/-- The output of a row of a batch. -/
def output_row (input : List (Row K)) (origin : DeltaState K) (row : Nat) : Row K :=
  let query := (gdn.convolved_rows input origin).map fun row =>
    repeat_axis gdn.repetition (gdn.query row)
  gdn.output (gdn.read (query.getD row 0) (gdn.recurrent_after input origin (row + 1)))
    ((input.map gdn.z_projection_).getD row 0)

variable (gdn) in
/-- The state after a row of a batch. -/
def state_row (input : List (Row K)) (origin : DeltaState K) (row : Nat) : DeltaState K :=
  { (default : DeltaState K) with
    convolution := slice (row + 1) (row + 1 + 3)
      (convolution_of origin ++ input.map gdn.qkv_projection_)
    recurrent := gdn.recurrent_after input origin (row + 1)
    initialized := true }

theorem Settled.recurrent_after_succ (h : Settled state) (rows : Nat) :
    gdn.recurrent_after (x :: xs) state (rows + 1) =
      gdn.recurrent_after xs (gdn.step x state).2 rows := by
  rw [recurrent_after, key_rows, h.convolved_rows_cons, List.map_cons, List.map_cons, List.map_cons,
    List.map_cons, replay_cons]
  rfl

theorem Settled.output_row_zero (h : Settled state) :
    gdn.output_row (x :: xs) state 0 = (gdn.step x state).1 := by
  rw [output_row, h.recurrent_after_succ, h.convolved_rows_cons]
  rfl

theorem Settled.output_row_succ (h : Settled state) (row : Nat) :
    gdn.output_row (x :: xs) state (row + 1) = gdn.output_row xs (gdn.step x state).2 row := by
  rw [output_row, h.recurrent_after_succ, h.convolved_rows_cons]
  rfl

theorem Settled.state_row_zero (h : Settled state) :
    gdn.state_row (x :: xs) state 0 = (gdn.step x state).2 := by
  have hslice := slice_one (convolution_of state) (gdn.qkv_projection_ x)
    (xs.map gdn.qkv_projection_)
  rw [h.length_convolution_of, ← h.convolution_of_step] at hslice
  rw [state_row, h.recurrent_after_succ, List.map_cons, hslice]
  exact (h.step gdn x).eq_of_initialized rfl

theorem Settled.state_row_succ (h : Settled state) (row : Nat) :
    gdn.state_row (x :: xs) state (row + 1) = gdn.state_row xs (gdn.step x state).2 row := by
  have hslice := slice_append (convolution_of state) (gdn.qkv_projection_ x) row
    (xs.map gdn.qkv_projection_)
  rw [h.length_convolution_of, ← h.convolution_of_step] at hslice
  rw [state_row, h.recurrent_after_succ, List.map_cons, hslice]
  rfl

variable (gdn) in
/-- **The rows of a batch are single steps**, the outputs as well as the states behind each row. -/
theorem Settled.batch (h : Settled state) :
    ((List.range xs.length).map (gdn.output_row xs state),
        (List.range xs.length).map (gdn.state_row xs state)) =
      checkpoints gdn.step xs state := by
  induction xs generalizing state with
  | nil => rfl
  | cons x xs ih =>
    have hrest := ih (h.step gdn x)
    have houtputs : (List.range xs.length).map (gdn.output_row (x :: xs) state ∘ Nat.succ) =
        (List.range xs.length).map (gdn.output_row xs (gdn.step x state).2) :=
      List.map_congr_left fun row _ => h.output_row_succ x xs row
    have hstates : (List.range xs.length).map (gdn.state_row (x :: xs) state ∘ Nat.succ) =
        (List.range xs.length).map (gdn.state_row xs (gdn.step x state).2) :=
      List.map_congr_left fun row _ => h.state_row_succ x xs row
    rw [List.length_cons, List.range_succ_eq_map, List.map_cons, List.map_cons, List.map_map,
      List.map_map, h.output_row_zero, h.state_row_zero, checkpoints_cons, ← hrest, houtputs,
      hstates]

/-- The outputs of a batch, from rows that come with their gates. -/
theorem zipWith_output (xs : List (Row K)) (f : Nat → Row K) :
    List.zipWith gdn.output ((List.range xs.length).map f) (xs.map gdn.z_projection_) =
      (List.range xs.length).map fun row =>
        gdn.output (f row) ((xs.map gdn.z_projection_).getD row 0) := by
  refine List.ext_getElem (by simp) fun i hi hi' => ?_
  have hlt : i < xs.length := by simpa using hi'
  simp [hlt]

theorem materialize_rollback_of_zero (h : state.rollback_rows = 0) :
    gdn.materialize_rollback state = .ok state := if_pos h

variable (gdn) in
/-- With these flags a batch goes through no kernel whose lanes leave a part of a key out. -/
def Covered (flags : DeltaFlags) : Prop :=
  flags.metal_verify = true → 32 ∣ gdn.key_head_dimension_

variable (state) in
/-- The states that a verification gives after its rows. -/
theorem getElem?_verify_rows {flags : DeltaFlags} (hcovered : gdn.Covered flags) {row : Nat}
    (hrow : row < xs.length) :
    (gdn.verify_rows flags xs state).2[row]? =
      some (if flags.metal_verify ∧ flags.compact_rollback ∧ row + 1 ≠ xs.length then
        { gdn.state_row xs state row with
          recurrent := gdn.recurrent_of state
          rollback_key := gdn.key_rows xs state
          rollback_value := (gdn.convolved_rows xs state).map gdn.value
          rollback_decay := xs.map gdn.decay
          rollback_beta := xs.map gdn.beta
          rollback_rows := row + 1 }
      else gdn.state_row xs state row) := by
  rw [verify_rows]
  cases hverify : flags.metal_verify with
  | false => simp [hrow, state_row, recurrent_after, key_rows, convolved_rows]
  | true =>
    have hlanes := hcovered hverify
    cases hcompact : flags.compact_rollback with
    | false =>
      simp [hrow, state_row, recurrent_after, key_rows, convolved_rows, verify_recurrence,
        kernel_rule_eq hlanes, written_eq hlanes]
    | true =>
      by_cases hlast : row + 1 = xs.length
      · simp [hrow, state_row, recurrent_after, key_rows, convolved_rows, verify_recurrence,
          kernel_rule_eq hlanes, written_eq hlanes, hlast]
        rw [Nat.sub_add_cancel (by omega)]
      · simp [hrow, state_row, recurrent_after, key_rows, convolved_rows, verify_recurrence,
          kernel_rule_eq hlanes, hlast]

theorem fst_verify_rows {flags : DeltaFlags} (hcovered : gdn.Covered flags) :
    (gdn.verify_rows flags xs state).1 = (List.range xs.length).map (gdn.output_row xs state) := by
  rw [verify_rows]
  cases hverify : flags.metal_verify with
  | false => rfl
  | true =>
    have hlanes := hcovered hverify
    simp only [if_true]
    rw [verify_recurrence, zipWith_output, kernel_rule_eq hlanes, kernel_read_eq hlanes]
    rfl

theorem length_verify_rows (flags : DeltaFlags) :
    (gdn.verify_rows flags xs state).2.length = xs.length := by
  rw [verify_rows]
  split <;> simp

/-- **A checkpoint once its rollback has been replayed** is the state behind its row. A checkpoint
that was written out is this state already; a compact one has the rows that lead to it. -/
theorem materialize_checkpoint {flags : DeltaFlags} (hcovered : gdn.Covered flags)
    (hmax : xs.length ≤ 64) {row : Nat} {checkpoint : DeltaState K}
    (hcheckpoint : (gdn.verify_rows flags xs state).2[row]? = some checkpoint) :
    gdn.materialize_rollback checkpoint = .ok (gdn.state_row xs state row) := by
  have hrow : row < xs.length := by
    have hlt := (List.getElem?_eq_some_iff.mp hcheckpoint).choose
    rwa [length_verify_rows] at hlt
  rw [getElem?_verify_rows state xs hcovered hrow] at hcheckpoint
  obtain rfl := Option.some.inj hcheckpoint
  by_cases hrollback : flags.metal_verify ∧ flags.compact_rollback ∧ row + 1 ≠ xs.length
  · have hlanes := hcovered hrollback.1
    rw [if_pos hrollback, materialize_rollback, if_neg (Nat.succ_ne_zero row), if_neg,
      rollback_recurrence, kernel_rule_eq hlanes, written_eq hlanes]
    · rfl
    · rintro (hcon | hcon)
      · exact hcon rfl
      · change row + 1 > 64 at hcon
        omega
  · rw [if_neg hrollback]
    exact materialize_rollback_of_zero rfl

/-- The rows of the prefill kernel. -/
theorem Settled.prefill_rows_eq (h : Settled state) (hlanes : 32 ∣ gdn.key_head_dimension_)
    (hpos : 0 < xs.length) :
    gdn.prefill_rows xs state =
      ((List.range xs.length).map (gdn.output_row xs state),
        gdn.state_row xs state (xs.length - 1)) := by
  have hcount : xs.length - 1 + 1 = xs.length := Nat.sub_add_cancel hpos
  have hquery : ∀ (rows : List (Row K)) row,
      repeat_axis gdn.repetition ((rows.map gdn.query).getD row 0) =
        (rows.map fun row => repeat_axis gdn.repetition (gdn.query row)).getD row 0 := by
    intro rows row
    rw [List.getD_eq_getElem?_getD, List.getD_eq_getElem?_getD, List.getElem?_map,
      List.getElem?_map]
    cases rows[row]? with
    | none => rfl
    | some row => rfl
  have hkeys : ((gdn.convolved_rows xs state).map gdn.key).map (repeat_axis gdn.repetition) =
      gdn.key_rows xs state := by
    rw [key_rows, List.map_map]
    rfl
  -- with whole lanes the rule of the kernel is that of a step
  have hrecurrent : ∀ rows, replay gdn.prefill_rule ((gdn.convolved_rows xs state).map gdn.key)
      ((gdn.convolved_rows xs state).map gdn.value) (xs.map gdn.decay) (xs.map gdn.beta) rows
      (gdn.recurrent_of state) = gdn.recurrent_after xs state rows := fun rows => by
    rw [replay_prefill_rule _ _ _ _ _ _ _ hlanes, hkeys]
    rfl
  refine Prod.ext ?_ ?_
  · change List.zipWith gdn.output ((List.range xs.length).map fun row =>
      gdn.prefill_read (((gdn.convolved_rows xs state).map gdn.query).getD row 0)
        (replay gdn.prefill_rule ((gdn.convolved_rows xs state).map gdn.key)
          ((gdn.convolved_rows xs state).map gdn.value) (xs.map gdn.decay) (xs.map gdn.beta)
          (row + 1) (gdn.recurrent_of state))) (xs.map gdn.z_projection_) = _
    rw [zipWith_output]
    refine List.map_congr_left fun row _ => ?_
    rw [hrecurrent, prefill_read_eq hlanes, hquery]
    rfl
  -- nothing is left to be replayed, so the state has no other fields
  · have hstate : ∀ (convolution recurrent : Tensor K), { state with
        convolution := convolution
        recurrent := recurrent
        initialized := true } = { (default : DeltaState K) with
          convolution := convolution
          recurrent := recurrent
          initialized := true } := by
      obtain ⟨hrows, hkey, hvalue, hdecay, hbeta, -⟩ := h
      cases state
      dsimp only at hrows hkey hvalue hdecay hbeta
      subst hrows hkey hvalue hdecay hbeta
      exact fun _ _ => rfl
    rw [prefill_rows, hstate, state_row, hcount, ← hrecurrent, prefill_recurrence,
      written_eq hlanes]
    rfl

/-- The state that a batch leaves. -/
theorem Settled.items_eq (h : Settled state) (hpos : 0 < xs.length) :
    items gdn.step xs state =
      ((List.range xs.length).map (gdn.output_row xs state),
        gdn.state_row xs state (xs.length - 1)) := by
  have hbatch := Prod.ext_iff.mp (h.batch gdn xs)
  refine Prod.ext ?_ ?_
  · rw [← fst_checkpoints, ← hbatch.1]
  · have hlast := getElem?_checkpoints gdn.step xs state (i := xs.length - 1) (by omega)
    rw [← hbatch.2, Nat.sub_add_cancel hpos, List.take_length, List.getElem?_map,
      List.getElem?_range (by omega)] at hlast
    exact (Option.some.inj hlast).symm

theorem Settled.items (h : Settled state) : Settled (items gdn.step xs state).2 := by
  induction xs generalizing state with
  | nil => exact h
  | cons x xs ih => exact ih (h.step gdn x)

/-- **A verification.** Its rows are single steps, and so is each of its checkpoints once its
rollback has been replayed. -/
theorem Settled.forward_verify (h : Settled state) {flags : DeltaFlags}
    (hcovered : gdn.Covered flags) {output : List (Row K)} {cps : List (DeltaState K)}
    (hverify : gdn.forward_verify flags xs state = .ok (output, cps)) :
    output = (Pipeline.items gdn.step xs state).1 ∧ cps.length = xs.length ∧ xs ≠ [] ∧
      ∀ row checkpoint, cps[row]? = some checkpoint →
        gdn.materialize_rollback checkpoint =
          .ok (Pipeline.items gdn.step (xs.take (row + 1)) state).2 := by
  obtain ⟨_, -, hverify⟩ := Except.bind_eq_ok.mp hverify
  obtain ⟨_, hrows, hverify⟩ := Except.bind_eq_ok.mp hverify
  rw [Except.throw_if_eq_ok] at hrows
  obtain ⟨rfl, rfl⟩ := Prod.ext_iff.mp (Except.ok.inj hverify)
  have hbatch := Prod.ext_iff.mp (h.batch gdn xs)
  refine ⟨?_, length_verify_rows xs flags, ?_, fun row checkpoint hcheckpoint => ?_⟩
  · rw [← fst_checkpoints, ← hbatch.1, ← fst_verify_rows xs hcovered]
  · rintro rfl
    simp at hrows
  · have hlt : row < xs.length := by
      have hlt := (List.getElem?_eq_some_iff.mp hcheckpoint).choose
      change row < (gdn.verify_rows flags xs state).2.length at hlt
      rwa [length_verify_rows] at hlt
    have hstate := getElem?_checkpoints gdn.step xs state hlt
    rw [← hbatch.2, List.getElem?_map, List.getElem?_range hlt] at hstate
    rw [← Option.some.inj hstate]
    exact materialize_checkpoint xs hcovered (by omega) hcheckpoint

/-- **A prefill.** Its rows are single steps, one after the other, on either path. Only the path
without the prefill kernel asks that the lanes of a key be covered. -/
theorem Settled.forward_prefill (h : Settled state) {flags : DeltaFlags}
    (hcovered : flags.metal_prefill = false → gdn.Covered flags) {output : List (Row K)} {state' : DeltaState K}
    (hprefill : gdn.forward_prefill flags xs state = .ok (output, state')) :
    (output, state') = Pipeline.items gdn.step xs state := by
  rw [GatedDeltaNet.forward_prefill, materialize_rollback_of_zero h.rollback_rows,
    Except.ok_bind] at hprefill
  obtain ⟨_, hrows, hprefill⟩ := Except.bind_eq_ok.mp hprefill
  rw [Except.throw_if_eq_ok] at hrows
  have hpos : 0 < xs.length := by omega
  split at hprefill
  next hmetal =>
    have hcovered := hcovered (Bool.eq_false_iff.mpr hmetal)
    obtain ⟨⟨output', cps⟩, hverify, hlast⟩ := Except.bind_eq_ok.mp hprefill
    obtain ⟨rfl, rfl⟩ := Prod.ext_iff.mp (Except.ok.inj hlast)
    obtain ⟨_, -, hverify⟩ := Except.bind_eq_ok.mp hverify
    obtain ⟨_, -, hverify⟩ := Except.bind_eq_ok.mp hverify
    obtain ⟨rfl, rfl⟩ := Prod.ext_iff.mp (Except.ok.inj hverify)
    have hcheckpoint := getElem?_verify_rows state xs hcovered (show xs.length - 1 < xs.length by
      omega)
    rw [if_neg (by omega)] at hcheckpoint
    rw [h.items_eq xs hpos, List.getLastD_eq_getLast?, List.getLast?_eq_getElem?,
      length_verify_rows, hcheckpoint, fst_verify_rows xs hcovered]
    rfl
  next =>
    obtain ⟨_, hgeometry, hprefill⟩ := Except.bind_eq_ok.mp hprefill
    rw [Except.throw_if_eq_ok, not_or, not_not] at hgeometry
    have hlanes := Nat.dvd_of_mod_eq_zero hgeometry.1
    rw [← Except.ok.inj hprefill, h.prefill_rows_eq xs hlanes hpos, h.items_eq xs hpos]

end Batch

end GatedDeltaNet

end Qwen38
