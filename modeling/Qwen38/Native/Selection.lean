import Qwen38.Native.EvenRuns

/-!
# What a selection depends on

The buffers of the selector are shared by all layers and all requests, and are never cleared. A pass
reads only what the pass before it has written, so the blocks that are published depend on the
scores of the blocks there are, and on nothing that an earlier selection has left
(`Qwen38.encode_qsa_selection_congr`). The attention visits the published blocks and no others of
the buffer; hence no token and no state of a run depends on what its selections find there.

As long as all blocks are selected it is the host that publishes them, while it encodes. The runs
are therefore those of even backends (`Qwen38.PersistentMetalBackend.Device.EvenRun`), where it
publishes the same for every layer of a token.
-/

namespace Qwen38

section Selection

variable {V : Type} [LinearOrder V] {scores scores' : Nat → V} {ids ids' : Nat → Nat}
  {buffers buffers' : QsaBuffers V} {groups group tid : Nat} {source_a : Bool}

/-- A threadgroup that sorts reads the places of its group. -/
theorem sorted_group_congr (h : ∀ place < 256, scores (group * 256 + place) = scores' (group * 256 + place) ∧
    ids (group * 256 + place) = ids' (group * 256 + place)) (htid : tid < 128) :
    sorted_group scores ids group (128 + tid) = sorted_group scores' ids' group (128 + tid) := by
  have hsource : places_of (fun place => (scores (group * 256 + place), ids (group * 256 + place))) 256 0 =
      places_of (fun place => (scores' (group * 256 + place), ids' (group * 256 + place))) 256 0 := by
    refine List.map_congr_left fun place hplace => ?_
    obtain ⟨hscore, hid⟩ := h place (List.mem_range.mp hplace)
    simp only [Nat.zero_mul, Nat.zero_add, hscore, hid]
  have hnetwork (places : Nat → Scored V) := @places_stages V _ places 128 8 0 (by norm_num)
  have hplaces : places_of (sorted_group scores ids group) 256 0 =
      places_of (sorted_group scores' ids' group) 256 0 := by
    rw [sorted_group, sorted_group, qsa_bitonic256, qsa_bitonic256, show 256 = 2 ^ 8 by norm_num,
      hnetwork, hnetwork, show 2 ^ 8 = 256 by norm_num, hsource]
  have hplace := List.map_eq_map_iff.mp hplaces (128 + tid) (List.mem_range.mpr (by omega))
  rwa [Nat.zero_mul, Nat.zero_add] at hplace

/-- Two selectors of which the last pass has written the same. -/
def SameWritten (groups : Nat) (source_a : Bool) (buffers buffers' : QsaBuffers V) : Prop :=
  ∀ place < groups * 128,
    written_scores source_a buffers place = written_scores source_a buffers' place ∧
      written_ids groups source_a buffers place = written_ids groups source_a buffers' place

theorem dispatched_congr {β : Type} {output output' : Nat → Nat → β} {buffer buffer' : Nat → β}
    (h : ∀ group < groups, ∀ tid < 128, output group tid = output' group tid) {place : Nat}
    (hplace : place < groups * 128) :
    dispatched groups output buffer place = dispatched groups output' buffer' place := by
  rw [dispatched, dispatched, if_pos hplace, if_pos hplace]
  exact h _ (by omega) _ (Nat.mod_lt _ (by decide))

omit [LinearOrder V] in
/-- A threadgroup's thread writes a score and its block to the same place. -/
theorem same_dispatched {output output' : Nat → Nat → Scored V}
    (h : ∀ group < groups, ∀ tid < 128, output group tid = output' group tid) {place : Nat}
    (hplace : place < groups * 128) :
    dispatched groups (fun group tid => (output group tid).1) scores place =
        dispatched groups (fun group tid => (output' group tid).1) scores' place ∧
      dispatched groups (fun group tid => (output group tid).2) ids place =
        dispatched groups (fun group tid => (output' group tid).2) ids' place := by
  constructor
  · exact dispatched_congr (fun group hgroup tid htid => congrArg Prod.fst (h group hgroup tid htid)) hplace
  · exact dispatched_congr (fun group hgroup tid htid => congrArg Prod.snd (h group hgroup tid htid)) hplace

theorem same_first_pass (h : ∀ block < groups * 256, scores block = scores' block) :
    SameWritten groups true (first_pass groups scores buffers) (first_pass groups scores' buffers') := by
  have houtput : ∀ group < groups, ∀ tid < 128,
      qsa_top128_first scores group tid = qsa_top128_first scores' group tid := by
    intro group hgroup tid htid
    exact sorted_group_congr (fun place hplace => ⟨h _ (by omega), rfl⟩) htid
  intro place hplace
  rw [written_scores, written_scores, written_ids, written_ids, first_pass, first_pass]
  by_cases hone : groups = 1
  · simp only [if_pos hone, if_true]
    exact same_dispatched houtput hplace
  · simp only [if_neg hone, if_true]
    exact same_dispatched houtput hplace

/-- What a threadgroup of a merge pass reads. -/
theorem merge_congr (hscores : ∀ place < groups * 128, scores place = scores' place)
    (hids : ∀ place < groups * 128, ids place = ids' place) (hgroup : group < (groups + 1) / 2)
    (htid : tid < 128) :
    qsa_top128_merge scores ids groups group tid = qsa_top128_merge scores' ids' groups group tid := by
  rw [qsa_top128_merge, qsa_top128_merge]
  split_ifs with hlast
  · rw [hscores _ (by omega), hids _ (by omega)]
  · exact sorted_group_congr (fun place hplace => ⟨hscores _ (by omega), hids _ (by omega)⟩) htid

theorem same_merge_pass (hgroups : 1 < groups) (h : SameWritten groups source_a buffers buffers') :
    SameWritten ((groups + 1) / 2) (!source_a) (merge_pass groups source_a buffers)
      (merge_pass groups source_a buffers') := by
  have hnot : groups ≠ 1 := by omega
  have houtput : ∀ group < (groups + 1) / 2, ∀ tid < 128,
      qsa_top128_merge (if source_a then buffers.scores_a else buffers.scores_b)
          (if source_a then buffers.ids_a else buffers.ids_b) groups group tid =
        qsa_top128_merge (if source_a then buffers'.scores_a else buffers'.scores_b)
          (if source_a then buffers'.ids_a else buffers'.ids_b) groups group tid := by
    intro group hgroup tid htid
    refine merge_congr (fun place hplace => (h place hplace).1) (fun place hplace => ?_) hgroup htid
    have hid := (h place hplace).2
    rwa [written_ids, written_ids, if_neg hnot, if_neg hnot] at hid
  intro place hplace
  rw [written_scores, written_scores, written_ids, written_ids, merge_pass, merge_pass]
  cases source_a with
  | true =>
    by_cases hone : (groups + 1) / 2 = 1
    · simp only [if_pos hone, Bool.not_true, Bool.false_eq_true, if_false, if_true]
      exact same_dispatched houtput hplace
    · simp only [if_neg hone, Bool.not_true, Bool.false_eq_true, if_false, if_true]
      exact same_dispatched houtput hplace
  | false =>
    by_cases hone : (groups + 1) / 2 = 1
    · simp only [if_pos hone, Bool.not_false, Bool.false_eq_true, if_false, if_true]
      exact same_dispatched houtput hplace
    · simp only [if_neg hone, Bool.not_false, Bool.false_eq_true, if_false, if_true]
      exact same_dispatched houtput hplace

/-- **The passes** publish the same. -/
theorem same_merge_passes (hgroups : 0 < groups) (h : SameWritten groups source_a buffers buffers') :
    ∀ i < 128, (merge_passes groups source_a buffers).selected i =
      (merge_passes groups source_a buffers').selected i := by
  induction groups using Nat.strong_induction_on generalizing source_a buffers buffers' with
  | _ groups ih =>
    have hpass (buffers : QsaBuffers V) : merge_passes groups source_a buffers =
        if 1 < groups then
          merge_passes ((groups + 1) / 2) (!source_a) (merge_pass groups source_a buffers)
        else buffers := by
      rw [merge_passes]
    rw [hpass, hpass]
    by_cases hlt : 1 < groups
    · rw [if_pos hlt, if_pos hlt]
      exact ih ((groups + 1) / 2) (by omega) (by omega) (same_merge_pass hlt h)
    · have hone : groups = 1 := by omega
      rw [if_neg hlt, if_neg hlt]
      intro i hi
      have hid := (h i (by omega)).2
      rwa [written_ids, written_ids, if_pos hone, if_pos hone] at hid

end Selection

section Published

variable {V : Type} [LinearOrder V] [OrderBot V] {score score' : Nat → V} {block_count : Nat}
  {scores scores' : Nat → V} {buffers buffers' : QsaBuffers V}

/-- What `encode_qsa_selection` publishes for more than 128 blocks. -/
theorem encode_qsa_selection_many (h : 128 < block_count) (hhigh : block_count ≤ 65536) :
    encode_qsa_selection score block_count scores buffers =
      .ok (merge_passes ((block_count + 255) / 256) true (first_pass ((block_count + 255) / 256)
        (qsa_score_blocks score block_count ((block_count + 255) / 256 * 256) scores) buffers), 512) := by
  have hpadded : ¬((block_count + 255) / 256 * 256 < 256 ∨ 65536 < (block_count + 255) / 256 * 256 ∨
      (block_count + 255) / 256 * 256 % 256 ≠ 0) := by omega
  have hfits := @qsa_lengths_fit ((block_count + 255) / 256 * 256) (by omega)
  have hdiv : (block_count + 255) / 256 * 256 / 256 = (block_count + 255) / 256 := by omega
  rw [hdiv] at hfits
  have htop : encode_qsa_top128 qsa_lengths
      (qsa_score_blocks score block_count ((block_count + 255) / 256 * 256) scores)
      ((block_count + 255) / 256 * 256) buffers =
        .ok (merge_passes ((block_count + 255) / 256) true (first_pass ((block_count + 255) / 256)
          (qsa_score_blocks score block_count ((block_count + 255) / 256 * 256) scores) buffers)) := by
    rw [encode_qsa_top128, if_neg hpadded, hdiv]
    exact if_neg hfits
  rw [encode_qsa_selection, if_neg (by omega)]
  simp only [htop]
  rfl

/-- **A selection depends on the scores of the blocks**, and on nothing that the buffers held
before. It publishes as many places as there are blocks to select, and these places agree. -/
theorem encode_qsa_selection_congr (hhigh : block_count ≤ 65536)
    (hscore : ∀ block < block_count, score block = score' block) :
    ∃ published published' count,
      encode_qsa_selection score block_count scores buffers = .ok (published, count) ∧
      encode_qsa_selection score' block_count scores' buffers' = .ok (published', count) ∧
      count ≤ 512 ∧ count % 4 = 0 ∧
      ∀ i < count / 4, published.selected i = published'.selected i := by
  by_cases hfew : block_count ≤ 128
  · refine ⟨_, _, block_count * 4, if_pos hfew, if_pos hfew, by omega, by omega, fun i hi => ?_⟩
    have hi : i < block_count := by omega
    simp only [if_pos hi]
  · rw [Nat.not_le] at hfew
    refine ⟨_, _, 512, encode_qsa_selection_many hfew hhigh, encode_qsa_selection_many hfew hhigh,
      le_rfl, rfl, fun i hi => same_merge_passes (by omega) (same_first_pass fun block hblock => ?_) i hi⟩
    have hpadded : ¬(block_count + 255) / 256 * 256 ≤ block := Nat.not_le.mpr hblock
    rw [qsa_score_blocks, qsa_score_blocks, if_neg hpadded, if_neg hpadded]
    split_ifs with hlast
    · rfl
    · exact hscore block (by omega)

theorem encode_qsa_selection_too_many (h : 65536 < block_count) :
    encode_qsa_selection score block_count scores buffers =
      .error "QSA selector padding must be 256..65536 in groups of 256" := by
  have hpadded : (block_count + 255) / 256 * 256 < 256 ∨ 65536 < (block_count + 255) / 256 * 256 ∨
      (block_count + 255) / 256 * 256 % 256 ≠ 0 := by omega
  have htop : encode_qsa_top128 qsa_lengths
      (qsa_score_blocks score block_count ((block_count + 255) / 256 * 256) scores)
      ((block_count + 255) / 256 * 256) buffers =
        .error "QSA selector padding must be 256..65536 in groups of 256" := by
    rw [encode_qsa_top128, if_pos hpadded]
  rw [encode_qsa_selection, if_neg (by omega)]
  simp only [htop]
  rfl

/-- **Blocks that are there** are selected, none of the padding, as long as every score is above the
least: the padding has the least score, and a block goes before it. -/
theorem selected_lt (hhigh : block_count ≤ 65536) (hfinite : ∀ block < block_count, ⊥ < score block)
    {published : QsaBuffers V} {count : Nat}
    (h : encode_qsa_selection score block_count scores buffers = .ok (published, count)) {i : Nat}
    (hi : i < count / 4) : published.selected i < block_count := by
  by_cases hfew : block_count ≤ 128
  · rw [encode_qsa_selection, if_pos hfew] at h
    obtain ⟨rfl, rfl⟩ := Prod.mk.inj (Except.ok.inj h)
    have hi : i < block_count := by omega
    simp only [if_pos hi]
    exact hi
  · obtain ⟨buffers', hrun, -, htop⟩ := @encode_qsa_top128_top V _ ((block_count + 255) / 256 * 256)
      (qsa_score_blocks score block_count ((block_count + 255) / 256 * 256) scores) buffers
      (by omega) (by omega) (by omega)
    rw [encode_qsa_selection, if_neg hfew] at h
    simp only [hrun] at h
    obtain ⟨rfl, rfl⟩ := Prod.mk.inj (Except.ok.inj h)
    have hmem : buffers'.selected i ∈ ((List.range 128).map buffers'.selected).toFinset :=
      List.mem_toFinset.mpr (List.mem_map_of_mem (List.mem_range.mpr hi))
    -- one of the blocks that are there is left out, and it scores above the padding
    by_contra hge
    obtain ⟨block, hblock, hle⟩ := htop.exists_le
      (Finset.range_subset_range.mpr (show block_count ≤ (block_count + 255) / 256 * 256 by omega))
      (by rw [Finset.card_range]; omega) hmem
    have hblock := Finset.mem_range.mp hblock
    have hlt := Finset.mem_range.mp (htop.subset hmem)
    have hreal : qsa_score_blocks score block_count ((block_count + 255) / 256 * 256) scores block =
        score block := by
      rw [qsa_score_blocks, if_neg (by omega), if_neg (by omega)]
    have hpadding : qsa_score_blocks score block_count ((block_count + 255) / 256 * 256) scores
        (buffers'.selected i) = ⊥ := by
      rw [qsa_score_blocks, if_neg (by omega), if_pos (by omega)]
    rw [hreal, hpadding] at hle
    exact absurd (hfinite block hblock) (not_lt_of_ge hle)

end Published

namespace PersistentMetalBackend

/-- The attention visits the tokens of the blocks that are published. -/
theorem visits_congr {numbers : AttentionNumbers} {selected selected' : Nat → Nat} {count : Nat}
    (hcount : count % 4 = 0) (h : ∀ i < count / 4, selected i = selected' i) :
    visits numbers selected count = visits numbers selected' count := by
  have hblocks : ((List.range count).map fun slot =>
        let token := selected (slot / 4) * 4 + slot % 4
        (token, selected_place numbers.cold_count token)) =
      (List.range count).map fun slot =>
        let token := selected' (slot / 4) * 4 + slot % 4
        (token, selected_place numbers.cold_count token) := by
    refine List.map_congr_left fun slot hslot => ?_
    have hlt : slot / 4 < count / 4 := by
      have hslot := List.mem_range.mp hslot
      omega
    simp only [h _ hlt]
  rw [visits, visits, hblocks]

section Scratch

variable {V : Type} [LinearOrder V] [OrderBot V] {device : Device V}
  {token : UInt32} {fault : Option Fault}

namespace Device

theorem encode_attention_scratch (scratch scratch' : Scratch V) (layer : Fin 48) (stream : Bytes)
    (state : AttentionState) : device.encode_attention layer scratch stream state =
      device.encode_attention layer scratch' stream state := by
  rw [encode_attention, encode_attention, select, select]
  by_cases hhigh : state.numbers.block_count ≤ 65536
  · obtain ⟨published, published', count, hrun, hrun', -, hcount, hsame⟩ :=
      @encode_qsa_selection_congr V _ _
        (fun block => device.score (device.rows layer stream state).selector_query
          (pooled_row (device.appended layer stream state) block) block)
        (fun block => device.score (device.rows layer stream state).selector_query
          (pooled_row (device.appended layer stream state) block) block)
        state.numbers.block_count scratch.scores scratch'.scores scratch.buffers scratch'.buffers
        hhigh (fun _ _ => rfl)
    have hattended (head : Fin 2) : device.qsa_attention_q8_blocks state.numbers
          (device.rows layer stream state) (device.appended layer stream state) published.selected count
          head =
        device.qsa_attention_q8_blocks state.numbers (device.rows layer stream state)
          (device.appended layer stream state) published'.selected count head := by
      rw [qsa_attention_q8_blocks, qsa_attention_q8_blocks, visits_congr hcount hsame]
    rw [hrun, hrun']
    simp only [bind, Except.bind, funext hattended]
  · rw [Nat.not_le] at hhigh
    rw [encode_qsa_selection_too_many hhigh, encode_qsa_selection_too_many hhigh]

variable {stale stale' : Fin 48 → Scratch V}

theorem encode_mixer_scratch (layer : Fin 48) :
    device.encode_mixer stale layer = device.encode_mixer stale' layer := by
  have hencode : device.encode_attention layer (stale layer) =
      device.encode_attention layer (stale' layer) := by
    funext stream state
    exact encode_attention_scratch (stale layer) (stale' layer) layer stream state
  funext run
  rw [encode_mixer, encode_mixer, hencode]

theorem encode_layer_scratch (layer : Fin 48) (run : Run) :
    device.encode_layer token fault stale layer run = device.encode_layer token fault stale' layer run := by
  rw [encode_layer, encode_layer, @encode_mixer_scratch V _ _ device stale stale' layer]

theorem encode_layers_scratch (group_size : Nat) (layers : List (Fin 48)) (run : Run) (committed : Impl) :
    device.encode_layers token fault stale group_size layers run committed =
      device.encode_layers token fault stale' group_size layers run committed := by
  induction layers generalizing run committed with
  | nil => rfl
  | cons layer layers ih =>
    rw [encode_layers, encode_layers, @encode_layer_scratch V _ _ device token fault stale stale']
    rcases device.encode_layer token fault stale' layer run with ⟨outcome, now⟩
    cases outcome with
    | error e => rfl
    | ok u => exact ih now _

theorem encode_trunk_scratch (group_size : Except String Nat) (run : Run) :
    device.encode_trunk token fault stale group_size run =
      device.encode_trunk token fault stale' group_size run := by
  cases group_size with
  | error e => rfl
  | ok group_size => exact encode_layers_scratch group_size _ run run.impl

theorem greedy_decode_scratch (group_size : Except String Nat) (reset : Bool) (impl : Impl) :
    device.greedy_decode token fault stale group_size reset impl =
      device.greedy_decode token fault stale' group_size reset impl := by
  rw [greedy_decode, greedy_decode]
  simp only [@encode_trunk_scratch V _ _ device token fault stale stale']

theorem decode_trunk_scratch (group_size : Except String Nat) (initial_stream : Bytes) (reset : Bool)
    (impl : Impl) : device.decode_trunk token fault stale group_size initial_stream reset impl =
      device.decode_trunk token fault stale' group_size initial_stream reset impl := by
  rw [decode_trunk, decode_trunk]
  simp only [@encode_trunk_scratch V _ _ device token fault stale stale']

end Device

/-- The operation, with selector buffers that are cleared for every layer. -/
def Op.in_cleared : Op V → Op V
  | .import_state source => .import_state source
  | .greedy_decode token fault _ group_size reset =>
    .greedy_decode token fault
      (fun _ => ⟨fun _ => ⊥, ⟨fun _ => ⊥, fun _ => ⊥, fun _ => 0, fun _ => 0, fun _ => 0⟩⟩) group_size reset
  | .decode_trunk token fault _ group_size initial_stream reset =>
    .decode_trunk token fault
      (fun _ => ⟨fun _ => ⊥, ⟨fun _ => ⊥, fun _ => ⊥, fun _ => 0, fun _ => 0, fun _ => 0⟩⟩) group_size
      initial_stream reset
  | .export_state => .export_state

theorem Device.apply_in_cleared (op : Op V) (impl : Impl) :
    device.apply op.in_cleared impl = device.apply op impl := by
  cases op with
  | import_state source => rfl
  | greedy_decode token fault stale group_size reset =>
    rw [Op.in_cleared, Device.apply, Device.apply]
    simp only [@Device.greedy_decode_scratch V _ _ device token fault _ stale]
  | decode_trunk token fault stale group_size initial_stream reset =>
    rw [Op.in_cleared, Device.apply, Device.apply]
    simp only [@Device.decode_trunk_scratch V _ _ device token fault _ stale]
  | export_state => rfl

theorem Op.finds_in_cleared (op : Op V) (impl : Impl) : op.in_cleared.Finds impl ↔ op.Finds impl := by
  cases op with
  | import_state source => exact Iff.rfl
  | greedy_decode token fault stale group_size reset => exact Iff.rfl
  | decode_trunk token fault stale group_size initial_stream reset => exact Iff.rfl
  | export_state => exact Iff.rfl

theorem Device.EvenRun.in_cleared {start impl : Impl} {ops : List (Op V)}
    (h : device.EvenRun start ops impl) : device.EvenRun start (ops.map Op.in_cleared) impl := by
  induction h with
  | start => exact .start
  | step _ op hfinds ih =>
    have hnext := ih.step op.in_cleared ((op.finds_in_cleared _).mpr hfinds)
    rw [Device.apply_in_cleared] at hnext
    rw [List.map_append]
    exact hnext

/-- **What a selection has left is never seen**: a run whose steps come to even backends leaves the
backend that it leaves where the buffers of the selector are cleared for every layer of every token,
and there the operation that follows returns the same and leaves the same. What the buffers hold
when a layer comes to them is arbitrary in each step of the run. -/
theorem unaffected_by_scratch (device : Device V) {start impl : Impl} {ops : List (Op V)}
    (h : device.EvenRun start ops impl) :
    device.EvenRun start (ops.map Op.in_cleared) impl ∧ ∀ op : Op V, op.Finds impl →
      op.in_cleared.Finds impl ∧ device.apply op.in_cleared impl = device.apply op impl :=
  ⟨h.in_cleared, fun op hfinds =>
    ⟨(op.finds_in_cleared impl).mpr hfinds, Device.apply_in_cleared op impl⟩⟩

end Scratch

/-- What a selection of other scores may have left. -/
def dirty : Fin 48 → Scratch Nat :=
  fun layer => ⟨fun place => place + layer.val, ⟨fun place => place, fun place => place + 7,
    fun place => place, fun _ => 3, fun place => 65535 - place⟩⟩

/-- After 516 tokens a token is decoded, with buffers of the selector that were left dirty. -/
def long_run : List (Op Nat) :=
  [.import_state (zero_state 516 0 516), .greedy_decode 0 none dirty (.ok 3) false]

theorem steady_long_run : ∀ op ∈ long_run, op.Steady := by
  have hbases : SameBases (zero_state 516 0 516) := by
    intro layer i hlayer hi
    rw [(zero_state_attention hlayer).2.1, (zero_state_attention hi).2.1]
  intro op hop
  rcases List.mem_cons.mp hop with rfl | hop
  · exact hbases
  · obtain rfl := List.mem_singleton.mp hop
    rfl

theorem exported_count_long_run :
    exported_count (still_device.run long_run (create fun _ => make_buffer (65536 * index_row_bytes))) =
      517 := by
  have hsound := @sound_create (fun _ => make_buffer (65536 * index_row_bytes))
    fun _ => length_make_buffer _
  have haccepted : Accepted (zero_state 516 0 516) :=
    accepted_zero_state (by decide) (by decide) (by decide) (by decide)
  rw [long_run, Device.run_import haccepted hsound.allocated]
  have hnext := @Device.exported_count_greedy_decode Nat _ _ still_device _ 0 dirty (fun _ => ⟨[], rfl⟩)
    (sound_imported haccepted hsound.allocated)
    (can_decode_zero_state (by decide) (by decide) (by decide)) (by decide) 3
  rw [exported_count_imported haccepted] at hnext
  exact hnext

/-- The token comes to 129 blocks, more than are selected, and finds in the selector what a
selection of other scores has left. It is as if it had been cleared. -/
theorem unaffected_by_scratch_dirty :
    exported_count (still_device.run long_run (create fun _ => make_buffer (65536 * index_row_bytes))) =
        517 ∧
      still_device.EvenRun (create fun _ => make_buffer (65536 * index_row_bytes))
        (long_run.map Op.in_cleared)
        (still_device.run long_run (create fun _ => make_buffer (65536 * index_row_bytes))) ∧
      ∀ op : Op Nat,
        op.Finds (still_device.run long_run (create fun _ => make_buffer (65536 * index_row_bytes))) →
          op.in_cleared.Finds
              (still_device.run long_run (create fun _ => make_buffer (65536 * index_row_bytes))) ∧
            still_device.apply op.in_cleared
                (still_device.run long_run (create fun _ => make_buffer (65536 * index_row_bytes))) =
              still_device.apply op
                (still_device.run long_run (create fun _ => make_buffer (65536 * index_row_bytes))) :=
  ⟨exported_count_long_run, unaffected_by_scratch still_device
    (Device.evenRun_of_steady (fun _ => ⟨[], rfl⟩) (sound_create fun _ => length_make_buffer _)
      (even_create _) steady_long_run).1⟩

end PersistentMetalBackend

end Qwen38
