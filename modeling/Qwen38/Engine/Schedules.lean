import Mathlib.Data.List.Induction
import Qwen38.Engine.Target

/-!
# The schedules agree

Every way to drive the layers gives what the rows give one by one. What a resumable chunk
still has to do is `Qwen38.Target.finish`, and a pass does not change it
(`Qwen38.Target.advance_prefill_chunk_batch_spec`), so it is the same to run the chunk at
once (`Qwen38.Target.prefill_chunk_batch_eq`) or with other work between its windows.

Layer-major prefill is the same chunks with the loops exchanged
(`Qwen38.Target.prefill_chunks_layer_major_eq`); it rests on nothing but the order of the
chunks within a layer. Where a batch of rows is what its rows are one by one
(`Qwen38.Target.RowWise`), prefill and verification are single steps.
-/

namespace Qwen38

open Pipeline

namespace Target

variable {T : Target}

/-! ### A chunk in windows -/

/-- The layers do not touch the tokens of a chunk. -/
@[simp] theorem prefill_window_tokens (first last : Nat) (chunk : List T.Stream × List Token)
    (layers : T.LayerStates) : (T.prefill_window first last chunk layers).1.2 = chunk.2 := by
  refine through_invariant _ _ _ Prod.snd fun f hf x s => ?_
  rw [← List.map_take, ← List.map_drop] at hf
  obtain ⟨layer, -, rfl⟩ := List.mem_map.mp hf
  rfl

theorem prefill_window_trans {first mid last : Nat} (hfirst : first ≤ mid) (hlast : mid ≤ last)
    (hlength : last ≤ T.layers.length) (stream_batch : List T.Stream) (tokens : List Token)
    (layers : T.LayerStates) :
    T.prefill_window mid last ((T.prefill_window first mid (stream_batch, tokens) layers).1.1, tokens)
        (T.prefill_window first mid (stream_batch, tokens) layers).2 =
      T.prefill_window first last (stream_batch, tokens) layers := by
  have hstages : (T.layers.map DecoderLayer.prefill).length = layers.1.length := by
    rw [List.length_map, layers.2]
  have hwindow := window_trans (stream_batch, tokens) hfirst hlast
    (by rw [layers.2]; exact hlength) hstages
  have hpair : ((T.prefill_window first mid (stream_batch, tokens) layers).1.1, tokens) =
      (T.prefill_window first mid (stream_batch, tokens) layers).1 :=
    Prod.ext rfl (prefill_window_tokens first mid (stream_batch, tokens) layers).symm
  rw [hpair]
  simp only [prefill_window, hwindow]

variable (T) in
/-- What is left of a chunk: the layers it has not gone through. -/
def finish (chunk : ModelPrefillChunk T) (tokens : List Token) (state : ModelDecodeState T) :
    List T.Stream × ModelDecodeState T :=
  let r := T.prefill_window chunk.next_layer T.layers.length (chunk.stream_batch, tokens)
    state.layers
  (r.1.1, { layers := r.2, token_count := state.token_count + chunk.row_count })

/-- A chunk that may be resumed. -/
structure Resumable (chunk : ModelPrefillChunk T) (tokens : List Token) : Prop where
  row_count : chunk.row_count = tokens.length
  tokens_ne_nil : tokens ≠ []
  next_layer : chunk.next_layer < T.layers.length

variable {chunk : ModelPrefillChunk T} {tokens : List Token} {state : ModelDecodeState T}

theorem lt_barrier_end {first : Nat} (h : first < T.layers.length) : first < T.barrier_end first := by
  refine Nat.lt_min.mpr ⟨h, ?_⟩
  rw [Nat.mul_comm]
  exact Nat.lt_mul_div_succ _ T.prefill_barrier_stride_pos

theorem barrier_end_le (first : Nat) : T.barrier_end first ≤ T.layers.length := Nat.min_le_left _ _

/-- What one pass does to a chunk that may be resumed. -/
theorem advance_prefill_chunk_batch_eq (h : Resumable chunk tokens) :
    T.advance_prefill_chunk_batch chunk tokens state =
      .ok (decide (T.barrier_end chunk.next_layer = T.layers.length),
        { chunk with
          stream_batch := (T.prefill_window chunk.next_layer (T.barrier_end chunk.next_layer)
            (chunk.stream_batch, tokens) state.layers).1.1
          next_layer := T.barrier_end chunk.next_layer },
        { layers := (T.prefill_window chunk.next_layer (T.barrier_end chunk.next_layer)
            (chunk.stream_batch, tokens) state.layers).2
          token_count := state.token_count +
            if T.barrier_end chunk.next_layer = T.layers.length then tokens.length else 0 }) := by
  obtain ⟨hrows, htokens, hlayer⟩ := h
  have hlength : 0 < tokens.length := List.length_pos_of_ne_nil htokens
  have hnot : ¬(chunk.row_count = 0 ∨ chunk.row_count ≠ tokens.length ∨
      T.layers.length ≤ chunk.next_layer) := by omega
  rw [advance_prefill_chunk_batch, if_neg hnot]
  by_cases hend : T.barrier_end chunk.next_layer = T.layers.length
  · simp [hend, hrows]
  · simp [hend]

/-- **A pass through a window does not change what the chunk comes to.** Either the last layer has
been reached, and the chunk has come to this, or the next layer is further on than before and
finishing from there comes to the same. -/
theorem advance_prefill_chunk_batch_spec (h : Resumable chunk tokens)
    (state : ModelDecodeState T) :
    ∃ chunk' state',
      (T.advance_prefill_chunk_batch chunk tokens state = .ok (true, chunk', state') ∧
          (chunk'.stream_batch, state') = T.finish chunk tokens state) ∨
        T.advance_prefill_chunk_batch chunk tokens state = .ok (false, chunk', state') ∧
          Resumable chunk' tokens ∧ chunk.next_layer < chunk'.next_layer ∧
            T.finish chunk' tokens state' = T.finish chunk tokens state := by
  rw [advance_prefill_chunk_batch_eq h]
  have hlt := lt_barrier_end h.next_layer
  by_cases hend : T.barrier_end chunk.next_layer = T.layers.length
  · rw [decide_eq_true hend]
    refine ⟨_, _, Or.inl ⟨rfl, ?_⟩⟩
    simp only [finish, hend, if_true, h.row_count]
  · rw [decide_eq_false hend]
    refine ⟨_, _, Or.inr ⟨rfl, ⟨h.row_count, h.tokens_ne_nil, ?_⟩, hlt, ?_⟩⟩
    · exact Nat.lt_of_le_of_ne (barrier_end_le _) hend
    · have htrans := prefill_window_trans (Nat.le_of_lt hlt) (barrier_end_le chunk.next_layer)
        (Nat.le_refl _) chunk.stream_batch tokens state.layers
      simp only [finish, htrans, if_neg hend, Nat.add_zero]

/-- The loop of `prefill_chunk_batch` does what is left of the chunk. -/
theorem run_prefill_chunk_pass {fuel : Nat} (h : Resumable chunk tokens)
    (hfuel : T.layers.length - chunk.next_layer ≤ fuel) (state : ModelDecodeState T) :
    ∃ chunk' state', Loop.run (fun _ => true) (T.prefill_chunk_pass tokens) fuel (chunk, state) =
        .ok (chunk', state') ∧
      (chunk'.stream_batch, state') = T.finish chunk tokens state := by
  induction fuel generalizing chunk state with
  | zero =>
    have hlayer := h.next_layer
    omega
  | succ fuel ih =>
    obtain ⟨chunk', state', ⟨hadvance, hfinish⟩ | ⟨hadvance, hresume, hlayer, hfinish⟩⟩ :=
      advance_prefill_chunk_batch_spec h state
    · refine ⟨chunk', state', ?_, hfinish⟩
      simp [Loop.run, prefill_chunk_pass, hadvance]
    · obtain ⟨chunk₂, state₂, hrun, hdone⟩ := ih hresume (by omega) state'
      refine ⟨chunk₂, state₂, ?_, hdone.trans hfinish⟩
      simpa [Loop.run, prefill_chunk_pass, hadvance] using hrun

/-! ### A chunk at once -/

variable (T) in
/-- The chunks one after the other, each through all layers. -/
def prefill (chunks : List (List Token)) (state : ModelDecodeState T) :
    List (List T.Stream) × ModelDecodeState T :=
  let r := items (T.prefill_window 0 T.layers.length)
    (chunks.map fun tokens => (tokens.map T.initialize_stream, tokens)) state.layers
  (r.1.map Prod.fst,
    { layers := r.2, token_count := state.token_count + (chunks.map List.length).sum })

/-- A list of tokens that fits a chunk. -/
def FitsChunk (tokens : List Token) : Prop := tokens ≠ [] ∧ tokens.length ≤ 2048

variable (T) in
/-- The chunk before its first layer. -/
def begun (tokens : List Token) : ModelPrefillChunk T where
  stream_batch := tokens.map T.initialize_stream
  next_layer := 0
  row_count := tokens.length

theorem begin_prefill_chunk_batch_eq (h : FitsChunk tokens) :
    T.begin_prefill_chunk_batch tokens = .ok (T.begun tokens) := by
  have hnot : ¬(tokens = [] ∨ 2048 < tokens.length) := by
    rintro (hnil | hlong)
    · exact h.1 hnil
    · exact absurd h.2 (by omega)
  rw [begin_prefill_chunk_batch, if_neg hnot, begun]

theorem resumable_begun (h : tokens ≠ []) : Resumable (T.begun tokens) tokens :=
  ⟨rfl, h, List.length_pos_of_ne_nil T.layers_ne_nil⟩

variable (state) in
/-- **A chunk at once is all its layers**, one after the other. Between the barriers nothing is
decided: a chunk that fits returns, with the stream batch of the last layer and the states of all of
them. -/
theorem prefill_chunk_batch_eq (h : FitsChunk tokens) :
    T.prefill_chunk_batch tokens state =
      .ok (((T.prefill [tokens] state).1.headD []), (T.prefill [tokens] state).2) := by
  obtain ⟨chunk', state', hrun, hfinish⟩ :
      ∃ chunk' state', Loop.run (fun _ => true) (T.prefill_chunk_pass tokens)
          (T.layers.length + 1) (T.begun tokens, state) = .ok (chunk', state') ∧
        (chunk'.stream_batch, state') = T.finish (T.begun tokens) tokens state :=
    run_prefill_chunk_pass (resumable_begun h.1) (Nat.le_succ _) state
  rw [prefill_chunk_batch, begin_prefill_chunk_batch_eq h]
  simp only [hrun, hfinish]
  simp [finish, prefill, begun]

theorem prefill_cons (tokens : List Token) (chunks : List (List Token))
    (state : ModelDecodeState T) :
    T.prefill (tokens :: chunks) state =
      ((T.prefill [tokens] state).1.headD [] ::
          (T.prefill chunks (T.prefill [tokens] state).2).1,
        (T.prefill chunks (T.prefill [tokens] state).2).2) := by
  simp [prefill, Nat.add_assoc]

/-- **Chunk after chunk.** -/
theorem prefill_chunks_eq {chunks : List (List Token)} (h : ∀ tokens ∈ chunks, FitsChunk tokens) :
    T.prefill_chunks chunks state = .ok (T.prefill chunks state) := by
  induction chunks generalizing state with
  | nil => simp [prefill_chunks, prefill]
  | cons tokens chunks ih =>
    rw [prefill_chunks, prefill_chunk_batch_eq _ (h tokens List.mem_cons_self)]
    simp only
    rw [ih fun tokens ht => h tokens (List.mem_cons_of_mem _ ht), prefill_cons tokens chunks]

/-! ### Many chunks, window by window -/

section LayerMajor

/-- A pending chunk, as an item of the pipeline. -/
def row_batch (item : List Token × ModelPrefillChunk T) : List T.Stream × List Token :=
  (item.2.stream_batch, item.1)

/-- The chunks are all in front of the same layer. -/
def Abreast (first : Nat) (pending : List (List Token × ModelPrefillChunk T)) : Prop :=
  ∀ item ∈ pending, Resumable item.2 item.1 ∧ item.2.next_layer = first

variable {first last : Nat} {pending : List (List Token × ModelPrefillChunk T)}

/-- The pending chunks after a window. -/
def moved (last : Nat) (pending : List (List Token × ModelPrefillChunk T))
    (batches : List (List T.Stream × List Token)) : List (List Token × ModelPrefillChunk T) :=
  List.zipWith
    (fun item batch => (item.1, { item.2 with stream_batch := batch.1, next_layer := last }))
    pending batches

theorem advance_all_eq (h : Abreast first pending) :
    T.advance_all pending state =
      .ok (moved (T.barrier_end first) pending
          (items (T.prefill_window first (T.barrier_end first)) (pending.map row_batch)
            state.layers).1,
        { layers := (items (T.prefill_window first (T.barrier_end first)) (pending.map row_batch)
            state.layers).2
          token_count := state.token_count + if T.barrier_end first = T.layers.length then
            (pending.map fun item => item.1.length).sum else 0 }) := by
  induction pending generalizing state with
  | nil => simp [advance_all, moved]
  | cons item pending ih =>
    obtain ⟨tokens, chunk⟩ := item
    obtain ⟨hresume, hfirst⟩ := h _ List.mem_cons_self
    simp only at hresume hfirst
    rw [advance_all, advance_prefill_chunk_batch_eq hresume]
    simp only
    rw [ih fun item hitem => h item (List.mem_cons_of_mem _ hitem), hfirst]
    by_cases hend : T.barrier_end first = T.layers.length
    · simp [moved, row_batch, hend, Nat.add_assoc]
    · simp [moved, row_batch, hend]

/-- The chunks through the layers from `first` on. -/
def finish_all (first : Nat) (pending : List (List Token × ModelPrefillChunk T))
    (state : ModelDecodeState T) : List (List T.Stream) × ModelDecodeState T :=
  let r := items (T.prefill_window first T.layers.length) (pending.map row_batch) state.layers
  (r.1.map Prod.fst,
    { layers := r.2
      token_count := state.token_count + (pending.map fun item => item.1.length).sum })

theorem items_prefill_window_trans {mid : Nat} (hfirst : first ≤ mid) (hlast : mid ≤ last)
    (hlength : last ≤ T.layers.length) (batches : List (List T.Stream × List Token))
    (layers : T.LayerStates) :
    items (T.prefill_window mid last) (items (T.prefill_window first mid) batches layers).1
        (items (T.prefill_window first mid) batches layers).2 =
      items (T.prefill_window first last) batches layers := by
  have hpart : ∀ (first last : Nat) (batches : List (List T.Stream × List Token))
      (layers : T.LayerStates),
      items (window (T.layers.map DecoderLayer.prefill) first last) batches layers.1 =
        ((items (T.prefill_window first last) batches layers).1,
          (items (T.prefill_window first last) batches layers).2.1) :=
    fun first last batches layers =>
      items_of_part _ _ Subtype.val (T.prefill_window first last) (fun _ _ => rfl) layers
  have hitems : ∀ (first last : Nat) (batches : List (List T.Stream × List Token))
      (layers : T.LayerStates), first ≤ last → last ≤ T.layers.length →
      ((items (T.prefill_window first last) batches layers).1,
          (items (T.prefill_window first last) batches layers).2.1) =
        window ((T.layers.map DecoderLayer.prefill).map items) first last batches layers.1 := by
    intro first last batches layers hle hlength
    rw [← hpart, items_window batches hle (by rw [layers.2]; exact hlength)
      (by rw [List.length_map, layers.2])]
  have hstages : ((T.layers.map DecoderLayer.prefill).map items).length = layers.1.length := by
    rw [List.length_map, List.length_map, layers.2]
  have htrans := window_trans batches hfirst hlast (by rw [layers.2]; exact hlength) hstages
  rw [← hitems first mid batches layers hfirst (Nat.le_trans hlast hlength),
    ← hitems first last batches layers (Nat.le_trans hfirst hlast) hlength] at htrans
  simp only at htrans
  rw [← hitems mid last _ _ hlast hlength] at htrans
  obtain ⟨hbatches, hstates⟩ := Prod.mk.inj htrans
  exact Prod.ext hbatches (Subtype.ext hstates)

theorem moved_row_batch (last : Nat) (pending : List (List Token × ModelPrefillChunk T))
    (batches : List (List T.Stream × List Token))
    (h : batches.map Prod.snd = pending.map Prod.fst) :
    (moved last pending batches).map row_batch = batches := by
  induction pending generalizing batches with
  | nil =>
    obtain rfl : batches = [] := by simpa using h
    rfl
  | cons item pending ih =>
    cases batches with
    | nil => simp at h
    | cons batch batches =>
      obtain ⟨htokens, hrest⟩ := List.cons.inj h
      rw [moved, List.zipWith_cons_cons, List.map_cons]
      exact congrArg₂ List.cons (Prod.ext rfl htokens.symm) (ih batches hrest)

theorem moved_tokens (last : Nat) (pending : List (List Token × ModelPrefillChunk T))
    (batches : List (List T.Stream × List Token))
    (h : batches.map Prod.snd = pending.map Prod.fst) :
    (moved last pending batches).map Prod.fst = pending.map Prod.fst := by
  rw [← h, ← congrArg (List.map Prod.snd) (moved_row_batch last pending batches h), List.map_map]
  rfl

theorem Abreast.moved (h : Abreast first pending) (hlast : last < T.layers.length)
    (batches : List (List T.Stream × List Token)) :
    Abreast last (moved last pending batches) := by
  induction pending generalizing batches with
  | nil =>
    intro item hitem
    simp [Target.moved] at hitem
  | cons item pending ih =>
    cases batches with
    | nil =>
      intro item hitem
      simp [Target.moved] at hitem
    | cons batch batches =>
      intro item' hitem
      rw [Target.moved, List.zipWith_cons_cons] at hitem
      rcases List.mem_cons.mp hitem with rfl | hitem
      · obtain ⟨⟨hrows, htokens, -⟩, -⟩ := h item List.mem_cons_self
        exact ⟨⟨hrows, htokens, hlast⟩, rfl⟩
      · exact ih (fun item hitem => h item (List.mem_cons_of_mem _ hitem)) batches item' hitem

theorem front_is_pending_of_abreast (h : Abreast first pending) (hpending : pending ≠ [])
    (state : ModelDecodeState T) :
    first < T.layers.length ∧ T.front_is_pending (pending, state) = true := by
  obtain ⟨item, rest, rfl⟩ := List.exists_cons_of_ne_nil hpending
  obtain ⟨hresume, hfirst⟩ := h item List.mem_cons_self
  have hlayer := hresume.next_layer
  exact ⟨by omega, decide_eq_true hlayer⟩

/-- The chunks of one window are all through after the last one. -/
theorem front_is_pending_moved (batches : List (List T.Stream × List Token)) :
    T.front_is_pending (moved T.layers.length pending batches, state) = false := by
  cases pending with
  | nil => rfl
  | cons item pending =>
    cases batches with
    | nil => rfl
    | cons batch batches => exact decide_eq_false (Nat.lt_irrefl _)

/-- The loop of `prefill_chunks_layer_major` does what is left of the chunks. -/
theorem run_layer_major_pass {fuel : Nat} (h : Abreast first pending) (hpending : pending ≠ [])
    (hfuel : T.layers.length - first ≤ fuel) (state : ModelDecodeState T) :
    ∃ pending' state', Loop.run T.front_is_pending T.layer_major_pass fuel (pending, state) =
        .ok (pending', state') ∧
      (pending'.map fun item => item.2.stream_batch, state') =
        finish_all first pending state := by
  induction fuel generalizing first pending state with
  | zero =>
    have hlayer := (front_is_pending_of_abreast h hpending state).1
    omega
  | succ fuel ih =>
    obtain ⟨hlayer, hguard⟩ := front_is_pending_of_abreast h hpending state
    have hlt := lt_barrier_end hlayer
    rw [Loop.run, if_pos hguard, layer_major_pass, advance_all_eq h]
    simp only
    have htokens : (items (T.prefill_window first (T.barrier_end first)) (pending.map row_batch)
        state.layers).1.map Prod.snd = pending.map Prod.fst := by
      rw [items_invariant _ _ _ Prod.snd fun chunk layers =>
        prefill_window_tokens first (T.barrier_end first) chunk layers, List.map_map]
      rfl
    have htrans := items_prefill_window_trans (Nat.le_of_lt hlt) (barrier_end_le first)
      (Nat.le_refl _) (pending.map row_batch) state.layers
    generalize hbatches : items (T.prefill_window first (T.barrier_end first))
      (pending.map row_batch) state.layers = batches at htokens htrans
    -- the window has moved every chunk, and changed the tokens of none
    have hrows := moved_row_batch (T.barrier_end first) pending batches.1 htokens
    have hfst := moved_tokens (T.barrier_end first) pending batches.1 htokens
    by_cases hend : T.barrier_end first = T.layers.length
    · -- the last window: the loop ends behind it
      rw [hend] at hrows hbatches ⊢
      refine ⟨_, _, Loop.run_of_not_guard (front_is_pending_moved batches.1) fuel, ?_⟩
      have hstreams := congrArg (List.map Prod.fst) hrows
      rw [List.map_map] at hstreams
      simp only [finish_all, hbatches, if_true, ← hstreams]
      rfl
    · have hnext := h.moved (Nat.lt_of_le_of_ne (barrier_end_le first) hend) batches.1
      have hne : moved (T.barrier_end first) pending batches.1 ≠ [] := by
        intro hnil
        rw [hnil] at hfst
        exact hpending (List.map_eq_nil_iff.mp hfst.symm)
      have hcounts : (moved (T.barrier_end first) pending batches.1).map
          (fun item => item.1.length) = pending.map fun item => item.1.length := by
        have hmap := congrArg (List.map List.length) hfst
        rw [List.map_map, List.map_map] at hmap
        exact hmap
      rw [if_neg hend, Nat.add_zero]
      obtain ⟨pending', state', hrun, hfinish⟩ := ih hnext hne (by omega)
        _
      refine ⟨pending', state', hrun, hfinish.trans ?_⟩
      simp only [finish_all, hrows, htrans, hcounts]

variable {chunk_rows : Nat}

theorem fitsChunk_of_mem_split_chunks (hpos : 0 < chunk_rows) (hrows : chunk_rows ≤ 2048)
    (fuel : Nat) (tokens : List Token) :
    ∀ chunk ∈ split_chunks chunk_rows fuel tokens, FitsChunk chunk := by
  induction fuel generalizing tokens with
  | zero => simp [split_chunks]
  | succ fuel ih =>
    rw [split_chunks]
    split
    · simp
    · next hne =>
      intro chunk hchunk
      rcases List.mem_cons.mp hchunk with rfl | hchunk
      · refine ⟨?_, ?_⟩
        · rw [Ne, List.take_eq_nil_iff]
          rintro (hzero | hnil)
          · omega
          · exact hne hnil
        · rw [List.length_take]
          omega
      · exact ih _ chunk hchunk

/-- **Layer-major prefill is the chunks one after the other.** A layer that takes all chunks before
the next layer takes any gives each chunk what it would have got, since a chunk needs of a layer
only the state that the chunks before it have left there. -/
theorem prefill_chunks_layer_major_eq (htokens : tokens ≠ []) (hlength : tokens.length ≤ 8192)
    (hpos : 0 < chunk_rows) (hrows : chunk_rows ≤ 2048) :
    T.prefill_chunks_layer_major tokens chunk_rows state =
      T.prefill_chunks (split_chunks chunk_rows tokens.length tokens) state := by
  have hfits := fitsChunk_of_mem_split_chunks hpos hrows tokens.length tokens
  have hne : split_chunks chunk_rows tokens.length tokens ≠ [] := by
    obtain ⟨n, hn⟩ : ∃ n, tokens.length = n + 1 :=
      ⟨tokens.length - 1, by have := List.length_pos_of_ne_nil htokens; omega⟩
    rw [hn, split_chunks, if_neg htokens]
    exact List.cons_ne_nil _ _
  rw [prefill_chunks_layer_major, prefill_chunks_eq hfits]
  generalize split_chunks chunk_rows tokens.length tokens = chunks at hfits hne
  have hnot : ¬(tokens = [] ∨ 8192 < tokens.length ∨ chunk_rows = 0 ∨ 2048 < chunk_rows) := by
    rintro (hnil | hlong)
    · exact htokens hnil
    · omega
  have hbegin : chunks.mapM (fun tokens =>
      (T.begin_prefill_chunk_batch tokens).map fun chunk => (tokens, chunk)) =
        .ok (chunks.map fun tokens => (tokens, T.begun tokens)) := by
    clear hne
    induction chunks with
    | nil => rfl
    | cons chunk chunks ih =>
      rw [List.mapM_cons, ih fun chunk hchunk => hfits chunk (List.mem_cons_of_mem _ hchunk),
        begin_prefill_chunk_batch_eq (hfits chunk List.mem_cons_self)]
      rfl
  -- all chunks are before the first layer
  have habreast : Abreast 0 (chunks.map fun tokens => (tokens, T.begun tokens)) := by
    intro item hitem
    obtain ⟨chunk, hchunk, rfl⟩ := List.mem_map.mp hitem
    exact ⟨resumable_begun (hfits chunk hchunk).1, rfl⟩
  -- the loop takes at most one pass for each layer
  obtain ⟨pending, state', hrun, hfinish⟩ := run_layer_major_pass habreast
    (fun hnil => hne (List.map_eq_nil_iff.mp hnil)) (Nat.sub_le _ _) state
  obtain ⟨hstreams, hstate⟩ := Prod.mk.inj hfinish
  rw [if_neg hnot, hbegin]
  simp only
  rw [hrun]
  simp only
  rw [hstreams, hstate]
  simp only [prefill, List.map_map]
  rfl

end LayerMajor

/-! ### Row by row -/

variable (T) in
/-- A batch of rows is what its rows are one by one, in every layer. -/
structure RowWise : Prop where
  forward_prefill : ∀ layer ∈ T.layers, ∀ (rows : List (T.Stream × Token)) (state : T.LayerState),
    layer.forward_prefill (rows.map Prod.fst) (rows.map Prod.snd) state =
      ((items layer.decode rows state).1.map Prod.fst, (items layer.decode rows state).2)
  forward_verify_dense_batched : ∀ layer ∈ T.layers, ∀ (rows : List (T.Stream × Token))
    (state : T.LayerState),
    layer.forward_verify_dense_batched (rows.map Prod.fst) (rows.map Prod.snd) state =
      ((checkpoints layer.decode rows state).1.map Prod.fst,
        (checkpoints layer.decode rows state).2)

variable (T) in
/-- The steps for these tokens, one after the other. -/
def steps : List Token → ModelDecodeState T → List (TargetVerifyStep T)
  | [], _ => []
  | token :: tokens, state =>
    let r := T.forward_decode_capture token state
    { logits := r.1.logits, pre_mixer_stream := r.1.pre_mixer_stream, state_after := r.2 } ::
      steps tokens r.2

theorem items_decode_tokens (layers : List (DecoderLayer T.LayerState T.Stream))
    (rows : List (T.Stream × Token)) (ss : List T.LayerState) :
    (items (through (layers.map DecoderLayer.decode)) rows ss).1.map Prod.snd =
      rows.map Prod.snd := by
  refine items_invariant _ _ _ Prod.snd fun row ss => through_invariant _ _ _ Prod.snd ?_
  intro f hf row state
  obtain ⟨layer, -, rfl⟩ := List.mem_map.mp hf
  rfl

/-- A chunk through all layers, row by row. -/
theorem through_prefill (hT : T.RowWise) (rows : List (T.Stream × Token))
    (ss : List T.LayerState) :
    through (T.layers.map DecoderLayer.prefill) (rows.map Prod.fst, rows.map Prod.snd) ss =
      (((items (through (T.layers.map DecoderLayer.decode)) rows ss).1.map Prod.fst,
          rows.map Prod.snd),
        (items (through (T.layers.map DecoderLayer.decode)) rows ss).2) := by
  have hlayers := hT.forward_prefill
  rw [items_through]
  generalize T.layers = layers at hlayers
  induction layers generalizing rows ss with
  | nil => simp
  | cons layer layers ih =>
    cases ss with
    | nil => simp
    | cons s ss =>
      have hrows := items_decode_tokens [layer] rows [s]
      rw [List.map_singleton, items_through, List.map_singleton, through_cons, through_nil]
        at hrows
      simp only [List.map_cons, through_cons]
      rw [DecoderLayer.prefill]
      simp only
      rw [hlayers layer List.mem_cons_self rows s]
      simp only
      rw [← hrows, ih _ _ fun layer hlayer => hlayers layer (List.mem_cons_of_mem _ hlayer)]

/-- The rows of these tokens before the first layer. -/
def rows_of (T : Target) (tokens : List Token) : List (T.Stream × Token) :=
  tokens.map fun token => (T.initialize_stream token, token)

@[simp] theorem consume_nil (state : ModelDecodeState T) : T.consume [] state = state := rfl

@[simp] theorem consume_cons (token : Token) (tokens : List Token) (state : ModelDecodeState T) :
    T.consume (token :: tokens) state =
      T.consume tokens (T.forward_decode_capture token state).2 := rfl

theorem consume_append (us : List Token) :
    T.consume (tokens ++ us) state = T.consume us (T.consume tokens state) :=
  List.foldl_append

@[simp] theorem token_count_consume :
    (T.consume tokens state).token_count = state.token_count + tokens.length := by
  induction tokens generalizing state with
  | nil => rfl
  | cons token tokens ih =>
    rw [consume_cons, ih, List.length_cons, forward_decode_capture]
    simp only
    omega

theorem layers_consume :
    (T.consume tokens state).layers.1 =
      (items (through (T.layers.map DecoderLayer.decode)) (T.rows_of tokens) state.layers.1).2 := by
  induction tokens generalizing state with
  | nil => rfl
  | cons token tokens ih =>
    rw [consume_cons, ih]
    rfl

theorem streams_steps :
    (T.steps tokens state).map TargetVerifyStep.pre_mixer_stream =
      (items (through (T.layers.map DecoderLayer.decode)) (T.rows_of tokens)
        state.layers.1).1.map Prod.fst := by
  induction tokens generalizing state with
  | nil => rfl
  | cons token tokens ih =>
    rw [steps, List.map_cons, ih]
    rfl

variable (state) in
/-- **A chunk is its tokens, one by one**, in a model whose layers take rows as their decode would.
From here on a prefill may be thought of as decoding without looking at what is said. -/
theorem prefill_chunk_rows (hT : T.RowWise) (h : FitsChunk tokens) :
    T.prefill_chunk_batch tokens state =
      .ok ((T.steps tokens state).map TargetVerifyStep.pre_mixer_stream,
        T.consume tokens state) := by
  have hall : window (T.layers.map DecoderLayer.prefill) 0 T.layers.length
      (tokens.map T.initialize_stream, tokens) state.layers.1 =
        through (T.layers.map DecoderLayer.prefill)
          (tokens.map T.initialize_stream, tokens) state.layers.1 := by
    have hwindow := window_all (tokens.map T.initialize_stream, tokens)
      (T.layers.map DecoderLayer.prefill) state.layers.1 (by rw [List.length_map, state.layers.2])
    rwa [List.length_map] at hwindow
  have hrows := through_prefill hT (T.rows_of tokens) state.layers.1
  simp only [rows_of, List.map_map] at hrows
  have hfst : tokens.map (Prod.fst ∘ fun token => (T.initialize_stream token, token)) =
      tokens.map T.initialize_stream := rfl
  have hsnd : tokens.map (Prod.snd ∘ fun token => (T.initialize_stream token, token)) = tokens := by
    simp [Function.comp_def]
  rw [hfst, hsnd] at hrows
  rw [prefill_chunk_batch_eq _ h, streams_steps]
  refine congrArg Except.ok (Prod.ext ?_ (ModelDecodeState.ext (Subtype.ext ?_) ?_))
  · simp only [prefill, List.map_singleton, items_cons, items_nil, prefill_window, hall, hrows,
      List.headD_cons, rows_of]
  · rw [layers_consume]
    simp only [prefill, List.map_singleton, items_cons, items_nil, prefill_window, hall, hrows,
      rows_of]
  · simp [prefill]

/-- The rows of a proposal through all layers, row by row. -/
theorem report_verify (hT : T.RowWise) (rows : List (T.Stream × Token)) (ss : List T.LayerState) :
    report (T.layers.map DecoderLayer.verify) rows ss =
      checkpoints (through (T.layers.map DecoderLayer.decode)) rows ss := by
  have hlayers : ∀ layer ∈ T.layers, layer.verify = checkpoints layer.decode := by
    intro layer hlayer
    funext rows state
    have htokens := items_decode_tokens [layer] rows [state]
    rw [List.map_singleton, items_through, List.map_singleton, through_cons, through_nil]
      at htokens
    rw [DecoderLayer.verify, hT.forward_verify_dense_batched layer hlayer rows state]
    refine Prod.ext ?_ rfl
    simp only [fst_checkpoints]
    rw [← htokens, ← List.zip_of_prod rfl rfl]
  rw [checkpoints_through, List.map_map, List.map_congr_left hlayers]
  rfl

theorem verify_steps_checkpoints (state : ModelDecodeState T)
    (h : ∀ row ∈ (checkpoints (through (T.layers.map DecoderLayer.decode)) (T.rows_of tokens)
      state.layers.1).2, row.length = T.layers.length) :
    T.verify_steps state.token_count
        ((checkpoints (through (T.layers.map DecoderLayer.decode)) (T.rows_of tokens)
          state.layers.1).1.map Prod.fst)
        ((checkpoints (through (T.layers.map DecoderLayer.decode)) (T.rows_of tokens)
          state.layers.1).2.attachWith _ h) = T.steps tokens state := by
  induction tokens generalizing state with
  | nil => rfl
  | cons token tokens ih =>
    rw [steps, ← ih (T.forward_decode_capture token state).2 fun row hrow =>
      h row (List.mem_cons_of_mem _ hrow)]
    rfl

/-- **The verified rows are steps, one by one**, and the state of each row is there to be gone back
to. A verification that is stopped at a row has consumed the rows up to it. -/
theorem forward_verify_eq (hT : T.RowWise) (htokens : tokens ≠ []) (hlength : tokens.length ≤ 25) :
    T.forward_verify_layer_major_reference tokens state = .ok (T.steps tokens state) := by
  have hnot : ¬(tokens = [] ∨ 25 < tokens.length) := by
    rintro (hnil | hlong)
    · exact htokens hnil
    · omega
  have hsteps : ∀ r, r = checkpoints (through (T.layers.map DecoderLayer.decode))
      (T.rows_of tokens) state.layers.1 → ∀ h : ∀ row ∈ r.2, row.length = T.layers.length,
      T.verify_steps state.token_count (r.1.map Prod.fst) (r.2.attachWith _ h) =
        T.steps tokens state := by
    rintro r rfl h
    exact verify_steps_checkpoints state h
  rw [forward_verify_layer_major_reference, if_neg hnot]
  exact congrArg Except.ok (hsteps _ (report_verify hT _ _) _)

/-! ### Several requests -/

variable (T) in
/-- Every layer does with rows of several requests what it does with each of them. -/
def DecodesApart : Prop :=
  ∀ layer ∈ T.layers, ∀ rows states, rows ≠ [] → rows.length ≤ 64 → rows.length = states.length →
    layer.decode_multi rows states = apiece layer.decode rows states

/-- **Requests that are decoded together do not see each other**: where a layer does with rows of
several requests what it does with each, the shared step is one step for each of them. -/
theorem forward_decode_capture_multi_eq (hT : T.DecodesApart) {states : List (ModelDecodeState T)}
    {steps : List (TargetDecodeStep T × ModelDecodeState T)}
    (hrun : T.forward_decode_capture_multi tokens states = .ok steps) :
    steps = List.zipWith T.forward_decode_capture tokens states := by
  rw [forward_decode_capture_multi] at hrun
  split_ifs at hrun with hcount hrange
  obtain ⟨hne, hlength, hle⟩ : tokens ≠ [] ∧ tokens.length = states.length ∧ tokens.length ≤ 64 := by
    rw [not_or, not_or, not_not, Nat.not_lt] at hcount
    exact hcount
  have hwidth : (List.zipWith (fun token state => ((T.initialize_stream token, token), state.layers.1))
      tokens states).length = tokens.length := by
    rw [List.length_zipWith, ← hlength, Nat.min_self]
  have habreast := @abreast_eq_map _ _ _ T.layers DecoderLayer.decode_multi DecoderLayer.decode
    (List.zipWith (fun token state => ((T.initialize_stream token, token), state.layers.1)) tokens states)
    (by
      intro layer hlayer rows states' hrows hstates
      rw [hwidth] at hrows hstates
      refine hT layer hlayer rows states' (List.ne_nil_of_length_pos ?_) (hrows ▸ hle)
        (hrows.trans hstates.symm)
      rw [hrows]
      exact List.length_pos_of_ne_nil hne)
    (by
      intro row hrow
      obtain ⟨i, hi, rfl⟩ := List.mem_iff_getElem.mp hrow
      rw [List.getElem_zipWith]
      exact (ModelDecodeState.layers _).2)
  obtain rfl := Except.ok.inj hrun
  rw [habreast]
  clear habreast hwidth hcount hrange hne hle hrun
  simp only [List.map_zipWith]
  induction tokens generalizing states with
  | nil => simp
  | cons token tokens ih =>
    cases states with
    | nil => simp at hlength
    | cons state states =>
      rw [List.zipWith_cons_cons, List.zipWith_cons_cons, List.zipWith_cons_cons,
        ih (by simpa using hlength)]
      have hlayers : (through (T.layers.map DecoderLayer.decode)
          (T.initialize_stream token, token) state.layers.1).2.length = T.layers.length := by
        rw [length_through, state.layers.2]
      simp only [hlayers, dif_pos, forward_decode_capture]

/-! ### What has been consumed -/

variable {ctx : List Token} {token : Token}

theorem after_append (us : List Token) : T.after (ctx ++ us) = T.consume us (T.after ctx) :=
  consume_append us

@[simp] theorem token_count_after : (T.after ctx).token_count = ctx.length := by
  rw [after, token_count_consume, make_state, Nat.zero_add]

variable (T) in
/-- One more token. -/
theorem forward_decode_capture_after (token : Token) (ctx : List Token) :
    T.forward_decode_capture token (T.after ctx) =
      (T.last_step (ctx ++ [token]), T.after (ctx ++ [token])) := by
  rw [last_step, List.getLastD_concat, List.dropLast_concat, after_append]
  rfl

variable (T) in
/-- The step for the last of these tokens. -/
def step_at (ctx : List Token) : TargetVerifyStep T where
  logits := (T.last_step ctx).logits
  pre_mixer_stream := T.stream ctx
  state_after := T.after ctx

@[simp] theorem argmax_step_at : T.argmax (T.step_at ctx).logits = T.next ctx := rfl

theorem steps_cons_after (token : Token) (tokens : List Token) (ctx : List Token) :
    T.steps (token :: tokens) (T.after ctx) =
      T.step_at (ctx ++ [token]) :: T.steps tokens (T.after (ctx ++ [token])) := by
  rw [steps, forward_decode_capture_after]
  rfl

@[simp] theorem length_steps : (T.steps tokens state).length = tokens.length := by
  induction tokens generalizing state with
  | nil => rfl
  | cons token tokens ih => rw [steps, List.length_cons, ih, List.length_cons]

/-- The steps after a context are the steps of its extensions. -/
theorem getElem?_steps (ctx : List Token) {i : Nat} (hi : i < tokens.length) :
    (T.steps tokens (T.after ctx))[i]? = some (T.step_at (ctx ++ tokens.take (i + 1))) := by
  induction tokens generalizing ctx i with
  | nil => simp at hi
  | cons token tokens ih =>
    rw [steps_cons_after]
    cases i with
    | zero => rfl
    | succ i =>
      have hrest := ih (ctx ++ [token]) (by simpa using hi)
      rw [List.append_assoc] at hrest
      exact hrest

end Target

/-! ### A model that remembers what it has consumed -/

/-- A context and its extensions by these tokens, one by one. -/
def extensions : List Token → List Token → List (List Token)
  | _, [] => []
  | ctx, token :: tokens => (ctx ++ [token]) :: extensions (ctx ++ [token]) tokens

theorem length_extensions (ctx tokens : List Token) :
    (extensions ctx tokens).length = tokens.length := by
  induction tokens generalizing ctx with
  | nil => rfl
  | cons token tokens ih => rw [extensions, List.length_cons, ih, List.length_cons]

/-- A layer whose state and stream are the consumed tokens. -/
def remembering : DecoderLayer (List Token) (List Token) where
  make_state := []
  forward_decode := fun _ token state => (state ++ [token], state ++ [token])
  forward_decode_multi := fun _ tokens states =>
    (List.zipWith (fun token state => state ++ [token]) tokens states,
      List.zipWith (fun token state => state ++ [token]) tokens states)
  forward_prefill := fun _ tokens state => (extensions state tokens, state ++ tokens)
  forward_verify_dense_batched := fun _ tokens state =>
    (extensions state tokens, extensions state tokens)
  length_forward_prefill := fun _ tokens state h => (length_extensions state tokens).trans h.symm

/-- One remembering layer; `next` is the argmax. -/
def consumed (next : List Token → Token) : Target where
  LayerState := List Token
  Stream := List Token
  Logits := List Token
  layers := [remembering]
  layers_ne_nil := List.cons_ne_nil _ _
  vocabulary_size := 248320
  initialize_stream := fun token => [token]
  head := id
  argmax := next
  prefill_barrier_stride := 1
  prefill_barrier_stride_pos := Nat.one_pos

section Consumed

variable (next : List Token → Token)

theorem items_remembering (rows : List (List Token × Token)) (state : List Token) :
    ((items remembering.decode rows state).1.map Prod.fst,
        (items remembering.decode rows state).2) =
      (extensions state (rows.map Prod.snd), state ++ rows.map Prod.snd) := by
  induction rows generalizing state with
  | nil => simp [extensions]
  | cons row rows ih =>
    obtain ⟨hstreams, hstate⟩ := Prod.mk.inj (ih (state ++ [row.2]))
    simp only [items_cons, List.map_cons, extensions, DecoderLayer.decode, remembering] at *
    rw [hstreams, hstate, List.append_assoc, List.singleton_append]

theorem checkpoints_remembering (rows : List (List Token × Token)) (state : List Token) :
    (checkpoints remembering.decode rows state).2 = extensions state (rows.map Prod.snd) := by
  induction rows generalizing state with
  | nil => rfl
  | cons row rows ih => exact congrArg _ (ih (state ++ [row.2]))

theorem consumed_rowWise : (consumed next).RowWise where
  forward_prefill := by
    intro layer hlayer rows state
    obtain rfl := List.mem_singleton.mp hlayer
    exact (items_remembering rows state).symm
  forward_verify_dense_batched := by
    intro layer hlayer rows state
    obtain rfl := List.mem_singleton.mp hlayer
    obtain ⟨hstreams, -⟩ := Prod.mk.inj (items_remembering rows state)
    rw [fst_checkpoints]
    exact Prod.ext hstreams.symm (checkpoints_remembering rows state).symm

theorem decode_multi_remembering (rows : List (List Token × Token)) (states : List (List Token)) :
    remembering.decode_multi rows states = apiece remembering.decode rows states := by
  simp only [DecoderLayer.decode_multi, apiece, remembering]
  induction rows generalizing states with
  | nil => rfl
  | cons row rows ih =>
    cases states with
    | nil => rfl
    | cons state states =>
      obtain ⟨hstreams, hstates⟩ := Prod.mk.inj (ih states)
      simp only [List.map_cons, List.zipWith_cons_cons, List.zip_cons_cons, List.unzip_cons, hstreams]
      refine Prod.ext rfl ?_
      exact congrArg (List.cons (state ++ [row.2])) hstates

theorem consumed_decodesApart : (consumed next).DecodesApart := by
  intro layer hlayer rows states _ _ _
  obtain rfl := List.mem_singleton.mp hlayer
  exact decode_multi_remembering rows states

theorem layers_after_consumed (ctx : List Token) :
    ((consumed next).after ctx).layers.1 = [ctx] := by
  induction ctx using List.reverseRecOn with
  | nil => rfl
  | append_singleton ctx token ih =>
    have hstep := congrArg Prod.snd ((consumed next).forward_decode_capture_after token ctx)
    simp only at hstep
    rw [← hstep]
    simp only [Target.forward_decode_capture, ih]
    rfl

/-- **The remembering model says what `next` says.** -/
theorem next_consumed {ctx : List Token} (h : ctx ≠ []) : (consumed next).next ctx = next ctx := by
  obtain ⟨ctx, token, rfl⟩ := (List.eq_nil_or_concat' ctx).resolve_left h
  have hstep := congrArg Prod.fst ((consumed next).forward_decode_capture_after token ctx)
  simp only at hstep
  rw [Target.next, ← hstep]
  simp only [Target.forward_decode_capture, layers_after_consumed]
  rfl

end Consumed

end Qwen38
