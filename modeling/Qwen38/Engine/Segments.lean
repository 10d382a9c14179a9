import Qwen38.Engine.LayerMajor

/-!
# What the prompt is cut into

The two ways to prefill cut the prompt into chunks, and hand the stream batch of each to a
consumer with its offset and the number of its rows, which they do not take from the batch
but compute once more. The loops are the ones of `Qwen38.NativeEngine.prefill`, with the
consumer as a parameter; one that keeps what it is given (`Qwen38.NativeEngine.record`)
shows what all of them get.

The chunks are cut right always. The declared rows are those of the batch unless the
windows of a layer-major prefill end within a chunk
(`Qwen38.NativeEngine.prefills_once_iff`).
-/

namespace Qwen38

open Target

variable {T : Target}

namespace Target

/-- **Exchanging the loops changes nothing**: where the call is admitted, layer-major prefill
returns, with the stream batches of the chunks one after the other and the state they
leave. -/
theorem layer_major_is_chunk_by_chunk (T : Target) (tokens : List Token) (chunk_rows : Nat)
    (state : ModelDecodeState T) :
    if tokens = [] ∨ 8192 < tokens.length ∨ chunk_rows = 0 ∨ 2048 < chunk_rows then
      T.prefill_chunks_layer_major tokens chunk_rows state =
        .error "layer-major prefill requires 1..8192 tokens and chunk_rows between 1 and 2048"
    else
      ∃ outputs state',
        T.prefill_chunks_layer_major tokens chunk_rows state = .ok (outputs, state') ∧
        T.prefill_chunks (split_chunks chunk_rows tokens.length tokens) state =
          .ok (outputs, state') ∧
        (split_chunks chunk_rows tokens.length tokens).flatten = tokens ∧
        state'.token_count = state.token_count + tokens.length := by
  split
  · next hguard => rw [prefill_chunks_layer_major, if_pos hguard]
  · next hguard =>
    rw [not_or, not_or, not_or] at hguard
    obtain ⟨hne, hlength, hpos, hrows⟩ := hguard
    have hfits := fitsChunk_of_mem_split_chunks (Nat.pos_of_ne_zero hpos) (by omega)
      tokens.length tokens
    have hchunks : T.prefill_chunks (split_chunks chunk_rows tokens.length tokens) state =
        .ok (T.prefill (split_chunks chunk_rows tokens.length tokens) state) :=
      prefill_chunks_eq hfits
    have hmajor : T.prefill_chunks_layer_major tokens chunk_rows state =
        T.prefill_chunks (split_chunks chunk_rows tokens.length tokens) state :=
      prefill_chunks_layer_major_eq hne (by omega) (Nat.pos_of_ne_zero hpos) (by omega)
    have hflatten := flatten_split_chunks (Nat.pos_of_ne_zero hpos) tokens
    refine ⟨_, _, hmajor.trans hchunks, hchunks, hflatten, ?_⟩
    change state.token_count + ((split_chunks chunk_rows tokens.length tokens).map List.length).sum =
      state.token_count + tokens.length
    rw [← List.length_flatten, hflatten]

end Target

namespace NativeEngine

variable (engine : NativeEngine T) {σ : Type}

/-! ### The loops, for any consumer -/

/-- What takes a stream batch, its offset in the prompt, and its declared rows. -/
abbrev Consumer (T : Target) (σ : Type) := List T.Stream → Nat → Nat → σ → Except String σ

variable (consume : Consumer T σ) (prompt_tokens : List Token) (chunk_rows : Nat)

/-- The chunks one after the other. -/
def feed_chunk_major : Nat → Nat → ModelDecodeState T × σ → Except String (ModelDecodeState T × σ)
  | 0, _, s => .ok s
  | fuel + 1, offset, s =>
    let prefill_rows := prompt_tokens.length - 1
    if offset < prefill_rows then do
      let count := min chunk_rows (prefill_rows - offset)
      let (stream_batch, state) ← T.prefill_chunk_batch ((prompt_tokens.drop offset).take count) s.1
      let consumer ← consume stream_batch offset count s.2
      feed_chunk_major fuel (offset + chunk_rows) (state, consumer)
    else .ok s

/-- The stream batches of a window. -/
def feed_outputs : List (List T.Stream) → Nat → σ → Except String σ
  | [], _, s => .ok s
  | output :: outputs, output_offset, s => do
    let output_count := min chunk_rows (prompt_tokens.length - 1 - output_offset)
    let s ← consume output output_offset output_count s
    feed_outputs outputs (output_offset + output_count) s

/-- The prompt in windows. -/
def feed_layer_major : Nat → Nat → ModelDecodeState T × σ → Except String (ModelDecodeState T × σ)
  | 0, _, s => .ok s
  | fuel + 1, window_offset, s =>
    let window_rows := 8192
    let prefill_rows := prompt_tokens.length - 1
    if window_offset < prefill_rows then do
      let count := min window_rows (prefill_rows - window_offset)
      let (outputs, state) ← T.prefill_chunks_layer_major
        ((prompt_tokens.drop window_offset).take count) chunk_rows s.1
      let consumer ← feed_outputs consume prompt_tokens chunk_rows outputs window_offset s.2
      feed_layer_major fuel (window_offset + window_rows) (state, consumer)
    else .ok s

/-- The prefill of what the cache does not have. -/
def feed (prefill_offset : Nat) (s : ModelDecodeState T × σ) :
    Except String (ModelDecodeState T × σ) :=
  let prefill_rows := prompt_tokens.length - 1
  let chunk_rows := engine.request_prefill_chunk prefill_rows
  let packed_vq_layer_major := engine.mtp_head.isNone ∧
    chunk_rows < prefill_rows - prefill_offset ∧ engine.packed_vq
  if packed_vq_layer_major then
    feed_layer_major consume prompt_tokens chunk_rows prefill_rows prefill_offset s
  else feed_chunk_major consume prompt_tokens chunk_rows prefill_rows prefill_offset s

/-! ### The engine's consumer -/

section Consume

variable (stream_batch : List T.Stream) (offset count : Nat) (s : Prefilled T)
  (state : ModelDecodeState T)

/-- The consumer does not look at the state of the target. -/
theorem consume_target_row_state (row : Nat) :
    engine.consume_target_row prompt_tokens stream_batch offset { s with state } row =
      (engine.consume_target_row prompt_tokens stream_batch offset s row).map ({ · with state }) := by
  rw [consume_target_row, consume_target_row]
  dsimp only
  have hlast : ∀ mtp_state : MtpDecodeState T,
      ((do
        let last ← slice_sequence_rows stream_batch row (row + 1)
        pure { s with state, mtp_state, previous_target_stream := last.head? }) :
          Except String (Prefilled T)) =
        Except.map ({ · with state }) (do
          let last ← slice_sequence_rows stream_batch row (row + 1)
          pure { s with mtp_state, previous_target_stream := last.head? }) := by
    intro mtp_state
    cases slice_sequence_rows stream_batch row (row + 1) <;> rfl
  split
  · next previous _ _ =>
    cases s.mtp_state.consume_decode previous (prompt_tokens.getD (offset + row) 0)
      (offset + row) with
    | error e => rfl
    | ok mtp_state => exact hlast mtp_state
  · exact hlast s.mtp_state

theorem consume_target_batch_state :
    engine.consume_target_batch prompt_tokens stream_batch offset count { s with state } =
      (engine.consume_target_batch prompt_tokens stream_batch offset count s).map
        ({ · with state }) := by
  rw [consume_target_batch, consume_target_batch]
  split
  · have hrows : consume_target_rows prompt_tokens stream_batch offset count { s with state } =
        consume_target_rows prompt_tokens stream_batch offset count s := rfl
    rw [hrows]
    cases consume_target_rows prompt_tokens stream_batch offset count s with
    | error e => rfl
    | ok mtp_state => cases slice_sequence_rows stream_batch (count - 1) count <;> rfl
  · exact Except.foldlM_map_state ({ · with state })
      (fun s row => consume_target_row_state engine prompt_tokens stream_batch offset s state row) _ s

theorem consume_stream_batch_state :
    engine.consume_stream_batch prompt_tokens stream_batch offset count { s with state } =
      (engine.consume_stream_batch prompt_tokens stream_batch offset count s).map
        ({ · with state }) := by
  refine Except.foldlM_map_state ({ · with state }) (fun s index => ?_) _ s
  rw [consume_stream_piece, consume_stream_piece]
  dsimp only
  split
  · exact consume_target_batch_state engine prompt_tokens stream_batch _ _ s state
  · cases slice_sequence_rows stream_batch (index * 512)
      (index * 512 + min 512 (count - index * 512)) with
    | error e => rfl
    | ok batch => exact consume_target_batch_state engine prompt_tokens batch _ _ s state

/-- The state of the target put back where the engine keeps it. -/
def rejoin (s : ModelDecodeState T × Prefilled T) : Prefilled T := { s.2 with state := s.1 }

theorem feed_outputs_eq (outputs : List (List T.Stream)) :
    engine.consume_outputs prompt_tokens chunk_rows outputs offset { s with state } =
      (feed_outputs (engine.consume_stream_batch prompt_tokens) prompt_tokens chunk_rows outputs
        offset s).map ({ · with state }) := by
  induction outputs generalizing offset s with
  | nil => rfl
  | cons output outputs ih =>
    simp only [consume_outputs, feed_outputs]
    rw [consume_stream_batch_state]
    cases engine.consume_stream_batch prompt_tokens output offset
      (min chunk_rows (prompt_tokens.length - 1 - offset)) s with
    | error e => rfl
    | ok s' => exact ih _ s'

theorem feed_chunk_major_eq (fuel : Nat) :
    engine.prefill_chunk_major prompt_tokens chunk_rows fuel offset (rejoin (state, s)) =
      (feed_chunk_major (engine.consume_stream_batch prompt_tokens) prompt_tokens chunk_rows fuel
        offset (state, s)).map rejoin := by
  induction fuel generalizing offset state s with
  | zero => rfl
  | succ fuel ih =>
    rw [prefill_chunk_major, feed_chunk_major]
    split
    · have hstate : (rejoin (state, s)).state = state := rfl
      simp only [hstate]
      cases T.prefill_chunk_batch ((prompt_tokens.drop offset).take
        (min chunk_rows (prompt_tokens.length - 1 - offset))) state with
      | error e => rfl
      | ok r =>
        obtain ⟨batch, state'⟩ := r
        have hconsume := consume_stream_batch_state engine prompt_tokens batch offset
          (min chunk_rows (prompt_tokens.length - 1 - offset)) s state'
        have hjoin : ({ rejoin (state, s) with state := state' } : Prefilled T) =
            { s with state := state' } := rfl
        simp only [Except.ok_bind, hjoin, hconsume]
        cases engine.consume_stream_batch prompt_tokens batch offset
          (min chunk_rows (prompt_tokens.length - 1 - offset)) s with
        | error e => rfl
        | ok s' => exact ih _ s' state'
    · rfl

theorem feed_layer_major_eq (fuel : Nat) :
    engine.prefill_layer_major prompt_tokens chunk_rows fuel offset (rejoin (state, s)) =
      (feed_layer_major (engine.consume_stream_batch prompt_tokens) prompt_tokens chunk_rows fuel
        offset (state, s)).map rejoin := by
  induction fuel generalizing offset state s with
  | zero => rfl
  | succ fuel ih =>
    rw [prefill_layer_major, feed_layer_major]
    split
    · have hstate : (rejoin (state, s)).state = state := rfl
      simp only [hstate]
      cases T.prefill_chunks_layer_major ((prompt_tokens.drop offset).take
        (min 8192 (prompt_tokens.length - 1 - offset))) chunk_rows state with
      | error e => rfl
      | ok r =>
        obtain ⟨outputs, state'⟩ := r
        have hconsume := feed_outputs_eq engine prompt_tokens chunk_rows offset s state' outputs
        have hjoin : ({ rejoin (state, s) with state := state' } : Prefilled T) =
            { s with state := state' } := rfl
        simp only [Except.ok_bind, hjoin, hconsume]
        cases feed_outputs (engine.consume_stream_batch prompt_tokens) prompt_tokens chunk_rows
          outputs offset s with
        | error e => rfl
        | ok s' => exact ih _ s' state'
    · rfl

/-- **The engine's prefill is these loops with its own consumer.** -/
theorem prefill_eq_feed :
    engine.prefill prompt_tokens s =
      (engine.feed (engine.consume_stream_batch prompt_tokens) prompt_tokens s.prefill_offset
        (s.state, s)).map rejoin := by
  have hjoin : rejoin (s.state, s) = s := rfl
  rw [prefill, feed]
  split
  · rw [← feed_layer_major_eq, hjoin]
  · rw [← feed_chunk_major_eq, hjoin]

end Consume

/-! ### What a consumer is given -/

/-- A stream batch as it is handed over. -/
structure Feed (T : Target) where
  batch : List T.Stream
  offset : Nat
  count : Nat

/-- The consumer that keeps what it is given. -/
def record : Consumer T (List (Feed T)) := fun batch offset count feeds =>
  .ok (feeds ++ [⟨batch, offset, count⟩])

/-- One batch behind the other from this offset on, each with its own number of rows. -/
def Contiguous : Nat → List (Feed T) → Prop
  | _, [] => True
  | offset, f :: fs =>
    f.offset = offset ∧ f.count = f.batch.length ∧ Contiguous (offset + f.count) fs

/-- The rows of the batches. -/
def rows_of_feeds (feeds : List (Feed T)) : Nat := (feeds.map fun f => f.batch.length).sum

theorem contiguous_append {fs gs : List (Feed T)} {offset : Nat} :
    Contiguous offset (fs ++ gs) ↔
      Contiguous offset fs ∧ Contiguous (offset + rows_of_feeds fs) gs := by
  induction fs generalizing offset with
  | nil => simp [Contiguous, rows_of_feeds]
  | cons f fs ih =>
    rw [List.cons_append, Contiguous, Contiguous, ih, and_assoc, and_assoc]
    refine and_congr_right fun _ => and_congr_right fun hcount => ?_
    rw [rows_of_feeds, rows_of_feeds, List.map_cons, List.sum_cons, hcount, Nat.add_assoc]

/-- The prompt is prefilled once: the chunks are its rows from the offset on, in order, the
target has gone through them one after the other, and each of its stream batches has been
handed over once, at its place and with its own number of rows. -/
def PrefillsOnce (prefill_offset : Nat) (state : ModelDecodeState T) : Prop :=
  ∃ chunks feeds, (∀ chunk ∈ chunks, FitsChunk chunk) ∧
    chunks.flatten = (prompt_tokens.take (prompt_tokens.length - 1)).drop prefill_offset ∧
    engine.feed record prompt_tokens prefill_offset (state, []) =
      .ok ((T.prefill chunks state).2, feeds) ∧
    feeds.map Feed.batch = (T.prefill chunks state).1 ∧ Contiguous prefill_offset feeds

variable {engine prompt_tokens chunk_rows}

/-! ### The outputs of a window -/

variable (prompt_tokens chunk_rows) in
/-- What is handed over of a window. -/
def output_feeds : List (List T.Stream) → Nat → List (Feed T)
  | [], _ => []
  | output :: outputs, output_offset =>
    let output_count := min chunk_rows (prompt_tokens.length - 1 - output_offset)
    ⟨output, output_offset, output_count⟩ :: output_feeds outputs (output_offset + output_count)

theorem feed_outputs_record (outputs : List (List T.Stream)) (output_offset : Nat)
    (feeds : List (Feed T)) :
    feed_outputs record prompt_tokens chunk_rows outputs output_offset feeds =
      .ok (feeds ++ output_feeds prompt_tokens chunk_rows outputs output_offset) := by
  induction outputs generalizing output_offset feeds with
  | nil =>
    rw [output_feeds, List.append_nil]
    rfl
  | cons output outputs ih =>
    simp only [feed_outputs, record, Except.ok_bind]
    rw [ih, output_feeds, List.append_assoc]
    rfl

theorem map_batch_output_feeds (outputs : List (List T.Stream)) (output_offset : Nat) :
    (output_feeds prompt_tokens chunk_rows outputs output_offset).map Feed.batch = outputs := by
  induction outputs generalizing output_offset with
  | nil => rfl
  | cons output outputs ih =>
    simp only [output_feeds, List.map_cons]
    rw [ih]

/-- **The declared rows of a window** are those of its batches when it ends where the prompt
does, or with a whole chunk. -/
theorem contiguous_output_feeds (hpos : 0 < chunk_rows) {tokens : List Token}
    {outputs : List (List T.Stream)} {offset : Nat}
    (houtputs : outputs.map List.length =
      (split_chunks chunk_rows tokens.length tokens).map List.length)
    (hend : offset + tokens.length ≤ prompt_tokens.length - 1) :
    Contiguous offset (output_feeds prompt_tokens chunk_rows outputs offset) ↔
      offset + tokens.length = prompt_tokens.length - 1 ∨ chunk_rows ∣ tokens.length := by
  induction outputs generalizing tokens offset with
  | nil =>
    have hnil : tokens = [] := by
      by_contra hne
      rw [split_chunks_cons hpos hne] at houtputs
      exact List.cons_ne_nil _ _ houtputs.symm
    subst hnil
    exact iff_of_true trivial (Or.inr (Nat.dvd_zero _))
  | cons output outputs ih =>
    have hne : tokens ≠ [] := by
      rintro rfl
      exact List.cons_ne_nil _ _ houtputs
    have hlong := List.length_pos_of_ne_nil hne
    rw [split_chunks_cons hpos hne, List.map_cons, List.map_cons, List.length_take] at houtputs
    obtain ⟨houtput, hrest⟩ := List.cons.inj houtputs
    simp only [output_feeds, Contiguous, true_and]
    by_cases hwhole : offset + tokens.length = prompt_tokens.length - 1 ∨ chunk_rows ≤ tokens.length
    · have hcount : min chunk_rows (prompt_tokens.length - 1 - offset) = output.length := by omega
      rw [hcount, ih hrest (by rw [List.length_drop]; omega), List.length_drop]
      by_cases hle : chunk_rows ≤ tokens.length
      · have hdvd : chunk_rows ∣ tokens.length - chunk_rows ↔ chunk_rows ∣ tokens.length :=
          Nat.dvd_sub_iff_left hle (Nat.dvd_refl _)
        have hsum : offset + output.length + (tokens.length - chunk_rows) =
            offset + tokens.length := by omega
        rw [hdvd, hsum]
        exact ⟨fun h => h.2, fun h => ⟨rfl, h⟩⟩
      · have hstop := hwhole.resolve_right hle
        exact iff_of_true ⟨rfl, Or.inl (by omega)⟩ (Or.inl hstop)
    · -- a batch that is shorter than a chunk, with rows of the prompt behind it
      refine iff_of_false (fun h => ?_) ?_
      · have hcount := h.1
        omega
      · rintro (hstop | hdvd)
        · exact hwhole (Or.inl hstop)
        · exact hwhole (Or.inr (Nat.le_of_dvd hlong hdvd))

/-! ### One group of chunks after the other -/

variable (prompt_tokens) in
/-- From this offset on, every row is prefilled and handed over once. -/
def FedOnce (offset : Nat) (state : ModelDecodeState T) (feeds : List (Feed T))
    (r : Except String (ModelDecodeState T × List (Feed T))) : Prop :=
  ∃ chunks feeds', (∀ chunk ∈ chunks, FitsChunk chunk) ∧
    chunks.flatten = prompt_tokens.dropLast.drop offset ∧
    r = .ok ((T.prefill chunks state).2, feeds ++ feeds') ∧
    feeds'.map Feed.batch = (T.prefill chunks state).1 ∧ Contiguous offset feeds'

theorem fedOnce_done {offset : Nat} (h : prompt_tokens.length - 1 ≤ offset)
    (state : ModelDecodeState T) (feeds : List (Feed T)) :
    FedOnce prompt_tokens offset state feeds (.ok (state, feeds)) := by
  refine ⟨[], [], nofun, ?_, ?_, rfl, trivial⟩
  · rw [List.drop_of_length_le (by rw [List.length_dropLast]; exact h), List.flatten_nil]
  · rw [List.append_nil]
    rfl

/-- As many rows as the chunks of a prefill have tokens are handed over. -/
theorem rows_of_feeds_eq {chunks : List (List Token)} {fs : List (Feed T)}
    {state : ModelDecodeState T} (h : fs.map Feed.batch = (T.prefill chunks state).1) :
    rows_of_feeds fs = chunks.flatten.length := by
  have hlengths := length_prefill chunks state
  rw [← h, List.map_map] at hlengths
  rw [List.length_flatten, ← hlengths]
  rfl

/-- A group of chunks in front of the others. -/
theorem FedOnce.append {offset n : Nat} {state : ModelDecodeState T} {feeds fs : List (Feed T)}
    {chunks : List (List Token)} {r : Except String (ModelDecodeState T × List (Feed T))}
    (hfits : ∀ chunk ∈ chunks, FitsChunk chunk)
    (hflatten : chunks.flatten = (prompt_tokens.dropLast.drop offset).take n)
    (hbatches : fs.map Feed.batch = (T.prefill chunks state).1) (hfs : Contiguous offset fs)
    (h : FedOnce prompt_tokens (offset + n) (T.prefill chunks state).2 (feeds ++ fs) r) :
    FedOnce prompt_tokens offset state feeds r := by
  obtain ⟨rest, feeds', hall, hrest, hrun, hbatches', hcontiguous⟩ := h
  refine ⟨chunks ++ rest, fs ++ feeds', ?_, ?_, ?_, ?_, contiguous_append.mpr ⟨hfs, ?_⟩⟩
  · intro chunk hchunk
    rcases List.mem_append.mp hchunk with hchunk | hchunk
    · exact hfits chunk hchunk
    · exact hall chunk hchunk
  · rw [List.flatten_append, hflatten, hrest, ← List.drop_drop, List.take_append_drop]
  · rw [hrun, prefill_append, List.append_assoc]
  · rw [List.map_append, hbatches, hbatches', prefill_append]
  · rw [rows_of_feeds_eq hbatches, hflatten, List.length_take, List.length_drop,
      List.length_dropLast]
    rcases Nat.le_total n (prompt_tokens.length - 1 - offset) with hle | hle
    · rwa [Nat.min_eq_left hle]
    · -- nothing is left
      have hrows := rows_of_feeds_eq hbatches'
      rw [hrest, List.length_drop, List.length_dropLast] at hrows
      cases feeds' with
      | nil => trivial
      | cons f fs' =>
        obtain ⟨c, cs, rfl⟩ : ∃ c cs, rest = c :: cs := by
          cases rest with
          | nil => exact absurd hbatches' (List.cons_ne_nil _ _)
          | cons c cs => exact ⟨c, cs, rfl⟩
        have hne := (hall c List.mem_cons_self).1
        have hnil : (c :: cs).flatten = [] := by
          rw [hrest, List.drop_of_length_le (by rw [List.length_dropLast]; omega)]
        rw [List.flatten_cons, List.append_eq_nil_iff] at hnil
        exact absurd hnil.1 hne

/-- The chunk of the prompt at an offset. -/
theorem prefill_chunk_at (hpos : 0 < chunk_rows) (hmax : chunk_rows ≤ 2048) {offset : Nat}
    (hmore : offset < prompt_tokens.length - 1) (state : ModelDecodeState T) :
    ∃ (chunk : List Token) (batch : List T.Stream), FitsChunk chunk ∧ chunk = (prompt_tokens.dropLast.drop offset).take chunk_rows ∧
      T.prefill_chunk_batch ((prompt_tokens.drop offset).take
          (min chunk_rows (prompt_tokens.length - 1 - offset))) state =
        .ok (batch, (T.prefill [chunk] state).2) ∧
      (T.prefill [chunk] state).1 = [batch] ∧
      batch.length = min chunk_rows (prompt_tokens.length - 1 - offset) := by
  have hlength : ((prompt_tokens.dropLast.drop offset).take chunk_rows).length =
      min chunk_rows (prompt_tokens.length - 1 - offset) := by
    rw [List.length_take, List.length_drop, List.length_dropLast]
  have hchunk : (prompt_tokens.drop offset).take
      (min chunk_rows (prompt_tokens.length - 1 - offset)) =
        (prompt_tokens.dropLast.drop offset).take chunk_rows := by
    rw [List.dropLast_eq_take, List.drop_take, List.take_take]
  have hfits : FitsChunk ((prompt_tokens.dropLast.drop offset).take chunk_rows) :=
    ⟨List.ne_nil_of_length_pos (by omega), by omega⟩
  have hlengths := length_prefill [(prompt_tokens.dropLast.drop offset).take chunk_rows] state
  obtain ⟨batch, hbatch⟩ : ∃ batch,
      (T.prefill [(prompt_tokens.dropLast.drop offset).take chunk_rows] state).1 = [batch] := by
    have hone := congrArg List.length hlengths
    rw [List.length_map] at hone
    exact List.length_eq_one_iff.mp hone
  rw [hbatch] at hlengths
  refine ⟨_, batch, hfits, rfl, ?_, hbatch, ?_⟩
  · rw [hchunk, prefill_chunk_batch_eq state hfits, hbatch]
    rfl
  · rw [← hlength]
    exact (List.cons.inj hlengths).1

/-- **Chunk by chunk**, every row is handed over once. -/
theorem fedOnce_chunk_major (hpos : 0 < chunk_rows) (hmax : chunk_rows ≤ 2048)
    {fuel offset : Nat} (hfuel : prompt_tokens.length - 1 ≤ offset + fuel)
    (state : ModelDecodeState T) (feeds : List (Feed T)) :
    FedOnce prompt_tokens offset state feeds
      (feed_chunk_major record prompt_tokens chunk_rows fuel offset (state, feeds)) := by
  induction fuel generalizing offset state feeds with
  | zero => exact fedOnce_done (by omega) state feeds
  | succ fuel ih =>
    rw [feed_chunk_major]
    split
    · next hmore =>
      obtain ⟨chunk, batch, hfits, hchunk, hprefill, hbatch, hlength⟩ :=
        prefill_chunk_at hpos hmax hmore state
      simp only [hprefill, Except.ok_bind, record]
      have hone : ([⟨batch, offset, min chunk_rows (prompt_tokens.length - 1 - offset)⟩] :
          List (Feed T)).map Feed.batch = (T.prefill [chunk] state).1 := hbatch.symm
      refine FedOnce.append ?_ ?_ hone ⟨rfl, hlength.symm, trivial⟩ (ih (by omega) _ _)
      · intro c hc
        rwa [List.mem_singleton.mp hc]
      · rw [List.flatten_singleton, hchunk]
    · exact fedOnce_done (by omega) state feeds

/-- The window of the prompt at an offset. -/
theorem prefill_window_at (hpos : 0 < chunk_rows) (hmax : chunk_rows ≤ 2048) {offset : Nat}
    (hmore : offset < prompt_tokens.length - 1) (state : ModelDecodeState T) :
    ∃ (tokens : List Token) (chunks : List (List Token)), (∀ chunk ∈ chunks, FitsChunk chunk) ∧
      tokens.length = min 8192 (prompt_tokens.length - 1 - offset) ∧
      chunks.flatten = (prompt_tokens.dropLast.drop offset).take 8192 ∧
      T.prefill_chunks_layer_major ((prompt_tokens.drop offset).take
          (min 8192 (prompt_tokens.length - 1 - offset))) chunk_rows state =
        .ok (T.prefill chunks state) ∧
      (Contiguous offset (output_feeds prompt_tokens chunk_rows (T.prefill chunks state).1 offset) ↔
        offset + tokens.length = prompt_tokens.length - 1 ∨ chunk_rows ∣ tokens.length) := by
  have hlength : ((prompt_tokens.dropLast.drop offset).take 8192).length =
      min 8192 (prompt_tokens.length - 1 - offset) := by
    rw [List.length_take, List.length_drop, List.length_dropLast]
  have hwindow : (prompt_tokens.drop offset).take (min 8192 (prompt_tokens.length - 1 - offset)) =
      (prompt_tokens.dropLast.drop offset).take 8192 := by
    rw [List.dropLast_eq_take, List.drop_take, List.take_take]
  have hfits := fitsChunk_of_mem_split_chunks hpos hmax
    ((prompt_tokens.dropLast.drop offset).take 8192).length
    ((prompt_tokens.dropLast.drop offset).take 8192)
  refine ⟨_, _, hfits, hlength, flatten_split_chunks hpos _, ?_,
    contiguous_output_feeds hpos (length_prefill _ state) (by omega)⟩
  rw [hwindow, prefill_chunks_layer_major_eq (List.ne_nil_of_length_pos (by omega)) (by omega)
    hpos hmax, prefill_chunks_eq hfits]

/-- **Window by window**, every row is handed over once when the chunks fill the windows. A chunk
that ran past the end of its window would leave the slices that follow short. -/
theorem fedOnce_layer_major (hpos : 0 < chunk_rows) (hmax : chunk_rows ≤ 2048)
    {fuel offset : Nat} (hfuel : prompt_tokens.length - 1 ≤ offset + fuel)
    (hfill : chunk_rows ∣ 8192 ∨ prompt_tokens.length - 1 ≤ offset + 8192)
    (state : ModelDecodeState T) (feeds : List (Feed T)) :
    FedOnce prompt_tokens offset state feeds
      (feed_layer_major record prompt_tokens chunk_rows fuel offset (state, feeds)) := by
  induction fuel generalizing offset state feeds with
  | zero => exact fedOnce_done (by omega) state feeds
  | succ fuel ih =>
    rw [feed_layer_major]
    split
    · next hmore =>
      obtain ⟨tokens, chunks, hfits, hlength, hflatten, hrun, hcontiguous⟩ :=
        prefill_window_at hpos hmax hmore state
      have hcut : offset + tokens.length = prompt_tokens.length - 1 ∨
          chunk_rows ∣ tokens.length := by
        rw [hlength]
        rcases Nat.le_total (prompt_tokens.length - 1 - offset) 8192 with hlast | hfull
        · exact Or.inl (by omega)
        · rcases hfill with hdvd | hshort
          · exact Or.inr (by rwa [Nat.min_eq_left hfull])
          · exact Or.inl (by omega)
      simp only [hrun, Except.ok_bind, feed_outputs_record]
      exact FedOnce.append hfits hflatten (map_batch_output_feeds _ _) (hcontiguous.mpr hcut)
        (ih (by omega) (hfill.imp_right fun hshort => by omega) _ _)
    · exact fedOnce_done (by omega) state feeds

variable (state : ModelDecodeState T)

theorem record_prefix {fuel offset : Nat} {s r : ModelDecodeState T × List (Feed T)}
    (h : feed_layer_major record prompt_tokens chunk_rows fuel offset s = .ok r) :
    s.2 <+: r.2 := by
  induction fuel generalizing offset s with
  | zero =>
    obtain rfl := Except.ok.inj h
    exact List.prefix_refl _
  | succ fuel ih =>
    rw [feed_layer_major] at h
    split at h
    · obtain ⟨⟨outputs, state'⟩, -, h⟩ := Except.bind_eq_ok.mp h
      simp only [feed_outputs_record, Except.ok_bind] at h
      exact (List.prefix_append _ _).trans (ih h)
    · obtain rfl := Except.ok.inj h
      exact List.prefix_refl _

/-- **Windows that end within a chunk**: the last batch of the first of them is declared to
have more rows than it has. -/
theorem not_contiguous_layer_major (hpos : 0 < chunk_rows) (hmax : chunk_rows ≤ 2048)
    {fuel offset : Nat} (hfuel : 0 < fuel) (hdvd : ¬chunk_rows ∣ 8192)
    (hlong : offset + 8192 < prompt_tokens.length - 1) {r : ModelDecodeState T × List (Feed T)}
    (hrun : feed_layer_major record prompt_tokens chunk_rows fuel offset (state, []) = .ok r) :
    ¬Contiguous offset r.2 := by
  obtain ⟨fuel, rfl⟩ := Nat.exists_eq_succ_of_ne_zero (Nat.ne_of_gt hfuel)
  have hmore : offset < prompt_tokens.length - 1 := by omega
  obtain ⟨tokens, chunks, -, hlength, -, hwindow, hcontiguous⟩ :=
    prefill_window_at hpos hmax hmore state
  rw [feed_layer_major, if_pos (by omega)] at hrun
  simp only [hwindow, Except.ok_bind, feed_outputs_record, List.nil_append] at hrun
  obtain ⟨rest, hrest⟩ := record_prefix hrun
  intro h
  rw [← hrest, contiguous_append, hcontiguous, hlength] at h
  rcases h.1 with hend | hcut
  · omega
  · rw [Nat.min_eq_left (by omega)] at hcut
    exact hdvd hcut

/-! ### The prefill -/

variable (engine prompt_tokens) in
/-- A layer-major prefill needs no second window, or its chunks fill the windows. -/
def CutsWhole (prefill_offset : Nat) : Prop :=
  engine.mtp_head = none → engine.packed_vq = true →
    engine.request_prefill_chunk (prompt_tokens.length - 1) ∣ 8192 ∨
      prompt_tokens.length - 1 ≤ prefill_offset + 8192

theorem prefillsOnce_of_cutsWhole {prefill_offset : Nat}
    (h : engine.CutsWhole prompt_tokens prefill_offset) :
    engine.PrefillsOnce prompt_tokens prefill_offset state := by
  have hpos := request_prefill_chunk_pos engine (prompt_tokens.length - 1)
  have hmax := request_prefill_chunk_le engine (prompt_tokens.length - 1)
  have hfed : FedOnce prompt_tokens prefill_offset state []
      (engine.feed record prompt_tokens prefill_offset (state, [])) := by
    rw [feed]
    split
    · next hmajor =>
      exact fedOnce_layer_major hpos hmax (Nat.le_add_left _ _)
        (h (Option.isNone_iff_eq_none.mp hmajor.1) hmajor.2.2) state []
    · exact fedOnce_chunk_major hpos hmax (Nat.le_add_left _ _) state []
  obtain ⟨chunks, feeds, hfits, hflatten, hrun, hbatches, hcontiguous⟩ := hfed
  rw [List.dropLast_eq_take] at hflatten
  exact ⟨chunks, feeds, hfits, hflatten, hrun, hbatches, hcontiguous⟩

theorem not_prefillsOnce {prefill_offset : Nat}
    (h : ¬engine.CutsWhole prompt_tokens prefill_offset) :
    ¬engine.PrefillsOnce prompt_tokens prefill_offset state := by
  have hpos := request_prefill_chunk_pos engine (prompt_tokens.length - 1)
  have hmax := request_prefill_chunk_le engine (prompt_tokens.length - 1)
  rw [CutsWhole, Classical.not_imp, Classical.not_imp, not_or] at h
  obtain ⟨hhead, hpacked, hdvd, hlong⟩ := h
  rintro ⟨chunks, feeds, -, -, hrun, -, hcontiguous⟩
  rw [feed, if_pos ⟨by rw [hhead]; rfl, by omega, hpacked⟩] at hrun
  exact not_contiguous_layer_major state hpos hmax (by omega) hdvd (by omega) hrun hcontiguous

/-- **Every row of the prompt is prefilled and handed over once**, in batches with their own
number of rows, exactly when a layer-major prefill needs no second window or its chunks fill
the windows. -/
theorem prefills_once_iff (engine : NativeEngine T) (prompt_tokens : List Token)
    (prefill_offset : Nat) (state : ModelDecodeState T) :
    engine.PrefillsOnce prompt_tokens prefill_offset state ↔
      engine.CutsWhole prompt_tokens prefill_offset := by
  constructor
  · intro h
    by_contra hcut
    exact not_prefillsOnce state hcut h
  · exact prefillsOnce_of_cutsWhole state

/-- Packed experts, no companion, and chunks of 1000 rows. -/
def thousand_rows : NativeEngine (consumed fun _ => 0) where
  options :=
    { prefill_chunk_rows := 1000
      adaptive_prefill_chunks := false
      max_generation_tokens_pos := default_generation_tokens_pos
      zero_accept_fallback_rounds_pos := default_fallback_rounds_pos }
  tokenizer := { encode := fun _ => [0], decode := fun _ => [] }
  sampler := { Random := Unit, seeded := fun _ => (), draw := fun _ _ _ _ => (0, ()) }
  persistent_backend :=
    { State := Unit
      prepare_persistent_state := id
      import_state := fun _ s => .ok s
      export_state := fun _ => (consumed fun _ => 0).make_state
      export_stream := fun _ => []
      can_decode := fun _ => false
      greedy_decode := fun _ _ s => .ok (⟨0, 0⟩, s) }
  end_of_sequence_token := 0
  chat_end_token := 1
  max_context_tokens := 131072
  packed_vq := true

/-- The ninth chunk of a prompt of 8194 tokens has 192 rows, and 193 are declared. -/
theorem not_prefillsOnce_thousand_rows :
    ¬thousand_rows.PrefillsOnce (List.replicate 8194 0) 0 (consumed fun _ => 0).make_state := by
  refine not_prefillsOnce _ fun h => ?_
  have hcut := h rfl rfl
  rw [List.length_replicate] at hcut
  rcases hcut with hdvd | hshort
  · exact absurd hdvd (by decide)
  · exact absurd hshort (by decide)

end NativeEngine

end Qwen38
