import Qwen38.Engine.Start

/-!
# A prompt without a companion

Without a companion there is nothing to feed, and prefill is what the target does with the
chunks of the prompt, with the stream of the last row
(`Qwen38.NativeEngine.prefill_of_mtp_head_eq_none`). Nothing is assumed of the target's
layers here: chunk after chunk and layer-major are the same chunks.

They are not when the prompt takes more than one window and the chunks do not fill the
windows. The last chunk of a window is then shorter than the others, the loop over the
windows still slices a whole chunk from it, and throws
(`Qwen38.NativeEngine.prefill_layer_major_throws`).
-/

namespace Qwen38

open Except (throw_if_of throw_if_of_not)

variable {T : Target}

/-! ### The streams of a chunk -/

namespace Target

theorem length_through_prefill (layers : List (DecoderLayer T.LayerState T.Stream))
    (streams : List T.Stream) (tokens : List Token) (ss : List T.LayerState)
    (h : streams.length = tokens.length) :
    (Pipeline.through (layers.map DecoderLayer.prefill) (streams, tokens) ss).1.1.length =
      tokens.length := by
  induction layers generalizing streams ss with
  | nil => simpa using h
  | cons layer layers ih =>
    cases ss with
    | nil => simpa using h
    | cons s ss =>
      rw [List.map_cons, Pipeline.through_cons]
      exact ih _ ss ((layer.length_forward_prefill streams tokens s h).trans h)

theorem length_prefill_window {first last : Nat} {streams : List T.Stream} {tokens : List Token}
    (h : streams.length = tokens.length) (layers : T.LayerStates) :
    (T.prefill_window first last (streams, tokens) layers).1.1.length = tokens.length := by
  have hthrough := length_through_prefill ((T.layers.take last).drop first) streams tokens
    ((layers.1.take last).drop first) h
  rwa [List.map_drop, List.map_take] at hthrough

/-- A chunk gives one stream for each of its tokens. -/
theorem length_prefill (chunks : List (List Token)) (state : ModelDecodeState T) :
    (T.prefill chunks state).1.map List.length = chunks.map List.length := by
  induction chunks generalizing state with
  | nil => rfl
  | cons tokens chunks ih =>
    rw [prefill_cons, List.map_cons, List.map_cons, ih]
    simp only [prefill, List.map_singleton, Pipeline.items_cons, Pipeline.items_nil,
      List.headD_cons]
    rw [length_prefill_window (List.length_map _)]

theorem prefill_append (chunks chunks' : List (List Token)) (state : ModelDecodeState T) :
    T.prefill (chunks ++ chunks') state =
      ((T.prefill chunks state).1 ++ (T.prefill chunks' (T.prefill chunks state).2).1,
        (T.prefill chunks' (T.prefill chunks state).2).2) := by
  induction chunks generalizing state with
  | nil => simp [prefill]
  | cons tokens chunks ih =>
    rw [List.cons_append, prefill_cons, ih, prefill_cons tokens chunks]
    rfl

/-! ### The chunks of a prompt -/

variable {chunk_rows : Nat}

theorem split_chunks_nil (fuel : Nat) : split_chunks chunk_rows fuel [] = [] := by
  cases fuel <;> rfl

/-- More fuel than tokens makes no difference. -/
theorem split_chunks_of_le (hpos : 0 < chunk_rows) {fuel : Nat} {tokens : List Token}
    (h : tokens.length ≤ fuel) :
    split_chunks chunk_rows fuel tokens = split_chunks chunk_rows tokens.length tokens := by
  induction fuel using Nat.strong_induction_on generalizing tokens with
  | _ fuel ih =>
    cases tokens with
    | nil => rw [split_chunks_nil, split_chunks_nil]
    | cons token tokens =>
      obtain ⟨fuel, rfl⟩ : ∃ k, fuel = k + 1 := ⟨fuel - 1, by rw [List.length_cons] at h; omega⟩
      have hdrop : ((token :: tokens).drop chunk_rows).length ≤ tokens.length := by
        rw [List.length_drop, List.length_cons]
        omega
      rw [List.length_cons] at h
      rw [List.length_cons, split_chunks, split_chunks, if_neg (List.cons_ne_nil _ _),
        if_neg (List.cons_ne_nil _ _), ih fuel (Nat.lt_succ_self _) (by omega)]
      rcases Nat.lt_or_ge tokens.length (fuel + 1) with hlt | hge
      · rw [ih tokens.length hlt hdrop]
      · omega

theorem split_chunks_cons (hpos : 0 < chunk_rows) {tokens : List Token} (hne : tokens ≠ []) :
    split_chunks chunk_rows tokens.length tokens =
      tokens.take chunk_rows ::
        split_chunks chunk_rows (tokens.drop chunk_rows).length (tokens.drop chunk_rows) := by
  obtain ⟨n, hn⟩ : ∃ n, tokens.length = n + 1 :=
    ⟨tokens.length - 1, by have := List.length_pos_of_ne_nil hne; omega⟩
  have hdrop : (tokens.drop chunk_rows).length ≤ n := by
    rw [List.length_drop]
    omega
  rw [hn, split_chunks, if_neg hne, split_chunks_of_le hpos hdrop]

/-- **Whole chunks first.** -/
theorem split_chunks_append (hpos : 0 < chunk_rows) {tokens : List Token} (us : List Token)
    (h : chunk_rows ∣ tokens.length) :
    split_chunks chunk_rows (tokens ++ us).length (tokens ++ us) =
      split_chunks chunk_rows tokens.length tokens ++ split_chunks chunk_rows us.length us := by
  obtain ⟨n, hn⟩ := h
  induction n generalizing tokens with
  | zero =>
    obtain rfl : tokens = [] := List.eq_nil_of_length_eq_zero hn
    rw [List.nil_append, List.length_nil, split_chunks_nil, List.nil_append]
  | succ n ih =>
    rw [Nat.mul_succ] at hn
    have hne : tokens ≠ [] := List.ne_nil_of_length_pos (by omega)
    have hne' : tokens ++ us ≠ [] := fun hnil => hne (List.append_eq_nil_iff.mp hnil).1
    have hdrop : (tokens ++ us).drop chunk_rows = tokens.drop chunk_rows ++ us :=
      List.drop_append_of_le_length (by omega)
    have htake : (tokens ++ us).take chunk_rows = tokens.take chunk_rows :=
      List.take_append_of_le_length (by omega)
    rw [split_chunks_cons hpos hne', hdrop, htake, split_chunks_cons hpos hne, List.cons_append,
      ih (by rw [List.length_drop]; omega)]

theorem flatten_split_chunks (hpos : 0 < chunk_rows) (tokens : List Token) :
    (split_chunks chunk_rows tokens.length tokens).flatten = tokens := by
  induction hn : tokens.length using Nat.strong_induction_on generalizing tokens with
  | _ n ih =>
    subst hn
    by_cases hne : tokens = []
    · subst hne
      rfl
    · have hlt : (tokens.drop chunk_rows).length < tokens.length := by
        have hlength := List.length_pos_of_ne_nil hne
        rw [List.length_drop]
        omega
      rw [split_chunks_cons hpos hne, List.flatten_cons, ih _ hlt _ rfl, List.take_append_drop]

end Target

open Target

namespace NativeEngine

variable {engine : NativeEngine T} {s : Prefilled T} {prompt_tokens : List Token}

/-! ### Nothing to feed -/

/-- The rows of a stream batch, as long as there are any: only the last one stays. -/
def keep_last (batch : List T.Stream) (count : Nat) (s : Prefilled T) : Prefilled T :=
  { s with previous_target_stream := (batch.take count).getLast?.or s.previous_target_stream }

theorem keep_last_zero (batch : List T.Stream) : keep_last batch 0 s = s := by
  rw [keep_last, List.take_zero]
  rfl

theorem consume_target_row_none (hhead : engine.mtp_head = none) {batch : List T.Stream}
    {row : Nat} (h : row < batch.length) (offset : Nat) :
    engine.consume_target_row prompt_tokens batch offset (keep_last batch row s) row =
      .ok (keep_last batch (row + 1) s) := by
  have hslice : slice_sequence_rows batch row (row + 1) = .ok [batch[row]] := by
    rw [slice_sequence_rows, throw_if_of_not (by omega), Except.ok_bind,
      List.take_succ_eq_append_getElem h, List.drop_left' (by rw [List.length_take]; omega)]
    rfl
  rw [consume_target_row, hhead, hslice, keep_last, keep_last, List.take_succ_eq_append_getElem h,
    List.getLast?_append]
  rfl

theorem consume_target_batch_none (hhead : engine.mtp_head = none) (batch : List T.Stream)
    (offset count : Nat) :
    engine.consume_target_batch prompt_tokens batch offset count s =
      if count ≤ batch.length then .ok (keep_last batch count s)
      else .error "invalid prefill stream slice" := by
  have hrow : ∀ row < batch.length, engine.consume_target_row prompt_tokens batch offset
      (keep_last batch row s) row = .ok (keep_last batch (row + 1) s) :=
    fun row hrow => consume_target_row_none hhead hrow offset
  rw [consume_target_batch, if_neg (by rw [hhead]; simp)]
  split
  · next hle =>
    have hloop := Except.foldlM_range_eq (n := count) fun row hlt =>
      hrow row (Nat.lt_of_lt_of_le hlt hle)
    rwa [keep_last_zero] at hloop
  · next hlt =>
    -- the first row that is not there
    have hthrow : engine.consume_target_row prompt_tokens batch offset
        (keep_last batch batch.length s) batch.length = .error "invalid prefill stream slice" := by
      rw [consume_target_row, hhead, slice_sequence_rows, throw_if_of (by omega)]
      rfl
    have hloop := Except.foldlM_range_error (n := count) (by omega) hrow hthrow
    rwa [keep_last_zero] at hloop

variable (s prompt_tokens) in
/-- At most 512 rows of a stream batch. -/
theorem consume_stream_piece_none (hhead : engine.mtp_head = none) (batch : List T.Stream)
    (offset count index : Nat) (hindex : index * 512 < count) :
    engine.consume_stream_piece prompt_tokens batch offset count
        (keep_last batch (min (index * 512) count) s) index =
      if min ((index + 1) * 512) count ≤ batch.length then
        .ok (keep_last batch (min ((index + 1) * 512) count) s)
      else .error "invalid prefill stream slice" := by
  have hend : min ((index + 1) * 512) count = index * 512 + min 512 (count - index * 512) := by
    omega
  have hpos : 0 < min 512 (count - index * 512) := by omega
  rw [Nat.min_eq_left (Nat.le_of_lt hindex), hend]
  simp only [consume_stream_piece]
  generalize min 512 (count - index * 512) = batch_count at hpos
  generalize index * 512 = batch_offset
  by_cases hwhole : batch_offset = 0 ∧ batch_count = count
  · obtain ⟨rfl, rfl⟩ := hwhole
    rw [if_pos ⟨rfl, rfl⟩, keep_last_zero, Nat.zero_add]
    exact consume_target_batch_none hhead batch offset batch_count
  · rw [if_neg hwhole]
    split
    · next hle =>
      have hslice : slice_sequence_rows batch batch_offset (batch_offset + batch_count) =
          .ok ((batch.drop batch_offset).take batch_count) := by
        rw [slice_sequence_rows, throw_if_of_not (by omega), Except.ok_bind, List.drop_take,
          Nat.add_sub_cancel_left]
        rfl
      have hlength : batch_count ≤ ((batch.drop batch_offset).take batch_count).length := by
        rw [List.length_take, List.length_drop]
        omega
      rw [hslice, Except.ok_bind]
      refine (consume_target_batch_none hhead _ _ _).trans ?_
      rw [if_pos hlength, keep_last, keep_last, keep_last, List.take_take, Nat.min_self,
        List.take_add, List.getLast?_append, Option.or_assoc]
    · next hlt =>
      rw [slice_sequence_rows, throw_if_of (by omega)]
      rfl

theorem consume_stream_batch_none (hhead : engine.mtp_head = none) (batch : List T.Stream)
    (offset count : Nat) :
    engine.consume_stream_batch prompt_tokens batch offset count s =
      if count ≤ batch.length then .ok (keep_last batch count s)
      else .error "invalid prefill stream slice" := by
  have hzero : keep_last batch (min (0 * 512) count) s = s := by
    rw [Nat.zero_mul, Nat.zero_min, keep_last_zero]
  have hpiece : ∀ index, index * 512 < count → (index + 1) * 512 ≤ batch.length ∨
      count ≤ batch.length → engine.consume_stream_piece prompt_tokens batch offset count
        (keep_last batch (min (index * 512) count) s) index =
      .ok (keep_last batch (min ((index + 1) * 512) count) s) := by
    intro index hindex hle
    rw [consume_stream_piece_none _ _ hhead batch offset _ _ hindex, if_pos (by omega)]
  rw [consume_stream_batch]
  split
  · next hle =>
    have hloop := Except.foldlM_range_eq (n := (count + 511) / 512)
      (g := fun index => keep_last batch (min (index * 512) count) s) fun index hindex =>
        hpiece index (by omega) (Or.inr hle)
    simp only [hzero] at hloop
    rw [hloop, Nat.min_eq_right (by omega)]
  · next hlt =>
    -- the piece in which the batch ends
    have hthrow := consume_stream_piece_none s prompt_tokens hhead batch offset count
      (batch.length / 512) (by omega)
    rw [if_neg (by omega)] at hthrow
    have hloop := Except.foldlM_range_error (n := (count + 511) / 512) (m := batch.length / 512)
      (g := fun index => keep_last batch (min (index * 512) count) s) (by omega)
      (fun index hindex => hpiece index (by omega) (Or.inl (by omega))) hthrow
    simp only [hzero] at hloop
    exact hloop

/-! ### The chunks -/

/-- The target's prefill of these tokens, with the stream of the last row. -/
def prefilled (chunk_rows : Nat) (tokens : List Token) (s : Prefilled T) : Prefilled T :=
  let r := T.prefill (split_chunks chunk_rows tokens.length tokens) s.state
  { s with
    state := r.2
    previous_target_stream := r.1.flatten.getLast?.or s.previous_target_stream }

theorem prefilled_nil (chunk_rows : Nat) : prefilled chunk_rows [] s = s := by
  simp [prefilled, split_chunks, Target.prefill]

/-- Whole chunks first. -/
theorem prefilled_append {chunk_rows : Nat} (hpos : 0 < chunk_rows) (tokens us : List Token)
    (h : chunk_rows ∣ tokens.length) :
    prefilled chunk_rows us (prefilled chunk_rows tokens s) =
      prefilled chunk_rows (tokens ++ us) s := by
  simp only [prefilled, split_chunks_append hpos us h, prefill_append, List.flatten_append,
    List.getLast?_append, Option.or_assoc]

variable {chunk_rows : Nat}

/-- The first chunk, and the others. -/
theorem prefilled_take (hpos : 0 < chunk_rows) (tokens : List Token) :
    prefilled chunk_rows (tokens.drop chunk_rows) (prefilled chunk_rows (tokens.take chunk_rows) s) =
      prefilled chunk_rows tokens s := by
  rcases Nat.le_total chunk_rows tokens.length with hlong | hshort
  · have hlength : (tokens.take chunk_rows).length = chunk_rows := by
      rw [List.length_take, Nat.min_eq_left hlong]
    rw [prefilled_append hpos _ _ (by rw [hlength]), List.take_append_drop]
  · rw [List.drop_of_length_le hshort, prefilled_nil, List.take_of_length_le hshort]

variable (s prompt_tokens) in
/-- **One chunk.** Without a companion the streams that it gives go nowhere, and only the state and
the stream of the last token are kept. -/
theorem prefill_chunk_none (hhead : engine.mtp_head = none) (hpos : 0 < chunk_rows)
    (hmax : chunk_rows ≤ 2048) (chunk : List Token) (hne : chunk ≠ [])
    (hlength : chunk.length ≤ chunk_rows) (offset : Nat) :
    ∃ streams, T.prefill_chunk_batch chunk s.state =
        .ok (streams, (prefilled chunk_rows chunk s).state) ∧
      engine.consume_stream_batch prompt_tokens streams offset chunk.length
        { s with state := (prefilled chunk_rows chunk s).state } =
          .ok (prefilled chunk_rows chunk s) := by
  have hchunks : split_chunks chunk_rows chunk.length chunk = [chunk] := by
    rw [split_chunks_cons hpos hne, List.take_of_length_le hlength,
      List.drop_of_length_le hlength, split_chunks_nil]
  have hlengths := length_prefill [chunk] s.state
  rw [prefill_chunk_batch_eq _ ⟨hne, Nat.le_trans hlength hmax⟩, prefilled, hchunks]
  generalize T.prefill [chunk] s.state = r at hlengths
  obtain ⟨streams, hstreams⟩ : ∃ streams, r.1 = [streams] := by
    have hone := congrArg List.length hlengths
    rw [List.length_map] at hone
    exact List.length_eq_one_iff.mp hone
  rw [hstreams] at hlengths ⊢
  have hsame : streams.length = chunk.length := by simpa using hlengths
  refine ⟨streams, rfl, ?_⟩
  rw [consume_stream_batch_none hhead, if_pos (Nat.le_of_eq hsame.symm), keep_last,
    List.take_of_length_le (Nat.le_of_eq hsame), List.flatten_singleton]

/-- **The prompt in chunks.** -/
theorem prefill_chunk_major_none (hhead : engine.mtp_head = none) (hpos : 0 < chunk_rows)
    (hmax : chunk_rows ≤ 2048) {fuel offset : Nat}
    (hfuel : prompt_tokens.length - 1 ≤ offset + fuel) :
    engine.prefill_chunk_major prompt_tokens chunk_rows fuel offset s =
      .ok (prefilled chunk_rows (prompt_tokens.dropLast.drop offset) s) := by
  induction fuel generalizing offset s with
  | zero =>
    rw [List.drop_of_length_le (by rw [List.length_dropLast]; omega), prefilled_nil]
    rfl
  | succ fuel ih =>
    rw [prefill_chunk_major]
    split
    · next hmore =>
      have hpiece : (prompt_tokens.drop offset).take
          (min chunk_rows (prompt_tokens.length - 1 - offset)) =
            (prompt_tokens.dropLast.drop offset).take chunk_rows := by
        rw [List.dropLast_eq_take, List.drop_take, List.take_take]
      have hlength : ((prompt_tokens.dropLast.drop offset).take chunk_rows).length =
          min chunk_rows (prompt_tokens.length - 1 - offset) := by
        rw [List.length_take, List.length_drop, List.length_dropLast]
      obtain ⟨streams, hprefill, hconsume⟩ := prefill_chunk_none s prompt_tokens hhead
        hpos hmax ((prompt_tokens.dropLast.drop offset).take chunk_rows)
        (List.ne_nil_of_length_pos (by omega)) (by omega) offset
      rw [hlength] at hconsume
      simp only [hpiece, hprefill, Except.ok_bind]
      rw [hconsume, Except.ok_bind, ih (by omega), ← List.drop_drop, prefilled_take hpos]
    · rw [List.drop_of_length_le (by rw [List.length_dropLast]; omega), prefilled_nil]

/-! ### The windows -/

/-- The stream batches of a window: the loop throws when the last one is not a whole chunk and
the prompt goes on. -/
theorem consume_outputs_none (hhead : engine.mtp_head = none) (hpos : 0 < chunk_rows)
    {tokens : List Token} {outputs : List (List T.Stream)} {offset : Nat}
    (houtputs : outputs.map List.length =
      (split_chunks chunk_rows tokens.length tokens).map List.length)
    (hend : offset + tokens.length ≤ prompt_tokens.length - 1) :
    engine.consume_outputs prompt_tokens chunk_rows outputs offset s =
      if offset + tokens.length = prompt_tokens.length - 1 ∨ chunk_rows ∣ tokens.length then
        .ok { s with
          previous_target_stream := outputs.flatten.getLast?.or s.previous_target_stream }
      else .error "invalid prefill stream slice" := by
  induction outputs generalizing tokens offset s with
  | nil =>
    have hnil : tokens = [] := by
      by_contra hne
      rw [split_chunks_cons hpos hne] at houtputs
      exact List.cons_ne_nil _ _ houtputs.symm
    subst hnil
    rw [if_pos (Or.inr (by rw [List.length_nil]; exact Nat.dvd_zero _))]
    rfl
  | cons output outputs ih =>
    have hne : tokens ≠ [] := by
      rintro rfl
      exact List.cons_ne_nil _ _ houtputs
    have hlong := List.length_pos_of_ne_nil hne
    rw [split_chunks_cons hpos hne, List.map_cons, List.map_cons, List.length_take] at houtputs
    obtain ⟨houtput, hrest⟩ := List.cons.inj houtputs
    simp only [consume_outputs]
    rw [consume_stream_batch_none hhead]
    -- a piece is whole, or the last of the prompt; any other one is refused
    by_cases hwhole : offset + tokens.length = prompt_tokens.length - 1 ∨ chunk_rows ≤ tokens.length
    · have hcount : min chunk_rows (prompt_tokens.length - 1 - offset) = output.length := by omega
      have hlast : (output.take output.length).getLast? = output.getLast? := by
        rw [List.take_length]
      rw [hcount, if_pos (Nat.le_refl _), Except.ok_bind, ih hrest (by rw [List.length_drop]; omega)]
      -- behind a whole piece the condition is the same for the others
      have hiff : (offset + output.length + (tokens.drop chunk_rows).length =
          prompt_tokens.length - 1 ∨ chunk_rows ∣ (tokens.drop chunk_rows).length) ↔
          (offset + tokens.length = prompt_tokens.length - 1 ∨ chunk_rows ∣ tokens.length) := by
        rw [List.length_drop]
        by_cases hle : chunk_rows ≤ tokens.length
        · have hdvd : chunk_rows ∣ tokens.length - chunk_rows ↔ chunk_rows ∣ tokens.length :=
            (Nat.dvd_sub_iff_left hle (Nat.dvd_refl _))
          have hsum : offset + output.length + (tokens.length - chunk_rows) =
              offset + tokens.length := by omega
          rw [hdvd, hsum]
        · have hstop := hwhole.resolve_right hle
          exact iff_of_true (Or.inl (by omega)) (Or.inl hstop)
      simp only [hiff, keep_last, hlast, List.flatten_cons, List.getLast?_append, Option.or_assoc]
    · have hshort : ¬(offset + tokens.length = prompt_tokens.length - 1 ∨
          chunk_rows ∣ tokens.length) := by
        rintro (hstop | hdvd)
        · exact hwhole (Or.inl hstop)
        · exact hwhole (Or.inr (Nat.le_of_dvd hlong hdvd))
      rw [if_neg (by omega), if_neg hshort]
      rfl

variable (s prompt_tokens) in
/-- **A window.** -/
theorem prefill_window_none (hhead : engine.mtp_head = none) (hpos : 0 < chunk_rows)
    (hmax : chunk_rows ≤ 2048) (tokens : List Token) (hne : tokens ≠ [])
    (hlength : tokens.length ≤ 8192) (offset : Nat)
    (hend : offset + tokens.length ≤ prompt_tokens.length - 1) :
    ∃ outputs, T.prefill_chunks_layer_major tokens chunk_rows s.state =
        .ok (outputs, (prefilled chunk_rows tokens s).state) ∧
      engine.consume_outputs prompt_tokens chunk_rows outputs offset
          { s with state := (prefilled chunk_rows tokens s).state } =
        if offset + tokens.length = prompt_tokens.length - 1 ∨ chunk_rows ∣ tokens.length then
          .ok (prefilled chunk_rows tokens s)
        else .error "invalid prefill stream slice" := by
  have hfits := fitsChunk_of_mem_split_chunks hpos hmax tokens.length tokens
  refine ⟨_, ?_, consume_outputs_none hhead hpos (length_prefill _ s.state) hend⟩
  rw [prefill_chunks_layer_major_eq hne hlength hpos hmax, prefill_chunks_eq hfits]
  rfl

/-- **The prompt in windows**, when it is one window or the chunks fill the windows. -/
theorem prefill_layer_major_none (hhead : engine.mtp_head = none) (hpos : 0 < chunk_rows)
    (hmax : chunk_rows ≤ 2048) {fuel offset : Nat}
    (hfuel : prompt_tokens.length - 1 ≤ offset + fuel)
    (hfill : chunk_rows ∣ 8192 ∨ prompt_tokens.length - 1 ≤ offset + 8192) :
    engine.prefill_layer_major prompt_tokens chunk_rows fuel offset s =
      .ok (prefilled chunk_rows (prompt_tokens.dropLast.drop offset) s) := by
  induction fuel generalizing offset s with
  | zero =>
    rw [List.drop_of_length_le (by rw [List.length_dropLast]; omega), prefilled_nil]
    rfl
  | succ fuel ih =>
    rw [prefill_layer_major]
    split
    · next hmore =>
      have hwindow : (prompt_tokens.drop offset).take
          (min 8192 (prompt_tokens.length - 1 - offset)) =
            (prompt_tokens.dropLast.drop offset).take 8192 := by
        rw [List.dropLast_eq_take, List.drop_take, List.take_take]
      have hlength : ((prompt_tokens.dropLast.drop offset).take 8192).length =
          min 8192 (prompt_tokens.length - 1 - offset) := by
        rw [List.length_take, List.length_drop, List.length_dropLast]
      obtain ⟨outputs, hprefill, hconsume⟩ := prefill_window_none s prompt_tokens hhead
        hpos hmax ((prompt_tokens.dropLast.drop offset).take 8192)
        (List.ne_nil_of_length_pos (by omega)) (by omega) offset (by omega)
      have hwhole : offset + ((prompt_tokens.dropLast.drop offset).take 8192).length =
          prompt_tokens.length - 1 ∨
            chunk_rows ∣ ((prompt_tokens.dropLast.drop offset).take 8192).length := by
        rw [hlength]
        rcases Nat.le_total (prompt_tokens.length - 1 - offset) 8192 with hlast | hfull
        · exact Or.inl (by omega)
        · rcases hfill with hdvd | hone
          · exact Or.inr (by rwa [Nat.min_eq_left hfull])
          · exact Or.inl (by omega)
      rw [if_pos hwhole] at hconsume
      simp only [hwindow, hprefill, Except.ok_bind]
      rw [hconsume, Except.ok_bind, ih (by omega) (by omega), ← List.drop_drop]
      -- the next windows follow whole chunks, or there are none
      rcases Nat.lt_or_ge (prompt_tokens.dropLast.drop offset).length 8192 with hshort | hlong
      · rw [List.drop_of_length_le (Nat.le_of_lt hshort), prefilled_nil,
          List.take_of_length_le (Nat.le_of_lt hshort)]
      · rcases hfill with hdvd | hone
        · have hfull : ((prompt_tokens.dropLast.drop offset).take 8192).length = 8192 := by
            rw [List.length_take, Nat.min_eq_left hlong]
          rw [prefilled_append hpos _ _ (by rwa [hfull]), List.take_append_drop]
        · rw [List.length_drop, List.length_dropLast] at hlong
          rw [List.drop_of_length_le, prefilled_nil, List.take_of_length_le] <;>
            rw [List.length_drop, List.length_dropLast] <;> omega
    · rw [List.drop_of_length_le (by rw [List.length_dropLast]; omega), prefilled_nil]

/-- **Windows that are not filled**: without a companion, and with chunks that do not divide the
window, a prompt that needs a second window is thrown out after the first, by the check of the
stream slices. -/
theorem prefill_layer_major_throws (hhead : engine.mtp_head = none) (hpos : 0 < chunk_rows)
    (hmax : chunk_rows ≤ 2048) {fuel offset : Nat} (hfuel : 0 < fuel)
    (hdvd : ¬chunk_rows ∣ 8192) (hlong : offset + 8192 < prompt_tokens.length - 1) :
    engine.prefill_layer_major prompt_tokens chunk_rows fuel offset s =
      .error "invalid prefill stream slice" := by
  obtain ⟨fuel, rfl⟩ := Nat.exists_eq_succ_of_ne_zero (Nat.ne_of_gt hfuel)
  have hlength : ((prompt_tokens.drop offset).take 8192).length = 8192 := by
    rw [List.length_take, List.length_drop]
    omega
  obtain ⟨outputs, hprefill, hconsume⟩ := prefill_window_none s prompt_tokens hhead hpos hmax
    ((prompt_tokens.drop offset).take 8192)
    (List.ne_nil_of_length_pos (by omega)) (by omega) offset (by omega)
  have hcount : min 8192 (prompt_tokens.length - 1 - offset) = 8192 := by omega
  rw [prefill_layer_major, if_pos (by omega)]
  simp only [hcount, hprefill, Except.ok_bind]
  rw [hconsume, if_neg, Except.error_bind]
  rw [hlength]
  omega

/-! ### The prefill -/

variable (engine) in
theorem request_prefill_chunk_pos (prefill_rows : Nat) :
    0 < engine.request_prefill_chunk prefill_rows := by
  have hpos := engine.options.prefill_chunk_rows_pos
  rw [request_prefill_chunk, select_prefill_chunk_rows]
  repeat' split
  all_goals omega

variable (engine) in
theorem request_prefill_chunk_le (prefill_rows : Nat) :
    engine.request_prefill_chunk prefill_rows ≤ 2048 := by
  have hle := engine.options.prefill_chunk_rows_le
  rw [request_prefill_chunk, select_prefill_chunk_rows]
  repeat' split
  all_goals omega

variable (engine) in
/-- The prefill fills its windows, or needs no second one. -/
def FillsWindows (prefill_rows offset : Nat) : Prop :=
  engine.packed_vq = true → engine.request_prefill_chunk prefill_rows ∣ 8192 ∨
    prefill_rows ≤ offset + 8192

/-- **What prefill does without a companion.** Either way of prefilling, layer by layer or chunk by
chunk, comes to the same: the tokens behind what was taken over are consumed in the chunks of the
request. -/
theorem prefill_of_mtp_head_eq_none (hhead : engine.mtp_head = none)
    (hfill : engine.FillsWindows (prompt_tokens.length - 1) s.prefill_offset) :
    engine.prefill prompt_tokens s = .ok (prefilled
      (engine.request_prefill_chunk (prompt_tokens.length - 1))
      (prompt_tokens.dropLast.drop s.prefill_offset) s) := by
  rw [NativeEngine.prefill]
  split
  · next hmajor =>
    exact prefill_layer_major_none hhead (request_prefill_chunk_pos _ _)
      (request_prefill_chunk_le _ _) (Nat.le_add_left _ _) (hfill hmajor.2.2)
  · exact prefill_chunk_major_none hhead (request_prefill_chunk_pos _ _)
      (request_prefill_chunk_le _ _) (Nat.le_add_left _ _)

/-- **Where prefill throws without a companion.** -/
theorem prefill_throws (hhead : engine.mtp_head = none)
    (hfill : ¬engine.FillsWindows (prompt_tokens.length - 1) s.prefill_offset) :
    engine.prefill prompt_tokens s = .error "invalid prefill stream slice" := by
  rw [FillsWindows, Classical.not_imp, not_or] at hfill
  obtain ⟨hpacked, hdvd, hlong⟩ := hfill
  have hmax := request_prefill_chunk_le engine (prompt_tokens.length - 1)
  rw [NativeEngine.prefill]
  rw [if_pos ⟨by rw [hhead]; rfl, by omega, hpacked⟩]
  exact prefill_layer_major_throws hhead (request_prefill_chunk_pos _ _) hmax (by omega) hdvd
    (by omega)

/-! ### With or without a companion -/

theorem prefill_rows_after (hT : T.RowWise) (ctx : List Token) {chunks : List (List Token)}
    (h : ∀ chunk ∈ chunks, FitsChunk chunk) :
    (T.prefill chunks (T.after ctx)).1.flatten = T.streams ctx chunks.flatten ∧
      (T.prefill chunks (T.after ctx)).2 = T.after (ctx ++ chunks.flatten) := by
  induction chunks generalizing ctx with
  | nil =>
    refine ⟨rfl, ?_⟩
    rw [List.flatten_nil, List.append_nil]
    rfl
  | cons chunk chunks ih =>
    have hfits := h chunk List.mem_cons_self
    have hchunk := (prefill_chunk_batch_eq (T.after ctx) hfits).symm.trans
      (prefill_chunk_rows (T.after ctx) hT hfits)
    obtain ⟨hstreams, hstate⟩ := Prod.mk.inj (Except.ok.inj hchunk)
    rw [← T.after_append] at hstate
    obtain ⟨ihstreams, ihstate⟩ := ih (ctx ++ chunk) fun chunk hmem =>
      h chunk (List.mem_cons_of_mem _ hmem)
    rw [prefill_cons, hstate, List.flatten_cons, ihstreams, ihstate, hstreams, List.flatten_cons,
      streams_append, List.append_assoc]
    exact ⟨rfl, rfl⟩

theorem getLast?_streams (ctx tokens : List Token) :
    (T.streams ctx tokens).getLast?.or (T.stream? ctx) = T.stream? (ctx ++ tokens) := by
  rcases List.eq_nil_or_concat' tokens with rfl | ⟨front, token, rfl⟩
  · rw [List.append_nil]
    rfl
  · rw [streams_append, ← List.append_assoc, stream?_append_singleton, List.getLast?_append,
      streams_cons]
    rfl

theorem consumed_prefilled (hT : T.RowWise) (hpos : 0 < chunk_rows) (hmax : chunk_rows ≤ 2048)
    (hhead : engine.mtp_head = none) {ctx : List Token} (h : engine.Consumed s ctx)
    (tokens : List Token) :
    engine.Consumed (prefilled chunk_rows tokens s) (ctx ++ tokens) := by
  obtain ⟨hstreams, hstate⟩ := prefill_rows_after hT ctx
    (fitsChunk_of_mem_split_chunks hpos hmax tokens.length tokens)
  rw [flatten_split_chunks hpos] at hstreams hstate
  refine ⟨⟨?_, ?_⟩, ?_⟩
  · simp only [prefilled, h.state, hstreams, h.previous_target_stream]
    exact getLast?_streams ctx tokens
  · rw [hhead]
    exact fun hsome => absurd hsome Bool.false_ne_true
  · simp only [prefilled, h.state, hstate]

/-- **The prompt has been consumed when prefill returns**, either way of going through it, with or
without a companion, from wherever a cached prefix has ended. -/
theorem consumed_of_prefill (hT : T.RowWise) {s' : Prefilled T}
    (h : engine.Consumed s (prompt_tokens.dropLast.take s.prefill_offset))
    (hrun : engine.prefill prompt_tokens s = .ok s') :
    engine.Consumed s' prompt_tokens.dropLast ∧ s'.prefill_offset = s.prefill_offset ∧
      s'.cached_mtp_profitability = s.cached_mtp_profitability := by
  have hpos := request_prefill_chunk_pos engine (prompt_tokens.length - 1)
  have hmax := request_prefill_chunk_le engine (prompt_tokens.length - 1)
  rcases hhead : engine.mtp_head with _ | head
  · by_cases hfill : engine.FillsWindows (prompt_tokens.length - 1) s.prefill_offset
    · rw [prefill_of_mtp_head_eq_none hhead hfill] at hrun
      obtain rfl := Except.ok.inj hrun
      have hconsumed := consumed_prefilled hT hpos hmax hhead h
        (prompt_tokens.dropLast.drop s.prefill_offset)
      rw [List.take_append_drop] at hconsumed
      exact ⟨hconsumed, rfl, rfl⟩
    · rw [prefill_throws hhead hfill] at hrun
      cases hrun
  · obtain ⟨s₁, hchunks, hconsumed, hoffset, hprofit⟩ := prefill_chunk_major_eq hT hpos hmax
      (Nat.le_add_left _ _) h
    rw [NativeEngine.prefill, if_neg (by rw [hhead]; simp), hchunks] at hrun
    obtain rfl := Except.ok.inj hrun
    exact ⟨hconsumed, hoffset, hprofit⟩

end NativeEngine

end Qwen38
