import Qwen38.Engine.Complete
import Qwen38.Engine.MtpRound

/-!
# Up to the first pass

What a request has when its loop starts, for a model whose batches are what their rows are
one by one: the target has consumed the prompt but its last token, the companion is in
step, and the stream at hand is the one of the last consumed token
(`Qwen38.NativeEngine.Caught`). A cached prefix does not change that, provided the cache
holds what it says (`Qwen38.EngineState.Consistent`), and the entry that is made of the
prompt does (`Qwen38.NativeEngine.consistent_cache_prompt`).
-/

namespace Qwen38

open Except (throw_if throw_if_of_not)
open MtpDecodeState (rows_after)

variable {T : Target}

/-! ### Streams -/

namespace Target

variable (T) in
/-- The streams of tokens consumed after others. -/
def streams (ctx tokens : List Token) : List T.Stream :=
  (T.steps tokens (T.after ctx)).map TargetVerifyStep.pre_mixer_stream

variable (T) in
/-- The stream of the last consumed token. -/
def stream? (ctx : List Token) : Option T.Stream := if ctx = [] then none else some (T.stream ctx)

variable (ctx tokens us : List Token) (k : Nat)

@[simp] theorem length_streams : (T.streams ctx tokens).length = tokens.length := by
  rw [streams, List.length_map, length_steps]

theorem streams_cons (token : Token) :
    T.streams ctx (token :: tokens) =
      T.stream (ctx ++ [token]) :: T.streams (ctx ++ [token]) tokens := by
  rw [streams, steps_cons_after]
  rfl

theorem streams_append :
    T.streams ctx (tokens ++ us) = T.streams ctx tokens ++ T.streams (ctx ++ tokens) us := by
  induction tokens generalizing ctx with
  | nil => rw [List.nil_append, List.append_nil]; rfl
  | cons token tokens ih =>
    rw [List.cons_append, streams_cons, ih, streams_cons, List.append_assoc,
      List.singleton_append, List.cons_append]

theorem take_streams : (T.streams ctx tokens).take k = T.streams ctx (tokens.take k) := by
  have hsplit := streams_append (T := T) ctx (tokens.take k) (tokens.drop k)
  rw [List.take_append_drop] at hsplit
  rw [hsplit, List.take_append, length_streams, List.length_take]
  rcases Nat.le_total k tokens.length with hle | hle
  · rw [Nat.min_eq_left hle, Nat.sub_self, List.take_zero, List.append_nil, List.take_of_length_le]
    rw [length_streams, List.length_take, Nat.min_eq_left hle]
  · have hnil : T.streams (ctx ++ tokens.take k) (tokens.drop k) = [] := by
      rw [List.drop_of_length_le hle]
      rfl
    rw [hnil, List.take_nil, List.append_nil, List.take_of_length_le]
    rw [length_streams, List.length_take]
    exact Nat.min_le_left _ _

theorem drop_streams :
    (T.streams ctx tokens).drop k = T.streams (ctx ++ tokens.take k) (tokens.drop k) := by
  have hsplit := streams_append (T := T) ctx (tokens.take k) (tokens.drop k)
  rw [List.take_append_drop] at hsplit
  rw [hsplit, List.drop_append, length_streams, List.length_take, List.drop_of_length_le,
    List.nil_append]
  · rcases Nat.le_total k tokens.length with hle | hle
    · rw [Nat.min_eq_left hle, Nat.sub_self, List.drop_zero]
    · have hnil : T.streams (ctx ++ tokens.take k) (tokens.drop k) = [] := by
        rw [List.drop_of_length_le hle]
        rfl
      rw [hnil, List.drop_nil]
  · rw [length_streams, List.length_take]
    exact Nat.min_le_left _ _

theorem stream?_append_singleton (token : Token) :
    T.stream? (ctx ++ [token]) = some (T.stream (ctx ++ [token])) := by
  rw [stream?, if_neg (by simp)]

end Target

open Target

theorem MtpDecodeState.fst_rows_after (ctx tokens : List Token) (token : Token) :
    (rows_after T ctx (tokens ++ [token])).map Prod.fst =
      T.stream ctx :: T.streams ctx tokens := by
  induction tokens generalizing ctx with
  | nil => rfl
  | cons token' tokens ih =>
    rw [List.cons_append, rows_after, List.map_cons, ih, streams_cons]

namespace NativeEngine

variable {engine : NativeEngine T}

/-! ### The rows of the prompt -/

theorem slice_streams (ctx tokens : List Token) {first last : Nat} (h : first < last)
    (hlast : last ≤ tokens.length) :
    slice_sequence_rows (T.streams ctx tokens) first last =
      .ok (T.streams (ctx ++ (tokens.take last).take first) ((tokens.take last).drop first)) := by
  have hnot : ¬(last ≤ first ∨ (T.streams ctx tokens).length < last) := by
    rw [length_streams]
    omega
  rw [slice_sequence_rows, throw_if_of_not hnot, Except.ok_bind, take_streams, drop_streams]
  rfl

/-- A piece of a stream batch is the stream batch of the piece. -/
theorem slice_streams_append (ctx front back : List Token) {piece : List Token} (h : piece ≠ []) :
    slice_sequence_rows (T.streams ctx (front ++ (piece ++ back))) front.length
        (front.length + piece.length) = .ok (T.streams (ctx ++ front) piece) := by
  have hpos := List.length_pos_of_ne_nil h
  rw [slice_streams _ _ (Nat.lt_add_of_pos_right hpos) (by simp), List.take_length_add_append,
    List.take_left, List.take_left, List.drop_left]

/-- One row is one stream. -/
theorem slice_stream (ctx : List Token) {tokens : List Token} {row : Nat} (h : row < tokens.length) :
    slice_sequence_rows (T.streams ctx tokens) row (row + 1) =
      .ok [T.stream (ctx ++ tokens.take (row + 1))] := by
  have hrow : (tokens.take (row + 1)).drop row = [tokens[row]] := by
    rw [List.take_succ_eq_append_getElem h, List.drop_left' (by simp; omega)]
  have hctx : ctx ++ (tokens.take (row + 1)).take row ++ [tokens[row]] =
      ctx ++ tokens.take (row + 1) := by
    rw [List.take_take, Nat.min_eq_left (Nat.le_succ row), List.append_assoc,
      ← List.take_succ_eq_append_getElem h]
  rw [slice_streams _ _ (Nat.lt_succ_self row) h, hrow, streams_cons, hctx]
  rfl

variable (engine) in
/-- The companion and the stream at hand are in step with what was consumed. -/
structure Caught (s : Prefilled T) (ctx : List Token) : Prop where
  previous_target_stream : s.previous_target_stream = T.stream? ctx
  mtp_state : engine.mtp_head.isSome → s.mtp_state = MtpDecodeState.after T ctx

/-- What feeding the companion leaves alone. -/
structure SameTarget (s s' : Prefilled T) : Prop where
  state : s'.state = s.state
  prefill_offset : s'.prefill_offset = s.prefill_offset
  cached_mtp_profitability : s'.cached_mtp_profitability = s.cached_mtp_profitability

theorem SameTarget.trans {s₁ s₂ s₃ : Prefilled T} (h : SameTarget s₁ s₂) (h' : SameTarget s₂ s₃) :
    SameTarget s₁ s₃ :=
  ⟨h'.state.trans h.state, h'.prefill_offset.trans h.prefill_offset,
    h'.cached_mtp_profitability.trans h.cached_mtp_profitability⟩

variable {s : Prefilled T} {ctx chunk rest : List Token}

variable (rest) in
/-- **One row of the prompt.** -/
theorem consume_target_row_eq {row : Nat} (hrow : row < chunk.length)
    (h : engine.Caught s (ctx ++ chunk.take row)) :
    ∃ s', engine.consume_target_row (ctx ++ chunk ++ rest) (T.streams ctx chunk) ctx.length s row =
        .ok s' ∧ SameTarget s s' ∧ engine.Caught s' (ctx ++ chunk.take (row + 1)) := by
  have htoken : (ctx ++ chunk ++ rest).getD (ctx.length + row) 0 = chunk[row] := by
    rw [List.getD_eq_getElem?_getD, List.append_assoc, List.getElem?_append_right (by omega),
      Nat.add_sub_cancel_left, List.getElem?_append_left hrow, List.getElem?_eq_getElem hrow,
      Option.getD_some]
  have hnext : ctx ++ chunk.take (row + 1) = ctx ++ chunk.take row ++ [chunk[row]] := by
    rw [List.append_assoc, ← List.take_succ_eq_append_getElem hrow]
  have hlength : (ctx ++ chunk.take row).length = ctx.length + row := by
    rw [List.length_append, List.length_take]
    omega
  obtain ⟨hprevious, hmtp⟩ := h
  rw [consume_target_row, slice_stream _ hrow, htoken, hnext, ← hlength]
  generalize ctx ++ chunk.take row = before at *
  have hstream := stream?_append_singleton (T := T) before chunk[row]
  by_cases hbefore : before = []
  · subst hbefore
    rw [stream?, if_pos rfl] at hprevious
    refine ⟨{ s with previous_target_stream := T.stream? ([] ++ [chunk[row]]) }, ?_,
      ⟨rfl, rfl, rfl⟩, rfl, hmtp⟩
    rw [hprevious, hstream]
    cases engine.mtp_head <;> rfl
  · rw [stream?, if_neg hbefore] at hprevious
    rcases hhead : engine.mtp_head with _ | head
    · refine ⟨{ s with previous_target_stream := T.stream? (before ++ [chunk[row]]) }, ?_,
        ⟨rfl, rfl, rfl⟩, rfl, ?_⟩
      · rw [hprevious, hstream]
        rfl
      · rw [hhead]
        exact fun hsome => absurd hsome Bool.false_ne_true
    · refine ⟨{ s with
          mtp_state := MtpDecodeState.after T (before ++ [chunk[row]])
          previous_target_stream := T.stream? (before ++ [chunk[row]]) }, ?_,
        ⟨rfl, rfl, rfl⟩, rfl, fun _ => rfl⟩
      have hdecode := MtpDecodeState.consume_decode_eq (MtpDecodeState.next_after (T := T) hbefore)
        chunk[row]
      rw [MtpDecodeState.after_feed hbefore (List.cons_ne_nil _ _)] at hdecode
      rw [hmtp (by rw [hhead]; rfl), hprevious, hstream]
      simp only [hdecode, Except.ok_bind]
      rfl

/-- The rows of a batch, one by one. -/
theorem consume_rows_eq (h : engine.Caught s ctx) :
    ∃ s', (List.range chunk.length).foldlM (engine.consume_target_row (ctx ++ chunk ++ rest)
        (T.streams ctx chunk) ctx.length) s = .ok s' ∧ SameTarget s s' ∧
      engine.Caught s' (ctx ++ chunk) := by
  have hloop := Except.foldlM_range_ok (n := chunk.length) (s := s)
    (f := engine.consume_target_row (ctx ++ chunk ++ rest) (T.streams ctx chunk) ctx.length)
    (P := fun row s' => SameTarget s s' ∧ engine.Caught s' (ctx ++ chunk.take row)) ?_ ?_
  · rwa [List.take_length] at hloop
  · rintro row s₁ hrow ⟨hsame, hcaught⟩
    obtain ⟨s₂, hrun, hsame', hcaught'⟩ := consume_target_row_eq rest hrow hcaught
    exact ⟨s₂, hrun, hsame.trans hsame', hcaught'⟩
  · refine ⟨⟨rfl, rfl, rfl⟩, ?_⟩
    rwa [List.take_zero, List.append_nil]

/-- The companion takes the rows of a batch all at once. -/
theorem consume_target_rows_eq (hne : chunk ≠ []) (hlength : chunk.length ≤ 512)
    (h : engine.Caught s ctx) (hhead : engine.mtp_head.isSome) :
    consume_target_rows (ctx ++ chunk ++ rest) (T.streams ctx chunk) ctx.length chunk.length s =
      .ok (MtpDecodeState.after T (ctx ++ chunk)) := by
  obtain ⟨hprevious, hmtp⟩ := h
  rw [consume_target_rows, hprevious, hmtp hhead]
  by_cases hctx : ctx = []
  · -- no stream for the first token: the rows begin with the second one
    subst hctx
    rcases chunk with _ | ⟨first, tail⟩
    · exact absurd rfl hne
    · rcases List.eq_nil_or_concat' tail with rfl | ⟨front, token, rfl⟩
      · rfl
      · have hslice := slice_streams (T := T) [] (first :: (front ++ [token]))
          (Nat.succ_pos front.length)
          (by simp)
        have hprefill := MtpDecodeState.consume_prefill_batch_eq
          (MtpDecodeState.next_after (T := T) (List.cons_ne_nil first [])) (front ++ [token])
          (by simp) (by rw [List.length_cons] at hlength; omega)
        rw [MtpDecodeState.fst_rows_after,
          MtpDecodeState.after_feed (List.cons_ne_nil _ _) (by simp)] at hprefill
        simp only [stream?, if_pos, List.length_nil, List.length_cons, List.length_append,
          List.take_succ_cons, List.take_left, List.drop_zero, List.take_zero, List.append_nil,
          List.nil_append, streams_cons, Nat.zero_add, Nat.add_sub_cancel] at hslice ⊢
        have htokens : ((first :: (front ++ [token]) ++ rest).drop 1).take (front.length + 1) =
            front ++ [token] :=
          List.take_left' (by rw [List.length_append, List.length_singleton])
        rw [if_pos (by simp), hslice, Except.ok_bind, htokens]
        exact hprefill
  · obtain ⟨front, token, rfl⟩ := (List.eq_nil_or_concat' chunk).resolve_left hne
    have htokens : ((ctx ++ (front ++ [token]) ++ rest).drop ctx.length).take
        (ctx.length + (front ++ [token]).length - ctx.length) = front ++ [token] := by
      rw [Nat.add_sub_cancel_left, List.append_assoc, List.drop_left, List.take_left]
    have hprefill := MtpDecodeState.consume_prefill_batch_eq
      (MtpDecodeState.next_after (T := T) hctx) (front ++ [token]) hne hlength
    rw [MtpDecodeState.fst_rows_after, MtpDecodeState.after_feed hctx hne] at hprefill
    simp only [stream?, if_neg hctx, htokens]
    by_cases hfront : front = []
    · subst hfront
      rw [if_pos (by rfl)]
      exact hprefill
    · have hpos := List.length_pos_of_ne_nil hfront
      have hslice := slice_streams (T := T) ctx (front ++ [token]) hpos
        (by simp)
      rw [List.take_left, List.take_zero, List.drop_zero, List.append_nil] at hslice
      rw [if_neg (by rw [List.length_append, List.length_singleton]; omega), List.length_append,
        List.length_singleton, Nat.add_sub_cancel, hslice, Except.ok_bind]
      exact hprefill

variable (rest) in
/-- **A batch of at most 512 rows.** -/
theorem consume_target_batch_eq (hne : chunk ≠ []) (hlength : chunk.length ≤ 512)
    (h : engine.Caught s ctx) :
    ∃ s', engine.consume_target_batch (ctx ++ chunk ++ rest) (T.streams ctx chunk) ctx.length
        chunk.length s = .ok s' ∧ SameTarget s s' ∧ engine.Caught s' (ctx ++ chunk) := by
  rw [consume_target_batch]
  split
  · next hbatch =>
    have hpos := List.length_pos_of_ne_nil hne
    have hlast := slice_stream (T := T) ctx (Nat.sub_lt hpos Nat.one_pos)
    have hcount : chunk.length - 1 + 1 = chunk.length := Nat.sub_add_cancel hpos
    rw [hcount, List.take_length] at hlast
    rw [consume_target_rows_eq hne hlength h hbatch.1, Except.ok_bind, hlast]
    refine ⟨_, rfl, ⟨rfl, rfl, rfl⟩, ?_, fun _ => rfl⟩
    rw [stream?, if_neg (fun hnil => hne (List.append_eq_nil_iff.mp hnil).2)]
    rfl
  · exact consume_rows_eq h

variable (rest) in
/-- **At most 512 rows of a stream batch.** -/
theorem consume_stream_piece_eq {index : Nat} (hindex : index * 512 < chunk.length)
    (h : engine.Caught s (ctx ++ chunk.take (index * 512))) :
    ∃ s', engine.consume_stream_piece (ctx ++ chunk ++ rest) (T.streams ctx chunk) ctx.length
        chunk.length s index = .ok s' ∧ SameTarget s s' ∧
      engine.Caught s' (ctx ++ chunk.take ((index + 1) * 512)) := by
  obtain ⟨front, tail, rfl, hfront⟩ := Pipeline.exists_append (Nat.le_of_lt hindex)
  rw [List.length_append, hfront] at hindex
  obtain ⟨piece, back, rfl, hpiece⟩ :=
    Pipeline.exists_append (show min 512 tail.length ≤ tail.length from Nat.min_le_right _ _)
  rw [List.length_append] at hindex hpiece
  have hcount : min 512 ((front ++ (piece ++ back)).length - front.length) = piece.length := by
    rw [List.length_append, List.length_append]
    omega
  have hne : piece ≠ [] := List.ne_nil_of_length_pos (by omega)
  have hnext : (front ++ (piece ++ back)).take ((index + 1) * 512) = front ++ piece := by
    rcases Nat.le_total 512 (piece.length + back.length) with hfull | hlast
    · rw [← List.append_assoc, List.take_left' (by rw [List.length_append]; omega)]
    · obtain rfl : back = [] := List.eq_nil_of_length_eq_zero (by omega)
      rw [List.append_nil, List.take_of_length_le]
      rw [List.length_append]
      omega
  rw [← hfront, List.take_left] at h
  obtain ⟨s', hrun, hsame, hcaught⟩ :=
    consume_target_batch_eq (back ++ rest) hne (by omega) h
  refine ⟨s', ?_, hsame, by rwa [hnext, ← List.append_assoc]⟩
  have hprompt : ctx ++ front ++ piece ++ (back ++ rest) =
      ctx ++ (front ++ (piece ++ back)) ++ rest := by
    simp only [List.append_assoc]
  rw [hprompt, List.length_append] at hrun
  simp only [consume_stream_piece, ← hfront, hcount]
  split
  · next hwhole =>
    obtain rfl : front = [] := List.eq_nil_of_length_eq_zero hwhole.1
    rw [List.length_append, List.length_append, List.length_nil] at hwhole
    obtain rfl : back = [] := List.eq_nil_of_length_eq_zero (by omega)
    rw [List.append_nil] at hrun
    simpa only [List.nil_append, List.append_nil, Except.pure_eq_ok, Except.ok_bind] using hrun
  · rw [slice_streams_append ctx front back hne, Except.ok_bind]
    exact hrun

variable (chunk rest) in
/-- **A stream batch of any length.** -/
theorem consume_stream_batch_eq (h : engine.Caught s ctx) :
    ∃ s', engine.consume_stream_batch (ctx ++ chunk ++ rest) (T.streams ctx chunk) ctx.length
        chunk.length s = .ok s' ∧ SameTarget s s' ∧ engine.Caught s' (ctx ++ chunk) := by
  have hloop := Except.foldlM_range_ok (n := (chunk.length + 511) / 512) (s := s)
    (f := engine.consume_stream_piece (ctx ++ chunk ++ rest) (T.streams ctx chunk) ctx.length
      chunk.length)
    (P := fun index s' => SameTarget s s' ∧ engine.Caught s' (ctx ++ chunk.take (index * 512)))
    ?_ ?_
  · obtain ⟨s', hrun, hsame, hcaught⟩ := hloop
    rw [List.take_of_length_le (by omega)] at hcaught
    exact ⟨s', hrun, hsame, hcaught⟩
  · rintro index s₁ hindex ⟨hsame, hcaught⟩
    obtain ⟨s₂, hrun, hsame', hcaught'⟩ :=
      consume_stream_piece_eq rest (by omega) hcaught
    exact ⟨s₂, hrun, hsame.trans hsame', hcaught'⟩
  · refine ⟨⟨rfl, rfl, rfl⟩, ?_⟩
    rwa [Nat.zero_mul, List.take_zero, List.append_nil]

/-! ### The prompt -/

/-- The target has consumed these tokens, and the companion is in step. -/
structure Consumed (engine : NativeEngine T) (s : Prefilled T) (ctx : List Token) : Prop
    extends engine.Caught s ctx where
  state : s.state = T.after ctx

variable {prompt_tokens : List Token} {chunk_rows fuel offset : Nat}

/-- **The prompt in chunks.** -/
theorem prefill_chunk_major_eq (hT : T.RowWise) (hrows : 0 < chunk_rows) (hmax : chunk_rows ≤ 2048)
    (hfuel : prompt_tokens.length - 1 ≤ offset + fuel)
    (h : engine.Consumed s (prompt_tokens.dropLast.take offset)) :
    ∃ s', engine.prefill_chunk_major prompt_tokens chunk_rows fuel offset s = .ok s' ∧
      engine.Consumed s' prompt_tokens.dropLast ∧ s'.prefill_offset = s.prefill_offset ∧
      s'.cached_mtp_profitability = s.cached_mtp_profitability := by
  induction fuel generalizing offset s with
  | zero =>
    rw [List.take_of_length_le (by rw [List.length_dropLast]; omega)] at h
    exact ⟨s, rfl, h, rfl, rfl⟩
  | succ fuel ih =>
    rw [prefill_chunk_major]
    by_cases hmore : offset < prompt_tokens.length - 1
    · rw [if_pos hmore]
      -- the prompt is what has been consumed, this chunk, and the rest
      obtain ⟨ctx, tail, hprompt, hctx⟩ :=
        Pipeline.exists_append (show offset ≤ prompt_tokens.length by omega)
      obtain ⟨chunk, rest, htail, hchunk⟩ := Pipeline.exists_append
        (show min chunk_rows (prompt_tokens.length - 1 - offset) ≤ tail.length by
          rw [hprompt, List.length_append]
          omega)
      have hpiece : (prompt_tokens.drop offset).take
          (min chunk_rows (prompt_tokens.length - 1 - offset)) = chunk := by
        rw [← hchunk, hprompt, ← hctx, List.drop_left, htail, List.take_left]
      have hwhole : prompt_tokens = ctx ++ chunk ++ rest := by
        rw [hprompt, htail, List.append_assoc]
      have htake : prompt_tokens.dropLast.take offset = ctx := by
        rw [List.dropLast_eq_take, List.take_take, Nat.min_eq_left (Nat.le_of_lt hmore), hprompt,
          ← hctx, List.take_left]
      have hnext : prompt_tokens.dropLast.take (offset + chunk_rows) = ctx ++ chunk := by
        have hcount : min (offset + chunk_rows) (prompt_tokens.length - 1) =
            (ctx ++ chunk).length := by
          rw [List.length_append]
          omega
        rw [List.dropLast_eq_take, List.take_take, hcount, hwhole, List.take_left]
      rw [htake] at h
      have hprefill := prefill_chunk_rows (T.after ctx) hT
        (show FitsChunk chunk from ⟨List.ne_nil_of_length_pos (by omega), by omega⟩)
      -- the companion catches up with the chunk
      obtain ⟨s₁, hconsume, hsame, hcaught⟩ := consume_stream_batch_eq chunk rest
        (show engine.Caught { s with state := T.after (ctx ++ chunk) } ctx from
          ⟨h.previous_target_stream, h.mtp_state⟩)
      have hconsumed₁ : engine.Consumed s₁ (prompt_tokens.dropLast.take (offset + chunk_rows)) := by
        rw [hnext]
        exact ⟨hcaught, hsame.state⟩
      obtain ⟨s₂, hrun, hconsumed, hprefix, hprofit⟩ := ih (by omega) hconsumed₁
      refine ⟨s₂, ?_, hconsumed, hprefix.trans hsame.prefill_offset,
        hprofit.trans hsame.cached_mtp_profitability⟩
      rw [← hwhole, hctx, streams, hchunk] at hconsume
      simp only [hpiece, h.state, hprefill, Except.ok_bind, ← T.after_append]
      rw [hconsume]
      exact hrun
    · rw [List.take_of_length_le (by rw [List.length_dropLast]; omega)] at h
      rw [if_neg hmore]
      exact ⟨s, rfl, h, rfl, rfl⟩

end NativeEngine

end Qwen38
