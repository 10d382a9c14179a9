import Qwen38.Engine.Segments

/-!
# The rows of the prompt

The companion takes every token of the prompt with the target's stream of the token before it,
so that the rows are one off against the stream batches: the last stream of each is carried
over to the next (`Qwen38.NativeEngine.consume_target_batch`). A batch goes to the companion
whole or row by row, and in pieces of 512; `Qwen38.MtpPromptLifecycle` plans the same rows from
positions alone.

Whatever the batches are, the companion gets the rows of all of them at once
(`Qwen38.NativeEngine.consume_chunks_eq`), because taking rows is an action of appending lists
(`Qwen38.NativeEngine.fed_by_fed_by`).
-/

namespace Qwen38

open Except (throw_if throw_if_of_not)

variable {T : Target}

/-! ### Rows at their positions -/

namespace MtpDecodeState

/-- The rows it was fed, with their positions. -/
def fed (state : MtpDecodeState T) : List (MtpRow T × Nat) :=
  state.rows.zipIdx (state.position_base.getD 0)

/-- Some rows more, from a position on. -/
def taken (state : MtpDecodeState T) (position : Nat) : List (MtpRow T) → MtpDecodeState T
  | [] => state
  | row :: rows =>
    { rows := state.rows ++ row :: rows, position_base := some (state.position_base.getD position) }

variable {state : MtpDecodeState T} {position : Nat} {message : String}

theorem taken_of_ne_nil {rows : List (MtpRow T)} (h : rows ≠ []) :
    state.taken position rows =
      { rows := state.rows ++ rows, position_base := some (state.position_base.getD position) } := by
  cases rows with
  | nil => exact absurd rfl h
  | cons row rows => rfl

theorem append_rows_taken {rows : List (MtpRow T)} (h : state.Next position) (hne : rows ≠ []) :
    state.append_rows message rows position = .ok (state.taken position rows) := by
  rw [append_rows_eq h, taken_of_ne_nil hne]

theorem next_taken (h : state.Next position) (rows : List (MtpRow T)) :
    (state.taken position rows).Next (position + rows.length) := by
  cases rows with
  | nil => exact h
  | cons row rows => exact next_append h (row :: rows)

theorem taken_taken (rows rows' : List (MtpRow T)) :
    (state.taken position rows).taken (position + rows.length) rows' =
      state.taken position (rows ++ rows') := by
  cases rows with
  | nil => rfl
  | cons row rows =>
    cases rows' with
    | nil => rw [taken, List.append_nil]
    | cons row' rows' => simp only [taken, List.cons_append, List.append_assoc, Option.getD_some]

theorem fed_taken (h : state.Next position) (rows : List (MtpRow T)) :
    (state.taken position rows).fed = state.fed ++ rows.zipIdx position := by
  cases rows with
  | nil => exact (List.append_nil _).symm
  | cons row rows =>
    rw [Next] at h
    rw [taken, fed, fed, Option.getD_some, List.zipIdx_append, ← h]
    congr 1
    cases hbase : state.position_base with
    | some base => rfl
    | none =>
      -- it was fed nothing yet
      rw [hbase, Option.getD_none] at h
      rw [List.eq_nil_of_length_eq_zero (by omega : state.rows.length = 0)]
      rfl

end MtpDecodeState

/-! ### The rows of a prompt -/

/-- The first token with a stream before it. -/
def first_row (previous : Option T.Stream) (offset : Nat) : Nat :=
  if previous.isSome then offset else offset + 1

/-- The tokens from the first row on, each with the stream before it: the carried one, then all but
the last of the streams. -/
def prompt_rows (previous : Option T.Stream) (streams : List T.Stream) (prompt_tokens : List Token)
    (offset : Nat) : List (MtpRow T) :=
  (previous.toList ++ streams).dropLast.zip (prompt_tokens.drop (first_row previous offset))

section PromptRows

variable {previous : Option T.Stream} {streams : List T.Stream} {prompt_tokens : List Token}
  {offset : Nat}

theorem first_row_add : first_row previous offset + previous.toList.length = offset + 1 := by
  cases previous <;> rfl

theorem le_first_row : offset ≤ first_row previous offset := by
  cases previous with
  | none => exact Nat.le_succ offset
  | some previous => exact le_rfl

theorem prompt_rows_nil : prompt_rows previous [] prompt_tokens offset = [] := by
  cases previous <;> rfl

theorem length_prompt_rows (hne : streams ≠ []) (h : offset + streams.length ≤ prompt_tokens.length) :
    first_row previous offset + (prompt_rows previous streams prompt_tokens offset).length =
      offset + streams.length := by
  have hpos := List.length_pos_of_ne_nil hne
  have hfirst := @first_row_add _ previous offset
  rw [prompt_rows, List.length_zip, List.length_dropLast, List.length_append, List.length_drop]
  omega

theorem append_zip {α β : Type*} (a a' : List α) (b : List β) :
    (a ++ a').zip b = a.zip b ++ a'.zip (b.drop a.length) := by
  induction a generalizing b with
  | nil => rfl
  | cons x a ih =>
    cases b with
    | nil => simp
    | cons y b =>
      rw [List.cons_append, List.zip_cons_cons, List.zip_cons_cons, ih, List.cons_append]
      rfl

theorem zip_take_length {α β : Type*} (a : List α) (b : List β) : a.zip (b.take a.length) = a.zip b := by
  induction a generalizing b with
  | nil => rfl
  | cons x a ih =>
    cases b with
    | nil => rfl
    | cons y b => rw [List.length_cons, List.take_succ_cons, List.zip_cons_cons, ih, List.zip_cons_cons]

/-- **Streams in two goes**: the last of the first go is carried over, since the token that it is
paired with belongs to the second. -/
theorem prompt_rows_append (streams streams' : List T.Stream) :
    prompt_rows previous (streams ++ streams') prompt_tokens offset =
      prompt_rows previous streams prompt_tokens offset ++
        prompt_rows (streams.getLast?.or previous) streams' prompt_tokens
          (offset + streams.length) := by
  rcases List.eq_nil_or_concat' streams with rfl | ⟨front, last, rfl⟩
  · rw [prompt_rows_nil]
    rfl
  · have hfirst := @first_row_add _ previous offset
    have hsplit : (previous.toList ++ (front ++ [last] ++ streams')).dropLast =
        previous.toList ++ front ++ (last :: streams').dropLast := by
      rw [List.append_assoc, List.singleton_append, ← List.append_assoc,
        List.dropLast_append_of_ne_nil (List.cons_ne_nil _ _)]
    rw [prompt_rows, hsplit, append_zip, List.drop_drop, prompt_rows, ← List.append_assoc,
      List.dropLast_concat, prompt_rows, List.getLast?_concat]
    congr 2
    congr 1
    change first_row previous offset + (previous.toList ++ front).length =
      offset + (front ++ [last]).length
    simp only [List.length_append, List.length_singleton]
    omega

end PromptRows

namespace NativeEngine

/-- What the companion and the carried stream are after some streams. -/
def fed_by (prompt_tokens : List Token) (offset : Nat) (streams : List T.Stream) (s : Prefilled T) :
    Prefilled T :=
  { s with
    mtp_state := s.mtp_state.taken (first_row s.previous_target_stream offset)
      (prompt_rows s.previous_target_stream streams prompt_tokens offset)
    previous_target_stream := streams.getLast?.or s.previous_target_stream }

/-- The companion takes the row at hand next. -/
def AtRow (s : Prefilled T) (offset : Nat) : Prop :=
  s.mtp_state.Next (first_row s.previous_target_stream offset)

variable {engine : NativeEngine T} {s : Prefilled T} {prompt_tokens : List Token}
  {streams : List T.Stream} {offset : Nat}

@[simp] theorem fed_by_nil : fed_by prompt_tokens offset [] s = s := by
  rw [fed_by, prompt_rows_nil]
  rfl

theorem atRow_fed_by (h : AtRow s offset)
    (hlength : offset + streams.length ≤ prompt_tokens.length) :
    AtRow (fed_by prompt_tokens offset streams s) (offset + streams.length) := by
  rcases List.eq_nil_or_concat' streams with rfl | ⟨front, last, rfl⟩
  · rwa [fed_by_nil]
  · have hnext := MtpDecodeState.next_taken h
      (prompt_rows s.previous_target_stream (front ++ [last]) prompt_tokens offset)
    rw [length_prompt_rows (by simp) hlength] at hnext
    rw [AtRow, fed_by, List.getLast?_concat]
    exact hnext

/-- **Streams in two goes.** Feeding the companion some streams and then those behind them is
feeding it all of them at once, as long as the prompt has the tokens for the first. -/
theorem fed_by_fed_by (hlength : offset + streams.length ≤ prompt_tokens.length)
    (streams' : List T.Stream) :
    fed_by prompt_tokens (offset + streams.length) streams' (fed_by prompt_tokens offset streams s) =
      fed_by prompt_tokens offset (streams ++ streams') s := by
  rcases List.eq_nil_or_concat' streams with rfl | ⟨front, last, rfl⟩
  · rw [fed_by_nil]
    rfl
  · have hrow : first_row ((front ++ [last]).getLast?.or s.previous_target_stream)
        (offset + (front ++ [last]).length) = offset + (front ++ [last]).length := by
      rw [List.getLast?_concat]
      rfl
    have hlast : (streams'.getLast?.or ((front ++ [last]).getLast?.or s.previous_target_stream)) =
        (front ++ [last] ++ streams').getLast?.or s.previous_target_stream := by
      rw [@List.getLast?_append _ (front ++ [last]) streams', Option.or_assoc]
    simp only [fed_by, hrow, hlast, prompt_rows_append (front ++ [last]) streams']
    rw [← length_prompt_rows (by simp) hlength, MtpDecodeState.taken_taken]

/-! ### What the prefill feeds -/

theorem slice_sequence_rows_eq {first last : Nat} (h : first < last) (hlast : last ≤ streams.length) :
    slice_sequence_rows streams first last = .ok ((streams.take last).drop first) := by
  rw [slice_sequence_rows, Except.throw_if_of_not (by omega)]
  rfl

/-- **Row by row**: one row. -/
theorem consume_target_row_fed (hhead : engine.mtp_head.isSome) {row : Nat} (hrow : row < streams.length)
    (hprompt : offset + row < prompt_tokens.length) (h : AtRow s (offset + row)) :
    engine.consume_target_row prompt_tokens streams offset s row =
      .ok (fed_by prompt_tokens (offset + row) [streams[row]] s) := by
  obtain ⟨head, hhead⟩ := Option.isSome_iff_exists.mp hhead
  have hslice : (streams.take (row + 1)).drop row = [streams[row]] := by
    rw [List.take_succ_eq_append_getElem hrow, List.drop_left' (by rw [List.length_take]; omega)]
  rw [consume_target_row, slice_sequence_rows_eq (Nat.lt_succ_self row) hrow, hslice, hhead, fed_by]
  cases hprevious : s.previous_target_stream with
  | none => rfl
  | some previous =>
    rw [AtRow, hprevious] at h
    have hrows : prompt_rows (some previous) [streams[row]] prompt_tokens (offset + row) =
        [(previous, prompt_tokens[offset + row])] := by
      change [previous].zip (prompt_tokens.drop (offset + row)) = _
      rw [List.drop_eq_getElem_cons hprompt]
      rfl
    have hdecode : s.mtp_state.consume_decode previous prompt_tokens[offset + row] (offset + row) =
        .ok (s.mtp_state.taken (offset + row) [(previous, prompt_tokens[offset + row])]) :=
      MtpDecodeState.append_rows_taken h (List.cons_ne_nil _ _)
    have htoken : prompt_tokens.getD (offset + row) 0 = prompt_tokens[offset + row] := by
      rw [List.getD_eq_getElem?_getD, List.getElem?_eq_getElem hprompt, Option.getD_some]
    simp only [hrows, htoken, hdecode, Except.ok_bind]
    rfl

/-- **All rows at once.** -/
theorem consume_target_rows_fed (hne : streams ≠ []) (hmax : streams.length ≤ 512)
    (hprompt : offset + streams.length ≤ prompt_tokens.length) (h : AtRow s offset) :
    consume_target_rows prompt_tokens streams offset streams.length s =
      .ok (s.mtp_state.taken (first_row s.previous_target_stream offset)
        (prompt_rows s.previous_target_stream streams prompt_tokens offset)) := by
  have hpos := List.length_pos_of_ne_nil hne
  have hcount : first_row s.previous_target_stream offset +
      (prompt_rows s.previous_target_stream streams prompt_tokens offset).length =
        offset + streams.length := length_prompt_rows hne hprompt
  -- what is handed over: all but the last of the streams, and the tokens from the first row on
  have htake (target_rows : List T.Stream) (hrows : target_rows =
        (s.previous_target_stream.toList ++ streams).dropLast)
      (hsome : first_row s.previous_target_stream offset < offset + streams.length) :
      s.mtp_state.consume_prefill_batch target_rows
          ((prompt_tokens.drop (first_row s.previous_target_stream offset)).take
            (offset + streams.length - first_row s.previous_target_stream offset))
          (first_row s.previous_target_stream offset) =
        .ok (s.mtp_state.taken (first_row s.previous_target_stream offset)
          (prompt_rows s.previous_target_stream streams prompt_tokens offset)) := by
    have hfirst := @first_row_add _ s.previous_target_stream offset
    have hle := @le_first_row _ s.previous_target_stream offset
    have hlength : target_rows.length =
        offset + streams.length - first_row s.previous_target_stream offset := by
      rw [hrows, List.length_dropLast, List.length_append]
      omega
    have hzip : target_rows.zip ((prompt_tokens.drop (first_row s.previous_target_stream offset)).take
          (offset + streams.length - first_row s.previous_target_stream offset)) =
        prompt_rows s.previous_target_stream streams prompt_tokens offset := by
      rw [← hlength, zip_take_length, prompt_rows, ← hrows]
    rw [MtpDecodeState.consume_prefill_batch, Except.throw_if_of_not, Except.ok_bind, hzip]
    · exact MtpDecodeState.append_rows_taken h (List.ne_nil_of_length_pos (by omega))
    · rw [← List.length_eq_zero_iff, List.length_take, List.length_drop, hlength]
      omega
  rw [consume_target_rows]
  cases hprevious : s.previous_target_stream with
  | some previous =>
    rw [hprevious] at htake
    have hrows := htake _ rfl (by change offset < _; omega)
    dsimp only
    split_ifs with hone
    · obtain ⟨stream, rfl⟩ := List.length_eq_one_iff.mp hone
      exact hrows
    · rw [slice_sequence_rows_eq (by omega) (Nat.sub_le _ _), Except.ok_bind, List.drop_zero,
        ← List.dropLast_eq_take]
      rw [Option.toList_some, List.singleton_append, List.dropLast_cons_of_ne_nil hne] at hrows
      exact hrows
  | none =>
    rw [hprevious] at htake hcount
    dsimp only
    split_ifs with hmore
    · have hrows := htake _ rfl hmore
      rw [slice_sequence_rows_eq (by omega) (Nat.sub_le _ _), Except.ok_bind, List.drop_zero,
        ← List.dropLast_eq_take]
      exact hrows
    · -- a first batch of one row has none to hand over
      have hnil : prompt_rows none streams prompt_tokens offset = [] := by
        refine List.eq_nil_of_length_eq_zero ?_
        have : first_row (none : Option T.Stream) offset = offset + 1 := rfl
        omega
      rw [hnil]
      rfl

/-- **A batch**, all at once or row by row. -/
theorem consume_target_batch_fed (hhead : engine.mtp_head.isSome) (hne : streams ≠ [])
    (hmax : streams.length ≤ 512) (hprompt : offset + streams.length ≤ prompt_tokens.length)
    (h : AtRow s offset) :
    engine.consume_target_batch prompt_tokens streams offset streams.length s =
      .ok (fed_by prompt_tokens offset streams s) := by
  have hpos := List.length_pos_of_ne_nil hne
  rw [consume_target_batch]
  split_ifs with hbatch
  · have hlast : (streams.take streams.length).drop (streams.length - 1) = [streams.getLast hne] := by
      rw [List.take_length, List.drop_length_sub_one hne]
    rw [consume_target_rows_fed hne hmax hprompt h, Except.ok_bind,
      slice_sequence_rows_eq (by omega) le_rfl, hlast, Except.ok_bind, fed_by,
      List.getLast?_eq_some_getLast hne]
    rfl
  · -- after `row` rows the companion was fed as many streams
    have hrun := Except.foldlM_range_eq (n := streams.length)
      (f := engine.consume_target_row prompt_tokens streams offset)
      (g := fun row => fed_by prompt_tokens offset (streams.take row) s) ?_
    · rwa [List.take_zero, fed_by_nil, List.take_length] at hrun
    · intro row hrow
      have hlength : (streams.take row).length = row := by rw [List.length_take]; omega
      have hready : AtRow (fed_by prompt_tokens offset (streams.take row) s) (offset + row) := by
        have hstep := @atRow_fed_by _ s prompt_tokens (streams.take row) offset h (by omega)
        rwa [hlength] at hstep
      have happend := @fed_by_fed_by _ s prompt_tokens (streams.take row) offset (by omega)
        [streams[row]]
      rw [hlength, ← List.take_succ_eq_append_getElem hrow] at happend
      rw [consume_target_row_fed hhead hrow (by omega) hready, happend]

/-- A piece of at most 512 rows. -/
theorem consume_stream_piece_fed (hhead : engine.mtp_head.isSome) {index : Nat}
    (hindex : index * 512 < streams.length)
    (hprompt : offset + streams.length ≤ prompt_tokens.length) (h : AtRow s (offset + index * 512)) :
    engine.consume_stream_piece prompt_tokens streams offset streams.length s index =
      .ok (fed_by prompt_tokens (offset + index * 512) ((streams.drop (index * 512)).take 512) s) := by
  have hlength : ((streams.drop (index * 512)).take 512).length =
      min 512 (streams.length - index * 512) := by
    rw [List.length_take, List.length_drop]
  have hpiece := @consume_target_batch_fed _ engine s prompt_tokens
    ((streams.drop (index * 512)).take 512) (offset + index * 512) hhead
    (List.ne_nil_of_length_pos (by omega)) (by omega) (by omega) h
  rw [hlength] at hpiece
  rw [consume_stream_piece]
  dsimp only
  split_ifs with hwhole
  · rw [hwhole.1, List.drop_zero, List.take_of_length_le (by omega)] at hpiece ⊢
    exact hpiece
  · have hslice : (streams.drop (index * 512)).take (min 512 (streams.length - index * 512)) =
        (streams.drop (index * 512)).take 512 := by
      rw [← List.length_drop, ← List.take_take, List.take_length]
    rw [slice_sequence_rows_eq (by omega) (by omega), Except.ok_bind, List.drop_take,
      Nat.add_sub_cancel_left, hslice]
    exact hpiece

/-- **A stream batch** of any length, in pieces of at most 512 rows, feeds the rows of its streams
in order. -/
theorem consume_stream_batch_fed (hhead : engine.mtp_head.isSome)
    (hprompt : offset + streams.length ≤ prompt_tokens.length) (h : AtRow s offset) :
    engine.consume_stream_batch prompt_tokens streams offset streams.length s =
      .ok (fed_by prompt_tokens offset streams s) := by
  have hrun := Except.foldlM_range_eq (n := (streams.length + 511) / 512)
    (f := engine.consume_stream_piece prompt_tokens streams offset streams.length)
    (g := fun index => fed_by prompt_tokens offset (streams.take (index * 512)) s) ?_
  · rwa [Nat.zero_mul, List.take_zero, fed_by_nil, List.take_of_length_le (by omega)] at hrun
  · intro index hindex
    have hlength : (streams.take (index * 512)).length = index * 512 := by
      rw [List.length_take]
      omega
    have hready := @atRow_fed_by _ s prompt_tokens (streams.take (index * 512)) offset h (by omega)
    have happend := @fed_by_fed_by _ s prompt_tokens (streams.take (index * 512)) offset (by omega)
      ((streams.drop (index * 512)).take 512)
    rw [hlength] at hready happend
    rw [consume_stream_piece_fed hhead (by omega) hprompt hready, happend, ← List.take_add,
      ← Nat.succ_mul]

variable (engine) in
/-- The stream batches of a prefill, one after the other. -/
def consume_chunks (prompt_tokens : List Token) :
    List (List T.Stream) → Nat → Prefilled T → Except String (Prefilled T)
  | [], _, s => .ok s
  | chunk :: chunks, offset, s => do
    let s ← engine.consume_stream_batch prompt_tokens chunk offset chunk.length s
    consume_chunks prompt_tokens chunks (offset + chunk.length) s

/-- **Every chunking** feeds the rows of all streams. The companion is at a row of the prompt when
it starts, and is left at the row behind the last stream, however the streams were cut into
chunks. -/
theorem consume_chunks_eq (hhead : engine.mtp_head.isSome) {chunks : List (List T.Stream)}
    (hprompt : offset + chunks.flatten.length ≤ prompt_tokens.length) (h : AtRow s offset) :
    engine.consume_chunks prompt_tokens chunks offset s =
      .ok (fed_by prompt_tokens offset chunks.flatten s) := by
  induction chunks generalizing offset s with
  | nil => rw [List.flatten_nil, fed_by_nil, consume_chunks]
  | cons chunk chunks ih =>
    rw [List.flatten_cons, List.length_append] at hprompt
    rw [consume_chunks, consume_stream_batch_fed hhead (by omega) h, Except.ok_bind,
      ih (by omega) (atRow_fed_by h (by omega)), fed_by_fed_by (by omega), List.flatten_cons]

end NativeEngine

/-! ### The planner -/

/-- `MtpHiddenSource`. -/
inductive MtpHiddenSource where
  | carry
  | chunk
  deriving DecidableEq

/-- `MtpPromptPair`. -/
structure MtpPromptPair where
  hidden_source : MtpHiddenSource
  hidden_index : Nat
  token_index : Nat
  query_position : Nat

/-- What `plan_chunk` throws: its own errors, and the one of the vector it reserves. -/
inductive PlanError where
  | runtime_error (message : String)
  | length_error

/-- `MtpPromptLifecycle`. -/
structure MtpPromptLifecycle where
  initialized : Bool := false
  has_carry : Bool := false
  carry_position : Nat := 0
  next_position : Nat := 0

namespace MtpPromptLifecycle

/-- The pairs of a chunk: the carried stream with its first token, then the rest. -/
def chunk_pairs (has_carry : Bool) (first_position token_count : Nat) : List MtpPromptPair :=
  (if has_carry then [⟨.carry, 0, 0, first_position⟩] else []) ++
    (List.range (token_count - 1)).map fun index =>
      ⟨.chunk, index, index + 1, first_position + index + 1⟩

/-- `reset`, on the first chunk of a prompt. -/
def started (first_position : Nat) (lifecycle : MtpPromptLifecycle) : MtpPromptLifecycle :=
  if first_position = 0 then {} else lifecycle

/-- The checks of a chunk, and its pairs. `max_size` is what a vector of pairs can hold. -/
def plan_pairs (max_size first_position token_count : Nat) (lifecycle : MtpPromptLifecycle) :
    Except PlanError (List MtpPromptPair) := do
  throw_if (lifecycle.initialized ∧ first_position ≠ lifecycle.next_position)
    (.runtime_error "MTP prompt chunks must be position-contiguous")
  throw_if (2 ^ 64 - 1 - first_position < token_count)
    (.runtime_error "MTP prompt position overflow")
  throw_if (max_size < token_count) .length_error
  throw_if (lifecycle.has_carry ∧ (lifecycle.carry_position + 1) % 2 ^ 64 ≠ first_position)
    (.runtime_error "MTP hidden carry is not adjacent to the prompt chunk")
  return chunk_pairs lifecycle.has_carry first_position token_count

/-- `plan_chunk`. -/
def plan_chunk (max_size first_position token_count : Nat) (lifecycle : MtpPromptLifecycle) :
    Except PlanError (List MtpPromptPair) × MtpPromptLifecycle :=
  if token_count = 0 then (.error (.runtime_error "MTP prompt chunk must not be empty"), lifecycle)
  else
    match (lifecycle.started first_position).plan_pairs max_size first_position token_count with
    | .error e => (.error e, lifecycle.started first_position)
    | .ok pairs =>
      (.ok pairs,
        { initialized := true
          has_carry := true
          carry_position := first_position + token_count - 1
          next_position := first_position + token_count })

variable {max_size first_position token_count : Nat} {lifecycle : MtpPromptLifecycle}

/-- **An error leaves the planner alone.** A first chunk resets it, but then has none to report. -/
theorem plan_chunk_error (htype : token_count < 2 ^ 64) {message : String}
    (h : (lifecycle.plan_chunk max_size first_position token_count).1 =
      .error (.runtime_error message)) :
    (lifecycle.plan_chunk max_size first_position token_count).2 = lifecycle := by
  rw [plan_chunk] at h ⊢
  split_ifs at h ⊢
  · rfl
  · cases hpairs : (lifecycle.started first_position).plan_pairs max_size first_position token_count with
    | ok pairs => rw [hpairs] at h; cases h
    | error e =>
      rw [hpairs] at h
      obtain rfl : e = .runtime_error message := Except.error.inj h
      rcases Nat.eq_zero_or_pos first_position with rfl | hpos
      · have hnot : ¬2 ^ 64 - 1 < token_count := by omega
        simp [plan_pairs, started, Except.bind_eq_error] at hpairs
        omega
      · exact if_neg hpos.ne'

/-- The planner at a position: with the carried stream, or before the first chunk. -/
structure At (lifecycle : MtpPromptLifecycle) (carry : Bool) (position : Nat) : Prop where
  has_carry : (lifecycle.started position).has_carry = carry
  adjacent : carry = true → (lifecycle.started position).carry_position + 1 = position
  contiguous : (lifecycle.started position).initialized = true →
    (lifecycle.started position).next_position = position

/-- **A chunk** at the planner's position. -/
theorem plan_chunk_eq {carry : Bool} (h : lifecycle.At carry first_position) (hpos : 0 < token_count)
    (htype : first_position + token_count < 2 ^ 64) (hmax : token_count ≤ max_size) :
    ∃ lifecycle', lifecycle.plan_chunk max_size first_position token_count =
        (.ok (chunk_pairs carry first_position token_count), lifecycle') ∧
      lifecycle'.At true (first_position + token_count) := by
  obtain ⟨hcarry, hadjacent, hcontiguous⟩ := h
  have hpairs : (lifecycle.started first_position).plan_pairs max_size first_position token_count =
      .ok (chunk_pairs carry first_position token_count) := by
    rw [plan_pairs, throw_if_of_not fun h => h.2 (hcontiguous h.1).symm, Except.ok_bind,
      throw_if_of_not (by omega), Except.ok_bind, throw_if_of_not (by omega), Except.ok_bind, hcarry,
      throw_if_of_not, Except.ok_bind, Except.pure_eq_ok]
    rintro ⟨hsome, hne⟩
    rw [hadjacent hsome, Nat.mod_eq_of_lt (by omega)] at hne
    exact hne rfl
  refine ⟨_, by rw [plan_chunk, if_neg hpos.ne', hpairs], ?_⟩
  have hstarted (l : MtpPromptLifecycle) : l.started (first_position + token_count) = l :=
    if_neg (by omega)
  constructor
  · rw [hstarted]
  · rw [hstarted]
    intro _
    change first_position + token_count - 1 + 1 = _
    omega
  · rw [hstarted]
    exact fun _ => rfl

/-- The row of a pair: its stream, its token and its position. -/
def row (previous : Option T.Stream) (streams : List T.Stream) (tokens : List Token)
    (pair : MtpPromptPair) : Option (MtpRow T × Nat) := do
  let stream ←
    match pair.hidden_source with
    | .carry => previous
    | .chunk => streams[pair.hidden_index]?
  let token ← tokens[pair.token_index]?
  return ((stream, token), pair.query_position)

/-- The rows of the chunks that are planned, from the carried stream on. -/
def plan_chunks (max_size : Nat) (prompt_tokens : List Token) :
    List (List T.Stream) → Nat → Option T.Stream → MtpPromptLifecycle →
      Except PlanError (List (Option (MtpRow T × Nat)))
  | [], _, _, _ => .ok []
  | chunk :: chunks, first_position, previous, lifecycle => do
    let planned := lifecycle.plan_chunk max_size first_position chunk.length
    let pairs ← planned.1
    let rest ← plan_chunks max_size prompt_tokens chunks (first_position + chunk.length)
      (chunk.getLast?.or previous) planned.2
    return pairs.map (row previous chunk ((prompt_tokens.drop first_position).take chunk.length)) ++ rest

variable {previous : Option T.Stream} {streams : List T.Stream} {prompt_tokens : List Token}

/-- The pairs within a chunk. -/
theorem map_row_range (h : first_position + streams.length ≤ prompt_tokens.length) :
    (List.range (streams.length - 1)).map (fun index =>
        row previous streams ((prompt_tokens.drop first_position).take streams.length)
          ⟨.chunk, index, index + 1, first_position + index + 1⟩) =
      ((streams.dropLast.zip (prompt_tokens.drop (first_position + 1))).zipIdx
        (first_position + 1)).map some := by
  refine List.ext_getElem ?_ fun index hleft hright => ?_
  · rw [List.length_map, List.length_range, List.length_map, List.length_zipIdx, List.length_zip,
      List.length_dropLast, List.length_drop]
    omega
  · rw [List.length_map, List.length_range] at hleft
    have hindex : index < streams.length := by omega
    have htoken : ((prompt_tokens.drop first_position).take streams.length)[index + 1]? =
        some prompt_tokens[first_position + 1 + index] := by
      rw [List.getElem?_take_of_lt (by omega), List.getElem?_drop,
        List.getElem?_eq_getElem (by omega)]
      congr 2
      omega
    simp only [List.getElem_map, List.getElem_range, row, List.getElem?_eq_getElem hindex, htoken,
      List.getElem_zipIdx, List.getElem_zip, List.getElem_dropLast, List.getElem_drop]
    rw [Nat.add_right_comm first_position index 1]
    rfl

/-- **The pairs of a chunk** are its rows. -/
theorem map_row_chunk_pairs (hne : streams ≠ [])
    (h : first_position + streams.length ≤ prompt_tokens.length) :
    (chunk_pairs previous.isSome first_position streams.length).map
        (row previous streams ((prompt_tokens.drop first_position).take streams.length)) =
      ((prompt_rows previous streams prompt_tokens first_position).zipIdx
        (first_row previous first_position)).map some := by
  have hpos := List.length_pos_of_ne_nil hne
  rw [chunk_pairs, List.map_append, List.map_map]
  have hrange := @map_row_range _ first_position previous streams prompt_tokens h
  cases previous with
  | none => exact hrange
  | some stream =>
    have htoken : ((prompt_tokens.drop first_position).take streams.length)[0]? =
        some prompt_tokens[first_position] := by
      rw [List.getElem?_take_of_lt hpos, List.getElem?_drop, List.getElem?_eq_getElem (by omega)]
      rfl
    have hrows : prompt_rows (some stream) streams prompt_tokens first_position =
        (stream, prompt_tokens[first_position]) ::
          streams.dropLast.zip (prompt_tokens.drop (first_position + 1)) := by
      change (stream :: streams).dropLast.zip (prompt_tokens.drop first_position) = _
      rw [List.dropLast_cons_of_ne_nil hne, List.drop_eq_getElem_cons (by omega), List.zip_cons_cons]
    rw [hrows, List.zipIdx_cons, List.map_cons]
    refine congrArg₂ List.cons ?_ hrange
    rw [row, htoken]
    rfl

/-- **Every plan** of a prompt names the rows of all streams, in order, however the streams were cut
into chunks. -/
theorem plan_chunks_eq {chunks : List (List T.Stream)} (hne : ∀ chunk ∈ chunks, chunk ≠ [])
    (hmax : ∀ chunk ∈ chunks, chunk.length ≤ max_size) (htype : prompt_tokens.length < 2 ^ 64)
    (hprompt : first_position + chunks.flatten.length ≤ prompt_tokens.length)
    (h : lifecycle.At previous.isSome first_position) :
    plan_chunks max_size prompt_tokens chunks first_position previous lifecycle =
      .ok (((prompt_rows previous chunks.flatten prompt_tokens first_position).zipIdx
        (first_row previous first_position)).map some) := by
  induction chunks generalizing first_position previous lifecycle with
  | nil =>
    rw [List.flatten_nil, prompt_rows_nil]
    rfl
  | cons chunk chunks ih =>
    rw [List.forall_mem_cons] at hne hmax
    rw [List.flatten_cons, List.length_append] at hprompt
    have hpos := List.length_pos_of_ne_nil hne.1
    obtain ⟨lifecycle', hplan, hat⟩ := plan_chunk_eq h hpos (by omega) hmax.1
    have hlast : chunk.getLast?.or previous = some (chunk.getLast hne.1) := by
      rw [List.getLast?_eq_some_getLast hne.1]
      rfl
    have hrest := @ih (first_position + chunk.length) lifecycle' (chunk.getLast?.or previous) hne.2
      hmax.2 (by omega) (by rwa [hlast])
    rw [plan_chunks, hplan]
    dsimp only
    rw [Except.ok_bind, hrest, Except.ok_bind, map_row_chunk_pairs hne.1 (by omega),
      List.flatten_cons, prompt_rows_append, List.zipIdx_append, List.map_append,
      length_prompt_rows hne.1 (by omega)]
    rw [hlast]
    rfl

end MtpPromptLifecycle

namespace NativeEngine

variable {engine : NativeEngine T} {s : Prefilled T} {prompt_tokens : List Token}
  {streams : List T.Stream} {offset : Nat}

/-- A run from the start. -/
theorem atRow_fresh (state : ModelDecodeState T) : AtRow { state } 0 := rfl

/-- A run from a cached entry in step with its tokens. -/
theorem atRow_of_caught {ctx : List Token} (hhead : engine.mtp_head.isSome) (h : engine.Caught s ctx)
    (hne : ctx ≠ []) : AtRow s ctx.length := by
  rw [AtRow, h.previous_target_stream, h.mtp_state hhead, Target.stream?, if_neg hne]
  exact MtpDecodeState.next_after hne

/-- The stream of a token: of one before the run the carried one. -/
def stream_at (previous : Option T.Stream) (streams : List T.Stream) (offset index : Nat) :
    Option T.Stream :=
  if index < offset then previous else streams[index - offset]?

/-- The pair of a token: the stream of the token before it, the token, and its position. -/
def pair_at (previous : Option T.Stream) (streams : List T.Stream) (prompt_tokens : List Token)
    (offset index : Nat) : Option (MtpRow T × Nat) := do
  let stream ← stream_at previous streams offset (index - 1)
  let token ← prompt_tokens[index]?
  return ((stream, token), index)

/-- The stream of the token before a row: the carried one, then those of the run. -/
theorem stream_at_first {previous : Option T.Stream} (hoffset : offset = 0 → previous = none) (k : Nat) :
    stream_at previous streams offset (first_row previous offset + k - 1) =
      (previous.toList ++ streams)[k]? := by
  cases previous with
  | none =>
    rw [first_row, if_neg (by simp), stream_at, if_neg (by omega)]
    exact congrArg (streams[·]?) (by omega)
  | some previous =>
    have hpos : offset ≠ 0 := fun h => Option.some_ne_none _ (hoffset h)
    change stream_at (some previous) streams offset (offset + k - 1) = _
    rw [stream_at]
    cases k with
    | zero => exact if_pos (by omega)
    | succ k =>
      rw [if_neg (by omega)]
      exact congrArg (streams[·]?) (by omega)

/-- The rows of a prompt are the pairs of its tokens, in order and once. -/
theorem prompt_rows_eq {previous : Option T.Stream} (hoffset : offset = 0 → previous = none)
    (hprompt : offset + streams.length ≤ prompt_tokens.length) :
    ((prompt_rows previous streams prompt_tokens offset).zipIdx (first_row previous offset)).map some =
      (List.range' (first_row previous offset)
        (offset + streams.length - first_row previous offset)).map
        (pair_at previous streams prompt_tokens offset) := by
  have hlength : (prompt_rows previous streams prompt_tokens offset).length =
      offset + streams.length - first_row previous offset := by
    by_cases hne : streams = []
    · have := @le_first_row _ previous offset
      rw [hne, prompt_rows_nil, List.length_nil, List.length_nil]
      omega
    · have := @length_prompt_rows _ previous _ _ _ hne hprompt
      omega
  refine List.ext_getElem ?_ fun k hleft hright => ?_
  · rw [List.length_map, List.length_zipIdx, hlength, List.length_map, List.length_range']
  · rw [List.length_map, List.length_range'] at hright
    have hfirst := @first_row_add _ previous offset
    have hk : k < (previous.toList ++ streams).length := by
      rw [List.length_append]
      omega
    have hstream : stream_at previous streams offset (first_row previous offset + k - 1) =
        some (previous.toList ++ streams)[k] := by
      rw [stream_at_first hoffset, List.getElem?_eq_getElem hk]
    have htoken : prompt_tokens[first_row previous offset + k]? =
        some prompt_tokens[first_row previous offset + k] := List.getElem?_eq_getElem _
    simp only [List.getElem_map, List.getElem_zipIdx, prompt_rows, List.getElem_zip,
      List.getElem_dropLast, List.getElem_drop, List.getElem_range', Nat.one_mul, pair_at, hstream,
      htoken]
    rfl

variable (engine) in
/-- **The rows of a prompt are fed once each.** Whatever the stream batches of the prefill are, and
whichever way the companion takes them, it gets every token from the first with a stream before it
to the last that is prefilled, in order and once; the planner plans the same rows, and is left alone
by its errors. -/
theorem prompt_fed_once (hhead : engine.mtp_head.isSome) {chunks : List (List T.Stream)}
    (hchunks : ∀ chunk ∈ chunks, chunk ≠ [])
    (hprompt : offset + chunks.flatten.length = prompt_tokens.length - 1)
    (hoffset : offset = 0 → s.previous_target_stream = none) (hrow : AtRow s offset) :
    let first := first_row s.previous_target_stream offset
    (∃ s' pairs, engine.consume_chunks prompt_tokens chunks offset s = .ok s' ∧
      pairs.map some = (List.range' first (prompt_tokens.length - 1 - first)).map
        (pair_at s.previous_target_stream chunks.flatten prompt_tokens offset) ∧
      s'.mtp_state.fed = s.mtp_state.fed ++ pairs ∧
      ∀ max_size (lifecycle : MtpPromptLifecycle), prompt_tokens.length < 2 ^ 64 →
        (∀ chunk ∈ chunks, chunk.length ≤ max_size) →
        lifecycle.At s.previous_target_stream.isSome offset →
          lifecycle.plan_chunks max_size prompt_tokens chunks offset s.previous_target_stream =
            .ok (pairs.map some)) ∧
    ∀ (lifecycle : MtpPromptLifecycle) max_size first_position token_count message,
      token_count < 2 ^ 64 →
        (lifecycle.plan_chunk max_size first_position token_count).1 =
            .error (.runtime_error message) →
          (lifecycle.plan_chunk max_size first_position token_count).2 = lifecycle := by
  intro first
  refine ⟨⟨_, _, consume_chunks_eq hhead (by omega) hrow, ?_, MtpDecodeState.fed_taken hrow _, ?_⟩, ?_⟩
  · rw [prompt_rows_eq hoffset (by omega), hprompt]
  · intro max_size lifecycle htype hmax hat
    exact MtpPromptLifecycle.plan_chunks_eq hchunks hmax htype (by omega) hat
  · intro lifecycle max_size first_position token_count message htype herror
    exact MtpPromptLifecycle.plan_chunk_error htype herror

/-- The companion, with an engine around it. -/
def with_companion : NativeEngine (consumed fun _ => 0) :=
  { thousand_rows with mtp_head := some ⟨fun _ => (0, [])⟩ }

/-- Three tokens after a carried one, in batches of two and one. -/
theorem prompt_fed_once_three :
    ∃ s', with_companion.consume_chunks [5, 6, 7, 8, 9] [[[5, 6], [5, 6, 7]], [[5, 6, 7, 8]]] 1
        { state := (consumed fun _ => 0).make_state, previous_target_stream := some [5] } = .ok s' ∧
      s'.mtp_state.fed = [(([5], 6), 1), (([5, 6], 7), 2), (([5, 6, 7], 8), 3)] := by
  obtain ⟨⟨s', pairs, hrun, hpairs, hfed, -⟩, -⟩ := @prompt_fed_once _ with_companion
    { state := (consumed fun _ => 0).make_state, previous_target_stream := some [5] } [5, 6, 7, 8, 9] 1
    rfl [[[5, 6], [5, 6, 7]], [[5, 6, 7, 8]]] (by decide) rfl (by decide) rfl
  have hthree : pairs = [(([5], 6), 1), (([5, 6], 7), 2), (([5, 6, 7], 8), 3)] :=
    List.map_injective_iff.mpr (Option.some_injective _) (hpairs.trans rfl)
  exact ⟨s', hrun, hfed.trans hthree⟩

/-- The last token of a prompt is not prefilled, and the companion does not get it. -/
theorem not_last_token_fed :
    ¬∀ (prompt_tokens : List Token) (s' : Prefilled (consumed fun _ => 0)),
      with_companion.prefill prompt_tokens { state := (consumed fun _ => 0).make_state } = .ok s' →
        ∀ last ∈ prompt_tokens.getLast?, 1 < prompt_tokens.length →
          ∃ stream, ((stream, last), prompt_tokens.length - 1) ∈ s'.mtp_state.fed := by
  intro h
  have hfresh : with_companion.Consumed { state := (consumed fun _ => 0).make_state } [] :=
    ⟨⟨rfl, fun _ => rfl⟩, rfl⟩
  obtain ⟨s', hrun, hconsumed, -, -⟩ := @prefill_chunk_major_eq _ with_companion
    { state := (consumed fun _ => 0).make_state } [5, 6] 1000 1 0 (consumed_rowWise _) (by decide)
    (by decide) (by decide) hfresh
  obtain ⟨stream, hmem⟩ := h [5, 6] s' hrun 6 rfl (by decide)
  rw [hconsumed.mtp_state rfl] at hmem
  exact List.not_mem_nil hmem

end NativeEngine

end Qwen38
