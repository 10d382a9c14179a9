import Qwen38.Engine.Mtp
import Qwen38.Engine.Schedules

/-!
# What a round does

The companion takes no row for the first token: there is no stream before it. After that it
is in step with the target when it was fed every consumed token
(`Qwen38.MtpDecodeState.after`). All ways to feed it the next tokens leave the same state,
`Qwen38.MtpDecodeState.feed`.

A round from there (`Qwen38.finish_greedy_mtp_round_eq`) commits the accepted drafts, no
more and no fewer, to both of them: the target has consumed the current token and the
accepted drafts, the companion was fed exactly these, and the token it hands on is the
target's own.
-/

namespace Qwen38

open Except (throw_if throw_if_of_not)

variable {T : Target}

namespace MtpDecodeState

/-! ### Rows at the next position -/

/-- The position at which the companion takes its next row. -/
def Next (state : MtpDecodeState T) (n : Nat) : Prop :=
  n = state.position_base.getD n + state.rows.length

variable {state : MtpDecodeState T} {n : Nat} {message : String} {rows : List (MtpRow T)}

theorem append_rows_eq (h : state.Next n) :
    state.append_rows message rows n =
      .ok { rows := state.rows ++ rows, position_base := some (state.position_base.getD n) } := by
  have hnot : ¬n ≠ state.position_base.getD n + state.rows.length := not_not_intro h
  rw [append_rows, throw_if_of_not hnot]
  rfl

theorem next_append (h : state.Next n) (rows : List (MtpRow T)) :
    Next { rows := state.rows ++ rows, position_base := some (state.position_base.getD n) }
      (n + rows.length) := by
  rw [Next] at h ⊢
  rw [Option.getD_some, List.length_append]
  omega

variable (T) in
/-- The rows for tokens consumed after others. -/
def rows_after : List Token → List Token → List (MtpRow T)
  | _, [] => []
  | ctx, token :: tokens => (T.stream ctx, token) :: rows_after (ctx ++ [token]) tokens

/-- The companion after the next tokens. -/
def feed (ctx tokens : List Token) (state : MtpDecodeState T) : MtpDecodeState T where
  rows := state.rows ++ rows_after T ctx tokens
  position_base := some (state.position_base.getD ctx.length)

variable (T) in
/-- The companion that was fed all consumed tokens but the first. -/
def after (ctx : List Token) : MtpDecodeState T :=
  if ctx.length ≤ 1 then {}
  else { rows := rows_after T (ctx.take 1) (ctx.drop 1), position_base := some 1 }

variable {ctx tokens : List Token}

@[simp] theorem length_rows_after (ctx tokens : List Token) :
    (rows_after T ctx tokens).length = tokens.length := by
  induction tokens generalizing ctx with
  | nil => rfl
  | cons token tokens ih => rw [rows_after, List.length_cons, ih, List.length_cons]

theorem rows_after_append (ctx tokens us : List Token) :
    rows_after T ctx (tokens ++ us) =
      rows_after T ctx tokens ++ rows_after T (ctx ++ tokens) us := by
  induction tokens generalizing ctx with
  | nil => simp [rows_after]
  | cons token tokens ih => simp [rows_after, ih, List.append_assoc]

theorem take_rows_after (ctx tokens : List Token) (k : Nat) :
    (rows_after T ctx tokens).take k = rows_after T ctx (tokens.take k) := by
  induction tokens generalizing ctx k with
  | nil => simp [rows_after]
  | cons token tokens ih =>
    cases k with
    | zero => rfl
    | succ k => rw [rows_after, List.take_succ_cons, ih, List.take_succ_cons, rows_after]

theorem drop_rows_after (ctx tokens : List Token) (k : Nat) :
    (rows_after T ctx tokens).drop k = rows_after T (ctx ++ tokens.take k) (tokens.drop k) := by
  induction tokens generalizing ctx k with
  | nil => simp [rows_after]
  | cons token tokens ih =>
    cases k with
    | zero => simp
    | succ k =>
      rw [rows_after, List.drop_succ_cons, ih, List.take_succ_cons, List.drop_succ_cons,
        List.append_assoc, List.singleton_append]

theorem rows_after_tokens (ctx tokens : List Token) :
    (rows_after T ctx tokens).map Prod.snd = tokens := by
  induction tokens generalizing ctx with
  | nil => rfl
  | cons token tokens ih => rw [rows_after, List.map_cons, ih]

theorem next_after (h : ctx ≠ []) : (after T ctx).Next ctx.length := by
  have hpos := List.length_pos_of_ne_nil h
  rw [after]
  split
  · simp only [Next, Option.getD_none, List.length_nil]
    omega
  · simp only [Next, Option.getD_some, length_rows_after, List.length_drop]
    omega

/-- **The next tokens keep the companion in step.** The companion pairs each stream with the token
behind it, so that feeding it the rows of these tokens leaves it where the longer context would. -/
theorem after_feed (hctx : ctx ≠ []) (htokens : tokens ≠ []) :
    (after T ctx).feed ctx tokens = after T (ctx ++ tokens) := by
  have hpos := List.length_pos_of_ne_nil htokens
  obtain ⟨first, rest, rfl⟩ := List.exists_cons_of_ne_nil hctx
  have hlong : ¬(first :: rest ++ tokens).length ≤ 1 := by
    simp only [List.length_append, List.length_cons]
    omega
  rw [after, after, if_neg hlong]
  by_cases hrest : rest = []
  · subst hrest
    rfl
  · have hlength := List.length_pos_of_ne_nil hrest
    rw [if_neg (by rw [List.length_cons]; omega)]
    refine MtpDecodeState.ext ?_ rfl
    exact (rows_after_append [first] rest tokens).symm

/-- Tokens in two goes. -/
theorem feed_feed (us : List Token) :
    (state.feed ctx tokens).feed (ctx ++ tokens) us = state.feed ctx (tokens ++ us) := by
  simp only [MtpDecodeState.feed, rows_after_append, List.append_assoc, Option.getD_some]

theorem append_rows_after (h : state.Next ctx.length) (tokens : List Token) :
    state.append_rows message (rows_after T ctx tokens) ctx.length = .ok (state.feed ctx tokens) :=
  append_rows_eq h

theorem next_feed (h : state.Next ctx.length) (tokens : List Token) :
    (state.feed ctx tokens).Next (ctx ++ tokens).length := by
  have hnext := next_append h (rows_after T ctx tokens)
  rwa [length_rows_after, ← List.length_append] at hnext

/-! ### The ways to feed it -/

theorem consume_decode_eq (h : state.Next ctx.length) (token : Token) :
    state.consume_decode (T.stream ctx) token ctx.length = .ok (state.feed ctx [token]) :=
  append_rows_after h [token]

/-- **One by one** the accepted rows are fed, and a row that does not come next is refused; here it
always does. -/
theorem consume_each_eq (h : state.Next ctx.length) (tokens : List Token) (hne : tokens ≠ []) :
    state.consume_each (rows_after T ctx tokens) ctx.length = .ok (state.feed ctx tokens) := by
  induction tokens generalizing state ctx with
  | nil => exact absurd rfl hne
  | cons token tokens ih =>
    rw [rows_after, consume_each, consume_decode_eq h, Except.ok_bind]
    have hnext := next_feed h [token]
    cases tokens with
    | nil => rfl
    | cons token' tokens =>
      have hrest := ih hnext (List.cons_ne_nil _ _)
      rw [List.length_append, List.length_singleton] at hrest
      rw [hrest, feed_feed, List.singleton_append]

/-- **In a batch** the accepted rows are fed at once, with the same result as one by one. -/
theorem consume_committed_batch_eq (h : state.Next ctx.length) (tokens : List Token) (htwo : 2 ≤ tokens.length)
    (hlength : tokens.length ≤ 25) :
    state.consume_committed_batch ((rows_after T ctx tokens).map Prod.fst) tokens ctx.length =
      .ok (state.feed ctx tokens) := by
  have hzip : ((rows_after T ctx tokens).map Prod.fst).zip tokens = rows_after T ctx tokens :=
    (List.zip_of_prod rfl (rows_after_tokens ctx tokens)).symm
  rw [consume_committed_batch, throw_if_of_not, Except.ok_bind, hzip, append_rows_after h]
  rw [List.length_map, length_rows_after]
  omega

theorem consume_prefill_batch_eq (h : state.Next ctx.length) (tokens : List Token) (hne : tokens ≠ [])
    (hlength : tokens.length ≤ 512) :
    state.consume_prefill_batch ((rows_after T ctx tokens).map Prod.fst) tokens ctx.length =
      .ok (state.feed ctx tokens) := by
  have hzip : ((rows_after T ctx tokens).map Prod.fst).zip tokens = rows_after T ctx tokens :=
    (List.zip_of_prod rfl (rows_after_tokens ctx tokens)).symm
  rw [consume_prefill_batch, throw_if_of_not, Except.ok_bind, hzip, append_rows_after h]
  rw [List.length_map, length_rows_after]
  rintro (hnil | hlong | hmatch)
  · exact hne hnil
  · omega
  · exact hmatch rfl

theorem consume_pending_pass_variant (base : Nat) :
    Loop.Variant (fun s : List (MtpRow T) × MtpDecodeState T => decide (s.1 ≠ []))
      (consume_pending_pass base) fun s => s.1.length where
  pos := by
    intro s hs
    exact List.length_pos_of_ne_nil (of_decide_eq_true hs)
  lt := by
    rintro ⟨rows, state⟩ s' hs hpass
    rcases rows with _ | ⟨⟨stream, token⟩, _ | ⟨row, rows⟩⟩
    · simp at hs
    · obtain ⟨state', -, hs'⟩ := Except.bind_eq_ok.mp hpass
      obtain rfl := Loop.Pass.next.inj (Except.ok.inj hs')
      simp
    · obtain ⟨state', -, hs'⟩ := Except.bind_eq_ok.mp hpass
      obtain rfl := Loop.Pass.next.inj (Except.ok.inj hs')
      simp only [List.length_drop, List.length_cons]
      omega

/-- Two pending rows or more go in a batch of at most five. -/
theorem consume_pending_pass_batch {base : Nat} (h : state.Next ctx.length)
    (hbase : state.position_base = some base) (htwo : 2 ≤ tokens.length) :
    consume_pending_pass base (rows_after T ctx tokens, state) =
      .ok (.next (rows_after T (ctx ++ tokens.take 5) (tokens.drop 5),
        state.feed ctx (tokens.take 5))) := by
  have hposition : base + state.rows.length = ctx.length := by
    rw [Next, hbase, Option.getD_some] at h
    exact h.symm
  have hbatch := consume_committed_batch_eq h (tokens.take 5)
    (by rw [List.length_take]; omega) (by rw [List.length_take]; omega)
  rw [← take_rows_after] at hbatch
  have htokens : ((rows_after T ctx tokens).take 5).map Prod.snd = tokens.take 5 := by
    rw [take_rows_after, rows_after_tokens]
  have hdrop := drop_rows_after (T := T) ctx tokens 5
  rcases tokens with _ | ⟨token, _ | ⟨token', tokens⟩⟩
  · simp at htwo
  · simp at htwo
  · generalize hrows : rows_after T ctx (token :: token' :: tokens) = rows at *
    rcases rows with _ | ⟨row, _ | ⟨row', rows⟩⟩
    · exact absurd (congrArg List.length hrows) (by simp)
    · exact absurd (congrArg List.length hrows) (by simp)
    · rw [consume_pending_pass]
      simp only [hposition, htokens, hbatch, Except.ok_bind, hdrop, Except.pure_eq_ok]

/-- What the loop over the pending rows comes to. -/
theorem run_consume_pending {base : Nat} {fuel : Nat} (h : state.Next ctx.length)
    (hbase : state.position_base = some base) (hfuel : tokens.length ≤ fuel) :
    Loop.run (fun s => decide (s.1 ≠ [])) (consume_pending_pass base) fuel
        (rows_after T ctx tokens, state) = .ok ([], state.feed ctx tokens) := by
  have hfeed : state.feed ctx [] = state := by
    refine MtpDecodeState.ext (List.append_nil _) ?_
    rw [MtpDecodeState.feed, hbase]
    rfl
  induction fuel generalizing state ctx tokens with
  | zero =>
    obtain rfl : tokens = [] := List.eq_nil_of_length_eq_zero (by omega)
    rw [hfeed]
    rfl
  | succ fuel ih =>
    rcases tokens with _ | ⟨token, _ | ⟨token', tokens⟩⟩
    · rw [hfeed]
      rfl
    -- a single row is decoded
    · have hposition : base + state.rows.length = ctx.length := by
        rw [Next, hbase, Option.getD_some] at h
        exact h.symm
      rw [Loop.run, if_pos (by simp [rows_after])]
      simp only [rows_after, consume_pending_pass, hposition, consume_decode_eq h, Except.ok_bind,
        Except.pure_eq_ok]
      exact Loop.run_of_not_guard rfl fuel
    · rw [Loop.run, if_pos (by simp [rows_after]),
        consume_pending_pass_batch h hbase (by simp)]
      simp only
      -- five rows at most are verified together, and then the loop goes on behind them
      generalize htokens : token :: token' :: tokens = ts at hfuel
      have hlength : (ts.drop 5).length ≤ fuel := by
        rw [List.length_drop]
        omega
      rw [ih (next_feed h (ts.take 5)) (by rw [MtpDecodeState.feed, hbase]; rfl) hlength,
        feed_feed, List.take_append_drop]
      rw [feed_feed, List.append_nil]

/-- **The pending rows of a cached entry, in order.** -/
theorem consume_pending_mtp_rows_eq (h : state.Next ctx.length)
    (hbase : tokens ≠ [] → state.position_base ≠ none) :
    state.consume_pending_mtp_rows ((rows_after T ctx tokens).map Prod.fst) tokens =
      .ok (if tokens = [] then state else state.feed ctx tokens) := by
  have hzip : ((rows_after T ctx tokens).map Prod.fst).zip tokens = rows_after T ctx tokens :=
    (List.zip_of_prod rfl (rows_after_tokens ctx tokens)).symm
  have hlength : ¬((rows_after T ctx tokens).map Prod.fst).length ≠ tokens.length := by
    rw [List.length_map, length_rows_after]
    exact not_not_intro rfl
  rw [consume_pending_mtp_rows, throw_if_of_not hlength, Except.ok_bind, throw_if_of_not
    (fun hbad => hbase hbad.1 hbad.2), Except.ok_bind, hzip]
  by_cases hne : tokens = []
  · subst hne
    rfl
  · obtain ⟨base, hsome⟩ := Option.ne_none_iff_exists'.mp (hbase hne)
    rw [hsome, Option.getD_some, run_consume_pending h hsome (Nat.le_refl _), if_neg hne]
    rfl

end MtpDecodeState

/-! ### A round -/

open MtpDecodeState

section Round

variable {stop : Token → Bool} {ctx : List Token} {current : Token} {drafts : List Token}
  {state : MtpDecodeState T} {batch_commit_enabled : Bool}

/-- The argmax of every verified row. -/
theorem greedy_steps (ctx : List Token) (current : Token) (drafts : List Token) :
    (T.steps (current :: drafts) (T.after ctx)).map (fun row => T.argmax row.logits) =
      Speculation.rows T.next (ctx ++ [current]) drafts := by
  induction drafts generalizing ctx current with
  | nil =>
    rw [Target.steps_cons_after]
    rfl
  | cons draft drafts ih =>
    rw [Target.steps_cons_after, List.map_cons, ih, Speculation.rows]
    rfl

/-- The streams a round hands to the companion, with the tokens, are its rows. -/
theorem zip_streams_steps (ctx tokens : List Token) (k : Nat) :
    (T.stream ctx :: ((T.steps tokens (T.after ctx)).take k).map
        TargetVerifyStep.pre_mixer_stream).zip (tokens.take (k + 1)) =
      rows_after T ctx (tokens.take (k + 1)) := by
  induction tokens generalizing ctx k with
  | nil => simp [rows_after]
  | cons token tokens ih =>
    rw [List.take_succ_cons, rows_after, List.zip_cons_cons, Target.steps_cons_after]
    cases k with
    | zero => simp [rows_after]
    | succ k =>
      rw [List.take_succ_cons, List.map_cons, ← ih]
      rfl

variable (T) in
/-- The drafts a round keeps. -/
def kept (stop : Token → Bool) (ctx : List Token) (current : Token) (drafts : List Token) :
    List Token :=
  drafts.take (Speculation.accepted stop drafts (Speculation.rows T.next (ctx ++ [current]) drafts))

variable (stop ctx current drafts)

theorem length_kept : (kept T stop ctx current drafts).length =
    Speculation.accepted stop drafts (Speculation.rows T.next (ctx ++ [current]) drafts) := by
  rw [kept, List.length_take]
  exact Nat.min_eq_left (Speculation.accepted_le _)

theorem take_length_kept :
    drafts.take (kept T stop ctx current drafts).length = kept T stop ctx current drafts := by
  rw [length_kept, kept]

variable (T) in
/-- The verified rows of a proposal. -/
def verified (ctx : List Token) (current : Token) (drafts : List Token) :
    MtpTargetVerification T where
  draft_count := drafts.length
  rows := (T.steps (current :: drafts) (T.after ctx)).map fun row =>
    { greedy := T.argmax row.logits
      pre_mixer_stream := row.pre_mixer_stream
      state_after := row.state_after }

theorem verify_eq (hT : T.RowWise) (htwo : 2 ≤ drafts.length) (hlength : drafts.length ≤ 24) :
    verify_mtp_target_layer_major_reference current drafts (T.after ctx) =
      .ok (verified T ctx current drafts) := by
  rw [verify_mtp_target_layer_major_reference, throw_if_of_not (by omega), Except.ok_bind,
    Target.forward_verify_eq hT (List.cons_ne_nil _ _) (by rw [List.length_cons]; omega)]
  rfl

theorem greedy_verified : (verified T ctx current drafts).rows.map MtpTargetVerifyRow.greedy =
    Speculation.rows T.next (ctx ++ [current]) drafts := by
  rw [verified, List.map_map, ← greedy_steps]
  rfl

/-- The row a round goes on from is the one of the last kept draft. -/
theorem getElem?_verified (k : Nat) (hk : k ≤ drafts.length) :
    (verified T ctx current drafts).rows[k]? = some {
      greedy := T.next (ctx ++ current :: drafts.take k)
      pre_mixer_stream := T.stream (ctx ++ current :: drafts.take k)
      state_after := T.after (ctx ++ current :: drafts.take k) } := by
  rw [verified, List.getElem?_map, Target.getElem?_steps ctx (by rw [List.length_cons]; omega),
    List.take_succ_cons]
  rfl

theorem decide_mtp_greedy_eq (hne : drafts ≠ []) :
    decide_mtp_greedy drafts (Speculation.rows T.next (ctx ++ [current]) drafts) stop =
      .ok {
        accepted := (kept T stop ctx current drafts).length
        correction_row := (kept T stop ctx current drafts).length
        next_token := T.next (ctx ++ current :: kept T stop ctx current drafts) } := by
  have haccepted : Speculation.accepted stop drafts
      (Speculation.rows T.next (ctx ++ [current]) drafts) ≤ drafts.length :=
    Speculation.accepted_le _
  have hrow := Speculation.getElem?_rows T.next (ctx ++ [current]) haccepted
  rw [List.append_assoc, List.singleton_append] at hrow
  rw [decide_mtp_greedy, throw_if_of_not hne, Except.ok_bind, throw_if_of_not
    (not_not_intro Speculation.length_rows), Except.ok_bind, length_kept]
  simp only [List.getD_eq_getElem?_getD, hrow, Option.getD_some, kept, Except.pure_eq_ok]

/-- The accepted rows, as the companion takes them. -/
theorem committed_rows :
    (T.stream ctx :: ((verified T ctx current drafts).rows.take
        (kept T stop ctx current drafts).length).map MtpTargetVerifyRow.pre_mixer_stream).zip
        (current :: kept T stop ctx current drafts) =
      rows_after T ctx (current :: kept T stop ctx current drafts) := by
  have hzip := zip_streams_steps (T := T) ctx (current :: drafts)
    (kept T stop ctx current drafts).length
  rw [List.take_succ_cons, take_length_kept] at hzip
  rw [← hzip, verified, ← List.map_take, List.map_map]
  rfl

variable (T) in
/-- What a round says: the kept drafts, and the target's own token behind them. -/
def said (stop : Token → Bool) (ctx : List Token) (current : Token) (drafts : List Token) :
    List Token :=
  kept T stop ctx current drafts ++ [T.next (ctx ++ current :: kept T stop ctx current drafts)]

variable (T) in
/-- A round's answer. -/
def round_step (stop : Token → Bool) (ctx : List Token) (current : Token) (drafts : List Token) :
    MtpRoundStep T where
  emitted_tokens := said T stop ctx current drafts
  draft_tokens := drafts
  accepted := (kept T stop ctx current drafts).length
  next_current_token := T.next (ctx ++ current :: kept T stop ctx current drafts)
  next_target_stream := T.stream (ctx ++ current :: kept T stop ctx current drafts)

/-- What the companion makes of a round. -/
def commit_companion (stop : Token → Bool) (batch_commit_enabled : Bool) (ctx : List Token)
    (current : Token) (drafts : List Token) (state : MtpDecodeState T) :
    Except String (MtpDecodeState T) :=
  state.consume_accepted ((kept T stop ctx current drafts).length ≠ 0 ∧ batch_commit_enabled)
    (T.stream ctx :: ((verified T ctx current drafts).rows.take
      (kept T stop ctx current drafts).length).map MtpTargetVerifyRow.pre_mixer_stream)
    (current :: kept T stop ctx current drafts) ctx.length

/-- **The companion is fed the accepted rows**, in a batch or one by one, and goes on from where it
was when the round started. -/
theorem commit_companion_eq (hlength : drafts.length ≤ 24) (h : state.Next ctx.length) :
    commit_companion stop batch_commit_enabled ctx current drafts state =
      .ok (state.feed ctx (current :: kept T stop ctx current drafts)) := by
  have hrows := committed_rows (T := T) stop ctx current drafts
  have hle : (kept T stop ctx current drafts).length ≤ drafts.length := by
    rw [length_kept]
    exact Speculation.accepted_le _
  have hstreams := congrArg (List.map Prod.fst) hrows
  rw [commit_companion]
  rw [List.map_fst_zip] at hstreams
  · by_cases hbatch : (kept T stop ctx current drafts).length ≠ 0 ∧ batch_commit_enabled
    · rw [consume_accepted, if_pos (decide_eq_true hbatch), hstreams]
      refine consume_committed_batch_eq h _ ?_ ?_ <;> rw [List.length_cons] <;> omega
    · rw [consume_accepted, if_neg (by simpa using hbatch), hrows]
      exact consume_each_eq h _ (List.cons_ne_nil _ _)
  · simp only [List.length_cons, List.length_map, List.length_take]
    omega

/-- **A round commits the accepted drafts**, and throws where the companion does. However its rows
are verified, what is left is the state of the tokens that were kept. -/
theorem finish_greedy_mtp_round_eq (hT : T.RowWise) (htwo : 2 ≤ drafts.length)
    (hlength : drafts.length ≤ 24) :
    finish_greedy_mtp_round stop batch_commit_enabled current (T.stream ctx) ctx.length drafts
        state (T.after ctx) =
      (commit_companion stop batch_commit_enabled ctx current drafts state).map fun head_state =>
        (round_step T stop ctx current drafts,
          T.after (ctx ++ current :: kept T stop ctx current drafts), head_state) := by
  have hkept : (kept T stop ctx current drafts).length ≤ drafts.length := by
    rw [length_kept]
    exact Speculation.accepted_le _
  have hne : drafts ≠ [] := List.ne_nil_of_length_pos (by omega)
  have hrow := getElem?_verified (T := T) ctx current drafts _ hkept
  rw [take_length_kept] at hrow
  have hposition : ¬ctx.length ≠ (T.after ctx).token_count :=
    not_not_intro Target.token_count_after.symm
  -- the row of the last accepted draft is there, so the commit does not throw
  have hcommit : commit_mtp_target_verification (verified T ctx current drafts)
      (kept T stop ctx current drafts).length (T.after ctx) =
        .ok (T.after (ctx ++ current :: kept T stop ctx current drafts)) := by
    have hrows : ¬(verified T ctx current drafts).rows.length ≠
        (verified T ctx current drafts).draft_count + 1 := by
      simp [verified]
    have hcount : ¬(verified T ctx current drafts).draft_count <
        (kept T stop ctx current drafts).length := Nat.not_lt.mpr hkept
    rw [commit_mtp_target_verification, throw_if_of_not hrows, Except.ok_bind,
      throw_if_of_not hcount, Except.ok_bind, hrow]
    rfl
  -- and the count of the tokens is what the round says
  have htotal : ¬(T.after (ctx ++ current :: kept T stop ctx current drafts)).token_count ≠
      ctx.length + (kept T stop ctx current drafts).length + 1 := by
    rw [Target.token_count_after, List.length_append, List.length_cons]
    omega
  rw [finish_greedy_mtp_round, throw_if_of_not (by omega), Except.ok_bind,
    throw_if_of_not hposition, Except.ok_bind, verify_eq ctx current drafts hT htwo hlength,
    Except.ok_bind, greedy_verified, decide_mtp_greedy_eq stop ctx current drafts hne,
    Except.ok_bind]
  simp only [hrow, take_length_kept]
  rw [← commit_companion]
  rcases commit_companion stop batch_commit_enabled ctx current drafts state with e | head_state
  · rfl
  · rw [Except.ok_bind, hcommit, Except.ok_bind, throw_if_of_not htotal]
    rfl

/-- **What a round emits is what the target would have said**: the drafts that were accepted are
those that it would have said itself, and behind them comes a token of its own. -/
theorem follows_emitted (stop : Token → Bool) (ctx : List Token) (current : Token)
    (drafts : List Token) :
    Speculation.Follows T.next (ctx ++ [current]) (said T stop ctx current drafts) ∧
      ∀ token ∈ kept T stop ctx current drafts, stop token = false := by
  obtain ⟨hfollows, hstop⟩ := Speculation.follows_accepted T.next stop
    (ctx ++ [current]) drafts
  refine ⟨Speculation.follows_append.mpr ⟨hfollows, ?_⟩, hstop⟩
  rw [Speculation.follows_singleton, List.append_assoc, List.singleton_append]

end Round

end Qwen38
