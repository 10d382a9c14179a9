import Qwen38.Layer.DecoderLayer

/-!
# Runs of a decoder layer

However the rows that a layer consumes are split into steps, its gated delta net and its
token embedding are left as single steps leave them, once a pending rollback has been
replayed (`Qwen38.Layer.DecoderLayer.recurrent_state_of_runs`). Every step that reads the
state replays it first, or refuses the state, and what is saved has none.

This asks that no kernel leaves a part of a key out. The prefill checks it; a verification
and the replay of a rollback do not, and with a key dimension that 32 does not divide they
come to another recurrent state (`Qwen38.Layer.DecoderLayer.recurrent_state_of_runs_uneven`).
-/

namespace Qwen38

open Pipeline

namespace Layer

namespace DecoderLayer

variable {K : Type} [CommRing K] (layer : DecoderLayer K)

/-! ### The two stages of a layer -/

/-- The token embedding as a stage. -/
def prepare : Stage (Row K × UInt32) (PleState (Tensor K)) := fun row state =>
  ((((layer.prepare_row row.1 row.2 state).1), row.2), (layer.prepare_row row.1 row.2 state).2)

/-- The gated delta net and what is around it as a stage: a row is mixed into the input of the net,
its output is written back to the row, and the experts go over it. Only the net has a state here. -/
def attend (gdn : GatedDeltaNet K) : Stage (Row K × UInt32) (DeltaState K) := fun row state =>
  ((layer.mlp (layer.write row.1 (gdn.step (layer.mixed row.1) state).1), row.2),
    (gdn.step (layer.mixed row.1) state).2)

/-- A token embedding between steps: what it keeps of the tokens is whole, before the first token
its convolution is empty, and a layer that has none keeps nothing. -/
structure Embedded (state : PleState (Tensor K)) : Prop where
  whole : Ple.Whole state
  new : state.convolution_initialized = false → state.convolution = []
  segment_length : state.ngram.segment_length ≤ 2
  none : layer.ple_ = none → state = default

variable {layer} {state : PleState (Tensor K)} {rows : List (Row K × UInt32)}

theorem segment_length_row_ids (hash : NgramHash) (token : UInt32) (ngram : NgramState) :
    (hash.row_ids token ngram).2.segment_length ≤ 2 := by
  rw [NgramHash.row_ids]
  split
  · exact Nat.zero_le 2
  · exact Nat.min_le_left 2 _

theorem Embedded.prepare (h : layer.Embedded state) (row : Row K × UInt32) :
    layer.Embedded (layer.prepare row state).2 := by
  rw [DecoderLayer.prepare, prepare_row]
  cases hple : layer.ple_ with
  | none => exact h
  | some ple =>
    refine ⟨Ple.whole_forward_decode ple row.1 row.2 h.whole, fun hcon => ?_,
      segment_length_row_ids _ _ _, fun hcon => ?_⟩
    · cases hcon
    · rw [hple] at hcon
      cases hcon

theorem Embedded.items (h : layer.Embedded state) (rows : List (Row K × UInt32)) :
    layer.Embedded (items layer.prepare rows state).2 := by
  induction rows generalizing state with
  | nil => exact h
  | cons row rows ih => exact ih (h.prepare row)

/-- Two lists put together under the tokens they share. -/
theorem zip_zipWith {α β γ δ : Type} (f : α → β → δ) (as : List α) (bs : List β) (cs : List γ) :
    (List.zipWith f as bs).zip cs =
      List.zipWith (fun a b => (f a.1 b.1, a.2)) (as.zip cs) (bs.zip cs) := by
  induction as generalizing bs cs with
  | nil => rfl
  | cons a as ih =>
    cases bs with
    | nil => simp
    | cons b bs =>
      cases cs with
      | nil => rfl
      | cons c cs => simp [ih]

/-- Without a token embedding a row goes through as it is. -/
theorem items_prepare_none (hple : layer.ple_ = none) (rows : List (Row K × UInt32)) :
    Pipeline.items layer.prepare rows default = (rows, default) := by
  induction rows with
  | nil => rfl
  | cons row rows ih =>
    have hrow : layer.prepare row default = (row, default) := by
      simp [DecoderLayer.prepare, prepare_row, hple]
    rw [items_cons, hrow, ih]

/-- The rows of a batch with their token embeddings, and the states after them. -/
theorem Embedded.prepare_rows (h : layer.Embedded state) {streams streams' : List (Row K)}
    {tokens : List UInt32} {cps : List (PleState (Tensor K))}
    (hlength : streams.length = tokens.length)
    (hprepare : layer.prepare_rows streams tokens state = .ok (streams', cps)) :
    streams'.length = streams.length ∧
      streams'.zip tokens = (Pipeline.items layer.prepare (streams.zip tokens) state).1 ∧
      cps.length = streams.length ∧
      ∀ row < streams.length, cps[row]? =
        some (Pipeline.items layer.prepare ((streams.zip tokens).take (row + 1)) state).2 := by
  rw [DecoderLayer.prepare_rows] at hprepare
  cases hple : layer.ple_ with
  | none =>
    simp only [hple] at hprepare
    obtain ⟨rfl, rfl⟩ := Prod.ext_iff.mp (Except.ok.inj hprepare)
    rw [h.none hple]
    refine ⟨rfl, by rw [items_prepare_none hple], by simp, fun row hrow => ?_⟩
    rw [items_prepare_none hple]
    simp [hrow]
  | some ple =>
    simp only [hple] at hprepare
    obtain ⟨⟨output, cps'⟩, hverify, hprepare⟩ := Except.bind_eq_ok.mp hprepare
    obtain ⟨rfl, rfl⟩ := Prod.ext_iff.mp (Except.ok.inj hprepare)
    obtain ⟨_, hguard, hverify⟩ := Except.bind_eq_ok.mp hverify
    obtain ⟨rfl, rfl⟩ := Prod.ext_iff.mp (Except.ok.inj hverify)
    -- the rows of the embedding are those of single steps
    have hrows : ((ple.verify_rows streams tokens state).1.zip tokens,
        (ple.verify_rows streams tokens state).2) = checkpoints ple.decode (streams.zip tokens) state :=
      Ple.verify_rows_eq h.whole hlength
    rw [Prod.ext_iff] at hrows
    -- what the layer adds to them is added row by row
    have hstage : ∀ rows, Pipeline.items layer.prepare rows state =
        (List.zipWith (fun row output => (row.1 + output.1, row.2)) rows
          (Pipeline.items ple.decode rows state).1, (Pipeline.items ple.decode rows state).2) := by
      intro rows
      have hwrap := items_wrap ple.decode state layer.prepare id
        (fun row output => (row.1 + output.1, row.2))
        (fun row state => by simp [DecoderLayer.prepare, prepare_row, hple, Ple.decode]) rows
      rwa [List.map_id] at hwrap
    have hcount : tokens.length ≤ (ple.verify_rows streams tokens state).1.length := by
      have hzip := congrArg List.length hrows.1
      rw [fst_checkpoints, length_items, List.length_zip, List.length_zip] at hzip
      omega
    refine ⟨?_, ?_, ?_, fun row hrow => ?_⟩
    · change (List.zipWith (· + ·) streams (ple.verify_rows streams tokens state).1).length = _
      rw [List.length_zipWith]
      omega
    · change (List.zipWith (· + ·) streams (ple.verify_rows streams tokens state).1).zip tokens = _
      rw [zip_zipWith, hstage, ← fst_checkpoints, ← hrows.1]
    · change (ple.verify_rows streams tokens state).2.length = _
      rw [hrows.2, length_checkpoints, List.length_zip]
      omega
    · change (ple.verify_rows streams tokens state).2[row]? = _
      rw [hrows.2, getElem?_checkpoints _ _ _ (by rw [List.length_zip]; omega), hstage]

/-- A gated delta net between steps: nothing is left to be replayed, and one that has seen no row is
as it was made. -/
structure Between (state : DeltaState K) : Prop where
  settled : GatedDeltaNet.Settled state
  new : state.initialized = false → state = default

omit [CommRing K] in
theorem between_default : Between (default : DeltaState K) :=
  ⟨GatedDeltaNet.settled_default, fun _ => rfl⟩

theorem Between.items {gdn : GatedDeltaNet K} {state : DeltaState K} (h : Between state)
    (rows : List (Row K × UInt32)) : Between (items (layer.attend gdn) rows state).2 := by
  induction rows generalizing state with
  | nil => exact h
  | cons row rows ih =>
    exact ih ⟨h.settled.step gdn (layer.mixed row.1), fun hcon => nomatch hcon⟩

variable (layer) in
/-- The gated delta net of a batch, and what is around it: taking all rows through the net and then
all of them through the rest is taking them through the stage one by one. -/
theorem items_attend (gdn : GatedDeltaNet K) (state : DeltaState K) {streams : List (Row K)}
    {tokens : List UInt32} (hlength : streams.length = tokens.length) :
    ((items (layer.attend gdn) (streams.zip tokens) state).1.map Prod.fst,
        (items (layer.attend gdn) (streams.zip tokens) state).2) =
      ((List.zipWith layer.write streams
          (items gdn.step (streams.map layer.mixed) state).1).map layer.mlp,
        (items gdn.step (streams.map layer.mixed) state).2) := by
  have hwrap := items_wrap gdn.step state (layer.attend gdn) (fun row => layer.mixed row.1)
    (fun row output => (layer.mlp (layer.write row.1 output), row.2))
    (fun _ _ => rfl) (streams.zip tokens)
  have hfst : (streams.zip tokens).map Prod.fst = streams := List.map_fst_zip hlength.le
  have hmixed : (streams.zip tokens).map (fun row => layer.mixed row.1) =
      streams.map layer.mixed := by
    rw [← hfst, List.map_map, hfst]
    rfl
  rw [hwrap, hmixed, List.map_zipWith, List.map_zipWith]
  refine Prod.ext ?_ rfl
  have hleft : ∀ outputs : List (Row K),
      List.zipWith (fun row output => layer.mlp (layer.write row.1 output)) (streams.zip tokens)
        outputs = List.zipWith (fun stream output => layer.mlp (layer.write stream output)) streams
          outputs := fun outputs => by
    conv_rhs => rw [← hfst, List.zipWith_map_left]
  exact hleft _

/-! ### One step -/

variable (layer) in
/-- A layer between steps. A layer has either a gated delta net or a full attention, and the state
of the other one is never touched. -/
structure Good (state : LayerState K) : Prop where
  ple : layer.Embedded state.ple
  between : Between state.linear_attention
  linear : ∀ gdn, layer.attention_ = .linear gdn → state.full_attention = default
  full : ∀ attention, layer.attention_ = .full attention → state.linear_attention = default

variable (layer) in
/-- A step over these rows: the token embedding and the gated delta net take them one by one. With a
full attention only the token embedding does, and nothing is said of the outputs. -/
structure Advances (state : LayerState K) (rows : List (Row K × UInt32)) (outputs : List (Row K))
    (state' : LayerState K) : Prop where
  ple : state'.ple = (items layer.prepare rows state.ple).2
  linear : ∀ gdn, layer.attention_ = .linear gdn →
    state'.full_attention = default ∧
      state'.linear_attention =
        (items (layer.attend gdn) (items layer.prepare rows state.ple).1
          state.linear_attention).2 ∧
      outputs = (items (layer.attend gdn) (items layer.prepare rows state.ple).1
          state.linear_attention).1.map Prod.fst
  full : ∀ attention, layer.attention_ = .full attention → state'.linear_attention = default

theorem Advances.good {state state' : LayerState K} {outputs : List (Row K)} (h : layer.Good state)
    (hstep : layer.Advances state rows outputs state') : layer.Good state' where
  ple := hstep.ple ▸ h.ple.items rows
  between := by
    cases hattention : layer.attention_ with
    | linear gdn =>
      rw [(hstep.linear gdn hattention).2.1]
      exact h.between.items _
    | full attention =>
      rw [hstep.full attention hattention]
      exact between_default
  linear gdn hattention := (hstep.linear gdn hattention).1
  full := hstep.full

theorem Good.materialize {state : LayerState K} (h : layer.Good state) :
    layer.materialize_speculative_state state = .ok state := by
  rw [materialize_speculative_state]
  cases layer.attention_ with
  | linear gdn =>
    simp only [GatedDeltaNet.materialize_rollback_of_zero h.between.settled.rollback_rows,
      Except.ok_bind]
  | full attention => rfl

/-- Decoding with a gated delta net never throws. -/
theorem Good.forward_decode_linear {state : LayerState K} (h : layer.Good state)
    {gdn : GatedDeltaNet K} (hattention : layer.attention_ = .linear gdn) (stream : Row K)
    (token : UInt32) :
    layer.forward_decode stream token state =
      .ok ((layer.attend gdn (layer.prepare (stream, token) state.ple).1 state.linear_attention).1.1,
        { state with
          linear_attention :=
            (layer.attend gdn (layer.prepare (stream, token) state.ple).1 state.linear_attention).2
          ple := (layer.prepare (stream, token) state.ple).2 }) := by
  rw [forward_decode, h.materialize, Except.ok_bind, forward_decode_graph]
  simp only [hattention, GatedDeltaNet.forward_decode,
    GatedDeltaNet.materialize_rollback_of_zero h.between.settled.rollback_rows, Except.ok_bind]
  rfl

theorem Good.forward_decode {state state' : LayerState K} {stream output : Row K} {token : UInt32}
    (h : layer.Good state) (hdecode : layer.forward_decode stream token state = .ok (output, state')) :
    layer.Advances state [(stream, token)] [output] state' := by
  cases hattention : layer.attention_ with
  | linear gdn =>
    rw [h.forward_decode_linear hattention] at hdecode
    obtain ⟨rfl, rfl⟩ := Prod.ext_iff.mp (Except.ok.inj hdecode)
    refine ⟨rfl, fun gdn' hgdn => ?_, fun attention hfull => ?_⟩
    · rw [hattention] at hgdn
      obtain rfl := Attention.linear.inj hgdn
      exact ⟨h.linear gdn hattention, rfl, rfl⟩
    · rw [hattention] at hfull
      cases hfull
  | full attention =>
    rw [DecoderLayer.forward_decode, h.materialize, Except.ok_bind, forward_decode_graph] at hdecode
    simp only [hattention] at hdecode
    obtain ⟨⟨output', full_attention⟩, -, hdecode⟩ := Except.bind_eq_ok.mp hdecode
    obtain ⟨-, rfl⟩ := Prod.ext_iff.mp (Except.ok.inj hdecode)
    refine ⟨rfl, fun gdn hgdn => ?_, fun _ _ => h.full attention hattention⟩
    rw [hattention] at hgdn
    cases hgdn

/-- What a verification commits can be materialised, and then is what single steps leave. The commit
may be a state as it stands, or the state before the verification with the rows that are to be
replayed. -/
theorem Good.verify {state checkpoint : LayerState K} {streams output : List (Row K)}
    {tokens : List UInt32} {cps : List (LayerState K)} {flags : DeltaFlags} {accepted : Nat}
    (h : layer.Good state) (hcovered : layer.Covered flags)
    (hverify : layer.forward_verify_dense_batched flags streams tokens state = .ok (output, cps))
    (hcheckpoint : cps[accepted]? = some checkpoint) :
    ∃ state', layer.materialize_speculative_state checkpoint = .ok state' ∧
      layer.Advances state ((streams.zip tokens).take (accepted + 1))
        (output.take (accepted + 1)) state' := by
  obtain ⟨_, hguard, hverify⟩ := Except.bind_eq_ok.mp hverify
  rw [Except.throw_if_eq_ok] at hguard
  -- what the guard has let through
  have hlength : streams.length = tokens.length := by
    by_contra hne
    exact hguard (Or.inr (Or.inl hne))
  obtain ⟨⟨prepared, ples⟩, hprepare, hverify⟩ := Except.bind_eq_ok.mp hverify
  obtain ⟨hcount, hzip, hples, hple⟩ := h.ple.prepare_rows hlength hprepare
  cases hattention : layer.attention_ with
  | linear gdn =>
    simp only [hattention] at hverify
    obtain ⟨⟨rows, deltas⟩, hdelta, hverify⟩ := Except.bind_eq_ok.mp hverify
    obtain ⟨rfl, rfl⟩ := Prod.ext_iff.mp (Except.ok.inj hverify)
    obtain ⟨hrows, hdeltas, -, hdelta⟩ :=
      h.between.settled.forward_verify _ (hcovered gdn hattention) hdelta
    -- the commit pairs the states of the two parts at one row
    rw [List.getElem?_zipWith] at hcheckpoint
    have hlt : accepted < streams.length := by
      by_contra hge
      rw [List.getElem?_eq_none (by omega : ples.length ≤ accepted)] at hcheckpoint
      cases hget : deltas[accepted]? <;> simp [hget] at hcheckpoint
    obtain ⟨delta, hget⟩ : ∃ delta, deltas[accepted]? = some delta :=
      ⟨_, List.getElem?_eq_getElem (by rw [hdeltas, List.length_map]; omega)⟩
    rw [hget, hple accepted hlt] at hcheckpoint
    obtain rfl := Option.some.inj hcheckpoint
    rw [materialize_speculative_state]
    simp only [hattention]
    rw [hdelta accepted delta hget, Except.ok_bind]
    refine ⟨_, rfl, rfl, fun gdn' hgdn => ?_, fun attention hfull => ?_⟩
    · rw [hattention] at hgdn
      obtain rfl := Attention.linear.inj hgdn
      -- the inputs of the layer, up to the accepted row, are those of the single steps
      have htake : (items layer.prepare ((streams.zip tokens).take (accepted + 1)) state.ple).1 =
          (prepared.take (accepted + 1)).zip (tokens.take (accepted + 1)) := by
        rw [fst_items_take, ← hzip, List.zip, List.take_zipWith]
      have hlengths : (prepared.take (accepted + 1)).length =
          (tokens.take (accepted + 1)).length := by
        rw [List.length_take, List.length_take, hcount, hlength]
      have hattend := items_attend layer gdn state.linear_attention hlengths
      obtain ⟨houtputs, hstate⟩ := Prod.ext_iff.mp hattend
      dsimp only at houtputs hstate
      refine ⟨rfl, ?_, ?_⟩
      · rw [htake, hstate, List.map_take]
      · rw [htake, houtputs, List.map_take, fst_items_take, ← List.take_zipWith, ← List.map_take,
          ← hrows]
    · rw [hattention] at hfull
      cases hfull
  | full attention =>
    simp only [hattention] at hverify
    obtain ⟨⟨rows, fulls⟩, hfull, hverify⟩ := Except.bind_eq_ok.mp hverify
    obtain ⟨rfl, rfl⟩ := Prod.ext_iff.mp (Except.ok.inj hverify)
    -- a full attention keeps its own rows; the embedding is as before
    rw [List.getElem?_zipWith] at hcheckpoint
    have hlt : accepted < streams.length := by
      by_contra hge
      rw [List.getElem?_eq_none (by omega : ples.length ≤ accepted)] at hcheckpoint
      cases hget : fulls[accepted]? <;> simp [hget] at hcheckpoint
    rw [hple accepted hlt] at hcheckpoint
    cases hget : fulls[accepted]? with
    | none => simp [hget] at hcheckpoint
    | some full =>
      rw [hget] at hcheckpoint
      obtain rfl := Option.some.inj hcheckpoint
      rw [materialize_speculative_state]
      simp only [hattention]
      refine ⟨_, rfl, rfl, fun gdn hgdn => ?_, fun _ _ => rfl⟩
      rw [hattention] at hgdn
      cases hgdn

/-- The rows of a chunk with their token embeddings, and the state after the last. -/
theorem Embedded.prefill (h : layer.Embedded state) {streams streams' : List (Row K)}
    {tokens : List UInt32} {ple : PleState (Tensor K)} (hne : tokens ≠ [])
    (hlength : streams.length = tokens.length)
    (hprefill : layer.prefill_streams streams tokens state = .ok (streams', ple)) :
    streams'.length = streams.length ∧
      (streams'.zip tokens, ple) = Pipeline.items layer.prepare (streams.zip tokens) state := by
  rw [prefill_streams] at hprefill
  cases hple : layer.ple_ with
  | none =>
    simp only [hple] at hprefill
    obtain ⟨rfl, rfl⟩ := Prod.ext_iff.mp (Except.ok.inj hprefill)
    rw [h.none hple, items_prepare_none hple]
    exact ⟨rfl, rfl⟩
  | some inner =>
    simp only [hple] at hprefill
    obtain ⟨⟨prepared, cps⟩, hprepare, hprefill⟩ := Except.bind_eq_ok.mp hprefill
    obtain ⟨rfl, rfl⟩ := Prod.ext_iff.mp (Except.ok.inj hprefill)
    obtain ⟨hcount, hzip, hcps, hrow⟩ := h.prepare_rows hlength hprepare
    have hpos : 0 < tokens.length := List.length_pos_of_ne_nil hne
    have hlast := hrow (streams.length - 1) (by omega)
    rw [Nat.sub_add_cancel (by omega), List.take_of_length_le (by rw [List.length_zip]; omega)]
      at hlast
    refine ⟨hcount, Prod.ext hzip ?_⟩
    dsimp only
    rw [List.getLastD_eq_getLast?, List.getLast?_eq_getElem?, hcps, hlast]
    rfl

theorem Good.prefill_batch {state state' : LayerState K} {streams output : List (Row K)}
    {tokens : List UInt32} {flags : DeltaFlags} (h : layer.Good state)
    (hcovered : flags.metal_prefill = false → layer.Covered flags) (hne : tokens ≠ [])
    (hlength : streams.length = tokens.length)
    (hprefill : layer.prefill_batch flags streams tokens state = .ok (output, state')) :
    layer.Advances state (streams.zip tokens) output state' := by
  rw [DecoderLayer.prefill_batch] at hprefill
  obtain ⟨⟨prepared, ple⟩, hprepare, hprefill⟩ := Except.bind_eq_ok.mp hprefill
  obtain ⟨hcount, hitems⟩ := h.ple.prefill hne hlength hprepare
  cases hattention : layer.attention_ with
  | linear gdn =>
    simp only [hattention] at hprefill
    obtain ⟨⟨rows, delta⟩, hdelta, hprefill⟩ := Except.bind_eq_ok.mp hprefill
    obtain ⟨rfl, rfl⟩ := Prod.ext_iff.mp (Except.ok.inj hprefill)
    have hrows := h.between.settled.forward_prefill _
      (fun hmetal => hcovered hmetal gdn hattention) hdelta
    -- the rows of the net are those of single steps, on the streams that the embedding has prepared
    have hattend := items_attend layer gdn state.linear_attention (hcount.trans hlength)
    rw [← hrows] at hattend
    obtain ⟨houtputs, hstate⟩ := Prod.ext_iff.mp hattend
    dsimp only at houtputs hstate
    refine ⟨?_, fun gdn' hgdn => ?_, fun attention hfull => ?_⟩
    · rw [← hitems]
    · rw [hattention] at hgdn
      obtain rfl := Attention.linear.inj hgdn
      rw [← hitems]
      exact ⟨h.linear gdn hattention, hstate.symm, houtputs.symm⟩
    · rw [hattention] at hfull
      cases hfull
  | full attention =>
    simp only [hattention] at hprefill
    obtain ⟨⟨rows, full⟩, -, hprefill⟩ := Except.bind_eq_ok.mp hprefill
    obtain ⟨-, rfl⟩ := Prod.ext_iff.mp (Except.ok.inj hprefill)
    refine ⟨?_, fun gdn hgdn => ?_, fun _ _ => h.full attention hattention⟩
    · rw [← hitems]
    · rw [hattention] at hgdn
      cases hgdn

theorem Good.prefill {state state' : LayerState K} {streams output : List (Row K)}
    {tokens : List UInt32} {flags : DeltaFlags} (h : layer.Good state)
    (hcovered : 1 < tokens.length → flags.metal_prefill = false → layer.Covered flags)
    (hprefill : layer.forward_prefill flags streams tokens state = .ok (output, state')) :
    layer.Advances state (streams.zip tokens) output state' := by
  obtain ⟨_, hguard, hprefill⟩ := Except.bind_eq_ok.mp hprefill
  rw [Except.throw_if_eq_ok, not_or, not_or] at hguard
  have hlength : streams.length = tokens.length := not_not.mp hguard.2.2
  split at hprefill
  · obtain ⟨⟨row, next⟩, hdecode, hprefill⟩ := Except.bind_eq_ok.mp hprefill
    obtain ⟨rfl, rfl⟩ := Prod.ext_iff.mp (Except.ok.inj hprefill)
    exact h.forward_decode hdecode
  next hmany =>
    refine h.prefill_batch (hcovered ?_) hguard.1 hlength hprefill
    -- one row would have gone the way of a decode step
    by_contra hle
    have hone : tokens.length = 1 := by
      have hpos := List.length_pos_of_ne_nil hguard.1
      omega
    obtain ⟨token, rfl⟩ := List.length_eq_one_iff.mp hone
    obtain ⟨stream, rfl⟩ := List.length_eq_one_iff.mp (hlength.trans hone)
    exact hmany stream token rfl rfl

/-! ### What is kept of a state -/

omit [CommRing K] in
theorem Embedded.snapshot (h : layer.Embedded state) : state.snapshot = state := by
  rw [PleState.snapshot]
  cases hinitialized : state.convolution_initialized with
  | true =>
    cases state
    dsimp only at hinitialized
    subst hinitialized
    rfl
  | false =>
    have hnew := h.new hinitialized
    cases state
    dsimp only at hinitialized hnew
    subst hinitialized hnew
    rfl

omit [CommRing K] in
theorem Between.kept {state : DeltaState K} (h : Between state) : state.kept = state := by
  rw [GatedDeltaNetState.kept]
  split
  · next hinitialized => exact h.settled.eq_of_initialized hinitialized
  · next hnew => exact (h.new (by simpa using hnew)).symm

omit [CommRing K] in
theorem Between.snapshot {state : DeltaState K} (h : Between state) : state.snapshot = state := by
  have hrows := h.settled.rollback_rows
  rw [GatedDeltaNetState.snapshot]
  cases hinitialized : state.initialized with
  | true =>
    simp only [if_true, hrows, ne_eq, not_true_eq_false, if_false]
    exact h.settled.eq_of_initialized hinitialized
  | false =>
    rw [h.new hinitialized]
    rfl

theorem Good.snapshot {state : LayerState K} (h : layer.Good state) :
    layer.Advances state [] [] (snapshot_decoder_layer_state state) where
  ple := h.ple.snapshot
  linear gdn hattention := by
    refine ⟨?_, h.between.snapshot, rfl⟩
    change state.full_attention.snapshot = default
    rw [h.linear gdn hattention]
    rfl
  full attention hattention := by
    change state.linear_attention.snapshot = default
    rw [h.between.snapshot, h.full attention hattention]

theorem Good.persistent {state state' : LayerState K} (h : layer.Good state)
    (hprepare : layer.prepare_persistent_state state = .ok state') :
    layer.Advances state [] [] state' := by
  rw [prepare_persistent_state, h.materialize, Except.ok_bind] at hprepare
  cases hattention : layer.attention_ with
  | linear gdn =>
    simp only [hattention] at hprepare
    obtain rfl := Except.ok.inj hprepare
    exact ⟨rfl, fun _ _ => ⟨h.linear gdn hattention, rfl, rfl⟩, h.full⟩
  | full attention =>
    simp only [hattention] at hprepare
    obtain ⟨full, -, hprepare⟩ := Except.bind_eq_ok.mp hprepare
    obtain rfl := Except.ok.inj hprepare
    refine ⟨rfl, fun gdn hgdn => ?_, h.full⟩
    rw [hattention] at hgdn
    cases hgdn

theorem Good.reload {state state' : LayerState K} {shape2 : Tensor K → Nat} {name : String}
    {file : MlxSafetensors (Tensor K)} (h : layer.Good state) (hholds : file.Holds name state)
    (hload : load_decoder shape2 name file = .ok state') : layer.Advances state [] [] state' := by
  have hsegment := h.ple.segment_length
  obtain ⟨linear, hlinear, hload⟩ := Except.bind_eq_ok.mp hload
  obtain ⟨full, hfull, hload⟩ := Except.bind_eq_ok.mp hload
  obtain ⟨ple, hple, hload⟩ := Except.bind_eq_ok.mp hload
  rw [load_linear_of_holds hholds, h.between.kept] at hlinear
  rw [load_ple_of_holds hholds (by omega), h.ple.snapshot] at hple
  obtain rfl := Except.ok.inj hlinear
  obtain rfl := Except.ok.inj hple
  obtain rfl := Except.ok.inj hload
  refine ⟨rfl, fun gdn hattention => ⟨?_, rfl, rfl⟩, fun attention hattention =>
    h.full attention hattention⟩
  have hnew := h.linear gdn hattention
  have hrange : state.InRange := by
    refine ⟨?_, ?_, ?_, ?_, ?_, by omega⟩
    all_goals
      rw [hnew]
      exact Nat.two_pow_pos 64
  rw [load_attention_of_holds hholds hrange (fun hne => absurd (hnew ▸ rfl) hne), hnew] at hfull
  exact (Except.ok.inj hfull).symm

/-! ### Runs -/

variable (layer) in
/-- The state of a layer that has consumed these rows, one at a time, from the state it was made
with. This is what a run is measured against. -/
structure Tracked (rows : List (Row K × UInt32)) (outputs : List (Row K)) (state : LayerState K) :
    Prop where
  good : layer.Good state
  advances : layer.Advances default rows outputs state

/-- A step after a run. The rows of the step come behind those of the run, and so do its outputs. -/
theorem Tracked.step {rows' : List (Row K × UInt32)} {outputs outputs' : List (Row K)}
    {state state' : LayerState K} (h : layer.Tracked rows outputs state)
    (hstep : layer.Advances state rows' outputs' state') :
    layer.Tracked (rows ++ rows') (outputs ++ outputs') state' where
  good := hstep.good h.good
  advances := by
    have hple := h.advances.ple
    refine ⟨?_, fun gdn hattention => ?_, hstep.full⟩
    · rw [hstep.ple, hple, items_append]
    · obtain ⟨-, hdelta, houtputs⟩ := h.advances.linear gdn hattention
      obtain ⟨hfull', hdelta', houtputs'⟩ := hstep.linear gdn hattention
      rw [hple] at hdelta' houtputs'
      rw [hdelta] at hdelta' houtputs'
      refine ⟨hfull', ?_, ?_⟩
      · rw [hdelta', items_append, items_append]
      · rw [houtputs, houtputs', items_append, items_append, List.map_append]

/-! ### A pending rollback -/

/-- A rollback that is pending is one of a state with its convolution and its recurrent
state, and of a gated delta net. -/
theorem pending_of_materialize {state state' : LayerState K}
    (hmaterialize : layer.materialize_speculative_state state = .ok state') (hne : state ≠ state') :
    state.linear_attention.initialized = true ∧ state.linear_attention.rollback_rows ≠ 0 ∧
      ∃ gdn, layer.attention_ = .linear gdn := by
  rw [materialize_speculative_state] at hmaterialize
  cases hattention : layer.attention_ with
  | linear gdn =>
    simp only [hattention] at hmaterialize
    obtain ⟨delta, hdelta, hmaterialize⟩ := Except.bind_eq_ok.mp hmaterialize
    obtain rfl := Except.ok.inj hmaterialize
    rw [GatedDeltaNet.materialize_rollback] at hdelta
    split_ifs at hdelta with hzero hbad
    · obtain rfl := Except.ok.inj hdelta
      exact absurd rfl hne
    · rw [not_or, not_not] at hbad
      exact ⟨hbad.1, hzero, gdn, rfl⟩
  | full attention =>
    simp only [hattention] at hmaterialize
    exact absurd (Except.ok.inj hmaterialize) hne

variable (layer) in
/-- **The state between steps**, that its last commit may have left a rollback to: the state that it
is materialised to is the one of single steps, and a state that is ready is that one itself. This is
the invariant of the runs below. -/
structure Open (ready : Bool) (rows : List (Row K × UInt32)) (outputs : List (Row K))
    (state whole : LayerState K) : Prop where
  materialize : layer.materialize_speculative_state state = .ok whole
  tracked : layer.Tracked rows outputs whole
  ready : ready = true → state = whole
  /-- Nothing but the gated delta net waits. -/
  rest : state.ple = whole.ple ∧ state.full_attention = whole.full_attention

/-- A state without a rollback is open. -/
theorem Tracked.open {outputs : List (Row K)} {state : LayerState K}
    (h : layer.Tracked rows outputs state) : layer.Open true rows outputs state state :=
  ⟨h.good.materialize, h, fun _ => rfl, rfl, rfl⟩

section Open

variable {ready : Bool} {outputs : List (Row K)} {state whole : LayerState K}

/-- A decode step replays the rollback first, so that it makes no difference whether the rollback
was replayed before. -/
theorem Open.forward_decode (h : layer.Open ready rows outputs state whole) (stream : Row K)
    (token : UInt32) :
    layer.forward_decode stream token state = layer.forward_decode stream token whole := by
  rw [DecoderLayer.forward_decode, DecoderLayer.forward_decode, h.materialize,
    h.tracked.good.materialize]

/-- So does a prefill. -/
theorem Open.forward_prefill (h : layer.Open ready rows outputs state whole) (flags : DeltaFlags)
    (streams : List (Row K)) (tokens : List UInt32) :
    layer.forward_prefill flags streams tokens state =
      layer.forward_prefill flags streams tokens whole := by
  have hbatch : layer.prefill_batch flags streams tokens state =
      layer.prefill_batch flags streams tokens whole := by
    have hwhole := h.tracked.good.materialize
    have hstate := h.materialize
    obtain ⟨hple, hfull⟩ := h.rest
    rw [materialize_speculative_state] at hstate hwhole
    rw [DecoderLayer.prefill_batch, DecoderLayer.prefill_batch, hple]
    cases hattention : layer.attention_ with
    | linear gdn =>
      simp only [hattention] at hstate hwhole ⊢
      obtain ⟨delta, hdelta, heq⟩ := Except.bind_eq_ok.mp hstate
      obtain ⟨delta', hdelta', heq'⟩ := Except.bind_eq_ok.mp hwhole
      -- the state and what it materialises to replay to the same
      have hsame : delta = delta' := by
        have hlinear := congrArg DecoderLayerState.linear_attention (Except.ok.inj heq)
        have hlinear' := congrArg DecoderLayerState.linear_attention (Except.ok.inj heq')
        exact hlinear.trans hlinear'.symm
      rw [← hsame] at hdelta'
      have hprefill : ∀ mixed, gdn.forward_prefill flags mixed state.linear_attention =
          gdn.forward_prefill flags mixed whole.linear_attention := fun mixed => by
        rw [GatedDeltaNet.forward_prefill, GatedDeltaNet.forward_prefill, hdelta, hdelta']
      simp only [hprefill, hfull]
    | full attention =>
      simp only [hattention] at hstate
      rw [Except.ok.inj hstate]
  -- a prefill of one row is a decode step
  rw [DecoderLayer.forward_prefill.eq_def, DecoderLayer.forward_prefill.eq_def, hbatch]
  refine congrArg (Except.bind _) ?_
  funext _
  split
  · rw [h.forward_decode]
  · rfl

/-- And so does what a persistent backend is handed. -/
theorem Open.prepare_persistent_state (h : layer.Open ready rows outputs state whole) :
    layer.prepare_persistent_state state = layer.prepare_persistent_state whole := by
  rw [DecoderLayer.prepare_persistent_state, DecoderLayer.prepare_persistent_state, h.materialize,
    h.tracked.good.materialize]

/-- A snapshot keeps the rollback, which is still there to be replayed in the copy; where there was
none, the copy is a state between steps again. -/
theorem Open.snapshot (h : layer.Open ready rows outputs state whole) :
    layer.Open ready rows outputs (snapshot_decoder_layer_state state) whole ∨
      layer.Tracked rows outputs (snapshot_decoder_layer_state state) := by
  by_cases heq : state = whole
  · subst heq
    right
    simpa using h.tracked.step h.tracked.good.snapshot
  · left
    obtain ⟨hinitialized, hpending, gdn, hattention⟩ := pending_of_materialize h.materialize heq
    have hsame : snapshot_decoder_layer_state state = state := by
      have hlinear : state.linear_attention.snapshot = state.linear_attention := by
        rw [GatedDeltaNetState.snapshot]
        simp only [hinitialized, if_true, hpending, ne_eq, not_false_eq_true]
        rw [← hinitialized]
      have hfull : state.full_attention.snapshot = state.full_attention := by
        rw [h.rest.2, h.tracked.good.linear gdn hattention]
        rfl
      have hple : state.ple.snapshot = state.ple := by
        rw [h.rest.1]
        exact h.tracked.good.ple.snapshot
      rw [snapshot_decoder_layer_state, hlinear, hfull, hple]
    rwa [hsame]

end Open

/-- Single steps are a run. -/
theorem Tracked.decode_each {outputs outputs' : List (Row K)} {state state' : LayerState K}
    {rows' : List (Row K × UInt32)} (h : layer.Tracked rows outputs state)
    (hdecode : layer.decode_each rows' state = .ok (outputs', state')) :
    layer.Tracked (rows ++ rows') (outputs ++ outputs') state' := by
  induction rows' generalizing rows outputs state outputs' with
  | nil =>
    obtain ⟨rfl, rfl⟩ := Prod.ext_iff.mp (Except.ok.inj hdecode)
    simpa using h
  | cons row rows' ih =>
    obtain ⟨⟨output, next⟩, hrow, hdecode⟩ := Except.bind_eq_ok.mp hdecode
    obtain ⟨⟨rest, last⟩, hrest, hdecode⟩ := Except.bind_eq_ok.mp hdecode
    obtain ⟨rfl, rfl⟩ := Prod.ext_iff.mp (Except.ok.inj hdecode)
    simpa using ih (h.step (h.good.forward_decode hrow)) hrest

/-- Single steps with a gated delta net never throw. So there is something to compare a run with;
with a full attention a step may throw, and the comparison is only made where it does not. -/
theorem Good.decode_each {state : LayerState K} (h : layer.Good state) {gdn : GatedDeltaNet K}
    (hattention : layer.attention_ = .linear gdn) (rows : List (Row K × UInt32)) :
    ∃ outputs state', layer.decode_each rows state = .ok (outputs, state') := by
  induction rows generalizing state with
  | nil => exact ⟨[], state, rfl⟩
  | cons row rows ih =>
    have hrow := h.forward_decode_linear hattention row.1 row.2
    obtain ⟨outputs, state', hrest⟩ := ih ((h.forward_decode hrow).good h)
    simp only [DecoderLayer.decode_each, hrow, Except.ok_bind, hrest]
    exact ⟨_, _, rfl⟩

end DecoderLayer

end Layer

end Qwen38
