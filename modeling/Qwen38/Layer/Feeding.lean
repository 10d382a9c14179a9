import Qwen38.Layer.Ple
import Qwen38.Layer.StateFile

/-!
# The rows a layer fetches

However tokens are fed to a layer, one at a time, in chunks, as the rows of a proposal of
which some are taken back, or in part before and in part after its state was snapshotted or
saved and loaded, the rows of the n-gram table that are fetched for a position are those of
its token and of the two before it. `Qwen38.Ple.Feeds` is what feeding a layer can come to,
and `Qwen38.Ple.row_ids_of_feeds` the result. A step changes the rest of the layer's state
in any way.
-/

namespace Qwen38

open Pipeline

variable {X : Type}

/-- The rows fetched for a position, with the tokens that the layer was fed up to then. -/
structure Fetch where
  tokens : List UInt32
  position : Nat
  row_ids : RowIds

/-- What a fetch must be. -/
def Fetch.Right (hash : NgramHash) (fetch : Fetch) : Prop :=
  fetch.row_ids = hash.rows_at fetch.tokens fetch.position

namespace Ple

variable (ple : Ple X)

/-- What is fetched for tokens that come together behind others. -/
def fetches (ctx tokens : List UInt32) (state : PleState (List X)) : List Fetch :=
  (ple.hash_.each_row_ids tokens state.ngram).1.mapIdx fun row row_ids =>
    ⟨ctx ++ tokens, ctx.length + row, row_ids⟩

/-- A layer that was fed tokens: the tokens it has consumed, its state, the rows fetched for
those tokens, and all fetches, also for tokens taken back. -/
inductive Feeds : List UInt32 → DecoderLayerState (List X) (List X) → List RowIds →
    List Fetch → Prop
  | start : Feeds [] default [] []
  | decode {ctx state rows all state'} (stream : X) (token : UInt32) :
      Feeds ctx state rows all →
      state'.ple = (ple.forward_decode stream token state.ple).2 →
      Feeds (ctx ++ [token]) state' (rows ++ [(ple.hash_.row_ids token state.ple.ngram).1])
        (all ++ ple.fetches ctx [token] state.ple)
  | prefill {ctx state rows all state' streams tokens output checkpoints} :
      Feeds ctx state rows all →
      ple.forward_verify streams tokens state.ple = .ok (output, checkpoints) →
      checkpoints.getLast? = some state'.ple →
      Feeds (ctx ++ tokens) state'
        (rows ++ (ple.hash_.each_row_ids tokens state.ple.ngram).1)
        (all ++ ple.fetches ctx tokens state.ple)
  | verify {ctx state rows all state' streams tokens output checkpoints} (accepted : Nat) :
      Feeds ctx state rows all →
      ple.forward_verify streams tokens state.ple = .ok (output, checkpoints) →
      checkpoints[accepted]? = some state'.ple →
      Feeds (ctx ++ tokens.take (accepted + 1)) state'
        (rows ++ (ple.hash_.each_row_ids tokens state.ple.ngram).1.take (accepted + 1))
        (all ++ ple.fetches ctx tokens state.ple)
  | reject {ctx state rows all streams tokens output checkpoints} :
      Feeds ctx state rows all →
      ple.forward_verify streams tokens state.ple = .ok (output, checkpoints) →
      Feeds ctx state rows (all ++ ple.fetches ctx tokens state.ple)
  | snapshot {ctx state rows all} :
      Feeds ctx state rows all → Feeds ctx (snapshot_decoder_layer_state state) rows all
  | reload {ctx state rows all state' shape2 layer} {file : MlxSafetensors (List X)}
      {metadata : List (String × Bytes)} {arrays : List (String × List X)} :
      Feeds ctx state rows all →
      Foreign (metadata_names layer) file.metadata_entries →
      Foreign (array_names layer) file.array_entries →
      load_decoder shape2 layer
        ⟨(append_decoder layer state file).metadata_entries ++ metadata,
          (append_decoder layer state file).array_entries ++ arrays⟩ = .ok state' →
      Feeds ctx state' rows all

variable {ple} {ctx tokens : List UInt32} {state : DecoderLayerState (List X) (List X)}
  {rows : List RowIds} {all : List Fetch}

/-- The state of the n-gram hash after a row of a verification. -/
theorem ngram_of_checkpoint {streams output : List X} {origin origin' : PleState (List X)}
    {checkpoints : List (PleState (List X))} {row : Nat}
    (h : ple.forward_verify streams tokens origin = .ok (output, checkpoints))
    (hrow : checkpoints[row]? = some origin') :
    row < tokens.length ∧
      origin'.ngram = (ple.hash_.each_row_ids tokens origin.ngram).2.getD row default := by
  obtain ⟨_, -, hok⟩ := Except.bind_eq_ok.mp h
  obtain ⟨-, rfl⟩ := Prod.ext_iff.mp (Except.ok.inj hok)
  rw [verify_rows] at hrow
  simp only [List.getElem?_map, Option.map_eq_some_iff] at hrow
  obtain ⟨i, hi, rfl⟩ := hrow
  obtain ⟨hlt, rfl⟩ := List.getElem?_eq_some_iff.mp hi
  rw [List.length_range] at hlt
  rw [List.getElem_range]
  exact ⟨hlt, rfl⟩

theorem length_checkpoints_of {streams output : List X} {origin : PleState (List X)}
    {checkpoints : List (PleState (List X))}
    (h : ple.forward_verify streams tokens origin = .ok (output, checkpoints)) :
    tokens ≠ [] ∧ checkpoints.length = tokens.length := by
  obtain ⟨_, hguard, hok⟩ := Except.bind_eq_ok.mp h
  obtain ⟨-, rfl⟩ := Prod.ext_iff.mp (Except.ok.inj hok)
  rw [Except.throw_if_eq_ok] at hguard
  exact ⟨fun hnil => hguard (Or.inl hnil), by simp [verify_rows]⟩

/-- The fetches for more tokens are right when the state is the one of the tokens before. -/
theorem right_append {origin : PleState (List X)} (hall : ∀ fetch ∈ all, fetch.Right ple.hash_)
    (h : ple.hash_.Tracks ctx origin.ngram) (tokens : List UInt32) :
    ∀ fetch ∈ all ++ ple.fetches ctx tokens origin, fetch.Right ple.hash_ := by
  intro fetch hmem
  rcases List.mem_append.mp hmem with hold | hnew
  · exact hall fetch hold
  · obtain ⟨row, hrow, rfl⟩ := List.mem_mapIdx.mp hnew
    rw [Fetch.Right]
    simp only [h.fst_each_row_ids, List.getElem_map, List.getElem_range]

theorem loaded_ple {shape2 : List X → Nat} {layer : String} {file : MlxSafetensors (List X)}
    {state' : DecoderLayerState (List X) (List X)} (hholds : file.Holds layer state)
    (hsegment : state.ple.ngram.segment_length < 2 ^ 64)
    (hload : load_decoder shape2 layer file = .ok state') : state'.ple.ngram = state.ple.ngram := by
  obtain ⟨linear, -, hload⟩ := Except.bind_eq_ok.mp hload
  obtain ⟨full, -, hload⟩ := Except.bind_eq_ok.mp hload
  rw [load_ple_of_holds hholds hsegment] at hload
  obtain rfl := Except.ok.inj hload
  dsimp only
  rw [PleState.snapshot]
  split <;> rfl

/-- **The state of a layer that was fed tokens is the one of these tokens**, also when some were
taken back or the state has been saved and loaded between them. -/
theorem tracks_of_feeds (h : ple.Feeds ctx state rows all) :
    ple.hash_.Tracks ctx state.ple.ngram := by
  induction h with
  | start => exact ple.hash_.tracks_nil
  | decode stream token _ hnext ih =>
    rw [hnext]
    exact ih.next token
  | @prefill ctx state _ _ state' _ tokens _ checkpoints _ hverify hlast ih =>
    obtain ⟨hne, hlength⟩ := length_checkpoints_of hverify
    have hpos := List.length_pos_of_ne_nil hne
    rw [List.getLast?_eq_getElem?, hlength] at hlast
    obtain ⟨hlt, hngram⟩ := ngram_of_checkpoint hverify hlast
    obtain ⟨-, -, hrow⟩ := ih.each_row_ids tokens
    obtain ⟨-, ngram, hget, htracks⟩ := hrow _ hlt
    rw [Nat.sub_add_cancel hpos, List.take_length] at htracks
    rw [hngram, List.getD_eq_getElem?_getD, hget]
    exact htracks
  | @verify ctx state _ _ state' _ tokens _ checkpoints accepted _ hverify hkept ih =>
    obtain ⟨hlt, hngram⟩ := ngram_of_checkpoint hverify hkept
    obtain ⟨-, -, hrow⟩ := ih.each_row_ids tokens
    obtain ⟨-, ngram, hget, htracks⟩ := hrow _ hlt
    rw [hngram, List.getD_eq_getElem?_getD, hget]
    exact htracks
  | reject _ _ ih => exact ih
  | @snapshot ctx state _ _ _ ih =>
    have hngram : (snapshot_decoder_layer_state state).ple.ngram = state.ple.ngram := by
      change state.ple.snapshot.ngram = state.ple.ngram
      rw [PleState.snapshot]
      split <;> rfl
    rw [hngram]
    exact ih
  | reload _ hmetadata harrays hload ih =>
    have hsegment := ih.length_le
    rw [loaded_ple (holds_append_decoder _ _ hmetadata harrays) (by omega) hload]
    exact ih

/-- **The rows fetched for a position are those of its token and the two before it**,
counted from the last end of sequence, also for tokens that are taken back; and those of
the tokens consumed are the rows of the whole sequence, computed at once. -/
theorem row_ids_of_feeds (h : ple.Feeds ctx state rows all) :
    (∀ fetch ∈ all, fetch.row_ids = ple.hash_.rows_at fetch.tokens fetch.position) ∧
      rows = ple.hash_.rows_of_all ctx ∧
      rows = (List.range ctx.length).map (ple.hash_.rows_at ctx) := by
  have hrows : (∀ fetch ∈ all, fetch.Right ple.hash_) ∧ rows = ple.hash_.rows_of_all ctx := by
    induction h with
    | start => exact ⟨by simp, rfl⟩
    | decode stream token hfed hnext ih =>
      have htracks := tracks_of_feeds hfed
      refine ⟨right_append ih.1 htracks [token], ?_⟩
      rw [htracks.rows_of_all_append [token], ← ih.2]
      rfl
    | @prefill _ _ _ _ _ _ tokens _ _ hfed _ _ ih =>
      have htracks := tracks_of_feeds hfed
      refine ⟨right_append ih.1 htracks tokens, ?_⟩
      rw [htracks.rows_of_all_append tokens, ← ih.2]
    | @verify _ _ _ _ _ _ tokens _ _ accepted hfed _ _ ih =>
      have htracks := tracks_of_feeds hfed
      refine ⟨right_append ih.1 htracks tokens, ?_⟩
      rw [htracks.rows_of_all_append, ← ih.2, NgramHash.take_fst_each_row_ids]
    | @reject _ _ _ _ _ tokens _ _ hfed _ ih =>
      exact ⟨right_append ih.1 (tracks_of_feeds hfed) tokens, ih.2⟩
    | snapshot _ ih => exact ih
    | reload _ _ _ _ ih => exact ih
  exact ⟨hrows.1, hrows.2, hrows.2.trans (ple.hash_.rows_of_all_eq ctx)⟩

/-- A small hash, with 0 as the end of sequence. -/
def small : Ple Unit where
  hash_ :=
    { eos_ := 0
      multipliers_ := fun index => BitVec.ofNat 64 (index.val * 2 + 3)
      vocabulary_ := fun head => head.val + 5
      offsets_ := fun head => head.val * 100 }
  gather _ := ()
  gated _ _ := ()
  normalized _ := ()
  convolve _ := ()
  add _ _ := ()
  zero := ()

/-- A proposal of which the end of sequence is kept and the token after it is taken back. -/
theorem row_ids_of_feeds_small : ∃ state rows all,
    small.Feeds [5, 0, 9] state rows all ∧ all.length = 4 ∧
      (∀ fetch ∈ all, fetch.row_ids = small.hash_.rows_at fetch.tokens fetch.position) ∧
      rows = small.hash_.rows_of_all [5, 0, 9] := by
  let kept : DecoderLayerState (List Unit) (List Unit) :=
    { (default : DecoderLayerState (List Unit) (List Unit)) with
      ple := (small.verify_rows [(), (), ()] [5, 0, 7] default).2.getD 1 default }
  let decoded : DecoderLayerState (List Unit) (List Unit) :=
    { (default : DecoderLayerState (List Unit) (List Unit)) with
      ple := (small.forward_decode () 9 kept.ple).2 }
  have hverify : small.forward_verify [(), (), ()] [5, 0, 7]
      (default : DecoderLayerState (List Unit) (List Unit)).ple = .ok _ := rfl
  have hverified : small.Feeds [5, 0] kept _ _ := Feeds.verify 1 Feeds.start hverify rfl
  have hfed : small.Feeds [5, 0, 9] decoded _ _ := hverified.decode () 9 rfl
  obtain ⟨hall, hrows, -⟩ := row_ids_of_feeds hfed
  exact ⟨_, _, _, hfed, rfl, hall, hrows⟩

end Ple

end Qwen38
