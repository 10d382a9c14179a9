import Qwen38.Layer.DecoderState
import Qwen38.Lib.Except
import Qwen38.Text.JsonText

/-!
# Decoder layers in a state file

A state file is what a safetensors file is: named texts, the metadata, and named arrays.
`append_decoder` adds a layer's entries under the layer's prefix, and `load_decoder` reads
them back. A file *holds* a layer when each of the entries that `append_decoder` adds for it
is found under its name; a file made of the entries of several layers holds each of them, as
long as no name is used twice.

The round trip (`load_decoder_of_holds`) returns the layer as it is *kept*: with the fields
that `append_decoder` does not write as they are in a new layer.
-/

namespace Qwen38

open Json (digits_of digits_value)

/-- A safetensors file. -/
structure MlxSafetensors (A : Type) where
  metadata_entries : List (String × Bytes)
  array_entries : List (String × A)

variable {A : Type}

namespace MlxSafetensors

/-- `MlxSafetensors::metadata`. -/
def metadata (file : MlxSafetensors A) (name : String) : Option Bytes :=
  (file.metadata_entries.find? fun entry => entry.1 = name).map Prod.snd

/-- `MlxSafetensors::tensor`. -/
def tensor (file : MlxSafetensors A) (name : String) : Except String A :=
  match file.array_entries.find? fun entry => entry.1 = name with
  | some entry => .ok entry.2
  | none => .error ("tensor not found in MLX shard: " ++ name)

end MlxSafetensors

/-- `required_metadata`. -/
def required_metadata (file : MlxSafetensors A) (key : String) : Except String Bytes :=
  match file.metadata key with
  | some value => .ok value
  | none => .error ("prefix state metadata missing: " ++ key)

/-- `parse_size`. -/
def parse_size (file : MlxSafetensors A) (key : String) : Except String Nat := do
  let text ← required_metadata file key
  if text ≠ [] ∧ text.all Json.is_digit ∧ digits_value text < 2 ^ 64 then .ok (digits_value text)
  else .error ("invalid prefix state metadata: " ++ key)

/-- `parse_bool`. -/
def parse_bool (file : MlxSafetensors A) (key : String) : Except String Bool := do
  let text ← required_metadata file key
  if text = ascii ['0'] then .ok false
  else if text = ascii ['1'] then .ok true
  else .error ("invalid prefix state boolean: " ++ key)

/-- The text of a flag in the metadata. -/
def flag_text (value : Bool) : Bytes := if value then ascii ['1'] else ascii ['0']

/-! ### Writing a layer -/

/-- The metadata that `append_decoder` adds for a layer. -/
def decoder_metadata (layer : String) (state : DecoderLayerState A A) : List (String × Bytes) :=
  [(layer ++ ".linear.initialized", flag_text state.linear_attention.initialized),
    (layer ++ ".attention.token_count", digits_of state.full_attention.token_count),
    (layer ++ ".attention.position_base", digits_of state.full_attention.position_base),
    (layer ++ ".attention.qsa_raw_start", digits_of state.full_attention.qsa_raw_start),
    (layer ++ ".attention.qsa_pooled_count", digits_of state.full_attention.qsa_pooled_count),
    (layer ++ ".attention.kv_q8", flag_text state.full_attention.kv_q8),
    (layer ++ ".attention.kv_q8_cold_tokens", digits_of state.full_attention.kv_q8_cold_tokens),
    (layer ++ ".ple.ngram.initialized", flag_text state.ple.ngram.initialized),
    (layer ++ ".ple.ngram.previous0", digits_of state.ple.ngram.previous.1.toNat),
    (layer ++ ".ple.ngram.previous1", digits_of state.ple.ngram.previous.2.toNat),
    (layer ++ ".ple.ngram.segment_length", digits_of state.ple.ngram.segment_length),
    (layer ++ ".ple.convolution_initialized", flag_text state.ple.convolution_initialized)]

/-- The arrays of a linear attention. -/
def linear_arrays (layer : String) (state : GatedDeltaNetState A A) : List (String × A) :=
  if state.initialized then
    [(layer ++ ".linear.convolution", state.convolution),
      (layer ++ ".linear.recurrent", state.recurrent)]
  else []

/-- The arrays of a full attention. -/
def attention_arrays (layer : String) (state : SelfAttentionState A) : List (String × A) :=
  if state.token_count ≠ 0 then
    (if state.kv_q8 then
      [(layer ++ ".attention.key_weights", state.key_weights),
        (layer ++ ".attention.key_scales", state.key_scales),
        (layer ++ ".attention.key_biases", state.key_biases),
        (layer ++ ".attention.value_weights", state.value_weights),
        (layer ++ ".attention.value_scales", state.value_scales),
        (layer ++ ".attention.value_biases", state.value_biases)] ++
      (if state.token_count > state.kv_q8_cold_tokens then
        [(layer ++ ".attention.keys", state.keys), (layer ++ ".attention.values", state.values)]
      else [])
    else
      [(layer ++ ".attention.keys", state.keys), (layer ++ ".attention.values", state.values)]) ++
    [(layer ++ ".attention.qsa_raw_keys", state.qsa_raw_keys)] ++
    (if state.qsa_pooled_count ≠ 0 then
      [(layer ++ ".attention.qsa_pooled_keys", state.qsa_pooled_keys)]
    else [])
  else []

/-- The arrays of a token embedding. -/
def ple_arrays (layer : String) (state : PleState A) : List (String × A) :=
  if state.convolution_initialized then [(layer ++ ".ple.convolution", state.convolution)] else []

/-- The arrays that `append_decoder` adds for a layer. -/
def decoder_arrays (layer : String) (state : DecoderLayerState A A) : List (String × A) :=
  linear_arrays layer state.linear_attention ++ attention_arrays layer state.full_attention ++
    ple_arrays layer state.ple

/-- `append_decoder`. -/
def append_decoder (layer : String) (state : DecoderLayerState A A) (file : MlxSafetensors A) :
    MlxSafetensors A where
  metadata_entries := file.metadata_entries ++ decoder_metadata layer state
  array_entries := file.array_entries ++ decoder_arrays layer state

/-! ### Reading a layer -/

variable [Inhabited A]

/-- The part of `load_decoder` that reads a linear attention. -/
def load_linear (layer : String) (file : MlxSafetensors A) :
    Except String (GatedDeltaNetState A A) := do
  let initialized ← parse_bool file (layer ++ ".linear.initialized")
  let state := { (default : GatedDeltaNetState A A) with initialized := initialized }
  if initialized then do
    let convolution ← file.tensor (layer ++ ".linear.convolution")
    let recurrent ← file.tensor (layer ++ ".linear.recurrent")
    .ok { state with convolution := convolution, recurrent := recurrent }
  else .ok state

/-- The part of `load_decoder` that reads quantised keys and values. `shape2` is the third
dimension of an array. -/
def load_q8 (shape2 : A → Nat) (layer : String) (file : MlxSafetensors A)
    (state : SelfAttentionState A) : Except String (SelfAttentionState A) := do
  let key_weights ← file.tensor (layer ++ ".attention.key_weights")
  let key_scales ← file.tensor (layer ++ ".attention.key_scales")
  let key_biases ← file.tensor (layer ++ ".attention.key_biases")
  let value_weights ← file.tensor (layer ++ ".attention.value_weights")
  let value_scales ← file.tensor (layer ++ ".attention.value_scales")
  let value_biases ← file.tensor (layer ++ ".attention.value_biases")
  let kv_q8_cold_tokens ←
    if (file.metadata (layer ++ ".attention.kv_q8_cold_tokens")).isSome then
      parse_size file (layer ++ ".attention.kv_q8_cold_tokens")
    else .ok (shape2 key_weights)
  Except.throw_if (kv_q8_cold_tokens > state.token_count)
    "Q8 prefix state cold frontier is out of range"
  let state := { state with
    key_weights := key_weights
    key_scales := key_scales
    key_biases := key_biases
    value_weights := value_weights
    value_scales := value_scales
    value_biases := value_biases
    kv_q8_cold_tokens := kv_q8_cold_tokens }
  if kv_q8_cold_tokens < state.token_count then do
    let keys ← file.tensor (layer ++ ".attention.keys")
    let values ← file.tensor (layer ++ ".attention.values")
    .ok { state with keys := keys, values := values }
  else .ok state

/-- The part of `load_decoder` that reads the tensors of a full attention. -/
def load_rows (shape2 : A → Nat) (layer : String) (file : MlxSafetensors A)
    (state : SelfAttentionState A) : Except String (SelfAttentionState A) := do
  let state ←
    if state.kv_q8 then load_q8 shape2 layer file state
    else do
      let keys ← file.tensor (layer ++ ".attention.keys")
      let values ← file.tensor (layer ++ ".attention.values")
      .ok { state with keys := keys, values := values }
  let qsa_raw_keys ← file.tensor (layer ++ ".attention.qsa_raw_keys")
  let state := { state with qsa_raw_keys := qsa_raw_keys }
  if state.qsa_pooled_count ≠ 0 then do
    let qsa_pooled_keys ← file.tensor (layer ++ ".attention.qsa_pooled_keys")
    .ok { state with qsa_pooled_keys := qsa_pooled_keys }
  else .ok state

/-- The part of `load_decoder` that reads a full attention. -/
def load_attention (shape2 : A → Nat) (layer : String) (file : MlxSafetensors A) :
    Except String (SelfAttentionState A) := do
  let token_count ← parse_size file (layer ++ ".attention.token_count")
  let position_base ← parse_size file (layer ++ ".attention.position_base")
  let qsa_raw_start ←
    if (file.metadata (layer ++ ".attention.qsa_raw_start")).isSome then
      parse_size file (layer ++ ".attention.qsa_raw_start")
    else .ok 0
  let qsa_pooled_count ← parse_size file (layer ++ ".attention.qsa_pooled_count")
  let kv_q8 ←
    if (file.metadata (layer ++ ".attention.kv_q8")).isSome then
      parse_bool file (layer ++ ".attention.kv_q8")
    else .ok false
  let state := { (default : SelfAttentionState A) with
    token_count := token_count
    position_base := position_base
    qsa_raw_start := qsa_raw_start
    qsa_pooled_count := qsa_pooled_count
    kv_q8 := kv_q8 }
  if token_count ≠ 0 then load_rows shape2 layer file state else .ok state

/-- The part of `load_decoder` that reads a token embedding. -/
def load_ple (layer : String) (file : MlxSafetensors A) : Except String (PleState A) := do
  let initialized ← parse_bool file (layer ++ ".ple.ngram.initialized")
  let previous0 ← parse_size file (layer ++ ".ple.ngram.previous0")
  let previous1 ← parse_size file (layer ++ ".ple.ngram.previous1")
  Except.throw_if (previous0 > 2 ^ 32 - 1 ∨ previous1 > 2 ^ 32 - 1)
    "prefix state ngram token is out of range"
  let segment_length ← parse_size file (layer ++ ".ple.ngram.segment_length")
  let convolution_initialized ← parse_bool file (layer ++ ".ple.convolution_initialized")
  let state : PleState A :=
    { (default : PleState A) with
      ngram := ⟨(UInt32.ofNat previous0, UInt32.ofNat previous1), segment_length, initialized⟩
      convolution_initialized := convolution_initialized }
  if convolution_initialized then do
    let convolution ← file.tensor (layer ++ ".ple.convolution")
    .ok { state with convolution := convolution }
  else .ok state

/-- `load_decoder`. -/
def load_decoder (shape2 : A → Nat) (layer : String) (file : MlxSafetensors A) :
    Except String (DecoderLayerState A A) := do
  let linear_attention ← load_linear layer file
  let full_attention ← load_attention shape2 layer file
  let ple ← load_ple layer file
  .ok ⟨linear_attention, full_attention, ple⟩

/-! ### The round trip -/

/-- A file in which the entries of a layer are found under their names. -/
structure MlxSafetensors.Holds (file : MlxSafetensors A) (layer : String)
    (state : DecoderLayerState A A) : Prop where
  metadata : ∀ entry ∈ decoder_metadata layer state, file.metadata entry.1 = some entry.2
  tensor : ∀ entry ∈ decoder_arrays layer state, file.tensor entry.1 = .ok entry.2

/-- A state whose counters are values of `std::size_t`. -/
structure DecoderLayerState.InRange (state : DecoderLayerState A A) : Prop where
  token_count : state.full_attention.token_count < 2 ^ 64
  position_base : state.full_attention.position_base < 2 ^ 64
  qsa_raw_start : state.full_attention.qsa_raw_start < 2 ^ 64
  qsa_pooled_count : state.full_attention.qsa_pooled_count < 2 ^ 64
  kv_q8_cold_tokens : state.full_attention.kv_q8_cold_tokens < 2 ^ 64
  segment_length : state.ple.ngram.segment_length < 2 ^ 64

/-- What a file keeps of a linear attention. -/
def GatedDeltaNetState.kept (state : GatedDeltaNetState A A) : GatedDeltaNetState A A :=
  if state.initialized then
    { (default : GatedDeltaNetState A A) with
      convolution := state.convolution
      recurrent := state.recurrent
      initialized := true }
  else default

/-- What a file keeps of a full attention. -/
def SelfAttentionState.kept (state : SelfAttentionState A) : SelfAttentionState A :=
  let snapshot := state.snapshot
  if state.token_count ≠ 0 ∧ state.kv_q8 then snapshot else { snapshot with kv_q8_cold_tokens := 0 }

/-- What a file keeps of a layer. -/
def DecoderLayerState.kept (state : DecoderLayerState A A) : DecoderLayerState A A where
  linear_attention := state.linear_attention.kept
  full_attention := state.full_attention.kept
  ple := state.ple.snapshot

section Reading

variable {file : MlxSafetensors A} {layer key : String} {state : DecoderLayerState A A}

omit [Inhabited A] in
theorem MlxSafetensors.Holds.parse_size (h : file.Holds layer state) {n : Nat}
    (hmem : (key, digits_of n) ∈ decoder_metadata layer state) (hn : n < 2 ^ 64) :
    parse_size file key = .ok n := by
  have hall : (digits_of n).all Json.is_digit = true :=
    List.all_eq_true.mpr fun b hb => Json.is_digit_of_mem_digits_of hb
  rw [Qwen38.parse_size, required_metadata, h.metadata _ hmem]
  simp only [Except.ok_bind, Json.digits_value_digits_of]
  exact if_pos ⟨Json.digits_of_ne_nil n, hall, hn⟩

omit [Inhabited A] in
theorem MlxSafetensors.Holds.parse_bool (h : file.Holds layer state) {b : Bool}
    (hmem : (key, flag_text b) ∈ decoder_metadata layer state) : parse_bool file key = .ok b := by
  rw [Qwen38.parse_bool, required_metadata, h.metadata _ hmem]
  cases b <;> rfl

omit [Inhabited A] in
theorem MlxSafetensors.Holds.tensor_of (h : file.Holds layer state) {array : A}
    (hmem : (key, array) ∈ decoder_arrays layer state) : file.tensor key = .ok array :=
  h.tensor (key, array) hmem

theorem load_linear_of_holds (h : file.Holds layer state) :
    load_linear layer file = .ok state.linear_attention.kept := by
  have hinitialized : parse_bool file (layer ++ ".linear.initialized") =
      .ok state.linear_attention.initialized :=
    h.parse_bool (by simp [decoder_metadata])
  rw [load_linear, hinitialized, GatedDeltaNetState.kept]
  cases hflag : state.linear_attention.initialized with
  | false => rfl
  | true =>
    have hconvolution : file.tensor (layer ++ ".linear.convolution") =
        .ok state.linear_attention.convolution :=
      h.tensor_of (by simp [decoder_arrays, linear_arrays, hflag])
    have hrecurrent : file.tensor (layer ++ ".linear.recurrent") =
        .ok state.linear_attention.recurrent :=
      h.tensor_of (by simp [decoder_arrays, linear_arrays, hflag])
    simp only [Except.ok_bind, if_true, hconvolution, hrecurrent]

/-- The scalars of a full attention, as `load_decoder` has them when it comes to the rows. -/
def SelfAttentionState.counters (state : SelfAttentionState A) : SelfAttentionState A :=
  { (default : SelfAttentionState A) with
    token_count := state.token_count
    position_base := state.position_base
    qsa_raw_start := state.qsa_raw_start
    qsa_pooled_count := state.qsa_pooled_count
    kv_q8 := state.kv_q8 }

omit [Inhabited A] in
/-- The keys and values of a full attention are read back. -/
theorem load_keys_of_holds (h : file.Holds layer state)
    (hsome : state.full_attention.token_count ≠ 0)
    (hhot : state.full_attention.kv_q8 = true →
      state.full_attention.kv_q8_cold_tokens < state.full_attention.token_count) :
    file.tensor (layer ++ ".attention.keys") = .ok state.full_attention.keys ∧
      file.tensor (layer ++ ".attention.values") = .ok state.full_attention.values := by
  cases hq8 : state.full_attention.kv_q8 with
  | false =>
    constructor
    · exact h.tensor_of (by simp [decoder_arrays, attention_arrays, hsome, hq8])
    · exact h.tensor_of (by simp [decoder_arrays, attention_arrays, hsome, hq8])
  | true =>
    have hlt := hhot hq8
    constructor
    · exact h.tensor_of (by simp [decoder_arrays, attention_arrays, hsome, hq8, hlt])
    · exact h.tensor_of (by simp [decoder_arrays, attention_arrays, hsome, hq8, hlt])

theorem load_q8_of_holds (shape2 : A → Nat) (h : file.Holds layer state) (hrange : state.InRange)
    (hsome : state.full_attention.token_count ≠ 0) (hq8 : state.full_attention.kv_q8 = true)
    (hcold : state.full_attention.kv_q8_cold_tokens ≤ state.full_attention.token_count) :
    load_q8 shape2 layer file state.full_attention.counters =
      .ok { state.full_attention.counters with
        key_weights := state.full_attention.key_weights
        key_scales := state.full_attention.key_scales
        key_biases := state.full_attention.key_biases
        value_weights := state.full_attention.value_weights
        value_scales := state.full_attention.value_scales
        value_biases := state.full_attention.value_biases
        kv_q8_cold_tokens := state.full_attention.kv_q8_cold_tokens
        keys := if state.full_attention.kv_q8_cold_tokens < state.full_attention.token_count then
          state.full_attention.keys else default
        values := if state.full_attention.kv_q8_cold_tokens < state.full_attention.token_count then
          state.full_attention.values else default } := by
  -- the six arrays are in the file, under the names that are asked for
  have hquantized : ∀ {name : String} {array : A},
      (layer ++ name, array) ∈ [(layer ++ ".attention.key_weights", state.full_attention.key_weights),
        (layer ++ ".attention.key_scales", state.full_attention.key_scales),
        (layer ++ ".attention.key_biases", state.full_attention.key_biases),
        (layer ++ ".attention.value_weights", state.full_attention.value_weights),
        (layer ++ ".attention.value_scales", state.full_attention.value_scales),
        (layer ++ ".attention.value_biases", state.full_attention.value_biases)] →
      file.tensor (layer ++ name) = .ok array := fun {name array} hmem => h.tensor_of (by
    rw [decoder_arrays, attention_arrays, if_pos hsome, if_pos hq8]
    simp only [List.mem_append]
    exact Or.inl (Or.inr (Or.inl (Or.inl (Or.inl hmem)))))
  have hmetadata : file.metadata (layer ++ ".attention.kv_q8_cold_tokens") =
      some (digits_of state.full_attention.kv_q8_cold_tokens) :=
    h.metadata (layer ++ ".attention.kv_q8_cold_tokens",
      digits_of state.full_attention.kv_q8_cold_tokens) (by simp [decoder_metadata])
  have hcold_tokens : parse_size file (layer ++ ".attention.kv_q8_cold_tokens") =
      .ok state.full_attention.kv_q8_cold_tokens :=
    h.parse_size (by simp [decoder_metadata]) hrange.kv_q8_cold_tokens
  have hfrontier : ¬state.full_attention.kv_q8_cold_tokens >
      state.full_attention.counters.token_count := Nat.not_lt.mpr hcold
  rw [load_q8, hquantized (.head _), hquantized (.tail _ (.head _)),
    hquantized (.tail _ (.tail _ (.head _))), hquantized (.tail _ (.tail _ (.tail _ (.head _)))),
    hquantized (.tail _ (.tail _ (.tail _ (.tail _ (.head _))))),
    hquantized (.tail _ (.tail _ (.tail _ (.tail _ (.tail _ (.head _))))))]
  simp only [Except.ok_bind, hmetadata, Option.isSome_some, if_true, hcold_tokens,
    Except.throw_if_of_not hfrontier]
  -- hot rows are only in the file where there are any
  by_cases hlt : state.full_attention.kv_q8_cold_tokens < state.full_attention.token_count
  · obtain ⟨hkeys, hvalues⟩ := load_keys_of_holds h hsome fun _ => hlt
    rw [if_pos hlt, if_pos hlt]
    simp only [SelfAttentionState.counters, if_pos hlt, hkeys, hvalues, Except.ok_bind]
  · rw [if_neg hlt, if_neg hlt]
    exact if_neg hlt

theorem load_rows_of_holds {shape2 : A → Nat} (h : file.Holds layer state) (hrange : state.InRange)
    (hsome : state.full_attention.token_count ≠ 0)
    (hcold : state.full_attention.kv_q8 = true →
      state.full_attention.kv_q8_cold_tokens ≤ state.full_attention.token_count) :
    load_rows shape2 layer file state.full_attention.counters = .ok state.full_attention.kept := by
  have hraw : file.tensor (layer ++ ".attention.qsa_raw_keys") =
      .ok state.full_attention.qsa_raw_keys :=
    h.tensor_of (by simp [decoder_arrays, attention_arrays, hsome])
  have hpooled : state.full_attention.qsa_pooled_count ≠ 0 →
      file.tensor (layer ++ ".attention.qsa_pooled_keys") =
        .ok state.full_attention.qsa_pooled_keys := fun hne =>
    h.tensor_of (by simp [decoder_arrays, attention_arrays, hsome, hne])
  have hcount : state.full_attention.counters.qsa_pooled_count =
      state.full_attention.qsa_pooled_count := rfl
  have hflag : state.full_attention.counters.kv_q8 = state.full_attention.kv_q8 := rfl
  rw [load_rows, SelfAttentionState.kept, SelfAttentionState.snapshot]
  cases hq8 : state.full_attention.kv_q8 with
  | false =>
    obtain ⟨hkeys, hvalues⟩ := load_keys_of_holds h hsome fun ht => by simp [hq8] at ht
    simp only [hflag, hq8, hkeys, hvalues, hraw, hcount, Except.ok_bind]
    by_cases hne : state.full_attention.qsa_pooled_count = 0
    · simp [hne, hsome, hq8, SelfAttentionState.counters]
      rfl
    · simp [hne, hsome, hq8, SelfAttentionState.counters, hpooled hne]
      rfl
  | true =>
    have hload := load_q8_of_holds shape2 h hrange hsome hq8 (hcold hq8)
    simp only [hflag, hq8, hload, hraw, hcount, Except.ok_bind, if_true]
    by_cases hne : state.full_attention.qsa_pooled_count = 0
    all_goals
      by_cases hlt : state.full_attention.kv_q8_cold_tokens < state.full_attention.token_count
    · simp [hne, hlt, hsome, hq8, SelfAttentionState.counters]
    · simp [hne, hlt, hsome, hq8, SelfAttentionState.counters]
      exact ⟨rfl, rfl⟩
    · simp [hne, hlt, hsome, hq8, SelfAttentionState.counters, hpooled hne]
    · simp [hne, hlt, hsome, hq8, SelfAttentionState.counters, hpooled hne]
      exact ⟨rfl, rfl⟩

theorem load_attention_of_holds {shape2 : A → Nat} (h : file.Holds layer state)
    (hrange : state.InRange)
    (hcold : state.full_attention.token_count ≠ 0 → state.full_attention.kv_q8 = true →
      state.full_attention.kv_q8_cold_tokens ≤ state.full_attention.token_count) :
    load_attention shape2 layer file = .ok state.full_attention.kept := by
  have htoken_count : parse_size file (layer ++ ".attention.token_count") =
      .ok state.full_attention.token_count :=
    h.parse_size (by simp [decoder_metadata]) hrange.token_count
  have hposition_base : parse_size file (layer ++ ".attention.position_base") =
      .ok state.full_attention.position_base :=
    h.parse_size (by simp [decoder_metadata]) hrange.position_base
  have hraw_start : parse_size file (layer ++ ".attention.qsa_raw_start") =
      .ok state.full_attention.qsa_raw_start :=
    h.parse_size (by simp [decoder_metadata]) hrange.qsa_raw_start
  have hraw_metadata : file.metadata (layer ++ ".attention.qsa_raw_start") =
      some (digits_of state.full_attention.qsa_raw_start) :=
    h.metadata (layer ++ ".attention.qsa_raw_start",
      digits_of state.full_attention.qsa_raw_start) (by simp [decoder_metadata])
  have hpooled_count : parse_size file (layer ++ ".attention.qsa_pooled_count") =
      .ok state.full_attention.qsa_pooled_count :=
    h.parse_size (by simp [decoder_metadata]) hrange.qsa_pooled_count
  have hkv_q8 : parse_bool file (layer ++ ".attention.kv_q8") = .ok state.full_attention.kv_q8 :=
    h.parse_bool (by simp [decoder_metadata])
  have hq8_metadata : file.metadata (layer ++ ".attention.kv_q8") =
      some (flag_text state.full_attention.kv_q8) :=
    h.metadata (layer ++ ".attention.kv_q8", flag_text state.full_attention.kv_q8)
      (by simp [decoder_metadata])
  rw [load_attention, htoken_count, hposition_base, hpooled_count]
  simp only [Except.ok_bind, hraw_metadata, hq8_metadata, Option.isSome_some, if_true,
    hraw_start, hkv_q8]
  by_cases hsome : state.full_attention.token_count = 0
  · simp [SelfAttentionState.kept, SelfAttentionState.snapshot, hsome]
    rfl
  · rw [if_pos hsome]
    exact load_rows_of_holds h hrange hsome (hcold hsome)

theorem load_ple_of_holds (h : file.Holds layer state)
    (hsegment : state.ple.ngram.segment_length < 2 ^ 64) :
    load_ple layer file = .ok state.ple.snapshot := by
  have hsize : ∀ token : UInt32, token.toNat < 2 ^ 32 := fun token => token.toNat_lt
  have hinitialized : parse_bool file (layer ++ ".ple.ngram.initialized") =
      .ok state.ple.ngram.initialized :=
    h.parse_bool (by simp [decoder_metadata])
  have hprevious0 : parse_size file (layer ++ ".ple.ngram.previous0") =
      .ok state.ple.ngram.previous.1.toNat :=
    h.parse_size (by simp [decoder_metadata]) (by
      have := hsize state.ple.ngram.previous.1
      omega)
  have hprevious1 : parse_size file (layer ++ ".ple.ngram.previous1") =
      .ok state.ple.ngram.previous.2.toNat :=
    h.parse_size (by simp [decoder_metadata]) (by
      have := hsize state.ple.ngram.previous.2
      omega)
  have hlength : parse_size file (layer ++ ".ple.ngram.segment_length") =
      .ok state.ple.ngram.segment_length :=
    h.parse_size (by simp [decoder_metadata]) hsegment
  have hconvolution_initialized : parse_bool file (layer ++ ".ple.convolution_initialized") =
      .ok state.ple.convolution_initialized :=
    h.parse_bool (by simp [decoder_metadata])
  have hrange : ¬(state.ple.ngram.previous.1.toNat > 2 ^ 32 - 1 ∨
      state.ple.ngram.previous.2.toNat > 2 ^ 32 - 1) := by
    have h0 := hsize state.ple.ngram.previous.1
    have h1 := hsize state.ple.ngram.previous.2
    omega
  rw [load_ple, hinitialized, hprevious0, hprevious1, hlength, hconvolution_initialized,
    PleState.snapshot]
  simp only [Except.ok_bind, Except.throw_if_of_not hrange, UInt32.ofNat_toNat]
  cases hflag : state.ple.convolution_initialized with
  | false => rfl
  | true =>
    have hconvolution : file.tensor (layer ++ ".ple.convolution") = .ok state.ple.convolution :=
      h.tensor_of (by simp [decoder_arrays, ple_arrays, hflag])
    simp only [if_true, hconvolution, Except.ok_bind]

/-- **A layer is read back as it is kept.** -/
theorem load_decoder_of_holds (shape2 : A → Nat) (h : file.Holds layer state)
    (hrange : state.InRange)
    (hcold : state.full_attention.token_count ≠ 0 → state.full_attention.kv_q8 = true →
      state.full_attention.kv_q8_cold_tokens ≤ state.full_attention.token_count) :
    load_decoder shape2 layer file = .ok state.kept := by
  rw [load_decoder, load_linear_of_holds h, load_attention_of_holds h hrange hcold,
    load_ple_of_holds h hrange.segment_length]
  rfl

end Reading

/-! ### Files of several layers -/

section Holds

variable {layer : String} {state : DecoderLayerState A A} {β : Type}

omit [Inhabited A]

/-- Entries under other names. -/
def Foreign (names : List String) (entries : List (String × β)) : Prop :=
  ∀ entry ∈ entries, entry.1 ∉ names

theorem find?_of_nodup {entries : List (String × β)} {entry : String × β}
    (hnodup : (entries.map Prod.fst).Nodup) (hmem : entry ∈ entries) :
    entries.find? (fun e => e.1 = entry.1) = some entry := by
  induction entries with
  | nil => cases hmem
  | cons first entries ih =>
    rw [List.map_cons, List.nodup_cons] at hnodup
    rcases List.mem_cons.mp hmem with rfl | hrest
    · simp
    · rw [List.find?_cons_of_neg, ih hnodup.2 hrest]
      simp only [decide_eq_true_eq]
      intro hcon
      exact hnodup.1 (hcon ▸ List.mem_map_of_mem hrest)

/-- An entry is found between the entries of other layers. -/
theorem find?_between {before entries after : List (String × β)} {entry : String × β}
    {names : List String} (hnodup : (entries.map Prod.fst).Nodup)
    (hnames : (entries.map Prod.fst).Sublist names) (hbefore : Foreign names before)
    (hmem : entry ∈ entries) :
    (before ++ entries ++ after).find? (fun e => e.1 = entry.1) = some entry := by
  have hnone : before.find? (fun e => e.1 = entry.1) = none := by
    refine List.find?_eq_none.mpr fun e he => ?_
    rw [decide_eq_true_eq]
    intro heq
    exact hbefore e he (heq ▸ hnames.subset (List.mem_map_of_mem hmem))
  rw [List.append_assoc, List.find?_append, hnone, List.find?_append, find?_of_nodup hnodup hmem]
  rfl

/-- The names of the metadata of a layer. -/
def metadata_names (layer : String) : List String :=
  [layer ++ ".linear.initialized", layer ++ ".attention.token_count",
    layer ++ ".attention.position_base", layer ++ ".attention.qsa_raw_start",
    layer ++ ".attention.qsa_pooled_count", layer ++ ".attention.kv_q8",
    layer ++ ".attention.kv_q8_cold_tokens", layer ++ ".ple.ngram.initialized",
    layer ++ ".ple.ngram.previous0", layer ++ ".ple.ngram.previous1",
    layer ++ ".ple.ngram.segment_length", layer ++ ".ple.convolution_initialized"]

theorem nodup_metadata_names (layer : String) : (metadata_names layer).Nodup := by
  simp [metadata_names]

/-- The names of the arrays of a layer. -/
def array_names (layer : String) : List String :=
  [layer ++ ".linear.convolution", layer ++ ".linear.recurrent",
    layer ++ ".attention.key_weights", layer ++ ".attention.key_scales",
    layer ++ ".attention.key_biases", layer ++ ".attention.value_weights",
    layer ++ ".attention.value_scales", layer ++ ".attention.value_biases",
    layer ++ ".attention.keys", layer ++ ".attention.values", layer ++ ".attention.qsa_raw_keys",
    layer ++ ".attention.qsa_pooled_keys", layer ++ ".ple.convolution"]

theorem sublist_array_names (layer : String) (state : DecoderLayerState A A) :
    ((decoder_arrays layer state).map Prod.fst).Sublist (array_names layer) := by
  have hsplit : array_names layer =
      [layer ++ ".linear.convolution", layer ++ ".linear.recurrent"] ++
        ([layer ++ ".attention.key_weights", layer ++ ".attention.key_scales",
          layer ++ ".attention.key_biases", layer ++ ".attention.value_weights",
          layer ++ ".attention.value_scales", layer ++ ".attention.value_biases"] ++
          [layer ++ ".attention.keys", layer ++ ".attention.values"] ++
          [layer ++ ".attention.qsa_raw_keys"] ++ [layer ++ ".attention.qsa_pooled_keys"]) ++
        [layer ++ ".ple.convolution"] := rfl
  rw [hsplit, decoder_arrays, List.map_append, List.map_append]
  refine (List.Sublist.append ?_ ?_).append ?_
  · rw [linear_arrays]
    split <;> simp
  · rw [attention_arrays]
    split
    · rw [List.map_append, List.map_append]
      refine (List.Sublist.append ?_ (List.Sublist.refl _)).append ?_
      · split
        · rw [List.map_append]
          refine List.Sublist.append (List.Sublist.refl _) ?_
          split <;> simp
        · exact List.sublist_append_right _ _
      · split <;> simp
    · exact List.nil_sublist _
  · rw [ple_arrays]
    split <;> simp

theorem nodup_decoder_arrays (layer : String) (state : DecoderLayerState A A) :
    ((decoder_arrays layer state).map Prod.fst).Nodup := by
  refine (sublist_array_names layer state).nodup ?_
  simp [array_names]

/-- **A file holds the layers that were added to it.** -/
theorem holds_append_decoder {file : MlxSafetensors A} (metadata : List (String × Bytes))
    (arrays : List (String × A)) (hmetadata : Foreign (metadata_names layer) file.metadata_entries)
    (harrays : Foreign (array_names layer) file.array_entries) :
    MlxSafetensors.Holds
      ⟨(append_decoder layer state file).metadata_entries ++ metadata,
        (append_decoder layer state file).array_entries ++ arrays⟩ layer state where
  metadata entry hmem := by
    have hnodup : ((decoder_metadata layer state).map Prod.fst).Nodup := nodup_metadata_names layer
    have hnames : ((decoder_metadata layer state).map Prod.fst).Sublist (metadata_names layer) :=
      List.Sublist.refl _
    rw [MlxSafetensors.metadata, append_decoder, find?_between hnodup hnames hmetadata hmem]
    rfl
  tensor entry hmem := by
    rw [MlxSafetensors.tensor, append_decoder,
      find?_between (nodup_decoder_arrays layer state) (sublist_array_names layer state) harrays
        hmem]

end Holds

end Qwen38
