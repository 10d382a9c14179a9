import Qwen38.Model.Safetensors

/-!
# The configuration of a model

`ModelManifest::load`, as far as it reads `config.json`: the geometry of the text model, the pairs
of the n-gram tables, the lists of layers and experts, and the quantization. Sizes are numbers of 64
bits, divisions are checked, and doubles are those of the JSON parser with the three tests that are
made on them.
-/

namespace Qwen38

open Checked

/-! ### Fields -/

/-- What is asked of doubles. -/
structure FloatTests (D : Type) where
  of_integer : Int → D
  positive : D → Bool
  at_most_one : D → Bool

/-- `as_number`. -/
def Json.get_number {D : Type} (tests : FloatTests D) : Json D → Except String D
  | .integer value => .ok (tests.of_integer value)
  | .number value => .ok value
  | _ => get_or_throw none "a number"

section Fields

variable {D : Type}

/-- `size_value`. -/
def size_value (value : Json D) (name : String) : Load Nat := do
  let integer ← json value.get_integer
  refuse_if (integer < 0 ∨ 2 ^ 64 - 1 < integer) (message ("invalid model config value for " ++ name))
  .ok integer.toNat

/-- `size_value` of a field. -/
def size_at (value : Json D) (key : String) (name : String := key) : Load Nat := do
  let field ← json (value.at_key key)
  size_value field name

/-- `optional_size_value`. -/
def optional_size_value (value : Json D) (key name : String) : Load Nat :=
  match value.find (bytes key) with
  | none => .ok 0
  | some .null => .ok 0
  | some field => size_value field name

/-- A string of a field. -/
def string_at (value : Json D) (key : String) : Load Bytes := do
  let field ← json (value.at_key key)
  json field.get_string

/-- An array of a field. -/
def array_at (value : Json D) (key : String) : Load (List (Json D)) := do
  let field ← json (value.at_key key)
  json field.get_array

/-- A number of a field. -/
def number_at (tests : FloatTests D) (value : Json D) (key : String) : Load D := do
  let field ← json (value.at_key key)
  json (field.get_number tests)

/-- A boolean of a field that may be missing. -/
def optional_boolean (value : Json D) (key : String) (default : Bool) : Load Bool :=
  match value.find (bytes key) with
  | none => .ok default
  | some field => json field.get_boolean

/-- The loops over lists of indices: below a limit, and none twice. `seen` is also the result. -/
def distinct_indices (limit : Nat) (name refusal : String) (items : List (Json D)) : Load (List Nat) :=
  items.foldlM (fun seen item => do
    let index ← size_value item name
    refuse_if (limit ≤ index ∨ index ∈ seen) (message refusal)
    .ok (seen ++ [index])) []

end Fields

/-! ### The text model -/

/-- The fields of `ModelConfig` that are read before the pairs of the n-gram tables. -/
structure TextGeometry (D : Type) where
  text_model_type : Bytes
  hidden_size : Nat
  layer_count : Nat
  expert_count : Nat
  experts_per_token : Nat
  vocabulary_size : Nat
  max_context_tokens : Nat
  mtp_layer_count : Nat
  attention_head_count : Nat
  key_value_head_count : Nat
  head_dimension : Nat
  indexer_head_count : Nat
  indexer_key_value_head_count : Nat
  indexer_head_dimension : Nat
  indexer_budget : Nat
  indexer_compress_ratio : Nat
  hyper_connection_count : Nat
  hyper_connection_low_rank : Nat
  moe_intermediate_size : Nat
  shared_expert_intermediate_size : Nat
  normalize_topk_probability : Bool
  linear_convolution_kernel_size : Nat
  linear_key_head_dimension : Nat
  linear_value_head_dimension : Nat
  linear_key_head_count : Nat
  linear_value_head_count : Nat
  output_gate_type : Bytes
  partial_rotary_factor : D
  rope_theta : D
  ngram_size : Nat
  heads_per_ngram : Nat
  ngram_vocabulary_base : Nat
  ngram_vocabulary_divisor : Nat
  ple_embedding_dimension : Nat
  ple_convolution_kernel_size : Nat

/-- The fields of the pairs. -/
structure NiwakiPle where
  niwaki_ple_pair : Nat := 1
  niwaki_ple_bits : Nat := 0
  niwaki_ple_group_size : Nat := 0

/-- `QuantizationSpec`. -/
structure QuantizationSpec where
  bits : Nat
  group_size : Nat

/-- `VectorQuantizationSpec`. -/
structure VectorQuantizationSpec where
  expert_count : Nat
  output_dimension : Nat
  input_dimension : Nat
  codebook_size : Nat
  vector_dimension : Nat
  group_size : Nat
  packed_bits : Nat

/-- `VectorQuantizedPleSpec`. -/
structure VectorQuantizedPleSpec where
  codebook_size : Nat
  vector_dimension : Nat
  group_size : Nat
  row_bytes : Nat
  keys : List Bytes

/-- `ModelConfig`. -/
structure ModelConfig (D : Type) extends TextGeometry D, NiwakiPle where
  architecture : Bytes
  model_type : Bytes
  ngram_seed : Nat
  end_of_sequence_token : UInt32
  rms_norm_epsilon : D
  layer_types : List Bytes
  ple_layer_ids : List Nat
  quantization_bits : Nat
  quantization_group_size : Nat
  niwaki_maps_unfolded : Bool
  shared_only_layers : List Nat
  retained_experts_by_layer : List (List Nat)
  streamed_expert_cache_bytes : Nat
  streamed_expert_layers : List Nat

section Read

variable {D : Type} (tests : FloatTests D) (buckets : UnorderedMap.BucketOrder Bytes)

/-- The architecture and the type of the model. -/
def read_architecture (root : Json D) : Load (Bytes × Bytes) := do
  let architectures ← array_at root "architectures"
  match architectures with
  | [architecture] => do
    let architecture ← json architecture.get_string
    let model_type ← string_at root "model_type"
    refuse_if (architecture ≠ bytes "Qwen4ExpForConditionalGeneration" ∨ model_type ≠ bytes "qwen4_exp")
      (message "unsupported architecture: " (architecture ++ bytes " / " ++ model_type))
    .ok (architecture, model_type)
  | _ => .error (.thrown (message "expected exactly one model architecture"))

/-- The text model, up to the n-gram tables. -/
def read_geometry (text : Json D) : Load (TextGeometry D) := do
  let text_model_type ← string_at text "model_type"
  let hidden_size ← size_at text "hidden_size"
  let layer_count ← size_at text "num_hidden_layers"
  let expert_count ← size_at text "num_experts"
  let experts_per_token ← size_at text "num_experts_per_tok"
  let vocabulary_size ← size_at text "vocab_size"
  let max_context_tokens ← size_at text "max_position_embeddings"
  let mtp_layer_count ← size_at text "mtp_num_hidden_layers"
  let attention_head_count ← size_at text "num_attention_heads"
  let key_value_head_count ← size_at text "num_key_value_heads"
  let head_dimension ← size_at text "head_dim"
  let indexer_head_count ← size_at text "indexer_n_heads"
  let indexer_key_value_head_count ← size_at text "indexer_kv_heads"
  let indexer_head_dimension ← size_at text "indexer_head_dim"
  let indexer_budget ← size_at text "indexer_budget"
  let indexer_compress_ratio ← size_at text "indexer_compress_ratio"
  refuse_if (indexer_head_count = 0 ∨ indexer_key_value_head_count ≠ 1 ∨ indexer_head_dimension = 0 ∨
    indexer_compress_ratio = 0 ∨ indexer_budget = 0) (message "unsupported Qwen3.8 QSA geometry")
  let rest ← mod indexer_budget indexer_compress_ratio
  refuse_if (rest ≠ 0) (message "unsupported Qwen3.8 QSA geometry")
  let hyper_connection_count ← size_at text "hc_count"
  let hyper_connection_low_rank ← size_at text "hc_lowrank"
  let moe_intermediate_size ← size_at text "moe_intermediate_size"
  let shared_expert_intermediate_size ← size_at text "shared_expert_intermediate_size"
  let normalize_topk_probability ← optional_boolean text "norm_topk_prob" true
  let linear_convolution_kernel_size ← size_at text "linear_conv_kernel_dim"
  let linear_key_head_dimension ← size_at text "linear_key_head_dim"
  let linear_value_head_dimension ← size_at text "linear_value_head_dim"
  let linear_key_head_count ← size_at text "linear_num_key_heads"
  let linear_value_head_count ← size_at text "linear_num_value_heads"
  let output_gate_type ← string_at text "output_gate_type"
  refuse_if (output_gate_type ≠ bytes "sigmoid" ∧ output_gate_type ≠ bytes "silu")
    (message "unsupported output_gate_type")
  let partial_rotary_factor ← number_at tests text "partial_rotary_factor"
  let rope_parameters ← json (text.at_key "rope_parameters")
  let rope_theta ← number_at tests rope_parameters "rope_theta"
  refuse_if (¬(tests.positive partial_rotary_factor ∧ tests.at_most_one partial_rotary_factor) ∨
    ¬tests.positive rope_theta) (message "invalid rotary configuration")
  let ngram_size ← size_at text "ngram_size"
  let heads_per_ngram ← size_at text "heads_per_ngram"
  let ngram_vocabulary_base ← size_at text "ngram_vocab_size_base"
  let ngram_vocabulary_divisor ← size_at text "make_ngram_vocab_size_divisible_by"
  let ple_embedding_dimension ← size_at text "ple_embed_dim"
  let ple_convolution_kernel_size ← size_at text "ple_conv_kernel_size"
  .ok { text_model_type, hidden_size, layer_count, expert_count, experts_per_token, vocabulary_size,
        max_context_tokens, mtp_layer_count, attention_head_count, key_value_head_count,
        head_dimension, indexer_head_count, indexer_key_value_head_count, indexer_head_dimension,
        indexer_budget, indexer_compress_ratio, hyper_connection_count, hyper_connection_low_rank,
        moe_intermediate_size, shared_expert_intermediate_size, normalize_topk_probability,
        linear_convolution_kernel_size, linear_key_head_dimension, linear_value_head_dimension,
        linear_key_head_count, linear_value_head_count, output_gate_type, partial_rotary_factor,
        rope_theta, ngram_size, heads_per_ngram, ngram_vocabulary_base, ngram_vocabulary_divisor,
        ple_embedding_dimension, ple_convolution_kernel_size }

/-- The pairs of the n-gram tables. -/
def read_niwaki_ple (text : Json D) (geometry : TextGeometry D) : Load NiwakiPle :=
  match text.find (bytes "niwaki_ple_pair") with
  | none => .ok {}
  | some pair => do
    let niwaki_ple_pair ← size_value pair "niwaki_ple_pair"
    let quantization ← json (text.at_key "niwaki_ple_quant")
    let niwaki_ple_bits ← size_at quantization "bits" "niwaki_ple_quant.bits"
    let niwaki_ple_group_size ← size_at quantization "group_size" "niwaki_ple_quant.group_size"
    let physical_dimension ← div (niwaki_ple_pair * geometry.ple_embedding_dimension % 2 ^ 64)
      (geometry.heads_per_ngram * 2 % 2 ^ 64)
    refuse_if (niwaki_ple_pair < 2 ∨ niwaki_ple_bits < 2 ∨ 8 < niwaki_ple_bits ∨
      niwaki_ple_group_size = 0) (message "unsupported Niwaki paired PLE geometry")
    let rest ← mod physical_dimension niwaki_ple_group_size
    refuse_if (rest ≠ 0 ∨ physical_dimension * niwaki_ple_bits % 2 ^ 64 % 32 ≠ 0)
      (message "unsupported Niwaki paired PLE geometry")
    .ok { niwaki_ple_pair, niwaki_ple_bits, niwaki_ple_group_size }

/-- The types of the layers. -/
def read_layer_types (text : Json D) (layer_count : Nat) : Load (List Bytes) := do
  let items ← array_at text "layer_types"
  let layer_types ← items.mapM fun layer_type => do
    let type ← json layer_type.get_string
    refuse_if (type ≠ bytes "linear_attention" ∧ type ≠ bytes "full_attention")
      (message "unsupported layer type: " type)
    .ok type
  refuse_if (layer_types.length ≠ layer_count)
    (message "layer_types count does not match num_hidden_layers")
  .ok layer_types

/-- The layers with n-gram embeddings, counted from one. -/
def read_ple_layer_ids (text : Json D) (layer_count : Nat) : Load (List Nat) := do
  let items ← array_at text "ple_layer_ids"
  items.mapM fun layer_id => do
    let one_based ← size_value layer_id "ple_layer_ids"
    refuse_if (one_based = 0 ∨ layer_count < one_based) (message "PLE layer id is out of range")
    .ok one_based

/-- The seed of the n-gram hash. -/
def read_seed (text : Json D) : Load Nat :=
  match text.find (bytes "seed") with
  | none => .ok 1234
  | some seed => size_value seed "seed"

/-- The quantization metadata, under either name. -/
def find_quantization (root : Json D) : Load (Json D) :=
  match (root.find (bytes "quantization")).or (root.find (bytes "quantization_config")) with
  | some quantization => .ok quantization
  | none => .error (.thrown (message "model is missing quantization metadata"))

/-- The quantization, and the overrides for modules. -/
def read_quantization (root : Json D) :
    Load (QuantizationSpec × UnorderedMap Bytes QuantizationSpec) := do
  let quantization ← find_quantization root
  let quantization_bits ← size_at quantization "bits" "quantization.bits"
  let quantization_group_size ← size_at quantization "group_size" "quantization.group_size"
  let modules ← json quantization.get_object
  let overrides ← (iterate buckets modules).foldlM (fun overrides (module, value) =>
    match value.find (bytes "bits"), value.find (bytes "group_size") with
    | some bits, some group_size => do
      let bits ← size_value bits "quantization override bits"
      let group_size ← size_value group_size "quantization override group_size"
      refuse_if (bits < 2 ∨ 8 < bits ∨ group_size = 0)
        (message "invalid quantization override for " module)
      .ok (UnorderedMap.emplace buckets overrides module { bits, group_size })
    | _, _ => .ok overrides) ∅
  .ok ({ bits := quantization_bits, group_size := quantization_group_size }, overrides)

/-- A vector-quantised module. -/
def read_vq_module (model_expert_count : Nat) (module : Bytes) (value : Json D) :
    Load VectorQuantizationSpec := do
  let expert_count ← size_at value "experts" "vq_modules.experts"
  let output_dimension ← size_at value "out" "vq_modules.out"
  let input_dimension ← size_at value "in" "vq_modules.in"
  let codebook_size ← size_at value "k" "vq_modules.k"
  let vector_dimension ← size_at value "dim" "vq_modules.dim"
  let group_size ← size_at value "group" "vq_modules.group"
  let packed_bits ← optional_size_value value "pack_bits" "vq_modules.pack_bits"
  let unsupported := message "unsupported vector quantization geometry for " module
  refuse_if (expert_count ≠ model_expert_count ∨ output_dimension = 0 ∨ input_dimension = 0 ∨
    codebook_size < 2 ∨ vector_dimension = 0 ∨ group_size = 0) unsupported
  let rest ← mod input_dimension vector_dimension
  refuse_if (rest ≠ 0) unsupported
  let rest ← mod input_dimension group_size
  refuse_if (rest ≠ 0 ∨ packed_bits ≠ 0 ∧ 31 < packed_bits) unsupported
  .ok { expert_count, output_dimension, input_dimension, codebook_size, vector_dimension, group_size,
        packed_bits }

/-- The vector-quantised modules. -/
def read_vq_modules (root : Json D) (expert_count : Nat) :
    Load (UnorderedMap Bytes VectorQuantizationSpec) :=
  match root.find (bytes "vq_modules") with
  | none => .ok ∅
  | some modules => do
    let modules ← json modules.get_object
    (iterate buckets modules).foldlM (fun specs (module, value) => do
      let spec ← read_vq_module expert_count module value
      .ok (UnorderedMap.emplace buckets specs module spec)) ∅

/-- The vector-quantised n-gram table. -/
def read_vq_ple (root : Json D) : Load (Option VectorQuantizedPleSpec) :=
  match root.find (bytes "vq_ple") with
  | none => .ok none
  | some ple => do
    let geometry ← json (ple.at_key "geometry")
    let codebook_size ← size_at geometry "k" "vq_ple.geometry.k"
    let vector_dimension ← size_at geometry "dim" "vq_ple.geometry.dim"
    let group_size ← size_at geometry "group" "vq_ple.geometry.group"
    let row_bytes ← size_at geometry "row_bytes" "vq_ple.geometry.row_bytes"
    let keys ← array_at ple "keys"
    let keys ← keys.mapM fun key => json key.get_string
    refuse_if (codebook_size < 2 ∨ vector_dimension = 0 ∨ group_size = 0 ∨ row_bytes = 0 ∨ keys = [])
      (message "unsupported vector-quantized PLE geometry")
    .ok (some { codebook_size, vector_dimension, group_size, row_bytes, keys })

/-- The maps, and the layers without routed experts. -/
def read_niwaki (root : Json D) (layer_count : Nat) : Load (Bool × List Nat) :=
  match root.find (bytes "niwaki") with
  | none => .ok (false, [])
  | some niwaki => do
    let maps_unfolded ← optional_boolean niwaki "maps_unfolded" false
    match niwaki.find (bytes "shared_only_layers") with
    | none => .ok (maps_unfolded, [])
    | some layers => do
      let layers ← json layers.get_array
      let layers ← distinct_indices layer_count "niwaki.shared_only_layers"
        "invalid Niwaki shared-only layer index" layers
      .ok (maps_unfolded, layers)

/-- `std::from_chars` of a whole text into a `std::size_t`. -/
def layer_of_text (text : Bytes) : Option Nat :=
  if text ≠ [] ∧ text.all Json.is_digit ∧ Json.digits_value text < 2 ^ 64 then
    some (Json.digits_value text)
  else none

/-- `std::sort`. -/
def sorted (l : List Nat) : List Nat := l.insertionSort (· ≤ ·)

/-- The experts of a key: they are added to those of its layer. -/
def retain_experts (geometry : TextGeometry D) (retained_by_layer : List (List Nat))
    (mask : Bytes × Json D) : Load (List (List Nat)) :=
  match layer_of_text mask.1 with
  | none => .error (.thrown (message "invalid expert-mask layer index"))
  | some layer => do
    refuse_if (geometry.layer_count ≤ layer) (message "invalid expert-mask layer index")
    let experts ← json mask.2.get_array
    let experts ← distinct_indices geometry.expert_count "qwen38_expert_keep expert index"
      "invalid retained expert index" experts
    let retained := retained_by_layer.getD layer [] ++ experts
    refuse_if (retained.length < geometry.experts_per_token ∨ retained.length = geometry.expert_count)
      (message "expert mask must retain between top-k and expert_count - 1 experts")
    .ok (retained_by_layer.set layer (sorted retained))

/-- The experts that the layers keep. -/
def read_expert_keep (root : Json D) (geometry : TextGeometry D) : Load (List (List Nat)) :=
  match root.find (bytes "qwen38_expert_keep") with
  | none => .ok []
  | some masks => do
    let masks ← json masks.get_object
    (iterate buckets masks).foldlM (retain_experts geometry) (List.replicate geometry.layer_count [])

/-- The streamed layers. -/
def read_streaming (root : Json D) (layer_count : Nat) : Load (Nat × List Nat) :=
  match root.find (bytes "qwen38_streaming") with
  | none => .ok (0, [])
  | some streaming => do
    let cache_bytes ← size_at streaming "expert_cache_bytes" "qwen38_streaming.expert_cache_bytes"
    let layers ← array_at streaming "layers"
    let layers ← distinct_indices layer_count "qwen38_streaming.layers"
      "invalid streamed expert layer index" layers
    refuse_if (cache_bytes = 0 ∨ layers = [])
      (message "streamed experts require layers and a cache budget")
    .ok (cache_bytes, sorted layers)

end Read

end Qwen38
