import Qwen38.Model.Config

/-!
# The manifest of a model

`ModelManifest::load`: the configuration, the map from tensors to shards, and the sidecars that
extend it. What an accepted manifest is like is `Qwen38.ModelManifest.WellFormed`. Two keys of
`qwen38_expert_keep` may denote one layer, as `3` and `03` do, and their lists are then joined; that
is the one way in which an accepted manifest can fail to be well formed
(`Qwen38.accepted_well_formed_iff`).
-/

namespace Qwen38

open Checked

/-- The directory of a model. The two texts in it come as what `Json::parse(read_text(..))`
gives. -/
structure ModelDirectory (D : Type) where
  path : Bytes
  is_directory : Bool
  config : Except Bytes (Json D)
  index : Except Bytes (Json D)
  files : Bytes → Option MappedFile

/-- `ModelManifest`. -/
structure ModelManifest (D : Type) where
  config : ModelConfig D
  weight_map : UnorderedMap Bytes Bytes
  quantization_overrides : UnorderedMap Bytes QuantizationSpec
  vector_quantization : UnorderedMap Bytes VectorQuantizationSpec
  vector_quantized_ple : Option VectorQuantizedPleSpec
  declared_weight_bytes : Nat

/-- What the shards and the sidecars add to. -/
structure Tensors where
  weight_map : UnorderedMap Bytes Bytes
  quantization_overrides : UnorderedMap Bytes QuantizationSpec
  declared_weight_bytes : Nat

section Load

variable (numbers : NumberText) (tests : FloatTests numbers.Double)
  (buckets : UnorderedMap.BucketOrder Bytes) (directory : ModelDirectory numbers.Double)

/-- `is_regular_file`. -/
def ModelDirectory.is_regular_file {D : Type} (directory : ModelDirectory D) (name : Bytes) : Bool :=
  (directory.files name).isSome

/-- The weight map of the index, and the shards in it. -/
def read_weight_map {D : Type} (external_shards : Bool) (entries : List (Bytes × Json D)) :
    Load (UnorderedMap Bytes Bytes × List Bytes) :=
  (iterate buckets entries).foldlM (fun (weight_map, shards) (tensor_name, shard_value) => do
    let shard ← json shard_value.get_string
    let nested := shard.contains 47 || shard.contains 92
    refuse_if (tensor_name = [] ∨ shard = [] ∨ shard.head? = some 47 ∨ nested ∧ ¬external_shards)
      (message "invalid model shard mapping for " tensor_name)
    .ok (UnorderedMap.emplace buckets weight_map tensor_name shard, shards ++ [shard])) (∅, [])

/-- The index of the shards. -/
def read_index (external_shards : Bool) (overrides : UnorderedMap Bytes QuantizationSpec) :
    Load Tensors := do
  let index ← lift id directory.index
  let metadata ← json (index.at_key "metadata")
  let total_size ← json (metadata.at_key "total_size")
  let declared_weight_bytes ← json total_size.get_integer
  refuse_if (declared_weight_bytes < 0) (message "model index declares a negative total size")
  let entries ← json (index.at_key "weight_map")
  let entries ← json entries.get_object
  let (weight_map, shards) ← read_weight_map buckets external_shards entries
  refuse_if (weight_map.entries = []) (message "model weight map is empty")
  shards.forM fun shard =>
    refuse_if (¬directory.is_regular_file shard) (message "model shard is missing: " shard)
  .ok ⟨weight_map, overrides, declared_weight_bytes.toNat⟩

/-- The tensors of a sidecar: none of them is in the map. -/
def add_tensors (sidecar : Bytes) (may_be_empty : Bool) (refusal : String) (names : List Bytes)
    (weight_map : UnorderedMap Bytes Bytes) : Load (UnorderedMap Bytes Bytes) :=
  names.foldlM (fun weight_map tensor_name => do
    refuse_if (¬may_be_empty ∧ tensor_name = [] ∨ tensor_name ∈ weight_map) (message refusal tensor_name)
    .ok (UnorderedMap.put buckets weight_map tensor_name sidecar)) weight_map

/-- The names of the tensors of a file. -/
def SafetensorsFile.names (index : SafetensorsFile) : List Bytes :=
  index.tensors.entries.map Sigma.fst

/-- The three sidecars with compact metadata. -/
def qmeta_sidecars : List Bytes :=
  [bytes "model-qmeta-lossless16.safetensors", bytes "model-qmeta-lossless13.safetensors",
    bytes "model-qmeta-joint9.safetensors"]

/-- A sidecar with compact metadata. -/
def add_qmeta (tensors : Tensors) (qmeta_sidecar : Bytes) : Load Tensors :=
  match directory.files qmeta_sidecar with
  | none => .ok tensors
  | some file => do
    let qmeta ← SafetensorsFile.read numbers buckets (directory.path ++ 47 :: qmeta_sidecar) file
    let weight_map ← add_tensors buckets qmeta_sidecar false
      "compact qmeta sidecar duplicates a model tensor: " qmeta.names tensors.weight_map
    .ok { tensors with weight_map }

/-- The tensors that the native MTP head needs. -/
def required_mtp_tensors : List String :=
  ["norm_e.weight", "norm_h.weight", "fc.weight", "block.self_attn.q_proj.weight",
    "block.mlp.switch_mlp.gate_proj.weight", "block.attn_hyper_connection.hc_norm.weight",
    "mixer.hc_norm.weight"]

/-- The overrides for the modules with scales. -/
def override_scales (names : List Bytes) (overrides : UnorderedMap Bytes QuantizationSpec) :
    UnorderedMap Bytes QuantizationSpec :=
  names.foldl (fun overrides name =>
    if bytes ".scales" <:+ name then
      UnorderedMap.put buckets overrides (name.take (name.length - 7)) { bits := 6, group_size := 32 }
    else overrides) overrides

def mtp_sidecar : Bytes := bytes "mtp-head-q6.safetensors"

/-- The size of a sidecar, as part of the model. -/
def add_size (declared_weight_bytes : Nat) (file : MappedFile) (refusal : String) : Load Nat := do
  refuse_if (2 ^ 64 - 1 - declared_weight_bytes < file.bytes.length) (message refusal)
  .ok (declared_weight_bytes + file.bytes.length)

/-- The sidecar with the native MTP head. -/
def add_mtp (tensors : Tensors) : Load Tensors :=
  match directory.files mtp_sidecar with
  | none => .ok tensors
  | some file => do
    let mtp ← SafetensorsFile.read numbers buckets (directory.path ++ 47 :: mtp_sidecar) file
    required_mtp_tensors.forM fun name =>
      refuse_if (¬mtp.contains (bytes name)) (message ("native MTP sidecar is missing tensor: " ++ name))
    let weight_map ← add_tensors buckets mtp_sidecar false
      "native MTP sidecar duplicates a model tensor: " mtp.names tensors.weight_map
    let declared_weight_bytes ← add_size tensors.declared_weight_bytes file
      "native MTP sidecar size overflows model size"
    .ok ⟨weight_map, override_scales buckets mtp.names tensors.quantization_overrides,
      declared_weight_bytes⟩

def mtp_lm_head_sidecar : Bytes := bytes "mtp-lm-head-q4.safetensors"

/-- `validate`. -/
def validate (sidecar : SafetensorsFile) (name : String) (dtype : String) (shape : List Nat) :
    Load Unit :=
  refuse_if (¬(sidecar.tensors.lookup (bytes name)).any fun found =>
      found.dtype = bytes dtype ∧ found.shape = shape)
    (message ("invalid Q4 MTP language-head tensor: " ++ name))

/-- The sidecar with the language head of the drafter. -/
def add_mtp_lm_head {D : Type} (config : ModelConfig D) (tensors : Tensors) : Load Tensors :=
  match directory.files mtp_lm_head_sidecar with
  | none => .ok tensors
  | some file => do
    refuse_if (¬directory.is_regular_file mtp_sidecar)
      (message "Q4 MTP language-head sidecar requires the native MTP sidecar")
    refuse_if (config.hidden_size % 64 ≠ 0)
      (message "Q4 MTP language-head width must be divisible by 64")
    let sidecar ← SafetensorsFile.read numbers buckets (directory.path ++ 47 :: mtp_lm_head_sidecar) file
    validate sidecar "mtp_lm_head.weight" "U32" [config.vocabulary_size, config.hidden_size / 8]
    validate sidecar "mtp_lm_head.scales" "BF16" [config.vocabulary_size, config.hidden_size / 64]
    validate sidecar "mtp_lm_head.biases" "BF16" [config.vocabulary_size, config.hidden_size / 64]
    let weight_map ← add_tensors buckets mtp_lm_head_sidecar true
      "Q4 MTP language-head sidecar duplicates a model tensor: "
      (sidecar.names.filter (· ≠ bytes "__metadata__")) tensors.weight_map
    let declared_weight_bytes ← add_size tensors.declared_weight_bytes file
      "Q4 MTP language-head sidecar size overflows model size"
    .ok ⟨weight_map, UnorderedMap.put buckets tensors.quantization_overrides (bytes "mtp_lm_head")
      { bits := 4, group_size := 64 }, declared_weight_bytes⟩

/-- The configuration, behind the pairs of the n-gram tables. -/
def read_config (root text : Json numbers.Double) (architecture : Bytes × Bytes)
    (geometry : TextGeometry numbers.Double) (niwaki_ple : NiwakiPle) :
    Load (ModelManifest numbers.Double) := do
  let ngram_seed ← read_seed text
  let end_of_sequence_token ← size_at text "eos_token_id"
  refuse_if (geometry.ngram_size ≠ 3 ∨ geometry.heads_per_ngram ≠ 8 ∨
    geometry.ple_embedding_dimension ≠ geometry.hidden_size)
    (message "unsupported Qwen3.8 PLE geometry")
  let rms_norm_epsilon ← number_at tests text "rms_norm_eps"
  refuse_if (¬tests.positive rms_norm_epsilon) (message "rms_norm_eps must be positive")
  let layer_types ← read_layer_types text geometry.layer_count
  let ple_layer_ids ← read_ple_layer_ids text geometry.layer_count
  let (quantization, quantization_overrides) ← read_quantization buckets root
  let vector_quantization ← read_vq_modules buckets root geometry.expert_count
  let vector_quantized_ple ← read_vq_ple root
  let (niwaki_maps_unfolded, shared_only_layers) ← read_niwaki root geometry.layer_count
  let retained_experts_by_layer ← read_expert_keep buckets root geometry
  let (streamed_expert_cache_bytes, streamed_expert_layers) ← read_streaming root geometry.layer_count
  .ok {
    config := { geometry, niwaki_ple with
      architecture := architecture.1
      model_type := architecture.2
      ngram_seed
      end_of_sequence_token := .ofNat end_of_sequence_token
      rms_norm_epsilon
      layer_types
      ple_layer_ids
      quantization_bits := quantization.bits
      quantization_group_size := quantization.group_size
      niwaki_maps_unfolded
      shared_only_layers
      retained_experts_by_layer
      streamed_expert_cache_bytes
      streamed_expert_layers }
    weight_map := ∅
    quantization_overrides
    vector_quantization
    vector_quantized_ple
    declared_weight_bytes := 0 }

/-- The shards and the sidecars. -/
def read_tensors (external_shards : Bool) (manifest : ModelManifest numbers.Double) :
    Load (ModelManifest numbers.Double) := do
  let tensors ← read_index numbers buckets directory external_shards manifest.quantization_overrides
  let tensors ← qmeta_sidecars.foldlM (add_qmeta numbers buckets directory) tensors
  let tensors ← add_mtp numbers buckets directory tensors
  let tensors ← add_mtp_lm_head numbers buckets directory manifest.config tensors
  .ok { manifest with
    weight_map := tensors.weight_map
    quantization_overrides := tensors.quantization_overrides
    declared_weight_bytes := tensors.declared_weight_bytes }

/-- `ModelManifest::load`. -/
def ModelManifest.load : Load (ModelManifest numbers.Double) := do
  refuse_if (¬directory.is_directory) (message "model path is not a directory: " directory.path)
  let root ← lift id directory.config
  let external_shards ← optional_boolean root "qwen38_external_shards" false
  let architecture ← read_architecture root
  let text ← json (root.at_key "text_config")
  let geometry ← read_geometry tests text
  let niwaki_ple ← read_niwaki_ple text geometry
  let manifest ← read_config numbers tests buckets root text architecture geometry niwaki_ple
  read_tensors numbers buckets directory external_shards manifest

end Load

end Qwen38
