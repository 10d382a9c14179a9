import Qwen38.Layer.NgramRanges
import Qwen38.Model.WellFormed

/-!
# The divisions of loading

`ModelManifest::load` and then `NgramHash`, with every division checked. Two of the divisors come
from `config.json` and are divided by before anything is known of them: the number of heads in the
pairs of the n-gram tables, and the divisor that the rows are padded to. All others have been
compared with zero (`Qwen38.ends_load_and_hash_iff`).
-/

namespace Qwen38

open Checked

/-! ### The hash -/

/-- The loop of `is_prime`. -/
def checked_divides_none : Nat → Nat → Nat → Load Bool
  | 0, _, _ => .ok true
  | fuel + 1, divisor, value => do
    let quotient ← div value divisor
    if divisor ≤ quotient then do
      let rest ← mod value divisor
      if rest = 0 then .ok false else checked_divides_none fuel (divisor + 2) value
    else .ok true

/-- `is_prime`. -/
def checked_is_prime (value : Nat) : Load Bool :=
  if value < 2 then .ok false
  else do
    let rest ← mod value 2
    if rest = 0 then .ok (value == 2) else checked_divides_none value 3 value

/-- The `do` loop of `nth_prime_after`. -/
def checked_next_prime : Nat → UInt64 → Load UInt64
  | 0, value => .ok value
  | fuel + 1, value => do
    let prime ← checked_is_prime (value + 1).toNat
    if prime then .ok (value + 1) else checked_next_prime fuel (value + 1)

/-- `nth_prime_after`. -/
def checked_nth_prime_after (start : UInt64) : Nat → Load UInt64
  | 0 => .ok start
  | count + 1 => do
    let value ← checked_nth_prime_after start count
    checked_next_prime (2 ^ 64) value

/-- What `NgramHash` makes of a configuration: the multipliers, the rows of the heads, and all
rows. -/
def NgramHash.create (config : NgramConfig) : Load (List UInt64 × List UInt64 × UInt64) := do
  let quotient ← div (((1 : UInt64) <<< 63) - 1) (max config.vocabulary_size 1)
  let half ← div quotient 2
  let half_bound := max 1 half
  let multipliers ← (List.range 3).mapM fun index => do
    let value := config.ngram_seed + 0x9E3779B97F4A7C15 * (UInt64.ofNat index + 1)
    let rest ← mod (splitmix64 value) half_bound
    .ok (2 * rest + 1)
  let sizes ← (List.range 16).mapM fun index =>
    checked_nth_prime_after (config.ngram_vocabulary_base - 1) (index + 1)
  let total := sizes.foldl (· + ·) 0
  let divisor := config.ngram_vocabulary_divisor
  let groups ← div (total + divisor - 1) divisor
  .ok (multipliers, sizes, groups * divisor)

/-- The configuration of the hash. -/
def ModelConfig.ngram {D : Type} (config : ModelConfig D) : NgramConfig where
  vocabulary_size := .ofNat config.vocabulary_size
  ngram_vocabulary_base := .ofNat config.ngram_vocabulary_base
  ngram_vocabulary_divisor := .ofNat config.ngram_vocabulary_divisor
  ngram_seed := .ofNat config.ngram_seed
  end_of_sequence_token := config.end_of_sequence_token

/-- `ModelManifest::load`, and `NgramHash` of what it returns. -/
def load_and_hash (numbers : NumberText) (tests : FloatTests numbers.Double)
    (buckets : UnorderedMap.BucketOrder Bytes) (directory : ModelDirectory numbers.Double) :
    Load (List UInt64 × List UInt64 × UInt64) := do
  let manifest ← ModelManifest.load numbers tests buckets directory
  NgramHash.create manifest.config.ngram

section Hash

theorem checked_divides_none_eq {fuel divisor value : Nat} (h : divisor ≠ 0) :
    checked_divides_none fuel divisor value = .ok (divides_none fuel divisor value) := by
  induction fuel generalizing divisor with
  | zero => rfl
  | succ fuel ih =>
    rw [checked_divides_none, divides_none, div_eq h, Except.ok_bind, mod_eq h]
    split
    · rw [Except.ok_bind]
      split
      · rfl
      · exact ih (Nat.succ_ne_zero _)
    · rfl

theorem checked_is_prime_eq (value : Nat) : checked_is_prime value = .ok (is_prime value) := by
  rw [checked_is_prime, is_prime]
  split
  · rfl
  · rw [mod_eq (by decide), Except.ok_bind]
    split
    · rfl
    · exact checked_divides_none_eq (by decide)

theorem checked_next_prime_eq (fuel : Nat) (value : UInt64) :
    checked_next_prime fuel value = .ok (next_prime fuel value) := by
  induction fuel generalizing value with
  | zero => rfl
  | succ fuel ih =>
    rw [checked_next_prime, next_prime, checked_is_prime_eq, Except.ok_bind]
    split
    · rfl
    · exact ih _

theorem checked_nth_prime_after_eq (start : UInt64) (count : Nat) :
    checked_nth_prime_after start count = .ok (nth_prime_after start count) := by
  induction count with
  | zero => rfl
  | succ count ih =>
    rw [checked_nth_prime_after, ih, Except.ok_bind, checked_next_prime_eq, nth_prime_after]

/-- A loop of which every pass returns. -/
theorem mapM_eq_map {α β : Type} {f : α → Load β} {g : α → β} (h : ∀ a, f a = .ok (g a)) (l : List α) :
    l.mapM f = .ok (l.map g) := by
  induction l with
  | nil => rfl
  | cons a l ih =>
    rw [List.mapM_cons, h, Except.ok_bind, ih]
    rfl

theorem one_le_half_bound (config : NgramConfig) : config.half_bound ≠ 0 := by
  intro hzero
  have hnat := congrArg UInt64.toNat hzero
  rw [NgramConfig.half_bound, NgramConfig.Fits.toNat_max] at hnat
  have hone : (1 : UInt64).toNat = 1 := rfl
  rw [hone, UInt64.toNat_zero] at hnat
  omega

/-- **The hash divides by the divisor of the configuration**, and by nothing else that may be
zero. -/
theorem NgramHash.create_eq (config : NgramConfig) : NgramHash.create config =
    if config.ngram_vocabulary_divisor = 0 then .error .divided_by_zero
    else .ok ((List.range 3).map config.multiplier, (List.range 16).map config.head_size,
      config.total_rows) := by
  have hvocabulary : max config.vocabulary_size 1 ≠ 0 := by
    intro hzero
    have hnat := congrArg UInt64.toNat hzero
    rw [NgramConfig.Fits.toNat_max] at hnat
    have hone : (1 : UInt64).toNat = 1 := rfl
    rw [hone, UInt64.toNat_zero] at hnat
    omega
  have hmultiplier : ∀ index, (do
      let value := config.ngram_seed + 0x9E3779B97F4A7C15 * (UInt64.ofNat index + 1)
      let rest ← mod (splitmix64 value) config.half_bound
      (.ok (2 * rest + 1) : Load UInt64)) = .ok (config.multiplier index) := by
    intro index
    simp only [mod_eq (one_le_half_bound config), Except.ok_bind, NgramConfig.multiplier]
  have htotal : ((List.range 16).map config.head_size).foldl (· + ·) 0 = config.total_before 16 := by
    simp only [List.range, List.range.loop, List.map_cons, List.map_nil, List.foldl_cons,
      List.foldl_nil, NgramConfig.total_before]
  rw [NgramHash.create, div_eq hvocabulary, Except.ok_bind, div_eq (by decide), Except.ok_bind]
  change ((List.range 3).mapM fun index => do
      let value := config.ngram_seed + 0x9E3779B97F4A7C15 * (UInt64.ofNat index + 1)
      let rest ← mod (splitmix64 value) config.half_bound
      (.ok (2 * rest + 1) : Load UInt64)) >>= _ = _
  rw [mapM_eq_map hmultiplier, Except.ok_bind,
    mapM_eq_map fun index => checked_nth_prime_after_eq _ (index + 1), Except.ok_bind]
  change div (((List.range 16).map config.head_size).foldl (· + ·) 0 +
    config.ngram_vocabulary_divisor - 1) config.ngram_vocabulary_divisor >>= _ = _
  rw [htotal]
  by_cases hdivisor : config.ngram_vocabulary_divisor = 0
  · rw [if_pos hdivisor, div, if_pos hdivisor]
    rfl
  · rw [if_neg hdivisor, div_eq hdivisor]
    rfl

end Hash

/-! ### Reading without divisions by zero -/

section Readers

variable {D : Type}

theorem safe_json {α : Type} (x : Except String α) : Safe (json x) := safe_lift bytes x

theorem safe_size_value (value : Json D) (name : String) : Safe (size_value value name) :=
  (safe_json _).bind fun _ => (safe_refuse_if _ _).bind fun _ => Safe.ok _

theorem safe_size_at (value : Json D) (key name : String) : Safe (size_at value key name) :=
  (safe_json _).bind fun field => safe_size_value field name

theorem safe_optional_size_value (value : Json D) (key name : String) :
    Safe (optional_size_value value key name) := by
  rw [optional_size_value]
  split
  · exact Safe.ok 0
  · exact Safe.ok 0
  · exact safe_size_value _ name

theorem safe_string_at (value : Json D) (key : String) : Safe (string_at value key) :=
  (safe_json _).bind fun _ => safe_json _

theorem safe_array_at (value : Json D) (key : String) : Safe (array_at value key) :=
  (safe_json _).bind fun _ => safe_json _

theorem safe_number_at (tests : FloatTests D) (value : Json D) (key : String) :
    Safe (number_at tests value key) :=
  (safe_json _).bind fun _ => safe_json _

theorem safe_optional_boolean (value : Json D) (key : String) (default : Bool) :
    Safe (optional_boolean value key default) := by
  rw [optional_boolean]
  split
  · exact Safe.ok default
  · exact safe_json _

theorem safe_distinct_indices (limit : Nat) (name refusal : String) (items : List (Json D)) :
    Safe (distinct_indices limit name refusal items) :=
  Safe.foldlM (fun _ item => (safe_size_value item name).bind fun _ =>
    (safe_refuse_if _ _).bind fun _ => Safe.ok _) items []

theorem safe_read_architecture (root : Json D) : Safe (read_architecture root) := by
  refine (safe_array_at root _).bind fun architectures => ?_
  split
  · refine (safe_json _).bind fun architecture => (safe_string_at root _).bind fun model_type => ?_
    exact (safe_refuse_if _ _).bind fun _ => Safe.ok _
  · exact Safe.thrown _

/-- The geometry of the attention index is compared with zero before it is divided by. -/
theorem safe_read_geometry (tests : FloatTests D) (text : Json D) : Safe (read_geometry tests text) := by
  rw [read_geometry]
  refine (safe_string_at text _).bind fun _ => ?_
  iterate 14 refine (safe_size_at text _ _).bind fun _ => ?_
  refine (safe_size_at text _ _).bind fun ratio => Ends.bind (ends_refuse_if _ _) fun _ hgeometry => ?_
  have hratio : ratio ≠ 0 := fun hzero => hgeometry (Or.inr (Or.inr (Or.inr (Or.inl hzero))))
  rw [mod_eq hratio, Except.ok_bind]
  refine (safe_refuse_if _ _).bind fun _ => ?_
  iterate 4 refine (safe_size_at text _ _).bind fun _ => ?_
  refine (safe_optional_boolean text _ _).bind fun _ => ?_
  iterate 5 refine (safe_size_at text _ _).bind fun _ => ?_
  refine (safe_string_at text _).bind fun _ => (safe_refuse_if _ _).bind fun _ => ?_
  refine (safe_number_at tests text _).bind fun _ => (safe_json _).bind fun rope_parameters => ?_
  refine (safe_number_at tests rope_parameters _).bind fun _ => (safe_refuse_if _ _).bind fun _ => ?_
  iterate 6 refine (safe_size_at text _ _).bind fun _ => ?_
  exact Safe.ok _

/-- **The pairs** divide by twice the heads. -/
theorem safe_read_niwaki_ple_iff (text : Json D) (geometry : TextGeometry D) :
    Safe (read_niwaki_ple text geometry) ↔ ∀ pair quantization pairs bits group_size,
      text.find (bytes "niwaki_ple_pair") = some pair → size_value pair "niwaki_ple_pair" = .ok pairs →
      text.find (bytes "niwaki_ple_quant") = some quantization →
      size_at quantization "bits" "niwaki_ple_quant.bits" = .ok bits →
      size_at quantization "group_size" "niwaki_ple_quant.group_size" = .ok group_size →
      geometry.heads_per_ngram * 2 % 2 ^ 64 ≠ 0 := by
  rw [read_niwaki_ple]
  cases hpair : text.find (bytes "niwaki_ple_pair") with
  | none => exact ⟨fun _ pair _ _ _ _ h => absurd h (by simp), fun _ => Safe.ok _⟩
  | some pair =>
    simp only []
    rw [Safe.bind_iff (safe_size_value pair _)]
    -- the first division is by twice the heads; before the second one a zero has been refused
    have hdivision : ∀ pairs bits group_size, Safe (do
        let physical_dimension ← div (pairs * geometry.ple_embedding_dimension % 2 ^ 64)
          (geometry.heads_per_ngram * 2 % 2 ^ 64)
        refuse_if (pairs < 2 ∨ bits < 2 ∨ 8 < bits ∨ group_size = 0)
          (message "unsupported Niwaki paired PLE geometry")
        let rest ← mod physical_dimension group_size
        refuse_if (rest ≠ 0 ∨ physical_dimension * bits % 2 ^ 64 % 32 ≠ 0)
          (message "unsupported Niwaki paired PLE geometry")
        (.ok ⟨pairs, bits, group_size⟩ : Load NiwakiPle)) ↔
          geometry.heads_per_ngram * 2 % 2 ^ 64 ≠ 0 := by
      intro pairs bits group_size
      constructor
      · intro h hzero
        rw [div, if_pos hzero] at h
        exact h
      · intro hheads
        rw [div_eq hheads, Except.ok_bind]
        refine Ends.bind (ends_refuse_if _ _) fun _ hgeometry => ?_
        have hgroup : group_size ≠ 0 := fun hzero => hgeometry (Or.inr (Or.inr (Or.inr hzero)))
        rw [mod_eq hgroup, Except.ok_bind]
        exact (safe_refuse_if _ _).bind fun _ => Safe.ok _
    constructor
    -- once everything before it has been read, the division is reached
    · intro h other quantization pairs bits group_size hother hpairs hquantization hbits hgroup
      cases hother
      have hrest := h pairs hpairs
      have hat : json (text.at_key "niwaki_ple_quant") = .ok quantization := by
        rw [Json.at_key_eq_ok.mpr hquantization]
        rfl
      rw [hat, Except.ok_bind, hbits, Except.ok_bind, hgroup, Except.ok_bind] at hrest
      exact (hdivision pairs bits group_size).mp hrest
    · intro h pairs hpairs
      refine Ends.bind (ends_lift _ _) fun quantization hquantization => ?_
      refine (Safe.bind_iff (safe_size_at quantization _ _)).mpr fun bits hbits => ?_
      refine (Safe.bind_iff (safe_size_at quantization _ _)).mpr fun group_size hgroup => ?_
      exact (hdivision pairs bits group_size).mpr
        (h pair quantization pairs bits group_size rfl hpairs (Json.at_key_eq_ok.mp hquantization) hbits
          hgroup)

theorem safe_read_seed (text : Json D) : Safe (read_seed text) := by
  rw [read_seed]
  split
  · exact Safe.ok _
  · exact safe_size_value _ _

theorem safe_read_layer_types (text : Json D) (layer_count : Nat) :
    Safe (read_layer_types text layer_count) := by
  refine (safe_array_at text _).bind fun items => (Safe.mapM (fun item => ?_) items).bind fun types => ?_
  · exact (safe_json _).bind fun type => (safe_refuse_if _ _).bind fun _ => Safe.ok type
  · exact (safe_refuse_if _ _).bind fun _ => Safe.ok types

theorem safe_read_ple_layer_ids (text : Json D) (layer_count : Nat) :
    Safe (read_ple_layer_ids text layer_count) := by
  refine (safe_array_at text _).bind fun items => Safe.mapM (fun item => ?_) items
  exact (safe_size_value item _).bind fun _ => (safe_refuse_if _ _).bind fun _ => Safe.ok _

theorem safe_read_quantization (buckets : UnorderedMap.BucketOrder Bytes) (root : Json D) :
    Safe (read_quantization buckets root) := by
  have hfind : Safe (find_quantization root) := by
    rw [find_quantization]
    split
    · exact Safe.ok _
    · exact Safe.thrown _
  refine hfind.bind fun quantization => (safe_size_at quantization _ _).bind fun bits => ?_
  refine (safe_size_at quantization _ _).bind fun group_size => (safe_json _).bind fun modules => ?_
  refine (Safe.foldlM ?_ _ _).bind fun overrides => Safe.ok _
  rintro overrides ⟨module, value⟩
  simp only []
  split
  · refine (safe_size_value _ _).bind fun bits => (safe_size_value _ _).bind fun group_size => ?_
    exact (safe_refuse_if _ _).bind fun _ => Safe.ok _
  · exact Safe.ok overrides

/-- The vectors and groups of a module are compared with zero before they are divided by. -/
theorem safe_read_vq_module (expert_count : Nat) (module : Bytes) (value : Json D) :
    Safe (read_vq_module expert_count module value) := by
  rw [read_vq_module]
  iterate 4 refine (safe_size_at value _ _).bind fun _ => ?_
  refine (safe_size_at value _ _).bind fun vector_dimension => ?_
  refine (safe_size_at value _ _).bind fun group_size => ?_
  refine (safe_optional_size_value value _ _).bind fun packed_bits => ?_
  refine Ends.bind (ends_refuse_if _ _) fun _ hgeometry => ?_
  have hvector : vector_dimension ≠ 0 := fun hzero =>
    hgeometry (Or.inr (Or.inr (Or.inr (Or.inr (Or.inl hzero)))))
  have hgroup : group_size ≠ 0 := fun hzero =>
    hgeometry (Or.inr (Or.inr (Or.inr (Or.inr (Or.inr hzero)))))
  rw [mod_eq hvector, Except.ok_bind]
  refine (safe_refuse_if _ _).bind fun _ => ?_
  rw [mod_eq hgroup, Except.ok_bind]
  exact (safe_refuse_if _ _).bind fun _ => Safe.ok _

theorem safe_read_vq_modules (buckets : UnorderedMap.BucketOrder Bytes) (root : Json D)
    (expert_count : Nat) : Safe (read_vq_modules buckets root expert_count) := by
  rw [read_vq_modules]
  split
  · exact Safe.ok _
  · refine (safe_json _).bind fun modules => Safe.foldlM ?_ _ _
    rintro specs ⟨module, value⟩
    exact (safe_read_vq_module expert_count module value).bind fun spec => Safe.ok _

theorem safe_read_vq_ple (root : Json D) : Safe (read_vq_ple root) := by
  rw [read_vq_ple]
  split
  · exact Safe.ok none
  · refine (safe_json _).bind fun geometry => ?_
    iterate 4 refine (safe_size_at geometry _ _).bind fun _ => ?_
    refine (safe_array_at _ _).bind fun keys => (Safe.mapM (fun key => safe_json _) keys).bind fun keys => ?_
    exact (safe_refuse_if _ _).bind fun _ => Safe.ok _

theorem safe_read_niwaki (root : Json D) (layer_count : Nat) : Safe (read_niwaki root layer_count) := by
  rw [read_niwaki]
  split
  · exact Safe.ok _
  · refine (safe_optional_boolean _ _ _).bind fun maps_unfolded => ?_
    split
    · exact Safe.ok _
    · refine (safe_json _).bind fun layers => (safe_distinct_indices _ _ _ layers).bind fun layers => ?_
      exact Safe.ok _

theorem safe_read_expert_keep (buckets : UnorderedMap.BucketOrder Bytes) (root : Json D)
    (geometry : TextGeometry D) : Safe (read_expert_keep buckets root geometry) := by
  rw [read_expert_keep]
  split
  · exact Safe.ok []
  · refine (safe_json _).bind fun masks => Safe.foldlM (fun lists mask => ?_) _ _
    rw [retain_experts]
    split
    · exact Safe.thrown _
    · refine (safe_refuse_if _ _).bind fun _ => (safe_json _).bind fun experts => ?_
      refine (safe_distinct_indices _ _ _ experts).bind fun experts => ?_
      exact (safe_refuse_if _ _).bind fun _ => Safe.ok _

theorem safe_read_streaming (root : Json D) (layer_count : Nat) :
    Safe (read_streaming root layer_count) := by
  rw [read_streaming]
  split
  · exact Safe.ok _
  · refine (safe_size_at _ _ _).bind fun cache_bytes => (safe_array_at _ _).bind fun layers => ?_
    refine (safe_distinct_indices _ _ _ layers).bind fun layers => ?_
    exact (safe_refuse_if _ _).bind fun _ => Safe.ok _

end Readers

section Files

variable {numbers : NumberText} (tests : FloatTests numbers.Double)
  (buckets : UnorderedMap.BucketOrder Bytes) (directory : ModelDirectory numbers.Double)

theorem safe_read_config (root text : Json numbers.Double) (architecture : Bytes × Bytes)
    (geometry : TextGeometry numbers.Double) (niwaki_ple : NiwakiPle) :
    Safe (read_config numbers tests buckets root text architecture geometry niwaki_ple) := by
  refine (safe_read_seed text).bind fun seed => (safe_size_at text _ _).bind fun eos => ?_
  refine (safe_refuse_if _ _).bind fun _ => (safe_number_at tests text _).bind fun epsilon => ?_
  refine (safe_refuse_if _ _).bind fun _ => (safe_read_layer_types text _).bind fun layer_types => ?_
  refine (safe_read_ple_layer_ids text _).bind fun ids => ?_
  refine (safe_read_quantization buckets root).bind fun quantization => ?_
  refine (safe_read_vq_modules buckets root _).bind fun modules => (safe_read_vq_ple root).bind fun ple => ?_
  refine (safe_read_niwaki root _).bind fun niwaki => ?_
  refine (safe_read_expert_keep buckets root geometry).bind fun lists => ?_
  exact (safe_read_streaming root _).bind fun streaming => Safe.ok _

theorem safe_read (path : Bytes) (file : MappedFile) :
    Safe (SafetensorsFile.read numbers buckets path file) :=
  (SafetensorsFile.ends_read numbers buckets path file).safe

theorem safe_add_tensors (sidecar : Bytes) (may_be_empty : Bool) (refusal : String)
    (names : List Bytes) (weight_map : UnorderedMap Bytes Bytes) :
    Safe (add_tensors buckets sidecar may_be_empty refusal names weight_map) :=
  Safe.foldlM (fun _ _ => (safe_refuse_if _ _).bind fun _ => Safe.ok _) names weight_map

theorem safe_add_size (declared_weight_bytes : Nat) (file : MappedFile) (refusal : String) :
    Safe (add_size declared_weight_bytes file refusal) :=
  (safe_refuse_if _ _).bind fun _ => Safe.ok _

theorem safe_read_index (external_shards : Bool) (overrides : UnorderedMap Bytes QuantizationSpec) :
    Safe (read_index numbers buckets directory external_shards overrides) := by
  refine (safe_lift id directory.index).bind fun index => (safe_json _).bind fun metadata => ?_
  refine (safe_json _).bind fun total_size => (safe_json _).bind fun declared => ?_
  refine (safe_refuse_if _ _).bind fun _ => (safe_json _).bind fun map => ?_
  refine (safe_json _).bind fun entries => (Safe.foldlM ?_ _ _).bind fun result => ?_
  · rintro ⟨weight_map, shards⟩ ⟨tensor_name, value⟩
    exact (safe_json _).bind fun shard => (safe_refuse_if _ _).bind fun _ => Safe.ok _
  · refine (safe_refuse_if _ _).bind fun _ => ?_
    exact (Safe.forM (fun shard => safe_refuse_if _ _) _).bind fun _ => Safe.ok _

theorem safe_add_qmeta (tensors : Tensors) (sidecar : Bytes) :
    Safe (add_qmeta numbers buckets directory tensors sidecar) := by
  rw [add_qmeta]
  split
  · exact Safe.ok tensors
  · refine (safe_read buckets _ _).bind fun qmeta => ?_
    exact (safe_add_tensors buckets _ _ _ _ _).bind fun weight_map => Safe.ok _

theorem safe_add_mtp (tensors : Tensors) : Safe (add_mtp numbers buckets directory tensors) := by
  rw [add_mtp]
  split
  · exact Safe.ok tensors
  · refine (safe_read buckets _ _).bind fun mtp => ?_
    refine (Safe.forM (fun name => safe_refuse_if _ _) _).bind fun _ => ?_
    refine (safe_add_tensors buckets _ _ _ _ _).bind fun weight_map => ?_
    exact (safe_add_size _ _ _).bind fun declared => Safe.ok _

theorem safe_add_mtp_lm_head (config : ModelConfig numbers.Double) (tensors : Tensors) :
    Safe (add_mtp_lm_head numbers buckets directory config tensors) := by
  rw [add_mtp_lm_head]
  split
  · exact Safe.ok tensors
  · refine (safe_refuse_if _ _).bind fun _ => (safe_refuse_if _ _).bind fun _ => ?_
    refine (safe_read buckets _ _).bind fun sidecar => ?_
    iterate 3 refine Safe.bind (safe_refuse_if _ _) fun _ => ?_
    refine (safe_add_tensors buckets _ _ _ _ _).bind fun weight_map => ?_
    exact (safe_add_size _ _ _).bind fun declared => Safe.ok _

theorem safe_read_tensors (external_shards : Bool) (manifest : ModelManifest numbers.Double) :
    Safe (read_tensors numbers buckets directory external_shards manifest) := by
  refine (safe_read_index buckets directory external_shards _).bind fun tensors => ?_
  refine (Safe.foldlM (safe_add_qmeta buckets directory) qmeta_sidecars tensors).bind fun tensors => ?_
  refine (safe_add_mtp buckets directory tensors).bind fun tensors => ?_
  exact (safe_add_mtp_lm_head buckets directory manifest.config tensors).bind fun tensors => Safe.ok _

end Files

/-! ### When no division is by zero -/

section Load

variable {numbers : NumberText} {tests : FloatTests numbers.Double}
  {buckets : UnorderedMap.BucketOrder Bytes} {directory : ModelDirectory numbers.Double}

/-- A field with a size. -/
theorem returns_size_at {D : Type} (value : Json D) (key name : String) :
    Returns (size_at value key name) fun size => ∃ integer : Int,
      value.find (bytes key) = some (.integer integer) ∧ 0 ≤ integer ∧ integer < 2 ^ 64 ∧
        size = integer.toNat := by
  refine (returns_json _).bind fun field hfield => (returns_json _).bind fun integer hinteger => ?_
  refine (returns_refuse_if _ _).bind fun _ hrange => Returns.ok ⟨integer, ?_, by omega, by omega, rfl⟩
  rw [Json.at_key_eq_ok.mp hfield, Json.get_integer_eq_ok.mp hinteger]

/-- The two sizes of the configuration that are divided by. -/
structure DivisorsRead {D : Type} (text : Json D) (geometry : TextGeometry D) : Prop where
  heads : ∃ heads : Int, text.find (bytes "heads_per_ngram") = some (.integer heads) ∧
    geometry.heads_per_ngram = heads.toNat
  divisor : ∃ divisor : Int,
    text.find (bytes "make_ngram_vocab_size_divisible_by") = some (.integer divisor) ∧ 0 ≤ divisor ∧
      divisor < 2 ^ 64 ∧ geometry.ngram_vocabulary_divisor = divisor.toNat

theorem returns_read_geometry {D : Type} (tests : FloatTests D) (text : Json D) :
    Returns (read_geometry tests text) (DivisorsRead text) := by
  rw [read_geometry]
  iterate 18 refine Returns.skip fun _ => ?_
  iterate 18 refine Returns.skip fun _ => ?_
  refine (returns_size_at text _ _).bind ?_
  rintro heads_per_ngram ⟨heads, hheads, -, -, rfl⟩
  refine Returns.skip fun _ => (returns_size_at text _ _).bind ?_
  rintro divisor ⟨integer, hinteger, hpos, hlt, rfl⟩
  refine Returns.skip fun _ => Returns.skip fun _ => Returns.ok ?_
  exact ⟨⟨heads, hheads, rfl⟩, ⟨integer, hinteger, hpos, hlt, rfl⟩⟩

theorem returns_read_config_geometry (root text : Json numbers.Double) (architecture : Bytes × Bytes)
    (geometry : TextGeometry numbers.Double) (niwaki_ple : NiwakiPle) :
    Returns (read_config numbers tests buckets root text architecture geometry niwaki_ple)
      fun manifest => manifest.config.toTextGeometry = geometry := by
  iterate 13 refine Returns.skip fun _ => ?_
  exact Returns.ok rfl

/-- The divisor of an accepted configuration. -/
theorem returns_load : Returns (ModelManifest.load numbers tests buckets directory) fun manifest =>
    ∃ root text, directory.config = .ok root ∧ root.find (bytes "text_config") = some text ∧
      DivisorsRead text manifest.config.toTextGeometry := by
  refine Returns.skip fun _ => (ends_lift id directory.config).returns.bind fun root hroot => ?_
  refine Returns.skip fun external_shards => Returns.skip fun architecture => ?_
  refine (returns_json _).bind fun text htext => ?_
  refine (returns_read_geometry tests text).bind fun geometry hdivisors => Returns.skip fun pairs => ?_
  refine (returns_read_config_geometry root text architecture geometry pairs).bind fun manifest hread => ?_
  refine (returns_read_tensors external_shards manifest).mono fun result hresult => ?_
  refine ⟨root, text, hroot, Json.at_key_eq_ok.mp htext, ?_⟩
  rw [hresult.1, hread]
  exact hdivisors

/-- The loader comes to the division of the pairs: what it reads before passes its checks, and the
fields of the pairs are sizes. -/
structure ReachesPairs (tests : FloatTests numbers.Double) (directory : ModelDirectory numbers.Double)
    (text : Json numbers.Double) : Prop where
  is_directory : directory.is_directory = true
  root : ∃ root, directory.config = .ok root ∧ root.find (bytes "text_config") = some text ∧
    (∃ external_shards, optional_boolean root "qwen38_external_shards" false = .ok external_shards) ∧
    ∃ architecture, read_architecture root = .ok architecture
  geometry : ∃ geometry, read_geometry tests text = .ok geometry
  pair : ∃ pair pairs, text.find (bytes "niwaki_ple_pair") = some pair ∧
    size_value pair "niwaki_ple_pair" = .ok pairs
  quantization : ∃ quantization bits group_size,
    text.find (bytes "niwaki_ple_quant") = some quantization ∧
    size_at quantization "bits" "niwaki_ple_quant.bits" = .ok bits ∧
    size_at quantization "group_size" "niwaki_ple_quant.group_size" = .ok group_size

/-- **Loading** divides by zero only in the pairs. -/
theorem safe_load_iff : Safe (ModelManifest.load numbers tests buckets directory) ↔
    ∀ text, ReachesPairs tests directory text → ∀ heads : Int,
      text.find (bytes "heads_per_ngram") = some (.integer heads) → heads.toNat * 2 % 2 ^ 64 ≠ 0 := by
  -- what comes behind the pairs does not divide by anything that could be zero
  have hrest : ∀ root text external_shards architecture geometry,
      Safe (read_niwaki_ple text geometry >>= fun niwaki_ple =>
        read_config numbers tests buckets root text architecture geometry niwaki_ple >>= fun manifest =>
          read_tensors numbers buckets directory external_shards manifest) ↔
        Safe (read_niwaki_ple text geometry) := by
    intro root text external_shards architecture geometry
    refine ⟨Safe.of_bind, fun h => h.bind fun niwaki_ple => ?_⟩
    exact (safe_read_config tests buckets root text architecture geometry niwaki_ple).bind fun manifest =>
      safe_read_tensors buckets directory external_shards manifest
  rw [ModelManifest.load, Safe.bind_iff (safe_refuse_if _ _)]
  constructor
  · rintro h text ⟨hdirectory, ⟨root, hroot, htext, ⟨external_shards, hexternal⟩, architecture, harchitecture⟩,
      ⟨geometry, hgeometry⟩, ⟨pair, pairs, hpair, hpairs⟩,
      ⟨quantization, bits, group_size, hquantization, hbits, hgroup⟩⟩ heads hheads
    -- everything before the pairs is read as it is said to be
    have hload := h () (Except.throw_if_eq_ok.mpr (not_not.mpr hdirectory))
    have hconfig : lift id directory.config = .ok root := by
      rw [hroot]
      rfl
    have hat : json (root.at_key "text_config") = .ok text := by
      rw [Json.at_key_eq_ok.mpr htext]
      rfl
    rw [hconfig, Except.ok_bind, hexternal, Except.ok_bind, harchitecture, Except.ok_bind, hat,
      Except.ok_bind, hgeometry, Except.ok_bind, hrest, safe_read_niwaki_ple_iff] at hload
    obtain ⟨other, hother, heq⟩ := (returns_read_geometry tests text geometry hgeometry).heads
    cases hheads.symm.trans hother
    rw [← heq]
    exact hload pair quantization pairs bits group_size hpair hpairs hquantization hbits hgroup
  · intro h u hdirectory
    -- each read before the pairs has succeeded when they are reached
    have his : directory.is_directory = true := not_not.mp (Except.throw_if_eq_ok.mp hdirectory)
    refine (Safe.bind_iff (safe_lift _ _)).mpr fun root hroot => ?_
    refine (Safe.bind_iff (safe_optional_boolean _ _ _)).mpr fun external_shards hexternal => ?_
    refine (Safe.bind_iff (safe_read_architecture root)).mpr fun architecture harchitecture => ?_
    refine (Safe.bind_iff (safe_json _)).mpr fun text htext => ?_
    refine (Safe.bind_iff (safe_read_geometry tests text)).mpr fun geometry hgeometry => ?_
    rw [hrest, safe_read_niwaki_ple_iff]
    intro pair quantization pairs bits group_size hpair hpairs hquantization hbits hgroup
    obtain ⟨heads, hheads, heq⟩ := (returns_read_geometry tests text geometry hgeometry).heads
    rw [heq]
    refine h text ⟨his, ⟨root, ?_, ?_, ⟨external_shards, hexternal⟩, architecture, harchitecture⟩,
      ⟨geometry, hgeometry⟩, ⟨pair, pairs, hpair, hpairs⟩,
      ⟨quantization, bits, group_size, hquantization, hbits, hgroup⟩⟩ heads hheads
    · exact (ends_lift id directory.config).returns root hroot
    · exact Json.at_key_eq_ok.mp (returns_json _ text htext)

/-- The hash of an accepted configuration. -/
theorem safe_hash_iff {manifest : ModelManifest numbers.Double}
    (haccepted : ModelManifest.load numbers tests buckets directory = .ok manifest) :
    Safe (load_and_hash numbers tests buckets directory) ↔
      manifest.config.ngram.ngram_vocabulary_divisor ≠ 0 := by
  rw [load_and_hash, haccepted, Except.ok_bind, NgramHash.create_eq]
  split
  · next hzero => exact ⟨fun h => absurd h id, fun h => absurd hzero h⟩
  · next hne => exact ⟨fun _ => hne, fun _ => Safe.ok _⟩

/-- **No division by zero** is evaluated exactly when the loader does not come to the pairs without
heads, and does not accept a configuration with a divisor of zero. -/
theorem safe_load_and_hash_iff (numbers : NumberText) (tests : FloatTests numbers.Double)
    (buckets : UnorderedMap.BucketOrder Bytes) (directory : ModelDirectory numbers.Double) :
    Safe (load_and_hash numbers tests buckets directory) ↔
      (∀ text, ReachesPairs tests directory text → ∀ heads : Int,
        text.find (bytes "heads_per_ngram") = some (.integer heads) → heads.toNat * 2 % 2 ^ 64 ≠ 0) ∧
      ∀ manifest root text, ModelManifest.load numbers tests buckets directory = .ok manifest →
        directory.config = .ok root → root.find (bytes "text_config") = some text →
        text.find (bytes "make_ngram_vocab_size_divisible_by") ≠ some (.integer 0) := by
  -- the divisor of an accepted configuration, as it is in the text
  have hdivides : ∀ manifest, ModelManifest.load numbers tests buckets directory = .ok manifest →
      ∃ root text, directory.config = .ok root ∧ root.find (bytes "text_config") = some text ∧
        (manifest.config.ngram.ngram_vocabulary_divisor = 0 ↔
          text.find (bytes "make_ngram_vocab_size_divisible_by") = some (.integer 0)) := by
    intro manifest haccepted
    obtain ⟨root, text, hroot, htext, -, divisor, hdivisor, hpos, hlt, heq⟩ :=
      returns_load manifest haccepted
    refine ⟨root, text, hroot, htext, ?_⟩
    change UInt64.ofNat manifest.config.ngram_vocabulary_divisor = 0 ↔ _
    rw [heq, hdivisor, Option.some_inj, Json.integer.injEq, ← UInt64.toNat_inj, UInt64.toNat_ofNat',
      UInt64.toNat_zero, Nat.mod_eq_of_lt (by omega)]
    omega
  rw [← @safe_load_iff numbers tests buckets directory]
  constructor
  · intro h
    refine ⟨h.of_bind, fun manifest root text haccepted hroot htext hfound => ?_⟩
    obtain ⟨root', text', hroot', htext', hiff⟩ := hdivides manifest haccepted
    cases hroot'.symm.trans hroot
    cases htext'.symm.trans htext
    exact (safe_hash_iff haccepted).mp h (hiff.mpr hfound)
  · rintro ⟨hload, h⟩
    refine (Safe.bind_iff hload).mpr fun manifest haccepted => ?_
    obtain ⟨root, text, hroot, htext, hiff⟩ := hdivides manifest haccepted
    have hsafe := (safe_hash_iff haccepted).mpr fun hzero =>
      h manifest root text haccepted hroot htext (hiff.mp hzero)
    rw [load_and_hash, haccepted, Except.ok_bind] at hsafe
    exact hsafe

/-- **A division by zero**: the directory is accepted, and its divisor is zero. -/
theorem small_divides_by_zero : ¬Safe (load_and_hash NumberText.integers ModelDirectory.integer_tests
    (.newestFirst Bytes) ModelDirectory.small) := by
  obtain ⟨manifest, haccepted, -, hdivisor⟩ := ModelDirectory.small_accepted
  intro h
  refine (safe_hash_iff haccepted).mp h ?_
  change UInt64.ofNat manifest.config.ngram_vocabulary_divisor = 0
  rw [hdivisor]
  rfl

end Load

end Qwen38
