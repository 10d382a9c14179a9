import Qwen38.Layer.NgramRows

/-!
# The vector-quantised rows of an n-gram table

A row is twenty codes of a byte, each with a vector of eight elements in the codebook and a scale
for four of them. Every byte may be a code, so that the codebook is read as far as the codes there
are say (`Qwen38.NgramTable.VectorReadable`).

With the paired rows of the module before this one: when all lookups of an accepted table stay in
their rows (`Qwen38.ngram_lookups_exact_iff`), and a model with codes of three bits for which they
do not (`Qwen38.ModelDirectory.three_bit_not_looked_up`).
-/

namespace Qwen38

open Checked

/-- The shard has the row. -/
def VectorQuantizedShard.Holds (shard : VectorQuantizedShard) (logical_row : Nat) : Prop :=
  shard.logical_begin ≤ logical_row ∧ logical_row < shard.logical_end

/-- A shard of so many rows, of twenty codes each. -/
structure VectorQuantizedShard.Has (shard : VectorQuantizedShard) (rows : Nat) : Prop where
  logical_end : shard.logical_end = shard.logical_begin + rows
  codes : shard.codes.shape = [rows, NgramTable.codes_per_row]
  scales : shard.scales.shape = [rows, NgramTable.scales_per_row]
  codes_fits : shard.codes.Fits
  scales_fits : shard.scales.Fits

namespace NgramTable

variable {table : NgramTable} {shard : VectorQuantizedShard} {logical_row rows row code_index : Nat}

/-! ### Accepted tables -/

/-- **An accepted table** with vector-quantised rows. -/
structure VectorQuantized (table : NgramTable) : Prop where
  shards : ∀ shard ∈ table.vector_quantized_shards, ∃ rows, shard.Has rows
  consecutive : Ranges.Consecutive VectorQuantizedShard.logical_begin VectorQuantizedShard.logical_end 0
    table.vector_quantized_shards table.rows

theorem vector_geometry_eq_some {spec : VectorQuantizedPleSpec} {codes codebook scales : TensorView}
    (h : vector_geometry spec codes codebook scales = some rows) :
    codes.shape = [rows, spec.row_bytes] ∧ scales.shape = [rows, dimension / spec.group_size] := by
  rw [vector_geometry] at h
  split at h
  · next hcodes hcodebook hscales =>
    rw [hcodes, hscales]
    split at h
    · next hshapes =>
      obtain ⟨-, -, -, rfl, -, -, rfl, rfl⟩ := hshapes
      cases h
      exact ⟨rfl, rfl⟩
    · cases h
  · cases h

/-- The shards so far, up to a row. -/
structure CollectedVectors (s : Nat × List VectorQuantizedShard) : Prop where
  shards : ∀ shard ∈ s.2, ∃ rows, shard.Has rows
  consecutive : Ranges.Consecutive VectorQuantizedShard.logical_begin VectorQuantizedShard.logical_end 0
    s.2 s.1

/-- **One shard more.** The sum of the rows has not wrapped around where it has not become
smaller. -/
theorem CollectedVectors.step {D : Type} {store : TensorStore D} {spec : VectorQuantizedPleSpec}
    {s : Nat × List VectorQuantizedShard} (h : CollectedVectors s)
    (hrow_bytes : spec.row_bytes = codes_per_row) (hgroup : dimension / spec.group_size = scales_per_row)
    (base : Bytes) : Returns (vector_pass store spec s base) CollectedVectors := by
  refine (store.returns_tensor _).bind fun codes hcodes => Returns.skip fun codebook => ?_
  refine (store.returns_tensor _).bind fun scales hscales => ?_
  split
  · exact Returns.error _
  · next rows hgeometry =>
    obtain ⟨hcodes_shape, hscales_shape⟩ := vector_geometry_eq_some hgeometry
    rw [hrow_bytes] at hcodes_shape
    rw [hgroup] at hscales_shape
    refine (returns_refuse_if _ _).bind fun _ hwrapped => Returns.ok ?_
    have hrows : rows < 2 ^ 64 := hcodes.shape rows (by rw [hcodes_shape]; exact List.mem_cons_self)
    have hend : size_t (s.1 + rows) = s.1 + rows := by
      rw [size_t] at hwrapped ⊢
      omega
    refine ⟨fun shard hshard => ?_, ?_⟩
    · rcases List.mem_append.mp hshard with hold | hnew
      · exact h.shards shard hold
      · rw [List.mem_singleton.mp hnew]
        exact ⟨rows, hend, hcodes_shape, hscales_shape, hcodes, hscales⟩
    · refine h.consecutive.concat rfl ?_
      change s.1 ≤ size_t (s.1 + rows)
      rw [hend]
      exact Nat.le_add_right _ _

/-- **The tables that are accepted.** -/
theorem returns_initialize_vector_quantized {D : Type} (store : TensorStore D)
    (spec : VectorQuantizedPleSpec) (rows : Nat) :
    Returns (initialize_vector_quantized store spec rows) VectorQuantized := by
  refine (returns_refuse_if _ _).bind fun _ hspec => Returns.skip fun keys => ?_
  simp only [not_or, ne_eq, not_not] at hspec
  obtain ⟨-, hdimension, hgroup, hrow_bytes⟩ := hspec
  have hstart : CollectedVectors (0, []) := ⟨fun _ h => absurd h List.not_mem_nil, .nil 0⟩
  refine (Returns.foldlM (I := fun _ => CollectedVectors) hstart (fun _ s base h => ?_) keys).bind ?_
  · refine h.step ?_ ?_ base
    · rw [hrow_bytes, hdimension]
      rfl
    · rw [hgroup]
      rfl
  · rintro ⟨logical_begin, shards⟩ hcollected
    refine (returns_refuse_if _ _).bind fun _ htotal => Returns.ok ?_
    rw [not_or, not_not] at htotal
    refine ⟨hcollected.shards, ?_⟩
    rw [← htotal.2]
    exact hcollected.consecutive

/-! ### What a lookup is for -/

/-- A code of a row. -/
def code_at (shard : VectorQuantizedShard) (row code_index : Nat) : Nat :=
  (shard.codes.bytes.getD (code_offset row code_index) 0).toNat

/-- The reads for a code of a row. -/
structure ReadsCode (shard : VectorQuantizedShard) (row code_index : Nat) : Prop where
  code : Within shard.codes.bytes codes_per_row row (code_offset row code_index) 1
  scale : Within shard.scales.bytes (scales_per_row * 2) row (scale_offset row code_index) 2
  vector : ∀ element < 8, Within shard.codebook.bytes 16 (code_at shard row code_index)
    (element_offset (code_at shard row code_index) element) 2

/-- **What the lookup of a row is for.** -/
structure VectorLooksUp (table : NgramTable) (logical_row : Nat) : Prop where
  unique : ∃! i : Nat, ∃ shard, table.vector_quantized_shards[i]? = some shard ∧ shard.Holds logical_row
  found : ∃ shard ∈ table.vector_quantized_shards,
    table.find_vector_quantized logical_row = some shard ∧ shard.Holds logical_row ∧
    (∀ code_index < codes_per_row, ReadsCode shard (logical_row - shard.logical_begin) code_index) ∧
    ∃ cells, table.gather_vector_quantized logical_row = .ok cells ∧ cells.map VectorCell.code =
      ((shard.codes.bytes.drop ((logical_row - shard.logical_begin) * codes_per_row)).take
        codes_per_row).map UInt8.toNat

/-- **What it takes**: the tensors have the bytes that their shapes say, and the codebook has those
of each code there is. -/
structure VectorReadable (table : NgramTable) : Prop where
  codes : ∀ shard ∈ table.vector_quantized_shards, shard.codes.shape.prod ≤ shard.codes.bytes.length
  scales : ∀ shard ∈ table.vector_quantized_shards,
    shard.scales.shape.prod * 2 ≤ shard.scales.bytes.length
  codebook : ∀ shard ∈ table.vector_quantized_shards,
    ∀ code ∈ shard.codes.bytes.take shard.codes.shape.prod,
      (code.toNat + 1) * 16 ≤ shard.codebook.bytes.length

/-! ### Readable tables -/

/-- Where a code lies. -/
theorem code_offset_eq (hrow : row < rows) (hlength : rows * codes_per_row ≤ shard.codes.bytes.length)
    (hfits : shard.codes.bytes.length < 2 ^ 63) (hindex : code_index < codes_per_row) :
    code_offset row code_index = row * codes_per_row + code_index ∧
      row * codes_per_row + code_index < rows * codes_per_row := by
  have hend : (row + 1) * codes_per_row ≤ rows * codes_per_row := Nat.mul_le_mul_right _ hrow
  rw [Nat.succ_mul] at hend
  refine ⟨?_, by omega⟩
  rw [code_offset, size_t_eq (by omega)]

/-- **The reads for a code** of a readable table. -/
theorem VectorReadable.readsCode (h : table.VectorReadable)
    (hshard : shard ∈ table.vector_quantized_shards) (hhas : shard.Has rows) (hrow : row < rows)
    (hindex : code_index < codes_per_row) : ReadsCode shard row code_index := by
  have hcodes := h.codes shard hshard
  have hscales := h.scales shard hshard
  have hcodebook := h.codebook shard hshard
  rw [hhas.codes, List.prod_cons, List.prod_singleton] at hcodes hcodebook
  rw [hhas.scales, List.prod_cons, List.prod_singleton, Nat.mul_assoc] at hscales
  have hgroup : code_index / 4 * 2 + 2 ≤ scales_per_row * 2 := by
    have hlt : code_index / 4 < 5 := Nat.div_lt_of_lt_mul hindex
    change code_index / 4 * 2 + 2 ≤ 10
    omega
  refine ⟨?_, ?_, fun element helement => ?_⟩
  · exact within_of_le hrow hindex hcodes hhas.codes_fits.length
  · rw [scale_offset, Nat.mul_assoc]
    exact within_of_le hrow hgroup hscales hhas.scales_fits.length
  · obtain ⟨hoffset, hlt⟩ := code_offset_eq hrow hcodes hhas.codes_fits.length hindex
    have hplace : code_offset row code_index < shard.codes.bytes.length := by omega
    have hmem : shard.codes.bytes[code_offset row code_index] ∈
        shard.codes.bytes.take (rows * codes_per_row) :=
      List.mem_take_iff_getElem.mpr ⟨_, by omega, rfl⟩
    have hvector := hcodebook _ hmem
    have hcode : code_at shard row code_index = shard.codes.bytes[code_offset row code_index].toNat := by
      rw [code_at, List.getD_eq_getElem _ _ hplace]
    rw [← hcode] at hvector
    refine ⟨?_, ?_, ?_⟩ <;> rw [element_offset] <;> omega

/-- **A code** and its vector. -/
theorem decode_vector_eq (h : ReadsCode shard row code_index) :
    ∃ cell, decode_vector shard row code_index = .ok cell ∧ cell.code = code_at shard row code_index := by
  have hplace : code_offset row code_index < shard.codes.bytes.length := Nat.lt_of_succ_le h.code.2.2
  have hvalue : LittleEndian.value ((shard.codes.bytes.drop (code_offset row code_index)).take 1) =
      code_at shard row code_index := by
    rw [List.drop_eq_getElem_cons hplace, code_at, List.getD_eq_getElem _ _ hplace]
    rfl
  obtain ⟨vector, hvector, -⟩ := Except.mapM_range_ok (n := 8) (P := fun _ _ => True)
    (f := fun element => do
      let value ← slice shard.codebook.bytes (element_offset (code_at shard row code_index) element) 2
      (.ok (LittleEndian.value value) : Load Nat)) fun element helement => by
    rw [slice_eq (h.vector element helement).2.2]
    exact ⟨_, rfl, trivial⟩
  rw [decode_vector, slice_eq h.code.2.2, Except.ok_bind, slice_eq h.scale.2.2, Except.ok_bind, hvalue,
    hvector]
  exact ⟨_, rfl, rfl⟩

/-- **A row** whose codes are read. -/
theorem decode_vector_quantized_row_eq (hhas : shard.Has rows) (hholds : shard.Holds logical_row)
    (hlength : rows * codes_per_row ≤ shard.codes.bytes.length)
    (hreads : ∀ code_index < codes_per_row,
      ReadsCode shard (logical_row - shard.logical_begin) code_index) :
    ∃ cells, decode_vector_quantized_row shard logical_row = .ok cells ∧ cells.map VectorCell.code =
      ((shard.codes.bytes.drop ((logical_row - shard.logical_begin) * codes_per_row)).take
        codes_per_row).map UInt8.toNat := by
  have hrow : logical_row - shard.logical_begin < rows := by
    have hend := hhas.logical_end
    have hlast := hholds.2
    have hfirst := hholds.1
    omega
  obtain ⟨cells, hcells, hcount, hcodes⟩ := Except.mapM_range_ok (n := codes_per_row)
    (P := fun code_index (cell : VectorCell) =>
      cell.code = code_at shard (logical_row - shard.logical_begin) code_index)
    fun code_index hindex => decode_vector_eq (hreads code_index hindex)
  refine ⟨cells, ?_, ?_⟩
  · have hrange : ¬(logical_row < shard.logical_begin ∨ shard.logical_end ≤ logical_row) :=
      not_or.mpr ⟨Nat.not_lt.mpr hholds.1, Nat.not_le.mpr hholds.2⟩
    rw [decode_vector_quantized_row, refuse_if_of_not hrange]
    exact hcells
  · refine List.ext_getElem? fun code_index => ?_
    rw [List.getElem?_map, List.getElem?_map, List.getElem?_take]
    split
    · next hindex =>
      obtain ⟨hoffset, hlt⟩ := code_offset_eq hrow hlength hhas.codes_fits.length hindex
      have hplace : code_index < cells.length := by rwa [hcount]
      have hbyte : code_offset (logical_row - shard.logical_begin) code_index <
          shard.codes.bytes.length := by omega
      rw [List.getElem?_eq_getElem hplace, Option.map_some,
        hcodes code_index _ (List.getElem?_eq_getElem hplace), code_at, List.getElem?_drop, ← hoffset,
        List.getD_eq_getElem _ _ hbyte, List.getElem?_eq_getElem hbyte]
      rfl
    · next hindex =>
      rw [List.getElem?_eq_none (by rw [hcount]; exact Nat.le_of_not_lt hindex)]
      rfl

/-- **A lookup in a readable table.** -/
theorem VectorQuantized.looksUp (h : table.VectorQuantized) (hreadable : table.VectorReadable)
    (hrow : logical_row < table.rows) : table.VectorLooksUp logical_row := by
  have hunique := h.consecutive.existsUnique (Nat.zero_le logical_row) hrow
  obtain ⟨i, ⟨shard, hi, hholds⟩, -⟩ := id hunique
  have hshard := List.mem_of_getElem? hi
  have hfind : table.find_vector_quantized logical_row = some shard :=
    h.consecutive.find_eq_of_mem hshard hholds.1 hholds.2
  obtain ⟨rows, hhas⟩ := h.shards shard hshard
  have hwithin : logical_row - shard.logical_begin < rows := by
    have hend := hhas.logical_end
    omega
  have hreads : ∀ code_index < codes_per_row,
      ReadsCode shard (logical_row - shard.logical_begin) code_index :=
    fun code_index hindex => hreadable.readsCode hshard hhas hwithin hindex
  have hlength := hreadable.codes shard hshard
  rw [hhas.codes, List.prod_cons, List.prod_singleton] at hlength
  obtain ⟨cells, hcells, hcodes⟩ := decode_vector_quantized_row_eq hhas hholds hlength hreads
  refine ⟨hunique, shard, hshard, hfind, hholds, hreads, cells, ?_, hcodes⟩
  rw [gather_vector_quantized, refuse_if_of_not (by omega), Int.toNat_natCast, hfind]
  change (refuse_if _ _ >>= fun _ => decode_vector_quantized_row shard logical_row) = _
  rw [refuse_if_of_not (Nat.not_lt.mpr hholds.1)]
  exact hcells

/-! ### Tables that are read -/

/-- **The reads for a code**, where all rows are looked up. -/
theorem VectorQuantized.readsCode_of_looksUp (h : table.VectorQuantized)
    (hall : ∀ logical_row < table.rows, table.VectorLooksUp logical_row)
    (hshard : shard ∈ table.vector_quantized_shards) (hhas : shard.Has rows) (hrow : row < rows)
    (hindex : code_index < codes_per_row) : ReadsCode shard row code_index := by
  have hend := hhas.logical_end
  have hholds : shard.Holds (shard.logical_begin + row) :=
    ⟨Nat.le_add_right _ _, by rw [hend]; exact Nat.add_lt_add_left hrow _⟩
  obtain ⟨i, hi⟩ := List.getElem?_of_mem hshard
  have hlast := (h.consecutive.le_of_getElem? hi).2.2
  obtain ⟨found, -, hfind, -, hreads, -⟩ := (hall _ (hholds.2.trans_le hlast)).found
  have hfound : table.find_vector_quantized _ = some shard :=
    h.consecutive.find_eq_of_mem hshard hholds.1 hholds.2
  obtain rfl := Option.some.inj (hfind.symm.trans hfound)
  have hread := hreads code_index hindex
  rwa [Nat.add_sub_cancel_left] at hread

/-- **A table of which all rows are looked up.** -/
theorem VectorQuantized.readable_of_looksUp (h : table.VectorQuantized)
    (hall : ∀ logical_row < table.rows, table.VectorLooksUp logical_row) : table.VectorReadable := by
  have hcodes : ∀ shard ∈ table.vector_quantized_shards, ∀ rows, shard.Has rows →
      rows * codes_per_row ≤ shard.codes.bytes.length := by
    intro shard hshard rows hhas
    cases rows with
    | zero =>
      rw [Nat.zero_mul]
      exact Nat.zero_le _
    | succ row =>
      have hreads := fun code_index (hindex : code_index < codes_per_row) =>
        h.readsCode_of_looksUp hall hshard hhas (Nat.lt_succ_self row) hindex
      exact le_length_of_within (hreads 0 (by decide)).code (hreads 19 (by decide)).code rfl
  refine ⟨fun shard hshard => ?_, fun shard hshard => ?_, fun shard hshard code hcode => ?_⟩ <;>
    obtain ⟨rows, hhas⟩ := h.shards shard hshard
  · rw [hhas.codes, List.prod_cons, List.prod_singleton]
    exact hcodes shard hshard rows hhas
  · rw [hhas.scales, List.prod_cons, List.prod_singleton, Nat.mul_assoc]
    cases rows with
    | zero =>
      rw [Nat.zero_mul]
      exact Nat.zero_le _
    | succ row =>
      have hreads := fun code_index (hindex : code_index < codes_per_row) =>
        h.readsCode_of_looksUp hall hshard hhas (Nat.lt_succ_self row) hindex
      have hfirst := (hreads 0 (by decide)).scale
      have hlast := (hreads 19 (by decide)).scale
      rw [scale_offset, Nat.mul_assoc] at hfirst hlast
      exact le_length_of_within hfirst hlast rfl
  · rw [hhas.codes, List.prod_cons, List.prod_singleton] at hcode
    obtain ⟨place, hplace, rfl⟩ := List.mem_take_iff_getElem.mp hcode
    have hrow : place / codes_per_row < rows := Nat.div_lt_of_lt_mul (by rw [Nat.mul_comm]; omega)
    have hindex : place % codes_per_row < codes_per_row := Nat.mod_lt _ (by decide)
    obtain ⟨hoffset, -⟩ := code_offset_eq hrow (hcodes shard hshard rows hhas) hhas.codes_fits.length hindex
    rw [Nat.div_add_mod'] at hoffset
    have hread := (h.readsCode_of_looksUp hall hshard hhas hrow hindex).vector 7 (by decide)
    have hend := hread.2.2
    rw [code_at, hoffset, List.getD_eq_getElem _ _ (by omega), element_offset] at hend
    omega

/-- **When all rows are looked up.** -/
theorem VectorQuantized.looksUp_iff (h : table.VectorQuantized) :
    (∀ logical_row < table.rows, table.VectorLooksUp logical_row) ↔ table.VectorReadable :=
  ⟨h.readable_of_looksUp, fun hreadable _ hrow => h.looksUp hreadable hrow⟩

end NgramTable

/-! ### All tables -/

/-- **When all lookups stay in their rows.** For every accepted manifest and every table that one of
the constructors accepts: each row is found in one shard, read from its own bytes and decoded to the
codes that are packed there exactly when no code straddles two words and the tensors have the bytes
that their shapes say, or the table has no rows; and with vector-quantised rows exactly when the
tensors have their bytes and the codebook has those of each code. -/
theorem ngram_lookups_exact_iff (numbers : NumberText) (tests : FloatTests numbers.Double)
    (buckets : UnorderedMap.BucketOrder Bytes) (directory : ModelDirectory numbers.Double) :
    Returns (ModelManifest.load numbers tests buckets directory) fun manifest => ∀ rows : Nat,
      (∀ passes, Returns
        (NgramTable.initialize_paired ⟨numbers, buckets, directory, manifest⟩ rows passes) fun table =>
          (∀ logical_row < table.rows, table.LooksUp logical_row) ↔ (0 < table.rows → table.Readable)) ∧
      ∀ spec, manifest.vector_quantized_ple = some spec → Returns
        (NgramTable.initialize_vector_quantized ⟨numbers, buckets, directory, manifest⟩ spec rows)
          fun table => (∀ logical_row < table.rows, table.VectorLooksUp logical_row) ↔
            table.VectorReadable := by
  refine (ModelManifest.returns_load_niwaki_ple directory).mono fun manifest hadmitted rows => ?_
  refine ⟨fun passes => ?_, fun spec _ => ?_⟩
  · exact (NgramTable.returns_initialize_paired _ rows passes hadmitted).mono fun _ h => h.looksUp_iff
  · exact (NgramTable.returns_initialize_vector_quantized _ spec rows).mono fun _ h => h.looksUp_iff

/-! ### Codes that straddle -/

namespace ModelDirectory

/-- A text model with one layer, and with pairs of three-bit codes in its n-gram rows. -/
def three_bit_text : Json NumberText.integers.Double :=
  let ones := ["num_hidden_layers", "num_experts", "num_experts_per_tok", "vocab_size",
    "max_position_embeddings", "mtp_num_hidden_layers", "num_attention_heads", "num_key_value_heads",
    "head_dim", "indexer_n_heads", "indexer_kv_heads", "indexer_head_dim", "indexer_budget",
    "indexer_compress_ratio", "hc_count", "hc_lowrank", "moe_intermediate_size",
    "shared_expert_intermediate_size", "linear_conv_kernel_dim", "linear_key_head_dim",
    "linear_value_head_dim", "linear_num_key_heads", "linear_num_value_heads", "partial_rotary_factor",
    "ngram_vocab_size_base", "make_ngram_vocab_size_divisible_by", "ple_conv_kernel_size",
    "eos_token_id", "rms_norm_eps"]
  fields <| ones.map (fun key => (key, .integer 1)) ++
    [("model_type", .string (bytes "qwen4_exp_text")), ("hidden_size", .integer 2560),
      ("output_gate_type", .string (bytes "silu")),
      ("rope_parameters", fields [("rope_theta", .integer 1)]), ("ngram_size", .integer 3),
      ("heads_per_ngram", .integer 8), ("ple_embed_dim", .integer 2560),
      ("niwaki_ple_pair", .integer 2),
      ("niwaki_ple_quant", fields [("bits", .integer 3), ("group_size", .integer 320)]),
      ("layer_types", .array [.string (bytes "full_attention")]),
      ("ple_layer_ids", .array [.integer 1])]

def three_bit_root : Json NumberText.integers.Double :=
  fields [("architectures", .array [.string (bytes "Qwen4ExpForConditionalGeneration")]),
    ("model_type", .string (bytes "qwen4_exp")), ("text_config", three_bit_text),
    ("quantization", fields [("bits", .integer 4), ("group_size", .integer 64)])]

/-- The name of a tensor of its one shard. -/
def three_bit_tensor (part : String) : Bytes :=
  ["language_model", "model", "layers", "0", "ple", "ple_embedding", "ngram_embedding", "shards",
    "0"].flatMap (fun part => bytes part ++ bytes ".") ++ bytes part

/-- The description of a tensor in the header of its file. -/
def three_bit_entry (part dtype shape offsets : String) : Bytes :=
  bytes "\"" ++ three_bit_tensor part ++ bytes "\":\x7b\"dtype\":\"" ++ bytes dtype ++
    bytes "\",\"shape\":" ++ bytes shape ++ bytes ",\"data_offsets\":" ++ bytes offsets ++ bytes "\x7d"

/-- Thirty words, one scale and one bias for the one physical row. -/
def three_bit_header : Bytes :=
  bytes "\x7b" ++ three_bit_entry "weight" "U32" "[1,30]" "[0,120]" ++ bytes "," ++
    three_bit_entry "scales" "BF16" "[1,1]" "[120,122]" ++ bytes "," ++
    three_bit_entry "biases" "BF16" "[1,1]" "[122,124]" ++ bytes "\x7d"

def three_bit_file : Bytes :=
  LittleEndian.bytes 8 three_bit_header.length ++ three_bit_header ++ List.replicate 124 0

theorem length_three_bit_file : three_bit_file.length < 2 ^ 63 := by decide +kernel

@[irreducible] def three_bit : ModelDirectory NumberText.integers.Double where
  path := []
  is_directory := true
  config := .ok three_bit_root
  index := .ok <| fields [("metadata", fields [("total_size", .integer 0)]),
    ("weight_map", .object (["weight", "scales", "biases"].map fun part =>
      (three_bit_tensor part, .string (bytes "model.safetensors"))))]
  files name :=
    if name = bytes "model.safetensors" then some ⟨three_bit_file, length_three_bit_file⟩ else none

/-- It is accepted, with a table of two rows. -/
theorem three_bit_accepted : ∃ manifest table,
    ModelManifest.load NumberText.integers integer_tests (.newestFirst Bytes) three_bit = .ok manifest ∧
    NgramTable.initialize_paired ⟨NumberText.integers, .newestFirst Bytes, three_bit, manifest⟩ 2 2 =
      .ok table ∧ table.rows = 2 ∧ table.bits = 3 := by
  have hrun : (do
      let manifest ← ModelManifest.load NumberText.integers integer_tests (.newestFirst Bytes) three_bit
      let table ← NgramTable.initialize_paired
        ⟨NumberText.integers, .newestFirst Bytes, three_bit, manifest⟩ 2 2
      (.ok (table.rows, table.bits) : Load (Nat × Nat))).toOption = some (2, 3) := by decide +kernel
  obtain ⟨manifest, hmanifest, hrest⟩ := Except.bind_eq_ok.mp (Except.toOption_eq_some.mp hrun)
  obtain ⟨table, htable, hfields⟩ := Except.bind_eq_ok.mp hrest
  obtain ⟨hrows, hbits⟩ := Prod.mk.inj (Except.ok.inj hfields)
  exact ⟨manifest, table, hmanifest, htable, hrows, hbits⟩

/-- **Codes of three bits**: a word is read as ten of them, so that the last columns of a row lie
behind its thirty words. -/
theorem three_bit_not_looked_up : ∃ manifest table,
    ModelManifest.load NumberText.integers integer_tests (.newestFirst Bytes) three_bit = .ok manifest ∧
    NgramTable.initialize_paired ⟨NumberText.integers, .newestFirst Bytes, three_bit, manifest⟩ 2 2 =
      .ok table ∧ ¬∀ logical_row < table.rows, table.LooksUp logical_row := by
  obtain ⟨manifest, table, hmanifest, htable, hrows, hbits⟩ := three_bit_accepted
  refine ⟨manifest, table, hmanifest, htable, fun hall => ?_⟩
  have hadmitted := ModelManifest.returns_load_niwaki_ple three_bit manifest hmanifest
  have hpaired := NgramTable.returns_initialize_paired _ 2 2 hadmitted table htable
  have hreadable := hpaired.readable_of_looksUp (by rw [hrows]; exact Nat.two_pos) hall
  have hdvd := hreadable.bits
  rw [hbits] at hdvd
  exact absurd hdvd (by decide)

end ModelDirectory

end Qwen38
