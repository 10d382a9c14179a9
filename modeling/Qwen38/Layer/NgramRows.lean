import Qwen38.Layer.NgramTable
import Qwen38.Model.WellFormed

/-!
# The rows of an n-gram table

What the lookup of a paired row is for (`Qwen38.NgramTable.LooksUp`): one shard has the row, every
read lies in the physical row and in the tensor, and the codes are those that are packed in the
words of the row, one after the other and without a gap.

The words of a row are as many as its bits need, but a word is read as a whole number of codes. The
two agree for the widths that divide 32, and then only the bytes of the tensors are left to ask for:
nothing compares them with their shapes (`Qwen38.NgramTable.Readable`). That is also what it takes
(`Qwen38.NgramTable.Paired.looksUp_iff`), because a table with other widths reads the last column of
its first row behind the words of that row (`Qwen38.NgramTable.Paired.aligned_of_words`).
-/

namespace Qwen38

open Checked

/-! ### Tensors -/

/-- Sizes of 64 bits, and the bytes of a file. -/
structure TensorView.Fits (view : TensorView) : Prop where
  shape : ∀ dimension ∈ view.shape, dimension < 2 ^ 64
  length : view.bytes.length < 2 ^ 63

/-- **The tensors of a store** are parts of files. -/
theorem TensorStore.returns_tensor {D : Type} (store : TensorStore D) (name : Bytes) :
    Returns (store.tensor name) TensorView.Fits := by
  rw [TensorStore.tensor]
  split
  · exact Returns.error _
  · next shard hshard =>
    split
    · exact Returns.error _
    · next file hfile =>
      intro view hview
      obtain ⟨index, hindex, htensor⟩ := Except.bind_eq_ok.mp hview
      obtain ⟨rfl, -, -, hbounded⟩ := (SafetensorsFile.ends_read _ _ _ _).of_eq_ok hindex
      obtain ⟨metadata, hfound, -, hlength⟩ :=
        (SafetensorsFile.ends_tensor _ hbounded).of_eq_ok htensor
      obtain ⟨metadata', hfound', hshape⟩ := index.returns_tensor _ view htensor
      cases hfound.symm.trans hfound'
      obtain ⟨hle, hend⟩ := hbounded _ metadata hfound
      have hsize := index.file.size_lt
      refine ⟨?_, by omega⟩
      rw [hshape]
      exact SafetensorsFile.returns_read _ _ _ _ index hindex _ metadata hfound

/-! ### Pairs -/

section Pairs

variable {numbers : NumberText} {tests : FloatTests numbers.Double}
  {buckets : UnorderedMap.BucketOrder Bytes}

/-- Two to eight bits, or no pairs. -/
def NiwakiPle.Admitted (ple : NiwakiPle) : Prop :=
  ple.niwaki_ple_bits = 0 ∨ 2 ≤ ple.niwaki_ple_bits ∧ ple.niwaki_ple_bits ≤ 8

theorem returns_read_niwaki_ple {D : Type} (text : Json D) (geometry : TextGeometry D) :
    Returns (read_niwaki_ple text geometry) NiwakiPle.Admitted := by
  rw [read_niwaki_ple]
  split
  · exact Returns.ok (Or.inl rfl)
  · refine Returns.skip fun pair => Returns.skip fun quantization => Returns.skip fun bits => ?_
    refine Returns.skip fun group_size => Returns.skip fun physical_dimension => ?_
    refine (returns_refuse_if _ _).bind fun _ hbits => Returns.skip fun rest => Returns.skip fun _ => ?_
    refine Returns.ok (Or.inr ?_)
    change 2 ≤ bits ∧ bits ≤ 8
    omega

theorem returns_read_config_niwaki_ple (root text : Json numbers.Double) (architecture : Bytes × Bytes)
    (geometry : TextGeometry numbers.Double) (niwaki_ple : NiwakiPle) :
    Returns (read_config numbers tests buckets root text architecture geometry niwaki_ple)
      fun manifest => manifest.config.toNiwakiPle = niwaki_ple := by
  refine Returns.skip fun seed => Returns.skip fun eos => Returns.skip fun _ => ?_
  refine Returns.skip fun epsilon => Returns.skip fun _ => Returns.skip fun layer_types => ?_
  refine Returns.skip fun ids => Returns.skip fun quantization => Returns.skip fun modules => ?_
  refine Returns.skip fun ple => Returns.skip fun niwaki => Returns.skip fun lists => ?_
  exact Returns.skip fun streaming => Returns.ok rfl

/-- **The pairs of an accepted manifest.** -/
theorem ModelManifest.returns_load_niwaki_ple (directory : ModelDirectory numbers.Double) :
    Returns (ModelManifest.load numbers tests buckets directory) fun manifest =>
      manifest.config.toNiwakiPle.Admitted := by
  refine Returns.skip fun _ => Returns.skip fun root => Returns.skip fun external_shards => ?_
  refine Returns.skip fun architecture => Returns.skip fun text => Returns.skip fun geometry => ?_
  refine (returns_read_niwaki_ple text geometry).bind fun niwaki_ple hadmitted => ?_
  refine (returns_read_config_niwaki_ple root text architecture geometry niwaki_ple).bind ?_
  rintro manifest rfl
  refine (returns_read_tensors external_shards manifest).mono fun result hresult => ?_
  rwa [hresult.1]

end Pairs

/-! ### Accepted tables -/

/-- A shard of so many physical rows. -/
structure PairedShard.Has (shard : PairedShard) (table : NgramTable) (physical_rows : Nat) : Prop where
  logical_end : shard.logical_end = shard.logical_begin + physical_rows * table.pair
  weight : shard.weight.shape = [physical_rows, table.packed_word_count]
  scales : shard.scales.shape = [physical_rows, table.scale_count]
  biases : shard.biases.shape = [physical_rows, table.scale_count]
  weight_fits : shard.weight.Fits
  scales_fits : shard.scales.Fits
  biases_fits : shard.biases.Fits

namespace NgramTable

/-- **An accepted table** with paired rows. -/
structure Paired (table : NgramTable) : Prop where
  pair : 0 < table.pair
  bits : 2 ≤ table.bits ∧ table.bits ≤ 8
  group_size : 0 < table.group_size
  words : table.packed_word_count * 32 = size_t (size_t (dimension * table.pair) * table.bits)
  scales : table.scale_count * table.group_size = size_t (dimension * table.pair)
  shards : ∀ shard ∈ table.paired_shards, ∃ physical_rows, shard.Has table physical_rows
  consecutive : Ranges.Consecutive PairedShard.logical_begin PairedShard.logical_end 0
    table.paired_shards table.rows

theorem paired_geometry_eq_some {words scale_count physical_rows : Nat} {weight scales biases : TensorView}
    (h : paired_geometry words scale_count weight scales biases = some physical_rows) :
    weight.shape = [physical_rows, words] ∧ scales.shape = [physical_rows, scale_count] ∧
      biases.shape = [physical_rows, scale_count] := by
  rw [paired_geometry] at h
  split at h
  · next hweight hscales hbiases =>
    rw [hweight, hscales, hbiases]
    split at h
    · next hshapes =>
      obtain ⟨-, -, -, rfl, rfl, rfl, rfl, rfl⟩ := hshapes
      cases h
      exact ⟨rfl, rfl, rfl⟩
    · cases h
  · cases h

/-- The table with the shards so far, up to a row. -/
structure Collected (table : NgramTable) (s : Nat × NgramTable) : Prop where
  same : s.2 = { table with paired_shards := s.2.paired_shards }
  shards : ∀ shard ∈ s.2.paired_shards, ∃ physical_rows, shard.Has table physical_rows
  consecutive : Ranges.Consecutive PairedShard.logical_begin PairedShard.logical_end 0
    s.2.paired_shards s.1

/-- **One shard more.** -/
theorem Collected.step {D : Type} {store : TensorStore D} {tensors : Bytes} {table : NgramTable}
    {s : Nat × NgramTable} (h : Collected table s) :
    Returns (paired_pass store tensors table s) fun pass => Collected table pass.state := by
  rw [paired_pass]
  split
  · exact Returns.ok h
  · refine (store.returns_tensor _).bind fun weight hweight => ?_
    refine (store.returns_tensor _).bind fun scales hscales => ?_
    refine (store.returns_tensor _).bind fun biases hbiases => ?_
    split
    · exact Returns.error _
    · next physical_rows hgeometry =>
      obtain ⟨hweight_shape, hscales_shape, hbiases_shape⟩ := paired_geometry_eq_some hgeometry
      refine Returns.skip fun _ => Returns.ok ⟨?_, ?_, ?_⟩
      · change ({ s.2 with paired_shards := _ } : NgramTable) = _
        rw [h.same]
        rfl
      · intro shard hshard
        rcases List.mem_append.mp hshard with hold | hnew
        · exact h.shards shard hold
        · rw [List.mem_singleton.mp hnew]
          exact ⟨physical_rows, rfl, hweight_shape, hscales_shape, hbiases_shape, hweight, hscales,
            hbiases⟩
      · exact h.consecutive.concat rfl (Nat.le_add_right _ _)

/-- **The loop over the shards.** -/
theorem returns_collect {D : Type} (store : TensorStore D) (tensors : Bytes) (table : NgramTable)
    (passes : Nat) (hempty : table.paired_shards = []) :
    Returns (Loop.run (fun _ => true) (paired_pass store tensors table) passes (0, table))
      (Collected table) := by
  have hstart : Collected table (0, table) := by
    refine ⟨rfl, ?_, ?_⟩
    · rw [hempty]
      exact fun _ h => absurd h List.not_mem_nil
    · rw [hempty]
      exact .nil 0
  exact fun s hrun => Loop.run_invariant (fun s pass h _ hpass => h.step pass hpass) hstart hrun

/-- **The tables that are accepted**, for pairs that the manifest admits. -/
theorem returns_initialize_paired {D : Type} (store : TensorStore D) (rows passes : Nat)
    (hadmitted : store.manifest.config.toNiwakiPle.Admitted) :
    Returns (initialize_paired store rows passes) Paired := by
  rw [initialize_paired]
  refine (returns_refuse_if _ _).bind fun _ hpair => (returns_refuse_if _ _).bind fun _ hexact => ?_
  simp only [not_or, not_lt, ne_eq, not_not] at hpair hexact
  obtain ⟨hpair, hbits, hgroup⟩ := hpair
  obtain ⟨hwords, hscales⟩ := hexact
  split
  · next layer hlayer =>
    refine (returns_collect _ _ _ _ rfl).bind ?_
    rintro ⟨logical_begin, table⟩ hcollected
    refine (returns_refuse_if _ _).bind fun _ htotal => Returns.ok ?_
    rw [not_or, not_not] at htotal
    -- the loop over the shards only collects them; the numbers are those of the manifest
    have hrows : table.rows = rows := congrArg NgramTable.rows hcollected.same
    have hpair_eq : table.pair = store.manifest.config.niwaki_ple_pair :=
      congrArg NgramTable.pair hcollected.same
    have hbits_eq : table.bits = store.manifest.config.niwaki_ple_bits :=
      congrArg NgramTable.bits hcollected.same
    have hgroup_eq : table.group_size = store.manifest.config.niwaki_ple_group_size :=
      congrArg NgramTable.group_size hcollected.same
    have hwords_eq : table.packed_word_count =
        size_t (size_t (dimension * store.manifest.config.niwaki_ple_pair) *
          store.manifest.config.niwaki_ple_bits) / 32 :=
      congrArg NgramTable.packed_word_count hcollected.same
    have hscales_eq : table.scale_count = size_t (dimension * store.manifest.config.niwaki_ple_pair) /
        store.manifest.config.niwaki_ple_group_size :=
      congrArg NgramTable.scale_count hcollected.same
    refine ⟨?_, ?_, ?_, ?_, ?_, ?_, ?_⟩
    · rw [hpair_eq]
      omega
    · rw [hbits_eq]
      exact hadmitted.resolve_left hbits
    · rw [hgroup_eq]
      exact Nat.pos_of_ne_zero hgroup
    · rw [hwords_eq, hpair_eq, hbits_eq]
      exact Nat.div_mul_cancel (Nat.dvd_of_mod_eq_zero hwords)
    · rw [hscales_eq, hpair_eq, hgroup_eq]
      exact Nat.div_mul_cancel (Nat.dvd_of_mod_eq_zero hscales)
    · intro shard hshard
      obtain ⟨physical_rows, hhas⟩ := hcollected.shards shard hshard
      refine ⟨physical_rows, ?_, ?_, ?_, ?_, hhas.weight_fits, hhas.scales_fits, hhas.biases_fits⟩
      · rw [hpair_eq]
        exact hhas.logical_end
      · rw [hwords_eq]
        exact hhas.weight
      · rw [hscales_eq]
        exact hhas.scales
      · rw [hscales_eq]
        exact hhas.biases
    · rw [hrows, ← htotal.2]
      exact hcollected.consecutive
  · exact Returns.error _

end NgramTable

/-! ### Reads -/

theorem size_t_eq {n : Nat} (h : n < 2 ^ 64) : size_t n = n := Nat.mod_eq_of_lt h

theorem size_t_le (n : Nat) : size_t n ≤ n := Nat.mod_le n _

/-- A read inside of a row of some width, and of the bytes there are. -/
def Within (buffer : Bytes) (width row offset count : Nat) : Prop :=
  row * width ≤ offset ∧ offset + count ≤ (row + 1) * width ∧ offset + count ≤ buffer.length

section Within

variable {buffer : Bytes} {rows width row place count : Nat}

/-- A read from a row that is there. -/
theorem within_of_le (hrow : row < rows) (hplace : place + count ≤ width)
    (hlength : rows * width ≤ buffer.length) (hfits : buffer.length < 2 ^ 63) :
    Within buffer width row (size_t (row * width) + place) count := by
  have hend : (row + 1) * width ≤ rows * width := Nat.mul_le_mul_right width hrow
  have hsucc : (row + 1) * width = row * width + width := Nat.succ_mul row width
  rw [size_t_eq (by omega)]
  refine ⟨Nat.le_add_right _ _, ?_, ?_⟩ <;> omega

/-- **A row from which the first and the last place can be read** is there. -/
theorem le_length_of_within {first : Nat} (hfirst : Within buffer width row (size_t (row * width)) first)
    (hlast : Within buffer width row (size_t (row * width) + place) count)
    (hwidth : place + count = width) : (row + 1) * width ≤ buffer.length := by
  have hle := size_t_le (row * width)
  have hstart := hfirst.1
  have hend := hlast.2.2
  have hsucc : (row + 1) * width = row * width + width := Nat.succ_mul row width
  omega

end Within

/-- The shard has the row. -/
def PairedShard.Holds (shard : PairedShard) (logical_row : Nat) : Prop :=
  shard.logical_begin ≤ logical_row ∧ logical_row < shard.logical_end

namespace NgramTable

variable {table : NgramTable} {shard : PairedShard} {logical_row physical_rows physical_row piece : Nat}

/-! ### What a lookup is for -/

/-- The reads for a column of a row. -/
structure ReadsColumn (table : NgramTable) (shard : PairedShard) (physical_row column : Nat) :
    Prop where
  word : Within shard.weight.bytes (table.packed_word_count * 4) physical_row
    (table.word_offset physical_row column) 4
  scale : Within shard.scales.bytes (table.scale_count * 2) physical_row
    (table.group_offset physical_row column) 2
  bias : Within shard.biases.bytes (table.scale_count * 2) physical_row
    (table.group_offset physical_row column) 2

/-- The words of a physical row. -/
def row_words (table : NgramTable) (shard : PairedShard) (physical_row : Nat) : List Nat :=
  LittleEndian.values 4 table.packed_word_count
    (shard.weight.bytes.drop (physical_row * (table.packed_word_count * 4)))

/-- **What the lookup of a row is for**: it finds the one shard with the row, it reads from the
physical row only, and the codes are those that are packed there. -/
structure LooksUp (table : NgramTable) (logical_row : Nat) : Prop where
  unique : ∃! i : Nat, ∃ shard, table.paired_shards[i]? = some shard ∧ shard.Holds logical_row
  found : ∃ shard ∈ table.paired_shards, table.find_paired logical_row = some shard ∧
    shard.Holds logical_row ∧
    (∀ index < dimension, table.ReadsColumn shard ((logical_row - shard.logical_begin) / table.pair)
      (size_t ((logical_row - shard.logical_begin) % table.pair * dimension + index))) ∧
    ∃ codes cells, BitPacking.Packed 32 table.bits codes
        (table.row_words shard ((logical_row - shard.logical_begin) / table.pair)) ∧
      codes.length = dimension * table.pair ∧ table.gather_paired logical_row = .ok cells ∧
      cells.map Cell.quantized =
        (codes.drop ((logical_row - shard.logical_begin) % table.pair * dimension)).take dimension

/-- The width of a code divides that of a word, and the bits of a row fit in a size. -/
structure Aligned (table : NgramTable) : Prop where
  bits : table.bits ∣ 32
  row_fits : dimension * table.pair * table.bits < 2 ^ 64

/-- **What it takes**: no code straddles two words, and the tensors have the bytes that their shapes
say. -/
structure Readable (table : NgramTable) : Prop extends table.Aligned where
  weight : ∀ shard ∈ table.paired_shards, shard.weight.shape.prod * 4 ≤ shard.weight.bytes.length
  scales : ∀ shard ∈ table.paired_shards, shard.scales.shape.prod * 2 ≤ shard.scales.bytes.length
  biases : ∀ shard ∈ table.paired_shards, shard.biases.shape.prod * 2 ≤ shard.biases.bytes.length

/-! ### Readable tables -/

namespace Paired

/-- A row of a readable table has no bits beside its codes. -/
theorem size_eq (h : table.Paired) (haligned : table.Aligned) :
    size_t (dimension * table.pair) = dimension * table.pair :=
  size_t_eq ((Nat.le_mul_of_pos_right _ (by have := h.bits.1; omega)).trans_lt haligned.row_fits)

theorem words_eq (h : table.Paired) (haligned : table.Aligned) :
    table.packed_word_count * 32 = dimension * table.pair * table.bits := by
  rw [h.words, h.size_eq haligned, size_t_eq haligned.row_fits]

theorem columns_eq (h : table.Paired) (haligned : table.Aligned) :
    table.packed_word_count * table.values_per_word = dimension * table.pair := by
  have hbits : 0 < table.bits := Nat.lt_of_lt_of_le Nat.two_pos h.bits.1
  refine Nat.eq_of_mul_eq_mul_right hbits ?_
  rw [Nat.mul_assoc, values_per_word, Nat.div_mul_cancel haligned.bits, h.words_eq haligned]

theorem groups_eq (h : table.Paired) (haligned : table.Aligned) :
    table.scale_count * table.group_size = dimension * table.pair := by
  rw [h.scales, h.size_eq haligned]

/-- The word of a column. -/
theorem word_lt (h : table.Paired) (haligned : table.Aligned) {column : Nat}
    (hcolumn : column < dimension * table.pair) :
    column / table.values_per_word < table.packed_word_count := by
  refine Nat.div_lt_of_lt_mul ?_
  rwa [Nat.mul_comm, h.columns_eq haligned]

/-- The group of a column. -/
theorem group_lt (h : table.Paired) (haligned : table.Aligned) {column : Nat}
    (hcolumn : column < dimension * table.pair) : column / table.group_size < table.scale_count := by
  refine Nat.div_lt_of_lt_mul ?_
  rwa [Nat.mul_comm, h.groups_eq haligned]

end Paired

/-- The widths of a row are sizes. -/
theorem size_width_eq {buffer : Bytes} {rows width : Nat} (hrow : physical_row < rows)
    (hlength : rows * width ≤ buffer.length) (hfits : buffer.length < 2 ^ 63) : size_t width = width := by
  have hle : width ≤ rows * width := Nat.le_mul_of_pos_left width (by omega)
  exact size_t_eq (by omega)

/-- **The reads for a column** of a readable table. -/
theorem Paired.readsColumn (h : table.Paired) (hreadable : table.Readable)
    (hshard : shard ∈ table.paired_shards) (hhas : shard.Has table physical_rows)
    (hrow : physical_row < physical_rows) {column : Nat} (hcolumn : column < dimension * table.pair) :
    table.ReadsColumn shard physical_row column := by
  have hweight := hreadable.weight shard hshard
  have hscales := hreadable.scales shard hshard
  have hbiases := hreadable.biases shard hshard
  rw [hhas.weight, List.prod_cons, List.prod_singleton, Nat.mul_assoc] at hweight
  rw [hhas.scales, List.prod_cons, List.prod_singleton, Nat.mul_assoc] at hscales
  rw [hhas.biases, List.prod_cons, List.prod_singleton, Nat.mul_assoc] at hbiases
  have hword := h.word_lt hreadable.toAligned hcolumn
  have hgroup := h.group_lt hreadable.toAligned hcolumn
  refine ⟨?_, ?_, ?_⟩
  · rw [word_offset, size_width_eq hrow hweight hhas.weight_fits.length]
    exact within_of_le hrow (by omega) hweight hhas.weight_fits.length
  · rw [group_offset, size_width_eq hrow hscales hhas.scales_fits.length]
    exact within_of_le hrow (by omega) hscales hhas.scales_fits.length
  · rw [group_offset, size_width_eq hrow hscales hhas.scales_fits.length]
    exact within_of_le hrow (by omega) hbiases hhas.biases_fits.length

/-- **A cell** has the code of its column. -/
theorem Paired.decode_cell_eq (h : table.Paired) (hreadable : table.Readable) {codes : List Nat}
    (hshard : shard ∈ table.paired_shards) (hhas : shard.Has table physical_rows)
    (hrow : physical_row < physical_rows)
    (hpacked : BitPacking.Packed 32 table.bits codes (table.row_words shard physical_row))
    (hlength : codes.length = dimension * table.pair) {column : Nat}
    (hcolumn : column < dimension * table.pair) :
    ∃ cell, table.decode_cell shard physical_row column = .ok cell ∧
      some cell.quantized = codes[column]? := by
  obtain ⟨hword, hscale, hbias⟩ := h.readsColumn hreadable hshard hhas hrow hcolumn
  rw [decode_cell, slice_eq hword.2.2, Except.ok_bind, slice_eq hscale.2.2, Except.ok_bind,
    slice_eq hbias.2.2, Except.ok_bind]
  refine ⟨_, rfl, ?_⟩
  have hplace : column < codes.length := by rwa [hlength]
  have hweight := hreadable.weight shard hshard
  rw [hhas.weight, List.prod_cons, List.prod_singleton, Nat.mul_assoc] at hweight
  have hoffset : table.word_offset physical_row column =
      physical_row * (table.packed_word_count * 4) + column / table.values_per_word * 4 := by
    have hle : physical_row * (table.packed_word_count * 4) ≤
        physical_rows * (table.packed_word_count * 4) :=
      Nat.mul_le_mul_right _ hrow.le
    have hfits := hhas.weight_fits.length
    rw [word_offset, size_width_eq hrow hweight hfits, size_t_eq (by omega)]
  have hread : (table.row_words shard physical_row)[column / table.values_per_word]? =
      some (LittleEndian.value
        ((shard.weight.bytes.drop (table.word_offset physical_row column)).take 4)) := by
    rw [row_words, LittleEndian.getElem?_values _ (h.word_lt hreadable.toAligned hcolumn),
      List.drop_drop, hoffset]
  rw [List.getElem?_eq_getElem hplace, Option.some.injEq,
    ← hpacked.aligned_eq (by decide) hreadable.bits hplace hread, Nat.and_two_pow_sub_one_eq_mod]
  rfl

/-- A column of a piece. -/
theorem column_lt (hpiece : piece < table.pair) {index : Nat} (hindex : index < dimension) :
    piece * dimension + index < dimension * table.pair :=
  calc piece * dimension + index < piece * dimension + dimension := Nat.add_lt_add_left hindex _
    _ = (piece + 1) * dimension := (Nat.succ_mul piece dimension).symm
    _ ≤ table.pair * dimension := Nat.mul_le_mul_right dimension hpiece
    _ = dimension * table.pair := Nat.mul_comm _ _

/-- **A row** of a readable table. -/
theorem Paired.decode_paired_row_eq (h : table.Paired) (hreadable : table.Readable) {codes : List Nat}
    (hshard : shard ∈ table.paired_shards) (hhas : shard.Has table physical_rows)
    (hholds : shard.Holds logical_row)
    (hrow : (logical_row - shard.logical_begin) / table.pair < physical_rows)
    (hpacked : BitPacking.Packed 32 table.bits codes
      (table.row_words shard ((logical_row - shard.logical_begin) / table.pair)))
    (hlength : codes.length = dimension * table.pair) :
    ∃ cells, table.decode_paired_row shard logical_row = .ok cells ∧ cells.map Cell.quantized =
      (codes.drop ((logical_row - shard.logical_begin) % table.pair * dimension)).take dimension := by
  have hpiece : (logical_row - shard.logical_begin) % table.pair < table.pair := Nat.mod_lt _ h.pair
  have hbits := h.bits.1
  have hsize : dimension * table.pair ≤ dimension * table.pair * table.bits :=
    Nat.le_mul_of_pos_right _ (by omega)
  have hfits := hreadable.row_fits
  obtain ⟨cells, hcells, hcount, hcodes⟩ := Except.mapM_range_ok (n := dimension)
    (P := fun index cell => some cell.quantized =
      codes[(logical_row - shard.logical_begin) % table.pair * dimension + index]?)
    (f := fun index => table.decode_cell shard ((logical_row - shard.logical_begin) / table.pair)
      (size_t ((logical_row - shard.logical_begin) % table.pair * dimension + index))) fun index hindex => by
    have hcolumn := column_lt hpiece hindex
    rw [size_t_eq (by omega)]
    exact h.decode_cell_eq hreadable hshard hhas hrow hpacked hlength hcolumn
  refine ⟨cells, ?_, ?_⟩
  · rw [decode_paired_row, refuse_if_of_not (by unfold PairedShard.Holds at hholds; omega)]
    exact hcells
  · refine List.ext_getElem? fun index => ?_
    rw [List.getElem?_map, List.getElem?_take]
    split
    · next hindex =>
      have hplace : index < cells.length := by rwa [hcount]
      rw [List.getElem?_drop, ← hcodes index _ (List.getElem?_eq_getElem hplace),
        List.getElem?_eq_getElem hplace]
      rfl
    · next hindex =>
      rw [List.getElem?_eq_none (by rw [hcount]; exact Nat.le_of_not_lt hindex)]
      rfl

/-- **A lookup in a readable table.** -/
theorem Paired.looksUp (h : table.Paired) (hreadable : table.Readable) (hrow : logical_row < table.rows) :
    table.LooksUp logical_row := by
  have hunique := h.consecutive.existsUnique (Nat.zero_le logical_row) hrow
  obtain ⟨i, ⟨shard, hi, hholds⟩, -⟩ := id hunique
  have hshard := List.mem_of_getElem? hi
  have hfind : table.find_paired logical_row = some shard :=
    h.consecutive.find_eq_of_mem hshard hholds.1 hholds.2
  obtain ⟨physical_rows, hhas⟩ := h.shards shard hshard
  have hpiece : (logical_row - shard.logical_begin) % table.pair < table.pair := Nat.mod_lt _ h.pair
  -- the shard has as many rows as its pairs fill
  have hphysical : (logical_row - shard.logical_begin) / table.pair < physical_rows := by
    refine Nat.div_lt_of_lt_mul ?_
    have hend := hhas.logical_end
    rw [Nat.mul_comm] at hend
    omega
  have hbits := h.bits.1
  have hsize : dimension * table.pair ≤ dimension * table.pair * table.bits :=
    Nat.le_mul_of_pos_right _ (by omega)
  have hfits := hreadable.row_fits
  -- the codes are what the words of the row unpack to
  have hpacked : BitPacking.Packed 32 table.bits
      (BitPacking.pack table.bits 32 (dimension * table.pair)
        (table.row_words shard ((logical_row - shard.logical_begin) / table.pair)))
      (table.row_words shard ((logical_row - shard.logical_begin) / table.pair)) := by
    refine BitPacking.packed_unpack (by decide) (fun word hword => LittleEndian.values_lt hword) ?_
    rw [row_words, LittleEndian.length_values, h.words_eq hreadable.toAligned]
  obtain ⟨cells, hcells, hcodes⟩ := h.decode_paired_row_eq hreadable hshard hhas hholds hphysical hpacked
    (BitPacking.length_pack _ _ _ _)
  refine ⟨hunique, shard, hshard, hfind, hholds, fun index hindex => ?_, _, cells, hpacked,
    BitPacking.length_pack _ _ _ _, ?_, hcodes⟩
  · have hcolumn := column_lt hpiece hindex
    rw [size_t_eq (by omega)]
    exact h.readsColumn hreadable hshard hhas hphysical hcolumn
  · rw [gather_paired, refuse_if_of_not (by omega), Int.toNat_natCast, hfind]
    change (refuse_if _ _ >>= fun _ => table.decode_paired_row shard logical_row) = _
    rw [refuse_if_of_not (Nat.not_lt.mpr hholds.1)]
    exact hcells

/-! ### Tables that are read -/

/-- **Rows whose columns are read** are there. -/
theorem length_of_reads {buffer : Bytes} {count per size rows columns : Nat}
    (hsize : size_t (count * size) = count * size) (hcount : count * per = columns) (hpos : 0 < columns)
    (hreads : ∀ row < rows, ∀ column < columns, Within buffer (count * size) row
      (size_t (row * size_t (count * size)) + column / per * size) size) :
    rows * (count * size) ≤ buffer.length := by
  cases rows with
  | zero =>
    rw [Nat.zero_mul]
    exact Nat.zero_le _
  | succ row =>
    have hfirst := hreads row (Nat.lt_succ_self row) 0 hpos
    have hlast := hreads row (Nat.lt_succ_self row) (columns - 1) (Nat.sub_lt hpos Nat.one_pos)
    have hper : 0 < per := Nat.pos_of_mul_pos_left (hcount ▸ hpos)
    have hsucc : count = count - 1 + 1 := by
      have hne : 0 < count := Nat.pos_of_mul_pos_right (hcount ▸ hpos)
      omega
    have hplace : (columns - 1) / per = count - 1 := by
      rw [hsucc, Nat.succ_mul] at hcount
      refine Nat.div_eq_of_lt_le (by omega) ?_
      rw [Nat.succ_mul]
      omega
    rw [hsize, Nat.zero_div, Nat.zero_mul, Nat.add_zero] at hfirst
    rw [hsize, hplace] at hlast
    refine le_length_of_within hfirst hlast ?_
    rw [← Nat.succ_mul, Nat.succ_eq_add_one, ← hsucc]

/-- The row of a piece. -/
theorem holds_piece (hhas : shard.Has table physical_rows)
    (hrow : physical_row < physical_rows) (hpiece : piece < table.pair) :
    shard.Holds (shard.logical_begin + (physical_row * table.pair + piece)) := by
  have hlt : physical_row * table.pair + piece < physical_rows * table.pair :=
    calc physical_row * table.pair + piece < physical_row * table.pair + table.pair :=
          Nat.add_lt_add_left hpiece _
      _ = (physical_row + 1) * table.pair := (Nat.succ_mul _ _).symm
      _ ≤ physical_rows * table.pair := Nat.mul_le_mul_right _ hrow
  refine ⟨Nat.le_add_right _ _, ?_⟩
  rw [hhas.logical_end]
  exact Nat.add_lt_add_left hlt _

/-- **The reads for a column**, where all rows are looked up. -/
theorem Paired.readsColumn_of_looksUp (h : table.Paired)
    (hall : ∀ logical_row < table.rows, table.LooksUp logical_row)
    (hshard : shard ∈ table.paired_shards) (hhas : shard.Has table physical_rows)
    (hrow : physical_row < physical_rows) {column : Nat} (hcolumn : column < dimension * table.pair)
    (hfits : column < 2 ^ 64) : table.ReadsColumn shard physical_row column := by
  have hpiece : column / dimension < table.pair := Nat.div_lt_of_lt_mul hcolumn
  have hholds := holds_piece hhas hrow hpiece
  obtain ⟨i, hi⟩ := List.getElem?_of_mem hshard
  have hlast := (h.consecutive.le_of_getElem? hi).2.2
  obtain ⟨found, -, hfind, -, hreads, -⟩ := (hall _ (hholds.2.trans_le hlast)).found
  have hfound : table.find_paired _ = some shard := h.consecutive.find_eq_of_mem hshard hholds.1 hholds.2
  obtain rfl := Option.some.inj (hfind.symm.trans hfound)
  have hread := hreads (column % dimension) (Nat.mod_lt _ (by decide))
  rw [Nat.add_sub_cancel_left, Nat.add_comm, Nat.add_mul_div_right _ _ h.pair, Nat.div_eq_of_lt hpiece,
    Nat.zero_add, Nat.add_mul_mod_self_right, Nat.mod_eq_of_lt hpiece, Nat.div_add_mod',
    size_t_eq hfits] at hread
  exact hread

/-- **A table whose columns have their words** has no code that straddles two of them: the last code
of a row would end in a word that the row does not have. -/
theorem Paired.aligned_of_words (h : table.Paired)
    (hwords : ∀ column < dimension * table.pair, column < 2 ^ 64 →
      column / table.values_per_word < table.packed_word_count) : table.Aligned := by
  obtain ⟨hleast, hmost⟩ := h.bits
  have hpair := h.pair
  have hper : 0 < table.values_per_word := Nat.div_pos (by omega) (by omega)
  have hsize : table.packed_word_count * 32 < 2 ^ 64 := by
    rw [h.words]
    exact Nat.mod_lt _ (Nat.two_pow_pos 64)
  have hdimension : 0 < dimension * table.pair := Nat.mul_pos (by decide) hpair
  have hlt : dimension * table.pair < 2 ^ 64 := by
    by_contra hge
    have hword := hwords (2 ^ 64 - 1) (by omega) (by decide)
    have hmax : table.values_per_word ≤ 16 := Nat.div_le_div_left hleast (by decide)
    have hle : (2 ^ 64 - 1) / 16 ≤ (2 ^ 64 - 1) / table.values_per_word := Nat.div_le_div_left hmax hper
    omega
  have hword := hwords (dimension * table.pair - 1) (by omega) (by omega)
  rw [Nat.div_lt_iff_lt_mul hper] at hword
  have hfit : table.values_per_word * table.bits ≤ 32 := Nat.div_mul_le_self 32 table.bits
  have hsum := h.words
  rw [size_t_eq hlt] at hsum
  have hle := size_t_le (dimension * table.pair * table.bits)
  -- all bits of the words are bits of codes
  have hcodes : dimension * table.pair * table.bits ≤
      table.packed_word_count * (table.values_per_word * table.bits) := by
    rw [← Nat.mul_assoc]
    exact Nat.mul_le_mul_right _ (by omega)
  have hexact : table.packed_word_count * (table.values_per_word * table.bits) =
      table.packed_word_count * 32 := by
    have hbound := Nat.mul_le_mul_left table.packed_word_count hfit
    omega
  have hpos : 0 < table.packed_word_count := by
    refine Nat.pos_of_ne_zero fun hzero => ?_
    rw [hzero, Nat.zero_mul] at hword
    omega
  refine ⟨?_, by omega⟩
  exact ⟨table.values_per_word, by rw [Nat.mul_comm, Nat.eq_of_mul_eq_mul_left hpos hexact]⟩

/-- **A table of which all rows are looked up.** -/
theorem Paired.readable_of_looksUp (h : table.Paired) (hrows : 0 < table.rows)
    (hall : ∀ logical_row < table.rows, table.LooksUp logical_row) : table.Readable := by
  -- a shard with a row, for the widths
  obtain ⟨shard, hshard, -, hholds, -⟩ := (hall 0 hrows).found
  obtain ⟨physical_rows, hhas⟩ := h.shards shard hshard
  have hrow : 0 < physical_rows := by
    refine Nat.pos_of_ne_zero fun hzero => ?_
    have hend := hhas.logical_end
    rw [hzero, Nat.zero_mul, Nat.add_zero] at hend
    exact absurd (hholds.1.trans_lt hholds.2) (by omega)
  have haligned : table.Aligned := by
    refine h.aligned_of_words fun column hcolumn hfits => ?_
    have hword := (h.readsColumn_of_looksUp hall hshard hhas hrow hcolumn hfits).word.2.1
    rw [word_offset, Nat.zero_mul, size_t_eq (by decide), Nat.zero_add] at hword
    omega
  have hbits := h.bits.1
  have hsize : dimension * table.pair * 2 ≤ dimension * table.pair * table.bits :=
    Nat.mul_le_mul_left _ hbits
  have hfits := haligned.row_fits
  have hpos : 0 < dimension * table.pair := Nat.mul_pos (by decide) h.pair
  have hgroups := h.groups_eq haligned
  have hwords := h.words_eq haligned
  have hcount : table.scale_count ≤ table.scale_count * table.group_size :=
    Nat.le_mul_of_pos_right _ h.group_size
  refine ⟨haligned, ?_, ?_, ?_⟩ <;> intro shard hshard <;>
    obtain ⟨physical_rows, hhas⟩ := h.shards shard hshard
  · rw [hhas.weight, List.prod_cons, List.prod_singleton, Nat.mul_assoc]
    refine length_of_reads (size_t_eq (by omega)) (h.columns_eq haligned) hpos ?_
    exact fun row hrow column hcolumn =>
      (h.readsColumn_of_looksUp hall hshard hhas hrow hcolumn (by omega)).word
  · rw [hhas.scales, List.prod_cons, List.prod_singleton, Nat.mul_assoc]
    refine length_of_reads (size_t_eq (by omega)) hgroups hpos ?_
    exact fun row hrow column hcolumn =>
      (h.readsColumn_of_looksUp hall hshard hhas hrow hcolumn (by omega)).scale
  · rw [hhas.biases, List.prod_cons, List.prod_singleton, Nat.mul_assoc]
    refine length_of_reads (size_t_eq (by omega)) hgroups hpos ?_
    exact fun row hrow column hcolumn =>
      (h.readsColumn_of_looksUp hall hshard hhas hrow hcolumn (by omega)).bias

/-- **When all rows are looked up.** A row needs nothing that another does not, so it is all of them
or none, and a table without rows asks for nothing. -/
theorem Paired.looksUp_iff (h : table.Paired) :
    (∀ logical_row < table.rows, table.LooksUp logical_row) ↔ (0 < table.rows → table.Readable) := by
  constructor
  · exact fun hall hrows => h.readable_of_looksUp hrows hall
  · exact fun hreadable logical_row hrow => h.looksUp (hreadable (Nat.zero_lt_of_lt hrow)) hrow

end NgramTable

end Qwen38
