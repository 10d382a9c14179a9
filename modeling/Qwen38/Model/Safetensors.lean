import Qwen38.Lib.Checked
import Qwen38.Lib.LittleEndian
import Qwen38.Token.Tokenizer

/-!
# Safetensors files

`SafetensorsFile`: eight bytes with the length of the header, the header as JSON, and the data. The
constructor checks the ranges of the tensors against the size of the file, and a view is a part of
the mapped bytes.

The arithmetic on sizes is that of 64 bits. `Qwen38.safetensors_bounds` says that no sum and no
difference wraps around, and that no byte outside the file is read, whatever the file is.
-/

namespace Qwen38

open Checked

/-- A program of the loader: it throws messages. -/
abbrev Load (α : Type) := Run Bytes α

/-- A message with a name at its end. -/
def message (text : String) (name : Bytes := []) : Bytes := bytes text ++ name

/-- What the accessors of JSON throw. -/
def json {α : Type} (x : Except String α) : Load α := lift bytes x

/-- `MappedFile`. A size is not negative as an `off_t`. -/
structure MappedFile where
  bytes : Bytes
  size_lt : bytes.length < 2 ^ 63

/-! ### The index -/

/-- `TensorMetadata`. -/
structure TensorMetadata where
  dtype : Bytes
  shape : List Nat
  begin_offset : Nat
  end_offset : Nat

/-- `TensorView`. -/
structure TensorView where
  dtype : Bytes
  shape : List Nat
  bytes : Bytes

/-- `SafetensorsFile`. -/
structure SafetensorsFile where
  file : MappedFile
  data_offset : Nat
  tensors : UnorderedMap Bytes TensorMetadata

/-- `read_u64_le`. -/
def read_u64_le (bytes : Bytes) : Load Nat := do
  refuse_if (bytes.length < 8) (message "safetensors file is shorter than its length prefix")
  (List.range 8).foldlM (fun result i => do
    let byte ← get bytes i
    let shifted ← shift_left 64 byte.toNat (i * 8)
    .ok (result ||| shifted)) 0

/-- `checked_size`. -/
def checked_size (value : Int) (field : String) : Load Nat := do
  refuse_if (value < 0 ∨ 2 ^ 64 - 1 < value) (message ("invalid safetensors " ++ field))
  .ok value.toNat

/-- A tensor of the header. -/
def read_tensor {D : Type} (size data_offset : Nat) (name : Bytes) (description : Json D) :
    Load TensorMetadata := do
  let dtype ← json (description.at_key "dtype")
  let dtype ← json dtype.get_string
  let shape ← json (description.at_key "shape")
  let shape ← json shape.get_array
  let shape ← shape.mapM fun dimension => do
    let dimension ← json dimension.get_integer
    checked_size dimension "shape"
  let offsets ← json (description.at_key "data_offsets")
  let offsets ← json offsets.get_array
  match offsets with
  | [begin_offset, end_offset] => do
    let begin_offset ← json begin_offset.get_integer
    let begin_offset ← checked_size begin_offset "begin offset"
    let end_offset ← json end_offset.get_integer
    let end_offset ← checked_size end_offset "end offset"
    let data_size ← sub size data_offset
    refuse_if (end_offset < begin_offset ∨ data_size < end_offset)
      (message "tensor data range exceeds shard: " name)
    .ok ⟨dtype, shape, begin_offset, end_offset⟩
  | _ => .error (.thrown (message "tensor data_offsets must contain two values: " name))

/-- The constructor of `SafetensorsFile`. -/
def SafetensorsFile.read (numbers : NumberText) (buckets : UnorderedMap.BucketOrder Bytes)
    (path : Bytes) (file : MappedFile) : Load SafetensorsFile := do
  let size := file.bytes.length
  let header_size ← read_u64_le file.bytes
  refuse_if (2 ^ 64 - 1 < header_size) (message "safetensors header is too large: " path)
  let longest ← sub size 8
  refuse_if (longest < header_size) (message "safetensors header exceeds file size: " path)
  let data_offset ← add 64 8 header_size
  let text ← slice file.bytes 8 header_size
  let header ← lift (fun failure => message (failure.what text.length)) (Json.parse numbers text)
  let entries ← json header.get_object
  let tensors ← (iterate buckets entries).foldlM (fun tensors (name, description) =>
    if name = bytes "__metadata__" then .ok tensors
    else do
      let metadata ← read_tensor size data_offset name description
      .ok (UnorderedMap.emplace buckets tensors name metadata)) ∅
  .ok ⟨file, data_offset, tensors⟩

/-- `contains`. -/
def SafetensorsFile.contains (index : SafetensorsFile) (name : Bytes) : Bool := name ∈ index.tensors

/-- `tensor`. -/
def SafetensorsFile.tensor (index : SafetensorsFile) (name : Bytes) : Load TensorView :=
  match index.tensors.lookup name with
  | none => .error (.thrown (message "tensor not found: " name))
  | some metadata => do
    let offset ← add 64 index.data_offset metadata.begin_offset
    let count ← sub metadata.end_offset metadata.begin_offset
    let view ← slice index.file.bytes offset count
    .ok ⟨metadata.dtype, metadata.shape, view⟩

/-! ### Bounds -/

/-- **The length prefix** is read as a number of 64 bits. -/
theorem ends_read_u64_le (bytes : Bytes) : Ends (read_u64_le bytes) fun header_size =>
    8 ≤ bytes.length ∧ header_size = LittleEndian.value (bytes.take 8) ∧ header_size < 2 ^ 64 := by
  refine (ends_refuse_if _ _).bind fun _ hlength => ?_
  rw [Nat.not_lt] at hlength
  have hstep : ∀ i result, i < 8 → result = LittleEndian.value (bytes.take i) → ∃ next,
      (do
        let byte ← get bytes i
        let shifted ← shift_left 64 byte.toNat (i * 8)
        (.ok (result ||| shifted) : Load Nat)) = .ok next ∧
      next = LittleEndian.value (bytes.take (i + 1)) := by
    intro i result hi hresult
    have hplace : i < bytes.length := by omega
    have hbyte := bytes[i].toNat_lt
    have hshift : bytes[i].toNat <<< (i * 8) < 2 ^ 64 := by
      rw [Nat.shiftLeft_eq]
      have hpow : 2 ^ (i * 8) ≤ 2 ^ 56 := Nat.pow_le_pow_right (by decide) (by omega)
      have hle := Nat.mul_le_mul (Nat.le_of_lt_succ hbyte) hpow
      omega
    have hlow : result < 2 ^ (i * 8) := by
      have hlt := LittleEndian.value_lt (bytes.take i)
      rw [List.length_take, Nat.min_eq_left hplace.le, ← hresult] at hlt
      rwa [Nat.mul_comm, Nat.pow_mul]
    rw [get_eq hplace, Except.ok_bind, shift_left_eq hshift, Except.ok_bind]
    refine ⟨_, rfl, ?_⟩
    have hpow : 256 ^ i = 2 ^ (i * 8) := by rw [Nat.mul_comm, Nat.pow_mul]
    rw [Nat.or_comm, ← Nat.shiftLeft_add_eq_or_of_lt hlow, List.take_succ_eq_append_getElem hplace,
      LittleEndian.value_concat, List.length_take, Nat.min_eq_left hplace.le, hresult,
      Nat.shiftLeft_eq, hpow, Nat.mul_comm, Nat.add_comm]
  obtain ⟨result, hrun, hresult⟩ := Except.foldlM_range_ok hstep
    (show (0 : Nat) = LittleEndian.value (bytes.take 0) from rfl)
  rw [hrun]
  refine ⟨hlength, hresult, ?_⟩
  have hlt := LittleEndian.value_lt (bytes.take 8)
  rw [List.length_take, Nat.min_eq_left hlength, ← hresult] at hlt
  exact hlt

theorem ends_checked_size (value : Int) (field : String) :
    Ends (checked_size value field) fun _ => True :=
  (ends_refuse_if _ _).bind fun _ _ => trivial

/-- An accessor of JSON. -/
theorem ends_json {α : Type} (x : Except String α) : Ends (json x) fun _ => True :=
  (ends_lift bytes x).mono fun _ _ => trivial

/-- **The range of a tensor** is in the data. -/
theorem ends_read_tensor {D : Type} {size data_offset : Nat} (h : data_offset ≤ size) (name : Bytes)
    (description : Json D) : Ends (read_tensor size data_offset name description) fun metadata =>
      metadata.begin_offset ≤ metadata.end_offset ∧ data_offset + metadata.end_offset ≤ size := by
  refine (ends_json _).bind fun dtype _ => (ends_json _).bind fun dtype _ => ?_
  refine (ends_json _).bind fun shape _ => (ends_json _).bind fun shape _ => ?_
  have hshape : Ends (shape.mapM fun dimension => do
      let dimension ← json dimension.get_integer
      checked_size dimension "shape") fun sizes => ∀ size ∈ sizes, True :=
    Ends.mapM fun _ _ => (ends_json _).bind fun _ _ => ends_checked_size _ _
  refine hshape.bind fun shape _ => ?_
  refine (ends_json _).bind fun offsets _ => (ends_json _).bind fun offsets _ => ?_
  split
  · refine (ends_json _).bind fun _ _ => (ends_checked_size _ _).bind fun begin_offset _ => ?_
    refine (ends_json _).bind fun _ _ => (ends_checked_size _ _).bind fun end_offset _ => ?_
    refine (ends_sub h).bind fun data_size hsize => ?_
    refine (ends_refuse_if _ _).bind fun _ hrange => Ends.ok ?_
    subst hsize
    change begin_offset ≤ end_offset ∧ data_offset + end_offset ≤ size
    omega
  · exact trivial

/-- Every tensor of the index has its range in the data. -/
def Bounded (size data_offset : Nat) (tensors : UnorderedMap Bytes TensorMetadata) : Prop :=
  ∀ name metadata, tensors.lookup name = some metadata →
    metadata.begin_offset ≤ metadata.end_offset ∧ data_offset + metadata.end_offset ≤ size

theorem Bounded.emplace {size data_offset : Nat} {tensors : UnorderedMap Bytes TensorMetadata}
    (h : Bounded size data_offset tensors) (buckets : UnorderedMap.BucketOrder Bytes) {name : Bytes}
    {metadata : TensorMetadata} (hrange : metadata.begin_offset ≤ metadata.end_offset ∧
      data_offset + metadata.end_offset ≤ size) :
    Bounded size data_offset (UnorderedMap.emplace buckets tensors name metadata) := by
  intro other found hfound
  rcases UnorderedMap.lookup_of_lookup_emplace hfound with hold | ⟨-, rfl⟩
  · exact h other found hold
  · exact hrange

/-- A view of an index with all ranges in the data. -/
theorem SafetensorsFile.ends_tensor {index : SafetensorsFile} (name : Bytes)
    (h : Bounded index.file.bytes.length index.data_offset index.tensors) :
    Ends (index.tensor name) fun view => ∃ metadata, index.tensors.lookup name = some metadata ∧
      view.bytes = (index.file.bytes.drop (index.data_offset + metadata.begin_offset)).take
        (metadata.end_offset - metadata.begin_offset) ∧
      view.bytes.length = metadata.end_offset - metadata.begin_offset := by
  rw [SafetensorsFile.tensor]
  split
  · exact trivial
  · next metadata hfound =>
    obtain ⟨hle, hend⟩ := h name metadata hfound
    have hsize := index.file.size_lt
    refine (ends_add (by omega)).bind fun offset hoffset => ?_
    refine (ends_sub hle).bind fun count hcount => ?_
    subst hoffset
    subst hcount
    have hinside : index.data_offset + metadata.begin_offset +
        (metadata.end_offset - metadata.begin_offset) ≤ index.file.bytes.length := by omega
    refine (ends_slice hinside).bind fun view hview => Ends.ok ⟨metadata, hfound, hview, ?_⟩
    rw [hview]
    exact length_take_drop hinside

/-- **The constructor** reads the length prefix and checks the ranges. -/
theorem SafetensorsFile.ends_read (numbers : NumberText) (buckets : UnorderedMap.BucketOrder Bytes)
    (path : Bytes) (file : MappedFile) :
    Ends (SafetensorsFile.read numbers buckets path file) fun index => index.file = file ∧
      index.data_offset = 8 + LittleEndian.value (file.bytes.take 8) ∧
      index.data_offset ≤ file.bytes.length ∧
      Bounded file.bytes.length index.data_offset index.tensors := by
  have hsize := file.size_lt
  refine (ends_read_u64_le file.bytes).bind fun header_size hheader => ?_
  obtain ⟨height, hvalue, hword⟩ := hheader
  refine (ends_refuse_if _ _).bind fun _ _ => ?_
  refine (ends_sub height).bind fun longest hlongest => ?_
  refine (ends_refuse_if _ _).bind fun _ hfits => ?_
  subst hlongest
  refine (ends_add (by omega)).bind fun data_offset hoffset => ?_
  have hinside : 8 + header_size ≤ file.bytes.length := by omega
  refine (ends_slice hinside).bind fun text _ => ?_
  refine (ends_lift _ _).bind fun header _ => (ends_json _).bind fun entries _ => ?_
  have hstart : Bounded file.bytes.length data_offset ∅ := by
    intro name metadata hfound
    rw [AList.lookup_empty] at hfound
    cases hfound
  refine (Ends.foldlM hstart ?_).bind fun tensors htensors => ?_
  · rintro tensors htensors ⟨name, description⟩ -
    change Ends (if name = bytes "__metadata__" then _ else _) _
    split
    · exact htensors
    · refine (ends_read_tensor (by omega) name description).bind fun metadata hrange => ?_
      exact htensors.emplace buckets hrange
  · refine Ends.ok ⟨rfl, ?_, ?_, htensors⟩
    · rw [hoffset, hvalue]
    · change data_offset ≤ file.bytes.length
      omega

/-! ### Sizes -/

theorem returns_checked_size (value : Int) (field : String) :
    Returns (checked_size value field) fun size => size < 2 ^ 64 :=
  (ends_refuse_if _ _).returns.bind fun _ hrange => Returns.ok (by omega)

/-- **The sizes of a tensor** are of 64 bits. -/
theorem returns_read_tensor {D : Type} (size data_offset : Nat) (name : Bytes) (description : Json D) :
    Returns (read_tensor size data_offset name description) fun metadata =>
      ∀ dimension ∈ metadata.shape, dimension < 2 ^ 64 := by
  refine Returns.skip fun dtype => Returns.skip fun dtype => Returns.skip fun shape => ?_
  refine Returns.skip fun shape => (Returns.mapM (P := (· < 2 ^ 64)) shape fun dimension =>
    Returns.skip fun _ => returns_checked_size _ _).bind fun shape hshape => ?_
  refine Returns.skip fun offsets => Returns.skip fun offsets => ?_
  split
  · refine Returns.skip fun _ => Returns.skip fun _ => Returns.skip fun _ => Returns.skip fun _ => ?_
    exact Returns.skip fun _ => Returns.skip fun _ => Returns.ok hshape
  · exact Returns.error _

/-- A view has the shape of the header. -/
theorem SafetensorsFile.returns_tensor (index : SafetensorsFile) (name : Bytes) :
    Returns (index.tensor name) fun view =>
      ∃ metadata, index.tensors.lookup name = some metadata ∧ view.shape = metadata.shape := by
  rw [SafetensorsFile.tensor]
  split
  · exact Returns.error _
  · next metadata hfound =>
    refine Returns.skip fun offset => Returns.skip fun count => Returns.skip fun view => ?_
    exact Returns.ok ⟨metadata, hfound, rfl⟩

theorem SafetensorsFile.returns_read (numbers : NumberText) (buckets : UnorderedMap.BucketOrder Bytes)
    (path : Bytes) (file : MappedFile) :
    Returns (SafetensorsFile.read numbers buckets path file) fun index => ∀ name metadata,
      index.tensors.lookup name = some metadata → ∀ dimension ∈ metadata.shape, dimension < 2 ^ 64 := by
  refine Returns.skip fun header_size => Returns.skip fun _ => Returns.skip fun longest => ?_
  refine Returns.skip fun _ => Returns.skip fun data_offset => Returns.skip fun text => ?_
  refine Returns.skip fun header => Returns.skip fun entries => ?_
  refine (Returns.foldlM (I := fun _ (tensors : UnorderedMap Bytes TensorMetadata) => ∀ name metadata,
    tensors.lookup name = some metadata → ∀ dimension ∈ metadata.shape, dimension < 2 ^ 64)
    ?_ ?_ _).bind fun tensors htensors => Returns.ok htensors
  · intro name metadata hfound
    rw [AList.lookup_empty] at hfound
    cases hfound
  · rintro - tensors ⟨name, description⟩ htensors
    change Returns (if name = bytes "__metadata__" then _ else _) _
    split
    · exact Returns.ok htensors
    · refine (returns_read_tensor _ _ name description).bind fun metadata hshape => Returns.ok ?_
      intro other found hfound
      rcases UnorderedMap.lookup_of_lookup_emplace hfound with hold | ⟨-, rfl⟩
      · exact htensors other found hold
      · exact hshape

/-- **The constructor and its views stay in the file.** For every file the constructor throws, or it
returns an index in which every range lies in the data; no sum and no difference wraps around. Every
view is the part of the file that its range names. -/
theorem safetensors_bounds (numbers : NumberText) (buckets : UnorderedMap.BucketOrder Bytes)
    (path : Bytes) (file : MappedFile) :
    Ends (SafetensorsFile.read numbers buckets path file) fun index =>
      index.data_offset = 8 + LittleEndian.value (file.bytes.take 8) ∧
      index.data_offset ≤ file.bytes.length ∧
      (∀ name metadata, index.tensors.lookup name = some metadata →
        metadata.begin_offset ≤ metadata.end_offset ∧
          index.data_offset + metadata.end_offset ≤ file.bytes.length) ∧
      ∀ name, Ends (index.tensor name) fun view => ∃ metadata,
        index.tensors.lookup name = some metadata ∧
        view.bytes = (file.bytes.drop (index.data_offset + metadata.begin_offset)).take
          (metadata.end_offset - metadata.begin_offset) ∧
        view.bytes.length = metadata.end_offset - metadata.begin_offset := by
  refine (SafetensorsFile.ends_read numbers buckets path file).mono ?_
  rintro index ⟨rfl, hoffset, hdata, hbounded⟩
  exact ⟨hoffset, hdata, hbounded, fun name => SafetensorsFile.ends_tensor name hbounded⟩

end Qwen38
