import Mathlib.Data.List.Flatten
import Mathlib.Data.List.Nodup
import Qwen38.Layer.StateFile

/-!
# The file of a prefix state

`save_prefix_state` writes a whole engine state into one file: the layers of the target under
numbered names, the layer of the companion, its counters, the rows that it has still to consume, and
what has been learned about the speculation. `load_prefix_state` asks for all of it again, by name.

Nothing in the format keeps two entries from having one name; that no two have is a fact about the
names (`Qwen38.PersistedPrefixState.nodup_metadata`, `Qwen38.PersistedPrefixState.nodup_arrays`). A
name in a layer begins with the layer's, and the layer's number stands between two periods
(`Qwen38.layer_number`). So every entry is found, and the file is read back as the state, with each
layer as it is kept (`Qwen38.PersistedPrefixState.load_save`).
-/

namespace Qwen38

open Except (throw_if bind_eq_ok)
open Json (digits_of digits_value)

variable {A : Type}

/-! ### The state -/

/-- `MtpDecodeState`. -/
structure PersistedMtp (A : Type) where
  layer : DecoderLayerState A A
  row_count : Nat
  position_base : Option Nat

/-- `PersistedPrefixState`. -/
structure PersistedPrefixState (A : Type) where
  target : TargetState A
  mtp : PersistedMtp A
  previous_target_stream : Option A
  pending_mtp_streams : List A
  pending_mtp_tokens : List UInt32
  mtp_profitable : Option Bool
  mtp_profitability_current_token : Option UInt32
  mtp_cumulative_profitability_keep : Bool

/-- The name of a layer of the target. -/
def layer_name (index : Nat) : String := "target.layer." ++ toString index

/-- The name of the layer of the companion. -/
def mtp_layer_name : String := "mtp.layer"

/-- `qwen38-prefix-state-v1`. -/
def prefix_state_format : Bytes := ascii "qwen38-prefix-state-v1".toList

/-- The number that stands for what is known about the speculation. -/
def profitability_number : Option Bool → Nat
  | none => 2
  | some true => 1
  | some false => 0

/-! ### Writing -/

/-- The layers of the target. -/
def append_layers : Nat → List (DecoderLayerState A A) → MlxSafetensors A → MlxSafetensors A
  | _, [], file => file
  | index, layer :: layers, file =>
    append_layers (index + 1) layers (append_decoder (layer_name index) layer file)

namespace PersistedPrefixState

variable (state : PersistedPrefixState A)

/-- The metadata in front of the layers. -/
def head_metadata : List (String × Bytes) :=
  [("format", prefix_state_format),
    ("target.layer_count", digits_of state.target.layers.length),
    ("target.token_count", digits_of state.target.token_count)]

/-- The metadata of the companion, behind its layer. -/
def mtp_metadata : List (String × Bytes) :=
  [("mtp.row_count", digits_of state.mtp.row_count),
    ("mtp.position_base.present", flag_text state.mtp.position_base.isSome),
    ("mtp.position_base", digits_of (state.mtp.position_base.getD 0)),
    ("previous_target_stream.present", flag_text state.previous_target_stream.isSome),
    ("pending_mtp.count", digits_of state.pending_mtp_streams.length)]

/-- The metadata of the rows that wait. -/
def pending_metadata : List (String × Bytes) :=
  state.pending_mtp_tokens.mapIdx fun index token =>
    ("pending_mtp.token." ++ toString index, digits_of token.toNat)

/-- The metadata about the speculation. -/
def profitability_metadata : List (String × Bytes) :=
  [("mtp.profitable", digits_of (profitability_number state.mtp_profitable)),
    ("mtp.profitability_token.present", flag_text state.mtp_profitability_current_token.isSome),
    ("mtp.profitability_token", digits_of (state.mtp_profitability_current_token.getD 0).toNat),
    ("mtp.cumulative_profitability_keep", flag_text state.mtp_cumulative_profitability_keep)]

/-- The stream of the last row. -/
def stream_arrays : List (String × A) :=
  match state.previous_target_stream with
  | none => []
  | some stream => [("previous_target_stream", stream)]

/-- The streams of the rows that wait. -/
def pending_arrays : List (String × A) :=
  state.pending_mtp_streams.mapIdx fun index stream => ("pending_mtp.stream." ++ toString index, stream)

/-- `save_prefix_state`, up to the file. -/
def save_prefix_state : Except String (MlxSafetensors A) := do
  let file := append_decoder mtp_layer_name state.mtp.layer
    (append_layers 0 state.target.layers ⟨state.head_metadata, []⟩)
  throw_if (state.pending_mtp_streams.length ≠ state.pending_mtp_tokens.length)
    "pending MTP stream/token count mismatch"
  return {
    metadata_entries := file.metadata_entries ++ state.mtp_metadata ++ state.pending_metadata ++
      state.profitability_metadata
    array_entries := file.array_entries ++ state.stream_arrays ++ state.pending_arrays }

end PersistedPrefixState

/-! ### Reading -/

variable [Inhabited A] (shape2 : A → Nat) (file : MlxSafetensors A)

/-- The layers of the target, from one on. -/
def load_layers : Nat → Nat → Except String (List (DecoderLayerState A A))
  | _, 0 => .ok []
  | index, count + 1 => do
    let layer ← load_decoder shape2 (layer_name index) file
    let layers ← load_layers (index + 1) count
    return layer :: layers

/-- A token in the metadata. -/
def parse_token (key error : String) : Except String UInt32 := do
  let token ← parse_size file key
  throw_if (2 ^ 32 - 1 < token) error
  return UInt32.ofNat token

/-- The rows that wait, from one on. -/
def load_pending : Nat → Nat → Except String (List (A × UInt32))
  | _, 0 => .ok []
  | index, count + 1 => do
    let stream ← file.tensor ("pending_mtp.stream." ++ toString index)
    let token ← parse_token file ("pending_mtp.token." ++ toString index)
      "pending MTP token is out of range"
    let rows ← load_pending (index + 1) count
    return (stream, token) :: rows

/-- The companion. -/
def load_mtp : Except String (PersistedMtp A) := do
  let layer ← load_decoder shape2 mtp_layer_name file
  let row_count ← parse_size file "mtp.row_count"
  let present ← parse_bool file "mtp.position_base.present"
  let position_base ←
    if present then some <$> parse_size file "mtp.position_base" else .ok none
  return { layer, row_count, position_base }

/-- The stream of the last row. -/
def load_stream : Except String (Option A) := do
  let present ← parse_bool file "previous_target_stream.present"
  if present then some <$> file.tensor "previous_target_stream" else .ok none

/-- What is known about the speculation. -/
def load_profitability : Except String (Option Bool × Option UInt32 × Bool) := do
  let profitability ← parse_size file "mtp.profitable"
  let mtp_profitable := if profitability < 2 then some (decide (profitability = 1)) else none
  throw_if (2 < profitability) "invalid MTP profitability state"
  let present ← parse_bool file "mtp.profitability_token.present"
  let token ←
    if present then
      some <$> parse_token file "mtp.profitability_token" "MTP profitability token is out of range"
    else .ok none
  let keep ← parse_bool file "mtp.cumulative_profitability_keep"
  return (mtp_profitable, token, keep)

/-- `load_prefix_state`, of a file that can be opened. -/
def load_prefix_state (expected_layer_count : Nat) : Except String (PersistedPrefixState A) := do
  let format ← required_metadata file "format"
  throw_if (format ≠ prefix_state_format) "unsupported prefix state format"
  let layer_count ← parse_size file "target.layer_count"
  throw_if (layer_count ≠ expected_layer_count) "prefix state layer count does not match model"
  let token_count ← parse_size file "target.token_count"
  let layers ← load_layers shape2 file 0 layer_count
  let mtp ← load_mtp shape2 file
  let previous_target_stream ← load_stream file
  let pending_count ← parse_size file "pending_mtp.count"
  let pending ← load_pending file 0 pending_count
  let (mtp_profitable, mtp_profitability_current_token, mtp_cumulative_profitability_keep) ←
    load_profitability file
  return {
    target := { layers, token_count }
    mtp
    previous_target_stream
    pending_mtp_streams := pending.map Prod.fst
    pending_mtp_tokens := pending.map Prod.snd
    mtp_profitable
    mtp_profitability_current_token
    mtp_cumulative_profitability_keep }

/-! ### The names -/

section Names

/-- What stands behind the name of a layer, in the metadata. -/
def metadata_suffixes : List String := metadata_names ""

/-- What stands behind the name of a layer, in the arrays. -/
def array_suffixes : List String := array_names ""

theorem metadata_names_eq (layer : String) : metadata_names layer = metadata_suffixes.map (layer ++ ·) := by
  simp [metadata_names, metadata_suffixes]

theorem array_names_eq (layer : String) : array_names layer = array_suffixes.map (layer ++ ·) := by
  simp [array_names, array_suffixes]

/-- The number in the name of a layer, up to the next period. -/
def layer_number (name : String) : List Char :=
  (name.toList.drop "target.layer.".toList.length).takeWhile (· ≠ '.')

theorem toList_toString (n : Nat) : (toString n).toList = Nat.toDigits 10 n := Nat.toList_repr

theorem toString_injective {m n : Nat} (h : toString m = toString n) : m = n := by
  have hdigits := congrArg (Nat.ofDigitChars 10 · 0) (congrArg String.toList h)
  rwa [toList_toString, toList_toString, Nat.ofDigitChars_ten_toDigits,
    Nat.ofDigitChars_ten_toDigits] at hdigits

/-- **The number of a layer** can be read in the names of its entries. -/
theorem layer_number_append (index : Nat) {suffix : String} (h : suffix.toList.head? = some '.') :
    layer_number (layer_name index ++ suffix) = (toString index).toList := by
  obtain ⟨rest, hrest⟩ := List.head?_eq_some_iff.mp h
  have hdigits : ∀ c ∈ Nat.toDigits 10 index, decide (c ≠ '.') = true := by
    intro c hc
    have hdigit := Nat.isDigit_of_mem_toDigits (by decide) (by decide) hc
    refine decide_eq_true ?_
    rintro rfl
    exact absurd hdigit (by decide)
  rw [layer_number, layer_name, String.toList_append, String.toList_append, List.append_assoc,
    List.drop_left, toList_toString, hrest, List.takeWhile_append_of_pos hdigits,
    List.takeWhile_cons_of_neg (by decide), List.append_nil]

/-- All of these names begin with this. -/
def Headed (head : String) (names : List String) : Prop :=
  ∀ name ∈ names, head.toList <+: name.toList

theorem headed_map (head : String) (suffixes : List String) : Headed head (suffixes.map (head ++ ·)) := by
  intro name hname
  obtain ⟨suffix, -, rfl⟩ := List.mem_map.mp hname
  rw [String.toList_append]
  exact List.prefix_append _ _

theorem headed_layers (suffixes : List String) (count : Nat) :
    Headed "target.layer." ((List.range count).flatMap fun index =>
      suffixes.map (layer_name index ++ ·)) := by
  intro name hname
  obtain ⟨index, -, hname⟩ := List.mem_flatMap.mp hname
  obtain ⟨suffix, -, rfl⟩ := List.mem_map.mp hname
  rw [layer_name, String.append_assoc, String.toList_append]
  exact List.prefix_append _ _

theorem headed_numbered (head : String) (count : Nat) :
    Headed head ((List.range count).map fun index => head ++ toString index) := by
  intro name hname
  obtain ⟨index, -, rfl⟩ := List.mem_map.mp hname
  rw [String.toList_append]
  exact List.prefix_append _ _

theorem Headed.disjoint {head head' : String} {names names' : List String} (h : Headed head names)
    (h' : Headed head' names') (hleft : ¬head.toList <+: head'.toList)
    (hright : ¬head'.toList <+: head.toList) : names.Disjoint names' := by
  intro name hname hname'
  rcases List.prefix_or_prefix_of_prefix (h name hname) (h' name hname') with hle | hle
  · exact hleft hle
  · exact hright hle

/-- The entries of different layers have different names. -/
theorem nodup_layers {suffixes : List String} (hnodup : suffixes.Nodup)
    (hdot : ∀ suffix ∈ suffixes, suffix.toList.head? = some '.') (count : Nat) :
    ((List.range count).flatMap fun index => suffixes.map (layer_name index ++ ·)).Nodup := by
  refine List.nodup_flatMap.mpr ⟨fun index _ => hnodup.map fun s t h => ?_,
    List.nodup_range.pairwise_of_forall_ne fun i _ j _ hne => ?_⟩
  · exact String.append_right_inj _ |>.mp h
  · intro name hi hj
    obtain ⟨s, hs, rfl⟩ := List.mem_map.mp hi
    obtain ⟨t, ht, heq⟩ := List.mem_map.mp hj
    refine hne (toString_injective (String.toList_inj.mp ?_))
    rw [← layer_number_append i (hdot s hs), ← layer_number_append j (hdot t ht), ← heq]

/-- Names that stand apart from those under a head. -/
def Clear (head : String) (names : List String) : Prop :=
  ∀ name ∈ names, ¬head.toList <+: name.toList

theorem Headed.disjoint_of_clear {head : String} {names names' : List String} (h : Headed head names)
    (hclear : Clear head names') : names'.Disjoint names :=
  fun name hname' hname => hclear name hname' (h name hname)

/-- **No name is used twice** by layers, numbered items and scalars. -/
theorem nodup_names {scalars suffixes : List String} {item : String} (hscalars : scalars.Nodup)
    (hsuffixes : suffixes.Nodup) (hdot : ∀ suffix ∈ suffixes, suffix.toList.head? = some '.')
    (hlayers : Clear "target.layer." scalars) (hmtp : Clear mtp_layer_name scalars)
    (hitems : Clear item scalars)
    (hapart : ["target.layer.", mtp_layer_name, item].Pairwise fun head head' =>
      ¬head.toList <+: head'.toList ∧ ¬head'.toList <+: head.toList) (layer_count count : Nat) :
    (scalars ++ ((List.range layer_count).flatMap fun index => suffixes.map (layer_name index ++ ·)) ++
      suffixes.map (mtp_layer_name ++ ·) ++
        (List.range count).map fun index => item ++ toString index).Nodup := by
  have hmtp_nodup : (suffixes.map (mtp_layer_name ++ ·)).Nodup :=
    hsuffixes.map fun s t h => String.append_right_inj _ |>.mp h
  have hitem_nodup : ((List.range count).map fun index => item ++ toString index).Nodup :=
    List.nodup_range.map fun i j h => toString_injective (String.append_right_inj _ |>.mp h)
  -- each family of names has its own head, and none of these begins another
  obtain ⟨hfirst, hsecond⟩ := List.pairwise_cons.mp hapart
  obtain ⟨hleft, hright⟩ := hfirst mtp_layer_name (.head _)
  obtain ⟨hleft', hright'⟩ := hfirst item (.tail _ (.head _))
  obtain ⟨hleft'', hright''⟩ := (List.pairwise_cons.mp hsecond).1 item (.head _)
  have hlayer_mtp := (headed_layers suffixes layer_count).disjoint (headed_map mtp_layer_name suffixes)
    hleft hright
  have hlayer_item := (headed_layers suffixes layer_count).disjoint (headed_numbered item count)
    hleft' hright'
  have hmtp_item := (headed_map mtp_layer_name suffixes).disjoint (headed_numbered item count)
    hleft'' hright''
  refine ((hscalars.append (nodup_layers hsuffixes hdot layer_count) ?_).append hmtp_nodup ?_).append
    hitem_nodup ?_
  · exact (headed_layers suffixes layer_count).disjoint_of_clear hlayers
  · exact List.disjoint_append_left.mpr
      ⟨(headed_map mtp_layer_name suffixes).disjoint_of_clear hmtp, hlayer_mtp⟩
  · exact List.disjoint_append_left.mpr ⟨List.disjoint_append_left.mpr
      ⟨(headed_numbered item count).disjoint_of_clear hitems, hlayer_item⟩, hmtp_item⟩

end Names

/-! ### What is found in the file -/

omit [Inhabited A] in
theorem metadata_append_layers (index : Nat) (layers : List (DecoderLayerState A A))
    (file : MlxSafetensors A) :
    (append_layers index layers file).metadata_entries = file.metadata_entries ++
      (layers.zipIdx index).flatMap fun item => decoder_metadata (layer_name item.2) item.1 := by
  induction layers generalizing index file with
  | nil => exact (List.append_nil _).symm
  | cons layer layers ih =>
    rw [append_layers, ih, append_decoder, List.zipIdx_cons, List.flatMap_cons, List.append_assoc]

omit [Inhabited A] in
theorem arrays_append_layers (index : Nat) (layers : List (DecoderLayerState A A))
    (file : MlxSafetensors A) :
    (append_layers index layers file).array_entries = file.array_entries ++
      (layers.zipIdx index).flatMap fun item => decoder_arrays (layer_name item.2) item.1 := by
  induction layers generalizing index file with
  | nil => exact (List.append_nil _).symm
  | cons layer layers ih =>
    rw [append_layers, ih, append_decoder, List.zipIdx_cons, List.flatMap_cons, List.append_assoc]

namespace MlxSafetensors

variable {file : MlxSafetensors A} {key : String}

omit [Inhabited A] in
/-- An entry is found when no name is used twice. -/
theorem metadata_of_mem (hnodup : (file.metadata_entries.map Prod.fst).Nodup) {value : Bytes}
    (h : (key, value) ∈ file.metadata_entries) : file.metadata key = some value := by
  rw [metadata, find?_of_nodup hnodup h]
  rfl

omit [Inhabited A] in
theorem tensor_of_mem (hnodup : (file.array_entries.map Prod.fst).Nodup) {array : A}
    (h : (key, array) ∈ file.array_entries) : file.tensor key = .ok array := by
  rw [tensor, find?_of_nodup hnodup h]

omit [Inhabited A] in
theorem parse_size_of_metadata {n : Nat} (h : file.metadata key = some (digits_of n)) (hn : n < 2 ^ 64) :
    parse_size file key = .ok n := by
  have hall : (digits_of n).all Json.is_digit = true :=
    List.all_eq_true.mpr fun b hb => Json.is_digit_of_mem_digits_of hb
  rw [parse_size, required_metadata, h]
  simp only [Except.ok_bind, Json.digits_value_digits_of]
  exact if_pos ⟨Json.digits_of_ne_nil n, hall, hn⟩

omit [Inhabited A] in
theorem parse_bool_of_metadata {value : Bool} (h : file.metadata key = some (flag_text value)) :
    parse_bool file key = .ok value := by
  rw [parse_bool, required_metadata, h]
  cases value <;> rfl

omit [Inhabited A] in
theorem parse_token_of_metadata {token : UInt32} {error : String}
    (h : file.metadata key = some (digits_of token.toNat)) : parse_token file key error = .ok token := by
  have hlt := token.toNat_lt
  have hsize := parse_size_of_metadata h (by omega)
  rw [parse_token, hsize, Except.ok_bind, Except.throw_if_of_not (by omega)]
  simp only [Except.ok_bind, UInt32.ofNat_toNat]
  rfl

end MlxSafetensors

namespace PersistedPrefixState

variable {state : PersistedPrefixState A} {file : MlxSafetensors A}

/-- The names of the metadata that no layer and no row has. -/
def scalar_names : List String :=
  ["format", "target.layer_count", "target.token_count", "mtp.row_count",
    "mtp.position_base.present", "mtp.position_base", "previous_target_stream.present",
    "pending_mtp.count", "mtp.profitable", "mtp.profitability_token.present",
    "mtp.profitability_token", "mtp.cumulative_profitability_keep"]

omit [Inhabited A] in
/-- The file, entry by entry. -/
theorem save_prefix_state_eq (h : state.save_prefix_state = .ok file) :
    state.pending_mtp_streams.length = state.pending_mtp_tokens.length ∧
      file.metadata_entries = state.head_metadata ++
        (state.target.layers.zipIdx.flatMap fun item => decoder_metadata (layer_name item.2) item.1) ++
          decoder_metadata mtp_layer_name state.mtp.layer ++ state.mtp_metadata ++
            state.pending_metadata ++ state.profitability_metadata ∧
      file.array_entries =
        (state.target.layers.zipIdx.flatMap fun item => decoder_arrays (layer_name item.2) item.1) ++
          decoder_arrays mtp_layer_name state.mtp.layer ++ state.stream_arrays ++
            state.pending_arrays := by
  obtain ⟨_, hsizes, h⟩ := bind_eq_ok.mp h
  obtain rfl := Except.ok.inj h
  refine ⟨not_not.mp (Except.throw_if_eq_ok.mp hsizes), ?_, ?_⟩
  · dsimp only [append_decoder]
    rw [metadata_append_layers]
  · dsimp only [append_decoder]
    rw [arrays_append_layers, List.nil_append]

omit [Inhabited A] in
theorem names_layers {β : Type} (layers : List (DecoderLayerState A A))
    (entries : String → DecoderLayerState A A → List (String × β)) (suffixes : List String)
    (h : ∀ name layer, ((entries name layer).map Prod.fst).Sublist (suffixes.map (name ++ ·))) :
    ((layers.zipIdx.flatMap fun item => entries (layer_name item.2) item.1).map Prod.fst).Sublist
      ((List.range layers.length).flatMap fun index => suffixes.map (layer_name index ++ ·)) := by
  rw [List.range_eq_range', ← List.zipIdx_map_snd, List.flatMap_map, List.map_flatMap]
  generalize layers.zipIdx = items
  induction items with
  | nil => exact .slnil
  | cons item items ih => exact (h _ _).append ih

omit [Inhabited A] in
theorem names_pending_metadata (state : PersistedPrefixState A) :
    state.pending_metadata.map Prod.fst = (List.range state.pending_mtp_tokens.length).map fun index =>
      "pending_mtp.token." ++ toString index :=
  List.ext_getElem (by simp [pending_metadata]) (by simp [pending_metadata])

omit [Inhabited A] in
theorem names_pending_arrays (state : PersistedPrefixState A) :
    state.pending_arrays.map Prod.fst = (List.range state.pending_mtp_streams.length).map fun index =>
      "pending_mtp.stream." ++ toString index :=
  List.ext_getElem (by simp [pending_arrays]) (by simp [pending_arrays])

theorem nodup_metadata_suffixes : metadata_suffixes.Nodup := nodup_metadata_names ""

theorem nodup_array_suffixes : array_suffixes.Nodup := by
  simp [array_suffixes, array_names]

theorem dotted_metadata_suffixes : ∀ suffix ∈ metadata_suffixes, suffix.toList.head? = some '.' := by
  simp [metadata_suffixes, metadata_names]

theorem dotted_array_suffixes : ∀ suffix ∈ array_suffixes, suffix.toList.head? = some '.' := by
  simp [array_suffixes, array_names]

omit [Inhabited A] in
/-- **No name in the metadata is used twice**, with any number of layers and pending tokens: the
scalars have no number in their names, and those that have one differ in it or in what stands behind
it. -/
theorem nodup_metadata (h : state.save_prefix_state = .ok file) :
    (file.metadata_entries.map Prod.fst).Nodup := by
  obtain ⟨-, hmetadata, -⟩ := save_prefix_state_eq h
  have hall := @nodup_names scalar_names _ "pending_mtp.token." (by simp [scalar_names])
    nodup_metadata_suffixes dotted_metadata_suffixes (by simp [Clear, scalar_names])
    (by simp [Clear, scalar_names, mtp_layer_name]) (by simp [Clear, scalar_names])
    (by simp [mtp_layer_name]) state.target.layers.length state.pending_mtp_tokens.length
  have hlayers := names_layers state.target.layers decoder_metadata metadata_suffixes fun name layer =>
    (metadata_names_eq name) ▸ List.Sublist.refl _
  have hsub := ((hlayers.append_left scalar_names).append_right
    (metadata_suffixes.map (mtp_layer_name ++ ·))).append_right
      (state.pending_metadata.map Prod.fst)
  rw [names_pending_metadata, ← metadata_names_eq] at hsub
  rw [← metadata_names_eq] at hall
  refine (List.Perm.nodup_iff ?_).mp (hsub.nodup hall)
  rw [hmetadata, ← names_pending_metadata]
  simp only [List.map_append]
  refine List.perm_iff_count.mpr fun name => ?_
  have hscalars : scalar_names = state.head_metadata.map Prod.fst ++ state.mtp_metadata.map Prod.fst ++
      state.profitability_metadata.map Prod.fst := rfl
  have hmtp : metadata_names mtp_layer_name =
      (decoder_metadata mtp_layer_name state.mtp.layer).map Prod.fst := rfl
  rw [hscalars, hmtp]
  simp only [List.count_append]
  omega

omit [Inhabited A] in
/-- **No name of an array is used twice**, whichever of the optional arrays a layer has: what is
written is among the names of all arrays of all layers, and these differ. -/
theorem nodup_arrays (h : state.save_prefix_state = .ok file) :
    (file.array_entries.map Prod.fst).Nodup := by
  obtain ⟨-, -, harrays⟩ := save_prefix_state_eq h
  have hall := @nodup_names ["previous_target_stream"] _ "pending_mtp.stream."
    (List.nodup_singleton _) nodup_array_suffixes dotted_array_suffixes (by simp [Clear])
    (by simp [Clear, mtp_layer_name]) (by simp [Clear]) (by simp [mtp_layer_name])
    state.target.layers.length state.pending_mtp_streams.length
  have hlayers := names_layers state.target.layers decoder_arrays array_suffixes fun name layer =>
    (array_names_eq name) ▸ sublist_array_names name layer
  have hmtp := sublist_array_names mtp_layer_name state.mtp.layer
  have hstream : (state.stream_arrays.map Prod.fst).Sublist ["previous_target_stream"] := by
    rw [stream_arrays]
    cases state.previous_target_stream with
    | none => exact List.nil_sublist _
    | some stream => exact List.Sublist.refl _
  rw [array_names_eq] at hmtp
  have hsub := ((hstream.append hlayers).append hmtp).append
    (List.Sublist.refl (state.pending_arrays.map Prod.fst))
  nth_rewrite 2 [names_pending_arrays] at hsub
  refine (List.Perm.nodup_iff ?_).mp (hsub.nodup hall)
  rw [harrays]
  simp only [List.map_append]
  refine List.perm_iff_count.mpr fun name => ?_
  simp only [List.count_append]
  omega

/-! ### The round trip -/

omit [Inhabited A] in
theorem holds_layer (h : state.save_prefix_state = .ok file) {index : Nat} {layer : DecoderLayerState A A}
    (hlayer : state.target.layers[index]? = some layer) : file.Holds (layer_name index) layer := by
  obtain ⟨-, hmetadata, harrays⟩ := save_prefix_state_eq h
  have hitem := List.mk_mem_zipIdx_iff_getElem?.mpr hlayer
  constructor
  · intro entry hentry
    refine MlxSafetensors.metadata_of_mem (nodup_metadata h) ?_
    simp only [hmetadata, List.mem_append, List.mem_flatMap]
    exact Or.inl (Or.inl (Or.inl (Or.inl (Or.inr ⟨_, hitem, hentry⟩))))
  · intro entry hentry
    refine MlxSafetensors.tensor_of_mem (nodup_arrays h) ?_
    simp only [harrays, List.mem_append, List.mem_flatMap]
    exact Or.inl (Or.inl (Or.inl ⟨_, hitem, hentry⟩))

omit [Inhabited A] in
theorem holds_mtp (h : state.save_prefix_state = .ok file) :
    file.Holds mtp_layer_name state.mtp.layer := by
  obtain ⟨-, hmetadata, harrays⟩ := save_prefix_state_eq h
  constructor
  · intro entry hentry
    refine MlxSafetensors.metadata_of_mem (nodup_metadata h) ?_
    simp only [hmetadata, List.mem_append]
    exact Or.inl (Or.inl (Or.inl (Or.inr hentry)))
  · intro entry hentry
    refine MlxSafetensors.tensor_of_mem (nodup_arrays h) ?_
    simp only [harrays, List.mem_append]
    exact Or.inl (Or.inl (Or.inr hentry))

omit [Inhabited A] in
/-- The scalars are found. -/
theorem metadata_scalar (h : state.save_prefix_state = .ok file) {key : String} {value : Bytes}
    (hmem : (key, value) ∈ state.head_metadata ++ state.mtp_metadata ++ state.profitability_metadata) :
    file.metadata key = some value := by
  obtain ⟨-, hmetadata, -⟩ := save_prefix_state_eq h
  refine MlxSafetensors.metadata_of_mem (nodup_metadata h) ?_
  simp only [hmetadata, List.mem_append] at hmem ⊢
  tauto

omit [Inhabited A] in
theorem metadata_pending (h : state.save_prefix_state = .ok file) {index : Nat} {token : UInt32}
    (htoken : state.pending_mtp_tokens[index]? = some token) :
    file.metadata ("pending_mtp.token." ++ toString index) = some (digits_of token.toNat) := by
  obtain ⟨-, hmetadata, -⟩ := save_prefix_state_eq h
  refine MlxSafetensors.metadata_of_mem (nodup_metadata h) ?_
  have hmem : ("pending_mtp.token." ++ toString index, digits_of token.toNat) ∈
      state.pending_metadata := by
    refine List.mem_of_getElem? (i := index) ?_
    rw [pending_metadata, List.getElem?_mapIdx, htoken]
    rfl
  simp only [hmetadata, List.mem_append]
  exact Or.inl (Or.inr hmem)

omit [Inhabited A] in
theorem tensor_pending (h : state.save_prefix_state = .ok file) {index : Nat} {stream : A}
    (hstream : state.pending_mtp_streams[index]? = some stream) :
    file.tensor ("pending_mtp.stream." ++ toString index) = .ok stream := by
  obtain ⟨-, -, harrays⟩ := save_prefix_state_eq h
  refine MlxSafetensors.tensor_of_mem (nodup_arrays h) ?_
  have hmem : ("pending_mtp.stream." ++ toString index, stream) ∈ state.pending_arrays := by
    refine List.mem_of_getElem? (i := index) ?_
    rw [pending_arrays, List.getElem?_mapIdx, hstream]
    rfl
  simp only [harrays, List.mem_append]
  exact Or.inr hmem

omit [Inhabited A] in
theorem tensor_stream (h : state.save_prefix_state = .ok file) {stream : A}
    (hstream : state.previous_target_stream = some stream) :
    file.tensor "previous_target_stream" = .ok stream := by
  obtain ⟨-, -, harrays⟩ := save_prefix_state_eq h
  refine MlxSafetensors.tensor_of_mem (nodup_arrays h) ?_
  simp only [harrays, List.mem_append, stream_arrays, hstream, List.mem_singleton]
  exact Or.inl (Or.inr trivial)

end PersistedPrefixState

/-- A layer whose counters fit, and whose quantised rows are among its rows. -/
structure DecoderLayerState.Storable (layer : DecoderLayerState A A) : Prop where
  inRange : layer.InRange
  frontier : layer.full_attention.token_count ≠ 0 → layer.full_attention.kv_q8 = true →
    layer.full_attention.kv_q8_cold_tokens ≤ layer.full_attention.token_count

variable {shape2 : A → Nat} {file : MlxSafetensors A}

theorem load_layers_eq {layers : List (DecoderLayerState A A)} {index : Nat}
    (hholds : ∀ item ∈ layers.zipIdx index, file.Holds (layer_name item.2) item.1)
    (hstorable : ∀ layer ∈ layers, layer.Storable) :
    load_layers shape2 file index layers.length = .ok (layers.map DecoderLayerState.kept) := by
  induction layers generalizing index with
  | nil => rfl
  | cons layer layers ih =>
    rw [List.zipIdx_cons] at hholds
    have hlayer := hstorable layer (.head _)
    have hfirst := load_decoder_of_holds shape2 (hholds _ (.head _)) hlayer.inRange hlayer.frontier
    have hrest := ih (fun item hitem => hholds item (.tail _ hitem))
      fun next hnext => hstorable next (.tail _ hnext)
    rw [List.length_cons, load_layers, hfirst, Except.ok_bind, hrest]
    rfl

omit [Inhabited A] in
theorem load_pending_eq {rows : List (A × UInt32)} {index : Nat}
    (hrows : ∀ item ∈ rows.zipIdx index,
      file.tensor ("pending_mtp.stream." ++ toString item.2) = .ok item.1.1 ∧
        file.metadata ("pending_mtp.token." ++ toString item.2) = some (digits_of item.1.2.toNat)) :
    load_pending file index rows.length = .ok rows := by
  induction rows generalizing index with
  | nil => rfl
  | cons row rows ih =>
    rw [List.zipIdx_cons] at hrows
    obtain ⟨hstream, htoken⟩ := hrows _ (.head _)
    have hrest := ih fun item hitem => hrows item (.tail _ hitem)
    rw [List.length_cons, load_pending, hstream, Except.ok_bind,
      MlxSafetensors.parse_token_of_metadata htoken, Except.ok_bind, hrest]
    rfl

namespace PersistedPrefixState

variable {state : PersistedPrefixState A}

/-- A state whose counters fit into the machine's. -/
structure Storable (state : PersistedPrefixState A) : Prop where
  layer_count : state.target.layers.length < 2 ^ 64
  token_count : state.target.token_count < 2 ^ 64
  layers : ∀ layer ∈ state.target.layers, layer.Storable
  mtp_layer : state.mtp.layer.Storable
  row_count : state.mtp.row_count < 2 ^ 64
  position_base : state.mtp.position_base.getD 0 < 2 ^ 64
  pending_count : state.pending_mtp_streams.length < 2 ^ 64

/-- What a file keeps of a state. -/
def kept (state : PersistedPrefixState A) : PersistedPrefixState A :=
  { state with
    target := { state.target with layers := state.target.layers.map DecoderLayerState.kept }
    mtp := { state.mtp with layer := state.mtp.layer.kept } }

theorem load_mtp_eq (h : state.save_prefix_state = .ok file) (hstorable : state.Storable) :
    load_mtp shape2 file = .ok { state.mtp with layer := state.mtp.layer.kept } := by
  have hlayer := load_decoder_of_holds shape2 (holds_mtp h) hstorable.mtp_layer.inRange
    hstorable.mtp_layer.frontier
  have hrows : parse_size file "mtp.row_count" = .ok state.mtp.row_count :=
    MlxSafetensors.parse_size_of_metadata (metadata_scalar h (by simp [mtp_metadata]))
      hstorable.row_count
  have hpresent : parse_bool file "mtp.position_base.present" = .ok state.mtp.position_base.isSome :=
    MlxSafetensors.parse_bool_of_metadata (metadata_scalar h (by simp [mtp_metadata]))
  have hbase : parse_size file "mtp.position_base" = .ok (state.mtp.position_base.getD 0) :=
    MlxSafetensors.parse_size_of_metadata (metadata_scalar h (by simp [mtp_metadata]))
      hstorable.position_base
  rw [load_mtp, hlayer, Except.ok_bind, hrows, Except.ok_bind, hpresent, Except.ok_bind, hbase]
  rcases state.mtp with ⟨layer, row_count, _ | position_base⟩ <;> rfl

omit [Inhabited A] in
theorem load_stream_eq (h : state.save_prefix_state = .ok file) :
    load_stream file = .ok state.previous_target_stream := by
  have hpresent : parse_bool file "previous_target_stream.present" =
      .ok state.previous_target_stream.isSome :=
    MlxSafetensors.parse_bool_of_metadata (metadata_scalar h (by simp [mtp_metadata]))
  rw [load_stream, hpresent, Except.ok_bind]
  cases hsome : state.previous_target_stream with
  | none => rfl
  | some stream =>
    rw [tensor_stream h hsome]
    rfl

omit [Inhabited A] in
theorem load_profitability_eq (h : state.save_prefix_state = .ok file) :
    load_profitability file = .ok (state.mtp_profitable, state.mtp_profitability_current_token,
      state.mtp_cumulative_profitability_keep) := by
  have hnumber : profitability_number state.mtp_profitable ≤ 2 := by
    rcases state.mtp_profitable with _ | _ | _ <;> decide
  have hprofitable : parse_size file "mtp.profitable" =
      .ok (profitability_number state.mtp_profitable) :=
    MlxSafetensors.parse_size_of_metadata
      (metadata_scalar h (by simp [profitability_metadata])) (by omega)
  have hpresent : parse_bool file "mtp.profitability_token.present" =
      .ok state.mtp_profitability_current_token.isSome :=
    MlxSafetensors.parse_bool_of_metadata (metadata_scalar h (by simp [profitability_metadata]))
  have htoken : parse_token file "mtp.profitability_token" "MTP profitability token is out of range" =
      .ok (state.mtp_profitability_current_token.getD 0) :=
    MlxSafetensors.parse_token_of_metadata (metadata_scalar h (by simp [profitability_metadata]))
  have hkeep : parse_bool file "mtp.cumulative_profitability_keep" =
      .ok state.mtp_cumulative_profitability_keep :=
    MlxSafetensors.parse_bool_of_metadata (metadata_scalar h (by simp [profitability_metadata]))
  rw [load_profitability, hprofitable, Except.ok_bind, Except.throw_if_of_not (by omega),
    Except.ok_bind, hpresent, Except.ok_bind, htoken, hkeep]
  rcases state.mtp_profitable with _ | _ | _ <;> cases state.mtp_profitability_current_token <;> rfl

theorem load_target_eq (h : state.save_prefix_state = .ok file) (hstorable : state.Storable) :
    load_layers shape2 file 0 state.target.layers.length =
      .ok (state.target.layers.map DecoderLayerState.kept) := by
  refine load_layers_eq (fun item hitem => ?_) hstorable.layers
  exact holds_layer h (List.mem_zipIdx_iff_getElem?.mp hitem)

omit [Inhabited A] in
theorem load_rows_eq (h : state.save_prefix_state = .ok file) :
    load_pending file 0 state.pending_mtp_streams.length =
      .ok (state.pending_mtp_streams.zip state.pending_mtp_tokens) := by
  obtain ⟨hsizes, -, -⟩ := save_prefix_state_eq h
  have hlength : (state.pending_mtp_streams.zip state.pending_mtp_tokens).length =
      state.pending_mtp_streams.length := by
    rw [List.length_zip, hsizes, Nat.min_self]
  rw [← hlength]
  refine load_pending_eq fun item hitem => ?_
  obtain ⟨hstream, htoken⟩ := List.getElem?_zip_eq_some.mp (List.mem_zipIdx_iff_getElem?.mp hitem)
  exact ⟨tensor_pending h hstream, metadata_pending h htoken⟩

/-- **A state is read back from its file as it is kept**, by a model with as many layers, and by no
other. No name is used twice in the file, neither in the metadata nor among the arrays, so that an
entry is found under its name whatever stands before it. -/
theorem load_save (shape2 : A → Nat) (h : state.save_prefix_state = .ok file)
    (hstorable : state.Storable) (expected_layer_count : Nat) :
    (file.metadata_entries.map Prod.fst).Nodup ∧ (file.array_entries.map Prod.fst).Nodup ∧
      load_prefix_state shape2 file expected_layer_count =
        if expected_layer_count = state.target.layers.length then .ok state.kept
        else .error "prefix state layer count does not match model" := by
  refine ⟨nodup_metadata h, nodup_arrays h, ?_⟩
  obtain ⟨hsizes, -, -⟩ := save_prefix_state_eq h
  have hformat : file.metadata "format" = some prefix_state_format :=
    metadata_scalar h (by simp [head_metadata])
  have hlayers : parse_size file "target.layer_count" = .ok state.target.layers.length :=
    MlxSafetensors.parse_size_of_metadata (metadata_scalar h (by simp [head_metadata]))
      hstorable.layer_count
  rw [load_prefix_state, required_metadata, hformat, Except.ok_bind,
    Except.throw_if_of_not fun hne => hne rfl, Except.ok_bind, hlayers, Except.ok_bind]
  -- the count of the layers is checked before any of them is read
  by_cases hcount : expected_layer_count = state.target.layers.length
  · rw [if_pos hcount, Except.throw_if_of_not fun hne => hne hcount.symm, Except.ok_bind]
    have htokens : parse_size file "target.token_count" = .ok state.target.token_count :=
      MlxSafetensors.parse_size_of_metadata (metadata_scalar h (by simp [head_metadata]))
        hstorable.token_count
    have hpending : parse_size file "pending_mtp.count" = .ok state.pending_mtp_streams.length :=
      MlxSafetensors.parse_size_of_metadata (metadata_scalar h (by simp [mtp_metadata]))
        hstorable.pending_count
    rw [htokens, Except.ok_bind, load_target_eq h hstorable, Except.ok_bind, load_mtp_eq h hstorable,
      Except.ok_bind, load_stream_eq h, Except.ok_bind, hpending, Except.ok_bind, load_rows_eq h,
      Except.ok_bind, load_profitability_eq h]
    simp only [Except.ok_bind, List.map_fst_zip hsizes.le, List.map_snd_zip hsizes.ge]
    rfl
  · have hne : state.target.layers.length ≠ expected_layer_count := fun heq => hcount heq.symm
    rw [if_neg hcount, Except.throw_if_of hne]
    rfl

/-- A layer with five tokens, four of them quantised. -/
def small_layer : DecoderLayerState Nat Nat :=
  { (default : DecoderLayerState Nat Nat) with
    full_attention := { (default : SelfAttentionState Nat) with
      keys := 1
      values := 2
      key_weights := 3
      kv_q8 := true
      kv_q8_cold_tokens := 4
      qsa_raw_keys := 5
      qsa_raw_start := 4
      qsa_pooled_keys := 6
      qsa_pooled_count := 1
      token_count := 5 } }

/-- Two such layers, and a row that the companion has not consumed. -/
def small_state : PersistedPrefixState Nat where
  target := { layers := [small_layer, small_layer], token_count := 5 }
  mtp := { layer := default, row_count := 3, position_base := some 1 }
  previous_target_stream := some 7
  pending_mtp_streams := [8]
  pending_mtp_tokens := [9]
  mtp_profitable := some true
  mtp_profitability_current_token := none
  mtp_cumulative_profitability_keep := false

theorem storable_small_layer : small_layer.Storable :=
  ⟨⟨by decide, by decide, by decide, by decide, by decide, by decide⟩, fun _ _ => by decide⟩

theorem storable_small_state : small_state.Storable where
  layer_count := by decide
  token_count := by decide
  layers layer hlayer := by
    rw [small_state, List.mem_cons, List.mem_singleton, or_self] at hlayer
    rw [hlayer]
    exact storable_small_layer
  mtp_layer := ⟨⟨by decide, by decide, by decide, by decide, by decide, by decide⟩, fun _ _ => by decide⟩
  row_count := by decide
  position_base := by decide
  pending_count := by decide

theorem load_save_small : ∃ file, small_state.save_prefix_state = .ok file ∧
    (file.metadata_entries.map Prod.fst).Nodup ∧ (file.array_entries.map Prod.fst).Nodup ∧
      load_prefix_state (fun _ => 4) file 2 = .ok small_state.kept :=
  ⟨_, rfl, load_save (fun _ => 4) rfl storable_small_state 2⟩

end PersistedPrefixState

end Qwen38
