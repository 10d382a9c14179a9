import Qwen38.Native.Runs

/-!
# Runs of an even backend

While a layer is encoded, the host writes what its kernels will read into buffers that all layers
share: the rotations of its position and of the block it may complete, and, as long as there are no
more blocks than are selected, their numbers. The kernels of the layers before it may not have run
by then. So what a layer reads is what it was given only where every layer is given the same, that
is, on a backend whose full attentions are at the same token and count from the same position
(`Qwen38.PersistentMetalBackend.Impl.Even.same_numbers`).

A backend that has been made is even, an import of a state of the model makes it even, and no step
that nothing stops makes it uneven (`Qwen38.PersistentMetalBackend.Device.evenRun_of_steady`). A
step that is broken off does: what the steps behind it compute is left open, until a reset or an
import.
-/

namespace Qwen38

namespace PersistentMetalBackend

/-- The full attentions have seen as many tokens and count from the same position. -/
structure Impl.Even (impl : Impl) : Prop where
  level : impl.Level
  position_base : ∀ layer, is_attention layer = true →
    (impl.attention_states layer).position_base = (impl.attention_states 3).position_base

section Even

variable {impl : Impl} {layer i : Fin 48}

/-- **What the host writes for a layer** it writes for every other one: the position of the token,
that of the block, and the number of blocks are the same. -/
theorem Impl.Even.same_numbers (h : impl.Even) (hlayer : is_attention layer = true)
    (hi : is_attention i = true) :
    (impl.attention_states layer).numbers.position = (impl.attention_states i).numbers.position ∧
      (impl.attention_states layer).numbers.pool_position =
        (impl.attention_states i).numbers.pool_position ∧
      (impl.attention_states layer).numbers.block_count =
        (impl.attention_states i).numbers.block_count := by
  have htoken := (h.level layer hlayer).trans (h.level i hi).symm
  have hbase := (h.position_base layer hlayer).trans (h.position_base i hi).symm
  simp only [AttentionState.numbers, htoken, hbase, and_self]

theorem even_create (pooled : Fin 48 → Bytes) : (create pooled).Even where
  level := level_create pooled
  position_base layer hlayer := by
    rw [attention_state_create hlayer, attention_state_create (rfl : is_attention 3 = true)]

theorem Impl.Even.reset_if (h : impl.Even) (reset : Bool) : (reset_if reset impl).Even where
  level := Device.level_reset_if h.level reset
  position_base layer hlayer := by
    cases reset with
    | false => exact h.position_base layer hlayer
    | true =>
      have hstate (j : Fin 48) (hj : is_attention j = true) :
          (PersistentMetalBackend.reset_if true impl).attention_states j =
            (impl.attention_states j).reset := if_pos hj
      rw [hstate layer hlayer, hstate 3 rfl]
      rfl

/-- A state whose full attentions count from the same position. -/
def SameBases (source : TargetState HostArray) : Prop :=
  ∀ layer i, is_attention layer = true → is_attention i = true →
    (layer_state source layer).full_attention.position_base =
      (layer_state source i).full_attention.position_base

theorem even_imported {source : TargetState HostArray} (h : Accepted source) (hbases : SameBases source) :
    (imported source impl).Even where
  level := level_imported h
  position_base layer hlayer := by
    have hstate (j : Fin 48) (hj : is_attention j = true) :
        (imported source impl).attention_states j =
          imported_attention (layer_state source j).full_attention (impl.attention_states j) :=
      if_pos ⟨hj, List.mem_finRange j⟩
    rw [hstate layer hlayer, hstate 3 rfl]
    exact hbases layer 3 hlayer rfl

end Even

variable {V : Type} [LinearOrder V] [OrderBot V]

/-- The operation comes to an even backend, behind the reset that it asks for. -/
def Op.Finds (op : Op V) (impl : Impl) : Prop :=
  match op with
  | .greedy_decode _ _ _ _ reset => (reset_if reset impl).Even
  | .decode_trunk _ _ _ _ _ reset => (reset_if reset impl).Even
  | .import_state _ => True
  | .export_state => True

/-- An operation that leaves an even backend even: a step that no fault strikes, and an import of a
state that counts from one position. -/
def Op.Steady : Op V → Prop
  | .greedy_decode _ fault _ _ _ => fault = none
  | .decode_trunk _ fault _ _ _ _ => fault = none
  | .import_state source => SameBases source
  | .export_state => True

namespace Device

/-- A run in which every step comes to an even backend, with what it leaves. Between a step that is
broken off and the next one there is a reset, or an import. -/
inductive EvenRun (device : Device V) (start : Impl) : List (Op V) → Impl → Prop
  | start : EvenRun device start [] start
  | step {ops : List (Op V)} {impl : Impl} (h : EvenRun device start ops impl) (op : Op V)
      (hfinds : op.Finds impl) : EvenRun device start (ops ++ [op]) (device.apply op impl).2

variable {device : Device V} {impl start : Impl} {ops : List (Op V)} {token : UInt32}
  {stale : Fin 48 → Scratch V} {group_size : Except String Nat}

theorem EvenRun.run_eq (h : device.EvenRun start ops impl) : device.run ops start = impl := by
  induction h with
  | start => rfl
  | step _ op _ ih => rw [run_append, ih, run, List.foldl_cons, List.foldl_nil]

theorem EvenRun.sound (h : device.EvenRun start ops impl) (hstart : start.Sound) : impl.Sound :=
  h.run_eq ▸ sound_run hstart ops

/-- No step moves the position a full attention counts from. -/
theorem even_encode_trunk (hgather : ∀ rows, ∃ embedding, device.gather rows = .ok embedding)
    (h : impl.Sound) (heven : impl.Even) (hroom : can_decode impl = true) {stream : Bytes}
    {result : Except String Unit} {now : Run}
    (hrun : device.encode_trunk token none stale group_size ⟨impl, stream⟩ = (result, now)) :
    now.impl.Even := by
  obtain ⟨-, moved, hmoved⟩ := @advanced_encode_trunk V _ _ device token none stale ⟨impl, stream⟩
    group_size result now h.allocated hroom hrun
  refine ⟨level_encode_trunk hgather h heven.level hroom hrun, fun layer hlayer => ?_⟩
  rw [(hmoved.base layer hlayer).position_base, (hmoved.base 3 rfl).position_base]
  exact heven.position_base layer hlayer

theorem even_greedy_decode (hgather : ∀ rows, ∃ embedding, device.gather rows = .ok embedding)
    (h : impl.Sound) (heven : impl.Even) (reset : Bool) :
    (device.greedy_decode token none stale group_size reset impl).2.Even := by
  have hstart := heven.reset_if reset
  rw [greedy_decode]
  dsimp only
  split_ifs with htoken hroom
  · exact heven
  · exact hstart
  · rw [Bool.not_eq_false] at hroom
    rcases hrun : device.encode_trunk token none stale group_size
      ⟨reset_if reset impl, device.embedding token⟩ with ⟨outcome, now⟩
    have hnow := even_encode_trunk hgather (sound_reset_if h reset) hstart hroom hrun
    cases outcome with
    | error e => exact hnow
    | ok u => exact hnow

theorem even_decode_trunk (hgather : ∀ rows, ∃ embedding, device.gather rows = .ok embedding)
    (h : impl.Sound) (heven : impl.Even) (initial_stream : Bytes) (reset : Bool) :
    (device.decode_trunk token none stale group_size initial_stream reset impl).2.Even := by
  have hstart := heven.reset_if reset
  rw [decode_trunk]
  dsimp only
  split_ifs with hwidth hroom
  · exact heven
  · exact hstart
  · rw [Bool.not_eq_false] at hroom
    rcases hrun : device.encode_trunk token none stale group_size
      ⟨reset_if reset impl, initial_stream⟩ with ⟨outcome, now⟩
    have hnow := even_encode_trunk hgather (sound_reset_if h reset) hstart hroom hrun
    cases outcome with
    | error e => exact hnow
    | ok u => exact hnow

/-- **One steady operation.** -/
theorem even_apply (hgather : ∀ rows, ∃ embedding, device.gather rows = .ok embedding) (h : impl.Sound)
    (heven : impl.Even) {op : Op V} (hop : op.Steady) :
    op.Finds impl ∧ (device.apply op impl).2.Even := by
  cases op with
  | import_state source =>
    refine ⟨trivial, ?_⟩
    rcases import_state_taken_or_refused h.allocated source with ⟨e, -, hrun⟩ | ⟨haccepted, hrun⟩
    · rw [apply, hrun]
      exact heven
    · rw [apply, hrun]
      exact even_imported haccepted hop
  | greedy_decode token fault stale group_size reset =>
    obtain rfl : fault = none := hop
    exact ⟨heven.reset_if reset, even_greedy_decode hgather h heven reset⟩
  | decode_trunk token fault stale group_size initial_stream reset =>
    obtain rfl : fault = none := hop
    exact ⟨heven.reset_if reset, even_decode_trunk hgather h heven initial_stream reset⟩
  | export_state => exact ⟨trivial, heven⟩

/-- **A run of steady operations** comes to an even backend at every step, and ends with one. -/
theorem evenRun_of_steady (hgather : ∀ rows, ∃ embedding, device.gather rows = .ok embedding)
    (hstart : start.Sound) (heven : start.Even) (hops : ∀ op ∈ ops, op.Steady) :
    device.EvenRun start ops (device.run ops start) ∧ (device.run ops start).Even := by
  induction ops using List.reverseRecOn with
  | nil => exact ⟨.start, heven⟩
  | append_singleton ops op ih =>
    obtain ⟨hrun, hnow⟩ := ih fun op' hop => hops op' (List.mem_append_left _ hop)
    obtain ⟨hfinds, hnext⟩ := even_apply hgather (hrun.sound hstart) hnow
      (hops op (List.mem_append_right _ (List.mem_singleton_self op)))
    rw [run_append]
    exact ⟨hrun.step op hfinds, hnext⟩

end Device

end PersistentMetalBackend

end Qwen38
