import Qwen38.Native.History

/-!
# The backend as a memory of its tokens

What the backend is for, layer by layer: a history for every full attention, and the states of the
others (`Qwen38.PersistentMetalBackend.Memory`). A token is answered from it and added to it
(`Qwen38.PersistentMetalBackend.Device.answer`), with no buffers, no counters and no groups of
layers.

The backend keeps such a memory (`Qwen38.PersistentMetalBackend.Remembers`) through every token,
also one that is refused and one before which it is reset. So whatever it has been through, the
tokens that it is given are answered from the memory that its buffers held before them.
-/

namespace Qwen38

namespace PersistentMetalBackend

/-- What the backend remembers. -/
structure Memory where
  histories : Fin 48 → History
  linear : Fin 48 → GdnState
  convolution : Bytes
  ngram : NgramState

namespace Memory

/-- Nothing has been seen. -/
def reset (memory : Memory) : Memory where
  histories _ := ⟨[], [], [], 0, 0⟩
  linear layer := (memory.linear layer).reset
  convolution := clear memory.convolution
  ngram := default

/-- There is room for a token. -/
def can_decode (memory : Memory) : Bool :=
  layers.all fun layer => !is_attention layer ||
    (decide ((memory.histories layer).cold_count ≤ (memory.histories layer).rows.length) &&
      decide ((memory.histories layer).rows.length - (memory.histories layer).cold_count < hot_capacity) &&
      decide ((memory.histories layer).rows.length < 262144) &&
      decide ((memory.histories layer).position_base < uint32_max - (memory.histories layer).rows.length))

end Memory

namespace Device

variable {V : Type} [LinearOrder V] [OrderBot V] (device : Device V)

/-- The token embedding, where its table can be read. -/
def remember_ple (token : UInt32) (now : Bytes × Memory) : Bytes × Memory :=
  let rows := device.hash.row_ids token now.2.ngram
  let out := device.ple ((device.gather rows.1).toOption.getD []) now.1 now.2.convolution
  (out.1, { now.2 with ngram := rows.2, convolution := out.2 })

/-- The attention of a layer. -/
def remember_mixer (layer : Fin 48) (now : Bytes × Memory) : Bytes × Memory :=
  if is_attention layer then
    let step := device.attention_step layer now.1 (now.2.histories layer)
    (step.1, { now.2 with histories := Function.update now.2.histories layer step.2 })
  else
    let out := device.gdn layer now.1 (now.2.linear layer)
    (out.1, { now.2 with linear := Function.update now.2.linear layer out.2 })

/-- A layer. -/
def remember_layer (token : UInt32) (now : Bytes × Memory) (layer : Fin 48) : Bytes × Memory :=
  device.remember_mixer layer (if layer = ple_layer then device.remember_ple token now else now)

/-- **A token** is answered and remembered. -/
def answer (token : UInt32) (group_size : Except String Nat) (reset : Bool) (memory : Memory) :
    Except String GreedyResult × Memory :=
  if device.vocabulary_size ≤ token.toNat then (.error "token id out of range", memory)
  else
    let memory := if reset then memory.reset else memory
    if memory.can_decode = false then
      (.error "persistent decode capacity exhausted; export to MLX", memory)
    else
      match group_size with
      | .error e => (.error e, memory)
      | .ok _ =>
        let out := layers.foldl (device.remember_layer token) (device.embedding token, memory)
        (.ok (device.head out.1), out.2)

end Device

/-! ### The buffers of a memory -/

/-- **The backend keeps a memory.** -/
structure Remembers (unpack : Bytes → Bytes → Bytes → Bytes) (impl : Impl) (memory : Memory) : Prop where
  histories : ∀ layer, is_attention layer = true →
    Represents unpack (impl.attention_states layer) (memory.histories layer)
  linear : ∀ layer, is_attention layer = false → impl.gdn_states layer = memory.linear layer
  convolution : impl.ple_convolution = memory.convolution
  ngram : impl.ple_ngram_state = memory.ngram

/-- A full attention that can take a token: all tokens behind the last whole block will be in the
slab. -/
structure AttentionState.Takes (state : AttentionState) : Prop extends state.Allocated, state.Room where
  tail : state.cold_count ≤ (state.token_count + 1) / 4 * 4

/-- The tokens behind the last whole block are in the slab. -/
def Impl.TailsHot (impl : Impl) : Prop :=
  ∀ layer, is_attention layer = true → (impl.attention_states layer).cold_count ≤
    ((impl.attention_states layer).token_count + 1) / 4 * 4

section Remembers

variable {unpack : Bytes → Bytes → Bytes → Bytes} {impl : Impl} {memory : Memory} {layer : Fin 48}

theorem Remembers.attention (h : Remembers unpack impl memory) {state : AttentionState} {history : History}
    (hstate : Represents unpack state history) :
    Remembers unpack (impl.put_attention layer state)
      { memory with histories := Function.update memory.histories layer history } where
  histories := by
    intro i hi
    dsimp only
    by_cases heq : i = layer
    · subst heq
      rw [Impl.put_attention_self, Function.update_self]
      exact hstate
    · rw [Impl.put_attention_of_ne _ heq, Function.update_of_ne heq]
      exact h.histories i hi
  linear := h.linear
  convolution := h.convolution
  ngram := h.ngram

theorem Remembers.gdn (h : Remembers unpack impl memory) (state : GdnState) :
    Remembers unpack (impl.put_gdn layer state)
      { memory with linear := Function.update memory.linear layer state } where
  histories := h.histories
  linear := by
    intro i hi
    dsimp only
    by_cases heq : i = layer
    · subst heq
      rw [Impl.put_gdn_self, Function.update_self]
    · rw [Impl.put_gdn_of_ne _ heq, Function.update_of_ne heq]
      exact h.linear i hi
  convolution := h.convolution
  ngram := h.ngram

/-- The capacity is read off the memory. -/
theorem Remembers.can_decode_eq (h : Remembers unpack impl memory) : can_decode impl = memory.can_decode := by
  have hlayer (layer : Fin 48) (hattention : is_attention layer = true) :
      (impl.attention_states layer).token_count = (memory.histories layer).rows.length ∧
        (impl.attention_states layer).cold_count = (memory.histories layer).cold_count ∧
        (impl.attention_states layer).position_base = (memory.histories layer).position_base :=
    ⟨(h.histories layer hattention).token_count, (h.histories layer hattention).cold_count,
      (h.histories layer hattention).position_base⟩
  rw [can_decode, Memory.can_decode]
  congr 1
  funext layer
  cases hattention : is_attention layer with
  | false => rfl
  | true =>
    obtain ⟨htokens, hcold, hbase⟩ := hlayer layer hattention
    dsimp only
    rw [htokens, hcold, hbase]

/-- A reset leaves nothing to remember. -/
theorem Remembers.reset (h : Remembers unpack impl memory) :
    Remembers unpack (reset_all_state impl) memory.reset where
  histories := by
    intro layer hlayer
    have hstate : (reset_all_state impl).attention_states layer = (impl.attention_states layer).reset :=
      if_pos hlayer
    rw [hstate]
    exact {
      token_count := rfl
      position_base := rfl
      cold_count := rfl
      rows := by
        intro token row hrow
        simp [Memory.reset] at hrow
      pending_length := rfl
      pending := by simp [Memory.reset, Buffer.read]
      pooled_length := by simp [Memory.reset]
      pooled := by
        intro block row hrow
        simp [Memory.reset] at hrow }
  linear := by
    intro layer hlayer
    have hstate : (reset_all_state impl).gdn_states layer = (impl.gdn_states layer).reset := by
      simp [reset_all_state, hlayer]
    rw [hstate, h.linear layer hlayer]
    rfl
  convolution := congrArg clear h.convolution
  ngram := rfl

end Remembers

/-! ### Tokens -/

namespace Device

variable {V : Type} [LinearOrder V] [OrderBot V] {device : Device V} {token : UInt32}
  {stale : Fin 48 → Scratch V} {layer : Fin 48} {run : Run} {memory : Memory}

omit [LinearOrder V] [OrderBot V] in
theorem encode_ple_eq (hgather : ∀ rows, ∃ embedding, device.gather rows = .ok embedding)
    (h : Remembers device.unpack run.impl memory) :
    ∃ next : Run, device.encode_ple token run = (.ok (), next) ∧
      next.stream = (device.remember_ple token (run.stream, memory)).1 ∧
      Remembers device.unpack next.impl (device.remember_ple token (run.stream, memory)).2 ∧
      next.impl.attention_states = run.impl.attention_states := by
  obtain ⟨embedding, hembedding⟩ := hgather (device.hash.row_ids token run.impl.ple_ngram_state).1
  have hembedding' : device.gather (device.hash.row_ids token memory.ngram).1 = .ok embedding := by
    rw [← h.ngram]
    exact hembedding
  rw [encode_ple]
  simp only [hembedding]
  refine ⟨_, rfl, ?_, ?_, rfl⟩
  · simp only [remember_ple, hembedding', Except.toOption, Option.getD_some, h.convolution]
  · exact {
      histories := h.histories
      linear := h.linear
      convolution := by
        simp only [remember_ple, hembedding', Except.toOption, Option.getD_some, h.convolution]
      ngram := by
        simp only [remember_ple, h.ngram] }

theorem encode_mixer_eq (hscore : ∀ query row block, ⊥ < device.score query row block)
    (h : Remembers device.unpack run.impl memory)
    (htakes : is_attention layer = true → (run.impl.attention_states layer).Takes) :
    ∃ next : Run, device.encode_mixer stale layer run = (.ok (), next) ∧
      next.stream = (device.remember_mixer layer (run.stream, memory)).1 ∧
      Remembers device.unpack next.impl (device.remember_mixer layer (run.stream, memory)).2 ∧
      ∀ i ≠ layer, next.impl.attention_states i = run.impl.attention_states i := by
  rw [encode_mixer, remember_mixer]
  cases hlayer : is_attention layer with
  | true =>
    have htake := htakes hlayer
    have htoken := htake.token_lt
    have hhot : ¬hot_capacity ≤ sub32 (run.impl.attention_states layer).token_count
        (run.impl.attention_states layer).cold_count := by
      rw [sub32_of_le (by omega) htake.cold_le]
      exact Nat.not_le.mpr htake.hot_lt
    obtain ⟨next, hencode, hnext, -, -, -⟩ := @encode_attention_eq V _ _ device layer _ _
      (h.histories layer hlayer) htake.toAllocated htake.toRoom htake.tail hscore (stale layer) run.stream
    rw [if_pos rfl, if_pos rfl]
    dsimp only
    rw [if_neg hhot, hencode]
    exact ⟨_, rfl, rfl, h.attention hnext, fun i hi => Impl.put_attention_of_ne _ hi⟩
  | false =>
    rw [if_neg Bool.false_ne_true, if_neg Bool.false_ne_true, ← h.linear layer hlayer]
    exact ⟨_, rfl, rfl, h.gdn _, fun i _ => rfl⟩

/-- **A layer** does with the buffers what it does with the memory: a full attention reads the rows
of all tokens, wherever they lie, and a linear one its own state. -/
theorem encode_layer_eq (hgather : ∀ rows, ∃ embedding, device.gather rows = .ok embedding)
    (hscore : ∀ query row block, ⊥ < device.score query row block)
    (h : Remembers device.unpack run.impl memory)
    (htakes : is_attention layer = true → (run.impl.attention_states layer).Takes) :
    ∃ next : Run, device.encode_layer token none stale layer run = (.ok (), next) ∧
      next.stream = (device.remember_layer token (run.stream, memory) layer).1 ∧
      Remembers device.unpack next.impl (device.remember_layer token (run.stream, memory) layer).2 ∧
      ∀ i ≠ layer, next.impl.attention_states i = run.impl.attention_states i := by
  have hple : ∃ (now : Run) (memory' : Memory),
      (if layer = ple_layer then device.encode_ple token run else (.ok (), run)) = (.ok (), now) ∧
      (if layer = ple_layer then device.remember_ple token (run.stream, memory) else (run.stream, memory)) =
        (now.stream, memory') ∧
      Remembers device.unpack now.impl memory' ∧ now.impl.attention_states = run.impl.attention_states := by
    split_ifs with heq
    · obtain ⟨now, hrun, hstream, hnow, hsame⟩ := @encode_ple_eq V device token run memory hgather h
      exact ⟨now, _, hrun, Prod.ext hstream.symm rfl, hnow, hsame⟩
    · exact ⟨run, memory, rfl, rfl, h, rfl⟩
  obtain ⟨now, memory', hrun, hremember, hnow, hsame⟩ := hple
  obtain ⟨next, hmixer, hstream, hnext, hothers⟩ := @encode_mixer_eq V _ _ device stale layer now memory'
    hscore hnow (by rw [hsame]; exact htakes)
  refine ⟨next, ?_, ?_, ?_, fun i hi => (hothers i hi).trans (congrFun hsame i)⟩
  · rw [encode_layer, hrun]
    change (device.encode_mixer stale layer now).next _ = _
    rw [hmixer]
    rfl
  · rw [remember_layer, hremember]
    exact hstream
  · rw [remember_layer, hremember]
    exact hnext

/-- **The layers**: each finds its attention as the token before has left it. -/
theorem encode_layers_eq (hgather : ∀ rows, ∃ embedding, device.gather rows = .ok embedding)
    (hscore : ∀ query row block, ⊥ < device.score query row block) (group_size : Nat)
    {todo : List (Fin 48)} (hnodup : todo.Nodup) (h : Remembers device.unpack run.impl memory)
    (htakes : ∀ layer ∈ todo, is_attention layer = true → (run.impl.attention_states layer).Takes)
    (committed : Impl) :
    ∃ next : Run, device.encode_layers token none stale group_size todo run committed = (.ok (), next) ∧
      next.stream = (todo.foldl (device.remember_layer token) (run.stream, memory)).1 ∧
      Remembers device.unpack next.impl
        (todo.foldl (device.remember_layer token) (run.stream, memory)).2 := by
  induction todo generalizing run memory committed with
  | nil => exact ⟨run, rfl, rfl, h⟩
  | cons layer todo ih =>
    obtain ⟨hnew, hnodup⟩ := List.nodup_cons.mp hnodup
    obtain ⟨now, hrun, hstream, hnow, hothers⟩ := @encode_layer_eq V _ _ device token stale layer run memory
      hgather hscore h (htakes layer List.mem_cons_self)
    have hrest : ∀ i ∈ todo, is_attention i = true → (now.impl.attention_states i).Takes := by
      intro i hi hattention
      have hne : i ≠ layer := by
        rintro rfl
        exact hnew hi
      rw [hothers i hne]
      exact htakes i (List.mem_cons_of_mem _ hi) hattention
    rw [encode_layers, hrun, List.foldl_cons]
    obtain ⟨next, hlayers, hlast, hnext⟩ := ih hnodup hnow hrest
      (if (layer.val + 1) % group_size = 0 then now.impl else committed)
    rw [hstream] at hlast hnext
    exact ⟨next, hlayers, hlast, hnext⟩

/-- **A token** is answered from the memory that the backend keeps, and added to it, after a reset
where one is asked for. -/
theorem greedy_decode_eq {impl : Impl} (hgather : ∀ rows, ∃ embedding, device.gather rows = .ok embedding)
    (hscore : ∀ query row block, ⊥ < device.score query row block)
    (h : Remembers device.unpack impl memory) (hsound : impl.Sound) (htails : impl.TailsHot)
    (group_size : Except String Nat) (reset : Bool) :
    ∃ next, device.greedy_decode token none stale group_size reset impl =
        ((device.answer token group_size reset memory).1, next) ∧
      Remembers device.unpack next (device.answer token group_size reset memory).2 ∧ next.TailsHot := by
  have hstart : Remembers device.unpack (reset_if reset impl) (if reset then memory.reset else memory) := by
    cases reset with
    | false => exact h
    | true => exact h.reset
  -- a reset leaves no cold rows
  have hready : (reset_if reset impl).TailsHot := by
    cases reset with
    | false => exact htails
    | true =>
      intro layer hlayer
      have hstate : (reset_all_state impl).attention_states layer =
          (impl.attention_states layer).reset := if_pos hlayer
      change ((reset_all_state impl).attention_states layer).cold_count ≤ _
      rw [hstate]
      exact Nat.zero_le _
  have hbounds := sound_reset_if hsound reset
  rw [greedy_decode, answer]
  by_cases hlt : device.vocabulary_size ≤ token.toNat
  · rw [if_pos hlt, if_pos hlt]
    exact ⟨_, rfl, h, htails⟩
  rw [if_neg hlt, if_neg hlt]
  dsimp only
  rw [hstart.can_decode_eq]
  by_cases hfull : (if reset then memory.reset else memory).can_decode = false
  · rw [if_pos hfull, if_pos hfull]
    exact ⟨_, rfl, hstart, hready⟩
  rw [if_neg hfull, if_neg hfull]
  cases group_size with
  | error e => exact ⟨_, rfl, hstart, hready⟩
  | ok group_size =>
    -- both sides have passed their checks: the layers run
    have hroom : can_decode (reset_if reset impl) = true := by
      rw [hstart.can_decode_eq]
      exact Bool.eq_true_of_not_eq_false hfull
    obtain ⟨next, hrun, hstream, hnext⟩ := @encode_layers_eq V _ _ device token stale
      ⟨reset_if reset impl, device.embedding token⟩ _ hgather hscore group_size layers
      (List.nodup_finRange 48) hstart
      (fun layer _ hattention =>
        { toAllocated := (hbounds.attention layer hattention).toAllocated
          toRoom := can_decode_eq_true.mp hroom layer hattention
          tail := hready layer hattention }) (reset_if reset impl)
    have htrunk : device.encode_trunk token none stale (.ok group_size)
      ⟨reset_if reset impl, device.embedding token⟩ = (.ok (), next) := by
      rw [encode_trunk]
      exact hrun
    have hadvanced := (@advanced_encode_trunk V _ _ device token none stale
      ⟨reset_if reset impl, device.embedding token⟩ (.ok group_size) (.ok ()) next hbounds.allocated hroom
      htrunk).1 rfl
    -- the cold rows are where they were, and there is one token more
    have htails' : next.impl.TailsHot := by
      intro layer hlayer
      have hold := hready layer hlayer
      have hcount := hadvanced.token_count layer hlayer
      rw [(hadvanced.base layer hlayer).cold_count]
      dsimp only at hcount ⊢
      split_ifs at hcount <;> omega
    rw [htrunk]
    dsimp only
    rw [← hstream]
    exact ⟨next.impl, rfl, hnext, htails'⟩

end Device

/-! ### Runs -/

/-- The history that the buffers of a full attention hold. -/
def AttentionState.history (unpack : Bytes → Bytes → Bytes → Bytes) (state : AttentionState) : History where
  rows := (List.range state.token_count).map fun token head =>
    read_place unpack state state.cold_count head (selected_place state.cold_count token)
  pending := (List.range (state.token_count % 4)).map fun row =>
    Buffer.read (row * index_row_bytes) index_row_bytes state.pending
  pooled := (List.range (state.token_count / 4)).map (pooled_row state)
  position_base := state.position_base
  cold_count := state.cold_count

/-- The memory that the buffers hold. -/
def Impl.memory (unpack : Bytes → Bytes → Bytes → Bytes) (impl : Impl) : Memory where
  histories layer := (impl.attention_states layer).history unpack
  linear := impl.gdn_states
  convolution := impl.ple_convolution
  ngram := impl.ple_ngram_state

theorem read_rows_flatten (width count : Nat) (buffer : Bytes) :
    Buffer.read 0 (count * width) buffer =
      ((List.range count).map fun row => Buffer.read (row * width) width buffer).flatten := by
  induction count with
  | zero => simp [Buffer.read]
  | succ count ih =>
    rw [Nat.succ_mul, Buffer.read_add, ih, List.range_succ, List.map_append, List.flatten_append,
      Nat.zero_add, List.map_singleton, List.flatten_singleton]

theorem represents_history (unpack : Bytes → Bytes → Bytes → Bytes) (state : AttentionState) :
    Represents unpack state (state.history unpack) where
  token_count := by rw [AttentionState.history, List.length_map, List.length_range]
  position_base := rfl
  cold_count := rfl
  rows := by
    intro token row hrow head
    rw [AttentionState.history, List.getElem?_map] at hrow
    obtain ⟨place, hplace, rfl⟩ := Option.map_eq_some_iff.mp hrow
    have hlt := (List.getElem?_eq_some_iff.mp hplace).1
    rw [List.length_range] at hlt
    rw [List.getElem?_range hlt] at hplace
    obtain rfl := Option.some.inj hplace
    rfl
  pending_length := by
    simp only [AttentionState.history, List.length_map, List.length_range]
  pending := by
    simp only [AttentionState.history, List.length_map, List.length_range]
    exact read_rows_flatten index_row_bytes _ state.pending
  pooled_length := by
    simp only [AttentionState.history, List.length_map, List.length_range]
  pooled := by
    intro block row hrow
    rw [AttentionState.history, List.getElem?_map] at hrow
    obtain ⟨place, hplace, rfl⟩ := Option.map_eq_some_iff.mp hrow
    have hlt := (List.getElem?_eq_some_iff.mp hplace).1
    rw [List.length_range] at hlt
    rw [List.getElem?_range hlt] at hplace
    obtain rfl := Option.some.inj hplace
    rfl

theorem remembers_memory (unpack : Bytes → Bytes → Bytes → Bytes) (impl : Impl) :
    Remembers unpack impl (impl.memory unpack) where
  histories _ _ := represents_history unpack _
  linear _ _ := rfl
  convolution := rfl
  ngram := rfl

/-- A token that the backend is given, with what the selector's buffers hold. -/
structure Given (V : Type) where
  token : UInt32
  stale : Fin 48 → Scratch V
  group_size : Except String Nat
  reset : Bool

section Answers

variable {V : Type} [LinearOrder V] [OrderBot V] (device : Device V)

/-- What the backend answers. -/
def Device.greedy_decodes : List (Given V) → Impl → List (Except String GreedyResult)
  | [], _ => []
  | given :: rest, impl =>
    let done := device.greedy_decode given.token none given.stale given.group_size given.reset impl
    done.1 :: greedy_decodes rest done.2

/-- What is answered from a memory. -/
def Device.answers : List (Given V) → Memory → List (Except String GreedyResult)
  | [], _ => []
  | given :: rest, memory =>
    let done := device.answer given.token given.group_size given.reset memory
    done.1 :: answers rest done.2

/-- Every one of the tokens comes to an even backend, behind its reset. -/
def Device.FindsEven : List (Given V) → Impl → Prop
  | [], _ => True
  | given :: rest, impl =>
    (reset_if given.reset impl).Even ∧
      FindsEven rest (device.greedy_decode given.token none given.stale given.group_size given.reset impl).2

variable {device}

theorem Device.findsEven (hgather : ∀ rows, ∃ embedding, device.gather rows = .ok embedding)
    (tokens : List (Given V)) {impl : Impl} (hsound : impl.Sound) (heven : impl.Even) :
    device.FindsEven tokens impl := by
  induction tokens generalizing impl with
  | nil => trivial
  | cons given rest ih =>
    have hnext := @even_greedy_decode V _ _ device impl given.token given.stale given.group_size hgather
      hsound heven given.reset
    exact ⟨heven.reset_if given.reset, ih (sound_greedy_decode hsound given.reset) hnext⟩

theorem Device.greedy_decodes_eq (hgather : ∀ rows, ∃ embedding, device.gather rows = .ok embedding)
    (hscore : ∀ query row block, ⊥ < device.score query row block) (tokens : List (Given V))
    {impl : Impl} {memory : Memory} (h : Remembers device.unpack impl memory) (hsound : impl.Sound)
    (htails : impl.TailsHot) : device.greedy_decodes tokens impl = device.answers tokens memory := by
  induction tokens generalizing impl memory with
  | nil => rfl
  | cons given rest ih =>
    obtain ⟨next, hrun, hnext, hready⟩ := @Device.greedy_decode_eq V _ _ device given.token given.stale
      memory impl hgather hscore h hsound htails given.group_size given.reset
    have hbounds : next.Sound := by
      have hkept := @Device.sound_greedy_decode V _ _ device impl given.token none given.stale
        given.group_size hsound given.reset
      rwa [hrun] at hkept
    rw [Device.greedy_decodes, Device.answers]
    rw [hrun, ih hnext hbounds hready]

/-- **The backend is a memory of its tokens**: after a run whose steps come to even backends, and
that leaves one with the tokens behind the last whole block in the slab, any tokens are answered
from what the buffers hold. They come to even backends too, so that a selection reads what was
written for its layer. -/
theorem answered_from_memory {pooled : Fin 48 → Bytes} (hpooled : PooledLengths pooled)
    {ops : List (Op V)} {impl : Impl} (hrun : device.EvenRun (create pooled) ops impl) (heven : impl.Even)
    (hgather : ∀ rows, ∃ embedding, device.gather rows = .ok embedding)
    (hscore : ∀ query row block, ⊥ < device.score query row block) (htails : impl.TailsHot)
    (tokens : List (Given V)) :
    device.greedy_decodes tokens impl = device.answers tokens (impl.memory device.unpack) ∧
      device.FindsEven tokens impl := by
  have hsound := hrun.sound (sound_create hpooled)
  constructor
  · exact Device.greedy_decodes_eq hgather hscore tokens (remembers_memory device.unpack _) hsound htails
  · exact Device.findsEven hgather tokens hsound heven

end Answers

/-- The still device, with scores above that of the padding. -/
def scoring_device : Device Nat := { still_device with score := fun _ _ block => block + 1 }

/-- A state of six tokens is taken, of which the first block is quantised. -/
def quantised_run : List (Op Nat) := [.import_state (zero_state 6 4 4)]

/-- Two tokens fill a block, the third is the first of the next one, and the last one is the first
of all. -/
def filling_tokens : List (Given Nat) :=
  [⟨0, dirty, .ok 3, false⟩, ⟨1, dirty, .ok 3, false⟩, ⟨2, dirty, .ok 48, false⟩, ⟨0, dirty, .ok 3, true⟩]

theorem run_quantised_run :
    scoring_device.run quantised_run (create fun _ => make_buffer (65536 * index_row_bytes)) =
      imported (zero_state 6 4 4) (create fun _ => make_buffer (65536 * index_row_bytes)) := by
  have hsound := @sound_create (fun _ => make_buffer (65536 * index_row_bytes)) fun _ => length_make_buffer _
  have haccepted : Accepted (zero_state 6 4 4) :=
    accepted_zero_state (by decide) (by decide) (by decide) (by decide)
  rw [quantised_run, Device.run_import haccepted hsound.allocated]
  rfl

theorem tailsHot_quantised_run :
    (imported (zero_state 6 4 4) (create fun _ => make_buffer (65536 * index_row_bytes))).TailsHot := by
  intro layer hlayer
  obtain ⟨hcount, -, hcold⟩ := @zero_state_attention 6 4 4 layer hlayer
  have hstate :
      (imported (zero_state 6 4 4) (create fun _ => make_buffer (65536 * index_row_bytes))).attention_states
          layer =
        imported_attention (layer_state (zero_state 6 4 4) layer).full_attention
          ((create fun _ => make_buffer (65536 * index_row_bytes)).attention_states layer) :=
    if_pos ⟨hlayer, List.mem_finRange layer⟩
  rw [hstate]
  simp only [imported_attention, hcount, hcold]
  decide

/-- A block is filled and quantised rows are read, and after a reset nothing is. -/
theorem answered_from_memory_quantised :
    scoring_device.greedy_decodes filling_tokens
        (imported (zero_state 6 4 4) (create fun _ => make_buffer (65536 * index_row_bytes))) =
      scoring_device.answers filling_tokens
        ((imported (zero_state 6 4 4) (create fun _ => make_buffer (65536 * index_row_bytes))).memory
          scoring_device.unpack) ∧
      scoring_device.FindsEven filling_tokens
        (imported (zero_state 6 4 4) (create fun _ => make_buffer (65536 * index_row_bytes))) := by
  have hpooled : PooledLengths fun _ => make_buffer (65536 * index_row_bytes) :=
    fun _ => length_make_buffer _
  have hbases : SameBases (zero_state 6 4 4) := by
    intro layer i hlayer hi
    rw [(zero_state_attention hlayer).2.1, (zero_state_attention hi).2.1]
  obtain ⟨hrun, heven⟩ := @Device.evenRun_of_steady Nat _ _ scoring_device _ quantised_run
    (fun _ => ⟨[], rfl⟩) (sound_create hpooled) (even_create _)
    (List.forall_mem_cons.mpr ⟨hbases, List.forall_mem_nil _⟩)
  rw [run_quantised_run] at hrun heven
  exact @answered_from_memory Nat _ _ scoring_device _ hpooled _ _ hrun heven (fun _ => ⟨[], rfl⟩)
    (fun _ _ block => Nat.succ_pos block) tailsHot_quantised_run _

end PersistentMetalBackend

end Qwen38
