import Mathlib.Data.List.MinMax
import Mathlib.Data.List.Nodup
import Mathlib.Logic.Function.Basic

/-!
# The fixed slot pool

With fixed slots a layer has a slot for each hot expert and eight cold slots for the others. A cold
slot without a lease is refilled from the disk, nine fields one after the other; its expert is
published when all of them are read, and a layer with a failed read serves nobody any more.

`FixedLayer.Sound` is the invariant of the pool over any sequence of calls, drops and failing reads.
What a call can do is said once (`Qwen38.Called`), and everything below is read off it.
-/

namespace Qwen38

/-! ### The pool -/

/-- What `enable_fixed_slots` admits. -/
structure HotCount where
  slots : Nat
  admitted : slots = 224 ∨ slots = 256 ∨ slots = 288

/-- The slots of a layer. -/
def HotCount.capacity (hot : HotCount) : Nat := hot.slots + if hot.slots < 288 then 8 else 0

/-- `FixedLayer`. `storage` is the expert whose bytes are in a field of a slot, `none` for bytes of
no single one; `leases` counts the references to a view beside the layer's own. -/
structure FixedLayer where
  ids : Nat → Option Nat := fun _ => none
  storage : Nat → Nat → Option Nat := fun _ _ => none
  touches : Nat → Nat := fun _ => 0
  clock : Nat := 0
  failed : Bool := false
  leases : Nat → Nat := fun _ => 0

/-- The reads of `fill`, up to the first that fails. `reads` is which fields can be read. -/
def read_fields (reads : Nat → Bool) (slot expert : Nat) :
    List Nat → (Nat → Nat → Option Nat) → (Nat → Nat → Option Nat) × Bool
  | [], storage => (storage, true)
  | field :: rest, storage =>
    if reads field then read_fields reads slot expert rest
      (Function.update storage slot (Function.update (storage slot) field (some expert)))
    else (Function.update storage slot (Function.update (storage slot) field none), false)

/-- `fill`, and whether it returns. -/
def FixedLayer.fill (layer : FixedLayer) (reads : Nat → Bool) (slot expert : Nat) : FixedLayer × Bool :=
  let (storage, complete) := read_fields reads slot expert (List.range 9) layer.storage
  if complete then
    ({ layer with storage, ids := Function.update layer.ids slot (some expert), failed := false }, true)
  else ({ layer with storage, failed := true }, false)

/-- The hot slots of a new layer; a read that fails leaves no layer. -/
def fill_hot (reads : Nat → Nat → Bool) : Nat → Option FixedLayer
  | 0 => some {}
  | expert + 1 => (fill_hot reads expert).bind fun layer =>
    match layer.fill (reads expert) expert expert with
    | (layer, true) => some layer
    | (_, false) => none

/-- The choice of a cold slot: without a lease, the one touched least recently. -/
def FixedLayer.coldest (layer : FixedLayer) (slots : List Nat) : Option Nat :=
  slots.foldl (fun slot s =>
    if layer.leases s ≠ 0 then slot
    else match slot with
      | none => some s
      | some best => if layer.touches s < layer.touches best then some s else some best) none

/-- The slot of an expert. -/
def FixedLayer.find (layer : FixedLayer) (hot : HotCount) (id : Nat) : Option Nat :=
  (List.range hot.capacity).find? fun slot => layer.ids slot = some id

/-- The lease that a call returns. -/
def FixedLayer.lease (layer : FixedLayer) (slot : Nat) : FixedLayer :=
  { layer with
    touches := Function.update layer.touches slot (layer.clock + 1)
    clock := layer.clock + 1
    leases := Function.update layer.leases slot (layer.leases slot + 1) }

/-- `fixed_expert`, on a layer. -/
def FixedLayer.fixed_expert (layer : FixedLayer) (hot : HotCount) (id : Nat) (reads : Nat → Nat → Bool) :
    FixedLayer × Except String Nat :=
  if layer.failed then (layer, .error "fixed layer invalid after I/O error")
  else match layer.find hot id with
    | some slot => (layer.lease slot, .ok slot)
    | none =>
      match layer.coldest (List.range' hot.slots (hot.capacity - hot.slots)) with
      | none => (layer, .error "all fixed cold slots leased")
      | some slot =>
        match layer.fill (reads slot) slot id with
        | (layer, true) => (layer.lease slot, .ok slot)
        | (layer, false) => (layer, .error "fixed slot read failed")

/-- `fixed_expert`, for a layer that is built at the first call. -/
def fixed_expert (hot : HotCount) (pool : Option FixedLayer) (id : Nat) (reads : Nat → Nat → Bool) :
    Option FixedLayer × Except String Nat :=
  if 288 ≤ id then (pool, .error "fixed expert outside range")
  else match pool.or (fill_hot reads hot.slots) with
    | none => (none, .error "fixed slot read failed")
    | some layer =>
      let (layer, slot) := layer.fixed_expert hot id reads
      (some layer, slot)

/-- The drop of a lease. -/
def FixedLayer.drop (layer : FixedLayer) (slot : Nat) : FixedLayer :=
  { layer with leases := Function.update layer.leases slot (layer.leases slot - 1) }

/-- `fixed_ids`. -/
def FixedLayer.fixed_ids (layer : FixedLayer) (hot : HotCount) : List Nat → Except String (List Nat)
  | [] => .ok []
  | id :: rest =>
    match layer.find hot id with
    | none => .error "unleased fixed expert"
    | some slot => (layer.fixed_ids hot rest).map fun result => slot :: result

/-- `fixed_batch_fits`. -/
def fixed_batch_fits (hot : HotCount) (ids : List Nat) : Bool :=
  ids.countP (fun id => min hot.slots 256 ≤ id) ≤ 8

/-- What happens to a layer. -/
inductive PoolEvent
  | expert (id : Nat) (reads : Nat → Nat → Bool)
  | drop (slot : Nat)

/-- One event; a call comes with its answer. -/
def pool_step (hot : HotCount) (pool : Option FixedLayer) :
    PoolEvent → Option FixedLayer × Option (Except String Nat)
  | .expert id reads =>
    let (pool, answer) := fixed_expert hot pool id reads
    (pool, some answer)
  | .drop slot => (pool.map fun layer => layer.drop slot, none)

/-- A sequence of events. -/
def pool_run (hot : HotCount) (pool : Option FixedLayer) (events : List PoolEvent) :
    Option FixedLayer :=
  events.foldl (fun pool event => (pool_step hot pool event).1) pool

/-! ### One refill -/

section Fill

variable {reads : Nat → Bool} {slot expert field : Nat} {fields : List Nat}
  {storage : Nat → Nat → Option Nat} {layer : FixedLayer}

/-- Reads leave the other slots alone. -/
theorem read_fields_of_ne {other : Nat} (h : other ≠ slot) :
    (read_fields reads slot expert fields storage).1 other = storage other := by
  induction fields generalizing storage with
  | nil => rfl
  | cons field rest ih =>
    rw [read_fields]
    split
    · rw [ih, Function.update_of_ne h]
    · exact Function.update_of_ne h _ _

/-- A read does not take a field back. -/
theorem read_fields_kept (hkept : storage slot field = some expert)
    (hreads : ∀ f ∈ fields, reads f = true) :
    (read_fields reads slot expert fields storage).1 slot field = some expert := by
  induction fields generalizing storage with
  | nil => exact hkept
  | cons first rest ih =>
    rw [read_fields, if_pos (hreads first List.mem_cons_self)]
    refine ih ?_ fun f hf => hreads f (List.mem_cons_of_mem first hf)
    rw [Function.update_self, Function.update_apply]
    split
    · rfl
    · exact hkept

/-- All reads, if none fails. -/
theorem read_fields_spec :
    ((read_fields reads slot expert fields storage).2 = true ↔ ∀ f ∈ fields, reads f = true) ∧
      ((∀ f ∈ fields, reads f = true) → ∀ f ∈ fields,
        (read_fields reads slot expert fields storage).1 slot f = some expert) := by
  induction fields generalizing storage with
  | nil => simp [read_fields]
  | cons first rest ih =>
    rw [read_fields]
    split
    · next hfirst =>
      refine ⟨?_, ?_⟩
      · rw [List.forall_mem_cons]
        exact ih.1.trans ⟨fun h => ⟨hfirst, h⟩, And.right⟩
      · intro hreads f hf
        have hrest := fun f hf => hreads f (List.mem_cons_of_mem first hf)
        rcases List.mem_cons.mp hf with rfl | hf
        · refine read_fields_kept ?_ hrest
          rw [Function.update_self, Function.update_self]
        · exact ih.2 hrest f hf
    · next hfirst =>
      have hnone : ¬ ∀ f ∈ first :: rest, reads f = true :=
        fun h => hfirst (h first List.mem_cons_self)
      exact ⟨⟨fun h => absurd h Bool.false_ne_true, fun h => absurd h hnone⟩, fun h => absurd h hnone⟩

/-- What `fill` can do: publish the expert with its nine fields, or leave the layer failed. In both
cases the other slots are as before. -/
theorem FixedLayer.fill_cases (layer : FixedLayer) (reads : Nat → Bool) (slot expert : Nat) :
    ∃ storage : Nat → Nat → Option Nat, (∀ other ≠ slot, storage other = layer.storage other) ∧
      (((∀ f < 9, reads f = true) ∧ (∀ f < 9, storage slot f = some expert) ∧
          layer.fill reads slot expert = ({ layer with
            storage, ids := Function.update layer.ids slot (some expert), failed := false }, true)) ∨
        ((∃ f < 9, reads f = false) ∧
          layer.fill reads slot expert = ({ layer with storage, failed := true }, false))) := by
  obtain ⟨hcomplete, hstorage⟩ := @read_fields_spec reads slot expert (List.range 9) layer.storage
  refine ⟨(read_fields reads slot expert (List.range 9) layer.storage).1,
    fun other h => read_fields_of_ne h, ?_⟩
  simp only [List.mem_range] at hcomplete hstorage
  by_cases h : ∀ f < 9, reads f = true
  · refine Or.inl ⟨h, hstorage h, ?_⟩
    rw [FixedLayer.fill]
    simp only [hcomplete.mpr h, if_true]
  · refine Or.inr ⟨by simpa using h, ?_⟩
    have hfalse : (read_fields reads slot expert (List.range 9) layer.storage).2 = false := by
      rw [← Bool.not_eq_true, hcomplete]
      exact h
    rw [FixedLayer.fill]
    simp only [hfalse, Bool.false_eq_true, if_false]

end Fill

/-! ### The invariant -/

section Sound

variable {hot : HotCount} {layer next : FixedLayer} {reads : Nat → Nat → Bool} {slot id : Nat}
  {answer : Except String Nat}

/-- A slot with all fields of an expert. -/
def FixedLayer.Holds (layer : FixedLayer) (slot expert : Nat) : Prop :=
  layer.ids slot = some expert ∧ ∀ f < 9, layer.storage slot f = some expert

/-- **The invariant of a layer.** -/
structure FixedLayer.Sound (hot : HotCount) (layer : FixedLayer) : Prop where
  distinct : ∀ s s' expert, layer.ids s = some expert → layer.ids s' = some expert → s = s'
  hot_slot : ∀ i < hot.slots, layer.Holds i i
  leased : ∀ s, 0 < layer.leases s → ∃ expert, layer.Holds s expert
  published : layer.failed = false → ∀ s expert, layer.ids s = some expert → layer.Holds s expert
  outside : ∀ s, hot.capacity ≤ s → layer.ids s = none

theorem HotCount.slots_le_capacity (hot : HotCount) : hot.slots ≤ hot.capacity := Nat.le_add_right _ _

theorem FixedLayer.ids_of_find (h : layer.find hot id = some slot) : layer.ids slot = some id := by
  have hfound := List.find?_some h
  simpa using hfound

/-- What `find` finds. -/
theorem FixedLayer.Sound.find_eq_some (h : layer.Sound hot) :
    layer.find hot id = some slot ↔ layer.ids slot = some id := by
  constructor
  · exact FixedLayer.ids_of_find
  · intro hid
    have hlt : slot < hot.capacity := by
      by_contra hle
      rw [h.outside slot (Nat.le_of_not_lt hle)] at hid
      cases hid
    cases hfind : layer.find hot id with
    | none =>
      have hnone := List.find?_eq_none.mp hfind slot (List.mem_range.mpr hlt)
      exact absurd (decide_eq_true hid) hnone
    | some found => rw [h.distinct found slot id (FixedLayer.ids_of_find hfind) hid]

theorem FixedLayer.Sound.find_eq_none (h : layer.Sound hot) :
    layer.find hot id = none ↔ ∀ s, layer.ids s ≠ some id := by
  constructor
  · intro hfind s hid
    rw [h.find_eq_some.mpr hid] at hfind
    cases hfind
  · intro hids
    cases hfind : layer.find hot id with
    | none => rfl
    | some found => exact absurd (h.find_eq_some.mp hfind) (hids found)

/-- The loop over the cold slots takes the least recently touched of those without a lease. -/
theorem FixedLayer.coldest_eq (layer : FixedLayer) (slots : List Nat) : layer.coldest slots =
    (slots.filter fun s => layer.leases s = 0).argmin layer.touches := by
  have hfold (best : Option Nat) : slots.foldl (fun slot s =>
      if layer.leases s ≠ 0 then slot
      else match slot with
        | none => some s
        | some best => if layer.touches s < layer.touches best then some s else some best) best =
      (slots.filter fun s => layer.leases s = 0).foldl
        (List.argAux fun b c => layer.touches b < layer.touches c) best := by
    induction slots generalizing best with
    | nil => rfl
    | cons s rest ih =>
      rw [List.foldl_cons, ih]
      by_cases hlease : layer.leases s = 0
      · rw [if_neg (not_not_intro hlease), List.filter_cons, if_pos (decide_eq_true hlease),
          List.foldl_cons]
        cases best <;> rfl
      · rw [if_pos hlease, List.filter_cons, if_neg (by simpa using hlease)]
  exact hfold none

/-- A slot that `coldest` chooses: cold, without a lease, touched no later than the others. -/
theorem FixedLayer.coldest_eq_some {slots : List Nat} (h : layer.coldest slots = some slot) :
    slot ∈ slots ∧ layer.leases slot = 0 ∧
      ∀ s ∈ slots, layer.leases s = 0 → layer.touches slot ≤ layer.touches s := by
  rw [FixedLayer.coldest_eq] at h
  have hmem := List.mem_filter.mp (List.argmin_mem h)
  refine ⟨hmem.1, of_decide_eq_true hmem.2, fun s hs hlease => ?_⟩
  exact List.le_of_mem_argmin (List.mem_filter.mpr ⟨hs, decide_eq_true hlease⟩) h

theorem FixedLayer.coldest_eq_none {slots : List Nat} (h : layer.coldest slots = none) :
    ∀ s ∈ slots, 0 < layer.leases s := by
  rw [FixedLayer.coldest_eq, List.argmin_eq_none, List.filter_eq_nil_iff] at h
  intro s hs
  exact Nat.pos_of_ne_zero fun hlease => h s hs (decide_eq_true hlease)

/-- The cold slots. -/
def HotCount.cold (hot : HotCount) : List Nat := List.range' hot.slots (hot.capacity - hot.slots)

theorem HotCount.mem_cold (hot : HotCount) : slot ∈ hot.cold ↔ hot.slots ≤ slot ∧ slot < hot.capacity := by
  have hle := hot.slots_le_capacity
  rw [HotCount.cold, List.mem_range'_1]
  omega

/-- What a call on a layer can do. -/
inductive Called (hot : HotCount) (layer : FixedLayer) (id : Nat) (reads : Nat → Nat → Bool) :
    FixedLayer → Except String Nat → Prop
  | invalid : layer.failed = true →
      Called hot layer id reads layer (.error "fixed layer invalid after I/O error")
  | hit {slot : Nat} : layer.failed = false → layer.find hot id = some slot →
      Called hot layer id reads (layer.lease slot) (.ok slot)
  | leased : layer.failed = false → layer.find hot id = none → layer.coldest hot.cold = none →
      Called hot layer id reads layer (.error "all fixed cold slots leased")
  | refilled {slot : Nat} {storage : Nat → Nat → Option Nat} : layer.failed = false →
      layer.find hot id = none → layer.coldest hot.cold = some slot →
      (∀ other ≠ slot, storage other = layer.storage other) → (∀ f < 9, reads slot f = true) →
      (∀ f < 9, storage slot f = some id) →
      Called hot layer id reads (FixedLayer.lease { layer with
        storage, ids := Function.update layer.ids slot (some id), failed := false } slot) (.ok slot)
  | unread {slot : Nat} {storage : Nat → Nat → Option Nat} : layer.failed = false →
      layer.find hot id = none → layer.coldest hot.cold = some slot →
      (∀ other ≠ slot, storage other = layer.storage other) → (∃ f < 9, reads slot f = false) →
      Called hot layer id reads { layer with storage, failed := true }
        (.error "fixed slot read failed")

/-- Each call is one of them. -/
theorem FixedLayer.fixed_expert_called (layer : FixedLayer) (hot : HotCount) (id : Nat)
    (reads : Nat → Nat → Bool) : Called hot layer id reads (layer.fixed_expert hot id reads).1
      (layer.fixed_expert hot id reads).2 := by
  rw [FixedLayer.fixed_expert]
  split
  · next hfailed => exact .invalid hfailed
  · next hfailed =>
    rw [Bool.not_eq_true] at hfailed
    cases hfind : layer.find hot id with
    | some slot => exact .hit hfailed hfind
    | none =>
      cases hcoldest : layer.coldest hot.cold with
      | none =>
        have hnone := hcoldest
        rw [HotCount.cold] at hnone
        simp only [hnone]
        exact .leased hfailed hfind hcoldest
      | some slot =>
        have hsome := hcoldest
        rw [HotCount.cold] at hsome
        obtain ⟨storage, hothers, ⟨hreads, hstorage, hfill⟩ | ⟨hunread, hfill⟩⟩ :=
          layer.fill_cases (reads slot) slot id
        · simp only [hsome, hfill]
          exact .refilled hfailed hfind hcoldest hothers hreads hstorage
        · simp only [hsome, hfill]
          exact .unread hfailed hfind hcoldest hothers hunread

/-- A lease of a slot with its expert keeps the invariant. -/
theorem FixedLayer.Sound.lease (h : layer.Sound hot) (hids : layer.Holds slot id) :
    (layer.lease slot).Sound hot where
  distinct := h.distinct
  hot_slot := h.hot_slot
  leased := by
    intro s hs
    by_cases hslot : s = slot
    · rw [hslot]
      exact ⟨id, hids⟩
    · have hleases : (layer.lease slot).leases s = layer.leases s := Function.update_of_ne hslot _ _
      rw [hleases] at hs
      exact h.leased s hs
  published := h.published
  outside := h.outside

theorem FixedLayer.Sound.drop (h : layer.Sound hot) (slot : Nat) : (layer.drop slot).Sound hot where
  distinct := h.distinct
  hot_slot := h.hot_slot
  leased := by
    intro s hs
    refine h.leased s (Nat.lt_of_lt_of_le hs ?_)
    by_cases hslot : s = slot
    · subst hslot
      have heq : (layer.drop s).leases s = layer.leases s - 1 := Function.update_self _ _ _
      rw [heq]
      exact Nat.sub_le _ _
    · exact (Function.update_of_ne hslot _ _).le
  published := h.published
  outside := h.outside

/-- The chosen slot is cold and without a lease. -/
theorem FixedLayer.cold_of_coldest (h : layer.coldest hot.cold = some slot) :
    hot.slots ≤ slot ∧ slot < hot.capacity ∧ layer.leases slot = 0 := by
  obtain ⟨hmem, hlease, -⟩ := FixedLayer.coldest_eq_some h
  obtain ⟨hle, hlt⟩ := hot.mem_cold.mp hmem
  exact ⟨hle, hlt, hlease⟩

/-- Bytes of other slots keep what the slot holds. -/
theorem FixedLayer.Holds.of_ne {s expert : Nat} {storage : Nat → Nat → Option Nat} {ids : Nat → Option Nat}
    {failed : Bool} (h : layer.Holds s expert) (hids : ids s = layer.ids s)
    (hstorage : storage s = layer.storage s) :
    FixedLayer.Holds { layer with storage, ids, failed } s expert := by
  refine ⟨hids.trans h.1, fun f hf => ?_⟩
  exact (congrFun hstorage f).trans (h.2 f hf)

/-- A refill keeps the invariant. -/
theorem FixedLayer.Sound.refill {storage : Nat → Nat → Option Nat} (h : layer.Sound hot)
    (hfind : layer.find hot id = none) (hcoldest : layer.coldest hot.cold = some slot)
    (hothers : ∀ other ≠ slot, storage other = layer.storage other)
    (hstorage : ∀ f < 9, storage slot f = some id) (hfailed : layer.failed = false) :
    FixedLayer.Sound hot { layer with
      storage, ids := Function.update layer.ids slot (some id), failed := false } := by
  obtain ⟨hcold, hlt, hfree⟩ := FixedLayer.cold_of_coldest hcoldest
  have hnew := h.find_eq_none.mp hfind
  have hself : Function.update layer.ids slot (some id) slot = some id := Function.update_self _ _ _
  have hother : ∀ s ≠ slot, Function.update layer.ids slot (some id) s = layer.ids s :=
    fun s hs => Function.update_of_ne hs _ _
  refine ⟨?_, ?_, ?_, ?_, ?_⟩
  · intro s s' expert hs hs'
    simp only [Function.update_apply] at hs hs'
    split at hs <;> split at hs'
    -- the expert of the slot was in none, since it was not found
    · next heq heq' => rw [heq, heq']
    · cases hs
      exact absurd hs' (hnew s')
    · cases hs'
      exact absurd hs (hnew s)
    · exact h.distinct s s' expert hs hs'
  -- the slot is a cold one, and no one has leased it
  · intro i hi
    have hne : i ≠ slot := by omega
    exact (h.hot_slot i hi).of_ne (hother i hne) (hothers i hne)
  · intro s hs
    have hne : s ≠ slot := by
      rintro rfl
      exact hs.ne' hfree
    obtain ⟨expert, hholds⟩ := h.leased s hs
    exact ⟨expert, hholds.of_ne (hother s hne) (hothers s hne)⟩
  · intro _ s expert hs
    by_cases hslot : s = slot
    · subst hslot
      cases hself.symm.trans hs
      exact ⟨hself, hstorage⟩
    · have hids : layer.ids s = some expert := (hother s hslot).symm.trans hs
      exact (h.published hfailed s expert hids).of_ne (hother s hslot) (hothers s hslot)
  · intro s hs
    have hne : s ≠ slot := by omega
    exact (hother s hne).trans (h.outside s hs)

/-- A read that fails keeps it too: the expert of the slot is no longer served. -/
theorem FixedLayer.Sound.unread {storage : Nat → Nat → Option Nat} (h : layer.Sound hot)
    (hcoldest : layer.coldest hot.cold = some slot)
    (hothers : ∀ other ≠ slot, storage other = layer.storage other) :
    FixedLayer.Sound hot { layer with storage, failed := true } := by
  obtain ⟨hcold, -, hfree⟩ := FixedLayer.cold_of_coldest hcoldest
  refine ⟨h.distinct, ?_, ?_, fun hfailed => absurd hfailed.symm Bool.false_ne_true, h.outside⟩
  · intro i hi
    have hne : i ≠ slot := by omega
    exact (h.hot_slot i hi).of_ne rfl (hothers i hne)
  · intro s hs
    have hne : s ≠ slot := by
      rintro rfl
      exact hs.ne' hfree
    obtain ⟨expert, hholds⟩ := h.leased s hs
    exact ⟨expert, hholds.of_ne rfl (hothers s hne)⟩

/-- **A call keeps the invariant**, in each of its ways to end: a hit, a read into a slot that was
free, a read that fails in the middle, and the first call of a layer, which builds it. -/
theorem Called.sound (hcall : Called hot layer id reads next answer) (h : layer.Sound hot) :
    next.Sound hot := by
  cases hcall with
  | invalid => exact h
  | hit hfailed hfind => exact h.lease (h.published hfailed _ id (FixedLayer.ids_of_find hfind))
  | leased => exact h
  | refilled hfailed hfind hcoldest hothers _ hstorage =>
    have hrefill := h.refill hfind hcoldest hothers hstorage hfailed
    exact hrefill.lease (hrefill.published rfl _ id (Function.update_self _ _ _))
  | unread _ _ hcoldest hothers _ => exact h.unread hcoldest hothers

/-- **A call leaves leased slots alone**, their ids and their bytes; a slot without an answer keeps
its count. -/
theorem Called.leased_kept (hcall : Called hot layer id reads next answer) {s : Nat}
    (hs : 0 < layer.leases s) : next.ids s = layer.ids s ∧ next.storage s = layer.storage s := by
  have hne {slot : Nat} (hcoldest : layer.coldest hot.cold = some slot) : s ≠ slot := by
    rintro rfl
    exact hs.ne' (FixedLayer.cold_of_coldest hcoldest).2.2
  cases hcall with
  | invalid => exact ⟨rfl, rfl⟩
  | hit => exact ⟨rfl, rfl⟩
  | leased => exact ⟨rfl, rfl⟩
  | refilled _ _ hcoldest hothers =>
    exact ⟨Function.update_of_ne (hne hcoldest) _ _, hothers s (hne hcoldest)⟩
  | unread _ _ hcoldest hothers => exact ⟨rfl, hothers s (hne hcoldest)⟩

/-- An answered call: the slot has the nine fields of its expert and one lease more. -/
theorem Called.answered (hcall : Called hot layer id reads next (.ok slot)) (h : layer.Sound hot) :
    next.Holds slot id ∧ next.leases = Function.update layer.leases slot (layer.leases slot + 1) ∧
      next.failed = false := by
  cases hcall with
  | hit hfailed hfind =>
    exact ⟨h.published hfailed slot id (FixedLayer.ids_of_find hfind), rfl, hfailed⟩
  | refilled _ _ _ _ _ hstorage =>
    exact ⟨⟨Function.update_self _ _ _, hstorage⟩, rfl, rfl⟩

/-- A call with an error takes no lease. -/
theorem Called.refused {error : String} (hcall : Called hot layer id reads next (.error error)) :
    next.leases = layer.leases ∧ next.ids = layer.ids ∧
      (error = "fixed slot read failed" → next.failed = true) := by
  cases hcall with
  | invalid hfailed => exact ⟨rfl, rfl, fun _ => hfailed⟩
  | leased => exact ⟨rfl, rfl, fun h => absurd h (by decide)⟩
  | unread => exact ⟨rfl, rfl, fun _ => rfl⟩

/-- **A failed layer stays failed** and answers no call. Some of its slots have the bytes of two
experts, and nothing would tell them from whole ones. -/
theorem Called.failed (hcall : Called hot layer id reads next answer) (hfailed : layer.failed = true) :
    next = layer ∧ answer = .error "fixed layer invalid after I/O error" := by
  have hne (h : layer.failed = false) : False := by
    rw [hfailed] at h
    cases h
  cases hcall with
  | invalid => exact ⟨rfl, rfl⟩
  | hit h => exact (hne h).elim
  | leased h => exact (hne h).elim
  | refilled h => exact (hne h).elim
  | unread h => exact (hne h).elim

end Sound

/-! ### Runs of the pool -/

section Run

variable {hot : HotCount} {pool : Option FixedLayer} {layer : FixedLayer} {id : Nat}
  {reads : Nat → Nat → Bool}

/-- A layer with the first hot slots and no lease. -/
structure Filled (count : Nat) (layer : FixedLayer) : Prop where
  ids : ∀ s, layer.ids s = if s < count then some s else none
  storage : ∀ s < count, ∀ f < 9, layer.storage s f = some s
  leases : ∀ s, layer.leases s = 0
  failed : layer.failed = false

/-- The first fill: a layer, or nothing after a failed read. -/
theorem fill_hot_cases (reads : Nat → Nat → Bool) (count : Nat) :
    ((∀ expert < count, ∀ f < 9, reads expert f = true) ∧
        ∃ layer, fill_hot reads count = some layer ∧ Filled count layer) ∨
      ((∃ expert < count, ∃ f < 9, reads expert f = false) ∧ fill_hot reads count = none) := by
  induction count with
  | zero =>
    refine Or.inl ⟨fun expert h => absurd h (Nat.not_lt_zero expert), {}, rfl, ?_⟩
    exact ⟨fun s => rfl, fun s h => absurd h (Nat.not_lt_zero s), fun s => rfl, rfl⟩
  | succ count ih =>
    rw [fill_hot]
    rcases ih with ⟨hreads, layer, hfill, hfilled⟩ | ⟨⟨expert, hexpert, hunread⟩, hfill⟩
    · rw [hfill, Option.bind_some]
      obtain ⟨storage, hothers, ⟨hread, hstorage, hnext⟩ | ⟨⟨f, hf, hunread⟩, hnext⟩⟩ :=
        layer.fill_cases (reads count) count count
      · refine Or.inl ⟨?_, _, by rw [hnext], ?_⟩
        · intro expert hexpert
          rcases Nat.lt_succ_iff_lt_or_eq.mp hexpert with hlt | rfl
          · exact hreads expert hlt
          · exact hread
        · refine ⟨fun s => ?_, fun s hs => ?_, hfilled.leases, rfl⟩
          · simp only [Function.update_apply, hfilled.ids]
            grind
          · rcases Nat.lt_succ_iff_lt_or_eq.mp hs with hlt | rfl
            · intro f hf
              exact (congrFun (hothers s hlt.ne) f).trans (hfilled.storage s hlt f hf)
            · exact hstorage
      · refine Or.inr ⟨⟨count, Nat.lt_succ_self count, f, hf, hunread⟩, by rw [hnext]⟩
    · exact Or.inr ⟨⟨expert, Nat.lt_succ_of_lt hexpert, hunread⟩, by rw [hfill, Option.bind_none]⟩

/-- A failed read of a layer that is not built yet is forgotten: the next request builds the layer
anew and is served. -/
theorem failed_first_fill_forgotten :
    (fixed_expert ⟨224, Or.inl rfl⟩ none 0 fun slot field => slot ≠ 3 ∨ field ≠ 5) =
        (none, .error "fixed slot read failed") ∧
      (fixed_expert ⟨224, Or.inl rfl⟩ none 0 fun _ _ => true).2 = .ok 0 := by
  refine ⟨?_, ?_⟩
  · rcases fill_hot_cases (fun slot field => decide (slot ≠ 3 ∨ field ≠ 5)) 224 with
      ⟨hreads, -⟩ | ⟨-, hfill⟩
    · exact absurd (hreads 3 (by decide) 5 (by decide)) (by decide)
    · rw [fixed_expert, Option.none_or, hfill]
      rfl
  · rcases fill_hot_cases (fun _ _ => true) 224 with ⟨-, layer, hfill, hfilled⟩ | ⟨⟨_, _, _, _, h⟩, -⟩
    · have hfind : layer.find ⟨224, Or.inl rfl⟩ 0 = some 0 := by
        have hids : layer.ids 0 = some 0 := by rw [hfilled.ids, if_pos (by decide)]
        change (List.range (231 + 1)).find? _ = some 0
        rw [List.range_succ_eq_map]
        exact List.find?_cons_of_pos (decide_eq_true hids)
      rw [fixed_expert, Option.none_or, hfill]
      simp only [FixedLayer.fixed_expert, hfilled.failed, hfind]
      rfl
    · exact absurd h (by decide)

/-- A new layer has the invariant. -/
theorem Filled.sound (h : Filled hot.slots layer) : layer.Sound hot := by
  have hids {s expert : Nat} (hs : layer.ids s = some expert) : s < hot.slots ∧ s = expert := by
    rw [h.ids] at hs
    split at hs
    · next hlt => exact ⟨hlt, Option.some.inj hs⟩
    · cases hs
  refine ⟨?_, ?_, ?_, ?_, ?_⟩
  · intro s s' expert hs hs'
    rw [(hids hs).2, (hids hs').2]
  · intro i hi
    exact ⟨by rw [h.ids, if_pos hi], h.storage i hi⟩
  · intro s hs
    exact absurd (h.leases s) hs.ne'
  · intro _ s expert hs
    obtain ⟨hlt, rfl⟩ := hids hs
    exact ⟨hs, h.storage s hlt⟩
  · intro s hs
    rw [h.ids, if_neg (Nat.not_lt.mpr (hot.slots_le_capacity.trans hs))]

/-- A call of the pool: an expert out of range, a layer that could not be built, or a call of the
layer. -/
theorem fixed_expert_cases (hot : HotCount) (pool : Option FixedLayer) (id : Nat)
    (reads : Nat → Nat → Bool) :
    (288 ≤ id ∧ fixed_expert hot pool id reads = (pool, .error "fixed expert outside range")) ∨
      (id < 288 ∧ pool = none ∧
        fixed_expert hot pool id reads = (none, .error "fixed slot read failed")) ∨
      (id < 288 ∧ ∃ layer next answer, (pool = some layer ∨ pool = none ∧ Filled hot.slots layer) ∧
        Called hot layer id reads next answer ∧ fixed_expert hot pool id reads = (some next, answer)) := by
  by_cases hid : 288 ≤ id
  · exact Or.inl ⟨hid, by rw [fixed_expert, if_pos hid]⟩
  · refine Or.inr ?_
    rw [fixed_expert, if_neg hid]
    have hlt := Nat.not_le.mp hid
    cases pool with
    | some layer =>
      exact Or.inr ⟨hlt, layer, _, _, Or.inl rfl, layer.fixed_expert_called hot id reads, rfl⟩
    | none =>
      rw [Option.none_or]
      rcases fill_hot_cases reads hot.slots with ⟨-, layer, hfill, hfilled⟩ | ⟨-, hfill⟩
      · rw [hfill]
        exact Or.inr ⟨hlt, layer, _, _, Or.inr ⟨rfl, hfilled⟩,
          layer.fixed_expert_called hot id reads, rfl⟩
      · rw [hfill]
        exact Or.inl ⟨hlt, rfl, rfl⟩

/-- The invariant, for a layer that may not be built yet. -/
def PoolSound (hot : HotCount) (pool : Option FixedLayer) : Prop :=
  ∀ layer, pool = some layer → layer.Sound hot

/-- One event. -/
theorem PoolSound.step (h : PoolSound hot pool) (event : PoolEvent) :
    PoolSound hot (pool_step hot pool event).1 := by
  cases event with
  | expert id reads =>
    rw [pool_step]
    rcases fixed_expert_cases hot pool id reads with
      ⟨-, hcall⟩ | ⟨-, -, hcall⟩ | ⟨-, layer, next, answer, hlayer, hcalled, hcall⟩ <;> rw [hcall]
    · exact h
    · intro layer hlayer
      cases hlayer
    · rintro _ ⟨⟩
      rcases hlayer with hlayer | ⟨-, hfilled⟩
      · exact hcalled.sound (h layer hlayer)
      · exact hcalled.sound hfilled.sound
  | drop slot =>
    intro next hnext
    obtain ⟨layer, hlayer, rfl⟩ := Option.map_eq_some_iff.mp hnext
    exact (h layer hlayer).drop slot

/-- **A run** of calls, drops and failing reads keeps the invariant in every layer; the layers have
nothing in common but the pool that holds them. -/
theorem PoolSound.run (h : PoolSound hot pool) (events : List PoolEvent) :
    PoolSound hot (pool_run hot pool events) := by
  induction events generalizing pool with
  | nil => exact h
  | cons event rest ih => exact ih (h.step event)

theorem poolSound_none : PoolSound hot none := fun _ h => absurd h (Option.some_ne_none _).symm

/-- An event leaves a leased slot of a layer alone. -/
theorem pool_step_leased_kept (event : PoolEvent) {s : Nat} (hs : 0 < layer.leases s) :
    ∃ next, (pool_step hot (some layer) event).1 = some next ∧ next.ids s = layer.ids s ∧
      next.storage s = layer.storage s := by
  cases event with
  | expert id reads =>
    rw [pool_step]
    rcases fixed_expert_cases hot (some layer) id reads with
      ⟨-, hcall⟩ | ⟨-, hnone, -⟩ | ⟨-, other, next, answer, hother, hcalled, hcall⟩
    · rw [hcall]
      exact ⟨layer, rfl, rfl, rfl⟩
    · cases hnone
    · rw [hcall]
      rcases hother with hother | ⟨hnone, -⟩
      · cases hother
        exact ⟨next, rfl, hcalled.leased_kept hs⟩
      · cases hnone
  | drop slot => exact ⟨layer.drop slot, rfl, rfl, rfl⟩

/-- A failed layer after one event. -/
theorem pool_step_failed (hfailed : layer.failed = true) (event : PoolEvent) :
    ∃ next, (pool_step hot (some layer) event).1 = some next ∧ next.failed = true := by
  cases event with
  | expert id reads =>
    rw [pool_step]
    rcases fixed_expert_cases hot (some layer) id reads with
      ⟨-, hcall⟩ | ⟨-, hnone, -⟩ | ⟨-, other, next, answer, hother, hcalled, hcall⟩
    · rw [hcall]
      exact ⟨layer, rfl, hfailed⟩
    · cases hnone
    · rw [hcall]
      rcases hother with hother | ⟨hnone, -⟩
      · cases hother
        exact ⟨next, rfl, (hcalled.failed hfailed).1 ▸ hfailed⟩
      · cases hnone
  | drop slot => exact ⟨layer.drop slot, rfl, hfailed⟩

/-- **A failed layer refuses every later call.** -/
theorem pool_run_failed (hfailed : layer.failed = true) (events : List PoolEvent) (id : Nat)
    (reads : Nat → Nat → Bool) :
    ∃ error, (fixed_expert hot (pool_run hot (some layer) events) id reads).2 = .error error := by
  induction events generalizing layer with
  | nil =>
    change ∃ error, (fixed_expert hot (some layer) id reads).2 = .error error
    rcases fixed_expert_cases hot (some layer) id reads with
      ⟨-, hcall⟩ | ⟨-, -, hcall⟩ | ⟨-, other, next, answer, hother, hcalled, hcall⟩
    · exact ⟨_, by rw [hcall]⟩
    · exact ⟨_, by rw [hcall]⟩
    · rcases hother with hother | ⟨hnone, -⟩
      · cases hother
        exact ⟨_, by rw [hcall, (hcalled.failed hfailed).2]⟩
      · cases hnone
  | cons event rest ih =>
    obtain ⟨next, hstep, hnext⟩ := @pool_step_failed hot layer hfailed event
    change ∃ error, (fixed_expert hot
      (pool_run hot (pool_step hot (some layer) event).1 rest) id reads).2 = .error error
    rw [hstep]
    exact ih hnext

/-- `fixed_ids` of experts that have slots. -/
theorem FixedLayer.Sound.fixed_ids_eq (h : layer.Sound hot) {leases : List (Nat × Nat)}
    (hleases : ∀ lease ∈ leases, layer.ids lease.2 = some lease.1) :
    layer.fixed_ids hot (leases.map Prod.fst) = .ok (leases.map Prod.snd) := by
  induction leases with
  | nil => rfl
  | cons lease rest ih =>
    have hfind := h.find_eq_some.mpr (hleases lease List.mem_cons_self)
    rw [List.map_cons, FixedLayer.fixed_ids]
    simp only [hfind, ih fun lease hmem => hleases lease (List.mem_cons_of_mem _ hmem)]
    rfl

end Run

end Qwen38
