import Qwen38.Cache.FixedSlots
import Qwen38.Layer.PagedExperts

/-!
# The fixed slots of the paths

`forward_paged` takes leases in three ways: all of a row when they fit, one at a time when they do
not, and in groups of eight. That the cold slots suffice is a property of the leases alone
(`Qwen38.Narrow`), which each path has for every routing; the pool then always finds a slot, because
its leased cold slots have experts of their own (`Qwen38.cold_le_held`).
-/

namespace Qwen38

/-! ### The paths of `forward_paged`

A model with vector-quantised experts has no fields that fixed slots could hold, and `fixed_layer`
refuses it; the other paths take their leases in three ways. -/

section Paths

variable {K V T : Type} [Semiring K] [AddCommMonoid V] [Module K V] (moe : PagedMoe K V T)

/-- The leases of `forward_paged_packed`. -/
def packed_events (x : V) : List LeaseEvent :=
  (moe.route_decode x).experts.map .taken ++
    (moe.route_decode x).experts.map fun expert => .dropped expert []

/-- The leases of `forward_paged` with fixed slots. -/
def forward_paged_events (hot : HotCount) (batch_experts grouped_prefill : Bool) (input : List V) :
    List LeaseEvent :=
  if batch_experts && grouped_prefill && 1 < input.length then (grouped_sweep moe input).events
  else match input with
    | [x] =>
      if fixed_batch_fits hot (moe.route_decode x).experts then packed_events moe x
      else (paged_rows moe (fun ids => batch_experts && fixed_batch_fits hot ids) [x] []).2
    | input => (paged_rows moe (fun ids => batch_experts && fixed_batch_fits hot ids) input []).2

/-- The end of a path: its leases go. A lease is an expert and its slot. -/
def release (hot : HotCount) (pool : Option FixedLayer) (held : List (Nat × Nat)) : Option FixedLayer :=
  pool_run hot pool (held.map fun lease => .drop lease.2)

/-- A path on the pool, and the answers to its calls. An error ends it. `reads` has the number of
events that are left. -/
def replay (hot : HotCount) (reads : Nat → Nat → Nat → Bool) (pool : Option FixedLayer)
    (held : List (Nat × Nat)) : List LeaseEvent → Option FixedLayer × List (Except String Nat)
  | [] => (release hot pool held, [])
  | .taken expert :: rest =>
    match fixed_expert hot pool expert (reads rest.length) with
    | (pool, .error error) => (release hot pool held, [.error error])
    | (pool, .ok slot) =>
      let (result, answers) := replay hot reads pool (held ++ [(expert, slot)]) rest
      (result, .ok slot :: answers)
  | .dropped expert _ :: rest =>
    match held.find? fun lease => lease.1 == expert with
    | none => replay hot reads pool held rest
    | some lease =>
      replay hot reads (pool_step hot pool (.drop lease.2)).1 (held.eraseP fun lease => lease.1 == expert)
        rest

/-- A call of `forward_paged`. It may stop after some of its events, for an error of another
kind. -/
structure PagedRequest (V : Type) where
  batch_experts : Bool
  grouped_prefill : Bool
  input : List V
  stop : Nat
  reads : Nat → Nat → Nat → Bool

/-- The calls of `forward_paged`, one after the other. -/
def paged_run (hot : HotCount) : Option FixedLayer → List (PagedRequest V) →
    Option FixedLayer × List (Except String Nat)
  | pool, [] => (pool, [])
  | pool, request :: rest =>
    let (pool, answers) := replay hot request.reads pool [] <|
      (forward_paged_events moe hot request.batch_experts request.grouped_prefill
        request.input).take request.stop
    let (pool, later) := paged_run hot pool rest
    (pool, answers ++ later)

end Paths

/-! ### Narrow paths -/

/-- The leases that a path holds, from one list to another: a cold expert is taken only beside fewer
than eight others. -/
inductive Narrow (hot : HotCount) : List Nat → List LeaseEvent → List Nat → Prop
  | nil {held : List Nat} : Narrow hot held [] held
  | taken {held final : List Nat} {expert : Nat} {rest : List LeaseEvent} :
      (hot.slots ≤ expert → held.countP (fun id => hot.slots ≤ id) < 8) →
      Narrow hot (held ++ [expert]) rest final → Narrow hot held (.taken expert :: rest) final
  | dropped {held final : List Nat} {expert : Nat} {unevaluated : List Nat} {rest : List LeaseEvent} :
      expert ∈ held → Narrow hot (held.erase expert) rest final →
      Narrow hot held (.dropped expert unevaluated :: rest) final

namespace Narrow

variable {hot : HotCount} {held middle final experts : List Nat} {events later : List LeaseEvent}

theorem append (h : Narrow hot held events middle) (hlater : Narrow hot middle later final) :
    Narrow hot held (events ++ later) final := by
  induction h with
  | nil => exact hlater
  | taken hcold _ ih => exact .taken hcold (ih hlater)
  | dropped hmem _ ih => exact .dropped hmem (ih hlater)

/-- A path that stops. -/
theorem take (h : Narrow hot held events final) (stop : Nat) :
    ∃ middle, Narrow hot held (events.take stop) middle := by
  induction h generalizing stop with
  | nil => exact ⟨_, by rw [List.take_nil]; exact .nil⟩
  | taken hcold _ ih =>
    cases stop with
    | zero => exact ⟨_, .nil⟩
    | succ stop =>
      obtain ⟨middle, hmiddle⟩ := ih stop
      exact ⟨middle, .taken hcold hmiddle⟩
  | dropped hmem _ ih =>
    cases stop with
    | zero => exact ⟨_, .nil⟩
    | succ stop =>
      obtain ⟨middle, hmiddle⟩ := ih stop
      exact ⟨middle, .dropped hmem hmiddle⟩

/-- Leases of at most eight cold experts. -/
theorem map_taken (h : (held ++ experts).countP (fun id => hot.slots ≤ id) ≤ 8) :
    Narrow hot held (experts.map .taken) (held ++ experts) := by
  induction experts generalizing held with
  | nil =>
    rw [List.append_nil]
    exact .nil
  | cons expert rest ih =>
    have hsplit : held ++ expert :: rest = held ++ [expert] ++ rest := List.append_cons _ _ _
    refine .taken (fun hcold => ?_) ?_
    · rw [List.countP_append, List.countP_cons, if_pos (decide_eq_true hcold)] at h
      omega
    · rw [hsplit] at h ⊢
      exact ih h

/-- The drops of all leases. -/
theorem map_dropped (experts : List Nat) (unevaluated : Nat → List Nat) :
    Narrow hot experts (experts.map fun expert => .dropped expert (unevaluated expert)) [] := by
  induction experts with
  | nil => exact .nil
  | cons expert rest ih =>
    refine .dropped List.mem_cons_self ?_
    rw [List.erase_cons_head]
    exact ih

end Narrow

section NarrowPaths

variable {K V T : Type} [Semiring K] [AddCommMonoid V] [Module K V] {moe : PagedMoe K V T}
  {hot : HotCount} {batch_experts : Bool}

/-- Experts that fit. -/
theorem countP_le_of_fits {experts : List Nat} (h : fixed_batch_fits hot experts = true) :
    experts.countP (fun id => hot.slots ≤ id) ≤ 8 := by
  refine Nat.le_trans (List.countP_mono_left fun id _ hid => ?_) (of_decide_eq_true h)
  exact decide_eq_true ((Nat.min_le_left _ _).trans (of_decide_eq_true hid))

omit [Semiring K] [AddCommMonoid V] [Module K V] in
theorem narrow_packed {x : V} (h : fixed_batch_fits hot (moe.route_decode x).experts = true) :
    Narrow hot [] (packed_events moe x) [] :=
  (Narrow.map_taken (countP_le_of_fits h)).append (Narrow.map_dropped _ _)

/-- The routes of a row, one lease at a time or none of their own. -/
theorem narrow_routes (batch : Bool) (x : V) (live : List Nat) (routes : List (Nat × K))
    (sum : Option (Lazy V)) (held : List Nat) (hheld : batch = false → held = []) :
    Narrow hot held (paged_routes moe batch x live routes sum).2 held := by
  induction routes generalizing sum with
  | nil => exact .nil
  | cons route rest ih =>
    obtain ⟨expert, weight⟩ := route
    rw [paged_routes]
    refine Narrow.append ?_ (ih _)
    cases batch with
    | true => exact .nil
    | false =>
      rw [hheld rfl]
      refine .taken (fun _ => Nat.zero_lt_succ 7) (.dropped (List.mem_singleton_self expert) ?_)
      rw [List.nil_append, List.erase_cons_head]
      exact .nil

theorem narrow_row (x : V) (live : List Nat) : Narrow hot []
    (paged_row moe (fun ids => batch_experts && fixed_batch_fits hot ids) x live).2 [] := by
  rw [paged_row]
  cases hbatch : batch_experts && fixed_batch_fits hot (moe.route_decode x).experts with
  | true =>
    have hfits := (Bool.and_eq_true_iff.mp hbatch).2
    refine Narrow.append (Narrow.append (Narrow.map_taken (countP_le_of_fits hfits))
      (narrow_routes true x live _ _ _ fun h => absurd h.symm Bool.false_ne_true)) ?_
    exact Narrow.map_dropped _ _
  | false => exact narrow_routes false x live _ _ [] fun _ => rfl

theorem narrow_rows (input : List V) (rows : List (Lazy V)) : Narrow hot []
    (paged_rows moe (fun ids => batch_experts && fixed_batch_fits hot ids) input rows).2 [] := by
  induction input generalizing rows with
  | nil => exact .nil
  | cons x rest ih =>
    rw [paged_rows]
    exact (narrow_row x _).append (ih _)

variable (hot) in
/-- The invariant of the sweep: the path holds `group_leases`, fewer than eight. -/
def NarrowSweep (sweep : GroupedSweep V) : Prop :=
  Narrow hot [] sweep.events sweep.group_leases ∧ sweep.group_leases.length < 8

omit [Semiring K] [Module K V] in
theorem NarrowSweep.step {sweep : GroupedSweep V} (h : NarrowSweep hot sweep) (flat : List V)
    (routes : List (Route K)) (expert : Nat) :
    NarrowSweep hot (grouped_expert moe flat routes sweep expert) := by
  rw [grouped_expert]
  simp only []
  split
  · exact h
  · have hpush : Narrow hot [] (sweep.events ++ [.taken expert]) (sweep.group_leases ++ [expert]) := by
      refine h.1.append (.taken (fun _ => ?_) .nil)
      exact Nat.lt_of_le_of_lt List.countP_le_length h.2
    split
    · exact ⟨hpush.append (Narrow.map_dropped _ _), Nat.zero_lt_succ 7⟩
    · next hlength =>
      refine ⟨hpush, ?_⟩
      simp only [GroupedSweep.push, List.length_append, List.length_singleton] at hlength ⊢
      have hlt := h.2
      omega

omit [Semiring K] [Module K V] in
theorem narrow_grouped (input : List V) : Narrow hot [] (grouped_sweep moe input).events [] := by
  have hrun (experts : List Nat) (sweep : GroupedSweep V) (h : NarrowSweep hot sweep) :
      NarrowSweep hot (experts.foldl (grouped_expert moe input (routes_of moe input)) sweep) := by
    induction experts generalizing sweep with
    | nil => exact h
    | cons expert rest ih => exact ih _ (h.step input (routes_of moe input) expert)
  obtain ⟨hnarrow, -⟩ := hrun (List.range moe.expert_count)
    { inverse := List.replicate (input.length * moe.experts_per_token) 0 } ⟨.nil, Nat.zero_lt_succ 7⟩
  rw [grouped_sweep]
  split
  · next hempty =>
    rw [List.isEmpty_iff.mp hempty] at hnarrow
    exact hnarrow
  · exact hnarrow.append (Narrow.map_dropped _ _)

/-- **Every path is narrow**, for every routing. -/
theorem narrow_forward_paged (batch_experts grouped_prefill : Bool) (input : List V) :
    Narrow hot [] (forward_paged_events moe hot batch_experts grouped_prefill input) [] := by
  unfold forward_paged_events
  split
  · exact narrow_grouped input
  · split
    · split
      · next hfits => exact narrow_packed hfits
      · exact narrow_rows _ []
    · exact narrow_rows _ []

end NarrowPaths

/-! ### Paths on the pool -/

section Replay

variable {hot : HotCount} {pool : Option FixedLayer} {layer next : FixedLayer}
  {held : List (Nat × Nat)} {lease : Nat × Nat} {id slot : Nat} {reads : Nat → Nat → Bool}
  {answer : Except String Nat}

/-- The leases of a layer are those that the path holds. -/
structure Holding (hot : HotCount) (layer : FixedLayer) (held : List (Nat × Nat)) : Prop where
  sound : layer.Sound hot
  leases : ∀ s, layer.leases s = held.countP fun lease => lease.2 = s
  ids : ∀ lease ∈ held, layer.ids lease.2 = some lease.1

/-- The same of a pool: without a layer there is no lease. -/
def PoolHolding (hot : HotCount) : Option FixedLayer → List (Nat × Nat) → Prop
  | none, held => held = []
  | some layer, held => Holding hot layer held

theorem Filled.holding (h : Filled hot.slots layer) : Holding hot layer [] :=
  ⟨h.sound, h.leases, fun _ hmem => absurd hmem List.not_mem_nil⟩

/-- **The leased cold slots have cold experts of their own.** Where no cold slot is free each of
them is leased, no two to the same expert, so as many cold experts are held as there are cold
slots. -/
theorem cold_le_held (h : Holding hot layer held) (hnone : layer.coldest hot.cold = none) :
    hot.cold.length ≤ (held.map Prod.fst).countP fun id => hot.slots ≤ id := by
  have hsubset : hot.cold ⊆ (held.filter fun lease => hot.slots ≤ lease.1).map Prod.snd := by
    intro s hs
    have hlease := FixedLayer.coldest_eq_none hnone s hs
    rw [h.leases, List.countP_pos_iff] at hlease
    obtain ⟨lease, hmem, heq⟩ := hlease
    have hslot : lease.2 = s := of_decide_eq_true heq
    have hids := h.ids lease hmem
    refine List.mem_map.mpr ⟨lease, List.mem_filter.mpr ⟨hmem, decide_eq_true ?_⟩, hslot⟩
    -- a hot expert is in its own slot, and that is not a cold one
    by_contra hhot
    have hown := (h.sound.hot_slot lease.1 (Nat.not_le.mp hhot)).1
    have hsame := h.sound.distinct _ _ _ hids hown
    have hcold := (hot.mem_cold.mp hs).1
    omega
  have hlength := (List.subperm_of_subset List.nodup_range' hsubset).length_le
  rw [List.length_map, ← List.countP_eq_length_filter] at hlength
  rw [List.countP_map]
  exact hlength

/-- **A call beside few leases finds a slot.** -/
theorem Called.ne_leased (hcall : Called hot layer id reads next answer) (h : Holding hot layer held)
    (hid : id < 288)
    (hcold : hot.slots ≤ id → (held.map Prod.fst).countP (fun id => hot.slots ≤ id) < 8) :
    answer ≠ .error "all fixed cold slots leased" := by
  cases hcall with
  | invalid => exact fun heq => absurd (Except.error.inj heq) (by decide)
  | hit =>
    intro heq
    cases heq
  | leased hfailed hfind hnone =>
    by_cases hhot : hot.slots ≤ id
    · have hheld := cold_le_held h hnone
      have hlt := hcold hhot
      rw [HotCount.cold, List.length_range', HotCount.capacity, if_pos (by omega)] at hheld
      omega
    · have hown := (h.sound.hot_slot id (Nat.not_le.mp hhot)).1
      exact absurd hown (h.sound.find_eq_none.mp hfind id)
  | refilled =>
    intro heq
    cases heq
  | unread => exact fun heq => absurd (Except.error.inj heq) (by decide)

/-- The answer of a call is one more lease. -/
theorem Holding.answered (h : Holding hot layer held) (hcall : Called hot layer id reads next (.ok slot)) :
    Holding hot next (held ++ [(id, slot)]) := by
  obtain ⟨hholds, hleases, -⟩ := hcall.answered h.sound
  refine ⟨hcall.sound h.sound, fun s => ?_, fun lease hmem => ?_⟩
  · rw [hleases, List.countP_append, List.countP_singleton, ← h.leases]
    by_cases hslot : slot = s
    · subst hslot
      rw [Function.update_self, if_pos (decide_eq_true rfl)]
    · rw [Function.update_of_ne (Ne.symm hslot), if_neg (by simpa using hslot), Nat.add_zero]
  · rcases List.mem_append.mp hmem with hmem | hmem
    · have hpos : 0 < layer.leases lease.2 := by
        rw [h.leases, List.countP_pos_iff]
        exact ⟨lease, hmem, decide_eq_true rfl⟩
      exact (hcall.leased_kept hpos).1.trans (h.ids lease hmem)
    · rw [List.mem_singleton.mp hmem]
      exact hholds.1

/-- A refused call changes no lease. -/
theorem Holding.refused {error : String} (h : Holding hot layer held)
    (hcall : Called hot layer id reads next (.error error)) : Holding hot next held := by
  obtain ⟨hleases, hids, -⟩ := hcall.refused
  refine ⟨hcall.sound h.sound, fun s => ?_, fun lease hmem => ?_⟩
  · rw [hleases]
    exact h.leases s
  · rw [hids]
    exact h.ids lease hmem

/-- A drop of a lease. -/
theorem Holding.drop {before after : List (Nat × Nat)} (h : Holding hot layer (before ++ lease :: after)) :
    Holding hot (layer.drop lease.2) (before ++ after) := by
  refine ⟨h.sound.drop lease.2, fun s => ?_, fun other hmem => ?_⟩
  · have hcount := h.leases s
    rw [List.countP_append, List.countP_cons] at hcount
    rw [List.countP_append, FixedLayer.drop]
    simp only [Function.update_apply]
    split
    · next heq =>
      rw [if_pos (decide_eq_true heq.symm)] at hcount
      rw [← heq, hcount]
      omega
    · next hne =>
      rw [if_neg (by simpa using Ne.symm hne)] at hcount
      rw [hcount]
      omega
  · refine h.ids other ?_
    rcases List.mem_append.mp hmem with hmem | hmem
    · exact List.mem_append_left _ hmem
    · exact List.mem_append_right _ (List.mem_cons_of_mem _ hmem)

theorem PoolHolding.sound (h : PoolHolding hot pool held) : PoolSound hot pool := by
  rintro layer rfl
  exact Holding.sound h

/-- The end of a path leaves no lease. -/
theorem PoolHolding.release (h : PoolHolding hot pool held) : PoolHolding hot (release hot pool held) [] := by
  induction held generalizing pool with
  | nil => exact h
  | cons lease rest ih =>
    cases pool with
    | none => cases h
    | some layer =>
      have hdrop : Holding hot (layer.drop lease.2) ([] ++ rest) := Holding.drop h
      exact ih hdrop

/-- **A narrow path** finds the slots it needs, and ends without leases. -/
theorem PoolHolding.replay {events : List LeaseEvent} {final : List Nat}
    (reads : Nat → Nat → Nat → Bool) (h : PoolHolding hot pool held)
    (hnarrow : Narrow hot (held.map Prod.fst) events final) :
    PoolHolding hot (replay hot reads pool held events).1 [] ∧
      .error "all fixed cold slots leased" ∉ (replay hot reads pool held events).2 := by
  induction events generalizing pool held with
  | nil => exact ⟨h.release, List.not_mem_nil⟩
  | cons event rest ih =>
    cases hnarrow with
    | @taken _ _ expert _ hcold hrest =>
      rw [Qwen38.replay]
      rcases fixed_expert_cases hot pool expert (reads rest.length) with
        ⟨-, hcall⟩ | ⟨-, hpool, hcall⟩ | ⟨hid, layer, next, answer, hlayer, hcalled, hcall⟩ <;>
        rw [hcall]
      -- the layer cannot be built: the path ends, and what it held is given back
      · refine ⟨h.release, ?_⟩
        rw [List.mem_singleton]
        exact fun heq => absurd (Except.error.inj heq) (by decide)
      · rw [hpool] at h
        refine ⟨PoolHolding.release h, ?_⟩
        rw [List.mem_singleton]
        exact fun heq => absurd (Except.error.inj heq) (by decide)
      -- the layer is there, or has just been filled
      · have hholding : Holding hot layer held := by
          rcases hlayer with rfl | ⟨rfl, hfilled⟩
          · exact h
          · rw [show held = [] from h]
            exact hfilled.holding
        have hne := hcalled.ne_leased hholding hid hcold
        cases answer with
        | error error =>
          -- a refused call leases nothing, and ends the path
          have hnext : PoolHolding hot (some next) held := hholding.refused hcalled
          refine ⟨hnext.release, ?_⟩
          rw [List.mem_singleton]
          exact Ne.symm hne
        | ok slot =>
          obtain ⟨hend, hanswers⟩ := @ih (some next) (held ++ [(expert, slot)])
            (hholding.answered hcalled) (by rw [List.map_append]; exact hrest)
          refine ⟨hend, ?_⟩
          rw [List.mem_cons]
          refine not_or.mpr ⟨?_, hanswers⟩
          intro heq
          cases heq
    | @dropped _ _ expert _ _ hmem hrest =>
      obtain ⟨lease, hlease, rfl⟩ := List.mem_map.mp hmem
      rw [Qwen38.replay]
      -- the slot of the first lease on the expert is given back, as the source searches for it
      obtain ⟨found, before, after, hbefore, hfound, hsplit, herase⟩ := @List.exists_of_eraseP _
        (fun other : Nat × Nat => other.1 == lease.1) held lease hlease (by simp)
      have hfind : held.find? (fun other => other.1 == lease.1) = some found :=
        List.find?_eq_some_iff_append.mpr ⟨hfound, before, after, hsplit, by simpa using hbefore⟩
      have hrest' : Narrow hot ((before ++ after).map Prod.fst) rest final := by
        rw [List.erase_eq_eraseP', List.eraseP_map] at hrest
        rw [← herase]
        exact hrest
      simp only [hfind, herase]
      subst hsplit
      cases pool with
      | none => exact absurd (show _ = [] from h) (by simp)
      | some layer => exact @ih (some (layer.drop found.2)) _ (Holding.drop h) hrest'

end Replay

/-! ### The pool -/

section Pool

variable {K V T : Type} [Semiring K] [AddCommMonoid V] [Module K V]

theorem PoolHolding.paged_run {hot : HotCount} {pool : Option FixedLayer} (moe : PagedMoe K V T)
    (h : PoolHolding hot pool []) (requests : List (PagedRequest V)) :
    PoolHolding hot (paged_run moe hot pool requests).1 [] ∧
      .error "all fixed cold slots leased" ∉ (paged_run moe hot pool requests).2 := by
  induction requests generalizing pool with
  | nil => exact ⟨h, List.not_mem_nil⟩
  | cons request rest ih =>
    obtain ⟨final, hnarrow⟩ := (@narrow_forward_paged K V T _ _ _ moe hot request.batch_experts
      request.grouped_prefill request.input).take request.stop
    obtain ⟨hend, hanswers⟩ := h.replay request.reads hnarrow
    obtain ⟨hrest, hlater⟩ := ih hend
    rw [Qwen38.paged_run]
    refine ⟨hrest, ?_⟩
    rw [List.mem_append]
    exact not_or.mpr ⟨hanswers, hlater⟩

/-- **The fixed slots.** Over any calls, drops and failing reads: resident experts are distinct, a
hot slot has its expert, a leased slot keeps the nine fields of its expert, and `fixed_ids` finds
leased experts. A call is answered with the nine fields of its expert; after a failed read a layer
refuses every call, and a layer that was not built yet is still not built. No path of
`forward_paged` finds all cold slots leased. -/
theorem fixed_slot_pool (moe : PagedMoe K V T) (hot : HotCount) :
    (∀ events layer, pool_run hot none events = some layer →
      (∀ s s' expert, layer.ids s = some expert → layer.ids s' = some expert → s = s') ∧
      (∀ i < hot.slots, layer.Holds i i) ∧
      (∀ s, 0 < layer.leases s → (∃ expert, layer.Holds s expert) ∧
        ∀ event, ∃ next, (pool_step hot (some layer) event).1 = some next ∧
          next.ids s = layer.ids s ∧ next.storage s = layer.storage s) ∧
      ∀ leases : List (Nat × Nat),
        (∀ lease ∈ leases, 0 < layer.leases lease.2 ∧ layer.ids lease.2 = some lease.1) →
          layer.fixed_ids hot (leases.map Prod.fst) = .ok (leases.map Prod.snd)) ∧
    (∀ events id reads pool slot,
      fixed_expert hot (pool_run hot none events) id reads = (pool, .ok slot) →
        ∃ layer, pool = some layer ∧ layer.Holds slot id ∧ 0 < layer.leases slot) ∧
    (∀ events id reads pool,
      fixed_expert hot (pool_run hot none events) id reads = (pool, .error "fixed slot read failed") →
        (pool_run hot none events = none ∧ pool = none) ∨
        ∀ later other reads', ∃ error,
          (fixed_expert hot (pool_run hot pool later) other reads').2 = .error error) ∧
    ∀ requests, .error "all fixed cold slots leased" ∉ (paged_run moe hot none requests).2 := by
  have hsound (events : List PoolEvent) : PoolSound hot (pool_run hot none events) :=
    poolSound_none.run events
  refine ⟨?_, ?_, ?_, ?_⟩
  · intro events layer hlayer
    have h := hsound events layer hlayer
    refine ⟨h.distinct, h.hot_slot, fun s hs => ⟨h.leased s hs, ?_⟩, fun leases hleases => ?_⟩
    · exact fun event => pool_step_leased_kept event hs
    · exact h.fixed_ids_eq fun lease hmem => (hleases lease hmem).2
  · intro events id reads pool slot hcall
    rcases fixed_expert_cases hot (pool_run hot none events) id reads with
      ⟨-, heq⟩ | ⟨-, -, heq⟩ | ⟨-, layer, next, answer, hlayer, hcalled, heq⟩ <;>
      rw [heq] at hcall <;> cases hcall
    -- what the call found, or built, was in order
    have h : layer.Sound hot := by
      rcases hlayer with hlayer | ⟨-, hfilled⟩
      · exact hsound events layer hlayer
      · exact hfilled.sound
    obtain ⟨hholds, hleases, -⟩ := hcalled.answered h
    refine ⟨next, rfl, hholds, ?_⟩
    rw [hleases, Function.update_self]
    exact Nat.succ_pos _
  · intro events id reads pool hcall
    rcases fixed_expert_cases hot (pool_run hot none events) id reads with
      ⟨-, heq⟩ | ⟨-, hnone, heq⟩ | ⟨-, layer, next, answer, -, hcalled, heq⟩
    · rw [heq] at hcall
      exact absurd (Except.error.inj (Prod.mk.inj hcall).2) (by decide)
    · rw [heq] at hcall
      -- the layer could not be built
      exact Or.inl ⟨hnone, (Prod.mk.inj hcall).1.symm⟩
    · rw [heq] at hcall
      obtain ⟨rfl, rfl⟩ := Prod.mk.inj hcall
      have hfailed := hcalled.refused.2.2 rfl
      exact Or.inr fun later other reads' => pool_run_failed hfailed later other reads'
  · intro requests
    have hnone : PoolHolding hot none [] := rfl
    exact (hnone.paged_run moe requests).2

end Pool

end Qwen38
