import Mathlib.Algebra.BigOperators.Group.Finset.Basic
import Mathlib.Algebra.BigOperators.Ring.Finset
import Mathlib.Data.List.GetD
import Mathlib.Data.List.Nodup
import Mathlib.Data.List.TakeWhile
import Mathlib.Data.Rat.Defs
import Mathlib.Tactic.Ring
import Qwen38.Lib.InverseIndex
import Qwen38.Lib.Tiling

/-!
# The routes of a prefill batch

A batch of rows sends each row to `slots` experts. `vq_route_plan` sorts the routes by their expert
and cuts each expert's routes into full tiles, the primary ones, and a short rest, which is a tail
tile or one more primary tile. Gate and up run on the two groups of tiles apart, down on both
together, and the reduction adds up the routes of each row.

The plan is a partition of the routes (`Qwen38.Planned`), which is all that the dispatches rely on:
each writes what the expert of the route makes of its source row (`Qwen38.dispatch_apply`).
-/

namespace Qwen38

open Tiling (Tile Covers)

/-! ### The plan -/

section Plan

/-- `RouteGroupPlan`. A tile is three numbers of `metadata`: expert, first route and count. -/
structure RouteGroupPlan where
  tile_rows : Nat
  order : List Nat := []
  source_rows : List Nat := []
  metadata : List (Tile Nat) := []

/-- `append_routes`. -/
def append_routes (order : List Nat) (plan : RouteGroupPlan) (expert sorted_begin count : Nat) :
    RouteGroupPlan :=
  if count = 0 then plan
  else { plan with
    order := plan.order ++ (order.drop sorted_begin).take count
    metadata := plan.metadata ++ Tiling.chunks plan.tile_rows expert plan.order.length count }

/-- The routes of one expert: full tiles, and a rest that is a tail tile up to a limit. -/
def append_expert (height limit : Nat) (order : List Nat) (expert begin count : Nat)
    (primary tail : RouteGroupPlan) : RouteGroupPlan × RouteGroupPlan :=
  let primary_count := count / height * height
  let remainder := count - primary_count
  (append_routes order primary expert begin (if limit < remainder then count else primary_count),
    if 0 < remainder ∧ remainder ≤ limit then
      append_routes order tail expert (begin + primary_count) remainder
    else tail)

/-- The first route of another expert after `begin`. -/
def group_end (expert_values : Nat → Nat) (order : List Nat) (begin : Nat) : Nat :=
  begin + 1 + ((order.drop (begin + 1)).takeWhile fun route =>
    expert_values route = expert_values (order.getD begin 0)).length

/-- The loop over the experts. -/
def plan_groups (rows : Nat) (expert_values : Nat → Nat) (order : List Nat) (begin : Nat)
    (primary tail : RouteGroupPlan) : RouteGroupPlan × RouteGroupPlan :=
  if begin < order.length then
    let expert := expert_values (order.getD begin 0)
    let count := group_end expert_values order begin - begin
    let plans := if 768 ≤ rows then append_expert 24 16 order expert begin count primary tail
      else append_expert 16 8 order expert begin count primary tail
    plan_groups rows expert_values order (group_end expert_values order begin) plans.1 plans.2
  else (primary, tail)
termination_by order.length - begin
decreasing_by
  rw [group_end]
  omega

/-- `tile_rows` of the primary tiles, and of the dispatch that reads both groups. -/
def primary_tile_rows (rows : Nat) : Nat := if 768 ≤ rows then 24 else 16

/-- `tile_rows` of the tail. -/
def tail_tile_rows (rows : Nat) : Nat := if 768 ≤ rows then 16 else 8

/-- Both groups; a tail without a primary group takes its place. -/
def route_groups (rows : Nat) (expert_values : Nat → Nat) (order : List Nat) :
    RouteGroupPlan × RouteGroupPlan :=
  let plans := plan_groups rows expert_values order 0 { tile_rows := primary_tile_rows rows }
    { tile_rows := tail_tile_rows rows }
  if plans.1.order = [] then (plans.2, { tile_rows := tail_tile_rows rows }) else plans

/-- `finalize_plan`, for the source rows. -/
def finalize_plan (slots : Nat) (plan : RouteGroupPlan) : RouteGroupPlan :=
  { plan with source_rows := plan.order.map fun original => original / slots }

/-- `finalize_plan`, for `inverse_order`. -/
def finalize_inverse (order : List Nat) (combined_begin : Nat) (inverse_order : List Nat) :
    List Nat :=
  InverseIndex.write order combined_begin inverse_order

/-- What the dispatches read. -/
structure RoutePlan where
  primary : RouteGroupPlan
  tail : RouteGroupPlan
  inverse_order : List Nat
  combined_metadata : List (Tile Nat)

/-- The plan of a batch. -/
def vq_route_plan (rows slots : Nat) (expert_values : Nat → Nat) : RoutePlan :=
  let route_count := rows * slots
  let order := (List.range route_count).mergeSort fun left right =>
    expert_values left ≤ expert_values right
  let plans := route_groups rows expert_values order
  let primary_count := plans.1.order.length
  { primary := finalize_plan slots plans.1
    tail := finalize_plan slots plans.2
    inverse_order := finalize_inverse plans.2.order primary_count
      (finalize_inverse plans.1.order 0 (List.replicate route_count 0))
    combined_metadata := plans.1.metadata ++ plans.2.metadata.map (Tile.shift primary_count) }

end Plan

/-! ### The dispatches -/

section Dispatch

variable {K : Type} [CommRing K]

/-- A projection of all experts, with the weights that its codes stand for. -/
structure VqProjection (K : Type) where
  output_dimension : Nat
  input_dimension : Nat
  weight : Nat → Nat → Nat → K

/-- The product of a row with an output of an expert, in groups of 64. -/
def VqProjection.product (projection : VqProjection K) (expert : Nat) (row : Nat → K) (output : Nat) :
    K :=
  ∑ group ∈ Finset.range (projection.input_dimension / 64), ∑ element ∈ Finset.range 64,
    row (group * 64 + element) * projection.weight expert output (group * 64 + element)

/-- The experts of a layer; what gate and up make is what down reads. -/
structure VqExperts (K : Type) where
  expert_gate : VqProjection K
  expert_up : VqProjection K
  expert_down : VqProjection K
  swiglu : K → K → K
  hidden_dimension : expert_down.input_dimension = expert_gate.output_dimension

/-- Experts of which every weight is the number of the expert: 64 numbers go in, and one comes
out. -/
def small_experts : VqExperts ℤ where
  expert_gate := ⟨64, 64, fun expert _ _ => expert⟩
  expert_up := ⟨64, 64, fun expert _ _ => expert⟩
  expert_down := ⟨1, 64, fun expert _ _ => expert⟩
  swiglu gate up := gate * up
  hidden_dimension := rfl

/-- The routes of a tile that the accumulators of a threadgroup hold. -/
def accumulated (rtile route : Nat) : Bool :=
  route < 8 || (16 ≤ rtile && route < 16) || (24 ≤ rtile && route < 24) || (32 ≤ rtile && route < 32)

/-- What the threadgroups of a tile write. `unset` is what is in a buffer that nothing was stored
to. -/
def write_tile (rtile outputs : Nat) (unset : Nat → Nat → K)
    (product : Nat → (Nat → K) → Nat → K) (xsrc : Nat → Nat → K) (srcrows : Nat → Nat) (y : Nat → Nat → K)
    (tile : Tile Nat) : Nat → Nat → K := fun place column =>
  if tile.Has place ∧ column < outputs then
    if accumulated rtile (place - tile.start) then product tile.label (xsrc (srcrows place)) column
    else unset (place - tile.start) column
  else y place column

/-- A dispatch over the tiles of `tmeta`. -/
def dispatch (rtile outputs : Nat) (unset : Nat → Nat → K)
    (product : Nat → (Nat → K) → Nat → K) (xsrc : Nat → Nat → K) (srcrows : Nat → Nat)
    (tmeta : List (Tile Nat)) (y : Nat → Nat → K) : Nat → Nat → K :=
  tmeta.foldl (write_tile rtile outputs unset product xsrc srcrows) y

/-- `gemmseg_d8`. -/
def gemmseg_d8 (rtile : Nat) (unset : Nat → Nat → K) (projection : VqProjection K) :=
  dispatch rtile projection.output_dimension unset projection.product

/-- `gemmseg_gate_up_d8`. -/
def gemmseg_gate_up_d8 (rtile : Nat) (unset : Nat → Nat → K) (experts : VqExperts K) :=
  dispatch rtile experts.expert_gate.output_dimension unset fun expert row output =>
    experts.swiglu (experts.expert_gate.product expert row output)
      (experts.expert_up.product expert row output)

/-- `vq_route_reduce_fp16_kernel`: eight sums, by the slot. -/
def route_reduce (slots : Nat) (down : Nat → Nat → K) (route_weights : Nat → K)
    (inverse_order : Nat → Nat) (row column : Nat) : K :=
  let sums := (List.range slots).foldl (fun (sums : Nat → K) slot =>
    let original := row * slots + slot
    let sorted := inverse_order original
    Function.update sums (slot % 8)
      (sums (slot % 8) + down sorted column * route_weights original)) fun _ => 0
  (List.range 7).foldl (fun sum j => sum + sums (j + 1)) (sums 0)

/-- `gate_group`. -/
def gate_group (experts : VqExperts K) (unset y : Nat → Nat → K) (input : Nat → Nat → K)
    (group : RouteGroupPlan) : Nat → Nat → K :=
  gemmseg_gate_up_d8 group.tile_rows unset experts input (fun route => group.source_rows.getD route 0)
    group.metadata y

/-- `hidden`: the rows of both groups. -/
def gate_hidden (experts : VqExperts K) (unset y : Nat → Nat → K) (input : Nat → Nat → K)
    (plan : RoutePlan) : Nat → Nat → K :=
  if plan.tail.order = [] then gate_group experts unset y input plan.primary
  else fun route => if route < plan.primary.order.length then
      gate_group experts unset y input plan.primary route
    else gate_group experts unset y input plan.tail (route - plan.primary.order.length)

/-- The routed part of the layer. -/
def vq_prefill_routed (experts : VqExperts K) (unset y : Nat → Nat → K) (rows slots : Nat)
    (expert_values : Nat → Nat) (weights : Nat → K) (input : Nat → Nat → K) : Nat → Nat → K :=
  let plan := vq_route_plan rows slots expert_values
  let projected := gemmseg_d8 (primary_tile_rows rows) unset experts.expert_down
    (gate_hidden experts unset y input plan) id plan.combined_metadata y
  route_reduce slots projected weights fun route => plan.inverse_order.getD route 0

end Dispatch

/-! ### The plan is a partition -/

section Planned

variable {rows slots : Nat} {expert_values : Nat → Nat} {order routes : List Nat}
  {plan primary tail : RouteGroupPlan} {expert begin count height limit : Nat}

/-- **The invariant of the plan**: the two groups have the routes so far, in tiles of one expert. -/
structure Planned (expert_values : Nat → Nat) (routes : List Nat) (primary tail : RouteGroupPlan) :
    Prop where
  perm : (primary.order ++ tail.order).Perm routes
  primary : Covers expert_values primary.tile_rows 0 primary.metadata primary.order
  tail : Covers expert_values tail.tile_rows 0 tail.metadata tail.order

@[simp] theorem append_routes_tile_rows :
    (append_routes order plan expert begin count).tile_rows = plan.tile_rows := by
  rw [append_routes]
  split <;> rfl

@[simp] theorem append_routes_order :
    (append_routes order plan expert begin count).order =
      plan.order ++ (order.drop begin).take count := by
  rw [append_routes]
  split
  · next hzero => rw [hzero, List.take_zero, List.append_nil]
  · rfl

/-- More routes of one expert. -/
theorem covers_append_routes (hrows : 0 < plan.tile_rows)
    (h : Covers expert_values plan.tile_rows 0 plan.metadata plan.order)
    (hbound : begin + count ≤ order.length)
    (hexpert : ∀ route ∈ (order.drop begin).take count, expert_values route = expert) :
    Covers expert_values (append_routes order plan expert begin count).tile_rows 0
      (append_routes order plan expert begin count).metadata
      (append_routes order plan expert begin count).order := by
  rw [append_routes_tile_rows, append_routes_order, append_routes]
  split
  · next hzero =>
    rw [hzero, List.take_zero, List.append_nil]
    exact h
  · refine h.append ?_
    have hlength : ((order.drop begin).take count).length = count := by
      rw [List.length_take, List.length_drop]
      omega
    have hchunks := @Tiling.covers_chunks _ _ _ _ plan.order.length _ _ hrows hexpert
    rw [hlength] at hchunks
    rw [Nat.zero_add]
    exact hchunks

/-- Routes that go to the one group and to the other. -/
theorem perm_append_append {a b c s t : List Nat} (h : (a ++ b).Perm c) :
    ((a ++ s) ++ (b ++ t)).Perm (c ++ (s ++ t)) := by
  refine List.perm_iff_count.mpr fun route => ?_
  have hcount := h.count_eq route
  simp only [List.count_append] at hcount ⊢
  omega

theorem take_add_of_le {first : Nat} (order : List Nat) (begin : Nat) (h : first ≤ count) :
    (order.drop begin).take count =
      (order.drop begin).take first ++ (order.drop (begin + first)).take (count - first) := by
  rw [← List.drop_drop, ← List.take_add, Nat.add_sub_cancel' h]

/-- All routes of an expert go to the primary group. -/
theorem Planned.append_primary (h : Planned expert_values (order.take begin) primary tail)
    (hprimary : 0 < primary.tile_rows) (hbound : begin + count ≤ order.length)
    (hexpert : ∀ route ∈ (order.drop begin).take count, expert_values route = expert) :
    Planned expert_values (order.take (begin + count))
      (append_routes order primary expert begin count) tail where
  perm := by
    have hperm := @perm_append_append _ _ _ ((order.drop begin).take count) [] h.perm
    rw [List.append_nil, List.append_nil, ← List.take_add] at hperm
    rw [append_routes_order]
    exact hperm
  primary := covers_append_routes hprimary h.primary hbound hexpert
  tail := h.tail

/-- **The routes of one more expert.** -/
theorem Planned.append_expert (h : Planned expert_values (order.take begin) primary tail)
    (hprimary : 0 < primary.tile_rows) (htail : 0 < tail.tile_rows)
    (hbound : begin + count ≤ order.length)
    (hexpert : ∀ route ∈ (order.drop begin).take count, expert_values route = expert) :
    Planned expert_values (order.take (begin + count))
      (append_expert height limit order expert begin count primary tail).1
      (append_expert height limit order expert begin count primary tail).2 := by
  have hle : count / height * height ≤ count := Nat.div_mul_le_self count height
  have hsplit := take_add_of_le order begin hle
  rw [Qwen38.append_expert]
  generalize count / height * height = primary_count at hle hsplit
  -- the routes of each group, and those the expert has in it
  by_cases hrest : limit < count - primary_count
  · simp only [if_pos hrest, if_neg (show ¬(0 < count - primary_count ∧
      count - primary_count ≤ limit) by omega)]
    exact h.append_primary hprimary hbound hexpert
  · have hfirst : ∀ route ∈ (order.drop begin).take primary_count, expert_values route = expert :=
      fun route hroute => hexpert route (by
        rw [hsplit]
        exact List.mem_append_left _ hroute)
    simp only [if_neg hrest]
    by_cases hzero : 0 < count - primary_count
    · have hsecond : ∀ route ∈ (order.drop (begin + primary_count)).take (count - primary_count),
          expert_values route = expert := fun route hroute => hexpert route (by
        rw [hsplit]
        exact List.mem_append_right _ hroute)
      simp only [if_pos (show 0 < count - primary_count ∧ count - primary_count ≤ limit by omega)]
      refine ⟨?_, covers_append_routes hprimary h.primary (by omega) hfirst,
        covers_append_routes htail h.tail (by omega) hsecond⟩
      rw [append_routes_order, append_routes_order, List.take_add, hsplit]
      exact perm_append_append h.perm
    · have hall : primary_count = count := by omega
      subst hall
      simp only [if_neg (show ¬(0 < primary_count - primary_count ∧
        primary_count - primary_count ≤ limit) by omega)]
      exact h.append_primary hprimary hbound hexpert

theorem group_end_le (h : begin < order.length) :
    group_end expert_values order begin ≤ order.length := by
  have hwhile := (@List.takeWhile_prefix _ (order.drop (begin + 1)) fun route =>
    decide (expert_values route = expert_values (order.getD begin 0))).length_le
  rw [List.length_drop] at hwhile
  rw [group_end]
  omega

/-- The routes up to the end of a group have its expert. -/
theorem expert_of_group (h : begin < order.length) :
    ∀ route ∈ (order.drop begin).take (group_end expert_values order begin - begin),
      expert_values route = expert_values (order.getD begin 0) := by
  have hcount : group_end expert_values order begin - begin =
      ((order.drop (begin + 1)).takeWhile fun route =>
        decide (expert_values route = expert_values (order.getD begin 0))).length + 1 := by
    rw [group_end]
    omega
  intro route hroute
  rw [hcount, List.drop_eq_getElem_cons h, List.take_succ_cons] at hroute
  rcases List.mem_cons.mp hroute with rfl | hroute
  · rw [List.getD_eq_getElem _ _ h]
  · rw [← List.prefix_iff_eq_take.mp (List.takeWhile_prefix _)] at hroute
    have hkey := List.mem_takeWhile_imp hroute
    exact of_decide_eq_true hkey

/-- The heights of the tiles. -/
theorem append_expert_tile_rows :
    (append_expert height limit order expert begin count primary tail).1.tile_rows =
        primary.tile_rows ∧
      (append_expert height limit order expert begin count primary tail).2.tile_rows =
        tail.tile_rows := by
  rw [append_expert]
  refine ⟨append_routes_tile_rows, ?_⟩
  simp only []
  split
  · exact append_routes_tile_rows
  · rfl

/-- **The loop over the experts plans all routes.** Each turn takes the routes of one expert, which
are adjacent in the order, and appends them to the group that their number asks for. -/
theorem planned_plan_groups (h : Planned expert_values (order.take begin) primary tail)
    (hbegin : begin ≤ order.length) (hprimary : 0 < primary.tile_rows)
    (htail : 0 < tail.tile_rows) :
    Planned expert_values order (plan_groups rows expert_values order begin primary tail).1
        (plan_groups rows expert_values order begin primary tail).2 ∧
      (plan_groups rows expert_values order begin primary tail).1.tile_rows = primary.tile_rows ∧
      (plan_groups rows expert_values order begin primary tail).2.tile_rows = tail.tile_rows := by
  induction hleft : order.length - begin using Nat.strong_induction_on
    generalizing begin primary tail with
  | _ left ih =>
    rw [plan_groups]
    by_cases hlt : begin < order.length
    · have hend := @group_end_le expert_values _ _ hlt
      have hcount : begin + (group_end expert_values order begin - begin) =
          group_end expert_values order begin := by
        rw [group_end]
        omega
      have hpassed : order.length - group_end expert_values order begin < left := by
        rw [group_end] at hend ⊢
        omega
      -- the step, for either pair of heights
      have hstep (height limit : Nat) := by
        have hplanned := @Planned.append_expert _ _ _ _ _ _ _ height limit h hprimary htail
          (by rw [hcount]; exact hend) (@expert_of_group expert_values _ _ hlt)
        rw [hcount] at hplanned
        obtain ⟨hfirst, hsecond⟩ := @append_expert_tile_rows order primary tail
          (expert_values (order.getD begin 0)) begin
          (group_end expert_values order begin - begin) height limit
        have hrun := ih _ hpassed hplanned hend (by rw [hfirst]; exact hprimary)
          (by rw [hsecond]; exact htail) rfl
        rw [hfirst, hsecond] at hrun
        exact hrun
      simp only [if_pos hlt]
      split
      · exact hstep 24 16
      · exact hstep 16 8
    · rw [if_neg hlt]
      have hall : begin = order.length := by omega
      rw [hall, List.take_length] at h
      exact ⟨h, rfl, rfl⟩

/-- A height at which the accumulators of a threadgroup hold every route of a tile. -/
def Complete (height : Nat) : Prop := 0 < height ∧ ∀ route < height, accumulated height route = true

theorem complete_of_mem (h : height ∈ [8, 16, 24]) : Complete height := by
  have hall : ∀ height ∈ [8, 16, 24], 0 < height ∧
      ∀ route < height, accumulated height route = true := by decide
  exact hall height h

theorem complete_primary_tile_rows (rows : Nat) : Complete (primary_tile_rows rows) := by
  refine complete_of_mem ?_
  rw [primary_tile_rows]
  split <;> decide

theorem complete_tail_tile_rows (rows : Nat) : Complete (tail_tile_rows rows) := by
  refine complete_of_mem ?_
  rw [tail_tile_rows]
  split <;> decide

theorem tail_tile_rows_le (rows : Nat) : tail_tile_rows rows ≤ primary_tile_rows rows := by
  rw [tail_tile_rows, primary_tile_rows]
  split <;> decide

/-- **Both groups**, also when the tail takes the place of the primary one. -/
theorem planned_route_groups (rows : Nat) (expert_values : Nat → Nat) (order : List Nat) :
    Planned expert_values order (route_groups rows expert_values order).1
        (route_groups rows expert_values order).2 ∧
      (Complete (route_groups rows expert_values order).1.tile_rows ∧
        (route_groups rows expert_values order).1.tile_rows ≤ primary_tile_rows rows) ∧
      (route_groups rows expert_values order).2.tile_rows = tail_tile_rows rows := by
  obtain ⟨hplanned, hprimary, htail⟩ := @planned_plan_groups rows expert_values order
    { tile_rows := primary_tile_rows rows } { tile_rows := tail_tile_rows rows } 0
    ⟨List.Perm.refl _, .nil 0, .nil 0⟩ (Nat.zero_le _) (complete_primary_tile_rows rows).1
    (complete_tail_tile_rows rows).1
  rw [route_groups]
  split
  · next hempty =>
    refine ⟨⟨?_, hplanned.tail, .nil 0⟩, ⟨?_, ?_⟩, rfl⟩
    · have hperm := hplanned.perm
      rw [hempty, List.nil_append] at hperm
      rw [List.append_nil]
      exact hperm
    · rw [htail]
      exact complete_tail_tile_rows rows
    · rw [htail]
      exact tail_tile_rows_le rows
  · refine ⟨hplanned, ⟨?_, hprimary.le⟩, htail⟩
    rw [hprimary]
    exact complete_primary_tile_rows rows

/-- **The combined metadata** cover the primary routes and those of the tail behind them. -/
theorem Planned.combined (h : Planned expert_values routes primary tail)
    (hprimary : primary.tile_rows ≤ height) (htail : tail.tile_rows ≤ height) :
    Covers expert_values height 0
      (primary.metadata ++ tail.metadata.map (Tile.shift primary.order.length))
      (primary.order ++ tail.order) := by
  refine (h.primary.mono hprimary).append ?_
  exact (h.tail.mono htail).shift primary.order.length

end Planned

/-! ### What the dispatches write -/

section Written

variable {K : Type} [CommRing K] {rtile outputs height start place column slots : Nat}
  {unset y : Nat → Nat → K} {product : Nat → (Nat → K) → Nat → K} {xsrc : Nat → Nat → K}
  {srcrows : Nat → Nat} {expert_values : Nat → Nat} {tiles : List (Tile Nat)} {routes : List Nat}

omit [CommRing K] in
theorem dispatch_cons (tile : Tile Nat) :
    dispatch rtile outputs unset product xsrc srcrows (tile :: tiles) y =
      dispatch rtile outputs unset product xsrc srcrows tiles
        (write_tile rtile outputs unset product xsrc srcrows y tile) := rfl

omit [CommRing K] in
/-- Tiles leave what is before them. -/
theorem dispatch_of_lt (h : Covers expert_values height start tiles routes) (hplace : place < start) :
    dispatch rtile outputs unset product xsrc srcrows tiles y place column = y place column := by
  induction h generalizing y with
  | nil => rfl
  | cons _ _ _ hrest ih =>
    rw [dispatch_cons, ih (by omega), write_tile, if_neg]
    rintro ⟨⟨hlow, -⟩, -⟩
    simp only at hlow
    omega

omit [CommRing K] in
/-- **A dispatch over tiles of a height it can hold**: each route has the product of its expert with
its own source row. The tiles cover the routes once, so that no later tile writes over what an
earlier one has written. -/
theorem dispatch_apply (hheight : ∀ route < height, accumulated rtile route = true)
    (h : Covers expert_values height start tiles routes) (hplace : place < routes.length)
    (hcolumn : column < outputs) :
    dispatch rtile outputs unset product xsrc srcrows tiles y (start + place) column =
      product (expert_values (routes.getD place 0)) (xsrc (srcrows (start + place))) column := by
  induction h generalizing y place with
  | nil => exact absurd hplace (Nat.not_lt_zero place)
  | @cons start label chunk tiles routes hpos hle hlabel hrest ih =>
    rw [dispatch_cons]
    by_cases hlt : place < chunk.length
    · have hhas : (⟨label, start, chunk.length⟩ : Tile Nat).Has (start + place) :=
        ⟨Nat.le_add_right _ _, Nat.add_lt_add_left hlt _⟩
      have hlocal : accumulated rtile (start + place - start) = true := by
        rw [Nat.add_sub_cancel_left]
        exact hheight place (by omega)
      rw [dispatch_of_lt hrest (by omega), write_tile, if_pos ⟨hhas, hcolumn⟩, if_pos hlocal,
        List.getD_append _ _ _ _ hlt, List.getD_eq_getElem _ _ hlt,
        hlabel _ (List.getElem_mem hlt)]
    · have hsplit : start + place = start + chunk.length + (place - chunk.length) := by omega
      rw [List.length_append] at hplace
      rw [hsplit, ih (by omega), List.getD_append_right _ _ _ _ (Nat.le_of_not_lt hlt)]

omit [CommRing K] in
theorem dispatch_apply_zero (hheight : ∀ route < height, accumulated rtile route = true)
    (h : Covers expert_values height 0 tiles routes) (hplace : place < routes.length)
    (hcolumn : column < outputs) :
    dispatch rtile outputs unset product xsrc srcrows tiles y place column =
      product (expert_values (routes.getD place 0)) (xsrc (srcrows place)) column := by
  have happly := @dispatch_apply K rtile outputs height 0 place column unset y product xsrc srcrows
    expert_values tiles routes hheight h hplace hcolumn
  rw [Nat.zero_add] at happly
  exact happly

/-- **The eight sums of the reduction** make up the sum over all slots, since a slot goes to the sum
of its number modulo eight. -/
theorem route_reduce_eq (slots : Nat) (down : Nat → Nat → K) (route_weights : Nat → K)
    (inverse_order : Nat → Nat) (row column : Nat) :
    route_reduce slots down route_weights inverse_order row column =
      ∑ slot ∈ Finset.range slots, down (inverse_order (row * slots + slot)) column *
        route_weights (row * slots + slot) := by
  have htotal (sums : Nat → K) : (List.range 7).foldl (fun sum j => sum + sums (j + 1)) (sums 0) =
      ∑ j ∈ Finset.range 8, sums j := by
    simp [List.range_succ, Finset.sum_range_succ]
  have hwalk (count : Nat) : ∑ j ∈ Finset.range 8, (List.range count).foldl
      (fun (sums : Nat → K) slot => Function.update sums (slot % 8) (sums (slot % 8) +
        down (inverse_order (row * slots + slot)) column * route_weights (row * slots + slot)))
      (fun _ => 0) j =
      ∑ slot ∈ Finset.range count, down (inverse_order (row * slots + slot)) column *
        route_weights (row * slots + slot) := by
    induction count with
    | zero => simp
    | succ count ih =>
      have hmem : count % 8 ∈ Finset.range 8 := Finset.mem_range.mpr (Nat.mod_lt _ (by decide))
      rw [List.range_succ, List.foldl_append, List.foldl_cons, List.foldl_nil,
        Finset.sum_update_of_mem hmem, Finset.sum_range_succ, ← ih,
        Finset.sum_eq_add_sum_sdiff_singleton_of_mem hmem, add_right_comm]
  rw [route_reduce, htotal, hwalk]

end Written

/-! ### The routed part -/

section Routed

variable {K : Type} [CommRing K] {rows slots : Nat} {expert_values : Nat → Nat}

/-- The routes in the order of the dispatches. -/
def RoutePlan.order (plan : RoutePlan) : List Nat := plan.primary.order ++ plan.tail.order

/-- **The plan of a batch.** -/
theorem planned_vq_route_plan (rows slots : Nat) (expert_values : Nat → Nat) :
    (vq_route_plan rows slots expert_values).order.Perm (List.range (rows * slots)) ∧
      Planned expert_values (vq_route_plan rows slots expert_values).order
        (vq_route_plan rows slots expert_values).primary
        (vq_route_plan rows slots expert_values).tail ∧
      Complete (vq_route_plan rows slots expert_values).primary.tile_rows ∧
      Complete (vq_route_plan rows slots expert_values).tail.tile_rows ∧
      Covers expert_values (primary_tile_rows rows) 0
        (vq_route_plan rows slots expert_values).combined_metadata
        (vq_route_plan rows slots expert_values).order := by
  obtain ⟨hplanned, ⟨hcomplete, hle⟩, htail⟩ := planned_route_groups rows expert_values
    ((List.range (rows * slots)).mergeSort fun left right =>
      expert_values left ≤ expert_values right)
  refine ⟨hplanned.perm.trans (List.mergeSort_perm _ _),
    ⟨List.Perm.refl _, hplanned.primary, hplanned.tail⟩, hcomplete, ?_, ?_⟩
  · have hlow := complete_tail_tile_rows rows
    rw [← htail] at hlow
    exact hlow
  · refine hplanned.combined hle ?_
    rw [htail]
    exact tail_tile_rows_le rows

theorem inverse_order_eq (rows slots : Nat) (expert_values : Nat → Nat) :
    (vq_route_plan rows slots expert_values).inverse_order =
      finalize_inverse (vq_route_plan rows slots expert_values).order 0
        (List.replicate (rows * slots) 0) := by
  rw [RoutePlan.order, finalize_inverse, InverseIndex.write_append, Nat.zero_add]
  rfl

/-- **`inverse_order` is the inverse.** -/
theorem getElem?_inverse_order {place route : Nat}
    (h : (vq_route_plan rows slots expert_values).order[place]? = some route) :
    (vq_route_plan rows slots expert_values).inverse_order[route]? = some place := by
  have hperm := (planned_vq_route_plan rows slots expert_values).1
  rw [inverse_order_eq, finalize_inverse,
    InverseIndex.getElem?_write (hperm.nodup_iff.mpr List.nodup_range) ?_ h, Nat.zero_add]
  intro other hother
  rw [List.length_replicate]
  exact List.mem_range.mp (hperm.mem_iff.mp hother)

/-- What an expert makes of a row. -/
def VqExperts.forward (experts : VqExperts K) (expert : Nat) (row : Nat → K) : Nat → K :=
  experts.expert_down.product expert fun column =>
    experts.swiglu (experts.expert_gate.product expert row column)
      (experts.expert_up.product expert row column)

/-- A product reads its input columns only. -/
theorem product_congr {projection : VqProjection K} {expert output : Nat} {row row' : Nat → K}
    (h : ∀ column < projection.input_dimension, row column = row' column) :
    projection.product expert row output = projection.product expert row' output := by
  refine Finset.sum_congr rfl fun group hgroup => Finset.sum_congr rfl fun element helement => ?_
  have hlt := Finset.mem_range.mp hgroup
  have hlt' := Finset.mem_range.mp helement
  rw [h _ (by omega)]

variable {experts : VqExperts K} {unset y input : Nat → Nat → K} {place column : Nat}
  {group : RouteGroupPlan}

/-- The hidden row of a route. -/
theorem gate_group_eq (hcomplete : Complete group.tile_rows)
    (h : Covers expert_values group.tile_rows 0 group.metadata group.order)
    (hsource : group.source_rows = group.order.map fun original => original / slots)
    (hplace : place < group.order.length) (hcolumn : column < experts.expert_gate.output_dimension) :
    gate_group experts unset y input group place column =
      experts.swiglu
        (experts.expert_gate.product (expert_values (group.order.getD place 0))
          (input (group.order.getD place 0 / slots)) column)
        (experts.expert_up.product (expert_values (group.order.getD place 0))
          (input (group.order.getD place 0 / slots)) column) := by
  have hrow : group.source_rows.getD place 0 = group.order.getD place 0 / slots := by
    rw [hsource, List.getD_eq_getElem _ _ (by rw [List.length_map]; exact hplace), List.getElem_map,
      List.getD_eq_getElem _ _ hplace]
  rw [gate_group, gemmseg_gate_up_d8, dispatch_apply_zero hcomplete.2 h hplace hcolumn, hrow]

theorem gate_hidden_eq (unset y input : Nat → Nat → K) (experts : VqExperts K)
    (hplace : place < rows * slots) (hcolumn : column < experts.expert_gate.output_dimension) :
    gate_hidden experts unset y input (vq_route_plan rows slots expert_values) place column =
      experts.swiglu
        (experts.expert_gate.product
          (expert_values ((vq_route_plan rows slots expert_values).order.getD place 0))
          (input ((vq_route_plan rows slots expert_values).order.getD place 0 / slots)) column)
        (experts.expert_up.product
          (expert_values ((vq_route_plan rows slots expert_values).order.getD place 0))
          (input ((vq_route_plan rows slots expert_values).order.getD place 0 / slots)) column) := by
  obtain ⟨hperm, hplanned, hprimary, htail, -⟩ := planned_vq_route_plan rows slots expert_values
  have hlength := hperm.length_eq
  rw [List.length_range, RoutePlan.order, List.length_append] at hlength
  rw [gate_hidden, RoutePlan.order]
  by_cases hlt : place < (vq_route_plan rows slots expert_values).primary.order.length
  · have hrow : (if (vq_route_plan rows slots expert_values).tail.order = [] then
          gate_group experts unset y input (vq_route_plan rows slots expert_values).primary
        else fun route => if route < (vq_route_plan rows slots expert_values).primary.order.length then
          gate_group experts unset y input (vq_route_plan rows slots expert_values).primary route
        else gate_group experts unset y input (vq_route_plan rows slots expert_values).tail
          (route - (vq_route_plan rows slots expert_values).primary.order.length)) place =
        gate_group experts unset y input (vq_route_plan rows slots expert_values).primary place := by
      split
      · rfl
      · exact if_pos hlt
    rw [hrow, List.getD_append _ _ _ _ hlt]
    exact gate_group_eq hprimary hplanned.primary rfl hlt hcolumn
  · have hne : (vq_route_plan rows slots expert_values).tail.order ≠ [] := by
      intro hnil
      rw [hnil, List.length_nil] at hlength
      omega
    rw [if_neg hne, if_neg hlt, List.getD_append_right _ _ _ _ (Nat.le_of_not_lt hlt)]
    exact gate_group_eq htail hplanned.tail rfl (by omega) hcolumn

/-- **The output of a row** is the weighted sum over its own experts. The route of a slot is found
in the sorted order by `inverse_order`, and the row that was computed there is that of the route. -/
theorem vq_prefill_routed_eq (experts : VqExperts K) (unset y : Nat → Nat → K)
    (weights : Nat → K) (input : Nat → Nat → K) {row column : Nat} (hrow : row < rows)
    (hcolumn : column < experts.expert_down.output_dimension) :
    vq_prefill_routed experts unset y rows slots expert_values weights input row column =
      ∑ slot ∈ Finset.range slots,
        experts.forward (expert_values (row * slots + slot)) (input row) column *
          weights (row * slots + slot) := by
  obtain ⟨hperm, -, -, -, hcombined⟩ := planned_vq_route_plan rows slots expert_values
  rw [vq_prefill_routed, route_reduce_eq]
  refine Finset.sum_congr rfl fun slot hslot => congrArg (· * _) ?_
  have hlt := Finset.mem_range.mp hslot
  -- the route has a place, and `inverse_order` knows it
  have hroute : row * slots + slot < rows * slots := by
    calc row * slots + slot < row * slots + slots := Nat.add_lt_add_left hlt _
      _ = (row + 1) * slots := by rw [Nat.succ_mul]
      _ ≤ rows * slots := Nat.mul_le_mul_right _ hrow
  obtain ⟨place, hplace⟩ := List.getElem?_of_mem
    (hperm.mem_iff.mpr (List.mem_range.mpr hroute))
  obtain ⟨hbound, -⟩ := List.getElem?_eq_some_iff.mp hplace
  have hinverse := getElem?_inverse_order hplace
  have horder : (vq_route_plan rows slots expert_values).order.getD place 0 = row * slots + slot := by
    rw [List.getD_eq_getElem?_getD, hplace, Option.getD_some]
  have hown : (row * slots + slot) / slots = row := by
    rw [Nat.mul_comm, Nat.mul_add_div (by omega), Nat.div_eq_of_lt hlt, Nat.add_zero]
  have hplaces : place < rows * slots := by
    have hlength := hperm.length_eq
    rw [List.length_range] at hlength
    omega
  rw [List.getD_eq_getElem?_getD, hinverse, Option.getD_some, gemmseg_d8,
    dispatch_apply_zero (complete_primary_tile_rows rows).2 hcombined hbound hcolumn, horder,
    VqExperts.forward]
  refine product_congr fun inner hinner => ?_
  have hhidden := @gate_hidden_eq K _ rows slots expert_values place inner unset y input experts
    hplaces (hinner.trans_eq experts.hidden_dimension)
  rw [horder, hown] at hhidden
  exact hhidden

/-- **The route plan is a partition**, for every batch and every choice of experts: each route is in
the plan once, the tiles of both groups and of the combined dispatch partition their routes at the
height of the dispatch that reads them, source rows and inverse order are those of the routes, and
the output is what each row's own experts make of it. -/
theorem vq_route_plan_partition (rows slots : Nat) (expert_values : Nat → Nat)
    (experts : VqExperts K) (unset y : Nat → Nat → K) (weights : Nat → K) (input : Nat → Nat → K) :
    (vq_route_plan rows slots expert_values).order.Perm (List.range (rows * slots)) ∧
      (∀ group ∈ [(vq_route_plan rows slots expert_values).primary,
          (vq_route_plan rows slots expert_values).tail],
        Tiling.Partition expert_values group.tile_rows group.metadata group.order ∧
          Complete group.tile_rows ∧
          group.source_rows = group.order.map fun original => original / slots) ∧
      Tiling.Partition expert_values (primary_tile_rows rows)
        (vq_route_plan rows slots expert_values).combined_metadata
        (vq_route_plan rows slots expert_values).order ∧
      (vq_route_plan rows slots expert_values).combined_metadata =
        (vq_route_plan rows slots expert_values).primary.metadata ++
          (vq_route_plan rows slots expert_values).tail.metadata.map
            (Tile.shift (vq_route_plan rows slots expert_values).primary.order.length) ∧
      (∀ place route : Nat, (vq_route_plan rows slots expert_values).order[place]? = some route →
        (vq_route_plan rows slots expert_values).inverse_order[route]? = some place) ∧
      ∀ row < rows, ∀ column < experts.expert_down.output_dimension,
        vq_prefill_routed experts unset y rows slots expert_values weights input row column =
          ∑ slot ∈ Finset.range slots,
            experts.forward (expert_values (row * slots + slot)) (input row) column *
              weights (row * slots + slot) := by
  obtain ⟨hperm, hplanned, hprimary, htail, hcombined⟩ :=
    planned_vq_route_plan rows slots expert_values
  refine ⟨hperm, ?_, hcombined.partition, rfl, fun place route => getElem?_inverse_order,
    fun row hrow column hcolumn => vq_prefill_routed_eq experts unset y weights input hrow hcolumn⟩
  intro group hgroup
  rcases List.mem_pair.mp hgroup with rfl | rfl
  · exact ⟨hplanned.primary.partition, hprimary, rfl⟩
  · exact ⟨hplanned.tail.partition, htail, rfl⟩

end Routed

example : small_experts.forward 2 (fun _ => 1) 0 = 2097152 := by
  norm_num [VqExperts.forward, VqProjection.product, small_experts]

end Qwen38
