import Mathlib.Algebra.BigOperators.Group.List.Basic
import Mathlib.Algebra.Module.Basic
import Mathlib.Data.List.GetD
import Qwen38.Lib.InverseIndex

/-!
# Experts from the disk

With paged experts a layer holds the arrays of an expert only while it has a lease on it. Three
paths compute the routed part of a batch, to which the shared expert is added: row by row, grouped
by expert (`forward_paged_grouped`), and in groups of rows with vector-quantised experts
(`forward_paged_vq`).

Arrays are lazy: a `Lazy` has the experts that its evaluation would still read. The three paths
agree (`Qwen38.paged_paths_agree`): the rows get the sums over their own routes, and whenever a
lease is dropped every array that is alive has been evaluated.
-/

namespace Qwen38

/-! ### Arrays and leases -/

/-- An array of the graph: its value, and the experts whose arrays it reads when it is evaluated. -/
structure Lazy (α : Type) where
  value : α
  reads : List Nat := []

/-- `eval`. -/
def Lazy.eval {α : Type} (array : Lazy α) : Lazy α := { array with reads := [] }

/-- An operation on two arrays. -/
def Lazy.map₂ {α β γ : Type} (f : α → β → γ) (a : Lazy α) (b : Lazy β) : Lazy γ :=
  ⟨f a.value b.value, a.reads ++ b.reads⟩

/-- What a path does with the leases. A drop comes with what the live arrays still read. -/
inductive LeaseEvent
  | taken (expert : Nat)
  | dropped (expert : Nat) (unevaluated : List Nat)
  deriving DecidableEq

/-- `RouterSelection`. -/
structure RouterSelection (K : Type) where
  experts : List Nat
  weights : List K

/-- The layer: its router, the arrays of an expert by field, and the operations. -/
structure PagedMoe (K V T : Type) where
  expert_count : Nat
  experts_per_token : Nat
  route_decode : V → RouterSelection K
  bundle : Nat → Nat → T
  quantized_matmul : T → T → T → V → V
  silu : V → V
  multiply : V → V → V
  vq_project : Fin 3 → T → T → V → V
  vq_swiglu : V → V → V
  experts_per_token_pos : 0 < experts_per_token
  length_experts : ∀ x, (route_decode x).experts.length = experts_per_token
  length_weights : ∀ x, (route_decode x).weights.length = experts_per_token
  expert_lt : ∀ x, ∀ expert ∈ (route_decode x).experts, expert < expert_count

section Paths

variable {K V T : Type} [Semiring K] [AddCommMonoid V] [Module K V] (moe : PagedMoe K V T)

/-- `project_one`. -/
def PagedMoe.project_one (lease : Nat → T) (value : V) (p : Nat) : V :=
  moe.quantized_matmul (lease p) (lease (p + 1)) (lease (p + 2)) value

/-- The output of an expert with nine arrays. -/
def PagedMoe.affine_output (lease : Nat → T) (x : V) : V :=
  moe.project_one lease (moe.multiply (moe.silu (moe.project_one lease x 0))
    (moe.project_one lease x 3)) 6

/-- There is a projection, so that literals name them. -/
local instance neZero_projections : NeZero 3 := ⟨by decide⟩

/-- The output of a vector-quantised expert, with codes and scales of three projections. -/
def PagedMoe.vq_output (lease : Nat → T) (x : V) : V :=
  moe.vq_project 2 (lease 4) (lease 5) (moe.vq_swiglu (moe.vq_project 0 (lease 0) (lease 1) x)
    (moe.vq_project 1 (lease 2) (lease 3) x))

/-! ### Row by row -/

/-- `sum`, with one more part. -/
def add_part (sum : Option (Lazy V)) (part : Lazy V) : Lazy V :=
  match sum with
  | none => part
  | some sum => Lazy.map₂ (· + ·) sum part

/-- The loop over the routes of a row. `live` is what the other arrays still read. -/
def paged_routes (batch : Bool) (x : V) (live : List Nat) :
    List (Nat × K) → Option (Lazy V) → Option (Lazy V) × List LeaseEvent
  | [], sum => (sum, [])
  | (expert, weight) :: rest, sum =>
    let sum := add_part sum ⟨weight • moe.affine_output (moe.bundle expert) x, [expert]⟩
    let sum := if !batch || rest.isEmpty then sum.eval else sum
    let (result, events) := paged_routes batch x live rest (some sum)
    (result, (if batch then [] else [.taken expert, .dropped expert (sum.reads ++ live)]) ++ events)

/-- A row of `forward_paged`: with all its leases when they fit, else with one at a time. -/
def paged_row (fits : List Nat → Bool) (x : V) (live : List Nat) : Option (Lazy V) × List LeaseEvent :=
  let selection := moe.route_decode x
  let batch := fits selection.experts
  let (sum, events) := paged_routes moe batch x live (selection.experts.zip selection.weights) none
  let reads := (sum.map Lazy.reads).getD []
  if batch then
    (sum, selection.experts.map .taken ++ events ++
      selection.experts.map fun expert => .dropped expert (reads ++ live))
  else (sum, events)

/-- The row loop of `forward_paged`. -/
def paged_rows (fits : List Nat → Bool) : List V → List (Lazy V) → List (Lazy V) × List LeaseEvent
  | [], rows => (rows, [])
  | x :: rest, rows =>
    let (sum, events) := paged_row moe fits x (rows.flatMap Lazy.reads)
    let (result, later) := paged_rows fits rest (rows ++ sum.toList.map Lazy.eval)
    (result, events ++ later)

/-! ### Grouped by expert

`gather_quantized_matmul` with one expert's arrays and zero indices is the product of each row with
them. -/

/-- A route of the batch. -/
structure Route (K : Type) where
  expert : Nat
  row : Nat
  slot : Nat
  weight : K

/-- The routes of a row, in rank order. -/
def row_routes (x : V) (row : Nat) : List (Route K) :=
  ((moe.route_decode x).experts.zip (moe.route_decode x).weights).zipIdx.map fun (route, rank) =>
    ⟨route.1, row, row * moe.experts_per_token + rank, route.2⟩

/-- The routes in the order of rows and ranks. -/
def routes_of (input : List V) : List (Route K) :=
  input.zipIdx.flatMap fun (x, row) => row_routes moe x row

/-- What the sweep over the experts holds. -/
structure GroupedSweep (V : Type) where
  outputs : List (Lazy (List V)) := []
  group_leases : List Nat := []
  pending_begin : Nat := 0
  inverse : List Nat
  offset : Nat := 0
  events : List LeaseEvent := []

/-- The fence: the pending outputs are evaluated and the leases dropped. -/
def GroupedSweep.flush (sweep : GroupedSweep V) : GroupedSweep V :=
  let outputs := sweep.outputs.take sweep.pending_begin ++
    (sweep.outputs.drop sweep.pending_begin).map Lazy.eval
  { sweep with
    outputs := outputs
    group_leases := []
    pending_begin := outputs.length
    events := sweep.events ++ sweep.group_leases.map fun expert =>
      .dropped expert (outputs.flatMap Lazy.reads) }

/-- A lease and the output that reads it. -/
def GroupedSweep.push (sweep : GroupedSweep V) (expert : Nat) (output : List V) : GroupedSweep V :=
  { sweep with
    outputs := sweep.outputs ++ [⟨output, [expert]⟩]
    group_leases := sweep.group_leases ++ [expert]
    events := sweep.events ++ [.taken expert] }

/-- The body of the sweep. -/
def grouped_expert (flat : List V) (routes : List (Route K)) (sweep : GroupedSweep V) (expert : Nat) :
    GroupedSweep V :=
  let source := routes.filter fun route => route.expert = expert
  if source.isEmpty then sweep
  else
    let sweep := sweep.push expert (source.map fun route =>
      moe.affine_output (moe.bundle expert) (flat.getD route.row 0))
    let sweep := if sweep.group_leases.length = 8 then sweep.flush else sweep
    { sweep with
      inverse := InverseIndex.write (source.map Route.slot) sweep.offset sweep.inverse
      offset := sweep.offset + source.length }

/-- The sweep of `forward_paged_grouped`, with the last fence. -/
def grouped_sweep (input : List V) : GroupedSweep V :=
  let routes := routes_of moe input
  let sweep := (List.range moe.expert_count).foldl (grouped_expert moe input routes)
    { inverse := List.replicate (input.length * moe.experts_per_token) 0 }
  if sweep.group_leases.isEmpty then sweep else sweep.flush

/-- `forward_paged_grouped`, up to the shared expert. -/
def paged_grouped (input : List V) : List V :=
  let sweep := grouped_sweep moe input
  let weights := (routes_of moe input).map Route.weight
  let concatenated := sweep.outputs.flatMap Lazy.value
  let ordered := sweep.inverse.map fun place => concatenated.getD place 0
  (List.range input.length).map fun row =>
    ((List.range moe.experts_per_token).map fun rank =>
      weights.getD (row * moe.experts_per_token + rank) 0 •
        ordered.getD (row * moe.experts_per_token + rank) 0).sum

/-! ### Vector-quantised experts -/

/-- `forward_vq_routed_arrays`, for arrays by field and local expert. -/
def forward_vq_routed_arrays (input : List V) (experts : List Nat) (weights : List K)
    (packed : Nat → Nat → T) : List V :=
  (List.range input.length).map fun row =>
    ((List.range moe.experts_per_token).map fun slot =>
      weights.getD (row * moe.experts_per_token + slot) 0 •
        moe.vq_output (fun field => packed field (experts.getD (row * moe.experts_per_token + slot) 0))
          (input.getD row 0)).sum

/-- `forward_paged_vq_group`, up to the shared expert. -/
def paged_vq_group (input : List V) (live : List Nat) : Lazy (List V) × List LeaseEvent :=
  let routes := routes_of moe input
  let unique_experts := (List.range moe.expert_count).filter fun expert =>
    routes.any fun route => route.expert = expert
  let packed := fun field place => moe.bundle (unique_experts.getD place 0) field
  let routed : Lazy (List V) :=
    ⟨forward_vq_routed_arrays moe input
      (routes.map fun route => unique_experts.idxOf route.expert) (routes.map Route.weight) packed,
      unique_experts⟩
  let routed := routed.eval
  (routed, unique_experts.map .taken ++
    unique_experts.map fun expert => .dropped expert (routed.reads ++ live))

/-- Groups of rows one after the other. -/
def paged_vq_groups : List (List V) → List (Lazy (List V)) → List (Lazy (List V)) × List LeaseEvent
  | [], rows => (rows, [])
  | group :: rest, rows =>
    let (routed, events) := paged_vq_group moe group (rows.flatMap Lazy.reads)
    let (result, later) := paged_vq_groups rest (rows ++ [routed])
    (result, events ++ later)

/-- `forward_paged_vq`, up to the shared expert. -/
def paged_vq (input : List V) : List (Lazy (List V)) × List LeaseEvent :=
  if input.length ≤ 4 then paged_vq_groups moe (input.map fun x => [x]) []
  else if input.length ≤ 8 then paged_vq_groups moe [input] []
  else
    let groups := (List.range ((input.length + 7) / 8)).map fun group =>
      (input.drop (group * 8)).take 8
    paged_vq_groups moe groups []

end Paths

/-! ### The row loop -/

section Rows

variable {K V T : Type} [Semiring K] [AddCommMonoid V] [Module K V] {moe : PagedMoe K V T}

variable (moe) in
/-- The sum over the routes of a row, in rank order. -/
def routed_sum (output : (Nat → T) → V → V) (x : V) : V :=
  (((moe.route_decode x).experts.zip (moe.route_decode x).weights).map fun route =>
    route.2 • output (moe.bundle route.1) x).sum

/-- Every lease is dropped when all live arrays have been evaluated. -/
def Fenced (events : List LeaseEvent) : Prop :=
  ∀ expert unevaluated, .dropped expert unevaluated ∈ events → unevaluated = []

theorem fenced_nil : Fenced [] := fun _ _ h => absurd h List.not_mem_nil

theorem Fenced.append {events later : List LeaseEvent} (h : Fenced events) (hlater : Fenced later) :
    Fenced (events ++ later) := by
  intro expert unevaluated hmem
  rcases List.mem_append.mp hmem with hmem | hmem
  · exact h expert unevaluated hmem
  · exact hlater expert unevaluated hmem

theorem fenced_taken (experts : List Nat) : Fenced (experts.map .taken) := by
  intro expert unevaluated hmem
  obtain ⟨other, -, heq⟩ := List.mem_map.mp hmem
  cases heq

theorem fenced_dropped (experts : List Nat) :
    Fenced (experts.map fun expert => .dropped expert []) := by
  intro expert unevaluated hmem
  obtain ⟨other, -, heq⟩ := List.mem_map.mp hmem
  cases heq
  rfl

theorem add_part_value (sum : Option (Lazy V)) (part : Lazy V) :
    (add_part sum part).value = (sum.map Lazy.value).getD 0 + part.value := by
  cases sum with
  | none => exact (zero_add _).symm
  | some sum => rfl

/-- The loop over the routes, from any sum so far. -/
theorem paged_routes_spec (batch : Bool) (x : V) (routes : List (Nat × K)) (sum : Option (Lazy V))
    (hsome : routes ≠ []) :
    ∃ result, (paged_routes moe batch x [] routes sum).1 = some result ∧ result.reads = [] ∧
      result.value = (sum.map Lazy.value).getD 0 +
        (routes.map fun route => route.2 • moe.affine_output (moe.bundle route.1) x).sum ∧
      Fenced (paged_routes moe batch x [] routes sum).2 := by
  induction routes generalizing sum with
  | nil => exact absurd rfl hsome
  | cons route rest ih =>
    obtain ⟨expert, weight⟩ := route
    have hpart := add_part_value sum ⟨weight • moe.affine_output (moe.bundle expert) x, [expert]⟩
    rw [paged_routes]
    generalize add_part sum ⟨weight • moe.affine_output (moe.bundle expert) x, [expert]⟩ = part at hpart
    -- the events of this route, when its sum is evaluated
    have hevents : Fenced (if batch then []
        else [.taken expert, .dropped expert ((if !batch || rest.isEmpty then part.eval else part).reads ++
          [])]) := by
      cases batch with
      | true => exact fenced_nil
      | false =>
        intro other unevaluated hmem
        simp at hmem
        exact hmem.2
    have hvalue : (if !batch || rest.isEmpty then part.eval else part).value = part.value := by
      split <;> rfl
    cases rest with
    | nil =>
      refine ⟨part.eval, ?_, rfl, ?_, hevents.append fenced_nil⟩
      · simp [paged_routes]
      · change part.value = _
        simpa using hpart
    | cons next rest =>
      obtain ⟨result, hrun, hreads, hsum, hfenced⟩ := ih
        (some (if !batch || (next :: rest).isEmpty then part.eval else part)) (List.cons_ne_nil _ _)
      refine ⟨result, hrun, hreads, ?_, hevents.append hfenced⟩
      rw [hsum, Option.map_some, Option.getD_some, hvalue, hpart, add_assoc]
      rfl

/-- A row of `forward_paged`. -/
theorem paged_row_spec (fits : List Nat → Bool) (x : V) :
    ∃ result, (paged_row moe fits x []).1 = some result ∧ result.reads = [] ∧
      result.value = routed_sum moe moe.affine_output x ∧ Fenced (paged_row moe fits x []).2 := by
  have hne : (moe.route_decode x).experts.zip (moe.route_decode x).weights ≠ [] := by
    intro hnil
    have hlength := congrArg List.length hnil
    rw [List.length_zip, moe.length_experts, moe.length_weights, Nat.min_self, List.length_nil] at hlength
    exact absurd hlength moe.experts_per_token_pos.ne'
  obtain ⟨result, hrun, hreads, hvalue, hfenced⟩ := @paged_routes_spec K V T _ _ _ moe
    (fits (moe.route_decode x).experts) x _ none hne
  refine ⟨result, ?_, hreads, ?_, ?_⟩
  · rw [paged_row]
    simp only [hrun]
    split <;> rfl
  · rw [hvalue, Option.map_none, Option.getD_none, zero_add, routed_sum]
  · rw [paged_row]
    simp only [hrun, Option.map_some, Option.getD_some, hreads, List.append_nil]
    split
    · exact ((fenced_taken _).append hfenced).append (fenced_dropped _)
    · exact hfenced

/-- **The row loop.** Each row is evaluated before the next one takes leases, so that the rows that
are done read nothing any more when a lease is dropped. -/
theorem paged_rows_spec (fits : List Nat → Bool) (input : List V) (rows : List (Lazy V))
    (hrows : ∀ row ∈ rows, row.reads = []) :
    (paged_rows moe fits input rows).1.map Lazy.value =
        rows.map Lazy.value ++ input.map (routed_sum moe moe.affine_output) ∧
      Fenced (paged_rows moe fits input rows).2 := by
  induction input generalizing rows with
  | nil => exact ⟨(List.append_nil _).symm, fenced_nil⟩
  | cons x rest ih =>
    have hlive : rows.flatMap Lazy.reads = [] :=
      List.flatMap_eq_nil_iff.mpr hrows
    obtain ⟨result, hrun, hreads, hvalue, hfenced⟩ := @paged_row_spec K V T _ _ _ moe fits x
    obtain ⟨hvalues, hlater⟩ := ih (rows ++ [result.eval]) (by
      intro row hrow
      rcases List.mem_append.mp hrow with hrow | hrow
      · exact hrows row hrow
      · rw [List.mem_singleton.mp hrow]
        rfl)
    rw [paged_rows]
    simp only [hlive, hrun, Option.toList_some, List.map_cons, List.map_nil]
    refine ⟨?_, hfenced.append hlater⟩
    rw [hvalues, List.map_append, List.append_assoc, List.map_cons, List.map_nil, Lazy.eval, hvalue]
    rfl

end Rows

/-! ### The routes of a batch -/

section Routes

variable {K V T : Type} {moe : PagedMoe K V T} {input : List V} {row rank start : Nat} {x : V}

@[simp] theorem length_row_routes (x : V) (row : Nat) :
    (row_routes moe x row).length = moe.experts_per_token := by
  rw [row_routes, List.length_map, List.length_zipIdx, List.length_zip, moe.length_experts,
    moe.length_weights, Nat.min_self]

theorem length_routes_from (start : Nat) (input : List V) :
    ((input.zipIdx start).flatMap fun (x, row) => row_routes moe x row).length =
      input.length * moe.experts_per_token := by
  induction input generalizing start with
  | nil => rw [List.zipIdx_nil, List.flatMap_nil, List.length_nil, List.length_nil, Nat.zero_mul]
  | cons x rest ih =>
    rw [List.zipIdx_cons, List.flatMap_cons, List.length_append, ih, length_row_routes,
      List.length_cons, Nat.succ_mul, Nat.add_comm]

/-- The routes of a row stand together. -/
theorem getElem?_routes_from (hrow : input[row]? = some x) (hrank : rank < moe.experts_per_token) :
    ((input.zipIdx start).flatMap fun (x, row) => row_routes moe x row)[
      row * moe.experts_per_token + rank]? = (row_routes moe x (start + row))[rank]? := by
  induction input generalizing start row with
  | nil => exact absurd hrow (by simp)
  | cons first rest ih =>
    rw [List.zipIdx_cons, List.flatMap_cons]
    cases row with
    | zero =>
      cases hrow
      rw [Nat.zero_mul, Nat.zero_add,
        List.getElem?_append_left (by rw [length_row_routes]; exact hrank)]
      rfl
    | succ row =>
      have hplace : (row + 1) * moe.experts_per_token + rank - moe.experts_per_token =
          row * moe.experts_per_token + rank := by
        rw [Nat.succ_mul]
        omega
      rw [List.getElem?_append_right (by rw [length_row_routes, Nat.succ_mul]; omega),
        length_row_routes, hplace, ih hrow, Nat.add_assoc, Nat.add_comm 1 row]

theorem length_routes_of (input : List V) :
    (routes_of moe input).length = input.length * moe.experts_per_token :=
  length_routes_from 0 input

/-- A route of the batch. -/
theorem getElem?_routes_of (hrow : input[row]? = some x) (hrank : rank < moe.experts_per_token) :
    ∃ route, (routes_of moe input)[row * moe.experts_per_token + rank]? = some route ∧
      (moe.route_decode x).experts[rank]? = some route.expert ∧
      (moe.route_decode x).weights[rank]? = some route.weight ∧
      route.row = row ∧ route.slot = row * moe.experts_per_token + rank := by
  have hexperts : rank < (moe.route_decode x).experts.length := by
    rw [moe.length_experts]
    exact hrank
  have hweights : rank < (moe.route_decode x).weights.length := by
    rw [moe.length_weights]
    exact hrank
  refine ⟨⟨(moe.route_decode x).experts[rank], row, row * moe.experts_per_token + rank,
    (moe.route_decode x).weights[rank]⟩, ?_, List.getElem?_eq_getElem hexperts,
    List.getElem?_eq_getElem hweights, rfl, rfl⟩
  rw [routes_of, getElem?_routes_from hrow hrank, Nat.zero_add, row_routes, List.getElem?_map,
    List.getElem?_zipIdx, List.getElem?_eq_getElem (by rw [List.length_zip]; omega), List.getElem_zip]
  simp

/-- Slots count the routes. -/
theorem slots_eq_range (input : List V) : (routes_of moe input).map Route.slot =
    List.range (input.length * moe.experts_per_token) := by
  refine List.ext_getElem? fun slot => ?_
  rw [List.getElem?_map]
  by_cases hslot : slot < input.length * moe.experts_per_token
  · have hpos := moe.experts_per_token_pos
    have hrow : slot / moe.experts_per_token < input.length :=
      Nat.div_lt_of_lt_mul (by rw [Nat.mul_comm]; exact hslot)
    obtain ⟨route, hroute, -, -, -, heq⟩ := getElem?_routes_of (List.getElem?_eq_getElem hrow)
      (Nat.mod_lt slot hpos)
    rw [Nat.mul_comm, Nat.div_add_mod] at hroute heq
    rw [hroute, Option.map_some, heq, List.getElem?_range hslot]
  · rw [List.getElem?_eq_none (by rw [length_routes_of]; omega),
      List.getElem?_eq_none (by rw [List.length_range]; omega), Option.map_none]

theorem expert_lt_of_mem {route : Route K} (h : route ∈ routes_of moe input) :
    route.expert < moe.expert_count := by
  obtain ⟨⟨x, row⟩, -, hroute⟩ := List.mem_flatMap.mp h
  obtain ⟨⟨⟨expert, weight⟩, rank⟩, hmem, rfl⟩ := List.mem_map.mp hroute
  have hzip := List.fst_mem_of_mem_zipIdx hmem
  exact moe.expert_lt x expert (List.of_mem_zip hzip).1

variable [Semiring K] [AddCommMonoid V] [Module K V]

/-- The sum of a row over its slots. -/
theorem routed_sum_eq (output : (Nat → T) → V → V) (hrow : input[row]? = some x)
    {parts : Nat → V} (hparts : ∀ rank < moe.experts_per_token, ∀ route,
      (routes_of moe input)[row * moe.experts_per_token + rank]? = some route →
        parts rank = route.weight • output (moe.bundle route.expert) x) :
    ((List.range moe.experts_per_token).map parts).sum = routed_sum moe output x := by
  rw [routed_sum]
  refine congrArg List.sum (List.ext_getElem? fun rank => ?_)
  rw [List.getElem?_map, List.getElem?_map]
  by_cases hrank : rank < moe.experts_per_token
  · obtain ⟨route, hroute, hexpert, hweight, -, -⟩ := getElem?_routes_of hrow hrank
    have hzip : ((moe.route_decode x).experts.zip (moe.route_decode x).weights)[rank]? =
        some (route.expert, route.weight) := List.getElem?_zip_eq_some.mpr ⟨hexpert, hweight⟩
    rw [List.getElem?_range hrank, Option.map_some, hparts rank hrank route hroute, hzip,
      Option.map_some]
  · rw [List.getElem?_eq_none (by rw [List.length_range]; omega), List.getElem?_eq_none (by
      rw [List.length_zip, moe.length_experts, moe.length_weights]; omega)]
    rfl

/-- Row by row from the routes. -/
theorem rows_eq (output : (Nat → T) → V → V) {parts : Nat → Nat → V}
    (hparts : ∀ row x, input[row]? = some x → ∀ rank < moe.experts_per_token, ∀ route,
      (routes_of moe input)[row * moe.experts_per_token + rank]? = some route →
        parts row rank = route.weight • output (moe.bundle route.expert) x) :
    ((List.range input.length).map fun row =>
      ((List.range moe.experts_per_token).map (parts row)).sum) = input.map (routed_sum moe output) := by
  refine List.ext_getElem? fun row => ?_
  rw [List.getElem?_map, List.getElem?_map]
  by_cases hlt : row < input.length
  · have hrow := List.getElem?_eq_getElem hlt
    rw [List.getElem?_range hlt, hrow, Option.map_some, Option.map_some,
      routed_sum_eq output hrow (hparts row _ hrow)]
  · rw [List.getElem?_eq_none (by rw [List.length_range]; omega),
      List.getElem?_eq_none (Nat.le_of_not_lt hlt)]
    rfl

end Routes

/-! ### Vector-quantised groups -/

section VqGroups

variable {K V T : Type} [Semiring K] [AddCommMonoid V] [Module K V] {moe : PagedMoe K V T}

/-- **A group of rows**: the local numbers of its experts lead to their arrays. -/
theorem paged_vq_group_spec (input : List V) :
    (paged_vq_group moe input []).1.value = input.map (routed_sum moe moe.vq_output) ∧
      (paged_vq_group moe input []).1.reads = [] ∧ Fenced (paged_vq_group moe input []).2 := by
  refine ⟨?_, rfl, (fenced_taken _).append (fenced_dropped _)⟩
  refine rows_eq moe.vq_output fun row x hrow rank hrank route hroute => ?_
  have hmem : route.expert ∈ (List.range moe.expert_count).filter fun expert =>
      (routes_of moe input).any fun route => route.expert = expert := by
    have hin := List.mem_of_getElem? hroute
    refine List.mem_filter.mpr ⟨List.mem_range.mpr (expert_lt_of_mem hin), ?_⟩
    exact List.any_eq_true.mpr ⟨route, hin, decide_eq_true rfl⟩
  have hlocal : ((List.range moe.expert_count).filter fun expert =>
      (routes_of moe input).any fun route => route.expert = expert).getD
        (((List.range moe.expert_count).filter fun expert =>
          (routes_of moe input).any fun route => route.expert = expert).idxOf route.expert) 0 =
      route.expert := by
    rw [List.getD_eq_getElem _ _ (List.idxOf_lt_length_of_mem hmem), List.getElem_idxOf]
  simp only [List.getD_eq_getElem?_getD, List.getElem?_map, hroute, hrow, Option.map_some,
    Option.getD_some] at hlocal ⊢
  rw [hlocal]

/-- **Groups one after the other.** -/
theorem paged_vq_groups_spec (groups : List (List V)) (rows : List (Lazy (List V)))
    (hrows : ∀ row ∈ rows, row.reads = []) :
    (paged_vq_groups moe groups rows).1.flatMap Lazy.value =
        rows.flatMap Lazy.value ++ groups.flatten.map (routed_sum moe moe.vq_output) ∧
      Fenced (paged_vq_groups moe groups rows).2 := by
  induction groups generalizing rows with
  | nil => exact ⟨(List.append_nil _).symm, fenced_nil⟩
  | cons group rest ih =>
    have hlive : rows.flatMap Lazy.reads = [] := List.flatMap_eq_nil_iff.mpr hrows
    obtain ⟨hvalue, hreads, hfenced⟩ := @paged_vq_group_spec K V T _ _ _ moe group
    obtain ⟨hvalues, hlater⟩ := ih (rows ++ [(paged_vq_group moe group []).1]) (by
      intro row hrow
      rcases List.mem_append.mp hrow with hrow | hrow
      · exact hrows row hrow
      · rw [List.mem_singleton.mp hrow]
        exact hreads)
    rw [paged_vq_groups]
    simp only [hlive]
    refine ⟨?_, hfenced.append hlater⟩
    rw [hvalues, List.flatMap_append, List.flatMap_cons, List.flatMap_nil, List.append_nil, hvalue,
      List.flatten_cons, List.map_append, List.append_assoc]

omit [AddCommMonoid V] in
/-- Groups of eight have all rows. -/
theorem flatten_groups (input : List V) (count : Nat) :
    ((List.range count).map fun group => (input.drop (group * 8)).take 8).flatten =
      input.take (count * 8) := by
  induction count with
  | zero => simp
  | succ count ih =>
    rw [List.range_succ, List.map_append, List.flatten_append, ih, List.map_singleton,
      List.flatten_singleton, Nat.succ_mul, List.take_add]

/-- **`forward_paged_vq`**, at each width. -/
theorem paged_vq_spec (input : List V) :
    (paged_vq moe input).1.flatMap Lazy.value = input.map (routed_sum moe moe.vq_output) ∧
      Fenced (paged_vq moe input).2 := by
  have hgroups (groups : List (List V)) (hflatten : groups.flatten = input) :
      (paged_vq_groups moe groups []).1.flatMap Lazy.value =
          input.map (routed_sum moe moe.vq_output) ∧
        Fenced (paged_vq_groups moe groups []).2 := by
    have hspec := @paged_vq_groups_spec K V T _ _ _ moe groups [] fun _ h => absurd h List.not_mem_nil
    rw [hflatten] at hspec
    exact hspec
  rw [paged_vq]
  split
  · exact hgroups _ (by rw [← List.flatMap_def, List.flatMap_singleton'])
  · split
    · exact hgroups _ (List.flatten_singleton)
    · refine hgroups _ ?_
      rw [flatten_groups, List.take_of_length_le (by omega)]

end VqGroups

/-! ### The sweep over the experts -/

section Grouped

variable {K V T : Type} [AddCommMonoid V] {moe : PagedMoe K V T}
  {input : List V} {routes swept : List (Route K)} {sweep : GroupedSweep V} {table : List Nat}
  {expert : Nat}

variable (moe input) in
/-- The output of a route. -/
def route_output (route : Route K) : V :=
  moe.affine_output (moe.bundle route.expert) (input.getD route.row 0)

/-- **The invariant of the outputs**: the routes of the experts so far have theirs, and those before
`pending_begin` are evaluated. -/
structure Swept (moe : PagedMoe K V T) (input : List V) (swept : List (Route K))
    (sweep : GroupedSweep V) : Prop where
  outputs : sweep.outputs.flatMap Lazy.value = swept.map (route_output moe input)
  pending : sweep.pending_begin ≤ sweep.outputs.length
  evaluated : ∀ output ∈ sweep.outputs.take sweep.pending_begin, output.reads = []
  fenced : Fenced sweep.events

/-- The invariant of the inverse index: the slots so far have the places of their outputs. -/
structure Numbered (table : List Nat) (swept : List (Route K)) (sweep : GroupedSweep V) : Prop where
  inverse : sweep.inverse = InverseIndex.write (swept.map Route.slot) 0 table
  offset : sweep.offset = swept.length

omit [AddCommMonoid V] in
/-- A fence evaluates every output. -/
theorem reads_flush (h : ∀ output ∈ sweep.outputs.take sweep.pending_begin, output.reads = []) :
    ∀ output ∈ sweep.flush.outputs, output.reads = [] := by
  intro output houtput
  rcases List.mem_append.mp houtput with hmem | hmem
  · exact h output hmem
  · obtain ⟨pending, -, rfl⟩ := List.mem_map.mp hmem
    rfl

/-- The fence drops leases that no live output reads. -/
theorem Swept.flush (h : Swept moe input swept sweep) : Swept moe input swept sweep.flush where
  outputs := by
    have hvalues : ((sweep.outputs.drop sweep.pending_begin).map Lazy.eval).flatMap Lazy.value =
        (sweep.outputs.drop sweep.pending_begin).flatMap Lazy.value := by
      rw [List.flatMap_map]
      rfl
    rw [← h.outputs, GroupedSweep.flush, List.flatMap_append, hvalues, ← List.flatMap_append,
      List.take_append_drop]
  pending := le_rfl
  evaluated := by
    intro output houtput
    exact reads_flush h.evaluated output (List.mem_of_mem_take houtput)
  fenced := by
    have hreads : sweep.flush.outputs.flatMap Lazy.reads = [] :=
      List.flatMap_eq_nil_iff.mpr (reads_flush h.evaluated)
    refine h.fenced.append ?_
    change Fenced (sweep.group_leases.map fun expert =>
      .dropped expert (sweep.flush.outputs.flatMap Lazy.reads))
    rw [hreads]
    exact fenced_dropped _

/-- The outputs of one more expert, not evaluated. -/
theorem Swept.push (h : Swept moe input swept sweep) {source : List (Route K)}
    (hsource : ∀ route ∈ source, route.expert = expert) :
    Swept moe input (swept ++ source) (sweep.push expert (source.map fun route =>
      moe.affine_output (moe.bundle expert) (input.getD route.row 0))) where
  outputs := by
    rw [GroupedSweep.push, List.flatMap_append, h.outputs, List.map_append, List.flatMap_singleton]
    refine congrArg _ (List.map_congr_left fun route hroute => ?_)
    rw [route_output, hsource route hroute]
  pending := by
    rw [GroupedSweep.push, List.length_append]
    exact Nat.le_add_right_of_le h.pending
  evaluated := by
    rw [GroupedSweep.push, List.take_append_of_le_length h.pending]
    exact h.evaluated
  fenced := by
    refine h.fenced.append ?_
    exact fenced_taken [expert]

/-- **One expert more.** -/
theorem Swept.step (h : Swept moe input swept sweep) (hnumbered : Numbered table swept sweep)
    (routes : List (Route K)) (expert : Nat) :
    Swept moe input (swept ++ routes.filter fun route => route.expert = expert)
        (grouped_expert moe input routes sweep expert) ∧
      Numbered table (swept ++ routes.filter fun route => route.expert = expert)
        (grouped_expert moe input routes sweep expert) := by
  rw [grouped_expert]
  generalize hsource : (routes.filter fun route => decide (route.expert = expert)) = source
  have hexpert : ∀ route ∈ source, route.expert = expert := by
    intro route hroute
    rw [← hsource] at hroute
    exact of_decide_eq_true (List.mem_filter.mp hroute).2
  simp only []
  split
  · next hempty =>
    rw [List.isEmpty_iff.mp hempty, List.append_nil]
    exact ⟨h, hnumbered⟩
  · have hpush := h.push hexpert
    have hinverse : InverseIndex.write (source.map Route.slot) sweep.offset sweep.inverse =
        InverseIndex.write ((swept ++ source).map Route.slot) 0 table := by
      rw [List.map_append, InverseIndex.write_append, hnumbered.inverse, hnumbered.offset,
        List.length_map, Nat.zero_add]
    have hoffset : sweep.offset + source.length = (swept ++ source).length := by
      rw [List.length_append, hnumbered.offset]
    split
    · have hflush := hpush.flush
      exact ⟨⟨hflush.outputs, hflush.pending, hflush.evaluated, hflush.fenced⟩, hinverse, hoffset⟩
    · exact ⟨⟨hpush.outputs, hpush.pending, hpush.evaluated, hpush.fenced⟩, hinverse, hoffset⟩

/-- The sweep over experts. -/
theorem Swept.run (h : Swept moe input swept sweep) (hnumbered : Numbered table swept sweep)
    (routes : List (Route K)) (experts : List Nat) :
    Swept moe input
        (swept ++ experts.flatMap fun expert => routes.filter fun route => route.expert = expert)
        (experts.foldl (grouped_expert moe input routes) sweep) ∧
      Numbered table
        (swept ++ experts.flatMap fun expert => routes.filter fun route => route.expert = expert)
        (experts.foldl (grouped_expert moe input routes) sweep) := by
  induction experts generalizing swept sweep with
  | nil =>
    rw [List.flatMap_nil, List.append_nil]
    exact ⟨h, hnumbered⟩
  | cons expert rest ih =>
    obtain ⟨hstep, hstep'⟩ := h.step hnumbered routes expert
    have hrest := ih hstep hstep'
    rw [List.append_assoc] at hrest
    exact hrest

omit [AddCommMonoid V] in
/-- Routes in the order of their experts. -/
theorem perm_flatMap_filter (routes : List (Route K)) (count : Nat) :
    ((List.range count).flatMap fun expert => routes.filter fun route => route.expert = expert).Perm
      (routes.filter fun route => route.expert < count) := by
  induction count with
  | zero => simp
  | succ count ih =>
    have hsplit := List.filter_append_perm (fun route : Route K => decide (route.expert < count))
      (routes.filter fun route => route.expert < count + 1)
    rw [List.filter_filter, List.filter_filter] at hsplit
    rw [List.range_succ, List.flatMap_append, List.flatMap_singleton]
    refine (ih.append_right _).trans (List.Perm.trans (List.Perm.of_eq ?_) hsplit)
    refine congrArg₂ _ (List.filter_congr fun route _ => ?_) (List.filter_congr fun route _ => ?_)
    · rw [← Bool.decide_and]
      exact decide_eq_decide.mpr (by omega)
    · rw [← decide_not, ← Bool.decide_and]
      exact decide_eq_decide.mpr (by omega)

variable (moe input) in
/-- The routes in the order of the sweep. -/
def swept_routes : List (Route K) :=
  (List.range moe.expert_count).flatMap fun expert =>
    (routes_of moe input).filter fun route => route.expert = expert

omit [AddCommMonoid V] in
theorem perm_swept_routes (input : List V) : (swept_routes moe input).Perm (routes_of moe input) := by
  refine (perm_flatMap_filter _ _).trans (List.Perm.of_eq ?_)
  refine List.filter_eq_self.mpr fun route hroute => ?_
  exact decide_eq_true (expert_lt_of_mem hroute)

omit [AddCommMonoid V] in
theorem perm_swept_slots (input : List V) : ((swept_routes moe input).map Route.slot).Perm
    (List.range (input.length * moe.experts_per_token)) := by
  rw [← slots_eq_range]
  exact (perm_swept_routes input).map _

/-- **The sweep** over the experts, in the order of their first routes: behind each expert the parts
of its routes are evaluated, and only then its lease is dropped. -/
theorem grouped_sweep_spec (input : List V) :
    Swept moe input (swept_routes moe input) (grouped_sweep moe input) ∧
      Numbered (List.replicate (input.length * moe.experts_per_token) 0) (swept_routes moe input)
        (grouped_sweep moe input) := by
  have hstart : Swept moe input []
      { inverse := List.replicate (input.length * moe.experts_per_token) 0 } :=
    ⟨rfl, Nat.le_refl 0, fun _ h => absurd h List.not_mem_nil, fenced_nil⟩
  have hstart' : Numbered (K := K) (V := V)
      (List.replicate (input.length * moe.experts_per_token) 0) []
      { inverse := List.replicate (input.length * moe.experts_per_token) 0 } := ⟨rfl, rfl⟩
  obtain ⟨hswept, hnumbered⟩ := hstart.run hstart' (routes_of moe input)
    (List.range moe.expert_count)
  rw [grouped_sweep]
  split
  · exact ⟨hswept, hnumbered⟩
  · exact ⟨hswept.flush, hnumbered.inverse, hnumbered.offset⟩

/-- **The inverse index is a permutation** of all slots. -/
theorem perm_inverse (input : List V) : (grouped_sweep moe input).inverse.Perm
    (List.range (input.length * moe.experts_per_token)) := by
  rw [(grouped_sweep_spec input).2.inverse]
  exact InverseIndex.perm_write (perm_swept_slots input) List.length_replicate

/-- A slot leads to the output of its route. -/
theorem ordered_eq {slot : Nat} {route : Route K} (hroute : (routes_of moe input)[slot]? = some route) :
    ((grouped_sweep moe input).inverse.map fun place =>
      ((grouped_sweep moe input).outputs.flatMap Lazy.value).getD place 0).getD slot 0 =
        route_output moe input route := by
  have hslots := @slots_eq_range K V T moe input
  have hslot : route.slot = slot := by
    have hmap := congrArg (·[slot]?) hslots
    simp only [List.getElem?_map, hroute, Option.map_some] at hmap
    rw [List.getElem?_eq_some_iff.mp hmap.symm |>.2.symm, List.getElem_range]
  obtain ⟨place, hplace⟩ := List.getElem?_of_mem
    ((perm_swept_routes input).mem_iff.mpr (List.mem_of_getElem? hroute))
  have hperm := @perm_swept_slots K V T moe input
  have hfound : (grouped_sweep moe input).inverse[slot]? = some place := by
    rw [(grouped_sweep_spec input).2.inverse]
    have hwritten := @InverseIndex.getElem?_write ((swept_routes moe input).map Route.slot)
      (List.replicate (input.length * moe.experts_per_token) 0) 0 place slot
      (hperm.nodup_iff.mpr List.nodup_range) (fun index hindex => by
        rw [List.length_replicate]
        exact List.mem_range.mp (hperm.mem_iff.mp hindex))
      (by rw [List.getElem?_map, hplace, Option.map_some, hslot])
    rw [hwritten, Nat.zero_add]
  rw [(grouped_sweep_spec input).1.outputs, List.getD_eq_getElem?_getD, List.getElem?_map, hfound,
    Option.map_some, Option.getD_some, List.getD_eq_getElem?_getD, List.getElem?_map, hplace,
    Option.map_some, Option.getD_some]

variable [Semiring K] [Module K V]

/-- **`forward_paged_grouped`.** -/
theorem paged_grouped_eq (input : List V) :
    paged_grouped moe input = input.map (routed_sum moe moe.affine_output) := by
  refine rows_eq moe.affine_output fun row x hrow rank hrank route hroute => ?_
  have hslot : ((routes_of moe input).map Route.weight).getD (row * moe.experts_per_token + rank) 0 =
      route.weight := by
    rw [List.getD_eq_getElem?_getD, List.getElem?_map, hroute, Option.map_some, Option.getD_some]
  have hown : route.row = row := by
    obtain ⟨other, hother, -, -, heq, -⟩ := getElem?_routes_of hrow hrank
    rw [hroute] at hother
    cases hother
    exact heq
  rw [hslot, ordered_eq hroute, route_output, hown, List.getD_eq_getElem?_getD, hrow, Option.getD_some]

/-- **The paths agree**: each row gets the sum over its own routes, in rank order, and every lease
is dropped when the live arrays have been evaluated. -/
theorem paged_paths_agree (moe : PagedMoe K V T) (fits : List Nat → Bool) (input : List V) :
    paged_grouped moe input = input.map (routed_sum moe moe.affine_output) ∧
      (paged_rows moe fits input []).1.map Lazy.value =
        input.map (routed_sum moe moe.affine_output) ∧
      (paged_vq moe input).1.flatMap Lazy.value = input.map (routed_sum moe moe.vq_output) ∧
      (grouped_sweep moe input).inverse.Perm (List.range (input.length * moe.experts_per_token)) ∧
      ∀ events ∈ [(grouped_sweep moe input).events, (paged_rows moe fits input []).2,
        (paged_vq moe input).2], Fenced events := by
  obtain ⟨hrows, hrows'⟩ := @paged_rows_spec K V T _ _ _ moe fits input [] fun _ h =>
    absurd h List.not_mem_nil
  obtain ⟨hvq, hvq'⟩ := @paged_vq_spec K V T _ _ _ moe input
  refine ⟨paged_grouped_eq input, hrows, hvq, perm_inverse input, ?_⟩
  intro events hevents
  simp only [List.mem_cons, List.not_mem_nil, or_false] at hevents
  rcases hevents with rfl | rfl | rfl
  · exact (grouped_sweep_spec input).1.fenced
  · exact hrows'
  · exact hvq'

end Grouped

/-- Two experts, of which a row goes to the one of its parity. -/
def small_moe : PagedMoe ℕ ℕ ℕ where
  expert_count := 2
  experts_per_token := 1
  route_decode x := ⟨[x % 2], [1]⟩
  bundle expert _ := expert + 1
  quantized_matmul weight _ _ value := weight * value
  silu := id
  multiply gate up := gate * up
  vq_project _ codes _ value := codes * value
  vq_swiglu gate up := gate * up
  experts_per_token_pos := Nat.one_pos
  length_experts _ := rfl
  length_weights _ := rfl
  expert_lt x expert hexpert := by
    obtain rfl := List.mem_singleton.mp hexpert
    exact Nat.mod_lt x Nat.two_pos

example : (paged_rows small_moe (fun _ => true) [3, 4] []).1.map Lazy.value = [72, 16] := by decide

end Qwen38
