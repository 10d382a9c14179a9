import Qwen38.Layer.Ngram
import Qwen38.Lib.Except
import Qwen38.Lib.Window

/-!
# The token embedding of a layer

`Ple` fetches rows of the n-gram table for a token, gates them by the residual stream, and
adds a convolution over the last ten gated rows. A decode step does so for one row and
keeps its state; a verification does so for many rows and gives the state after each.
A row of numbers is a value of a type `X`, and what is computed row by row is a parameter.

`Qwen38.Ple.forward_verify_eq` says that the rows of a verification, and the states after
them, are those of single steps.
-/

namespace Qwen38

open Pipeline Window

variable {X : Type}

/-- What `Ple` computes row by row. -/
structure Ple (X : Type) where
  hash_ : NgramHash
  /-- `table_.gather` of the rows of one token. -/
  gather : RowIds → X
  /-- The gated value: from the residual stream of a row and its embedding. -/
  gated : X → X → X
  /-- `grouped_norm` of a gated value, under the norm of the convolution. -/
  normalized : X → X
  /-- The dilated convolution over ten rows, and its activation. -/
  convolve : List X → X
  add : X → X → X
  zero : X

namespace Ple

variable (ple : Ple X)

/-- `convolution_state_length_`, which the constructor requires. -/
def convolution_state_length_ : Nat := 9

/-- The convolution state that a step starts from. -/
def convolution_of (state : PleState (List X)) : List X :=
  if state.convolution_initialized then state.convolution
  else List.replicate convolution_state_length_ ple.zero

/-- `Ple::forward_decode`. -/
def forward_decode (stream : X) (token : UInt32) (state : PleState (List X)) :
    X × PleState (List X) :=
  let row_ids := ple.hash_.row_ids token state.ngram
  let embedding := ple.gather row_ids.1
  let gated := ple.gated stream embedding
  let normalized := ple.normalized gated
  let convolution_input := ple.convolution_of state ++ [normalized]
  (ple.add gated (ple.convolve convolution_input),
    { ngram := row_ids.2
      convolution := slice 1 10 convolution_input
      convolution_initialized := true })

/-- `Ple::forward_verify`, from the rows of the table on: the rows, and the checkpoints. -/
def verify_rows (stream : List X) (tokens : List UInt32) (origin : PleState (List X)) :
    List X × List (PleState (List X)) :=
  let row_ids := ple.hash_.each_row_ids tokens origin.ngram
  let embedding := row_ids.1.map ple.gather
  let gated := List.zipWith ple.gated stream embedding
  let normalized := gated.map ple.normalized
  let convolution_input := ple.convolution_of origin ++ normalized
  let checkpoints := (List.range tokens.length).map fun row =>
    { ngram := row_ids.2.getD row default
      convolution := slice (row + 1) (row + 1 + convolution_state_length_) convolution_input
      convolution_initialized := true }
  (List.zipWith ple.add gated (slide 10 ple.convolve convolution_input), checkpoints)

/-- `Ple::forward_verify`. -/
def forward_verify (stream : List X) (tokens : List UInt32) (origin : PleState (List X)) :
    Except String (List X × List (PleState (List X))) := do
  Except.throw_if (tokens = [] ∨ tokens.length > 2048 ∨ stream.length ≠ tokens.length)
    "PLE batch requires matching [1,S,width] rows, S=1..2048"
  .ok (ple.verify_rows stream tokens origin)

/-! ### The rows of a verification are single steps -/

/-- A row as an item of a pipeline: the stream, with its token. -/
def decode : Stage (X × UInt32) (PleState (List X)) := fun row state =>
  let r := ple.forward_decode row.1 row.2 state
  ((r.1, row.2), r.2)

/-- A state whose convolution has its nine rows. -/
def Whole (state : PleState (List X)) : Prop :=
  state.convolution_initialized = true → state.convolution.length = convolution_state_length_

variable {ple} {state : PleState (List X)} {stream : X} {token : UInt32}

theorem length_convolution_of (h : Whole state) : (ple.convolution_of state).length = 9 := by
  rw [convolution_of]
  split
  · next hinitialized => exact h hinitialized
  · exact List.length_replicate

variable (ple) in
/-- The normalised row that a step puts into the convolution. -/
def normalized_row (stream : X) (token : UInt32) (state : PleState (List X)) : X :=
  ple.normalized (ple.gated stream (ple.gather (ple.hash_.row_ids token state.ngram).1))

/-- The convolution state moves on by one row. -/
theorem convolution_forward_decode (h : Whole state) :
    (ple.forward_decode stream token state).2.convolution =
      push (ple.convolution_of state) (ple.normalized_row stream token state) := by
  have hslice := slice_one (ple.convolution_of state) (ple.normalized_row stream token state) []
  rw [length_convolution_of h] at hslice
  exact hslice

variable (ple stream token) in
theorem whole_forward_decode (h : Whole state) :
    Whole (ple.forward_decode stream token state).2 := by
  intro _
  rw [convolution_forward_decode h, length_push, length_convolution_of h]
  rfl

variable (ple stream token) in
theorem convolution_of_forward_decode (h : Whole state) :
    ple.convolution_of (ple.forward_decode stream token state).2 =
      push (ple.convolution_of state) (ple.normalized_row stream token state) :=
  (if_pos rfl).trans (convolution_forward_decode h)

/-- The first of the rows is a single step, and the others go on from its state. -/
theorem verify_rows_cons (h : Whole state) (streams : List X) (tokens : List UInt32) :
    ple.verify_rows (stream :: streams) (token :: tokens) state =
      ((ple.forward_decode stream token state).1 ::
          (ple.verify_rows streams tokens (ple.forward_decode stream token state).2).1,
        (ple.forward_decode stream token state).2 ::
          (ple.verify_rows streams tokens (ple.forward_decode stream token state).2).2) := by
  have hlength : (ple.convolution_of state).length = 9 := length_convolution_of h
  have hnext := convolution_of_forward_decode ple stream token h
  set row := ple.normalized_row stream token state with hrow
  set rows := (List.zipWith ple.gated streams ((ple.hash_.each_row_ids tokens
    (ple.hash_.row_ids token state.ngram).2).1.map ple.gather)).map ple.normalized with hrows
  -- the windows slide over the state and all rows, which is over the next state and the other rows
  have hslide : slide 10 ple.convolve (ple.convolution_of state ++ row :: rows) =
      ple.convolve (ple.convolution_of state ++ [row]) ::
        slide 10 ple.convolve (push (ple.convolution_of state) row ++ rows) := by
    have hslide := slide_append ple.convolve (ple.convolution_of state) row rows
    rwa [hlength] at hslide
  have hslice : ∀ i, slice (i + 1 + 1) (i + 1 + 1 + 9) (ple.convolution_of state ++ row :: rows) =
      slice (i + 1) (i + 1 + 9) (push (ple.convolution_of state) row ++ rows) := fun i => by
    have hslice := slice_append (ple.convolution_of state) row i rows
    rwa [hlength] at hslice
  have hfirst : slice 1 (1 + 9) (ple.convolution_of state ++ row :: rows) =
      push (ple.convolution_of state) row := by
    have hfirst := slice_one (ple.convolution_of state) row rows
    rwa [hlength] at hfirst
  have hrest : ple.verify_rows streams tokens (ple.forward_decode stream token state).2 =
      (List.zipWith ple.add
        (List.zipWith ple.gated streams ((ple.hash_.each_row_ids tokens
          (ple.hash_.row_ids token state.ngram).2).1.map ple.gather))
        (slide 10 ple.convolve
          (ple.convolution_of (ple.forward_decode stream token state).2 ++ rows)),
      (List.range tokens.length).map fun i =>
        { ngram := (ple.hash_.each_row_ids tokens
            (ple.hash_.row_ids token state.ngram).2).2.getD i default
          convolution := slice (i + 1) (i + 1 + 9)
            (ple.convolution_of (ple.forward_decode stream token state).2 ++ rows)
          convolution_initialized := true }) := rfl
  refine Prod.ext ?_ ?_
  -- the outputs
  · change List.zipWith ple.add (_ :: _)
      (slide 10 ple.convolve (ple.convolution_of state ++ row :: rows)) = _
    rw [hslide, List.zipWith_cons_cons, hrest, hnext]
    rfl
  -- the states
  · change (List.range (tokens.length + 1)).map (fun i =>
      ({ ngram := (((ple.hash_.row_ids token state.ngram).2 ::
            (ple.hash_.each_row_ids tokens (ple.hash_.row_ids token state.ngram).2).2).getD i
              default)
         convolution := slice (i + 1) (i + 1 + 9) (ple.convolution_of state ++ row :: rows)
         convolution_initialized := true } : PleState (List X))) = _
    rw [List.range_succ_eq_map, List.map_cons, List.map_map, hrest, hnext]
    refine congrArg₂ _ ?_ (List.map_congr_left fun i _ => ?_)
    · rw [hfirst, ← convolution_forward_decode h]
      rfl
    · rw [Function.comp_apply, Nat.succ_eq_add_one, hslice]
      rfl

/-- **The rows of a verification, and the states after them, are those of single steps.** -/
theorem verify_rows_eq (h : Whole state) {streams : List X} {tokens : List UInt32}
    (hlength : streams.length = tokens.length) :
    ((ple.verify_rows streams tokens state).1.zip tokens,
        (ple.verify_rows streams tokens state).2) =
      checkpoints ple.decode (streams.zip tokens) state := by
  induction tokens generalizing streams state with
  | nil =>
    obtain rfl := List.length_eq_zero_iff.mp hlength
    rfl
  | cons token tokens ih =>
    obtain ⟨stream, streams, rfl⟩ := List.exists_cons_of_length_eq_add_one hlength
    have hrest := ih (whole_forward_decode ple stream token h) (by simpa using hlength)
    rw [verify_rows_cons h, List.zip_cons_cons, List.zip_cons_cons, checkpoints_cons]
    rw [show ple.decode (stream, token) state = (((ple.forward_decode stream token state).1, token),
      (ple.forward_decode stream token state).2) from rfl, ← hrest]

theorem forward_verify_eq {streams : List X} {tokens : List UInt32}
    (hne : tokens ≠ []) (hmax : tokens.length ≤ 2048) (hlength : streams.length = tokens.length) :
    ple.forward_verify streams tokens state = .ok (ple.verify_rows streams tokens state) := by
  rw [forward_verify, Except.throw_if_of_not]
  · rfl
  · rintro (hnil | hmany | hwidth)
    · exact hne hnil
    · omega
    · exact hwidth hlength

end Ple

end Qwen38
