import Mathlib.Data.List.Basic

/-!
# Pipelines of stateful stages

A stage turns an item into another one and moves its own state on. Items go through a list of stages
in some order; all that matters is that each stage sees the items in their order, and each item the
stages in theirs. So it is the same to send one item after the other through all stages, or all
items through one stage after the other (`Pipeline.items_through`), and either may be done a few
stages at a time (`Pipeline.window_trans`, `Pipeline.items_window`). The same holds when the state
of every stage is recorded after each item (`Pipeline.checkpoints_through`), and when every item has
states of its own (`Pipeline.abreast_eq_map`).
-/

namespace Pipeline

variable {α σ : Type*}

/-- What a stage makes of an item, and its state after. -/
abbrev Stage (α σ : Type*) := α → σ → α × σ

/-- One item through consecutive stages, each with its own state. -/
def through : List (Stage α σ) → Stage α (List σ)
  | [], x, ss => (x, ss)
  | _ :: _, x, [] => (x, [])
  | f :: fs, x, s :: ss =>
    let r := f x s
    let rest := through fs r.1 ss
    (rest.1, r.2 :: rest.2)

/-- One item after the other through one stage. -/
def items (f : Stage α σ) : Stage (List α) σ
  | [], s => ([], s)
  | x :: xs, s =>
    let r := f x s
    let rest := items f xs r.2
    (r.1 :: rest.1, rest.2)

variable (f : Stage α σ) (fs gs : List (Stage α σ)) (x : α) (xs ys : List α) (s : σ)
  (ss : List σ)

/-! ### A few stages at a time -/

@[simp] theorem through_nil : through [] x ss = (x, ss) := by simp [through]

@[simp] theorem through_nil_state : through fs x [] = (x, []) := by
  cases fs <;> simp [through]

@[simp] theorem through_cons :
    through (f :: fs) x (s :: ss) =
      ((through fs (f x s).1 ss).1, (f x s).2 :: (through fs (f x s).1 ss).2) := by
  simp [through]

@[simp] theorem length_through : (through fs x ss).2.length = ss.length := by
  induction fs generalizing x ss with
  | nil => simp
  | cons f fs ih =>
    cases ss with
    | nil => simp
    | cons s ss => simp [ih]

/-- What every stage leaves alone, they leave alone together. -/
theorem through_invariant {β : Type*} (φ : α → β)
    (h : ∀ f ∈ fs, ∀ x s, φ (f x s).1 = φ x) : φ (through fs x ss).1 = φ x := by
  induction fs generalizing x ss with
  | nil => simp
  | cons f fs ih =>
    cases ss with
    | nil => simp
    | cons s ss =>
      rw [through_cons, ih _ _ fun f hf => h f (List.mem_cons_of_mem _ hf)]
      exact h f List.mem_cons_self x s

/-- **Consecutive stages may be done in two goes.** -/
theorem through_append :
    through (fs ++ gs) x ss =
      ((through gs (through fs x (ss.take fs.length)).1 (ss.drop fs.length)).1,
        (through fs x (ss.take fs.length)).2 ++
          (through gs (through fs x (ss.take fs.length)).1 (ss.drop fs.length)).2) := by
  induction fs generalizing x ss with
  | nil => simp
  | cons f fs ih =>
    cases ss with
    | nil => simp
    | cons s ss => simp [ih]

/-! ### A few items at a time -/

@[simp] theorem items_nil : items f [] s = ([], s) := rfl

@[simp] theorem items_cons :
    items f (x :: xs) s = ((f x s).1 :: (items f xs (f x s).2).1, (items f xs (f x s).2).2) :=
  rfl

@[simp] theorem length_items : (items f xs s).1.length = xs.length := by
  induction xs generalizing s with
  | nil => rfl
  | cons x xs ih => simp [ih]

theorem items_append :
    items f (xs ++ ys) s =
      ((items f xs s).1 ++ (items f ys (items f xs s).2).1,
        (items f ys (items f xs s).2).2) := by
  induction xs generalizing s with
  | nil => simp
  | cons x xs ih => simp [ih]

theorem fst_items_take (n : Nat) :
    (items f (xs.take n) s).1 = (items f xs s).1.take n := by
  induction xs generalizing s n with
  | nil => simp
  | cons x xs ih =>
    cases n with
    | zero => rfl
    | succ n => rw [List.take_succ_cons, items_cons, items_cons, List.take_succ_cons, ih]

theorem items_invariant {β : Type*} (φ : α → β) (h : ∀ x s, φ (f x s).1 = φ x) :
    (items f xs s).1.map φ = xs.map φ := by
  induction xs generalizing s with
  | nil => rfl
  | cons x xs ih => rw [items_cons, List.map_cons, List.map_cons, h, ih]

/-- A stage that looks at a part of the state only. -/
theorem items_of_part {τ : Type*} (part : τ → σ) (g : Stage α τ)
    (h : ∀ x t, f x (part t) = ((g x t).1, part (g x t).2)) (t : τ) :
    items f xs (part t) = ((items g xs t).1, part (items g xs t).2) := by
  induction xs generalizing t with
  | nil => rfl
  | cons x xs ih => rw [items_cons, items_cons, h, ih]

/-- A stage that sends a part of each item through another one, and puts the item together
from what comes back. -/
theorem items_wrap {β : Type*} (g : Stage β σ) (pre : β → α) (post : β → α → β)
    (h : ∀ y s, g y s = (post y (f (pre y) s).1, (f (pre y) s).2)) (ys : List β) :
    items g ys s =
      (List.zipWith post ys (items f (ys.map pre) s).1, (items f (ys.map pre) s).2) := by
  induction ys generalizing s with
  | nil => rfl
  | cons y ys ih => rw [items_cons, h, ih, List.map_cons, items_cons, List.zipWith_cons_cons]

/-! ### Item by item, or stage by stage -/

theorem items_through_nil_state : items (through fs) xs [] = (xs, []) := by
  induction xs with
  | nil => rfl
  | cons x xs ih => simp [ih]

theorem items_through_cons :
    items (through (f :: fs)) xs (s :: ss) =
      ((items (through fs) (items f xs s).1 ss).1,
        (items f xs s).2 :: (items (through fs) (items f xs s).1 ss).2) := by
  induction xs generalizing s ss with
  | nil => rfl
  | cons x xs ih => simp [ih]

/-- **One item after the other through all stages, or all items through one stage after
the other.** -/
theorem items_through : items (through fs) xs ss = through (fs.map items) xs ss := by
  induction fs generalizing xs ss with
  | nil =>
    induction xs with
    | nil => rfl
    | cons x xs ih => rw [items_cons, through_nil, ih, List.map_nil, through_nil, through_nil]
  | cons f fs ih =>
    cases ss with
    | nil => rw [items_through_nil_state, through_nil_state]
    | cons s ss => rw [items_through_cons, List.map_cons, through_cons, ih]

/-! ### Windows of stages -/

/-- The stages from `first` to `last`; the states of the others stay as they are. -/
def window (fs : List (Stage α σ)) (first last : Nat) : Stage α (List σ) := fun x ss =>
  let r := through ((fs.take last).drop first) x ((ss.take last).drop first)
  (r.1, ss.take first ++ r.2 ++ ss.drop (max first last))

section Window

variable {fs : List (Stage α σ)} {ss : List σ} {first mid last : Nat}

@[simp] theorem length_window : (window fs first last x ss).2.length = ss.length := by
  simp only [window, List.length_append, length_through, List.length_take, List.length_drop]
  omega

/-- All stages are one window. -/
theorem window_all (fs : List (Stage α σ)) (ss : List σ) (h : fs.length = ss.length) :
    window fs 0 fs.length x ss = through fs x ss := by
  simp [window, List.take_of_length_le, h]

/-- A window in a list that is cut where it starts and ends. -/
theorem window_append (fs gs hs : List (Stage α σ)) (ss ts us : List σ)
    (hfs : fs.length = ss.length) (hgs : gs.length = ts.length) :
    window (fs ++ (gs ++ hs)) ss.length (ss.length + ts.length) x (ss ++ (ts ++ us)) =
      ((through gs x ts).1, ss ++ ((through gs x ts).2 ++ us)) := by
  have hstages : ((fs ++ (gs ++ hs)).take (ss.length + ts.length)).drop ss.length = gs := by
    rw [← hfs, ← hgs, List.take_length_add_append, List.drop_left, List.take_left]
  have hstates : ((ss ++ (ts ++ us)).take (ss.length + ts.length)).drop ss.length = ts := by
    rw [List.take_length_add_append, List.drop_left, List.take_left]
  have hback : (ss ++ (ts ++ us)).drop (ss.length + ts.length) = us := by
    rw [List.drop_length_add_append, List.drop_left]
  simp only [window, hstages, hstates, Nat.max_eq_right (Nat.le_add_right _ _), hback,
    List.take_left, List.append_assoc]

/-- A list cut at a place in it. -/
theorem exists_append {β : Type*} {l : List β} {n : Nat} (h : n ≤ l.length) :
    ∃ front back, l = front ++ back ∧ front.length = n :=
  ⟨l.take n, l.drop n, (List.take_append_drop n l).symm, by
    rw [List.length_take]
    omega⟩

/-- **A window after another one makes one window.** -/
theorem window_trans (hfirst : first ≤ mid) (hlast : mid ≤ last) (hlength : last ≤ ss.length)
    (hfs : fs.length = ss.length) :
    window fs mid last (window fs first mid x ss).1 (window fs first mid x ss).2 =
      window fs first last x ss := by
  obtain ⟨s₁, ss, rfl, rfl⟩ := exists_append (show first ≤ ss.length by omega)
  rw [List.length_append] at hlength hfs
  obtain ⟨s₂, ss, rfl, hs₂⟩ := exists_append (show mid - s₁.length ≤ ss.length by omega)
  rw [List.length_append] at hlength hfs
  obtain ⟨s₃, ss, rfl, hs₃⟩ := exists_append (show last - mid ≤ ss.length by omega)
  rw [List.length_append] at hfs
  obtain ⟨f₁, fs, rfl, hf₁⟩ := exists_append (show s₁.length ≤ fs.length by omega)
  rw [List.length_append] at hfs
  obtain ⟨f₂, fs, rfl, hf₂⟩ := exists_append (show s₂.length ≤ fs.length by omega)
  rw [List.length_append] at hfs
  obtain ⟨f₃, fs, rfl, hf₃⟩ := exists_append (show s₃.length ≤ fs.length by omega)
  -- stages and states fall into what is before the windows, the two windows, and the rest
  obtain rfl : mid = s₁.length + s₂.length := by omega
  obtain rfl : last = s₁.length + s₂.length + s₃.length := by omega
  rw [window_append x f₁ f₂ (f₃ ++ fs) s₁ s₂ (s₃ ++ ss) hf₁ hf₂]
  have hfront : ∀ r : List σ, r.length = s₂.length →
      window (f₁ ++ (f₂ ++ (f₃ ++ fs))) (s₁.length + s₂.length)
          (s₁.length + s₂.length + s₃.length) (through f₂ x s₂).1 (s₁ ++ (r ++ (s₃ ++ ss))) =
        ((through f₃ (through f₂ x s₂).1 s₃).1,
          s₁ ++ r ++ ((through f₃ (through f₂ x s₂).1 s₃).2 ++ ss)) := by
    intro r hr
    have happend := window_append (through f₂ x s₂).1 (f₁ ++ f₂) f₃ fs (s₁ ++ r) s₃ ss
      (by rw [List.length_append, List.length_append]; omega) hf₃
    rwa [List.length_append, hr, List.append_assoc, List.append_assoc] at happend
  have hwhole := window_append x f₁ (f₂ ++ f₃) fs s₁ (s₂ ++ s₃) ss hf₁
    (by rw [List.length_append, List.length_append]; omega)
  rw [List.append_assoc, List.append_assoc, List.length_append, ← Nat.add_assoc] at hwhole
  rw [hfront _ (length_through _ _ _), hwhole, through_append, hf₂, List.take_left, List.drop_left,
    List.append_assoc, List.append_assoc]

/-- **The items one after the other through a window, or together.** -/
theorem items_window (hfirst : first ≤ last) (hlength : last ≤ ss.length)
    (hfs : fs.length = ss.length) :
    items (window fs first last) xs ss = window (fs.map items) first last xs ss := by
  obtain ⟨s₁, ss, rfl, rfl⟩ := exists_append (show first ≤ ss.length by omega)
  rw [List.length_append] at hlength hfs
  obtain ⟨s₂, ss, rfl, hs₂⟩ := exists_append (show last - s₁.length ≤ ss.length by omega)
  rw [List.length_append] at hfs
  obtain ⟨f₁, fs, rfl, hf₁⟩ := exists_append (show s₁.length ≤ fs.length by omega)
  rw [List.length_append] at hfs
  obtain ⟨f₂, fs, rfl, hf₂⟩ := exists_append (show s₂.length ≤ fs.length by omega)
  obtain rfl : last = s₁.length + s₂.length := by omega
  rw [List.map_append, List.map_append,
    window_append xs (f₁.map items) (f₂.map items) (fs.map items) s₁ s₂ ss (by simpa using hf₁)
      (by simpa using hf₂), ← items_through]
  clear hs₂ hfs hfirst hlength
  induction xs generalizing s₂ with
  | nil => rfl
  | cons x xs ih =>
    have hmid : (through f₂ x s₂).2.length = s₂.length := length_through _ _ _
    rw [items_cons, window_append x f₁ f₂ fs s₁ s₂ ss hf₁ hf₂, items_cons]
    simp only
    rw [← hmid, ih (through f₂ x s₂).2 (by omega)]

end Window

/-! ### The states in between -/

/-- The items through one stage, with the state after each of them. -/
def checkpoints (f : Stage α σ) : List α → σ → List α × List σ
  | [], _ => ([], [])
  | x :: xs, s =>
    let r := f x s
    let rest := checkpoints f xs r.2
    (r.1 :: rest.1, r.2 :: rest.2)

/-- Stage after stage, each of which reports its state after every item; the reports are
put together item by item. -/
def report : List (List α → σ → List α × List σ) → List α → List σ → List α × List (List σ)
  | [], xs, ss => (xs, xs.map fun _ => ss)
  | _ :: _, xs, [] => (xs, xs.map fun _ => [])
  | k :: ks, xs, s :: ss =>
    let r := k xs s
    let rest := report ks r.1 ss
    (rest.1, List.zipWith List.cons r.2 rest.2)

theorem checkpoints_cons :
    checkpoints f (x :: xs) s =
      ((f x s).1 :: (checkpoints f xs (f x s).2).1,
        (f x s).2 :: (checkpoints f xs (f x s).2).2) := rfl

@[simp] theorem fst_checkpoints : (checkpoints f xs s).1 = (items f xs s).1 := by
  induction xs generalizing s with
  | nil => rfl
  | cons x xs ih => simp [checkpoints_cons, ih]

@[simp] theorem length_checkpoints : (checkpoints f xs s).2.length = xs.length := by
  induction xs generalizing s with
  | nil => rfl
  | cons x xs ih => simp [checkpoints_cons, ih]

/-- The state after an item is the one the items up to it leave. -/
theorem getElem?_checkpoints {i : Nat} (hi : i < xs.length) :
    (checkpoints f xs s).2[i]? = some (items f (xs.take (i + 1)) s).2 := by
  induction xs generalizing s i with
  | nil => simp at hi
  | cons x xs ih =>
    cases i with
    | zero => simp [checkpoints_cons]
    | succ i => simpa [checkpoints_cons] using ih (f x s).2 (by simpa using hi)

theorem checkpoints_through_cons :
    checkpoints (through (f :: fs)) xs (s :: ss) =
      ((checkpoints (through fs) (checkpoints f xs s).1 ss).1,
        List.zipWith List.cons (checkpoints f xs s).2
          (checkpoints (through fs) (checkpoints f xs s).1 ss).2) := by
  induction xs generalizing s ss with
  | nil => rfl
  | cons x xs ih =>
    rw [checkpoints_cons, through_cons, ih]
    rfl

/-- **The states in between are the same item by item and stage by stage.** -/
theorem checkpoints_through :
    checkpoints (through fs) xs ss = report (fs.map checkpoints) xs ss := by
  induction fs generalizing xs ss with
  | nil =>
    rw [List.map_nil, report]
    induction xs with
    | nil => rfl
    | cons x xs ih => rw [checkpoints_cons, through_nil, ih, List.map_cons]
  | cons f fs ih =>
    cases ss with
    | nil =>
      rw [List.map_cons, report]
      induction xs with
      | nil => rfl
      | cons x xs hxs => rw [checkpoints_cons, through_nil_state, hxs, List.map_cons]
    | cons s ss => rw [checkpoints_through_cons, List.map_cons, report, ih]

theorem length_of_mem_report (ks : List (List α → σ → List α × List σ)) (xs : List α)
    (ss : List σ) (hlength : ss.length = ks.length) :
    ∀ row ∈ (report ks xs ss).2, row.length = ks.length := by
  induction ks generalizing xs ss with
  | nil =>
    intro row hrow
    obtain ⟨x, -, rfl⟩ := List.mem_map.mp hrow
    exact hlength
  | cons k ks ih =>
    cases ss with
    | nil => simp at hlength
    | cons s ss =>
      intro row hrow
      rw [report] at hrow
      obtain ⟨i, hi, rfl⟩ := List.mem_iff_getElem.mp hrow
      rw [List.getElem_zipWith, List.length_cons, List.length_cons]
      exact congrArg (· + 1) (ih _ ss (by simpa using hlength) _ (List.getElem_mem _))

/-! ### Items with states of their own -/

/-- A stage for each item, with the state that is its own. -/
def apiece (xs : List α) (ss : List σ) : List α × List σ := (List.zipWith f xs ss).unzip

/-- Stage after stage for items that do not share the stages' states. A stage is given all items at
once, with the state that each of them has for it. -/
def abreast : List (List α → List σ → List α × List σ) → List (α × List σ) → List (α × List σ)
  | [], rows => rows
  | k :: ks, rows =>
    let r := k (rows.map Prod.fst) (rows.filterMap fun row => row.2.head?)
    List.zipWith (fun s rest => (rest.1, s :: rest.2)) r.2
      (abreast ks (r.1.zip (rows.map fun row => row.2.tail)))

/-- Items of which all have a state, taken apart. -/
theorem exists_heads {rows : List (α × List σ)} {n : Nat} (h : ∀ row ∈ rows, row.2.length = n + 1) :
    ∃ apart : List (α × σ × List σ), rows = apart.map (fun row => (row.1, row.2.1 :: row.2.2)) ∧
      ∀ row ∈ apart, row.2.2.length = n := by
  induction rows with
  | nil => exact ⟨[], rfl, fun row hrow => absurd hrow List.not_mem_nil⟩
  | cons row rows ih =>
    obtain ⟨apart, rfl, hapart⟩ := ih fun other hother => h other (List.mem_cons_of_mem _ hother)
    obtain ⟨x, ss⟩ := row
    have hlength := h (x, ss) List.mem_cons_self
    cases ss with
    | nil => cases hlength
    | cons s ss =>
      refine ⟨(x, s, ss) :: apart, rfl, fun other hother => ?_⟩
      rcases List.mem_cons.mp hother with rfl | hold
      · exact Nat.succ.inj hlength
      · exact hapart other hold

/-- **Items with states of their own do not see each other**, where every stage does with all of
them what it does with each. -/
theorem abreast_eq_map {β : Type*} (stages : List β) (k : β → List α → List σ → List α × List σ)
    (f : β → Stage α σ) {rows : List (α × List σ)}
    (h : ∀ stage ∈ stages, ∀ xs ss, xs.length = rows.length → ss.length = rows.length →
      k stage xs ss = apiece (f stage) xs ss)
    (hrows : ∀ row ∈ rows, row.2.length = stages.length) :
    abreast (stages.map k) rows = rows.map fun row => through (stages.map f) row.1 row.2 := by
  induction stages generalizing rows with
  | nil => simp [abreast]
  | cons stage stages ih =>
    -- each row has a state for this stage, and others for the next
    obtain ⟨apart, rfl, hapart⟩ := exists_heads hrows
    have hheads : (apart.map fun row => (row.1, row.2.1 :: row.2.2)).filterMap
        (fun row => row.2.head?) = apart.map fun row => row.2.1 := by
      rw [List.filterMap_map]
      exact (List.filterMap_eq_map (f := fun row : α × σ × List σ => row.2.1)) ▸ rfl
    have hstage := h stage List.mem_cons_self (apart.map fun row => row.1)
      (apart.map fun row => row.2.1) (by simp only [List.length_map]) (by simp only [List.length_map])
    have hapiece : apiece (f stage) (apart.map fun row => row.1) (apart.map fun row => row.2.1) =
        (apart.map fun row => (f stage row.1 row.2.1).1, apart.map fun row => (f stage row.1 row.2.1).2) := by
      rw [apiece, List.zipWith_map, List.zipWith_self, List.unzip_eq_map, List.map_map, List.map_map]
      rfl
    have hrest := @ih (apart.map fun row => ((f stage row.1 row.2.1).1, row.2.2))
      (fun other hother xs ss hxs hss => h other (List.mem_cons_of_mem _ hother) xs ss
        (by simpa only [List.length_map] using hxs) (by simpa only [List.length_map] using hss))
      (by
        intro row hrow
        obtain ⟨before, hbefore, rfl⟩ := List.mem_map.mp hrow
        exact hapart before hbefore)
    rw [List.map_cons, abreast, List.map_map, hheads]
    dsimp only [Function.comp_def]
    rw [hstage, hapiece, List.map_map]
    dsimp only [Function.comp_def, List.tail_cons]
    rw [List.zip_map', hrest, List.map_map, List.zipWith_map, List.zipWith_self, List.map_map]
    refine List.map_congr_left fun row _ => ?_
    simp only [Function.comp_apply, List.map_cons, through_cons]

end Pipeline
