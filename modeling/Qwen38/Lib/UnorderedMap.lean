import Mathlib.Data.List.AList
import Mathlib.Tactic.Ring

/-!
# Unordered maps

A map from keys to values whose iteration order is its own business. The pairs are kept
in the order in which an iteration meets them, with distinct keys
(Mathlib's `AList` carries that as a field); inserting a key may rearrange all of them, in
a way that is a parameter (`UnorderedMap.BucketOrder`), while erasing and updating in
place do not.

What a client can rely on is then what does not depend on the order: the value of a key,
the set of keys, the number of pairs, and sums over the values (`UnorderedMap.weight`).
-/

/-- A map with distinct keys, in the order in which an iteration meets them. -/
abbrev UnorderedMap (κ : Type*) (α : Type*) := AList fun _ : κ => α

namespace UnorderedMap

/-- How the buckets order the pairs after an insertion. -/
structure BucketOrder (κ : Type*) where
  order : {α : Type} → List (Sigma fun _ : κ => α) → List (Sigma fun _ : κ => α)
  perm : ∀ {α : Type} (l : List (Sigma fun _ : κ => α)), (order l).Perm l

/-- The newest pair first. -/
def BucketOrder.newestFirst (κ : Type*) : BucketOrder κ where
  order := id
  perm := .refl

variable {κ : Type*} {α β : Type}

/-- The number of pairs. -/
def size (m : UnorderedMap κ α) : Nat := m.entries.length

/-- Every value replaced, in place. -/
def mapValues (f : α → β) (m : UnorderedMap κ α) : UnorderedMap κ β where
  entries := m.entries.map fun p => ⟨p.1, f p.2⟩
  nodupKeys := m.nodupKeys.map₂ (fun _ => f)

/-- The value of a key changed, in place. -/
def adjust [DecidableEq κ] (k : κ) (f : α → α) (m : UnorderedMap κ α) : UnorderedMap κ α where
  entries := m.entries.map fun p => ⟨p.1, if p.1 = k then f p.2 else p.2⟩
  nodupKeys := m.nodupKeys.map₂ fun k' a => if k' = k then f a else a

/-- The sum of a weight over the values. -/
def weight (w : α → Nat) (m : UnorderedMap κ α) : Nat := (m.entries.map fun p => w p.2).sum

variable (b : BucketOrder κ) (m : UnorderedMap κ α)

/-- The pairs in the order of the buckets. -/
def arrange : UnorderedMap κ α where
  entries := b.order m.entries
  nodupKeys := (List.perm_nodupKeys (b.perm _)).mpr m.nodupKeys

theorem entries_arrange_perm : (arrange b m).entries.Perm m.entries := b.perm _

variable [DecidableEq κ]

/-- `insert_or_assign`; with a new key this is `emplace`. -/
def put (k : κ) (a : α) : UnorderedMap κ α := arrange b (m.insert k a)

/-- `emplace`: a key that is there keeps its value. -/
def emplace (k : κ) (a : α) : UnorderedMap κ α := if k ∈ m then m else put b m k a

variable {b m} {k k' : κ} {a : α}

/-! ### The value of a key -/

@[simp] theorem lookup_arrange : (arrange b m).lookup k = m.lookup k :=
  AList.perm_lookup (entries_arrange_perm b m)

@[simp] theorem lookup_put : (put b m k a).lookup k = some a := by
  rw [put, lookup_arrange, AList.lookup_insert]

theorem lookup_put_of_ne (h : k' ≠ k) : (put b m k a).lookup k' = m.lookup k' := by
  rw [put, lookup_arrange, AList.lookup_insert_ne h]

theorem emplace_of_mem (h : k ∈ m) : emplace b m k a = m := if_pos h

theorem lookup_emplace_of_ne (h : k' ≠ k) : (emplace b m k a).lookup k' = m.lookup k' := by
  rw [emplace]
  split
  · rfl
  · exact lookup_put_of_ne h

theorem lookup_emplace_of_notMem (h : k ∉ m) : (emplace b m k a).lookup k = some a := by
  rw [emplace, if_neg h, lookup_put]

/-- **A value after `emplace`** was there, or it is the new one. -/
theorem lookup_of_lookup_emplace {a' : α} (h : (emplace b m k a).lookup k' = some a') :
    m.lookup k' = some a' ∨ k' = k ∧ a' = a := by
  by_cases hmem : k ∈ m
  · rw [emplace_of_mem hmem] at h
    exact .inl h
  · by_cases hkey : k' = k
    · subst hkey
      rw [lookup_emplace_of_notMem hmem] at h
      exact .inr ⟨rfl, (Option.some.inj h).symm⟩
    · rw [lookup_emplace_of_ne hkey] at h
      exact .inl h

@[simp] theorem lookup_mapValues (f : α → β) : (mapValues f m).lookup k = (m.lookup k).map f := by
  obtain ⟨l, hl⟩ := m
  change List.dlookup (β := fun _ => β) k (l.map fun p => ⟨p.1, f p.2⟩) =
    Option.map f (List.dlookup (β := fun _ => α) k l)
  clear hl
  induction l with
  | nil => rfl
  | cons p l ih =>
    by_cases h : k = p.1
    · subst h
      rw [List.map_cons, List.dlookup_cons_eq, List.dlookup_cons_eq, Option.map_some]
    · rw [List.map_cons, List.dlookup_cons_ne (β := fun _ => β) _ ⟨p.1, f p.2⟩ h,
        List.dlookup_cons_ne (β := fun _ => α) _ p h, ih]

omit [DecidableEq κ] in
theorem mapValues_mapValues {γ : Type} (f : α → β) (g : β → γ) :
    mapValues g (mapValues f m) = mapValues (g ∘ f) m := by
  ext1
  simp [mapValues, Function.comp_def]

/-- A change that a function of the values does not see. -/
theorem mapValues_adjust {f : α → α} {g : α → β} (h : ∀ a, g (f a) = g a) :
    mapValues g (adjust k f m) = mapValues g m := by
  ext1
  simp only [mapValues, adjust, List.map_map, Function.comp_def]
  refine List.map_congr_left fun p _ => ?_
  split
  · rw [h]
  · rfl

theorem lookup_of_mem {p : Sigma fun _ : κ => α} (h : p ∈ m.entries) :
    m.lookup p.1 = some p.2 :=
  AList.mem_lookup_iff.mpr h

/-! ### The keys -/

omit [DecidableEq κ] in
@[simp] theorem mem_arrange : k ∈ arrange b m ↔ k ∈ m :=
  AList.mem_of_perm (entries_arrange_perm b m)

@[simp] theorem mem_put : k' ∈ put b m k a ↔ k' = k ∨ k' ∈ m := by
  rw [put, mem_arrange, AList.mem_insert]

@[simp] theorem mem_emplace : k' ∈ emplace b m k a ↔ k' = k ∨ k' ∈ m := by
  rw [emplace]
  split
  next h =>
    refine ⟨Or.inr, ?_⟩
    rintro (rfl | h')
    · exact h
    · exact h'
  next => exact mem_put

@[simp] theorem mem_mapValues (f : α → β) : k ∈ mapValues f m ↔ k ∈ m := by
  rw [← AList.lookup_isSome, ← AList.lookup_isSome, lookup_mapValues, Option.isSome_map]

theorem mem_of_mem_entries {p : Sigma fun _ : κ => α} (h : p ∈ m.entries) : p.1 ∈ m :=
  AList.lookup_isSome.mp (by rw [lookup_of_mem h]; rfl)

/-! ### The number of pairs and sums over them -/

omit [DecidableEq κ] in
@[simp] theorem size_mapValues (f : α → β) : size (mapValues f m) = size m := List.length_map ..

omit [DecidableEq κ] in
theorem weight_mapValues (f : α → β) (w : β → Nat) :
    weight w (mapValues f m) = weight (w ∘ f) m := by
  simp only [weight, mapValues, List.map_map, Function.comp_def]

theorem size_put_of_notMem (h : k ∉ m) : size (put b m k a) = size m + 1 := by
  rw [size, put, (entries_arrange_perm b _).length_eq, AList.entries_insert_of_notMem h]
  rfl

theorem weight_put_of_notMem (w : α → Nat) (h : k ∉ m) :
    weight w (put b m k a) = w a + weight w m := by
  rw [weight, put, ((entries_arrange_perm b _).map _).sum_nat, AList.entries_insert_of_notMem h]
  rfl

/-- A pair and the others. -/
theorem perm_cons_erase (h : m.lookup k = some a) : m.entries.Perm (⟨k, a⟩ :: (m.erase k).entries) := by
  obtain ⟨a', l₁, l₂, -, hl, herase⟩ := List.exists_of_kerase
    (AList.mem_keys.mp (AList.lookup_isSome.mp (by rw [h]; rfl)))
  have hperm : m.entries.Perm (⟨k, a'⟩ :: (m.erase k).entries) := by
    change m.entries.Perm (⟨k, a'⟩ :: List.kerase k m.entries)
    rw [herase, hl]
    exact List.perm_middle
  have hmem : m.lookup k = some a' :=
    AList.mem_lookup_iff.mpr (hperm.mem_iff.mpr List.mem_cons_self)
  obtain rfl : a = a' := by simpa [h] using hmem
  exact hperm

theorem weight_erase (w : α → Nat) (h : m.lookup k = some a) :
    weight w m = w a + weight w (m.erase k) := by
  rw [weight, ((perm_cons_erase h).map _).sum_nat]
  rfl

theorem size_erase (h : m.lookup k = some a) : size m = size (m.erase k) + 1 :=
  (perm_cons_erase h).length_eq

/-! ### Choosing a pair in an iteration -/

/-- An iteration that keeps what it has or takes the pair it meets, if that has a property. -/
theorem mem_of_foldl_eq_some {γ : Type*} {step : Option γ → γ → Option γ} {P : γ → Prop}
    (hstep : ∀ c p r, step c p = some r → c = some r ∨ r = p ∧ P p) {l : List γ} {r : γ} :
    ∀ {c}, l.foldl step c = some r → c = some r ∨ r ∈ l ∧ P r := by
  induction l with
  | nil => exact fun h => Or.inl h
  | cons p l ih =>
    intro c h
    rcases ih h with hc | ⟨hmem, hr⟩
    · rcases hstep c p r hc with hc | ⟨rfl, hr⟩
      · exact Or.inl hc
      · exact Or.inr ⟨List.mem_cons_self, hr⟩
    · exact Or.inr ⟨List.mem_cons_of_mem _ hmem, hr⟩

/-- An iteration that never gives up what it has. -/
theorem isSome_foldl {γ : Type*} {step : Option γ → γ → Option γ}
    (hstep : ∀ c p, (step c p).isSome) {l : List γ} {c : Option γ} (h : l ≠ []) :
    (l.foldl step c).isSome := by
  induction l generalizing c with
  | nil => exact absurd rfl h
  | cons p l ih =>
    cases l with
    | nil => exact hstep c p
    | cons q l => exact ih (List.cons_ne_nil q l)

end UnorderedMap
