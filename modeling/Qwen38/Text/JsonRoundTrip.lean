import Qwen38.Text.JsonText

/-!
# Printing and parsing again

What comes back when a value without doubles is printed and parsed. The objects of the
source are unordered maps, so two of them are equal when they have the same keys with equal
values, in whatever order (`Qwen38.Json.Same`); the printer writes the keys in order, and
the parser keeps the order of the text.
-/

namespace Qwen38

namespace Json

variable {numbers : NumberText} {D : Type}

mutual

/-- Equality of values: the order of the entries of an object does not count. -/
inductive Same : Json D → Json D → Prop
  | null : Same .null .null
  | boolean (b : Bool) : Same (.boolean b) (.boolean b)
  | integer (n : Int) : Same (.integer n) (.integer n)
  | number (d : D) : Same (.number d) (.number d)
  | string (s : Bytes) : Same (.string s) (.string s)
  | array {xs ys : List (Json D)} (h : SameItems xs ys) : Same (.array xs) (.array ys)
  | object {xs ys zs : List (Bytes × Json D)} (hperm : xs.Perm ys) (h : SameEntries ys zs) :
      Same (.object xs) (.object zs)

/-- The same items in the same order. -/
inductive SameItems : List (Json D) → List (Json D) → Prop
  | nil : SameItems [] []
  | cons {x y : Json D} {xs ys : List (Json D)} (h : Same x y) (ht : SameItems xs ys) :
      SameItems (x :: xs) (y :: ys)

/-- The same keys in the same order, with the same values. -/
inductive SameEntries : List (Bytes × Json D) → List (Bytes × Json D) → Prop
  | nil : SameEntries [] []
  | cons {key : Bytes} {x y : Json D} {xs ys : List (Bytes × Json D)} (h : Same x y)
      (ht : SameEntries xs ys) : SameEntries ((key, x) :: xs) ((key, y) :: ys)

end

mutual

/-- A value of the source's type without doubles: integers of the machine, distinct keys. -/
def Whole : Json D → Prop
  | .integer value => -2 ^ 63 ≤ value ∧ value < 2 ^ 63
  | .number _ => False
  | .array items => WholeItems items
  | .object entries => (entries.map Prod.fst).Nodup ∧ WholeEntries entries
  | _ => True

def WholeItems : List (Json D) → Prop
  | [] => True
  | item :: items => Whole item ∧ WholeItems items

def WholeEntries : List (Bytes × Json D) → Prop
  | [] => True
  | (_, value) :: entries => Whole value ∧ WholeEntries entries

end

mutual

theorem Whole.printable : ∀ value : Json numbers.Double, Whole value → Printable numbers value
  | .null, _ => by simp [Printable]
  | .boolean _, _ => by simp [Printable]
  | .string _, _ => by simp [Printable]
  | .integer value, h => by
    rw [Whole] at h
    rwa [Printable]
  | .number value, h => by
    rw [Whole] at h
    exact h.elim
  | .array items, h => by
    rw [Whole] at h
    rw [Printable]
    exact WholeItems.printable items h
  | .object entries, h => by
    rw [Whole] at h
    rw [Printable]
    exact ⟨h.1, WholeEntries.printable entries h.2⟩

theorem WholeItems.printable : ∀ items : List (Json numbers.Double), WholeItems items →
    PrintableItems numbers items
  | [], _ => trivial
  | item :: items, h => by
    rw [WholeItems] at h
    rw [PrintableItems]
    exact ⟨Whole.printable item h.1, WholeItems.printable items h.2⟩

theorem WholeEntries.printable : ∀ entries : List (Bytes × Json numbers.Double),
    WholeEntries entries → PrintableEntries numbers entries
  | [], _ => trivial
  | (key, value) :: entries, h => by
    rw [WholeEntries] at h
    rw [PrintableEntries]
    exact ⟨Whole.printable value h.1, WholeEntries.printable entries h.2⟩

end

/-- Sorting the entries changes their order only. -/
theorem SameEntries.of_perm {xs ys zs : List (Bytes × Json D)} (h : SameEntries xs ys)
    (hperm : ys.Perm zs) : ∃ ws, xs.Perm ws ∧ SameEntries ws zs := by
  induction hperm generalizing xs with
  | nil => exact ⟨xs, .refl xs, h⟩
  | cons e _ ih =>
    rcases h with _ | ⟨hvalue, hrest⟩
    obtain ⟨ws, hws, hsame⟩ := ih hrest
    exact ⟨_, hws.cons _, .cons hvalue hsame⟩
  | swap e f _ =>
    rcases h with _ | ⟨hvalue, _ | ⟨hvalue', hrest⟩⟩
    exact ⟨_, .swap _ _ _, .cons hvalue' (.cons hvalue hrest)⟩
  | trans _ _ ih ih' =>
    obtain ⟨us, hus, hsame⟩ := ih h
    obtain ⟨ws, hws, hsame'⟩ := ih' hsame
    exact ⟨ws, hus.trans hws, hsame'⟩

mutual

/-- What is read where a value was printed is the value. -/
theorem same_reread : ∀ value : Json numbers.Double, Whole value →
    Same value (reread numbers value)
  | .null, _ => by
    rw [reread]
    exact .null
  | .boolean b, _ => by
    rw [reread]
    exact .boolean b
  | .integer n, _ => by
    rw [reread]
    exact .integer n
  | .number d, h => by
    rw [Whole] at h
    exact h.elim
  | .string s, _ => by
    rw [reread]
    exact .string s
  | .array items, h => by
    rw [Whole] at h
    rw [reread]
    exact .array (same_reread_items items h)
  | .object entries, h => by
    rw [Whole] at h
    rw [reread]
    obtain ⟨ws, hws, hsame⟩ :=
      (same_reread_entries entries h.2).of_perm (List.mergeSort_perm _ key_le).symm
    exact .object hws hsame

theorem same_reread_items : ∀ items : List (Json numbers.Double), WholeItems items →
    SameItems items (reread_items numbers items)
  | [], _ => by
    rw [reread_items]
    exact .nil
  | item :: items, h => by
    rw [WholeItems] at h
    rw [reread_items]
    exact .cons (same_reread item h.1) (same_reread_items items h.2)

theorem same_reread_entries : ∀ entries : List (Bytes × Json numbers.Double),
    WholeEntries entries → SameEntries entries (reread_entries numbers entries)
  | [], _ => by
    rw [reread_entries]
    exact .nil
  | (key, value) :: entries, h => by
    rw [WholeEntries] at h
    rw [reread_entries]
    exact .cons (same_reread value h.1) (same_reread_entries entries h.2)

end

/-- **A value without doubles is parsed back from its text.** -/
theorem parse_dump {value : Json numbers.Double} (h : Whole value) :
    ∃ value', parse numbers (dump numbers value) = .ok value' ∧ Same value value' :=
  ⟨reread numbers value, parse_of_reads (reads_dump value (Whole.printable value h)),
    same_reread value h⟩

/-- Keys out of order, the least integer, and every kind of byte in a string. -/
theorem parse_dump_nested :
    ∃ value', parse .integers (dump .integers (.object
        [(ascii ['b'], .array [.integer (-2 ^ 63), .string [0, 34, 92, 127, 255]]),
          (ascii ['a'], .object [(ascii [], .null)])])) = .ok value' ∧
      Same (.object
        [(ascii ['b'], .array [.integer (-2 ^ 63), .string [0, 34, 92, 127, 255]]),
          (ascii ['a'], .object [(ascii [], .null)])]) value' := by
  refine parse_dump ?_
  simp only [Whole, WholeItems, WholeEntries, and_true]
  exact ⟨by decide, by decide, by decide⟩

end Json

end Qwen38
