import Mathlib.Algebra.Order.Group.Nat
import Mathlib.Data.List.Basic
import Mathlib.Logic.ExistsUnique

/-!
# Entries in tiles

A tile names a range of a list of entries and a label for all of them. `Tiling.Covers` reads the
tiles of a list one behind the other: each stands where the last one ended, has at most `height`
entries, and these have its label as their key. So they partition the
entries (`Tiling.Covers.partition`), and tilings can be put together (`Tiling.Covers.append`).

`Tiling.chunks` cuts entries of one label into tiles of full height and a rest.
-/

namespace Tiling

/-- A range of entries with a label. -/
structure Tile (ι : Type*) where
  label : ι
  start : ℕ
  rows : ℕ
  deriving DecidableEq

variable {ι α : Type*} {key : α → ι} {height start count : ℕ} {label : ι}
  {tiles tiles' : List (Tile ι)} {entries entries' : List α}

namespace Tile

/-- Whether a place is in a tile. -/
def Has (tile : Tile ι) (place : ℕ) : Prop := tile.start ≤ place ∧ place < tile.start + tile.rows

instance (tile : Tile ι) (place : ℕ) : Decidable (tile.Has place) :=
  inferInstanceAs (Decidable (_ ∧ _))

/-- A tile further on. -/
def shift (offset : ℕ) (tile : Tile ι) : Tile ι := { tile with start := tile.start + offset }

end Tile

/-- The tiles cover the entries, the first of which is at `start`. -/
inductive Covers (key : α → ι) (height : ℕ) : ℕ → List (Tile ι) → List α → Prop
  | nil (start : ℕ) : Covers key height start [] []
  | cons {start : ℕ} {label : ι} {chunk : List α} {tiles : List (Tile ι)} {entries : List α}
      (hpos : 0 < chunk.length) (hheight : chunk.length ≤ height)
      (hlabel : ∀ entry ∈ chunk, key entry = label)
      (hrest : Covers key height (start + chunk.length) tiles entries) :
      Covers key height start (⟨label, start, chunk.length⟩ :: tiles) (chunk ++ entries)

namespace Covers

theorem mono {height' : ℕ} (h : Covers key height start tiles entries) (hle : height ≤ height') :
    Covers key height' start tiles entries := by
  induction h with
  | nil => exact .nil _
  | cons hpos hheight hlabel _ ih => exact .cons hpos (le_trans hheight hle) hlabel ih

theorem append (h : Covers key height start tiles entries)
    (h' : Covers key height (start + entries.length) tiles' entries') :
    Covers key height start (tiles ++ tiles') (entries ++ entries') := by
  induction h with
  | nil => exact h'
  | cons hpos hheight hlabel _ ih =>
    rw [List.cons_append, List.append_assoc]
    refine .cons hpos hheight hlabel (ih ?_)
    rw [List.length_append, ← Nat.add_assoc] at h'
    exact h'

theorem shift (h : Covers key height start tiles entries) (offset : ℕ) :
    Covers key height (start + offset) (tiles.map (Tile.shift offset)) entries := by
  induction h with
  | nil => exact .nil _
  | cons hpos hheight hlabel _ ih =>
    refine .cons hpos hheight hlabel ?_
    rw [Nat.add_right_comm]
    exact ih

/-- What holds of a tile. -/
theorem tile (h : Covers key height start tiles entries) {tile : Tile ι} (htile : tile ∈ tiles) :
    0 < tile.rows ∧ tile.rows ≤ height ∧ start ≤ tile.start ∧
      tile.start + tile.rows ≤ start + entries.length := by
  induction h with
  | nil => exact absurd htile List.not_mem_nil
  | cons hpos hheight hlabel hrest ih =>
    rw [List.length_append]
    rcases List.mem_cons.mp htile with rfl | htile
    · exact ⟨hpos, hheight, le_rfl, by simp⟩
    · obtain ⟨hrows, hle, hlow, hhigh⟩ := ih htile
      exact ⟨hrows, hle, by omega, by omega⟩

/-- The entries of a tile have its label. -/
theorem key_eq (h : Covers key height start tiles entries) {tile : Tile ι} (htile : tile ∈ tiles)
    {place : ℕ} {entry : α} (hplace : tile.Has (start + place)) (hentry : entries[place]? = some entry) :
    key entry = tile.label := by
  induction h generalizing place with
  | nil => exact absurd htile List.not_mem_nil
  | @cons start label chunk tiles entries hpos hheight hlabel hrest ih =>
    obtain ⟨hlow, hhigh⟩ := hplace
    rcases List.mem_cons.mp htile with rfl | htile
    · have hlt : place < chunk.length := Nat.add_lt_add_iff_left.mp hhigh
      rw [List.getElem?_append_left hlt] at hentry
      exact hlabel entry (List.mem_of_getElem? hentry)
    · have hstart := (hrest.tile htile).2.2.1
      have hge : chunk.length ≤ place := by omega
      have hsplit : start + chunk.length + (place - chunk.length) = start + place := by omega
      rw [List.getElem?_append_right hge] at hentry
      exact ih htile (by rw [hsplit]; exact ⟨hlow, hhigh⟩) hentry

/-- **Every entry is in one tile.** -/
theorem existsUnique (h : Covers key height start tiles entries) {place : ℕ}
    (hplace : place < entries.length) :
    ∃! index : ℕ, ∃ tile, tiles[index]? = some tile ∧ tile.Has (start + place) := by
  induction h generalizing place with
  | nil => exact absurd hplace (Nat.not_lt_zero place)
  | @cons start label chunk tiles entries hpos hheight hlabel hrest ih =>
    have hfirst : (⟨label, start, chunk.length⟩ : Tile ι).Has (start + place) ↔
        place < chunk.length := by
      simp only [Tile.Has]
      omega
    by_cases hlt : place < chunk.length
    · refine ⟨0, ⟨_, rfl, hfirst.mpr hlt⟩, ?_⟩
      rintro (_ | index) ⟨tile, htile, hhas⟩
      · rfl
      · have hstart := (hrest.tile (List.mem_of_getElem? htile)).2.2.1
        have := hhas.1
        omega
    · have hsplit : start + chunk.length + (place - chunk.length) = start + place := by omega
      rw [List.length_append] at hplace
      obtain ⟨index, ⟨tile, htile, hhas⟩, honly⟩ := ih (show place - chunk.length < entries.length by omega)
      rw [hsplit] at hhas
      refine ⟨index + 1, ⟨tile, htile, hhas⟩, ?_⟩
      rintro (_ | other) ⟨tile', htile', hhas'⟩
      · cases htile'
        exact absurd (hfirst.mp hhas') hlt
      · rw [honly other ⟨tile', htile', by rw [hsplit]; exact hhas'⟩]

end Covers

/-- **Tiles that partition the entries**: each in one tile, none higher than allowed, and the
entries of a tile with its label. -/
structure Partition (key : α → ι) (height : ℕ) (tiles : List (Tile ι)) (entries : List α) : Prop where
  rows : ∀ tile ∈ tiles, 0 < tile.rows ∧ tile.rows ≤ height ∧ tile.start + tile.rows ≤ entries.length
  once : ∀ place < entries.length, ∃! index : ℕ, ∃ tile, tiles[index]? = some tile ∧ tile.Has place
  label : ∀ tile ∈ tiles, ∀ place entry, tile.Has place → entries[place]? = some entry →
    key entry = tile.label

theorem Covers.partition (h : Covers key height 0 tiles entries) :
    Partition key height tiles entries where
  rows := by
    intro tile htile
    obtain ⟨hpos, hheight, -, hbound⟩ := h.tile htile
    rw [Nat.zero_add] at hbound
    exact ⟨hpos, hheight, hbound⟩
  once := by
    intro place hplace
    have honce := h.existsUnique hplace
    rw [Nat.zero_add] at honce
    exact honce
  label := by
    intro tile htile place entry hhas hentry
    rw [← Nat.zero_add place] at hhas
    exact h.key_eq htile hhas hentry

/-! ### Cutting -/

/-- Entries of one label in tiles. -/
def chunks (height : ℕ) (label : ι) (start count : ℕ) : List (Tile ι) :=
  (List.range ((count + height - 1) / height)).map fun index =>
    ⟨label, start + index * height, min height (count - index * height)⟩

theorem chunks_zero (hheight : 0 < height) : chunks height label start 0 = [] := by
  rw [chunks, Nat.div_eq_of_lt (by omega)]
  rfl

theorem chunks_of_pos (hheight : 0 < height) (hcount : 0 < count) :
    chunks height label start count =
      ⟨label, start, min height count⟩ ::
        chunks height label (start + min height count) (count - height) := by
  have hdiv : (count + height - 1) / height = (count - height + height - 1) / height + 1 := by
    rcases le_total count height with hle | hle
    · rw [Nat.sub_eq_zero_of_le hle, Nat.div_eq_of_lt (show 0 + height - 1 < height by omega)]
      exact Nat.div_eq_of_lt_le (by omega) (by omega)
    · rw [Nat.sub_add_cancel hle, show count + height - 1 = count - 1 + height by omega,
        Nat.add_div_right _ hheight]
  rw [chunks, hdiv, List.range_succ_eq_map, List.map_cons, List.map_map, chunks]
  congr 1
  · simp
  · refine List.map_congr_left fun index hindex => ?_
    have hlt := List.mem_range.mp hindex
    have hfull : height < count := by
      by_contra hle
      rw [Nat.sub_eq_zero_of_le (Nat.le_of_not_lt hle),
        Nat.div_eq_of_lt (show 0 + height - 1 < height by omega)] at hlt
      exact Nat.not_lt_zero _ hlt
    simp only [Function.comp_apply, Nat.min_eq_left hfull.le, Nat.succ_mul]
    congr 1
    · omega
    · omega

/-- **The chunks of entries with one key.** -/
theorem covers_chunks (hheight : 0 < height) (hkey : ∀ entry ∈ entries, key entry = label) :
    Covers key height start (chunks height label start entries.length) entries := by
  induction hlength : entries.length using Nat.strong_induction_on generalizing start entries with
  | _ count ih =>
    rcases Nat.eq_zero_or_pos count with hzero | hpos
    · subst hzero
      rw [chunks_zero hheight, List.eq_nil_of_length_eq_zero hlength]
      exact .nil _
    · have htake : (entries.take height).length = min height count := by
        rw [List.length_take, hlength]
      have hrest : Covers key height (start + min height count)
          (chunks height label (start + min height count) (count - height)) (entries.drop height) :=
        ih _ (by omega) (fun entry hentry => hkey entry (List.mem_of_mem_drop hentry))
          (by rw [List.length_drop, hlength])
      have hfirst : 0 < (entries.take height).length := by omega
      rw [← htake] at hrest
      have hcovers := Covers.cons hfirst (List.length_take_le _ _)
        (fun entry hentry => hkey entry (List.mem_of_mem_take hentry)) hrest
      rw [List.take_append_drop, htake] at hcovers
      rw [chunks_of_pos hheight hpos]
      exact hcovers

end Tiling
