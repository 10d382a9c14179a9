import Qwen38.Lib.LittleEndian
import Qwen38.Text.ChatTemplate

/-!
# The store of prefix states on disk

A stored prefix is two files with one stem, the tokens and the state, and the stem is a hash
of the tokens. `save` writes both under temporary names and renames them, the state first;
`load_longest` looks at every file of tokens that has a state beside it, compares the tokens
with the prompt, and takes the longest that fits; `evict_to_limit` and `clear` remove files.

Every file operation may fail. What fails is chosen by the environment and passed to the
operation, as is the order in which a directory is listed; a write that fails may leave
anything under its name. The reading and writing of the states themselves is a parameter,
`StateFiles`.
-/

namespace Qwen38

namespace PrefixStore

/-! ### Files -/

/-- A regular file: what it holds, and when it was last written. -/
structure File where
  content : Bytes
  modified : Nat
  deriving DecidableEq

/-- The regular files of the store's directory, by name. -/
abbrev Files := Bytes → Option File

/-- A directory without files. -/
def Files.empty : Files := fun _ => none

/-- A file under a name. -/
def Files.put (files : Files) (name : Bytes) (file : Option File) : Files :=
  Function.update files name file

/-- `std::filesystem::rename` that succeeds. -/
def Files.rename (files : Files) (old new : Bytes) : Files :=
  (files.put new (files old)).put old none

/-- `std::filesystem::remove`, when it does not fail. -/
def Files.remove (files : Files) (name : Bytes) (fails : Bool) : Files :=
  if fails then files else files.put name none

/-- `path::extension` of a file name: from the last period on, unless the name starts with
it. -/
def extension (name : Bytes) : Bytes :=
  if 46 ∈ name.tail then 46 :: name.rtakeWhile (· ≠ 46) else []

/-- `path::stem` of a file name. -/
def stem (name : Bytes) : Bytes := name.take (name.length - (extension name).length)

/-! ### Files of tokens -/

/-- `token_magic`. -/
def token_magic : Bytes := ascii ['Q', '3', '8', 'P', 'F', 'X', '1', '\x00']

/-- `token_header_bytes`. -/
def token_header_bytes : Nat := token_magic.length + 8

/-- What `write_tokens` writes. -/
def token_file (tokens : List UInt32) : Bytes :=
  token_magic ++ LittleEndian.bytes 8 tokens.length ++
    (tokens.map UInt32.toNat).flatMap (LittleEndian.bytes 4)

/-- `read_tokens` of a file that can be opened and read. -/
def read_tokens (content : Bytes) (maximum_count : Nat) : Option (List UInt32) :=
  let count := LittleEndian.value ((content.drop token_magic.length).take 8)
  if content.length < token_header_bytes ∨ content.take token_magic.length ≠ token_magic ∨
      maximum_count < count then none
  else if content.length ≠ token_header_bytes + count * 4 then none
  else some ((LittleEndian.values 4 count (content.drop token_header_bytes)).map UInt32.ofNat)

/-- `fnv1a_tokens`. -/
def fnv1a_tokens (tokens : List UInt32) : UInt64 :=
  let hash := tokens.foldl (fun hash token =>
    [(0 : UInt32), 8, 16, 24].foldl (fun hash shift =>
      (hash ^^^ (token >>> shift).toUInt8.toUInt64) * 1099511628211) hash) 14695981039346656037
  (hash ^^^ tokens.length.toUInt64) * 1099511628211

/-- `cache_key`: the hash in 16 hexadecimal digits, and the length. -/
def cache_key (tokens : List UInt32) : Bytes :=
  ascii ((Nat.toDigits 16 (fnv1a_tokens tokens).toNat).leftpad 16 '0') ++ ascii ['-'] ++
    ascii (Nat.toDigits 10 tokens.length)

/-- The extension of the files of tokens. -/
def tokens_extension : Bytes := ascii ['.', 't', 'o', 'k', 'e', 'n', 's']

/-- The extension of the files of states. -/
def state_extension : Bytes :=
  ascii ['.', 's', 'a', 'f', 'e', 't', 'e', 'n', 's', 'o', 'r', 's']

/-- The mark of a temporary name. -/
def temporary_mark : Bytes := ascii ['.', 't', 'm', 'p', '-']

/-- `temporary_path`, for a value of the counter. -/
def temporary_path (destination suffix : Bytes) (counter : Nat) : Bytes :=
  destination ++ temporary_mark ++ ascii (Nat.toDigits 10 counter) ++ suffix

/-- `recognized_cache_file`, for a file in a directory of this path. -/
def recognized_cache_file (directory name : Bytes) : Bool :=
  extension name = tokens_extension || extension name = state_extension ||
    (Search.find temporary_mark (directory ++ ascii ['/'] ++ name)).isSome

/-! ### The store -/

/-- The parts of a persisted state that the store looks at, and how it is written to a file
and read from one; `none` is where the source throws. -/
structure StateFiles (State : Type) where
  token_count : State → Nat
  layer_count : State → Nat
  save_prefix_state : State → Bytes
  load_prefix_state : Bytes → Nat → Option State

/-- `PrefixCacheStore`. -/
structure Store (State : Type) extends StateFiles State where
  directory : Bytes
  max_bytes : Nat
  model_layer_count : Nat

/-- What the operations change: the files, and the counter of temporary names. -/
structure Disk where
  files : Files
  temporary_counter : Nat

/-- How a write ends: with the whole file, or broken off with what it left behind. -/
inductive Write
  | done
  | failed (left : Option File)

/-- A file is written at a time. -/
def Write.put (write : Write) (files : Files) (name content : Bytes) (now : Nat) : Files :=
  match write with
  | .done => files.put name (some ⟨content, now⟩)
  | .failed left => files.put name left

/-- What fails in an eviction. -/
structure EvictionFaults where
  /-- A listing or a query that throws. -/
  throws : Bool
  /-- The names whose query reports an error. -/
  unqueried : Bytes → Bool
  /-- The names whose removal fails. -/
  kept : Bytes → Bool

/-- What fails in a save, up to its eviction. -/
structure SaveFaults where
  state_written : Write
  tokens_written : Write
  state_rename_fails : Bool
  tokens_rename_fails : Bool
  tokens_kept : Bool
  state_kept : Bool

/-- What fails in a load. -/
structure LoadFaults where
  /-- A listing or a query that throws. -/
  throws : Bool
  /-- The files of tokens that cannot be opened or read. -/
  unreadable : Bytes → Bool
  /-- The state cannot be read. -/
  state_unreadable : Bool
  /-- The names whose time of writing cannot be set. -/
  untouched : Bytes → Bool

/-- An entry of `evict_to_limit`. -/
structure Entry where
  token_path : Bytes
  state_path : Bytes
  modified : Nat
  bytes : Nat

section Operations

variable {State : Type} (store : Store State)

/-- The state beside a file of tokens. -/
def state_path_of (name : Bytes) : Bytes := stem name ++ state_extension

/-- The pair of a file of tokens, when there is one. -/
def entry_of (files : Files) (unqueried : Bytes → Bool) (name : Bytes) : Option Entry :=
  if extension name ≠ tokens_extension then none
  else
    match files name, files (state_path_of name) with
    | some token_file, some state_file =>
      if unqueried name || unqueried (state_path_of name) then none
      else some ⟨name, state_path_of name, token_file.modified,
        token_file.content.length + state_file.content.length⟩
    | _, _ => none

/-- The loop of `evict_to_limit` over the entries, oldest first. -/
def evict_entries (kept : Bytes → Bool) : Nat → List Entry → Files → Files
  | _, [], files => files
  | total, entry :: entries, files =>
    if total ≤ store.max_bytes then files
    else
      let files := (files.remove entry.token_path (kept entry.token_path)).remove entry.state_path
        (kept entry.state_path)
      evict_entries kept (total - entry.bytes) entries files

/-- `evict_to_limit`, on the names in the order they are listed, which also is the order of
entries of one age; `none` where it throws. -/
def evict_to_limit (faults : EvictionFaults) (listing : List Bytes) (files : Files) :
    Option Files :=
  if faults.throws then none
  else
    let entries := listing.filterMap (entry_of files faults.unqueried)
    let total := (entries.map Entry.bytes).sum
    let oldest_first := entries.mergeSort fun a b => decide (a.modified ≤ b.modified)
    some (evict_entries store faults.kept total oldest_first files)

/-- `save`, up to its eviction: whether the pair is in place, or why it throws. -/
def save_pair (faults : SaveFaults) (now : Nat) (tokens : List UInt32) (state : State)
    (disk : Disk) : Disk × Bool :=
  let token_path := cache_key tokens ++ tokens_extension
  let state_path := cache_key tokens ++ state_extension
  let temporary_tokens := temporary_path token_path tokens_extension disk.temporary_counter
  let temporary_state := temporary_path state_path state_extension (disk.temporary_counter + 1)
  let finish := fun (files : Files) (done : Bool) =>
    ((⟨files, disk.temporary_counter + 2⟩, done) : Disk × Bool)
  let cleanup := fun (files : Files) =>
    finish ((files.remove temporary_tokens faults.tokens_kept).remove temporary_state
      faults.state_kept) false
  let files := faults.state_written.put disk.files temporary_state (store.save_prefix_state state) now
  match faults.state_written with
  | .failed _ => cleanup files
  | .done =>
    let files := faults.tokens_written.put files temporary_tokens (token_file tokens) now
    match faults.tokens_written with
    | .failed _ => cleanup files
    | .done =>
      if faults.state_rename_fails then cleanup files
      else
        let files := files.rename temporary_state state_path
        if faults.tokens_rename_fails then cleanup files
        else finish (files.rename temporary_tokens token_path) true

/-- The result of `save`. -/
inductive Saved
  | stored
  | refused
  | thrown
  deriving DecidableEq

/-- `save`. -/
def save (faults : SaveFaults) (eviction : EvictionFaults) (listing : List Bytes) (now : Nat)
    (tokens : List UInt32) (state : State) (disk : Disk) : Disk × Saved :=
  if tokens = [] then (disk, .refused)
  else if store.token_count state ≠ tokens.length ∨
      store.layer_count state ≠ store.model_layer_count then (disk, .thrown)
  else
    let (disk, done) := save_pair store faults now tokens state disk
    if done = false then (disk, .thrown)
    else
      match evict_to_limit store eviction listing disk.files with
      | none => (disk, .thrown)
      | some files =>
        let present := fun (name : Bytes) => (files name).isSome && !eviction.unqueried name
        (⟨files, disk.temporary_counter⟩,
          if present (cache_key tokens ++ tokens_extension) &&
            present (cache_key tokens ++ state_extension) then .stored else .refused)

/-- One file of the loop of `load_longest`: the best candidate so far is replaced by a longer
one. -/
def consider (files : Files) (prompt : List UInt32) (unreadable : Bytes → Bool)
    (best : List UInt32 × Bytes) (name : Bytes) : List UInt32 × Bytes :=
  if extension name ≠ tokens_extension then best
  else
    match files name, files (state_path_of name) with
    | some file, some _ =>
      match if unreadable name then none else read_tokens file.content prompt.length with
      | none => best
      | some candidate =>
        if candidate.length ≤ best.1.length ∨ ¬candidate <+: prompt then best
        else (candidate, name)
    | _, _ => best

/-- `last_write_time`, when it does not fail. -/
def touch (files : Files) (name : Bytes) (now : Nat) (fails : Bool) : Files :=
  if fails then files
  else files.put name ((files name).map fun file => { file with modified := now })

/-- `load_longest`, on the names in the order they are listed. It returns the tokens and the
state; `none` also where it throws. -/
def load_longest (faults : LoadFaults) (listing : List Bytes) (now : Nat) (prompt : List UInt32)
    (disk : Disk) : Disk × Option (List UInt32 × State) :=
  if faults.throws then (disk, none)
  else
    let best := listing.foldl (consider disk.files prompt faults.unreadable) ([], [])
    if best.1 = [] then (disk, none)
    else
      match disk.files (state_path_of best.2) with
      | none => (disk, none)
      | some file =>
        match if faults.state_unreadable then none
          else store.load_prefix_state file.content store.model_layer_count with
        | none => (disk, none)
        | some state =>
          if store.token_count state ≠ best.1.length then (disk, none)
          else
            let files := touch (touch disk.files best.2 now (faults.untouched best.2))
              (state_path_of best.2) now (faults.untouched (state_path_of best.2))
            ({ disk with files := files }, some (best.1, state))

/-- `clear`, on the names it has come to before it ended; `kept` are those whose removal
fails. -/
def clear (kept : Bytes → Bool) (listing : List Bytes) (disk : Disk) : Disk :=
  { disk with
    files := listing.foldl (fun files name =>
      if recognized_cache_file store.directory name then files.remove name (kept name)
      else files) disk.files }

/-! ### Runs -/

/-- An operation on the store, with what the environment chooses. -/
inductive Operation (State : Type)
  | save (tokens : List UInt32) (state : State) (faults : SaveFaults) (eviction : EvictionFaults)
    (listing : List Bytes) (now : Nat)
  | load_longest (prompt : List UInt32) (faults : LoadFaults) (listing : List Bytes) (now : Nat)
  | clear (kept : Bytes → Bool) (listing : List Bytes)

/-- What an operation leaves on the disk. -/
def step (disk : Disk) : Operation State → Disk
  | .save tokens state faults eviction listing now =>
    (save store faults eviction listing now tokens state disk).1
  | .load_longest prompt faults listing now => (load_longest store faults listing now prompt disk).1
  | .clear kept listing => clear store kept listing disk

/-- The disk after operations on an empty directory. -/
def run (operations : List (Operation State)) : Disk :=
  operations.foldl (step store) ⟨Files.empty, 0⟩

end Operations

end PrefixStore

end Qwen38
