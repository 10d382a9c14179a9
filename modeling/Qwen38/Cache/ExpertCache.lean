import Qwen38.Lib.UnorderedMap

/-!
# The expert cache

The cache of expert weights that the decoder layers acquire their leases from
(`ExpertCache`): a budget of bytes, entries with a frequency and a last touch, a history of
what was evicted, and a loader that runs in the middle of an acquire and may itself call
the cache.

A handle is a shared pointer, here only its control block. The references that are held
outside of the cache are a list (`ExpertCache.leases`), so that the use count of a handle
is what the cache reads in `evict_one`. A loader is a function of the state, since it may
call the cache again and take or drop references; `ExpertCall.run` builds such functions
from the public operations.
-/

namespace Qwen38

/-- `std::numeric_limits<std::size_t>::max()`. -/
def SIZE_MAX : UInt64 := 0xFFFFFFFFFFFFFFFF

structure ExpertEntry (Handle : Type) where
  value : Handle
  bytes : UInt64 := 0
  frequency : UInt64 := 1
  last_touch : UInt64 := 0
  deriving DecidableEq

structure ExpertHistory where
  frequency : UInt64
  last_touch : UInt64
  deriving DecidableEq

structure ExpertStats where
  hits : UInt64 := 0
  misses : UInt64 := 0
  evictions : UInt64 := 0
  load_failures : UInt64 := 0
  refusals : UInt64 := 0
  resident_bytes : UInt64 := 0
  peak_bytes : UInt64 := 0
  entries : UInt64 := 0
  hit_bytes : UInt64 := 0
  miss_bytes : UInt64 := 0
  history_entries : UInt64 := 0
  history_hits : UInt64 := 0
  deriving DecidableEq

/-- What the operations throw. `loader` is the loader's own exception. -/
inductive ExpertError
  | decay_period_is_zero
  | reentrant_acquire
  | reentrant_mutation
  | key_is_empty
  | size_is_zero
  | different_size
  | loader_is_empty
  | admission_refused
  | loader_returned_null
  | byte_counter_overflow
  | existing_key
  | loader (message : String)
  deriving DecidableEq

def ExpertError.what : ExpertError → String
  | .decay_period_is_zero => "expert-cache decay period is zero"
  | .reentrant_acquire => "reentrant expert-cache acquire"
  | .reentrant_mutation => "reentrant expert-cache mutation"
  | .key_is_empty => "expert-cache key is empty"
  | .size_is_zero => "expert-cache entry size is zero"
  | .different_size => "expert-cache key has a different byte size"
  | .loader_is_empty => "expert-cache loader is empty"
  | .admission_refused => "expert-cache admission refused"
  | .loader_returned_null => "expert-cache loader returned null"
  | .byte_counter_overflow => "expert-cache resident byte counter overflow"
  | .existing_key => "expert-cache insertion found an existing key"
  | .loader message => message

structure ExpertCache (Handle : Type) where
  budget_bytes : UInt64 := 0
  decay_period : UInt64
  history_limit : UInt64
  resident_bytes : UInt64 := 0
  pending_bytes : UInt64 := 0
  operations : UInt64 := 0
  tick : UInt64 := 0
  loading : Bool := false
  entries : UnorderedMap String (ExpertEntry Handle) := ∅
  history : UnorderedMap String ExpertHistory := ∅
  stats : ExpertStats := {}
  /-- The references held by the callers. -/
  leases : List Handle := []

/-- A loader: it may change the state, and returns a handle or null, or throws. -/
abbrev ExpertLoader (Handle : Type) :=
  ExpertCache Handle → ExpertCache Handle × Except String (Option Handle)

namespace ExpertCache

variable {Handle : Type} [DecidableEq Handle]

/-- The constructor. -/
def create (budget_bytes decay_period history_limit : UInt64) :
    Except ExpertError (ExpertCache Handle) :=
  if decay_period = 0 then .error .decay_period_is_zero
  else .ok { budget_bytes, decay_period, history_limit }

section Operations

variable (buckets : UnorderedMap.BucketOrder String) (s : ExpertCache Handle)

def refuse {α : Type} (reason : ExpertError) : ExpertCache Handle × Except ExpertError α :=
  ({ s with stats.refusals := s.stats.refusals + 1 }, .error reason)

def add_stat (destination value : UInt64) : UInt64 :=
  if destination > SIZE_MAX - value then SIZE_MAX else destination + value

/-- One decay of a frequency. -/
def decayed (frequency : UInt64) : UInt64 := max 1 (frequency / 2 + frequency % 2)

/-- The counter of operations, which starts again before it would wrap. -/
def next_operation : UInt64 := (if s.operations = SIZE_MAX then 0 else s.operations) + 1

def begin_operation : ExpertCache Handle :=
  if s.next_operation % s.decay_period = 0 then
    { s with
      operations := s.next_operation
      entries := s.entries.mapValues fun e => { e with frequency := decayed e.frequency }
      history := s.history.mapValues fun h => { h with frequency := decayed h.frequency } }
  else { s with operations := s.next_operation }

/-- `next_tick`: the new tick is the state's. -/
def next_tick : ExpertCache Handle :=
  if s.tick = SIZE_MAX then
    { s with
      entries := s.entries.mapValues fun e => { e with last_touch := e.last_touch / 2 }
      tick := s.tick / 2 + 1
      history := s.history.mapValues fun h => { h with last_touch := h.last_touch / 2 } }
  else { s with tick := s.tick + 1 }

def touched (tick : UInt64) (e : ExpertEntry Handle) : ExpertEntry Handle :=
  { e with
    frequency := if e.frequency ≠ SIZE_MAX then e.frequency + 1 else e.frequency
    last_touch := tick }

/-- `touch` of the entry under a key. -/
def touch (key : String) : ExpertCache Handle :=
  let s := s.next_tick
  { s with entries := s.entries.adjust key (touched s.tick) }

def sync_stats : ExpertCache Handle :=
  { s with
    stats.resident_bytes := s.resident_bytes
    stats.entries := .ofNat s.entries.size
    stats.history_entries := .ofNat s.history.size }

/-- The references to a handle: the callers' and the entries'. -/
def use_count (value : Handle) : Nat :=
  s.leases.count value + s.entries.entries.countP fun p => p.2.value = value

/-- The comparison by which a candidate replaces the one found so far. -/
def colder (e candidate : ExpertEntry Handle) : Bool :=
  e.frequency < candidate.frequency ||
    (e.frequency == candidate.frequency && e.last_touch < candidate.last_touch)

/-- One step of the iteration of `evict_one`: entries with a caller's lease are passed over. -/
def next_candidate (candidate : Option (Sigma fun _ : String => ExpertEntry Handle))
    (p : Sigma fun _ : String => ExpertEntry Handle) :
    Option (Sigma fun _ : String => ExpertEntry Handle) :=
  if s.use_count p.2.value ≠ 1 then candidate
  else match candidate with
    | none => some p
    | some c => if colder p.2 c.2 then some p else candidate

def eviction_candidate : Option (Sigma fun _ : String => ExpertEntry Handle) :=
  s.entries.entries.foldl s.next_candidate none

/-- One step of the iteration for the oldest history item. -/
def older (oldest : Option (Sigma fun _ : String => ExpertHistory))
    (p : Sigma fun _ : String => ExpertHistory) : Option (Sigma fun _ : String => ExpertHistory) :=
  match oldest with
  | none => some p
  | some o => if p.2.last_touch < o.2.last_touch then some p else oldest

def oldest_history (history : UnorderedMap String ExpertHistory) : Option String :=
  (history.entries.foldl older none).map fun p => p.1

/-- The history after an eviction. -/
def remember (key : String) (entry : ExpertEntry Handle) : UnorderedMap String ExpertHistory :=
  if s.history_limit ≠ 0 then
    let history :=
      if s.history.size ≥ s.history_limit.toNat then
        match oldest_history s.history with
        | some oldest => s.history.erase oldest
        | none => s.history
      else s.history
    history.put buckets key ⟨entry.frequency, entry.last_touch⟩
  else s.history

/-- `none` when every entry has a lease. -/
def evict_one : Option (ExpertCache Handle) :=
  match s.eviction_candidate with
  | none => none
  | some ⟨key, entry⟩ =>
    some (sync_stats
      { s with
        history := s.remember buckets key entry
        resident_bytes := s.resident_bytes - entry.bytes
        entries := s.entries.erase key
        stats.evictions := s.stats.evictions + 1 })

/-- The eviction loops: as long as more is wanted. The fuel is the number of entries. -/
def evict_while (more : ExpertCache Handle → Bool) : Nat → ExpertCache Handle →
    ExpertCache Handle × Bool
  | 0, s => (s, !more s)
  | fuel + 1, s =>
    if more s then
      match s.evict_one buckets with
      | none => (s, false)
      | some s => evict_while more fuel s
    else (s, true)

def make_room (bytes : UInt64) : ExpertCache Handle × Bool :=
  if bytes > s.budget_bytes || s.pending_bytes > s.budget_bytes - bytes then (s, false)
  else
    let reserved := s.pending_bytes + bytes
    let resident_limit := s.budget_bytes - reserved
    evict_while buckets (fun s => s.resident_bytes > resident_limit) s.entries.size s

/-- The `catch` of an acquire. -/
def roll_back (bytes : UInt64) (reason : ExpertError) : ExpertCache Handle × Except ExpertError Handle :=
  (sync_stats
    { s with
      pending_bytes := s.pending_bytes - bytes
      loading := false
      stats.load_failures := s.stats.load_failures + 1 }, .error reason)

/-- The entry is stored and the reservation becomes resident. -/
def commit (key : String) (bytes : UInt64) (loaded : Handle) :
    ExpertCache Handle × Except ExpertError Handle :=
  if s.resident_bytes > SIZE_MAX - bytes then s.roll_back bytes .byte_counter_overflow
  else
    let frequency := match s.history.lookup key with
      | none => 1
      | some h => h.frequency + (if h.frequency ≠ SIZE_MAX then 1 else 0)
    let s := s.next_tick
    if s.entries.lookup key |>.isSome then s.roll_back bytes .existing_key
    else
      let entries := s.entries.put buckets key ⟨loaded, bytes, frequency, s.tick⟩
      let history_hits :=
        s.stats.history_hits + (if (s.history.lookup key).isSome then 1 else 0)
      (sync_stats
        { s with
          entries
          history := s.history.erase key
          pending_bytes := s.pending_bytes - bytes
          loading := false
          resident_bytes := s.resident_bytes + bytes
          stats.history_hits := history_hits
          stats.peak_bytes := max s.stats.peak_bytes (s.resident_bytes + bytes)
          leases := loaded :: s.leases }, .ok loaded)

def count_hit (bytes : UInt64) : ExpertCache Handle :=
  { s with
    stats.hits := s.stats.hits + 1
    stats.hit_bytes := add_stat s.stats.hit_bytes bytes }

def count_miss (bytes : UInt64) : ExpertCache Handle :=
  { s with
    stats.misses := s.stats.misses + 1
    stats.miss_bytes := add_stat s.stats.miss_bytes bytes }

/-- A hit: the caller gets another reference. -/
def hit (key : String) (entry : ExpertEntry Handle) (bytes : UInt64) :
    ExpertCache Handle × Except ExpertError Handle :=
  let s := (s.count_hit bytes).touch key
  ({ s with leases := entry.value :: s.leases }, .ok entry.value)

/-- The reservation under which a loader runs. -/
def reserve (bytes : UInt64) : ExpertCache Handle :=
  { s with pending_bytes := s.pending_bytes + bytes, loading := true }

/-- The `try` of an acquire. -/
def try_load (key : String) (bytes : UInt64) (loader : ExpertLoader Handle) :
    ExpertCache Handle × Except ExpertError Handle :=
  match loader (s.reserve bytes) with
  | (s, .error message) => s.roll_back bytes (.loader message)
  | (s, .ok none) => s.roll_back bytes .loader_returned_null
  | (s, .ok (some loaded)) => s.commit buckets key bytes loaded

/-- A miss: room is made, and the loader runs. -/
def miss (key : String) (bytes : UInt64) (loader : Option (ExpertLoader Handle)) :
    ExpertCache Handle × Except ExpertError Handle :=
  match loader with
  | none => s.refuse .loader_is_empty
  | some loader =>
    match s.make_room buckets bytes with
    | (s, false) => s.refuse .admission_refused
    | (s, true) => s.try_load buckets key bytes loader

def acquire (key : String) (bytes : UInt64) (loader : Option (ExpertLoader Handle)) :
    ExpertCache Handle × Except ExpertError Handle :=
  if s.loading then s.refuse .reentrant_acquire
  else if key.isEmpty then s.refuse .key_is_empty
  else if bytes = 0 then s.refuse .size_is_zero
  else
    let s := s.begin_operation
    match s.entries.lookup key with
    | some entry =>
      if entry.bytes ≠ bytes then s.refuse .different_size else s.hit key entry bytes
    | none => (s.count_miss bytes).miss buckets key bytes loader

/-- The loop of `trim`. -/
def trim_loop : ExpertCache Handle × Bool :=
  let (s, reached) :=
    evict_while buckets (fun s => s.resident_bytes > s.budget_bytes) s.entries.size s
  (s.sync_stats, reached)

def trim : ExpertCache Handle × Except ExpertError Bool :=
  if s.loading then (s, .error .reentrant_mutation)
  else
    let (s, reached) := s.trim_loop buckets
    (s, .ok reached)

def set_budget (bytes : UInt64) : ExpertCache Handle × Except ExpertError Bool :=
  if s.loading then (s, .error .reentrant_mutation)
  else trim buckets { s with budget_bytes := bytes }

def clear : ExpertCache Handle × Except ExpertError Unit :=
  if s.loading then (s, .error .reentrant_mutation)
  else
    let (s, _) := evict_while buckets (fun _ => true) s.entries.size s
    (sync_stats { s with history := ∅ }, .ok ())

end Operations

end ExpertCache

/-! ### Callers -/

mutual

/-- What a caller can do: an operation of the cache, or taking or dropping a reference. -/
inductive ExpertCall (Handle : Type)
  | acquire (key : String) (bytes : UInt64) (loader : ExpertCallback Handle)
  | set_budget (bytes : UInt64)
  | trim
  | clear
  | hold (value : Handle)
  | drop (value : Handle)

/-- A loader as the caller writes it: the calls that it makes and how it ends. -/
inductive ExpertCallback (Handle : Type)
  | empty
  | function (body : List (ExpertCall Handle)) (result : Except String (Option Handle))

end

/-- What a call returns. -/
inductive ExpertAnswer (Handle : Type)
  | lease (value : Handle)
  | reached (budget : Bool)
  | done
  deriving DecidableEq

section Run

variable {Handle : Type} [DecidableEq Handle] (buckets : UnorderedMap.BucketOrder String)

mutual

/-- One call of the outermost caller or of a loader. -/
def ExpertCall.run (s : ExpertCache Handle) :
    ExpertCall Handle → ExpertCache Handle × Except ExpertError (ExpertAnswer Handle)
  | .acquire key bytes loader =>
    (s.acquire buckets key bytes loader.run).map id (Except.map .lease)
  | .set_budget bytes => (s.set_budget buckets bytes).map id (Except.map .reached)
  | .trim => (s.trim buckets).map id (Except.map .reached)
  | .clear => (s.clear buckets).map id (Except.map fun _ => .done)
  | .hold value => ({ s with leases := value :: s.leases }, .ok .done)
  | .drop value => ({ s with leases := s.leases.erase value }, .ok .done)

def ExpertCallback.run : ExpertCallback Handle → Option (ExpertLoader Handle)
  | .empty => none
  | .function body result => some fun s => (ExpertCall.runs s body, result)

/-- Several calls, one after the other. -/
def ExpertCall.runs (s : ExpertCache Handle) : List (ExpertCall Handle) → ExpertCache Handle
  | [] => s
  | call :: calls => ExpertCall.runs (call.run s).1 calls

end

end Run

end Qwen38
