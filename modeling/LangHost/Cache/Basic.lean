/-!
# The model cache

A cache keeps one computed value for each key, for as long as version and kind of what it was
computed from stay the same. It is bounded in two ways: an entry too many drives out the least
recently used one, and a sweep drops entries that were not used for a while.

Times are milliseconds on a clock that the cache does not own: every operation that needs the time
takes it as an argument. A computation can use the cache itself while it runs.
-/

namespace LangHost

/-- The bounds of a cache. Times are in milliseconds. -/
structure Cache.Limits where
  maxEntries : Nat := 10
  /-- How long an entry may lie unused before a sweep drops it. -/
  ttl : Nat := 60000
  /-- The time between sweeps. -/
  sweepInterval : Nat := 60000
  deriving DecidableEq, Repr

namespace Cache

/-- Whether the limits ask for sweeps: a zero in either time turns them off. -/
def Limits.sweeps (l : Limits) : Bool := l.ttl != 0 && l.sweepInterval != 0

theorem Limits.sweepInterval_pos (l : Limits) (h : l.sweeps) : 0 < l.sweepInterval := by
  simp only [sweeps, Bool.and_eq_true, bne_iff_ne, ne_eq] at h
  omega

/-- How many entries the limits allow. There is always room for one. -/
def Limits.capacity (l : Limits) : Nat := max 1 l.maxEntries

/-- A computed value with the number of the computation that made it, so that two computations
with equal results can be told apart. -/
structure Stamped (ν : Type) where
  serial : Nat
  value : ν
  deriving DecidableEq, Repr

/-- A cached value, what it was computed from and when it was last used. -/
structure Entry (κ ν : Type) where
  key : κ
  version : Int
  kind : String
  stored : Stamped ν
  lastAccess : Nat
  /-- The number of the last use among all uses, which orders uses at one time. -/
  accessSeq : Nat

/-- Counters of what happened to a cache. -/
structure Stats where
  hits : Nat := 0
  misses : Nat := 0
  /-- Entries driven out by others. -/
  evictions : Nat := 0
  /-- Entries dropped for lying unused. -/
  expirations : Nat := 0
  deriving DecidableEq, Repr

/-- The sweeps to come: at `next` and then once every `interval`. -/
structure Sweep where
  next : Nat
  interval : Nat
  ttl : Nat
  interval_pos : 0 < interval

/-- The sweeps that the limits ask for when they come into force at the given time. -/
def Limits.sweep? (l : Limits) (now : Nat) : Option Sweep :=
  if h : l.sweeps then
    some ⟨now + l.sweepInterval, l.sweepInterval, l.ttl, l.sweepInterval_pos h⟩
  else none

end Cache

/-- A bounded store of computed values. -/
structure Cache (κ ν : Type) where
  entries : List (Cache.Entry κ ν)
  capacity : Nat
  nextSeq : Nat
  stats : Cache.Stats
  sweep : Option Cache.Sweep
  disposed : Bool

namespace Cache

variable {κ ν ε α : Type}

/-- An empty cache, made at the given time. -/
def new (limits : Limits) (now : Nat) : Cache κ ν where
  entries := []
  capacity := limits.capacity
  nextSeq := 0
  stats := {}
  sweep := limits.sweep? now
  disposed := false

/-- The number of entries. -/
def size (c : Cache κ ν) : Nat := c.entries.length

/-- Whether the first entry was used before the second. -/
def Entry.olderThan (a b : Entry κ ν) : Bool :=
  decide (a.lastAccess < b.lastAccess ∨ a.lastAccess = b.lastAccess ∧ a.accessSeq < b.accessSeq)

/-- The least recently used of an entry and some more. -/
def oldest (e : Entry κ ν) (rest : List (Entry κ ν)) : Entry κ ν :=
  rest.foldl (fun a b => if b.olderThan a then b else a) e

section Keyed

variable [DecidableEq κ]

/-- The entries without that of a key. -/
def without (key : κ) (entries : List (Entry κ ν)) : List (Entry κ ν) :=
  entries.filter fun e => e.key ≠ key

/-- The entry of a key. -/
def entry? (c : Cache κ ν) (key : κ) : Option (Entry κ ν) :=
  c.entries.find? fun e => e.key = key

/-- Whether a key has an entry, whatever it was computed from. -/
def contains (c : Cache κ ν) (key : κ) : Bool := (c.entry? key).isSome

/-- Drops the least recently used entries, as many as told. -/
def evict : Nat → Cache κ ν → Cache κ ν
  | 0, c => c
  | n + 1, c =>
    match c.entries with
    | [] => c
    | e :: rest =>
      evict n { c with
        entries := without (oldest e rest).key c.entries
        stats := { c.stats with evictions := c.stats.evictions + 1 } }

/-- Drops the least recently used entries beyond the capacity. -/
def trim (c : Cache κ ν) : Cache κ ν := c.evict (c.size - c.capacity)

/-- The entry that serves a key at a version and a kind. -/
def hit? (c : Cache κ ν) (key : κ) (version : Int) (kind : String) : Option (Entry κ ν) :=
  (c.entry? key).filter fun e => e.version = version ∧ e.kind = kind

/-- Puts an entry in the place of the one of its key. -/
def put (c : Cache κ ν) (e : Entry κ ν) : Cache κ ν :=
  { c with entries := e :: without e.key c.entries, nextSeq := c.nextSeq + 1 }

/-- Notes the use of an entry. -/
def touch (c : Cache κ ν) (e : Entry κ ν) (now : Nat) : Cache κ ν :=
  let c := c.put { e with lastAccess := now, accessSeq := c.nextSeq }
  { c with stats := { c.stats with hits := c.stats.hits + 1 } }

/-- Notes that a value has to be computed. -/
def miss (c : Cache κ ν) : Cache κ ν :=
  { c with stats := { c.stats with misses := c.stats.misses + 1 } }

/-- Keeps a computed value, unless the cache has been disposed of. -/
def keep (c : Cache κ ν) (now : Nat) (key : κ) (version : Int) (kind : String)
    (stored : Stamped ν) : Cache κ ν :=
  if c.disposed then c
  else (c.put ⟨key, version, kind, stored, now, c.nextSeq⟩).trim

/-- The value of a key at a version and a kind. It is computed when no entry serves it, and a
failed computation leaves nothing behind. The computation gets the cache, hands it back, and can
add a note of what it did; the note is missing when nothing was computed. -/
def get (c : Cache κ ν) (now : Nat) (key : κ) (version : Int) (kind : String)
    (compute : Cache κ ν → Cache κ ν × α × Except ε ν) :
    Cache κ ν × Option α × Except ε (Stamped ν) :=
  match c.hit? key version kind with
  | some e => (c.touch e now, none, .ok e.stored)
  | none =>
    match compute c.miss with
    | (c', note, .error e) => (c', some note, .error e)
    | (c', note, .ok v) =>
      let stored := ⟨c.stats.misses, v⟩
      (c'.keep now key version kind stored, some note, .ok stored)

/-- Drops the entry of a key. -/
def remove (c : Cache κ ν) (key : κ) : Cache κ ν :=
  { c with entries := without key c.entries }

/-- Puts new limits in force. After disposal they are ignored. -/
def configure (c : Cache κ ν) (limits : Limits) (now : Nat) : Cache κ ν :=
  if c.disposed then c
  else
    let trimmed := trim { c with capacity := limits.capacity }
    { trimmed with sweep := limits.sweep? now }

end Keyed

/-- Whether an entry has not been used for longer than told. -/
def Entry.idle (e : Entry κ ν) (maxIdle now : Nat) : Bool := decide (e.lastAccess + maxIdle < now)

/-- Drops the entries that have not been used for longer than told. -/
def removeIdle (c : Cache κ ν) (maxIdle now : Nat) : Cache κ ν :=
  let kept := c.entries.filter fun e => !e.idle maxIdle now
  { c with
    entries := kept
    stats := { c.stats with
      expirations := c.stats.expirations + (c.entries.length - kept.length) } }

/-- Ends the sweeps and drops every entry, for good. -/
def dispose (c : Cache κ ν) : Cache κ ν :=
  if c.disposed then c else { c with entries := [], sweep := none, disposed := true }

/-- The cache after the given sweeps up to a time; the rest of them is still to come. -/
def sweepUntil (now : Nat) (s : Sweep) (c : Cache κ ν) : Cache κ ν :=
  if s.next ≤ now then
    sweepUntil now { s with next := s.next + s.interval } (c.removeIdle s.ttl s.next)
  else { c with sweep := some s }
termination_by now + 1 - s.next
decreasing_by
  have := s.interval_pos
  omega

/-- The cache after all sweeps up to a time. -/
def advance (c : Cache κ ν) (now : Nat) : Cache κ ν :=
  match c.sweep with
  | none => c
  | some s => sweepUntil now s c

/-- The share of lookups that an entry served; zero when there were none. -/
def Stats.hitRate (s : Stats) : Float :=
  if s.hits + s.misses = 0 then 0
  else s.hits.toUInt64.toFloat / (s.hits + s.misses).toUInt64.toFloat

end Cache

end LangHost
