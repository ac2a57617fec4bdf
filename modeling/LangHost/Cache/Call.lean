import LangHost.Cache.Basic
/-!
# Calls on a cache

What can be asked of a cache at one moment, as data. The computation of a `get` is the list of
calls that it makes on the same cache and then its outcome, so calls nest to any depth.
-/

namespace LangHost.Cache

variable {κ ν ε : Type}

/-- A clock as calls find it. It stands still until it is moved, or else it runs, but less than a
millisecond while calls are made. Times are whole milliseconds. -/
structure Clock where
  time : Nat
  running : Bool := false

/-- The time from which calls look back. On a running clock all that was done before lies a part
of a millisecond back, for which the time is rounded up. -/
def Clock.present (k : Clock) : Nat := if k.running then k.time + 1 else k.time

/-- A call on a cache. -/
inductive Call (κ ν ε : Type) where
  | get (key : κ) (version : Int) (kind : String) (during : List (Call κ ν ε))
      (outcome : Except ε ν)
  | remove (key : κ)
  | contains (key : κ)
  | removeIdle (maxIdle : Nat)
  | configure (limits : Limits)
  | dispose
  | size

/-- What a call answers. -/
inductive Reply (ν ε : Type) where
  /-- The value or the failure of a `get`, and the replies to the calls of its computation if it
  was computed. -/
  | got (result : Except ε (Stamped ν)) (during : Option (List (Reply ν ε)))
  | flag (b : Bool)
  | count (n : Nat)
  /-- Whether the limits put in force ask for sweeps. -/
  | sweeps (b : Bool)
  | done

variable [DecidableEq κ]

mutual

/-- The cache after a call, and the reply. -/
def Call.run (clock : Clock) (c : Cache κ ν) : Call κ ν ε → Cache κ ν × Reply ν ε
  | .get key version kind during outcome =>
    let (c', replies, result) := c.get clock.time key version kind fun c =>
      let (c', replies) := Call.runAll clock c during
      (c', replies, outcome)
    (c', .got result replies)
  | .remove key => (c.remove key, .flag (c.contains key))
  | .contains key => (c, .flag (c.contains key))
  | .removeIdle maxIdle =>
    let c' := c.removeIdle maxIdle clock.present
    (c', .count (c.size - c'.size))
  | .configure limits => (c.configure limits clock.time, .sweeps limits.sweeps)
  | .dispose => (c.dispose, .done)
  | .size => (c, .count c.size)

/-- The cache after some calls, and their replies. -/
def Call.runAll (clock : Clock) (c : Cache κ ν) : List (Call κ ν ε) → Cache κ ν × List (Reply ν ε)
  | [] => (c, [])
  | call :: rest =>
    let (c', reply) := Call.run clock c call
    let (c'', replies) := Call.runAll clock c' rest
    (c'', reply :: replies)

end

end LangHost.Cache
