/-!
# Ledgers of pending work

A ledger holds at most one pending piece of work for each key, under a number that no other work
ever gets. Work that comes due is done only if the ledger still holds its number: by this alone,
replaced and cancelled work does nothing when it comes due.
-/

namespace LangHost

/-- The pending work of each key, by its number. -/
structure Ledger (κ : Type) where
  nextId : Nat := 0
  records : List (κ × Nat) := []

namespace Ledger

variable {κ : Type} [DecidableEq κ]

/-- The number of the work pending for a key. -/
def id? (l : Ledger κ) (key : κ) : Option Nat := l.records.lookup key

/-- Whether work is pending for a key. -/
def isPending (l : Ledger κ) (key : κ) : Bool := (l.id? key).isSome

/-- How many keys have work pending. -/
def count (l : Ledger κ) : Nat := l.records.length

/-- Forgets the work of a key. -/
def erase (l : Ledger κ) (key : κ) : Ledger κ :=
  { l with records := l.records.filter fun r => r.1 ≠ key }

/-- Enters new work for a key, in place of the work it had. Its number is the old `nextId`. -/
def enter (l : Ledger κ) (key : κ) : Ledger κ where
  nextId := l.nextId + 1
  records := (key, l.nextId) :: (l.erase key).records

/-- Forgets all work. -/
def clear (l : Ledger κ) : Ledger κ := { l with records := [] }

/-- Takes the work of a key out, if it still has the given number. -/
def redeem? (l : Ledger κ) (key : κ) (id : Nat) : Option (Ledger κ) :=
  if l.id? key = some id then some (l.erase key) else none

end Ledger

end LangHost
