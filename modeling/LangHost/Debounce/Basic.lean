import LangHost.Agenda
import LangHost.Debounce.Ledger
/-!
# Debouncing

Actions that start a while after they were asked for, unless another one for the same key is asked
for before: then only the later one starts. Once started, an action can go on for some time; from
then on nothing stops it.
-/

namespace LangHost

/-- What waits in the agenda of a debouncer. -/
inductive Debouncer.Job (κ α β : Type) where
  /-- An action that has not started, under its number in the ledger. -/
  | fire (key : κ) (id : Nat) (action : α)
  /-- What is left of an action that has started. -/
  | resume (work : β)

/-- Delayed actions `α` by key, and what is left to do `β` of started ones. -/
structure Debouncer (κ α β : Type) where
  ledger : Ledger κ := {}
  agenda : Agenda (Debouncer.Job κ α β) := []

namespace Debouncer

variable {κ α β : Type}

/-- Whether a job is the action with the given number. -/
def Job.hasId (id : Nat) : Job κ α β → Bool
  | .fire _ i _ => i == id
  | .resume _ => false

/-- Whether a job is an action that has not started. -/
def Job.isFire : Job κ α β → Bool
  | .fire _ _ _ => true
  | .resume _ => false

/-- Takes an action out of the agenda. -/
def abort (d : Debouncer κ α β) (id : Option Nat) : Debouncer κ α β :=
  match id with
  | none => d
  | some id => { d with agenda := d.agenda.filter fun e => !e.job.hasId id }

/-- Enters what is left of an action that goes on for a while. -/
def suspend (d : Debouncer κ α β) (now duration : Nat) (work : β) : Debouncer κ α β :=
  { d with agenda := d.agenda ++ [⟨Agenda.dueAfter now duration, .resume work⟩] }

/-- Takes every action that has not started out of the agenda and forgets it. -/
def cancelAll (d : Debouncer κ α β) : Debouncer κ α β where
  ledger := d.ledger.clear
  agenda := d.agenda.filter fun e => !e.job.isFire

variable [DecidableEq κ]

/-- Asks for an action. It replaces the one that is pending for its key. -/
def trigger (d : Debouncer κ α β) (now : Nat) (key : κ) (delay : Nat) (action : α) :
    Debouncer κ α β where
  ledger := d.ledger.enter key
  agenda := (d.abort (d.ledger.id? key)).agenda ++
    [⟨Agenda.dueAfter now delay, .fire key d.ledger.nextId action⟩]

/-- Takes back the action that is pending for a key. -/
def cancel (d : Debouncer κ α β) (key : κ) : Debouncer κ α β :=
  { d.abort (d.ledger.id? key) with ledger := d.ledger.erase key }

/-- Whether an action is pending for a key. -/
def isPending (d : Debouncer κ α β) (key : κ) : Bool := d.ledger.isPending key

/-- How many actions are pending. -/
def pendingCount (d : Debouncer κ α β) : Nat := d.ledger.count

end Debouncer

end LangHost
