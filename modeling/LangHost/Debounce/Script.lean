import LangHost.Debounce.Basic
/-!
# Scripted debouncing

A debouncer at work on actions that are given as data: an action makes some calls on the debouncer
it was started by, then goes on for some time, and then ends or crashes. What is asked for, what
starts and what ends is logged with its time.
-/

namespace LangHost.Debounce

/-- A call on a debouncer. -/
inductive Command (κ α : Type) where
  | trigger (key : κ) (delay : Nat) (action : α)
  | cancel (key : κ)
  | cancelAll
  | isPending (key : κ)
  | pendingCount

/-- What a call answers. -/
inductive Reply where
  | done
  | flag (b : Bool)
  | count (n : Nat)
  deriving DecidableEq, Repr

/-- An action. -/
structure Action (κ : Type) where
  label : String
  /-- What it asks of the debouncer when it starts. -/
  calls : List (Command κ (Action κ))
  /-- How long it goes on after that. -/
  duration : Nat
  /-- Whether it crashes instead of coming to its end. -/
  crashes : Bool

/-- What is left of a started action. -/
structure Ending (κ : Type) where
  label : String
  key : κ
  crashes : Bool

/-- What was asked of a debouncer, and what it did. Actions go by their numbers in the ledger. -/
inductive Event (κ : Type) where
  | triggered (id : Nat) (label : String) (key : κ) (time delay : Nat)
  | cancelled (key : κ) (time : Nat)
  | cancelledAll (time : Nat)
  /-- An action started; `pending` says whether its key had work pending then, and `replies` are
  those to the calls it made. -/
  | started (id : Nat) (label : String) (key : κ) (time : Nat) (pending : Bool)
      (replies : List Reply)
  | ended (label : String) (key : κ) (time : Nat)

variable {κ : Type}

mutual

/-- A bound on how often an action, and all that it can lead to, has to be attended to. -/
def Action.weight : Action κ → Nat
  | ⟨_, calls, _, _⟩ => 2 + Command.weightAll calls

/-- The weight of the action that a call asks for. -/
def Command.weight : Command κ (Action κ) → Nat
  | .trigger _ _ action => action.weight
  | .cancel _ => 0
  | .cancelAll => 0
  | .isPending _ => 0
  | .pendingCount => 0

/-- The weight of the actions that some calls ask for. -/
def Command.weightAll : List (Command κ (Action κ)) → Nat
  | [] => 0
  | call :: rest => call.weight + Command.weightAll rest

end

theorem Action.weight_eq (a : Action κ) : a.weight = 2 + Command.weightAll a.calls := by
  cases a; rfl

/-- The debouncer of scripted actions. -/
abbrev Scripted (κ : Type) := Debouncer κ (Action κ) (Ending κ)

/-- The weight of a job. -/
def jobWeight : Debouncer.Job κ (Action κ) (Ending κ) → Nat
  | .fire _ _ action => action.weight
  | .resume _ => 1

theorem weight_abort_le (d : Scripted κ) (id : Option Nat) :
    (d.abort id).agenda.weight jobWeight ≤ d.agenda.weight jobWeight := by
  cases id with
  | none => exact Nat.le_refl _
  | some id => exact Agenda.weight_filter_le ..

section Calls

variable [DecidableEq κ]

/-- The debouncer after a call at the given time, and the reply. -/
def Command.run (now : Nat) (d : Scripted κ) : Command κ (Action κ) → Scripted κ × Reply
  | .trigger key delay action => (d.trigger now key delay action, .done)
  | .cancel key => (d.cancel key, .flag (d.isPending key))
  | .cancelAll => (d.cancelAll, .count d.pendingCount)
  | .isPending key => (d, .flag (d.isPending key))
  | .pendingCount => (d, .count d.pendingCount)

/-- What a call at the given time leaves in the log. Questions leave nothing. -/
def Command.event? (now : Nat) (d : Scripted κ) : Command κ (Action κ) → Option (Event κ)
  | .trigger key delay action => some (.triggered d.ledger.nextId action.label key now delay)
  | .cancel key => some (.cancelled key now)
  | .cancelAll => some (.cancelledAll now)
  | .isPending _ => none
  | .pendingCount => none

/-- The debouncer after some calls, their replies, and what they leave in the log, latest first. -/
def Command.runAll (now : Nat) (d : Scripted κ) :
    List (Command κ (Action κ)) → Scripted κ × List Reply × List (Event κ)
  | [] => (d, [], [])
  | call :: rest =>
    let (d', reply) := call.run now d
    let (d'', replies, events) := Command.runAll now d' rest
    (d'', reply :: replies, events ++ (call.event? now d).toList)

theorem Command.weight_run_le (now : Nat) (d : Scripted κ) (call : Command κ (Action κ)) :
    (call.run now d).1.agenda.weight jobWeight ≤ d.agenda.weight jobWeight + call.weight := by
  cases call with
  | trigger key delay action =>
    have := weight_abort_le d (d.ledger.id? key)
    simp only [run, Debouncer.trigger, Agenda.weight_append, Agenda.weight, jobWeight, weight]
    omega
  | cancel key =>
    have := weight_abort_le d (d.ledger.id? key)
    simpa [run, Debouncer.cancel, weight] using this
  | cancelAll => simpa [run, Debouncer.cancelAll, weight] using Agenda.weight_filter_le ..
  | isPending key => simp [run]
  | pendingCount => simp [run]

theorem Command.weight_runAll_le (now : Nat) (d : Scripted κ) (calls : List (Command κ (Action κ))) :
    (Command.runAll now d calls).1.agenda.weight jobWeight ≤
      d.agenda.weight jobWeight + Command.weightAll calls := by
  induction calls generalizing d with
  | nil => simp [runAll]
  | cons call rest ih =>
    have h₁ := ih (call.run now d).1
    have h₂ := call.weight_run_le now d
    simp only [runAll, weightAll]
    omega

end Calls

/-- A debouncer at work: the time, and the log of what happened, latest first. -/
structure Session (κ : Type) where
  clock : Nat := 0
  debouncer : Scripted κ := {}
  log : List (Event κ) := []

namespace Session

/-- Comes to the end of an action. -/
def finish (s : Session κ) (e : Ending κ) : Session κ :=
  if e.crashes then s else { s with log := .ended e.label e.key s.clock :: s.log }

/-- The weight of all work that waits. -/
def weight (s : Session κ) : Nat := s.debouncer.agenda.weight jobWeight

theorem weight_finish (s : Session κ) (e : Ending κ) : (s.finish e).weight = s.weight := by
  unfold finish; split <;> rfl

variable [DecidableEq κ]

/-- Starts an action, unless it is no longer the one that its key waits for. -/
def fire (s : Session κ) (key : κ) (id : Nat) (a : Action κ) : Session κ :=
  match s.debouncer.ledger.redeem? key id with
  | none => s
  | some ledger =>
    let d := { s.debouncer with ledger }
    let (d', replies, events) := Command.runAll s.clock d a.calls
    let s' := { s with
      debouncer := d'
      log := events ++ Event.started id a.label key s.clock (d.isPending key) replies :: s.log }
    let ending : Ending κ := ⟨a.label, key, a.crashes⟩
    if a.duration = 0 then s'.finish ending
    else { s' with debouncer := s'.debouncer.suspend s.clock a.duration ending }

/-- Does a job that has come due. -/
def perform (s : Session κ) : Debouncer.Job κ (Action κ) (Ending κ) → Session κ
  | .fire key id action => s.fire key id action
  | .resume ending => s.finish ending

/-- The session with a job taken out of the agenda at the time it is due. -/
def take (s : Session κ) (due : Nat) (rest : Agenda (Debouncer.Job κ (Action κ) (Ending κ))) :
    Session κ :=
  { s with clock := max s.clock due, debouncer := { s.debouncer with agenda := rest } }

theorem weight_perform_lt (s : Session κ) (job : Debouncer.Job κ (Action κ) (Ending κ)) :
    (s.perform job).weight < s.weight + jobWeight job := by
  cases job with
  | resume ending => simp [perform, weight_finish, jobWeight]
  | fire key id action =>
    simp only [perform, fire, jobWeight, Action.weight_eq]
    split
    · omega
    · rename_i ledger _
      have h := Command.weight_runAll_le s.clock { s.debouncer with ledger } action.calls
      split
      · rw [weight_finish]
        simp only [weight] at h ⊢
        omega
      · simp only [weight, Debouncer.suspend, Agenda.weight_append, Agenda.weight, jobWeight] at h ⊢
        omega

/-- The session after all that is due by the given time, each job done at its own time. -/
def runUntil (s : Session κ) (limit : Nat) : Session κ :=
  match _h : s.debouncer.agenda.firstBy? limit with
  | none => { s with clock := max s.clock limit }
  | some (e, rest) => ((s.take e.due rest).perform e.job).runUntil limit
termination_by s.weight
decreasing_by
  have h₁ := Agenda.weight_firstBy? jobWeight _h
  have h₂ := (s.take e.due rest).weight_perform_lt e.job
  simp only [weight, take] at h₁ h₂ ⊢
  omega

/-- The session after all that is due by now. -/
def settle (s : Session κ) : Session κ := s.runUntil s.clock

/-- The session at the end of a sleep. What comes due at that very moment has not been done yet. -/
def sleep (s : Session κ) (duration : Nat) : Session κ :=
  let wake := Agenda.dueAfter s.clock duration
  if s.clock < wake then { s.runUntil (wake - 1) with clock := wake } else s

/-- The session after a call, and the reply. -/
def call (s : Session κ) (command : Command κ (Action κ)) : Session κ × Reply :=
  let (d, reply) := command.run s.clock s.debouncer
  ({ s with debouncer := d, log := (command.event? s.clock s.debouncer).toList ++ s.log }, reply)

/-- The session after the debouncer is given up: pending actions never start. -/
def drop (s : Session κ) : Session κ :=
  { s with debouncer := s.debouncer.cancelAll, log := .cancelledAll s.clock :: s.log }

end Session

end LangHost.Debounce
