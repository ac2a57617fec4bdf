import LangHost.Debounce.Script
import LangHost.Proofs.Debounce.Basic
/-!
# The law of debouncing

What becomes of an action that was asked for can be read off the log: it starts once, at the moment
it is due, or a later call for its key takes it back before that, or it still waits. The law holds
whatever is called and whenever, also from inside of actions, and however actions end.
-/

namespace LangHost.Debounce

variable {κ : Type} [DecidableEq κ]

/-! ## Sessions -/

namespace Session

/-- What can happen to a session: someone calls or drops the debouncer, at any moment; one of the
jobs due first is done; or time passes, but not beyond a job. -/
inductive Step : Session κ → Session κ → Prop where
  | call (s : Session κ) (c : Command κ (Action κ)) : Step s (s.call c).1
  | drop (s : Session κ) : Step s s.drop
  | job {s : Session κ} (front back : Agenda (Debouncer.Job κ (Action κ) (Ending κ)))
      (item : Agenda.Item (Debouncer.Job κ (Action κ) (Ending κ)))
      (h : s.debouncer.agenda = front ++ item :: back)
      (first : ∀ x ∈ s.debouncer.agenda, item.due ≤ x.due) :
      Step s ((s.take item.due (front ++ back)).perform item.job)
  | time {s : Session κ} (t : Nat) (h : ∀ x ∈ s.debouncer.agenda, t ≤ x.due) :
      Step s { s with clock := max s.clock t }

/-- The sessions that come about from a new debouncer. -/
inductive Reached : Session κ → Prop where
  | init : Reached {}
  | step {s s' : Session κ} : Reached s → Step s s' → Reached s'

theorem clock_perform (s : Session κ) (job : Debouncer.Job κ (Action κ) (Ending κ)) :
    (s.perform job).clock = s.clock := by
  have hfinish (s : Session κ) (e : Ending κ) : (s.finish e).clock = s.clock := by
    unfold finish; split <;> rfl
  cases job with
  | resume ending => exact hfinish s ending
  | fire key id action =>
    simp only [perform, fire]
    split
    · rfl
    · split
      · rw [hfinish]
      · rfl

/-- All that is due by a time is done by such steps, and then nothing due by that time is left. -/
theorem Reached.runUntil {s : Session κ} (h : Reached s) (limit : Nat) :
    Reached (s.runUntil limit) ∧ (s.runUntil limit).clock = max s.clock limit ∧
      ∀ x ∈ (s.runUntil limit).debouncer.agenda, limit < x.due := by
  fun_induction Session.runUntil s limit with
  | case1 s hnone =>
    have hlate := Agenda.firstBy?_eq_none hnone
    exact ⟨h.step (.time limit fun x hx => Nat.le_of_lt (hlate x hx)), rfl, hlate⟩
  | case2 s item rest hsome ih =>
    obtain ⟨hdue, front, back, hagenda, rfl, hfirst⟩ := Agenda.firstBy?_eq_some hsome
    obtain ⟨hreached, hclock, hlate⟩ := ih (h.step (.job front back item hagenda hfirst))
    refine ⟨hreached, ?_, hlate⟩
    rw [hclock, clock_perform]
    simp only [take]
    omega

/-- So a sleep is made of such steps. -/
theorem Reached.sleep {s : Session κ} (h : Reached s) (duration : Nat) : Reached (s.sleep duration) := by
  simp only [Session.sleep]
  split
  · rename_i hwake
    obtain ⟨hreached, hclock, hlate⟩ := h.runUntil (Agenda.dueAfter s.clock duration - 1)
    have hstep := hreached.step (.time (Agenda.dueAfter s.clock duration) fun x hx => by
      have := hlate x hx; omega)
    rwa [hclock, Nat.max_eq_right (by omega)] at hstep
  · exact h

end Session

/-! ## Reading the log -/

/-- When something was logged. -/
def Event.time : Event κ → Nat
  | .triggered _ _ _ time _ => time
  | .cancelled _ time => time
  | .cancelledAll time => time
  | .started _ _ _ time _ _ => time
  | .ended _ _ time => time

/-- Whether the action with the given number started. -/
def Event.starts (id : Nat) : Event κ → Bool
  | .started i _ _ _ _ _ => i = id
  | _ => false

/-- Whether a call takes back what is pending for a key. -/
def Event.supersedes (key : κ) : Event κ → Bool
  | .triggered _ _ k _ _ => k = key
  | .cancelled k _ => k = key
  | .cancelledAll _ => true
  | _ => false

/-- What becomes of an action after it was asked for, by the agenda and by what was logged since,
latest first. -/
inductive Fate (agenda : Agenda (Debouncer.Job κ (Action κ) (Ending κ))) (id : Nat) (label : String)
    (key : κ) (due : Nat) (later : List (Event κ)) : Prop where
  | waiting (action : Action κ) (item : ⟨due, .fire key id action⟩ ∈ agenda)
      (named : action.label = label)
      (quiet : ∀ x ∈ later, x.starts id = false ∧ x.supersedes key = false)
  | started (after before : List (Event κ)) {pending : Bool} {replies : List Reply}
      (split : later = after ++ .started id label key due pending replies :: before)
      (quiet : ∀ x ∈ before, x.starts id = false ∧ x.supersedes key = false)
      (once : ∀ x ∈ after, x.starts id = false) (gone : ∀ e ∈ agenda, e.job.hasId id = false)
  | superseded (after before : List (Event κ)) {x : Event κ} (split : later = after ++ x :: before)
      (call : x.supersedes key = true) (early : x.time ≤ due)
      (never : ∀ y ∈ later, y.starts id = false) (gone : ∀ e ∈ agenda, e.job.hasId id = false)

namespace Fate

variable {agenda agenda' : Agenda (Debouncer.Job κ (Action κ) (Ending κ))} {id due : Nat}
  {label : String} {key : κ} {later : List (Event κ)} {x : Event κ}

/-- The agenda changes, but not where the action is concerned. -/
theorem of_agenda (h : Fate agenda id label key due later)
    (hkeep : ∀ a, ⟨due, .fire key id a⟩ ∈ agenda → ⟨due, .fire key id a⟩ ∈ agenda')
    (hgone : (∀ e ∈ agenda, e.job.hasId id = false) → ∀ e ∈ agenda', e.job.hasId id = false) :
    Fate agenda' id label key due later := by
  cases h with
  | waiting action item named quiet => exact .waiting action (hkeep _ item) named quiet
  | started after before split quiet once gone =>
    exact .started after before split quiet once (hgone gone)
  | superseded after before split call early never gone =>
    exact .superseded after before split call early never (hgone gone)

/-- Something is logged that does not concern the action. -/
theorem cons (h : Fate agenda id label key due later) (hstart : x.starts id = false)
    (hcall : x.supersedes key = false) : Fate agenda id label key due (x :: later) := by
  cases h with
  | waiting action item named quiet =>
    exact .waiting action item named (List.forall_mem_cons.2 ⟨⟨hstart, hcall⟩, quiet⟩)
  | started after before split quiet once gone =>
    exact .started (x :: after) before (by rw [split]; rfl) quiet
      (List.forall_mem_cons.2 ⟨hstart, once⟩) gone
  | superseded after before split call early never gone =>
    exact .superseded (x :: after) before (by rw [split]; rfl) call early
      (List.forall_mem_cons.2 ⟨hstart, never⟩) gone

/-- A call takes back what is pending for the key of the action. -/
theorem supersede (h : Fate agenda id label key due later) (hstart : x.starts id = false)
    (hcall : x.supersedes key = true) (early : ∀ e ∈ agenda, x.time ≤ e.due)
    (gone : ∀ e ∈ agenda', e.job.hasId id = false) : Fate agenda' id label key due (x :: later) := by
  cases h with
  | waiting _ item _ quiet =>
    refine .superseded [] later rfl hcall (early _ item) ?_ gone
    exact List.forall_mem_cons.2 ⟨hstart, fun y hy => (quiet y hy).1⟩
  | started after before split quiet once _ =>
    exact .started (x :: after) before (by rw [split]; rfl) quiet
      (List.forall_mem_cons.2 ⟨hstart, once⟩) gone
  | superseded after before split call early' never _ =>
    exact .superseded (x :: after) before (by rw [split]; rfl) call early'
      (List.forall_mem_cons.2 ⟨hstart, never⟩) gone

/-- What the agenda holds under the number of the action is the action, and it still waits. -/
theorem of_mem {d : Scripted κ} (h : Fate d.agenda id label key due later) (hd : d.Coherent)
    {due' : Nat} {k : κ} {a : Action κ} (hmem : ⟨due', .fire k id a⟩ ∈ d.agenda) :
    due' = due ∧ k = key ∧ a.label = label ∧
      ∀ x ∈ later, x.starts id = false ∧ x.supersedes key = false := by
  cases h with
  | waiting _ item named quiet =>
    obtain ⟨rfl, rfl, rfl⟩ := hd.unique item hmem
    exact ⟨rfl, rfl, named, quiet⟩
  | started _ _ _ _ _ gone => simpa [Debouncer.Job.hasId] using gone _ hmem
  | superseded _ _ _ _ _ _ gone => simpa [Debouncer.Job.hasId] using gone _ hmem

/-- The action is not in the agenda once the number of its key is taken out. -/
theorem gone_of_abort {d : Scripted κ} (h : Fate d.agenda id label key due later) (hd : d.Coherent) :
    ∀ e ∈ (d.abort (d.ledger.id? key)).agenda, e.job.hasId id = false := by
  rintro ⟨due', job⟩ he
  cases job with
  | resume _ => rfl
  | fire k i a =>
    cases hi : (.fire k i a : Debouncer.Job κ (Action κ) (Ending κ)).hasId id with
    | false => rfl
    | true =>
      obtain rfl : i = id := by simpa [Debouncer.Job.hasId] using hi
      obtain ⟨-, rfl, -, -⟩ := h.of_mem hd (Debouncer.mem_abort.1 he).1
      exact absurd rfl (hd.ne_of_mem_abort he)

end Fate

/-! ## The invariant -/

/-- Every action in the log has its fate, and its number is one that nothing had before. -/
def Accounted (agenda : Agenda (Debouncer.Job κ (Action κ) (Ending κ))) (nextId : Nat)
    (log : List (Event κ)) : Prop :=
  ∀ later id label key time delay earlier,
    log = later ++ .triggered id label key time delay :: earlier →
      id < nextId ∧ (∀ x ∈ earlier, x.starts id = false) ∧
        Fate agenda id label key (Agenda.dueAfter time delay) later

/-- The invariant of sessions. -/
structure Lawful (s : Session κ) : Prop where
  coherent : s.debouncer.Coherent
  ahead : ∀ e ∈ s.debouncer.agenda, s.clock ≤ e.due
  numbered : ∀ x ∈ s.log, ∀ id, x.starts id = true → id < s.debouncer.ledger.nextId
  accounted : Accounted s.debouncer.agenda s.debouncer.ledger.nextId s.log

namespace Accounted

variable {agenda agenda' : Agenda (Debouncer.Job κ (Action κ) (Ending κ))} {nextId nextId' : Nat}
  {log : List (Event κ)}

theorem of_agenda (h : Accounted agenda nextId log)
    (hold : ∀ id label key due later, Fate agenda id label key due later →
      Fate agenda' id label key due later) : Accounted agenda' nextId log := by
  intro later id label key time delay earlier hlog
  obtain ⟨hid, hfresh, hfate⟩ := h later id label key time delay earlier hlog
  exact ⟨hid, hfresh, hold _ _ _ _ _ hfate⟩

/-- Something is logged. -/
theorem cons (h : Accounted agenda nextId log) (x : Event κ) (hnext : nextId ≤ nextId')
    (hnew : ∀ id label key time delay, x = .triggered id label key time delay →
      id < nextId' ∧ (∀ y ∈ log, y.starts id = false) ∧
        Fate agenda' id label key (Agenda.dueAfter time delay) [])
    (hold : ∀ id label key due later, id < nextId → Fate agenda id label key due later →
      Fate agenda' id label key due (x :: later)) : Accounted agenda' nextId' (x :: log) := by
  intro later id label key time delay earlier hlog
  cases later with
  | nil =>
    obtain ⟨rfl, rfl⟩ := List.cons.inj hlog
    exact hnew _ _ _ _ _ rfl
  | cons y later =>
    obtain ⟨rfl, hrest⟩ := List.cons.inj hlog
    obtain ⟨hid, hfresh, hfate⟩ := h later id label key time delay earlier hrest
    exact ⟨Nat.lt_of_lt_of_le hid hnext, hfresh, hold _ _ _ _ _ hid hfate⟩

end Accounted

namespace Lawful

variable {s : Session κ}

theorem le_dueAfter (now delay : Nat) : now ≤ Agenda.dueAfter now delay := Nat.le_add_right _ _

theorem trigger (h : Lawful s) (key : κ) (delay : Nat) (action : Action κ) :
    Lawful (s.call (.trigger key delay action)).1 where
  coherent := h.coherent.trigger _ _ _ _
  ahead e he := by
    rcases Debouncer.mem_trigger.1 he with he | rfl
    · exact h.ahead e (Debouncer.mem_abort.1 he).1
    · exact le_dueAfter _ _
  numbered x hx id hid := by
    rcases List.mem_cons.1 hx with rfl | hx
    · cases hid
    · exact Nat.lt_succ_of_lt (h.numbered x hx id hid)
  accounted := by
    refine h.accounted.cons _ (Nat.le_succ _) ?_ ?_
    · intro id label k time delay heq
      cases heq
      refine ⟨Nat.lt_succ_self _, fun y hy => ?_, .waiting action ?_ rfl (by simp)⟩
      · cases hstart : y.starts s.debouncer.ledger.nextId with
        | false => rfl
        | true => exact absurd (h.numbered y hy _ hstart) (Nat.lt_irrefl _)
      · exact Debouncer.mem_trigger.2 (.inr rfl)
    · intro id label k due later hid hfate
      -- the new action has another number
      have hother : (.fire key s.debouncer.ledger.nextId action :
          Debouncer.Job κ (Action κ) (Ending κ)).hasId id = false := by
        simpa [Debouncer.Job.hasId] using (Nat.ne_of_lt hid).symm
      by_cases hk : key = k
      · subst hk
        refine hfate.supersede rfl (by simp [Event.supersedes]) h.ahead fun e he => ?_
        rcases Debouncer.mem_trigger.1 he with he | rfl
        · exact hfate.gone_of_abort h.coherent e he
        · exact hother
      · refine (hfate.of_agenda ?_ ?_).cons rfl (by simp [Event.supersedes, hk])
        · intro a ha
          exact Debouncer.mem_trigger.2 (.inl (h.coherent.mem_abort_of_ne ha (Ne.symm hk)))
        · intro hgone e he
          rcases Debouncer.mem_trigger.1 he with he | rfl
          · exact hgone e (Debouncer.mem_abort.1 he).1
          · exact hother

theorem cancel (h : Lawful s) (key : κ) : Lawful (s.call (.cancel key)).1 where
  coherent := h.coherent.cancel key
  ahead e he := h.ahead e (Debouncer.mem_abort.1 (Debouncer.mem_cancel.1 he)).1
  numbered x hx id hid := by
    rcases List.mem_cons.1 hx with rfl | hx
    · cases hid
    · exact h.numbered x hx id hid
  accounted := by
    refine h.accounted.cons _ (Nat.le_refl _) (fun _ _ _ _ _ heq => by cases heq) ?_
    intro id label k due later _ hfate
    by_cases hk : key = k
    · subst hk
      exact hfate.supersede rfl (by simp [Event.supersedes]) h.ahead (hfate.gone_of_abort h.coherent)
    · refine (hfate.of_agenda ?_ ?_).cons rfl (by simp [Event.supersedes, hk])
      · intro a ha
        exact Debouncer.mem_cancel.2 (h.coherent.mem_abort_of_ne ha (Ne.symm hk))
      · intro hgone e he
        exact hgone e (Debouncer.mem_abort.1 (Debouncer.mem_cancel.1 he)).1

theorem cancelAll (h : Lawful s) : Lawful (s.call .cancelAll).1 where
  coherent := h.coherent.cancelAll
  ahead e he := h.ahead e (Debouncer.mem_cancelAll.1 he).1
  numbered x hx id hid := by
    rcases List.mem_cons.1 hx with rfl | hx
    · cases hid
    · exact h.numbered x hx id hid
  accounted := by
    refine h.accounted.cons _ (Nat.le_refl _) (fun _ _ _ _ _ heq => by cases heq) ?_
    intro id label k due later _ hfate
    refine hfate.supersede rfl rfl h.ahead ?_
    rintro ⟨due', job⟩ he
    cases job with
    | resume _ => rfl
    | fire k i a => simpa [Debouncer.Job.isFire] using (Debouncer.mem_cancelAll.1 he).2

theorem call (h : Lawful s) (c : Command κ (Action κ)) : Lawful (s.call c).1 := by
  cases c with
  | trigger key delay action => exact h.trigger key delay action
  | cancel key => exact h.cancel key
  | cancelAll => exact h.cancelAll
  | isPending _ => exact h
  | pendingCount => exact h

/-- The calls that an action makes when it starts are calls like any other. -/
theorem runAll (h : Lawful s) (calls : List (Command κ (Action κ))) :
    Lawful { s with
      debouncer := (Command.runAll s.clock s.debouncer calls).1
      log := (Command.runAll s.clock s.debouncer calls).2.2 ++ s.log } := by
  induction calls generalizing s with
  | nil => exact h
  | cons c calls ih =>
    have hrest := ih (h.call c)
    simp only [Command.runAll, Session.call, List.append_assoc] at hrest ⊢
    exact hrest

theorem finish (h : Lawful s) (e : Ending κ) : Lawful (s.finish e) := by
  unfold Session.finish
  split
  · exact h
  · refine ⟨h.coherent, h.ahead, ?_, ?_⟩
    · intro x hx id hid
      rcases List.mem_cons.1 hx with rfl | hx
      · cases hid
      · exact h.numbered x hx id hid
    · exact h.accounted.cons _ (Nat.le_refl _) (fun _ _ _ _ _ heq => by cases heq)
        fun _ _ _ _ _ _ hfate => hfate.cons rfl rfl

theorem suspend (h : Lawful s) (duration : Nat) (e : Ending κ) :
    Lawful { s with debouncer := s.debouncer.suspend s.clock duration e } where
  coherent := h.coherent.suspend _ _ _
  ahead x hx := by
    rcases Debouncer.mem_suspend.1 hx with hx | rfl
    · exact h.ahead x hx
    · exact le_dueAfter _ _
  numbered := h.numbered
  accounted := by
    refine h.accounted.of_agenda fun id label key due later hfate => hfate.of_agenda ?_ ?_
    · exact fun a ha => Debouncer.mem_suspend.2 (.inl ha)
    · intro hgone x hx
      rcases Debouncer.mem_suspend.1 hx with hx | rfl
      · exact hgone x hx
      · rfl

variable {front back : Agenda (Debouncer.Job κ (Action κ) (Ending κ))} {due : Nat}

theorem ahead_rest {item : Agenda.Item (Debouncer.Job κ (Action κ) (Ending κ))} (h : Lawful s)
    (hagenda : s.debouncer.agenda = front ++ item :: back)
    (hfirst : ∀ x ∈ s.debouncer.agenda, item.due ≤ x.due) :
    ∀ e ∈ front ++ back, max s.clock item.due ≤ e.due := by
  intro e he
  have hmem := Agenda.mem_of_mem_rest hagenda he
  exact Nat.max_le.2 ⟨h.ahead e hmem, hfirst e hmem⟩

/-- The session with an action taken out of the agenda and of the ledger, and logged as started. -/
theorem fired {id : Nat} {key : κ} {a : Action κ} (h : Lawful s)
    (hagenda : s.debouncer.agenda = front ++ ⟨due, .fire key id a⟩ :: back)
    (hfirst : ∀ x ∈ s.debouncer.agenda, due ≤ x.due) (pending : Bool) (replies : List Reply) :
    Lawful ({
      clock := max s.clock due
      debouncer := ⟨s.debouncer.ledger.erase key, front ++ back⟩
      log := .started id a.label key (max s.clock due) pending replies :: s.log } : Session κ) := by
  have hmem : ⟨due, .fire key id a⟩ ∈ s.debouncer.agenda := by rw [hagenda]; simp
  refine ⟨h.coherent.fired hagenda, h.ahead_rest hagenda hfirst, ?_, ?_⟩
  · intro x hx i hi
    rcases List.mem_cons.1 hx with rfl | hx
    · obtain rfl : id = i := by simpa [Event.starts] using hi
      exact h.coherent.numbered.bound _ _ (h.coherent.held _ _ _ _ hmem)
    · exact h.numbered x hx i hi
  · refine h.accounted.cons _ (Nat.le_refl _) (fun _ _ _ _ _ heq => by cases heq) ?_
    intro i label k due' later _ hfate
    by_cases hi : i = id
    · -- it is the action that was taken out, at the time it is due
      subst hi
      obtain ⟨rfl, rfl, rfl, quiet⟩ := hfate.of_mem h.coherent hmem
      rw [Nat.max_eq_right (h.ahead _ hmem)]
      exact .started [] later rfl quiet (by simp)
        (h.coherent.gone hagenda (by simp [Debouncer.Job.hasId]))
    · refine (hfate.of_agenda ?_ ?_).cons (by simp [Event.starts, Ne.symm hi]) rfl
      · intro a' ha'
        rw [hagenda] at ha'
        rcases List.mem_append.1 ha' with ha' | ha'
        · exact List.mem_append_left _ ha'
        · rcases List.mem_cons.1 ha' with heq | ha'
          · cases heq
            exact absurd rfl hi
          · exact List.mem_append_right _ ha'
      · exact fun hgone e he => hgone e (Agenda.mem_of_mem_rest hagenda he)

/-- The session with the end of an action taken out of the agenda. -/
theorem resumed {ending : Ending κ} (h : Lawful s)
    (hagenda : s.debouncer.agenda = front ++ ⟨due, .resume ending⟩ :: back)
    (hfirst : ∀ x ∈ s.debouncer.agenda, due ≤ x.due) : Lawful (s.take due (front ++ back)) where
  coherent := h.coherent.resumed hagenda
  ahead := h.ahead_rest hagenda hfirst
  numbered := h.numbered
  accounted := by
    refine h.accounted.of_agenda fun id label key due' later hfate => hfate.of_agenda ?_ ?_
    · intro a ha
      rw [hagenda] at ha
      simpa [Session.take] using ha
    · exact fun hgone e he => hgone e (Agenda.mem_of_mem_rest hagenda he)

theorem job {item : Agenda.Item (Debouncer.Job κ (Action κ) (Ending κ))} (h : Lawful s)
    (hagenda : s.debouncer.agenda = front ++ item :: back)
    (hfirst : ∀ x ∈ s.debouncer.agenda, item.due ≤ x.due) :
    Lawful ((s.take item.due (front ++ back)).perform item.job) := by
  obtain ⟨due, job⟩ := item
  cases job with
  | resume ending => exact (h.resumed hagenda hfirst).finish ending
  | fire key id a =>
    have hid : s.debouncer.ledger.id? key = some id :=
      h.coherent.held due key id a (by rw [hagenda]; simp)
    -- what is still in the agenda is what its key waits for
    have hredeem := Ledger.redeem?_eq_some.2 ⟨hid, rfl⟩
    simp only [Session.perform, Session.fire, Session.take, hredeem]
    have hcalls := (h.fired hagenda hfirst
      ((⟨s.debouncer.ledger.erase key, front ++ back⟩ : Scripted κ).isPending key)
      (Command.runAll (max s.clock due) ⟨s.debouncer.ledger.erase key, front ++ back⟩ a.calls).2.1).runAll
        a.calls
    split
    · exact hcalls.finish _
    · exact hcalls.suspend _ _

theorem step {s' : Session κ} (h : Lawful s) (hstep : Session.Step s s') : Lawful s' := by
  cases hstep with
  | call c => exact h.call c
  | drop => exact h.cancelAll
  | job front back item hagenda hfirst => exact h.job hagenda hfirst
  | time t ht =>
    exact ⟨h.coherent, fun e he => Nat.max_le.2 ⟨h.ahead e he, ht e he⟩, h.numbered, h.accounted⟩

end Lawful

theorem lawful_of_reached {s : Session κ} (h : Session.Reached s) : Lawful s := by
  induction h with
  | init =>
    refine ⟨⟨⟨?_, ?_⟩, ?_, .nil⟩, ?_, ?_, ?_⟩
    · intro k i hi
      cases hi
    · intro k k' i hi
      cases hi
    · intro due k i a hmem
      cases hmem
    · intro e he
      cases he
    · intro x hx
      cases hx
    · intro later id label key time delay earlier hlog
      simp at hlog
  | step _ hstep ih => exact ih.step hstep

/-! ## The law -/

/-- A call took back what was pending for a key by the given time, and before the action with the
given number started. What was logged since the action was asked for stands latest first. -/
def TakenBack (key : κ) (id due : Nat) (later : List (Event κ)) : Prop :=
  ∃ after x before, later = after ++ x :: before ∧ x.supersedes key = true ∧ x.time ≤ due ∧
    ∀ y ∈ before, y.starts id = false

namespace Fate

variable {agenda : Agenda (Debouncer.Job κ (Action κ) (Ending κ))} {id due : Nat} {label : String}
  {key : κ} {later : List (Event κ)}

theorem countP_le_one (h : Fate agenda id label key due later) :
    later.countP (·.starts id) ≤ 1 := by
  have hnone {l : List (Event κ)} (hl : ∀ x ∈ l, x.starts id = false) : l.countP (·.starts id) = 0 :=
    List.countP_eq_zero.2 fun x hx => by simp [hl x hx]
  cases h with
  | waiting _ _ _ quiet => rw [hnone fun x hx => (quiet x hx).1]; exact Nat.zero_le _
  | superseded _ _ _ _ _ never _ => rw [hnone never]; exact Nat.zero_le _
  | started after before split quiet once _ =>
    rw [split, List.countP_append, List.countP_cons, hnone once, hnone fun x hx => (quiet x hx).1]
    split <;> omega

theorem eq_started (h : Fate agenda id label key due later) {x : Event κ} (hx : x ∈ later)
    (hstart : x.starts id = true) :
    ∃ pending replies, x = .started id label key due pending replies := by
  cases h with
  | waiting _ _ _ quiet => simp [(quiet x hx).1] at hstart
  | superseded _ _ _ _ _ never _ => simp [never x hx] at hstart
  | @started after before pending replies split quiet once _ =>
    rw [split] at hx
    rcases List.mem_append.1 hx with hx | hx
    · simp [once x hx] at hstart
    · rcases List.mem_cons.1 hx with rfl | hx
      · exact ⟨pending, replies, rfl⟩
      · simp [(quiet x hx).1] at hstart

/-- What started was not taken back. -/
theorem not_takenBack (h : Fate agenda id label key due later) {x : Event κ} (hx : x ∈ later)
    (hstart : x.starts id = true) : ¬ TakenBack key id due later := by
  cases h with
  | waiting _ _ _ quiet => simp [(quiet x hx).1] at hstart
  | superseded _ _ _ _ _ never _ => simp [never x hx] at hstart
  | @started after before pending replies split quiet once _ =>
    rintro ⟨after', y, before', hlater, hcall, -, hbefore⟩
    -- the call stands before the start or after it
    rw [split, List.append_eq_append_iff] at hlater
    rcases hlater with ⟨l, rfl, hl⟩ | ⟨l, rfl, hl⟩
    · cases l with
      | nil =>
        obtain ⟨rfl, -⟩ := List.cons.inj hl
        cases hcall
      | cons z l =>
        obtain ⟨rfl, rfl⟩ := List.cons.inj hl
        have := (quiet y (by simp)).2
        simp [hcall] at this
    · cases l with
      | nil =>
        obtain ⟨rfl, -⟩ := List.cons.inj hl
        cases hcall
      | cons z l =>
        obtain ⟨rfl, rfl⟩ := List.cons.inj hl
        have := hbefore (.started id label key due pending replies) (by simp)
        simp [Event.starts] at this

/-- What neither waits nor started was taken back. -/
theorem takenBack (h : Fate agenda id label key due later) (hdone : ∀ e ∈ agenda, due < e.due)
    (hno : ∀ x ∈ later, x.starts id = false) : TakenBack key id due later := by
  cases h with
  | waiting _ item _ _ => exact absurd (hdone _ item) (Nat.lt_irrefl _)
  | @started _ _ pending replies split _ _ _ =>
    have := hno (.started id label key due pending replies) (by rw [split]; simp)
    simp [Event.starts] at this
  | @superseded after before x split call early never _ =>
    refine ⟨after, x, before, split, call, early, fun y hy => never y ?_⟩
    rw [split]
    exact List.mem_append_right _ (List.mem_cons_of_mem _ hy)

end Fate

/-- The law of debouncing, for an action that was asked for at `time` with a delay. It starts at most
once. If it starts, it is at `Agenda.dueAfter time delay`, under its label and key. And once nothing
that was due by that time is left to do, it has started if, and only if, no later call for its key
took it back before. -/
theorem debounce_law {s : Session κ} (h : Session.Reached s) {later earlier : List (Event κ)} {id : Nat}
    {label : String} {key : κ} {time delay : Nat}
    (hlog : s.log = later ++ .triggered id label key time delay :: earlier) :
    s.log.countP (·.starts id) ≤ 1 ∧
      (∀ x ∈ s.log, x.starts id = true → ∃ pending replies,
        x = .started id label key (Agenda.dueAfter time delay) pending replies) ∧
      ((∃ x ∈ s.log, x.starts id = true) →
        ¬ TakenBack key id (Agenda.dueAfter time delay) later) ∧
      ((∀ e ∈ s.debouncer.agenda, Agenda.dueAfter time delay < e.due) →
        ((∃ x ∈ s.log, x.starts id = true) ↔
          ¬ TakenBack key id (Agenda.dueAfter time delay) later)) := by
  obtain ⟨-, hfresh, hfate⟩ := (lawful_of_reached h).accounted _ _ _ _ _ _ _ hlog
  have hlater {x : Event κ} (hx : x ∈ s.log) (hstart : x.starts id = true) : x ∈ later := by
    rw [hlog, List.mem_append, List.mem_cons] at hx
    rcases hx with hx | rfl | hx
    · exact hx
    · cases hstart
    · simp [hfresh x hx] at hstart
  have honly : (∃ x ∈ s.log, x.starts id = true) →
      ¬ TakenBack key id (Agenda.dueAfter time delay) later := by
    rintro ⟨x, hx, hstart⟩
    exact hfate.not_takenBack (hlater hx hstart) hstart
  refine ⟨?_, fun x hx hstart => hfate.eq_started (hlater hx hstart) hstart, honly, fun hdone => ⟨honly, ?_⟩⟩
  · have hearlier : earlier.countP (·.starts id) = 0 :=
      List.countP_eq_zero.2 fun x hx => by simp [hfresh x hx]
    rw [hlog, List.countP_append, List.countP_cons, hearlier]
    exact hfate.countP_le_one
  · intro hkept
    refine Decidable.byContradiction fun hnone => hkept (hfate.takenBack hdone fun x hx => ?_)
    cases hstart : x.starts id with
    | false => rfl
    | true => exact absurd ⟨x, by rw [hlog]; exact List.mem_append_left _ hx, hstart⟩ hnone

/-- Two actions are asked for under one key: the first one is taken back, and the second one starts,
once and at its time. -/
theorem debounce_law_retriggered :
    ∃ s : Session Unit, Session.Reached s ∧
      s.log = [.ended "second" () 7, .started 1 "second" () 7 false [],
        .triggered 1 "second" () 0 7, .triggered 0 "first" () 0 5] ∧
      TakenBack () 0 5 [.ended "second" () 7, .started 1 "second" () 7 false [],
        .triggered 1 "second" () 0 7] ∧
      s.log.countP (·.starts 1) ≤ 1 ∧
      ¬ TakenBack () 1 7 [.ended "second" () 7, .started 1 "second" () 7 false []] := by
  obtain ⟨s, hreached, hlog, hagenda⟩ : ∃ s : Session Unit, Session.Reached s ∧
      s.log = [.ended "second" () 7, .started 1 "second" () 7 false [],
        .triggered 1 "second" () 0 7, .triggered 0 "first" () 0 5] ∧ s.debouncer.agenda = [] :=
    ⟨_, .step (.step (.step .init (.call _ (.trigger () 5 ⟨"first", [], 0, false⟩)))
      (.call _ (.trigger () 7 ⟨"second", [], 0, false⟩)))
      (.job [] [] ⟨7, .fire () 1 ⟨"second", [], 0, false⟩⟩ rfl
        (fun x hx => by obtain rfl := List.mem_singleton.1 hx; exact Nat.le_refl _)), rfl, rfl⟩
  have hfirst : s.log = [.ended "second" () 7, .started 1 "second" () 7 false [],
      .triggered 1 "second" () 0 7] ++ .triggered 0 "first" () 0 5 :: [] := hlog
  have hsecond : s.log = [.ended "second" () 7, .started 1 "second" () 7 false []] ++
      .triggered 1 "second" () 0 7 :: [.triggered 0 "first" () 0 5] := hlog
  obtain ⟨-, -, -, hiff⟩ := debounce_law hreached hfirst
  obtain ⟨honce, -, hkept, -⟩ := debounce_law hreached hsecond
  refine ⟨s, hreached, hlog, ?_, honce, ?_⟩
  · refine Classical.byContradiction fun hno => ?_
    obtain ⟨x, hx, hstart⟩ := (hiff (by simp [hagenda])).2 hno
    rw [hlog] at hx
    simp only [List.mem_cons, List.not_mem_nil, or_false] at hx
    rcases hx with rfl | rfl | rfl | rfl <;> cases hstart
  · exact hkept ⟨.started 1 "second" () 7 false [], by rw [hlog]; simp, rfl⟩

/-- An action that is put off for a millisecond more than thirty years starts after thirty years. -/
theorem early_start_beyond_horizon :
    ∃ s : Session Unit, Session.Reached s ∧
      s.log = [.ended "late" () 946080000000, .started 0 "late" () 946080000000 false [],
        .triggered 0 "late" () 0 946080000001] :=
  ⟨_, .step (.step .init (.call _ (.trigger () 946080000001 ⟨"late", [], 0, false⟩)))
    (.job [] [] ⟨946080000000, .fire () 0 ⟨"late", [], 0, false⟩⟩ rfl
      (fun x hx => by obtain rfl := List.mem_singleton.1 hx; exact Nat.le_refl _)), rfl⟩

end LangHost.Debounce
