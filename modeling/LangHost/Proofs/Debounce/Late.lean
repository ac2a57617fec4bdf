import LangHost.Proofs.Debounce.Law
import Mathlib.Data.List.Nodup
/-!
# Actions that come late

The debouncer takes an action out of the agenda when it is replaced or cancelled. Suppose that this
comes too late, or not at all: a timer that was stopped wakes up all the same, long after it was due
and in any order. Then the numbers in the ledger alone keep such an action from starting and from
touching what its key waits for by now.

`Loose.Step` lets every action that was ever asked for try to start once, at any moment from when it
is due. `Guarded` is what its steps preserve, `Harmless` what follows from it, and `Loose.of_reached`
says that the sessions of a debouncer that does stop its timers are among those of one that does not.
-/

namespace LangHost

/-- In a ledger without repeated keys, a key waits for the number in its record. -/
theorem Ledger.mem_records_iff {κ : Type} [DecidableEq κ] {l : Ledger κ}
    (h : (l.records.map (·.1)).Nodup) {key : κ} {id : Nat} :
    (key, id) ∈ l.records ↔ l.id? key = some id := by
  obtain ⟨nextId, records⟩ := l
  simp only [id?] at h ⊢
  induction records with
  | nil => simp
  | cons r rest ih =>
    obtain ⟨k, i⟩ := r
    simp only [List.map_cons, List.nodup_cons, List.mem_map, not_exists, not_and] at h
    by_cases hk : key = k
    · subst hk
      have hnot : (key, id) ∉ rest := fun hmem => h.1 _ hmem rfl
      simp [hnot, eq_comm]
    · simp [hk, List.lookup_cons, beq_false_of_ne hk, ih h.2]

namespace Debounce

variable {κ : Type} [DecidableEq κ]

/-! ## Sessions with timers that nobody stops -/

/-- The number of the action that was asked for. -/
def Event.asked? : Event κ → Option Nat
  | .triggered id _ _ _ _ => some id
  | _ => none

/-- A session, and the numbers of the actions that have tried to start. -/
structure Loose (κ : Type) where
  session : Session κ := {}
  tried : List Nat := []

namespace Loose

/-- What can happen when nothing is ever stopped. An action that was asked for tries to start, once,
whenever it likes from when it is due; `a` says what it does if it starts, which can be anything. -/
inductive Step : Loose κ → Loose κ → Prop where
  | call (l : Loose κ) (c : Command κ (Action κ)) : Step l { l with session := (l.session.call c).1 }
  | attempt {l : Loose κ} {id : Nat} {label : String} {key : κ} {time delay : Nat} (a : Action κ)
      (asked : .triggered id label key time delay ∈ l.session.log)
      (due : Agenda.dueAfter time delay ≤ l.session.clock) (first : id ∉ l.tried) :
      Step l ⟨l.session.fire key id a, id :: l.tried⟩
  | finish (l : Loose κ) (e : Ending κ) : Step l { l with session := l.session.finish e }
  | time (l : Loose κ) (t : Nat) :
      Step l { l with session := { l.session with clock := max l.session.clock t } }

/-- The sessions that come about from a new debouncer. -/
inductive Reached : Loose κ → Prop where
  | init : Reached {}
  | step {l l' : Loose κ} : Reached l → Step l l' → Reached l'

end Loose

/-! ## The invariant -/

/-- A key waits for an action if, and only if, nothing took the action back since it was asked for
and it has not tried to start yet. -/
structure Guarded (s : Session κ) (tried : List Nat) : Prop where
  keys : (s.debouncer.ledger.records.map (·.1)).Nodup
  fresh : (s.log.filterMap Event.asked?).Nodup
  given : ∀ id ∈ s.log.filterMap Event.asked?, id < s.debouncer.ledger.nextId
  spent : ∀ id ∈ tried, id < s.debouncer.ledger.nextId
  backed : ∀ key id, s.debouncer.ledger.id? key = some id →
    ∃ label time delay, .triggered id label key time delay ∈ s.log
  waits : ∀ later id label key time delay earlier,
    s.log = later ++ .triggered id label key time delay :: earlier →
      (s.debouncer.ledger.id? key = some id ↔ (∀ x ∈ later, x.supersedes key = false) ∧ id ∉ tried)
  started : ∀ id label key time pending replies,
    .started id label key time pending replies ∈ s.log → pending = false ∧ id ∈ tried

namespace Guarded

variable {s : Session κ} {tried : List Nat}

omit [DecidableEq κ] in
theorem mem_asked {log : List (Event κ)} {id : Nat} {label : String} {key : κ} {time delay : Nat}
    (h : .triggered id label key time delay ∈ log) : id ∈ log.filterMap Event.asked? :=
  List.mem_filterMap.2 ⟨_, h, rfl⟩

theorem lt_of_triggered (h : Guarded s tried) {id : Nat} {label : String} {key : κ} {time delay : Nat}
    (hmem : .triggered id label key time delay ∈ s.log) : id < s.debouncer.ledger.nextId :=
  h.given id (mem_asked hmem)

/-- A number tells the key it was given out for. -/
theorem key_eq (h : Guarded s tried) {id : Nat} {label label' : String} {key key' : κ}
    {time delay time' delay' : Nat} (hmem : .triggered id label key time delay ∈ s.log)
    (hmem' : .triggered id label' key' time' delay' ∈ s.log) : key' = key := by
  obtain ⟨later, earlier, hlog⟩ := List.append_of_mem hmem
  have hfresh : (later.filterMap Event.asked? ++ id :: earlier.filterMap Event.asked?).Nodup := by
    have hfresh := h.fresh
    rwa [hlog, List.filterMap_append] at hfresh
  obtain ⟨hnone, -⟩ := List.nodup_cons.1 (List.nodup_middle.1 hfresh)
  rw [hlog, List.mem_append, List.mem_cons] at hmem'
  rcases hmem' with hmem' | heq | hmem'
  · exact absurd (List.mem_append_left _ (mem_asked hmem')) hnone
  · cases heq
    rfl
  · exact absurd (List.mem_append_right _ (mem_asked hmem')) hnone

/-- Whatever supersedes the actions of some keys, the ledger forgets these keys. -/
theorem superseded (h : Guarded s tried) {s' : Session κ} {x : Event κ} (hlog : s'.log = x :: s.log)
    (hask : x.asked? = none) (hstart : ∀ id, x.starts id = false)
    (hnext : s'.debouncer.ledger.nextId = s.debouncer.ledger.nextId)
    (hsub : s'.debouncer.ledger.records.Sublist s.debouncer.ledger.records)
    (hid : ∀ key, s'.debouncer.ledger.id? key =
      if x.supersedes key then none else s.debouncer.ledger.id? key) : Guarded s' tried where
  keys := h.keys.sublist (hsub.map _)
  fresh := by
    rw [hlog, List.filterMap_cons_none hask]
    exact h.fresh
  given id hmem := by
    rw [hlog, List.filterMap_cons_none hask] at hmem
    rw [hnext]
    exact h.given id hmem
  spent id hmem := hnext ▸ h.spent id hmem
  backed key id hkey := by
    rw [hid] at hkey
    split at hkey
    · cases hkey
    · obtain ⟨label, time, delay, hmem⟩ := h.backed key id hkey
      rw [hlog]
      exact ⟨label, time, delay, List.mem_cons_of_mem _ hmem⟩
  waits later id label key time delay earlier hsplit := by
    rw [hlog] at hsplit
    cases later with
    | nil =>
      obtain ⟨hx, -⟩ := List.cons.inj hsplit
      rw [hx] at hask
      cases hask
    | cons y later =>
      obtain ⟨hx, hrest⟩ := List.cons.inj hsplit
      rw [hid, List.forall_mem_cons, ← hx]
      cases hsup : x.supersedes key with
      | true => simp
      | false => simpa using h.waits later id label key time delay earlier hrest
  started id label key time pending replies hmem := by
    rw [hlog] at hmem
    rcases List.mem_cons.1 hmem with hx | hmem
    · have hno := hstart id
      rw [← hx] at hno
      simp [Event.starts] at hno
    · exact h.started id label key time pending replies hmem

theorem trigger (h : Guarded s tried) (key : κ) (delay : Nat) (action : Action κ) :
    Guarded (s.call (.trigger key delay action)).1 tried where
  keys := by
    refine List.nodup_cons.2 ⟨?_, h.keys.sublist (List.filter_sublist.map _)⟩
    simp [Ledger.erase]
  fresh := by
    refine List.nodup_cons.2 ⟨fun hmem => ?_, h.fresh⟩
    exact Nat.lt_irrefl _ (h.given _ hmem)
  given id hmem := by
    rcases List.mem_cons.1 hmem with rfl | hmem
    · exact Nat.lt_succ_self _
    · exact Nat.lt_succ_of_lt (h.given id hmem)
  spent id hmem := Nat.lt_succ_of_lt (h.spent id hmem)
  backed k id hid := by
    simp only [Session.call, Command.run, Debouncer.trigger, Ledger.id?_enter] at hid
    split at hid
    · rename_i hk
      subst hk
      cases hid
      exact ⟨_, _, _, List.mem_cons_self ..⟩
    · obtain ⟨label, time, delay, hmem⟩ := h.backed k id hid
      exact ⟨label, time, delay, List.mem_cons_of_mem _ hmem⟩
  waits later id label k time delay' earlier hsplit := by
    simp only [Session.call, Command.run, Debouncer.trigger, Ledger.id?_enter]
    cases later with
    | nil =>
      -- the action that has just been asked for
      obtain ⟨heq, -⟩ := List.cons.inj hsplit
      cases heq
      have hnot : s.debouncer.ledger.nextId ∉ tried := fun hmem => Nat.lt_irrefl _ (h.spent _ hmem)
      simp [hnot]
    | cons y later =>
      obtain ⟨rfl, hrest⟩ := List.cons.inj hsplit
      have hrest : s.log = later ++ .triggered id label k time delay' :: earlier := hrest
      have hlt : id < s.debouncer.ledger.nextId :=
        h.lt_of_triggered (by rw [hrest]; exact List.mem_append_cons_self)
      by_cases hk : k = key
      · subst hk
        simp [Event.supersedes, Nat.ne_of_gt hlt]
      · rw [if_neg hk, h.waits later id label k time delay' earlier hrest]
        simp [Event.supersedes, Ne.symm hk]
  started id label k time pending replies hmem := by
    rcases List.mem_cons.1 hmem with heq | hmem
    · cases heq
    · exact h.started id label k time pending replies hmem

theorem call (h : Guarded s tried) (c : Command κ (Action κ)) : Guarded (s.call c).1 tried := by
  cases c with
  | trigger key delay action => exact h.trigger key delay action
  | cancel key =>
    refine h.superseded rfl rfl (fun _ => rfl) rfl List.filter_sublist fun k => ?_
    simp only [Session.call, Command.run, Debouncer.cancel, Ledger.id?_erase, Event.supersedes]
    by_cases hk : k = key
    · simp [hk]
    · simp [hk, Ne.symm hk]
  | cancelAll => exact h.superseded rfl rfl (fun _ => rfl) rfl (List.nil_sublist _) fun _ => rfl
  | isPending _ => exact h
  | pendingCount => exact h

theorem runAll (h : Guarded s tried) (calls : List (Command κ (Action κ))) :
    Guarded { s with
      debouncer := (Command.runAll s.clock s.debouncer calls).1
      log := (Command.runAll s.clock s.debouncer calls).2.2 ++ s.log } tried := by
  induction calls generalizing s with
  | nil => exact h
  | cons c calls ih =>
    have hrest := ih (h.call c)
    simp only [Command.runAll, Session.call, List.append_assoc] at hrest ⊢
    exact hrest

/-- Nothing that matters has changed. -/
theorem of_eq (h : Guarded s tried) {s' : Session κ}
    (hledger : s'.debouncer.ledger = s.debouncer.ledger) (hlog : s'.log = s.log) : Guarded s' tried := by
  obtain ⟨keys, fresh, given, spent, backed, waits, started⟩ := h
  rw [← hledger] at keys given spent backed waits
  rw [← hlog] at fresh given backed waits started
  exact ⟨keys, fresh, given, spent, backed, waits, started⟩

theorem finish (h : Guarded s tried) (e : Ending κ) : Guarded (s.finish e) tried := by
  unfold Session.finish
  split
  · exact h
  · exact h.superseded rfl rfl (fun _ => rfl) rfl (List.Sublist.refl _) fun _ => rfl

/-! ### Attempts to start -/

section Attempt

variable {id : Nat} {label : String} {key : κ} {time delay : Nat}

/-- An action has tried to start in vain, since its key does not wait for it. -/
theorem refused (h : Guarded s tried) (hasked : .triggered id label key time delay ∈ s.log)
    (hno : s.debouncer.ledger.id? key ≠ some id) : Guarded s (id :: tried) where
  keys := h.keys
  fresh := h.fresh
  given := h.given
  spent := List.forall_mem_cons.2 ⟨h.lt_of_triggered hasked, h.spent⟩
  backed := h.backed
  waits later id' label' key' time' delay' earlier hsplit := by
    have hmem : .triggered id' label' key' time' delay' ∈ s.log := by
      rw [hsplit]
      exact List.mem_append_cons_self
    rw [List.mem_cons, not_or]
    by_cases hid : id' = id
    · subst hid
      obtain rfl := h.key_eq hasked hmem
      simp [hno]
    · rw [h.waits later id' label' key' time' delay' earlier hsplit]
      simp [hid]
  started id' label' key' time' pending replies hmem := by
    obtain ⟨hpending, hid⟩ := h.started id' label' key' time' pending replies hmem
    exact ⟨hpending, List.mem_cons_of_mem _ hid⟩

/-- An action that its key waits for is taken out of the ledger and logged as started. -/
theorem redeemed (h : Guarded s tried) (hasked : .triggered id label key time delay ∈ s.log)
    (hid : s.debouncer.ledger.id? key = some id) (name : String) (replies : List Reply) :
    Guarded { s with
      debouncer := { s.debouncer with ledger := s.debouncer.ledger.erase key }
      log := .started id name key s.clock false replies :: s.log } (id :: tried) where
  keys := h.keys.sublist (List.filter_sublist.map _)
  fresh := h.fresh
  given := h.given
  spent := List.forall_mem_cons.2 ⟨h.lt_of_triggered hasked, h.spent⟩
  backed k i hk := by
    simp only [Ledger.id?_erase] at hk
    split at hk
    · cases hk
    · obtain ⟨label, time, delay, hmem⟩ := h.backed k i hk
      exact ⟨label, time, delay, List.mem_cons_of_mem _ hmem⟩
  waits later id' label' key' time' delay' earlier hsplit := by
    cases later with
    | nil => cases hsplit
    | cons y later =>
      obtain ⟨rfl, hrest⟩ := List.cons.inj hsplit
      have hrest : s.log = later ++ .triggered id' label' key' time' delay' :: earlier := hrest
      have hmem : .triggered id' label' key' time' delay' ∈ s.log := by
        rw [hrest]
        exact List.mem_append_cons_self
      have hwaits := h.waits later id' label' key' time' delay' earlier hrest
      rw [List.forall_mem_cons, List.mem_cons, not_or]
      simp only [Ledger.id?_erase]
      by_cases hkey : key' = key
      · -- the key waits for nothing now, and what it waited for has tried
        subst hkey
        rw [if_pos rfl]
        constructor
        · intro hnone
          cases hnone
        · rintro ⟨⟨-, hquiet⟩, hne, hnot⟩
          rw [hid, Option.some.injEq] at hwaits
          exact absurd (hwaits.2 ⟨hquiet, hnot⟩).symm hne
      · have hne : id' ≠ id := by
          rintro rfl
          exact hkey (h.key_eq hasked hmem)
        simp [hkey, hwaits, hne, Event.supersedes]
  started id' label' key' time' pending replies' hmem := by
    rcases List.mem_cons.1 hmem with heq | hmem
    · cases heq
      exact ⟨rfl, List.mem_cons_self ..⟩
    · obtain ⟨hpending, hid'⟩ := h.started id' label' key' time' pending replies' hmem
      exact ⟨hpending, List.mem_cons_of_mem _ hid'⟩

theorem fire (h : Guarded s tried) (hasked : .triggered id label key time delay ∈ s.log)
    (a : Action κ) : Guarded (s.fire key id a) (id :: tried) := by
  unfold Session.fire
  split
  · rename_i hnone
    refine h.refused hasked fun hid => ?_
    rw [Ledger.redeem?_eq_some.2 ⟨hid, rfl⟩] at hnone
    cases hnone
  · rename_i ledger hsome
    obtain ⟨hid, rfl⟩ := Ledger.redeem?_eq_some.1 hsome
    have hpending : Debouncer.isPending
        ({ s.debouncer with ledger := s.debouncer.ledger.erase key } : Scripted κ) key = false := by
      simp [Debouncer.isPending, Ledger.isPending, Ledger.id?_erase]
    have hcalls := (h.redeemed hasked hid a.label (Command.runAll s.clock
      { s.debouncer with ledger := s.debouncer.ledger.erase key } a.calls).2.1).runAll a.calls
    simp only [hpending]
    split
    · exact hcalls.finish _
    · exact hcalls.of_eq rfl rfl

end Attempt

end Guarded

theorem guarded_of_reached {l : Loose κ} (h : l.Reached) : Guarded l.session l.tried := by
  induction h with
  | init =>
    refine ⟨List.nodup_nil, List.nodup_nil, ?_, ?_, ?_, ?_, ?_⟩
    · intro id hid
      cases hid
    · intro id hid
      cases hid
    · intro key id hid
      cases hid
    · intro later id label key time delay earlier hlog
      simp at hlog
    · intro id label key time pending replies hmem
      cases hmem
  | step _ hstep ih =>
    cases hstep with
    | call c => exact ih.call c
    | attempt a hasked _ _ => exact ih.fire hasked a
    | finish e => exact ih.finish e
    | time t => exact ih.of_eq rfl rfl

/-! ## What follows from it -/

/-- What the numbers in the ledger guarantee, however late an action tries to start. -/
structure Harmless (l : Loose κ) : Prop where
  /-- No key has two records. -/
  oneRecord : (l.session.debouncer.ledger.records.map (·.1)).Nodup
  /-- No two actions were given one number, and the next one gets another. -/
  numbers : (l.session.log.filterMap Event.asked?).Nodup ∧
    l.session.debouncer.ledger.nextId ∉ l.session.log.filterMap Event.asked?
  /-- A record is of the action that was last asked for under its key, with no call since that
  would have taken it back. It is of no other action, and that one has not tried to start. -/
  ofLatest : ∀ key id, (key, id) ∈ l.session.debouncer.ledger.records →
    (∃ later label time delay earlier,
      l.session.log = later ++ .triggered id label key time delay :: earlier ∧
        ∀ x ∈ later, x.supersedes key = false) ∧
      l.session.log.countP (·.asked? = some id) = 1 ∧ id ∉ l.tried
  /-- An action that was replaced or cancelled changes nothing when it tries to start. -/
  stale : ∀ later id label key time delay earlier (a : Action κ),
    l.session.log = later ++ .triggered id label key time delay :: earlier →
      (∃ x ∈ later, x.supersedes key = true) → l.session.fire key id a = l.session
  /-- Any other one starts when it first tries. -/
  current : ∀ later id label key time delay earlier (a : Action κ),
    l.session.log = later ++ .triggered id label key time delay :: earlier →
      (∀ x ∈ later, x.supersedes key = false) → id ∉ l.tried →
        ∃ new replies, (l.session.fire key id a).log =
          new ++ .started id a.label key l.session.clock false replies :: l.session.log
  /-- When an action starts, its key waits for nothing, and its record never comes back. -/
  gone : ∀ id label key time pending replies,
    .started id label key time pending replies ∈ l.session.log →
      pending = false ∧ ∀ k, (k, id) ∉ l.session.debouncer.ledger.records
  /-- A key is cancelled if it had a record, and it has none then. -/
  cancels : ∀ key,
    (∃ b, (l.session.call (.cancel key)).2 = .flag b ∧
      (b = true ↔ ∃ id, (key, id) ∈ l.session.debouncer.ledger.records)) ∧
      ∀ id, (key, id) ∉ (l.session.call (.cancel key)).1.debouncer.ledger.records
  /-- All records are counted when all are cancelled, and none is left. -/
  cancelsAll :
    (l.session.call .cancelAll).2 = .count l.session.debouncer.ledger.records.length ∧
      (l.session.call .cancelAll).1.debouncer.ledger.records = []

namespace Guarded

variable {s : Session κ} {tried : List Nat}

/-- Every number in the log was given out once. -/
theorem countP_asked (h : Guarded s tried) {id : Nat} {label : String} {key : κ} {time delay : Nat}
    (hmem : .triggered id label key time delay ∈ s.log) :
    s.log.countP (·.asked? = some id) = 1 := by
  have hone : (s.log.filterMap Event.asked?).count id = 1 :=
    List.count_eq_one_of_mem h.fresh (mem_asked hmem)
  rw [List.count, List.countP_filterMap] at hone
  rw [← hone]
  congr 1
  funext x
  cases x.asked? with
  | none => simp
  | some i => by_cases hi : i = id <;> simp [hi]

/-- Where a key waits for an action, the action is the last one asked for, and has not tried. -/
theorem latest (h : Guarded s tried) {key : κ} {id : Nat} (hid : s.debouncer.ledger.id? key = some id) :
    ∃ later label time delay earlier,
      s.log = later ++ .triggered id label key time delay :: earlier ∧
        (∀ x ∈ later, x.supersedes key = false) ∧ id ∉ tried := by
  obtain ⟨label, time, delay, hmem⟩ := h.backed key id hid
  obtain ⟨later, earlier, hlog⟩ := List.append_of_mem hmem
  exact ⟨later, label, time, delay, earlier, hlog,
    (h.waits later id label key time delay earlier hlog).1 hid⟩

theorem fire_eq_self (h : Guarded s tried) {later earlier : List (Event κ)} {id : Nat} {label : String}
    {key : κ} {time delay : Nat} (hlog : s.log = later ++ .triggered id label key time delay :: earlier)
    {x : Event κ} (hx : x ∈ later) (hsup : x.supersedes key = true) (a : Action κ) :
    s.fire key id a = s := by
  have hno : s.debouncer.ledger.redeem? key id = none := by
    unfold Ledger.redeem?
    refine if_neg fun hid => ?_
    have hquiet := ((h.waits later id label key time delay earlier hlog).1 hid).1 x hx
    rw [hsup] at hquiet
    cases hquiet
  simp only [Session.fire, hno]

end Guarded

/-- An action that its key waits for starts when it tries to. -/
theorem fire_log {s : Session κ} {key : κ} {id : Nat} (hid : s.debouncer.ledger.id? key = some id)
    (a : Action κ) : ∃ new replies, (s.fire key id a).log =
      new ++ .started id a.label key s.clock false replies :: s.log := by
  have hpending : Debouncer.isPending
      ({ s.debouncer with ledger := s.debouncer.ledger.erase key } : Scripted κ) key = false := by
    simp [Debouncer.isPending, Ledger.isPending, Ledger.id?_erase]
  simp only [Session.fire, Ledger.redeem?_eq_some.2 ⟨hid, rfl⟩, hpending]
  split
  · unfold Session.finish
    split
    · exact ⟨_, _, rfl⟩
    · exact ⟨.ended a.label key s.clock :: _, _, rfl⟩
  · exact ⟨_, _, rfl⟩

/-- In every session, whenever and in whatever order its actions try to start, the numbers in the
ledger keep those out that were replaced or cancelled, and only those. -/
theorem late_actions_harmless {l : Loose κ} (h : l.Reached) : Harmless l := by
  have hg := guarded_of_reached h
  refine ⟨hg.keys, ⟨hg.fresh, fun hmem => Nat.lt_irrefl _ (hg.given _ hmem)⟩, ?_, ?_, ?_, ?_, ?_, ?_⟩
  · intro key id hmem
    obtain ⟨later, label, time, delay, earlier, hlog, hquiet, hnot⟩ :=
      hg.latest ((Ledger.mem_records_iff hg.keys).1 hmem)
    refine ⟨⟨later, label, time, delay, earlier, hlog, hquiet⟩, ?_, hnot⟩
    exact hg.countP_asked (by rw [hlog]; exact List.mem_append_cons_self)
  · rintro later id label key time delay earlier a hlog ⟨x, hx, hsup⟩
    exact hg.fire_eq_self hlog hx hsup a
  · intro later id label key time delay earlier a hlog hquiet hnot
    exact fire_log ((hg.waits later id label key time delay earlier hlog).2 ⟨hquiet, hnot⟩) a
  · intro id label key time pending replies hmem
    obtain ⟨hpending, htried⟩ := hg.started id label key time pending replies hmem
    refine ⟨hpending, fun k hk => ?_⟩
    obtain ⟨_, _, _, _, _, _, _, hnot⟩ := hg.latest ((Ledger.mem_records_iff hg.keys).1 hk)
    exact hnot htried
  · intro key
    refine ⟨⟨_, rfl, ?_⟩, fun id hmem => ?_⟩
    · simp only [Debouncer.isPending, Ledger.isPending, Option.isSome_iff_exists,
        Ledger.mem_records_iff hg.keys]
    · have hid := (Ledger.mem_records_iff (hg.call (.cancel key)).keys).1 hmem
      simp [Session.call, Command.run, Debouncer.cancel, Ledger.id?_erase] at hid
  · exact ⟨rfl, rfl⟩

/-- An action is cancelled, another one is asked for under its key, and then both come late: the first
one leaves the record of the second alone, and the second one starts. -/
theorem late_actions_harmless_woken :
    ∃ l : Loose Unit, l.Reached ∧ l.session.clock = 9 ∧ l.session.debouncer.ledger.records = [((), 1)] ∧
      l.session.fire () 0 ⟨"first", [], 0, false⟩ = l.session ∧
      ∃ new replies, (l.session.fire () 1 ⟨"second", [], 0, false⟩).log =
        new ++ .started 1 "second" () 9 false replies :: l.session.log := by
  obtain ⟨l, hl, hclock, hrecords, hlog, htried⟩ : ∃ l : Loose Unit, l.Reached ∧ l.session.clock = 9 ∧
      l.session.debouncer.ledger.records = [((), 1)] ∧
      l.session.log =
        [.triggered 1 "second" () 0 7, .cancelled () 0, .triggered 0 "first" () 0 5] ∧ l.tried = [] :=
    ⟨_, .step (.step (.step (.step .init (.call _ (.trigger () 5 ⟨"first", [], 0, false⟩)))
      (.call _ (.cancel ()))) (.call _ (.trigger () 7 ⟨"second", [], 0, false⟩))) (.time _ 9),
      rfl, rfl, rfl, rfl⟩
  have hharmless := late_actions_harmless hl
  refine ⟨l, hl, hclock, hrecords, ?_, ?_⟩
  · exact hharmless.stale [.triggered 1 "second" () 0 7, .cancelled () 0] 0 "first" () 0 5 [] _ hlog
      ⟨.cancelled () 0, by simp, rfl⟩
  · rw [← hclock]
    exact hharmless.current [] 1 "second" () 0 7 [.cancelled () 0, .triggered 0 "first" () 0 5] _ hlog
      (by simp) (by simp [htried])

/-! ## Timers that are stopped -/

/-- Two sessions differ in nothing but the agenda. -/
def Session.SameButAgenda (s s' : Session κ) : Prop :=
  s'.clock = s.clock ∧ s'.debouncer.ledger = s.debouncer.ledger ∧ s'.log = s.log

namespace Session.SameButAgenda

variable {s s' : Session κ}

/-- The agenda has no say in what a call answers, in what it logs and in what becomes pending. -/
theorem command {d d' : Scripted κ} (h : d'.ledger = d.ledger) (now : Nat)
    (c : Command κ (Action κ)) :
    (c.run now d').1.ledger = (c.run now d).1.ledger ∧ (c.run now d').2 = (c.run now d).2 ∧
      c.event? now d' = c.event? now d := by
  cases c <;>
    simp [Command.run, Command.event?, Debouncer.trigger, Debouncer.cancel, Debouncer.cancelAll,
      Debouncer.isPending, Debouncer.pendingCount, h]

theorem commands {d d' : Scripted κ} (h : d'.ledger = d.ledger) (now : Nat)
    (calls : List (Command κ (Action κ))) :
    (Command.runAll now d' calls).1.ledger = (Command.runAll now d calls).1.ledger ∧
      (Command.runAll now d' calls).2 = (Command.runAll now d calls).2 := by
  induction calls generalizing d d' with
  | nil => exact ⟨h, rfl⟩
  | cons c calls ih =>
    obtain ⟨hledger, hreply, hevent⟩ := command h now c
    obtain ⟨hledger', hrest⟩ := ih hledger
    refine ⟨hledger', ?_⟩
    simp only [Command.runAll, hreply, hevent, hrest]

theorem call (h : s.SameButAgenda s') (c : Command κ (Action κ)) :
    (s.call c).1.SameButAgenda (s'.call c).1 := by
  obtain ⟨hclock, hledger, hlog⟩ := h
  obtain ⟨hledger', -, hevent⟩ := command hledger s.clock c
  simp only [Session.call, SameButAgenda]
  rw [hclock, hevent, hlog]
  exact ⟨rfl, hledger', rfl⟩

omit [DecidableEq κ] in
theorem finish (h : s.SameButAgenda s') (e : Ending κ) : (s.finish e).SameButAgenda (s'.finish e) := by
  obtain ⟨hclock, hledger, hlog⟩ := h
  unfold Session.finish
  split
  · exact ⟨hclock, hledger, hlog⟩
  · exact ⟨hclock, hledger, by rw [hclock, hlog]⟩

theorem fire (h : s.SameButAgenda s') (key : κ) (id : Nat) (a : Action κ) :
    (s.fire key id a).SameButAgenda (s'.fire key id a) := by
  obtain ⟨hclock, hledger, hlog⟩ := h
  unfold Session.fire
  rw [hledger]
  split
  · exact ⟨hclock, hledger, hlog⟩
  · rename_i ledger _
    have hsame : ({ s'.debouncer with ledger } : Scripted κ).ledger =
        ({ s.debouncer with ledger } : Scripted κ).ledger := rfl
    obtain ⟨hledger', hrest⟩ := commands hsame s.clock a.calls
    simp only [hclock, hrest, hlog]
    split
    · apply finish
      exact ⟨rfl, hledger', rfl⟩
    · exact ⟨rfl, hledger', rfl⟩

end Session.SameButAgenda

/-- What happens in a session of a debouncer that stops its timers can happen without stopping them:
an action that is done when it is due was asked for, is due, and tries for the first time. -/
theorem Loose.of_reached {s : Session κ} (h : s.Reached) :
    ∃ l : Loose κ, l.Reached ∧ s.SameButAgenda l.session := by
  induction h with
  | init => exact ⟨{}, .init, rfl, rfl, rfl⟩
  | @step s s' hreached hstep ih =>
    obtain ⟨l, hl, hsame⟩ := ih
    cases hstep with
    | call c => exact ⟨_, hl.step (.call l c), hsame.call c⟩
    | drop => exact ⟨_, hl.step (.call l .cancelAll), hsame.call .cancelAll⟩
    | time t ht =>
      refine ⟨_, hl.step (.time l t), ?_, hsame.2.1, hsame.2.2⟩
      rw [hsame.1]
    | job front back item hagenda hfirst =>
      obtain ⟨due, job⟩ := item
      -- the clock goes on to the time the job is due
      have hl' := hl.step (.time l due)
      have htake : (s.take due (front ++ back)).SameButAgenda
          { l.session with clock := max l.session.clock due } :=
        ⟨by rw [hsame.1]; rfl, hsame.2⟩
      cases job with
      | resume ending => exact ⟨_, hl'.step (.finish _ ending), htake.finish ending⟩
      | fire key id a =>
        have hlawful := lawful_of_reached hreached
        have hmem : ⟨due, .fire key id a⟩ ∈ s.debouncer.agenda := by rw [hagenda]; simp
        have hid : l.session.debouncer.ledger.id? key = some id := by
          rw [hsame.2.1]
          exact hlawful.coherent.held due key id a hmem
        obtain ⟨later, label, time, delay, earlier, hlog, -, hnot⟩ := (guarded_of_reached hl).latest hid
        obtain ⟨-, -, hfate⟩ :=
          hlawful.accounted later id label key time delay earlier (by rw [← hsame.2.2, hlog])
        obtain ⟨rfl, -, -, -⟩ := hfate.of_mem hlawful.coherent hmem
        have hasked : .triggered id label key time delay ∈ l.session.log := by
          rw [hlog]
          exact List.mem_append_cons_self
        exact ⟨_, hl'.step (.attempt a hasked (Nat.le_max_right ..) hnot), htake.fire key id a⟩

end Debounce

end LangHost
