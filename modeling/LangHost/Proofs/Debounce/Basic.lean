import LangHost.Debounce.Basic
import Mathlib.Data.List.Basic
/-!
# Ledgers and debouncers, operation by operation

What each operation of a ledger makes of the pending work of every key, and which jobs are in the
agenda of a debouncer after each of its operations.
-/

namespace LangHost

/-! ## Ledgers -/

namespace Ledger

variable {κ : Type} [DecidableEq κ]

theorem id?_erase (l : Ledger κ) (key k : κ) :
    (l.erase key).id? k = if k = key then none else l.id? k := by
  obtain ⟨nextId, records⟩ := l
  induction records with
  | nil => simp [id?, erase]
  | cons r rest ih =>
    obtain ⟨k', id⟩ := r
    simp only [id?, erase] at ih ⊢
    by_cases hkey : k' = key
    · subst hkey
      by_cases hk : k = k'
      · simpa [hk] using ih
      · simpa [hk, List.lookup_cons, beq_false_of_ne hk] using ih
    · by_cases hk : k = k'
      · subst hk
        simp [hkey]
      · simpa [hkey, hk, List.lookup_cons, beq_false_of_ne hk] using ih

theorem id?_enter (l : Ledger κ) (key k : κ) :
    (l.enter key).id? k = if k = key then some l.nextId else l.id? k := by
  have herase := l.id?_erase key k
  by_cases hk : k = key
  · subst hk
    simp [id?, enter]
  · simp only [hk, if_false] at herase ⊢
    rw [← herase]
    simp [id?, enter, erase, List.lookup_cons, beq_false_of_ne hk]

@[simp] theorem id?_clear (l : Ledger κ) (k : κ) : l.clear.id? k = none := rfl

theorem redeem?_eq_some {l l' : Ledger κ} {key : κ} {id : Nat} :
    l.redeem? key id = some l' ↔ l.id? key = some id ∧ l' = l.erase key := by
  unfold redeem?
  split <;> simp_all [eq_comm]

theorem isPending_erase {l : Ledger κ} {key k : κ} :
    (l.erase key).isPending k = true ↔ k ≠ key ∧ l.isPending k = true := by
  simp only [isPending, id?_erase]
  by_cases hk : k = key <;> simp [hk]

theorem count_eq_zero {l : Ledger κ} (h : ∀ k, l.isPending k = false) : l.count = 0 := by
  obtain ⟨nextId, records⟩ := l
  cases records with
  | nil => rfl
  | cons r rest =>
    have hr := h r.1
    simp [isPending, id?] at hr

/-- Numbers are in use for one key each, and only such as were given out. -/
structure Numbered (l : Ledger κ) : Prop where
  bound : ∀ k i, l.id? k = some i → i < l.nextId
  inj : ∀ k k' i, l.id? k = some i → l.id? k' = some i → k = k'

namespace Numbered

variable {l : Ledger κ}

theorem erase (h : l.Numbered) (key : κ) : (l.erase key).Numbered := by
  have hid (k : κ) (i : Nat) (hi : (l.erase key).id? k = some i) : l.id? k = some i := by
    rw [id?_erase] at hi
    split at hi
    · cases hi
    · exact hi
  exact ⟨fun k i hi => h.bound k i (hid k i hi),
    fun k k' i hk hk' => h.inj k k' i (hid k i hk) (hid k' i hk')⟩

theorem enter (h : l.Numbered) (key : κ) : (l.enter key).Numbered where
  bound k i hi := by
    rw [id?_enter] at hi
    split at hi
    · cases hi
      exact Nat.lt_succ_self _
    · exact Nat.lt_succ_of_lt (h.bound k i hi)
  inj k k' i hk hk' := by
    rw [id?_enter] at hk hk'
    split at hk <;> split at hk'
    · simp_all
    · cases hk
      exact absurd (h.bound k' _ hk') (Nat.lt_irrefl _)
    · cases hk'
      exact absurd (h.bound k _ hk) (Nat.lt_irrefl _)
    · exact h.inj k k' i hk hk'

theorem clear (l : Ledger κ) : l.clear.Numbered :=
  ⟨fun k i hi => (by simp at hi), fun k k' i hk => (by simp at hk)⟩

end Numbered

end Ledger

/-! ## Agendas -/

theorem Agenda.mem_of_mem_rest {ι : Type} {a front back : Agenda ι} {item e : Agenda.Item ι}
    (h : a = front ++ item :: back) (he : e ∈ front ++ back) : e ∈ a := by
  rw [h]
  rcases List.mem_append.1 he with he | he
  · exact List.mem_append_left _ he
  · exact List.mem_append_right _ (List.mem_cons_of_mem _ he)

theorem Agenda.mem_rest_of_ne {ι : Type} {a front back : Agenda ι} {item e : Agenda.Item ι}
    (h : a = front ++ item :: back) (he : e ∈ a) (hne : e ≠ item) : e ∈ front ++ back := by
  rw [h, List.mem_append, List.mem_cons] at he
  rcases he with he | heq | he
  · exact List.mem_append_left _ he
  · exact (hne heq).elim
  · exact List.mem_append_right _ he

namespace Debouncer

variable {κ α β : Type}

theorem mem_abort {d : Debouncer κ α β} {id : Option Nat} {e : Agenda.Item (Job κ α β)} :
    e ∈ (d.abort id).agenda ↔ e ∈ d.agenda ∧ ∀ i, id = some i → e.job.hasId i = false := by
  cases id with
  | none => simp [abort]
  | some i => simp [abort]

theorem mem_cancelAll {d : Debouncer κ α β} {e : Agenda.Item (Job κ α β)} :
    e ∈ d.cancelAll.agenda ↔ e ∈ d.agenda ∧ e.job.isFire = false := by
  simp [cancelAll]

theorem mem_suspend {d : Debouncer κ α β} {now duration : Nat} {work : β}
    {e : Agenda.Item (Job κ α β)} :
    e ∈ (d.suspend now duration work).agenda ↔
      e ∈ d.agenda ∨ e = ⟨Agenda.dueAfter now duration, .resume work⟩ := by
  simp [suspend]

variable [DecidableEq κ]

theorem mem_trigger {d : Debouncer κ α β} {now delay : Nat} {key : κ} {action : α}
    {e : Agenda.Item (Job κ α β)} :
    e ∈ (d.trigger now key delay action).agenda ↔
      e ∈ (d.abort (d.ledger.id? key)).agenda ∨
        e = ⟨Agenda.dueAfter now delay, .fire key d.ledger.nextId action⟩ := by
  simp [trigger]

theorem mem_cancel {d : Debouncer κ α β} {key : κ} {e : Agenda.Item (Job κ α β)} :
    e ∈ (d.cancel key).agenda ↔ e ∈ (d.abort (d.ledger.id? key)).agenda :=
  Iff.rfl

/-! ## Ledger and agenda together -/

/-- Every action in the agenda is the one that its key waits for, and no two have one number. -/
structure Coherent (d : Debouncer κ α β) : Prop where
  numbered : d.ledger.Numbered
  held : ∀ due k i a, ⟨due, .fire k i a⟩ ∈ d.agenda → d.ledger.id? k = some i
  apart : d.agenda.Pairwise fun x y => ∀ i, x.job.hasId i = true → y.job.hasId i = false

namespace Coherent

variable {d : Debouncer κ α β}

/-- The action of a key goes with the number of the key. -/
theorem ne_of_mem_abort (h : d.Coherent) {key k : κ} {due i : Nat} {a : α}
    (hmem : ⟨due, .fire k i a⟩ ∈ (d.abort (d.ledger.id? key)).agenda) : k ≠ key := by
  rintro rfl
  obtain ⟨hmem, hno⟩ := mem_abort.1 hmem
  simpa [Job.hasId] using hno i (h.held due k i a hmem)

/-- The actions of other keys stay. -/
theorem mem_abort_of_ne (h : d.Coherent) {key k : κ} {due i : Nat} {a : α}
    (hmem : ⟨due, .fire k i a⟩ ∈ d.agenda) (hk : k ≠ key) :
    ⟨due, .fire k i a⟩ ∈ (d.abort (d.ledger.id? key)).agenda := by
  refine mem_abort.2 ⟨hmem, fun j hj => ?_⟩
  have hne : i ≠ j := by
    rintro rfl
    exact hk (h.numbered.inj k key i (h.held due k i a hmem) hj)
  simpa [Job.hasId] using hne

theorem lt_of_hasId (h : d.Coherent) {e : Agenda.Item (Job κ α β)} {i : Nat} (he : e ∈ d.agenda)
    (hi : e.job.hasId i = true) : i < d.ledger.nextId := by
  obtain ⟨due, job⟩ := e
  cases job with
  | resume work => cases hi
  | fire k j a =>
    obtain rfl : j = i := by simpa [Job.hasId] using hi
    exact h.numbered.bound k j (h.held due k j a he)

theorem apart_abort (h : d.Coherent) (id : Option Nat) : (d.abort id).agenda.Pairwise
    fun x y => ∀ i, x.job.hasId i = true → y.job.hasId i = false := by
  cases id with
  | none => exact h.apart
  | some id => exact h.apart.filter _

theorem trigger (h : d.Coherent) (now : Nat) (key : κ) (delay : Nat) (action : α) :
    (d.trigger now key delay action).Coherent where
  numbered := h.numbered.enter key
  held due k i a hmem := by
    simp only [Debouncer.trigger, Ledger.id?_enter]
    rcases mem_trigger.1 hmem with hmem | heq
    · rw [if_neg (h.ne_of_mem_abort hmem)]
      exact h.held due k i a (mem_abort.1 hmem).1
    · cases heq
      simp
  apart := by
    simp only [Debouncer.trigger, List.pairwise_append, List.pairwise_singleton, true_and,
      List.mem_singleton, forall_eq]
    refine ⟨h.apart_abort _, fun x hx i hi => ?_⟩
    have hlt := h.lt_of_hasId (mem_abort.1 hx).1 hi
    simpa [Job.hasId] using (Nat.ne_of_lt hlt).symm

theorem cancel (h : d.Coherent) (key : κ) : (d.cancel key).Coherent where
  numbered := h.numbered.erase key
  held due k i a hmem := by
    simp only [Debouncer.cancel, Ledger.id?_erase]
    rw [if_neg (h.ne_of_mem_abort hmem)]
    exact h.held due k i a (mem_abort.1 hmem).1
  apart := h.apart_abort _

theorem cancelAll (h : d.Coherent) : d.cancelAll.Coherent where
  numbered := .clear _
  held due k i a hmem := by simpa [Job.isFire] using (mem_cancelAll.1 hmem).2
  apart := h.apart.filter _

theorem suspend (h : d.Coherent) (now duration : Nat) (work : β) :
    (d.suspend now duration work).Coherent where
  numbered := h.numbered
  held due k i a hmem := by
    rcases mem_suspend.1 hmem with hmem | heq
    · exact h.held due k i a hmem
    · cases heq
  apart := by
    simp only [Debouncer.suspend, List.pairwise_append, List.pairwise_singleton, true_and,
      List.mem_singleton, forall_eq]
    exact ⟨h.apart, fun _ _ _ _ => rfl⟩

variable {front back : Agenda (Job κ α β)} {item : Agenda.Item (Job κ α β)}

/-- What is left of the agenda has nothing with the number of what was taken out. -/
theorem gone (h : d.Coherent) (hagenda : d.agenda = front ++ item :: back) {i : Nat}
    (hi : item.job.hasId i = true) : ∀ e ∈ front ++ back, e.job.hasId i = false := by
  have hapart := h.apart
  rw [hagenda, List.pairwise_append, List.pairwise_cons] at hapart
  intro e he
  rcases List.mem_append.1 he with he | he
  · cases hno : e.job.hasId i with
    | false => rfl
    | true =>
      have := hapart.2.2 e he item (List.mem_cons_self ..) i hno
      simp [this] at hi
  · exact hapart.2.1.1 e he i hi

/-- A number belongs to one action of the agenda. -/
theorem unique (h : d.Coherent) {due due' i : Nat} {k k' : κ} {a a' : α}
    (hmem : ⟨due, .fire k i a⟩ ∈ d.agenda) (hmem' : ⟨due', .fire k' i a'⟩ ∈ d.agenda) :
    due' = due ∧ k' = k ∧ a' = a := by
  obtain ⟨front, back, hagenda⟩ := List.append_of_mem hmem
  have hgone := h.gone hagenda (i := i) (by simp [Job.hasId])
  rw [hagenda, List.mem_append, List.mem_cons] at hmem'
  rcases hmem' with hmem' | heq | hmem'
  · simpa [Job.hasId] using hgone _ (List.mem_append_left _ hmem')
  · cases heq
    exact ⟨rfl, rfl, rfl⟩
  · simpa [Job.hasId] using hgone _ (List.mem_append_right _ hmem')

theorem apart_rest (h : d.Coherent) (hagenda : d.agenda = front ++ item :: back) :
    (front ++ back).Pairwise fun x y => ∀ i, x.job.hasId i = true → y.job.hasId i = false := by
  have hapart := h.apart
  rw [hagenda] at hapart
  exact hapart.sublist (List.Sublist.append_left (List.sublist_cons_self _ _) _)

/-- Work that goes on is taken out of the agenda. -/
theorem resumed (h : d.Coherent) (hagenda : d.agenda = front ++ item :: back) :
    ({ d with agenda := front ++ back } : Debouncer κ α β).Coherent where
  numbered := h.numbered
  held due k i a hmem := h.held due k i a (Agenda.mem_of_mem_rest hagenda hmem)
  apart := h.apart_rest hagenda

/-- An action is taken out of the agenda and of the ledger. -/
theorem fired (h : d.Coherent) {due i : Nat} {key : κ} {a : α}
    (hagenda : d.agenda = front ++ ⟨due, .fire key i a⟩ :: back) :
    (⟨d.ledger.erase key, front ++ back⟩ : Debouncer κ α β).Coherent where
  numbered := h.numbered.erase key
  held due' k j a' hmem := by
    have hheld := h.held due' k j a' (Agenda.mem_of_mem_rest hagenda hmem)
    simp only [Ledger.id?_erase]
    rw [if_neg, hheld]
    rintro rfl
    have hi := h.held due k i a (by rw [hagenda]; simp)
    obtain rfl : j = i := by rw [hheld] at hi; exact Option.some.inj hi
    have hgone := h.gone hagenda (i := j) (by simp [Job.hasId]) _ hmem
    simp [Job.hasId] at hgone
  apart := h.apart_rest hagenda

end Coherent

/-! ## When the actions of a key are due -/

/-- When a job is due, if it is an action of a key. -/
def dueFor (key : κ) (e : Agenda.Item (Job κ α β)) : Option Nat :=
  match e.job with
  | .fire k _ _ => if k = key then some e.due else none
  | .resume _ => none

/-- When the actions of a key are due. -/
def dues (d : Debouncer κ α β) (key : κ) : List Nat := d.agenda.filterMap (dueFor key)

variable {d : Debouncer κ α β} {key k : κ}

theorem filterMap_dueFor_eq_nil {agenda : Agenda (Job κ α β)}
    (h : ∀ due i a, ⟨due, .fire key i a⟩ ∉ agenda) : agenda.filterMap (dueFor key) = [] := by
  refine List.filterMap_eq_nil_iff.2 fun e he => ?_
  obtain ⟨due, job⟩ := e
  cases job with
  | resume work => rfl
  | fire k i a =>
    simp only [dueFor]
    rw [if_neg]
    rintro rfl
    exact h due i a he

theorem mem_dues {due : Nat} : due ∈ d.dues key ↔ ∃ i a, ⟨due, .fire key i a⟩ ∈ d.agenda := by
  simp only [dues, List.mem_filterMap]
  constructor
  · rintro ⟨⟨due', job⟩, hmem, hdue⟩
    cases job with
    | resume work => cases hdue
    | fire k i a =>
      simp only [dueFor, Option.ite_none_right_eq_some, Option.some.injEq] at hdue
      obtain ⟨rfl, rfl⟩ := hdue
      exact ⟨i, a, hmem⟩
  · rintro ⟨i, a, hmem⟩
    exact ⟨_, hmem, by simp [dueFor]⟩

theorem Coherent.dues_abort (h : d.Coherent) (key k : κ) :
    (d.abort (d.ledger.id? key)).dues k = if k = key then [] else d.dues k := by
  split
  · rename_i hk
    subst hk
    exact filterMap_dueFor_eq_nil fun due i a hmem => h.ne_of_mem_abort hmem rfl
  · rename_i hk
    -- only the action of `key` is taken out
    unfold dues abort
    cases hid : d.ledger.id? key with
    | none => rfl
    | some id =>
      rw [List.filterMap_filter]
      refine List.filterMap_congr fun e he => ?_
      obtain ⟨due, job⟩ := e
      cases job with
      | resume work => rfl
      | fire k' i a =>
        by_cases hk' : k' = k
        · subst hk'
          have hmem := h.mem_abort_of_ne he hk
          rw [hid] at hmem
          simp [(mem_abort.1 hmem).2 id rfl]
        · simp [dueFor, hk']

theorem Coherent.dues_trigger (h : d.Coherent) (now : Nat) (key : κ) (delay : Nat) (action : α) (k : κ) :
    (d.trigger now key delay action).dues k =
      if k = key then [Agenda.dueAfter now delay] else d.dues k := by
  have habort := h.dues_abort key k
  unfold dues at habort ⊢
  simp only [Debouncer.trigger, List.filterMap_append, habort]
  by_cases hk : k = key
  · subst hk
    simp [dueFor]
  · simp [dueFor, hk, Ne.symm hk]

theorem Coherent.dues_cancel (h : d.Coherent) (key k : κ) :
    (d.cancel key).dues k = if k = key then [] else d.dues k :=
  h.dues_abort key k

theorem dues_cancelAll (d : Debouncer κ α β) (k : κ) : d.cancelAll.dues k = [] := by
  refine filterMap_dueFor_eq_nil fun due i a hmem => ?_
  simpa [Job.isFire] using (mem_cancelAll.1 hmem).2

/-- An action that is taken out of the agenda was the only one of its key. -/
theorem Coherent.dues_fired (h : d.Coherent) {front back : Agenda (Job κ α β)} {due i : Nat} {a : α}
    (hagenda : d.agenda = front ++ ⟨due, .fire key i a⟩ :: back) (k : κ) :
    (front ++ back).filterMap (dueFor k) = if k = key then [] else d.dues k := by
  split
  · rename_i hk
    subst hk
    refine filterMap_dueFor_eq_nil fun due' j a' hmem => ?_
    have hheld := (h.fired hagenda).held due' k j a' hmem
    simp [Ledger.id?_erase] at hheld
  · rename_i hk
    simp [dues, hagenda, dueFor, Ne.symm hk]

theorem Coherent.dues_eq_singleton (h : d.Coherent) {front back : Agenda (Job κ α β)} {due i : Nat} {a : α}
    (hagenda : d.agenda = front ++ ⟨due, .fire key i a⟩ :: back) : d.dues key = [due] := by
  have hrest := h.dues_fired hagenda key
  simp only [if_true, List.filterMap_append, List.append_eq_nil_iff] at hrest
  simp [dues, hagenda, dueFor, hrest]

/-- A debouncer that holds nothing but actions of one key holds at most one. -/
theorem Coherent.agenda_of_one_key (h : d.Coherent)
    (hkey : ∀ e ∈ d.agenda, ∃ i a, e.job = .fire key i a) :
    d.agenda = [] ∨ ∃ due i a, d.agenda = [⟨due, .fire key i a⟩] := by
  cases hagenda : d.agenda with
  | nil => exact .inl rfl
  | cons first rest =>
    rw [hagenda] at hkey
    obtain ⟨due, job⟩ := first
    obtain ⟨i, a, rfl : job = _⟩ := hkey _ (List.mem_cons_self ..)
    have hfront : d.agenda = [] ++ ⟨due, .fire key i a⟩ :: rest := hagenda
    have hrest : rest.filterMap (dueFor key) = [] := by simpa using h.dues_fired hfront key
    have hnone : rest = [] := by
      refine List.eq_nil_iff_forall_not_mem.2 fun e he => ?_
      obtain ⟨j, b, hjob⟩ := hkey e (List.mem_cons_of_mem _ he)
      simpa [dueFor, hjob] using List.filterMap_eq_nil_iff.1 hrest e he
    exact .inr ⟨due, i, a, by rw [hnone]⟩

end Debouncer

end LangHost
