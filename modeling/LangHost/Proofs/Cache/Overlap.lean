import Mathlib.Data.List.Induction
import LangHost.Proofs.Cache.Recency
/-!
# Removals while a computation runs

What is computed is kept when the computation is over, whatever happened to its key meanwhile. So
every entry was stored after the last removal of its key, but the computation it comes from may have
begun before: that is the case if, and only if, the key was removed while the computation was running
(`begun_since_removal_iff`). Disposal is different, for a cache that was disposed of keeps nothing.
-/

namespace LangHost.Cache

variable {κ ν : Type}

/-! ## Where an entry comes from -/

/-- The computation that an entry comes from. -/
def Entry.computation (e : Entry κ ν) : Computation κ := ⟨e.key, e.version, e.kind, e.stored.serial⟩

/-- The lookup that asks for what a computation is to find. -/
def Computation.lookup (q : Computation κ) : Act κ ν := .get q.key q.version q.kind

variable [DecidableEq κ]

/-- The lookup for a computation would begin just this one: nothing serves it, and the number of the
computation is the next one. -/
def Usage.Begins (u : Usage κ ν) (q : Computation κ) : Prop :=
  u.cache.hit? q.key q.version q.kind = none ∧ u.cache.stats.misses = q.serial

/-- Of the acts, one began the computation `q`, and those `since` came after it. -/
def Began (u : Usage κ ν) (acts : List (Act κ ν)) (q : Computation κ) (since : List (Act κ ν)) : Prop :=
  ∃ before, acts = before ++ q.lookup :: since ∧ (u.run before).Begins q

/-- The computation of an entry began after the last removal of its key. -/
def BegunSinceRemoval (u : Usage κ ν) (acts : List (Act κ ν)) (e : Entry κ ν) : Prop :=
  ∃ since, Began u acts e.computation since ∧ .remove e.key ∉ since

/-- Of the acts, one began the computation of an entry, one after those `during` ended it, and the key
was not removed after that. -/
def Stored (u : Usage κ ν) (acts : List (Act κ ν)) (e : Entry κ ν) (during : List (Act κ ν)) : Prop :=
  ∃ earlier place after, acts = earlier ++ .succeed place e.stored.value :: after ∧
    Began u earlier e.computation during ∧ (u.run earlier).inFlight[place]? = some e.computation ∧
    .remove e.key ∉ after

variable {u : Usage κ ν} {a : Act κ ν}

/-- What is going on after an act went on before, or the act has begun it. -/
theorem mem_of_mem_inFlight {q : Computation κ} (h : q ∈ (u.step a).inFlight) :
    q ∈ u.inFlight ∨ a = q.lookup ∧ u.Begins q := by
  cases a with
  | get key version kind =>
    simp only [Usage.step] at h
    split at h
    · exact .inl h
    · rename_i hmiss
      rcases List.mem_cons.1 h with rfl | h
      · exact .inr ⟨rfl, hmiss, rfl⟩
      · exact .inl h
  | succeed place value =>
    simp only [Usage.step] at h
    split at h
    · exact .inl h
    · exact .inl (List.mem_of_mem_eraseIdx h)
  | fail place => exact .inl (List.mem_of_mem_eraseIdx h)
  | remove key => exact .inl h
  | removeIdle maxIdle => exact .inl h
  | configure limits => exact .inl h
  | dispose => exact .inl h
  | wait duration => exact .inl h

/-- An entry after an act was there before, at most used anew and not removed, or it comes from a
computation that has just succeeded. -/
theorem mem_of_mem_step {e : Entry κ ν} (h : e ∈ (u.step a).cache.entries) :
    (∃ e₀ ∈ u.cache.entries, e₀.computation = e.computation ∧ e₀.stored.value = e.stored.value ∧
      a ≠ .remove e.key) ∨
      ∃ place, a = .succeed place e.stored.value ∧ u.inFlight[place]? = some e.computation := by
  cases a with
  | get key version kind =>
    simp only [Usage.step] at h
    split at h
    · rename_i e₀ hhit
      rcases mem_of_mem_touch h with rfl | h
      · exact .inl ⟨e₀, (mem_of_hit? hhit).1, rfl, rfl, by simp⟩
      · exact .inl ⟨e, h, rfl, rfl, by simp⟩
    · exact .inl ⟨e, h, rfl, rfl, by simp⟩
  | succeed place value =>
    simp only [Usage.step] at h
    split at h
    · exact .inl ⟨e, h, rfl, rfl, by simp⟩
    · rename_i q hq
      rcases mem_of_mem_keep h with rfl | h
      · exact .inr ⟨place, rfl, hq⟩
      · exact .inl ⟨e, h, rfl, rfl, by simp⟩
  | fail place => exact .inl ⟨e, h, rfl, rfl, by simp⟩
  | remove key =>
    obtain ⟨h, hkey⟩ := mem_remove.1 h
    exact .inl ⟨e, h, rfl, rfl, by simpa using Ne.symm hkey⟩
  | removeIdle maxIdle => exact .inl ⟨e, mem_of_mem_removeIdle h, rfl, rfl, by simp⟩
  | configure limits => exact .inl ⟨e, mem_of_mem_configure h, rfl, rfl, by simp⟩
  | dispose => exact .inl ⟨e, mem_of_mem_dispose h, rfl, rfl, by simp⟩
  | wait duration => exact .inl ⟨e, mem_of_mem_advance h, rfl, rfl, by simp⟩

theorem Began.snoc {acts since : List (Act κ ν)} {q : Computation κ} (h : Began u acts q since)
    (a : Act κ ν) : Began u (acts ++ [a]) q (since ++ [a]) := by
  obtain ⟨before, rfl, hbegins⟩ := h
  exact ⟨before, by simp, hbegins⟩

/-- Everything that is going on was begun by an act. -/
theorem began_of_inFlight (hu : u.inFlight = []) (acts : List (Act κ ν)) {q : Computation κ}
    (hq : q ∈ (u.run acts).inFlight) : ∃ since, Began u acts q since := by
  induction acts using List.reverseRecOn with
  | nil => simp [hu] at hq
  | append_singleton acts a ih =>
    rw [Usage.run_append] at hq
    rcases mem_of_mem_inFlight hq with hq | ⟨rfl, hbegins⟩
    · obtain ⟨since, hbegan⟩ := ih hq
      exact ⟨since ++ [a], hbegan.snoc a⟩
    · exact ⟨[], acts, rfl, hbegins⟩

/-- Every entry was stored after the last removal of its key. -/
theorem stored_of_mem (hu : u.inFlight = []) (hempty : u.cache.entries = []) (acts : List (Act κ ν))
    {e : Entry κ ν} (he : e ∈ (u.run acts).cache.entries) : ∃ during, Stored u acts e during := by
  -- by the last act: what it leaves was there before, or it has just been stored
  induction acts using List.reverseRecOn generalizing e with
  | nil => simp [hempty] at he
  | append_singleton acts a ih =>
    rw [Usage.run_append] at he
    rcases mem_of_mem_step he with ⟨e₀, he₀, hsame, hvalue, ha⟩ | ⟨place, rfl, hplace⟩
    · obtain ⟨during, earlier, place, after, hacts, hbegan, hplace, hremoved⟩ := ih he₀
      have hkey : e₀.key = e.key := congrArg Computation.key hsame
      rw [hvalue] at hacts
      rw [hsame] at hbegan hplace
      rw [hkey] at hremoved
      refine ⟨during, earlier, place, after ++ [a], by simp [hacts], hbegan, hplace, ?_⟩
      simpa [hremoved] using Ne.symm ha
    · obtain ⟨during, hbegan⟩ := began_of_inFlight hu acts (List.mem_of_getElem? hplace)
      exact ⟨during, acts, place, [], rfl, hbegan, hplace, by simp⟩

/-! ## A computation begins once -/

theorem Recency.begun_le_step (r : Recency κ ν) (a : Act κ ν) : r.begun ≤ (r.step a).begun := by
  cases a with
  | get key version kind =>
    simp only [step]
    split
    · exact Nat.le_refl _
    · exact Nat.le_succ _
  | succeed place value =>
    simp only [step]
    split <;> exact Nat.le_refl _
  | configure limits =>
    simp only [step]
    split <;> exact Nat.le_refl _
  | dispose => exact Nat.le_refl _
  | fail _ => exact Nat.le_refl _
  | remove _ => exact Nat.le_refl _
  | removeIdle _ => exact Nat.le_refl _
  | wait _ => exact Nat.le_refl _

theorem Recency.begun_le_run (r : Recency κ ν) (acts : List (Act κ ν)) : r.begun ≤ (r.run acts).begun := by
  induction acts generalizing r with
  | nil => exact Nat.le_refl _
  | cons a acts ih => exact Nat.le_trans (r.begun_le_step a) (ih (r.step a))

/-- The number of a computation that has begun is not the next one again. -/
theorem Usage.Begins.once {q : Computation κ} (h : u.Begins q) (hu : Ordered u)
    (more : List (Act κ ν)) : ¬ (u.run (q.lookup :: more)).Begins q := by
  intro hagain
  have hnext : (u.step q.lookup).recency.begun = q.serial + 1 := by
    simp [Usage.recency, Usage.step, Computation.lookup, h.1, Cache.miss, h.2]
  have hlast : ((u.step q.lookup).run more).recency.begun = q.serial := hagain.2
  have hle := Recency.begun_le_run (u.step q.lookup).recency more
  rw [← (hu.step q.lookup).recency_run, hnext, hlast] at hle
  omega

theorem Began.unique {acts since since' : List (Act κ ν)} {q : Computation κ} (hu : Ordered u)
    (h : Began u acts q since) (h' : Began u acts q since') : since = since' := by
  obtain ⟨before, rfl, hbegins⟩ := h
  obtain ⟨before', hacts, hbegins'⟩ := h'
  -- if one of them began before the other, it has used up the number
  rcases List.append_eq_append_iff.1 hacts with ⟨between, rfl, hrest⟩ | ⟨between, rfl, hrest⟩
  · cases between with
    | nil => simpa using hrest
    | cons a between =>
      obtain ⟨rfl, -⟩ := List.cons.inj hrest
      rw [Usage.run_append] at hbegins'
      exact absurd hbegins' (hbegins.once (hu.run before) between)
  · cases between with
    | nil => simpa using hrest.symm
    | cons a between =>
      obtain ⟨rfl, -⟩ := List.cons.inj hrest
      rw [Usage.run_append] at hbegins
      exact absurd hbegins (hbegins'.once (hu.run before') between)

/-! ## Removal and disposal -/

/-- What a computation has found is in the cache right after, whatever was removed before. -/
theorem exists_mem_succeed (hu : Ordered u) (hd : u.cache.disposed = false) {place : Nat}
    {q : Computation κ} (hq : u.inFlight[place]? = some q) (value : ν) :
    ∃ e ∈ (u.step (.succeed place value)).cache.entries,
      e.computation = q ∧ e.stored.value = value := by
  obtain ⟨evictions, hkeep⟩ := keep_eq hu.order hd q.key q.version q.kind ⟨q.serial, value⟩
  refine ⟨⟨q.key, q.version, q.kind, ⟨q.serial, value⟩, u.clock.time, u.cache.nextSeq⟩, ?_, rfl, rfl⟩
  simp only [Usage.step, hq, hkeep]
  obtain ⟨n, hn⟩ := Nat.exists_eq_succ_of_ne_zero (Nat.ne_of_gt hu.pos)
  rw [hn, List.take_succ_cons]
  exact List.mem_cons_self ..

theorem begun_since_removal_of_stored (hu : Ordered u) {acts during : List (Act κ ν)} {e : Entry κ ν}
    (h : Stored u acts e during) : BegunSinceRemoval u acts e ↔ .remove e.key ∉ during := by
  obtain ⟨earlier, place, after, rfl, ⟨before, rfl, hbegins⟩, -, hafter⟩ := h
  have hbegan : Began u (before ++ e.computation.lookup :: during ++ .succeed place e.stored.value :: after)
      e.computation (during ++ .succeed place e.stored.value :: after) :=
    ⟨before, by simp, hbegins⟩
  constructor
  · rintro ⟨since, hsince, hkey⟩ hremoved
    rw [← hbegan.unique hu hsince] at hkey
    exact hkey (List.mem_append_left _ hremoved)
  · intro hkey
    exact ⟨_, hbegan, by simp [hkey, hafter]⟩

/-- Every entry was stored after the last removal of its key, and its computation began after that
too just if the key was not removed while it was running: unless the cache was disposed of, whatever
a computation has found is stored. After disposal there are no entries. -/
theorem begun_since_removal_iff (limits : Limits) (clock : Clock) (acts : List (Act κ ν)) :
    (∀ e ∈ ((Usage.start limits clock).run acts).cache.entries,
      .dispose ∉ acts ∧ ∃ during, Stored (Usage.start limits clock) acts e during ∧
        (BegunSinceRemoval (Usage.start limits clock) acts e ↔ .remove e.key ∉ during)) ∧
      ∀ place q value, ((Usage.start limits clock).run acts).inFlight[place]? = some q →
        .dispose ∉ acts →
          ∃ e ∈ ((Usage.start limits clock).run (acts ++ [.succeed place value])).cache.entries,
            e.computation = q ∧ e.stored.value = value := by
  have hstart := Ordered.start (κ := κ) (ν := ν) limits clock
  have hu := hstart.run acts
  constructor
  · intro e he
    constructor
    · intro hdispose
      rw [(hu.gone (disposed_iff.2 hdispose)).1] at he
      exact List.not_mem_nil he
    · obtain ⟨during, hstored⟩ := stored_of_mem rfl rfl acts he
      exact ⟨during, hstored, begun_since_removal_of_stored hstart hstored⟩
  · intro place q value hq hdispose
    rw [Usage.run_append]
    apply exists_mem_succeed hu _ hq value
    exact Bool.eq_false_iff.2 fun h => hdispose (disposed_iff.1 h)

/-- A key is removed, and then it is looked up. -/
def removedBefore : List (Act String String) := [.remove "a", .get "a" 1 "text", .succeed 0 "model"]

/-- A key is looked up, and it is removed before the computation is over. -/
def removedDuring : List (Act String String) := [.get "a" 1 "text", .remove "a", .succeed 0 "model"]

/-- Nothing is amiss where the removal comes first. -/
theorem begun_since_removal_iff_removed_before :
    ∃ e ∈ ((Usage.start {} ⟨0, false⟩).run removedBefore).cache.entries,
      BegunSinceRemoval (Usage.start {} ⟨0, false⟩) removedBefore e := by
  refine ⟨⟨"a", 1, "text", ⟨0, "model"⟩, 0, 0⟩, List.mem_singleton.2 rfl, ?_⟩
  obtain ⟨hentries, -⟩ := begun_since_removal_iff {} ⟨0, false⟩ removedBefore
  obtain ⟨-, during, hstored, hiff⟩ :=
    hentries ⟨"a", 1, "text", ⟨0, "model"⟩, 0, 0⟩ (List.mem_singleton.2 rfl)
  refine hiff.2 fun hremoved => ?_
  -- the removal is the first act, so no lookup comes before it
  obtain ⟨earlier, place, after, hacts, ⟨before, rfl, -⟩, -⟩ := hstored
  have hlate : (.remove "a" : Act String String) ∈ removedBefore.tail := by
    cases before with
    | nil => cases hacts
    | cons a before =>
      rw [hacts]
      simp [hremoved]
  simp [removedBefore] at hlate

/-- A lookup whose computation removes the key leaves the key in the cache, and the entry, whose
computation began before the removal, serves the next lookup. -/
theorem kept_despite_removal :
    (Call.get "a" 1 "text" [.remove "a"] (.ok "model") : Call String String String).acts
        (Usage.start {} ⟨0, false⟩) = removedDuring ∧
      (∃ e ∈ ((Usage.start {} ⟨0, false⟩).run removedDuring).cache.entries,
        ¬ BegunSinceRemoval (Usage.start {} ⟨0, false⟩) removedDuring e) ∧
      ((Usage.start {} ⟨0, false⟩).run removedDuring).inFlight = [] ∧
      ((Usage.start {} ⟨0, false⟩).run removedDuring).answer? (.get "a" 1 "text") =
        some ⟨0, "model"⟩ := by
  refine ⟨rfl, ⟨⟨"a", 1, "text", ⟨0, "model"⟩, 0, 0⟩, List.mem_singleton.2 rfl, ?_⟩, rfl, rfl⟩
  rintro ⟨since, ⟨before, hacts, -⟩, hremoved⟩
  cases before with
  | nil =>
    obtain ⟨-, rfl⟩ := List.cons.inj hacts
    simp at hremoved
  | cons a before =>
    -- no act but the first one looks anything up
    have hlookup : (.get "a" 1 "text" : Act String String) ∈ removedDuring.tail := by
      rw [hacts]
      simp [Computation.lookup, Entry.computation]
    simp [removedDuring] at hlookup

end LangHost.Cache
