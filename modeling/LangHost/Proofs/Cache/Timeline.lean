import LangHost.Proofs.Cache.Recency
import Mathlib.Data.List.Induction
/-!
# When sweeps take place

What decides about sweeps is which limits were put in force last, and when: sweeps take place once
every interval from that time on, and at no other time. `Timeline` keeps just that much of a cache
in use. While its clock is only moved by waiting, a cache sweeps by its timeline: at every time on
the grid, and so nothing lies in it that was idle for too long at the last time of the grid
(`sweeps_on_grid`).
-/

namespace LangHost.Cache

variable {κ ν : Type}

/-! ## The timeline -/

/-- Limits, and the time at which they were put in force. -/
structure Term where
  limits : Limits
  since : Nat

namespace Term

/-- How many sweeps the limits have asked for up to a time. -/
def count (p : Term) (now : Nat) : Nat := (now - p.since) / p.limits.sweepInterval

/-- The time of a sweep. They are counted from one, for the limits are put in force without. -/
def tick (p : Term) (n : Nat) : Nat := p.since + n * p.limits.sweepInterval

/-- The sweeps to come at a time. -/
def sweep? (p : Term) (now : Nat) : Option Sweep :=
  if h : p.limits.sweeps then
    some ⟨p.tick (p.count now + 1), p.limits.sweepInterval, p.limits.ttl, p.limits.sweepInterval_pos h⟩
  else none

end Term

/-- The time, and the limits in force. After disposal there are none. -/
structure Timeline where
  now : Nat
  term : Option Term

namespace Timeline

/-- What becomes of the timeline in an act. -/
def step (x : Timeline) : Act κ ν → Timeline
  | .get _ _ _ => x
  | .succeed _ _ => x
  | .fail _ => x
  | .remove _ => x
  | .removeIdle _ => x
  | .configure limits => { x with term := x.term.map fun _ => ⟨limits, x.now⟩ }
  | .dispose => { x with term := none }
  | .wait duration => { x with now := x.now + duration }

/-- The timeline of a new cache after some acts. -/
def of (limits : Limits) (now : Nat) (acts : List (Act κ ν)) : Timeline :=
  acts.foldl step ⟨now, some ⟨limits, now⟩⟩

@[simp] theorem of_concat (limits : Limits) (now : Nat) (acts : List (Act κ ν)) (a : Act κ ν) :
    of limits now (acts ++ [a]) = (of limits now acts).step a := by
  simp [of]

/-- Limits are in force until the cache is disposed of. -/
theorem term_eq_none {limits : Limits} {now : Nat} {acts : List (Act κ ν)} :
    (of limits now acts).term = none ↔ .dispose ∈ acts := by
  induction acts using List.reverseRecOn with
  | nil => simp [of]
  | append_singleton acts a ih => cases a <;> simp [step, ih]

end Timeline

/-! ## The grid -/

namespace Term

variable {p : Term} {now later : Nat}

theorem sweep?_eq_some {s : Sweep} : p.sweep? now = some s ↔
    p.limits.ttl ≠ 0 ∧ p.limits.sweepInterval ≠ 0 ∧ s.ttl = p.limits.ttl ∧
      s.interval = p.limits.sweepInterval ∧ s.next = p.tick (p.count now + 1) := by
  obtain ⟨next, interval, ttl, pos⟩ := s
  unfold sweep?
  split
  · rename_i h
    simp only [Limits.sweeps, Bool.and_eq_true, bne_iff_ne] at h
    simp only [Option.some.injEq, Sweep.mk.injEq]
    grind
  · rename_i h
    simp only [Limits.sweeps, Bool.and_eq_true, bne_iff_ne] at h
    grind

theorem tick_le_iff (hpos : 0 < p.limits.sweepInterval) (hsince : p.since ≤ now) (n : Nat) :
    p.tick n ≤ now ↔ n ≤ p.count now := by
  rw [count, Nat.le_div_iff_mul_le hpos, tick]
  omega

theorem tick_add (n k : Nat) : p.tick (n + k) = p.tick n + k * p.limits.sweepInterval := by
  rw [tick, tick, Nat.add_mul]
  omega

theorem count_mono (h : now ≤ later) : p.count now ≤ p.count later :=
  Nat.div_le_div_right (by omega)

/-- The sweeps between two times are those that are due by the second of them. -/
theorem dueBy_eq {s : Sweep} (hs : p.sweep? now = some s) (hsince : p.since ≤ now)
    (hle : now ≤ later) : s.dueBy later = p.count later - p.count now := by
  obtain ⟨-, hne, -, hinterval, hnext⟩ := sweep?_eq_some.1 hs
  have hpos := Nat.pos_of_ne_zero hne
  unfold Sweep.dueBy
  rw [hnext, hinterval]
  split
  · rename_i hdue
    have hcount := (tick_le_iff hpos (by omega) _).1 hdue
    have hfrom : later - p.tick (p.count now + 1) =
        later - p.since - p.limits.sweepInterval * (p.count now + 1) := by
      rw [tick, Nat.mul_comm]
      omega
    rw [hfrom, Nat.sub_mul_div, ← count]
    omega
  · rename_i hdue
    rw [tick_le_iff hpos (by omega)] at hdue
    omega

theorem after_eq {s : Sweep} (hs : p.sweep? now = some s) (hsince : p.since ≤ now)
    (hle : now ≤ later) : p.sweep? later = some (s.after later) := by
  have hdue := dueBy_eq hs hsince hle
  have hmono := p.count_mono hle
  obtain ⟨httl, hne, hs_ttl, hinterval, hnext⟩ := sweep?_eq_some.1 hs
  refine sweep?_eq_some.2 ⟨httl, hne, hs_ttl, hinterval, ?_⟩
  simp only [Sweep.after, hdue, hnext, hinterval]
  rw [← tick_add]
  congr 1
  omega

/-- The sweeps between two times are at the times of the grid that lie between them. -/
theorem mem_ticks {s : Sweep} (hs : p.sweep? now = some s) (hsince : p.since ≤ now)
    (hle : now ≤ later) {t : Nat} :
    t ∈ s.ticks later ↔ ∃ n, t = p.tick (n + 1) ∧ now < t ∧ t ≤ later := by
  have hdue := dueBy_eq hs hsince hle
  obtain ⟨-, hne, -, hinterval, hnext⟩ := sweep?_eq_some.1 hs
  have hpos := Nat.pos_of_ne_zero hne
  have hafter (n : Nat) : now < p.tick n ↔ p.count now < n := by
    rw [← Nat.not_le, tick_le_iff hpos hsince, Nat.not_le]
  have hbefore (n : Nat) : p.tick n ≤ later ↔ n ≤ p.count later := tick_le_iff hpos (by omega) n
  simp only [Sweep.ticks, hdue, hnext, hinterval, List.mem_map, List.mem_range, ← tick_add]
  constructor
  · rintro ⟨i, hi, rfl⟩
    refine ⟨p.count now + i, ?_, (hafter _).2 (by omega), (hbefore _).2 (by omega)⟩
    congr 1
    omega
  · rintro ⟨n, rfl, hlt, hle⟩
    have hn := (hafter _).1 hlt
    have hn' := (hbefore _).1 hle
    refine ⟨n - p.count now, by omega, ?_⟩
    congr 1
    omega

end Term

theorem Sweep.ticks_increasing (s : Sweep) (now : Nat) : (s.ticks now).Pairwise (· < ·) := by
  refine List.pairwise_map.2 (List.pairwise_lt_range.imp fun {i j} hij => ?_)
  have := Nat.mul_lt_mul_of_pos_right hij s.interval_pos
  omega

/-! ## A sweep -/

/-- Some entries have been dropped: just those that were not used for longer than told, and they have
been counted. -/
structure Expires (maxIdle now : Nat) (c c' : Cache κ ν) : Prop where
  kept : ∀ e, e ∈ c'.entries ↔ e ∈ c.entries ∧ now - e.lastAccess ≤ maxIdle
  counted : c'.stats.expirations + c'.entries.length = c.stats.expirations + c.entries.length
  /-- Nothing was used as long ago as before the clock began. -/
  early : now < maxIdle → c' = c

theorem expires_removeIdle (c : Cache κ ν) (maxIdle now : Nat) :
    Expires maxIdle now c (c.removeIdle maxIdle now) where
  kept e := by
    simp only [removeIdle, List.mem_filter, Entry.idle, Bool.not_eq_true', decide_eq_false_iff_not]
    refine and_congr_right fun _ => ?_
    omega
  counted := by
    have hfewer := List.length_filter_le (fun e => !e.idle maxIdle now) c.entries
    simp only [removeIdle]
    omega
  early h := by
    have hall : c.entries.filter (fun e => !e.idle maxIdle now) = c.entries := by
      refine List.filter_eq_self.2 fun e _ => ?_
      simp only [Entry.idle, Bool.not_eq_true', decide_eq_false_iff_not]
      omega
    simp [removeIdle, hall]

/-- A cache after sweeps at the given times, one after the other. -/
def sweepAt (ttl : Nat) (times : List Nat) (c : Cache κ ν) : Cache κ ν :=
  times.foldl (fun c t => c.removeIdle ttl t) c

/-- The sweeps up to a time are sweeps at its ticks. -/
theorem sweepUntil_ticks (now : Nat) (s : Sweep) (c : Cache κ ν) :
    sweepUntil now s c = { c.sweepAt s.ttl (s.ticks now) with sweep := some (s.after now) } := by
  fun_induction sweepUntil now s c with
  | case1 s c hdue ih =>
    rw [ih, Sweep.ticks_skip hdue, Sweep.after_skip hdue]
    rfl
  | case2 s c hdue =>
    have hnone : s.dueBy now = 0 := if_neg hdue
    simp [Sweep.ticks, Sweep.after, hnone, sweepAt]

/-! ## A cache sweeps by its timeline -/

theorem Term.sweep?_since (limits : Limits) (now : Nat) :
    (Term.mk limits now).sweep? now = limits.sweep? now := by
  have htick : (Term.mk limits now).tick ((Term.mk limits now).count now + 1) =
      now + limits.sweepInterval := by
    simp [tick, count]
  simp only [sweep?, Limits.sweep?, htick]

/-- The sweeps of a list are those of a timeline, and nothing lies in the list that was idle for too
long at the last of them. -/
structure Timed (x : Timeline) (r : Recency κ ν) : Prop where
  clock : r.clock = ⟨x.now, false⟩
  disposed : r.disposed = x.term.isNone
  sweep : r.sweep = x.term.bind (·.sweep? x.now)
  since : ∀ p, x.term = some p → p.since ≤ x.now
  swept : ∀ p, x.term = some p → p.limits.sweeps = true → 0 < p.count x.now →
    ∀ e ∈ r.elements, p.tick (p.count x.now) ≤ e.lastUse + p.limits.ttl

namespace Timed

variable {x : Timeline} {r : Recency κ ν}

theorem start (limits : Limits) (now : Nat) :
    Timed ⟨now, some ⟨limits, now⟩⟩ (Recency.start limits ⟨now, false⟩ : Recency κ ν) where
  clock := rfl
  disposed := rfl
  sweep := (Term.sweep?_since limits now).symm
  since p hp := by
    cases hp
    exact Nat.le_refl now
  swept p _ _ _ e he := by cases he

/-- What is used now was not idle at the last sweep. -/
theorem use (h : Timed x r) {r' : Recency κ ν} (hclock : r'.clock = r.clock)
    (hdisposed : r'.disposed = r.disposed) (hsweep : r'.sweep = r.sweep)
    (hused : ∀ e ∈ r'.elements, e ∈ r.elements ∨ e.lastUse = r.clock.time) : Timed x r' where
  clock := hclock.trans h.clock
  disposed := hdisposed.trans h.disposed
  sweep := hsweep.trans h.sweep
  since := h.since
  swept p hp hsweeps hcount e he := by
    rcases hused e he with he | huse
    · exact h.swept p hp hsweeps hcount e he
    · have hlast := (Term.tick_le_iff (p.limits.sweepInterval_pos hsweeps) (h.since p hp) _).2
        (Nat.le_refl (p.count x.now))
      simp only [h.clock] at huse
      omega

/-- What is not idle at any sweep while time passes was not idle at the last one. -/
theorem outlasted {p : Term} (hp : x.term = some p) (h : Timed x r) {s : Sweep}
    (hs : p.sweep? x.now = some s) (hsweeps : p.limits.sweeps = true) {later : Nat}
    (hle : x.now ≤ later) (hcount : 0 < p.count later) {e : Recency.Element κ ν} (he : e ∈ r.elements)
    (hticks : ∀ t ∈ s.ticks later, t ≤ e.lastUse + s.ttl) :
    p.tick (p.count later) ≤ e.lastUse + p.limits.ttl := by
  have hsince := h.since p hp
  obtain ⟨-, -, httl, -⟩ := Term.sweep?_eq_some.1 hs
  have hiff {now : Nat} (hnow : p.since ≤ now) := Term.tick_le_iff (p.limits.sweepInterval_pos hsweeps) hnow
  have hlast : p.tick (p.count later) ≤ later := (hiff (by omega) _).2 (Nat.le_refl _)
  by_cases hnew : x.now < p.tick (p.count later)
  · have hmem : p.tick (p.count later) ∈ s.ticks later := by
      refine (Term.mem_ticks hs hsince hle).2 ⟨p.count later - 1, ?_, hnew, hlast⟩
      congr 1
      omega
    exact httl ▸ hticks _ hmem
  · -- there was no sweep, so the last one is the one from before
    have hsame : p.count later = p.count x.now :=
      Nat.le_antisymm ((hiff hsince _).1 (Nat.le_of_not_lt hnew)) (p.count_mono hle)
    rw [hsame] at hcount ⊢
    exact h.swept p hp hsweeps hcount e he

variable [DecidableEq κ]

theorem wait (h : Timed x r) (duration : Nat) :
    Timed (x.step (.wait duration : Act κ ν)) (r.step (.wait duration)) := by
  have hle : x.now ≤ x.now + duration := Nat.le_add_right _ _
  simp only [Timeline.step, Recency.step, Clock.later, h.clock, h.sweep]
  cases hterm : x.term with
  | none =>
    refine ⟨rfl, ?_, rfl, fun p hp => (by cases hp), fun p hp => (by cases hp)⟩
    rw [h.disposed, hterm]
  | some p =>
    have hsince := h.since p hterm
    simp only [Option.bind_some]
    cases hs : p.sweep? x.now with
    | none =>
      have hoff : ¬ p.limits.sweeps = true := by simpa [Term.sweep?] using hs
      refine ⟨rfl, ?_, ?_, ?_, ?_⟩
      · rw [h.disposed, hterm]
      · simp [Term.sweep?, hoff]
      · rintro p ⟨⟩
        exact Nat.le_trans hsince hle
      · rintro p ⟨⟩ hsweeps
        exact absurd hsweeps hoff
    | some s =>
      refine ⟨rfl, ?_, (Term.after_eq hs hsince hle).symm, ?_, ?_⟩
      · rw [h.disposed, hterm]
      · rintro p ⟨⟩
        exact Nat.le_trans hsince hle
      · rintro p ⟨⟩ hsweeps hcount e he
        obtain ⟨he, hall⟩ := List.mem_filter.1 he
        refine outlasted hterm h hs hsweeps hle hcount he fun t ht => ?_
        have hkept := List.all_eq_true.1 hall t ht
        simpa [Recency.Element.idle] using hkept

theorem configure (h : Timed x r) (limits : Limits) :
    Timed (x.step (.configure limits : Act κ ν)) (r.step (.configure limits)) := by
  simp only [Timeline.step, Recency.step, h.disposed]
  cases hterm : x.term with
  | none =>
    simp only [Option.isNone_none, if_true, Option.map_none]
    rw [← hterm]
    exact h
  | some p =>
    simp only [Option.isNone_some, Bool.false_eq_true, if_false, Option.map_some]
    refine ⟨h.clock, rfl, ?_, ?_, ?_⟩
    · simp only [h.clock, Option.bind_some, Term.sweep?_since]
    · rintro p ⟨⟩
      exact Nat.le_refl x.now
    · rintro p ⟨⟩ - hcount
      simp [Term.count] at hcount

theorem step (h : Timed x r) (a : Act κ ν) : Timed (x.step a) (r.step a) := by
  cases a with
  | get key version kind =>
    simp only [Timeline.step, Recency.step]
    split
    · refine h.use rfl rfl rfl fun e he => ?_
      rcases List.mem_cons.1 he with rfl | he
      · exact .inr rfl
      · exact .inl (List.mem_filter.1 he).1
    · exact h.use rfl rfl rfl fun e he => .inl he
  | succeed place value =>
    simp only [Timeline.step, Recency.step]
    split
    · exact h
    · refine h.use rfl rfl rfl fun e he => ?_
      simp only at he
      split at he
      · exact .inl he
      · rcases List.mem_cons.1 (List.mem_of_mem_take he) with rfl | he
        · exact .inr rfl
        · exact .inl (List.mem_filter.1 he).1
  | fail place => exact h.use rfl rfl rfl fun e he => .inl he
  | remove key => exact h.use rfl rfl rfl fun e he => .inl (List.mem_filter.1 he).1
  | removeIdle maxIdle => exact h.use rfl rfl rfl fun e he => .inl (List.mem_filter.1 he).1
  | configure limits => exact h.configure limits
  | dispose => exact ⟨h.clock, rfl, rfl, fun p hp => (by cases hp), fun p hp => (by cases hp)⟩
  | wait duration => exact h.wait duration

end Timed

section Sweeping

variable [DecidableEq κ]

theorem timed_run (limits : Limits) (now : Nat) (acts : List (Act κ ν)) :
    Timed (Timeline.of limits now acts)
      ((Usage.start limits ⟨now, false⟩ : Usage κ ν).run acts).recency := by
  induction acts using List.reverseRecOn with
  | nil =>
    rw [Usage.run_nil, (Ordered.start limits ⟨now, false⟩).recency_eq]
    exact .start limits now
  | append_singleton acts a ih =>
    rw [Usage.run_append, Timeline.of_concat]
    rw [((Ordered.start limits ⟨now, false⟩).run acts).recency_run]
    exact ih.step a

/-- Limits that are put in force set the room, and nothing else does. -/
theorem Timed.limit_step {x : Timeline} {r : Recency κ ν} (h : Timed x r)
    (hlimit : ∀ p, x.term = some p → r.limit = p.limits.capacity) (a : Act κ ν) :
    ∀ p, (x.step a).term = some p → (r.step a).limit = p.limits.capacity := by
  intro p hp
  cases a with
  | get key version kind =>
    simp only [Recency.step]
    split <;> exact hlimit p hp
  | succeed place value =>
    simp only [Recency.step]
    split <;> exact hlimit p hp
  | configure limits =>
    obtain ⟨q, hq, rfl⟩ := Option.map_eq_some_iff.1 hp
    simp only [Recency.step, h.disposed, hq]
    rfl
  | dispose => cases hp
  | fail _ => exact hlimit p hp
  | remove _ => exact hlimit p hp
  | removeIdle _ => exact hlimit p hp
  | wait _ => exact hlimit p hp

/-- A cache has the room that the limits in force allow. -/
theorem capacity_run (limits : Limits) (now : Nat) (acts : List (Act κ ν)) :
    ∀ p, (Timeline.of limits now acts).term = some p →
      ((Usage.start limits ⟨now, false⟩ : Usage κ ν).run acts).recency.limit = p.limits.capacity := by
  induction acts using List.reverseRecOn with
  | nil =>
    rintro p ⟨⟩
    rfl
  | append_singleton acts a ih =>
    rw [Usage.run_append, Timeline.of_concat]
    rw [((Ordered.start limits ⟨now, false⟩).run acts).recency_run]
    exact (timed_run limits now acts).limit_step ih a

/-- A cache sweeps as limits ask for that are in force. -/
structure SweepsBy (p : Term) (u : Usage κ ν) : Prop where
  /-- The next sweep is at the next time of the grid. -/
  next : ∃ s, u.cache.sweep = some s ∧ s.ttl = p.limits.ttl ∧ s.interval = p.limits.sweepInterval ∧
    s.next = p.tick (p.count u.clock.time + 1)
  /-- After the first sweep, nothing is there that was idle for too long at the last one. -/
  swept : p.since + p.limits.sweepInterval ≤ u.clock.time → ∀ e ∈ u.cache.entries,
    p.tick (p.count u.clock.time) ≤ e.lastAccess + p.limits.ttl
  /-- While time passes, sweeps are at the times of the grid, and nothing else becomes of the cache. -/
  passing : ∀ duration, ∃ times sweep, times.Pairwise (· < ·) ∧
    (∀ t, t ∈ times ↔ ∃ n, t = p.tick (n + 1) ∧ u.clock.time < t ∧ t ≤ u.clock.time + duration) ∧
    (u.step (.wait duration)).cache = { u.cache.sweepAt p.limits.ttl times with sweep }

theorem Timed.sweepsBy {x : Timeline} {u : Usage κ ν} {p : Term} (hu : Ordered u)
    (h : Timed x u.recency) (hp : x.term = some p) (httl : p.limits.ttl ≠ 0)
    (hinterval : p.limits.sweepInterval ≠ 0) : SweepsBy p u := by
  have hsince := h.since p hp
  have hclock : u.clock = ⟨x.now, false⟩ := h.clock
  have hsweeps : p.limits.sweeps = true := by simp [Limits.sweeps, httl, hinterval]
  obtain ⟨s, hs⟩ : ∃ s, p.sweep? x.now = some s := ⟨_, dif_pos hsweeps⟩
  have hsweep : u.cache.sweep = some s := by
    have hsweep : u.cache.sweep = x.term.bind (·.sweep? x.now) := h.sweep
    rw [hsweep, hp, Option.bind_some, hs]
  obtain ⟨-, -, hs_ttl, hs_interval, hs_next⟩ := Term.sweep?_eq_some.1 hs
  refine ⟨⟨s, hsweep, hs_ttl, hs_interval, hclock ▸ hs_next⟩, fun hfirst e he => ?_, fun duration => ?_⟩
  · rw [hclock] at hfirst ⊢
    have hcount : 0 < p.count x.now := by
      refine (Term.tick_le_iff (Nat.pos_of_ne_zero hinterval) hsince 1).1 ?_
      rw [Term.tick, Nat.one_mul]
      exact hfirst
    refine h.swept p hp hsweeps hcount e.element ?_
    rw [hu.recency_elements]
    exact List.mem_map_of_mem he
  · refine ⟨s.ticks (x.now + duration), some (s.after (x.now + duration)), s.ticks_increasing _, ?_, ?_⟩
    · intro t
      rw [hclock]
      exact Term.mem_ticks hs hsince (Nat.le_add_right _ _)
    · simp only [Usage.step, advance, hsweep, hclock, Clock.later, sweepUntil_ticks, hs_ttl]

/-- A cache sweeps just while limits are in force that ask for it, at the times that lie whole
intervals after the time at which they were put in force. A sweep drops just what has been idle for
longer than the limits allow, as does a call that asks for it, and whatever is dropped is counted. -/
theorem sweeps_on_grid (limits : Limits) (now : Nat) (acts : List (Act κ ν)) :
    let u := (Usage.start limits ⟨now, false⟩).run acts
    let x := Timeline.of limits now acts
    u.clock.time = x.now ∧ (x.term = none ↔ .dispose ∈ acts) ∧
      (u.cache.sweep.isSome ↔
        ∃ p, x.term = some p ∧ p.limits.ttl ≠ 0 ∧ p.limits.sweepInterval ≠ 0) ∧
      (∀ p, x.term = some p → p.limits.ttl ≠ 0 → p.limits.sweepInterval ≠ 0 → SweepsBy p u) ∧
      (u.cache.sweep = none → ∀ duration, (u.step (.wait duration)).cache = u.cache) ∧
      (∀ maxIdle, Expires maxIdle x.now u.cache (u.step (.removeIdle maxIdle)).cache) ∧
      ∀ ttl t (c : Cache κ ν), Expires ttl t c (c.sweepAt ttl [t]) := by
  intro u x
  have hu : Ordered u := (Ordered.start limits ⟨now, false⟩).run acts
  have htimed : Timed x u.recency := timed_run limits now acts
  have hclock : u.clock = ⟨x.now, false⟩ := htimed.clock
  have hsweep : u.cache.sweep = x.term.bind (·.sweep? x.now) := htimed.sweep
  refine ⟨by rw [hclock], Timeline.term_eq_none, ?_, fun p => htimed.sweepsBy hu, fun hnone duration => ?_,
    fun maxIdle => ?_, fun ttl t c => expires_removeIdle c ttl t⟩
  · simp only [hsweep, Option.isSome_iff_exists, Option.bind_eq_some_iff]
    constructor
    · rintro ⟨s, p, hp, hs⟩
      obtain ⟨httl, hinterval, -⟩ := Term.sweep?_eq_some.1 hs
      exact ⟨p, hp, httl, hinterval⟩
    · rintro ⟨p, hp, httl, hinterval⟩
      exact ⟨_, p, hp, dif_pos (by simp [Limits.sweeps, httl, hinterval])⟩
  · simp only [Usage.step, advance, hnone]
  · simp only [Usage.step, hclock, Clock.present, Bool.false_eq_true, if_false]
    exact expires_removeIdle u.cache maxIdle x.now

end Sweeping

/-- A text is left alone while another one is looked up. -/
def leftAlone : List (Act String String) :=
  [.get "d" 1 "text", .succeed 0 "x", .wait 50, .get "e" 1 "text", .succeed 0 "y", .wait 60]

/-- Of two texts the one that is left alone is dropped at the second sweep. -/
theorem sweeps_on_grid_leftAlone :
    let u := (Usage.start ⟨10, 60, 50⟩ ⟨0, false⟩).run leftAlone
    u.cache.entries.map (·.key) = ["e"] ∧
      (∃ s, u.cache.sweep = some s ∧ s.ttl = 60 ∧ s.interval = 50 ∧ s.next = 150) ∧
      ∀ e ∈ u.cache.entries, 100 ≤ e.lastAccess + 60 := by
  intro u
  obtain ⟨htime, -, -, hsweeps, -⟩ := sweeps_on_grid ⟨10, 60, 50⟩ 0 leftAlone
  have hnow : u.clock.time = 110 := htime
  have hby : SweepsBy ⟨⟨10, 60, 50⟩, 0⟩ u := hsweeps _ rfl (by decide) (by decide)
  have hordered : Ordered u := (Ordered.start _ _).run leftAlone
  have hlist : u.recency = (Recency.start ⟨10, 60, 50⟩ ⟨0, false⟩).run leftAlone := by
    rw [(Ordered.start _ _).recency_run, (Ordered.start _ _).recency_eq]
    rfl
  refine ⟨?_, ?_, ?_⟩
  · have hkeys : u.cache.entries.map (·.key) = u.recency.elements.map (·.key) := by
      rw [hordered.recency_elements, List.map_map]
      rfl
    rw [hkeys, hlist]
    rfl
  · simpa [hnow, Term.tick, Term.count] using hby.next
  · simpa [hnow, Term.tick, Term.count] using hby.swept

end LangHost.Cache
