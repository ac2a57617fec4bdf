import LangHost.Proofs.Cache.Usage
import Mathlib.Data.List.Nodup
/-!
# The order of use

A victim is found by looking through all entries for the least recently used one. That the victims
are the right ones rests on the clock and on the numbers of uses: an entry that is put in front was
used later than all others (`InOrder.front`). So the entries always stand in the order of their use,
and to drive out the least recently used ones is to cut the list (`trim_eq`).

The sweeps up to a time are likewise put into one equation (`advance_eq`): they take place at
`Sweep.ticks`, and an entry stays if it is not idle at any of them.
-/

namespace LangHost.Cache

variable {κ ν : Type}

/-! ## Entries in the order of their use -/

/-- Every entry was used later than those behind it, at a time up to now and under a number that was
given out, and no two are of one key. -/
structure InOrder (now seq : Nat) (entries : List (Entry κ ν)) : Prop where
  recent : entries.Pairwise fun a b => b.olderThan a = true
  keys : (entries.map (·.key)).Nodup
  past : ∀ e ∈ entries, e.lastAccess ≤ now ∧ e.accessSeq < seq

namespace InOrder

variable {now seq : Nat} {entries entries' : List (Entry κ ν)}

theorem sublist (h : InOrder now seq entries) (hs : entries'.Sublist entries) :
    InOrder now seq entries' where
  recent := h.recent.sublist hs
  keys := h.keys.sublist (hs.map _)
  past e he := h.past e (hs.subset he)

theorem later (h : InOrder now seq entries) {now' : Nat} (hn : now ≤ now') :
    InOrder now' seq entries where
  recent := h.recent
  keys := h.keys
  past e he := ⟨Nat.le_trans (h.past e he).1 hn, (h.past e he).2⟩

/-- An entry that is used now comes first. -/
theorem front [DecidableEq κ] (h : InOrder now seq entries) {x : Entry κ ν} (ht : x.lastAccess = now)
    (hseq : x.accessSeq = seq) : InOrder now (seq + 1) (x :: without x.key entries) where
  recent := by
    have hrest : InOrder now seq (without x.key entries) := h.sublist List.filter_sublist
    refine List.pairwise_cons.2 ⟨fun e he => ?_, hrest.recent⟩
    -- at one time with `x`, the number of the use decides
    obtain ⟨hle, hlt⟩ := hrest.past e he
    simp only [Entry.olderThan, decide_eq_true_eq]
    omega
  keys := by
    refine List.nodup_cons.2 ⟨?_, h.keys.sublist (List.filter_sublist.map _)⟩
    simp [without]
  past e he := by
    rcases List.mem_cons.1 he with rfl | he
    · omega
    · have hpast := h.past e (List.mem_filter.1 he).1
      omega

end InOrder

/-- The entries by their last use, the latest first. -/
def byRecency (c : Cache κ ν) : List (Entry κ ν) := c.entries.mergeSort fun a b => !a.olderThan b

theorem InOrder.byRecency {now seq : Nat} {c : Cache κ ν} (h : InOrder now seq c.entries) :
    c.byRecency = c.entries := by
  refine List.mergeSort_of_pairwise (h.recent.imp fun {a b} hab => ?_)
  simp only [Entry.olderThan, decide_eq_true_eq, Bool.not_eq_true', decide_eq_false_iff_not] at hab ⊢
  omega

/-! ## Victims -/

section Victims

variable {e : Entry κ ν} {rest entries : List (Entry κ ν)}

theorem oldest_eq_getLast (h : (e :: rest).Pairwise fun a b => b.olderThan a = true) :
    oldest e rest = (e :: rest).getLast (List.cons_ne_nil e rest) := by
  induction rest generalizing e with
  | nil => rfl
  | cons b rest ih =>
    obtain ⟨hb, hrest⟩ := List.pairwise_cons.1 h
    have hstep : oldest e (b :: rest) = oldest b rest := by
      simp [oldest, hb b (List.mem_cons_self ..)]
    rw [hstep, ih hrest, List.getLast_cons (List.cons_ne_nil b rest)]

variable [DecidableEq κ]

theorem without_getLast (h : (entries.map (·.key)).Nodup) (hne : entries ≠ []) :
    without (entries.getLast hne).key entries = entries.dropLast := by
  have hsplit := List.dropLast_append_getLast hne
  generalize entries.getLast hne = last at hsplit
  generalize entries.dropLast = front at hsplit
  subst hsplit
  simp only [List.map_append, List.map_cons, List.map_nil, List.nodup_append, List.mem_map,
    List.mem_singleton] at h
  have hfront : front.filter (fun x => x.key ≠ last.key) = front := by
    refine List.filter_eq_self.2 fun x hx => ?_
    simpa using h.2.2 x.key ⟨x, hx, rfl⟩ last.key rfl
  simp only [without, List.filter_append, hfront]
  simp

theorem evict_frame (n : Nat) (c : Cache κ ν) : ∃ entries evictions,
    c.evict n = { c with entries, stats := { c.stats with evictions } } := by
  induction n generalizing c with
  | zero => exact ⟨c.entries, c.stats.evictions, rfl⟩
  | succ n ih =>
    unfold evict
    split
    · exact ⟨c.entries, c.stats.evictions, rfl⟩
    · rename_i e rest _
      obtain ⟨entries, evictions, h⟩ := ih { c with
        entries := without (oldest e rest).key c.entries
        stats := { c.stats with evictions := c.stats.evictions + 1 } }
      exact ⟨entries, evictions, h⟩

/-- The entries that are driven out are the last ones. -/
theorem entries_evict {now seq : Nat} {c : Cache κ ν} (h : InOrder now seq c.entries) (n : Nat) :
    (c.evict n).entries = c.entries.take (c.entries.length - n) := by
  induction n generalizing c with
  | zero => simp [evict]
  | succ n ih =>
    unfold evict
    split
    · rename_i hnil
      simp [hnil]
    · rename_i e rest hcons
      -- one victim is the last entry, and the others are those of a shorter list
      have hvictim : without (oldest e rest).key c.entries = c.entries.dropLast := by
        have hrecent := h.recent
        rw [hcons] at hrecent
        rw [oldest_eq_getLast hrecent, ← without_getLast h.keys (by rw [hcons]; exact List.cons_ne_nil e rest)]
        simp only [hcons]
      rw [ih (by simpa only [hvictim] using h.sublist (List.dropLast_sublist _))]
      simp only [hvictim, List.dropLast_eq_take, List.take_take, List.length_take]
      congr 1
      omega

theorem trim_eq {now seq : Nat} {c : Cache κ ν} (h : InOrder now seq c.entries) : ∃ evictions,
    c.trim = { c with
      entries := c.entries.take c.capacity, stats := { c.stats with evictions } } := by
  obtain ⟨entries, evictions, hframe⟩ := c.evict_frame (c.size - c.capacity)
  have hentries := entries_evict h (c.size - c.capacity)
  have hcut : c.entries.take (c.entries.length - (c.size - c.capacity)) = c.entries.take c.capacity := by
    rw [List.take_eq_take_iff, size]
    omega
  rw [hcut, hframe] at hentries
  refine ⟨evictions, ?_⟩
  rw [trim, hframe, ← hentries]

/-- A value that is kept comes first, and the list is cut. -/
theorem keep_eq {now : Nat} {c : Cache κ ν} (h : InOrder now c.nextSeq c.entries)
    (hd : c.disposed = false) (key : κ) (version : Int) (kind : String) (stored : Stamped ν) :
    ∃ evictions, c.keep now key version kind stored = { c with
      entries := (⟨key, version, kind, stored, now, c.nextSeq⟩ :: without key c.entries).take c.capacity
      nextSeq := c.nextSeq + 1, stats := { c.stats with evictions } } := by
  have hput : InOrder now (c.nextSeq + 1) (c.put ⟨key, version, kind, stored, now, c.nextSeq⟩).entries :=
    h.front rfl rfl
  obtain ⟨evictions, htrim⟩ := trim_eq hput
  refine ⟨evictions, ?_⟩
  unfold keep
  rw [if_neg (by simp [hd]), htrim]
  rfl

theorem configure_eq {now seq : Nat} {c : Cache κ ν} (h : InOrder now seq c.entries)
    (hd : c.disposed = false) (limits : Limits) (t : Nat) :
    ∃ evictions, c.configure limits t = { c with
      entries := c.entries.take limits.capacity, capacity := limits.capacity
      stats := { c.stats with evictions }, sweep := limits.sweep? t } := by
  have hsame : InOrder now seq ({ c with capacity := limits.capacity } : Cache κ ν).entries := h
  obtain ⟨evictions, htrim⟩ := trim_eq hsame
  refine ⟨evictions, ?_⟩
  unfold configure
  rw [if_neg (by simp [hd]), htrim]

end Victims

/-! ## Sweeps -/

namespace Sweep

/-- How many sweeps are due by a time. -/
def dueBy (s : Sweep) (now : Nat) : Nat :=
  if s.next ≤ now then (now - s.next) / s.interval + 1 else 0

/-- When the sweeps take place that are due by a time. -/
def ticks (s : Sweep) (now : Nat) : List Nat :=
  (List.range (s.dueBy now)).map fun i => s.next + i * s.interval

/-- The sweeps that are still to come after a time. -/
def after (s : Sweep) (now : Nat) : Sweep := { s with next := s.next + s.dueBy now * s.interval }

/-- The sweeps but the next one. -/
def skip (s : Sweep) : Sweep := { s with next := s.next + s.interval }

variable {s : Sweep} {now : Nat}

theorem dueBy_skip (h : s.next ≤ now) : s.dueBy now = s.skip.dueBy now + 1 := by
  have hpos := s.interval_pos
  have hnext : s.skip.next = s.next + s.interval := rfl
  have hinterval : s.skip.interval = s.interval := rfl
  unfold dueBy
  rw [if_pos h, hinterval]
  by_cases hagain : s.skip.next ≤ now
  · rw [if_pos hagain, hnext, Nat.div_eq_sub_div hpos (by omega), Nat.sub_sub]
  · rw [if_neg hagain, Nat.div_eq_of_lt (by omega)]

theorem ticks_skip (h : s.next ≤ now) : s.ticks now = s.next :: s.skip.ticks now := by
  simp only [ticks, dueBy_skip h, List.range_succ_eq_map, List.map_cons, List.map_map, skip,
    Nat.zero_mul, Nat.add_zero, List.cons.injEq, true_and]
  refine List.map_congr_left fun i _ => ?_
  simp only [Function.comp_apply, Nat.succ_mul]
  omega

theorem after_skip (h : s.next ≤ now) : s.after now = s.skip.after now := by
  simp only [after, dueBy_skip h, skip, Sweep.mk.injEq, and_true, Nat.succ_mul]
  omega

end Sweep

/-- Whether an entry outlasts sweeps at the given times. -/
def Entry.outlasts (e : Entry κ ν) (ttl : Nat) (times : List Nat) : Bool :=
  times.all fun t => !e.idle ttl t

theorem sweepUntil_eq (now : Nat) (s : Sweep) (c : Cache κ ν) : ∃ expirations,
    sweepUntil now s c = { c with
      entries := c.entries.filter fun e => e.outlasts s.ttl (s.ticks now)
      stats := { c.stats with expirations }, sweep := some (s.after now) } := by
  fun_induction sweepUntil now s c with
  | case1 s c hdue ih =>
    obtain ⟨expirations, ih⟩ := ih
    refine ⟨expirations, ?_⟩
    rw [ih, Sweep.ticks_skip hdue, Sweep.after_skip hdue]
    simp only [removeIdle, List.filter_filter, Entry.outlasts, List.all_cons, Sweep.skip, Bool.and_comm]
  | case2 s c hdue =>
    have hnone : s.dueBy now = 0 := if_neg hdue
    exact ⟨c.stats.expirations, by simp [Sweep.ticks, Sweep.after, Entry.outlasts, hnone]⟩

theorem advance_eq (c : Cache κ ν) (now : Nat) : ∃ expirations,
    c.advance now = { c with
      entries := match c.sweep with
        | none => c.entries
        | some s => c.entries.filter fun e => e.outlasts s.ttl (s.ticks now)
      stats := { c.stats with expirations }, sweep := c.sweep.map (·.after now) } := by
  obtain ⟨entries, capacity, nextSeq, stats, sweep, disposed⟩ := c
  cases sweep with
  | none => exact ⟨stats.expirations, rfl⟩
  | some s => exact sweepUntil_eq now s _

end LangHost.Cache
