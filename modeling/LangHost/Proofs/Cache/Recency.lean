import LangHost.Proofs.Cache.Entries
import LangHost.Proofs.Cache.Order
/-!
# A cache is a list in the order of use

`Recency` is the cache as one would write it down: a list with the latest used element in front,
that is cut off at its limit. It knows no numbers of uses and looks for no victims. Whatever happens
to a cache, and whatever its computations do to it meanwhile, its entries by their last use are the
elements of that list, and both hand out the same values (`refines_recency`).
-/

namespace LangHost.Cache

variable {κ ν ε : Type}

/-! ## The list -/

/-- A value, what it was computed from and when it was last used. -/
structure Recency.Element (κ ν : Type) where
  key : κ
  version : Int
  kind : String
  stored : Stamped ν
  lastUse : Nat

/-- A list of values, the latest used one first. -/
structure Recency (κ ν : Type) where
  clock : Clock
  elements : List (Recency.Element κ ν)
  limit : Nat
  sweep : Option Sweep
  disposed : Bool
  /-- How many computations have begun. -/
  begun : Nat
  /-- The computations that are going on, latest first. -/
  inFlight : List (Computation κ)

namespace Recency

/-- Whether an element has not been used for longer than told. -/
def Element.idle (x : Element κ ν) (maxIdle now : Nat) : Bool := decide (x.lastUse + maxIdle < now)

/-- An empty list. -/
def start (limits : Limits) (clock : Clock) : Recency κ ν where
  clock := clock
  elements := []
  limit := max 1 limits.maxEntries
  sweep := limits.sweep? clock.time
  disposed := false
  begun := 0
  inFlight := []

variable [DecidableEq κ]

/-- The elements of other keys. -/
def others (r : Recency κ ν) (key : κ) : List (Element κ ν) := r.elements.filter (·.key ≠ key)

/-- The element that serves a key at a version and a kind. -/
def serving? (r : Recency κ ν) (key : κ) (version : Int) (kind : String) : Option (Element κ ν) :=
  (r.elements.find? (·.key = key)).filter fun x => x.version = version ∧ x.kind = kind

/-- The elements with a new one in front, cut off at the limit. -/
def pushed (r : Recency κ ν) (x : Element κ ν) : List (Element κ ν) :=
  (x :: r.others x.key).take r.limit

/-- What becomes of the list in an act. -/
def step (r : Recency κ ν) : Act κ ν → Recency κ ν
  | .get key version kind =>
    match r.serving? key version kind with
    | some x => { r with elements := { x with lastUse := r.clock.time } :: r.others key }
    | none =>
      { r with begun := r.begun + 1, inFlight := ⟨key, version, kind, r.begun⟩ :: r.inFlight }
  | .succeed place value =>
    match r.inFlight[place]? with
    | none => r
    | some q =>
      { r with
        elements := if r.disposed then r.elements
          else r.pushed ⟨q.key, q.version, q.kind, ⟨q.serial, value⟩, r.clock.time⟩
        inFlight := r.inFlight.eraseIdx place }
  | .fail place => { r with inFlight := r.inFlight.eraseIdx place }
  | .remove key => { r with elements := r.others key }
  | .removeIdle maxIdle =>
    { r with elements := r.elements.filter fun x => !x.idle maxIdle r.clock.present }
  | .configure limits =>
    if r.disposed then r
    else
      { r with
        elements := r.elements.take (max 1 limits.maxEntries)
        limit := max 1 limits.maxEntries
        sweep := limits.sweep? r.clock.time }
  | .dispose => { r with elements := [], sweep := none, disposed := true }
  | .wait duration =>
    let now := (r.clock.later duration).time
    { r with
      clock := r.clock.later duration
      elements := match r.sweep with
        | none => r.elements
        | some s => r.elements.filter fun x => (s.ticks now).all fun t => !x.idle s.ttl t
      sweep := r.sweep.map (·.after now) }

/-- The value that an act hands out. -/
def answer? (r : Recency κ ν) : Act κ ν → Option (Stamped ν)
  | .get key version kind => (r.serving? key version kind).map (·.stored)
  | .succeed place value => r.inFlight[place]?.map fun q => ⟨q.serial, value⟩
  | _ => none

/-- What becomes of the list in some acts. -/
def run (r : Recency κ ν) (acts : List (Act κ ν)) : Recency κ ν := acts.foldl step r

/-- The values that some acts hand out. -/
def answers : Recency κ ν → List (Act κ ν) → List (Stamped ν)
  | _, [] => []
  | r, a :: acts => (r.answer? a).toList ++ (r.step a).answers acts

end Recency

/-! ## The list of a cache -/

/-- An entry without the number of its last use. -/
def Entry.element (e : Entry κ ν) : Recency.Element κ ν :=
  ⟨e.key, e.version, e.kind, e.stored, e.lastAccess⟩

/-- The entries of a cache by their last use, and what else becomes of it. -/
def Usage.recency (u : Usage κ ν) : Recency κ ν where
  clock := u.clock
  elements := u.cache.byRecency.map Entry.element
  limit := u.cache.capacity
  sweep := u.cache.sweep
  disposed := u.cache.disposed
  begun := u.cache.stats.misses
  inFlight := u.inFlight

/-- The entries stand in the order of their use and are no more than allowed, and there are none
after disposal. -/
structure Ordered (u : Usage κ ν) : Prop where
  order : InOrder u.clock.time u.cache.nextSeq u.cache.entries
  room : u.cache.entries.length ≤ u.cache.capacity
  pos : 0 < u.cache.capacity
  gone : u.cache.disposed = true → u.cache.entries = [] ∧ u.cache.sweep = none

theorem Limits.capacity_pos (limits : Limits) : 0 < limits.capacity := by
  unfold capacity
  omega

namespace Ordered

variable {u : Usage κ ν}

theorem start (limits : Limits) (clock : Clock) : Ordered (Usage.start limits clock : Usage κ ν) where
  order := ⟨.nil, List.nodup_nil, fun _ he => by cases he⟩
  room := Nat.zero_le _
  pos := limits.capacity_pos
  gone h := by cases h

theorem recency_elements (h : Ordered u) : u.recency.elements = u.cache.entries.map Entry.element := by
  simp only [Usage.recency, h.order.byRecency]

variable [DecidableEq κ]

theorem others_eq (h : Ordered u) (key : κ) :
    u.recency.others key = (without key u.cache.entries).map Entry.element := by
  simp only [Recency.others, h.recency_elements, without, List.filter_map]
  rfl

theorem find?_elements (h : Ordered u) (key : κ) :
    u.recency.elements.find? (·.key = key) = (u.cache.entry? key).map Entry.element := by
  rw [h.recency_elements, List.find?_map]
  rfl

theorem serving?_eq (h : Ordered u) (key : κ) (version : Int) (kind : String) :
    u.recency.serving? key version kind = (u.cache.hit? key version kind).map Entry.element := by
  unfold Recency.serving? hit?
  rw [h.find?_elements]
  cases u.cache.entry? key with
  | none => rfl
  | some e =>
    by_cases hmatch : e.version = version ∧ e.kind = kind
    · simp [Option.filter, Entry.element, hmatch]
    · simp [Option.filter, Entry.element, hmatch]

/-- Both hand out the same value. -/
theorem answer?_eq (h : Ordered u) (a : Act κ ν) : u.recency.answer? a = u.answer? a := by
  cases a with
  | get key version kind =>
    simp only [Recency.answer?, Usage.answer?, h.serving?_eq, Option.map_map]
    rfl
  | _ => rfl

/-! ### Every act keeps the order -/

theorem touch (h : Ordered u) {key : κ} {version : Int} {kind : String} {e : Entry κ ν}
    (he : u.cache.hit? key version kind = some e) :
    Ordered { u with cache := u.cache.touch e u.clock.time } where
  order := h.order.front rfl rfl
  room := by
    -- the entry is taken out before it is put in front
    have hfewer : (without e.key u.cache.entries).length < u.cache.entries.length := by
      refine List.length_filter_lt_length_iff_exists.2 ⟨e, (mem_of_hit? he).1, by simp⟩
    exact Nat.le_trans hfewer h.room
  pos := h.pos
  gone hd := by
    have hmem := (mem_of_hit? he).1
    rw [(h.gone hd).1] at hmem
    cases hmem

omit [DecidableEq κ] in
/-- Entries are dropped, and nothing else changes that matters for their order. -/
theorem drop (h : Ordered u) {c : Cache κ ν} (hs : c.entries.Sublist u.cache.entries)
    (hseq : c.nextSeq = u.cache.nextSeq) (hcap : c.capacity = u.cache.capacity)
    (hd : c.disposed = true → u.cache.disposed = true) (hsweep : u.cache.sweep = none → c.sweep = none) :
    Ordered { u with cache := c } where
  order := by
    simp only [hseq]
    exact h.order.sublist hs
  room := by
    simp only [hcap]
    exact Nat.le_trans hs.length_le h.room
  pos := by
    simp only [hcap]
    exact h.pos
  gone hdisposed := by
    obtain ⟨hnil, hnone⟩ := h.gone (hd hdisposed)
    rw [hnil] at hs
    exact ⟨List.sublist_nil.1 hs, hsweep hnone⟩

theorem keep (h : Ordered u) (key : κ) (version : Int) (kind : String) (stored : Stamped ν) :
    Ordered { u with cache := u.cache.keep u.clock.time key version kind stored } := by
  cases hd : u.cache.disposed with
  | true => simpa [Cache.keep, hd] using h
  | false =>
    obtain ⟨evictions, hkeep⟩ := keep_eq h.order hd key version kind stored
    rw [hkeep]
    refine ⟨?_, ?_, h.pos, fun hdisposed => ?_⟩
    · have hfront : InOrder u.clock.time (u.cache.nextSeq + 1)
          (⟨key, version, kind, stored, u.clock.time, u.cache.nextSeq⟩ :: without key u.cache.entries) :=
        h.order.front rfl rfl
      exact hfront.sublist (List.take_sublist _ _)
    · exact List.length_take_le _ _
    · simp only [hd] at hdisposed
      cases hdisposed

theorem configure (h : Ordered u) (limits : Limits) :
    Ordered { u with cache := u.cache.configure limits u.clock.time } := by
  cases hd : u.cache.disposed with
  | true => simpa [Cache.configure, hd] using h
  | false =>
    obtain ⟨evictions, hconfigure⟩ := configure_eq h.order hd limits u.clock.time
    rw [hconfigure]
    refine ⟨h.order.sublist (List.take_sublist _ _), List.length_take_le _ _, limits.capacity_pos,
      fun hdisposed => ?_⟩
    simp only [hd] at hdisposed
    cases hdisposed

omit [DecidableEq κ] in
theorem dispose (h : Ordered u) : Ordered { u with cache := u.cache.dispose } := by
  unfold Cache.dispose
  split
  · exact h
  · exact ⟨h.order.sublist (List.nil_sublist _), Nat.zero_le _, h.pos, fun _ => ⟨rfl, rfl⟩⟩

theorem wait (h : Ordered u) (duration : Nat) : Ordered (u.step (.wait duration)) := by
  obtain ⟨expirations, hadvance⟩ := u.cache.advance_eq (u.clock.later duration).time
  have hlater : Ordered { u with clock := u.clock.later duration } :=
    ⟨h.order.later (Nat.le_add_right _ _), h.room, h.pos, h.gone⟩
  simp only [Usage.step, hadvance]
  refine hlater.drop ?_ rfl rfl id fun hnone => ?_
  · simp only
    split
    · exact List.Sublist.refl _
    · exact List.filter_sublist
  · have hnone : u.cache.sweep = none := hnone
    simp only [hnone, Option.map_none]

theorem step (h : Ordered u) (a : Act κ ν) : Ordered (u.step a) := by
  cases a with
  | get key version kind =>
    simp only [Usage.step]
    split
    · rename_i e he
      exact h.touch he
    · exact ⟨h.order, h.room, h.pos, h.gone⟩
  | succeed place value =>
    simp only [Usage.step]
    split
    · exact h
    · rename_i q _
      have hkeep := h.keep q.key q.version q.kind ⟨q.serial, value⟩
      exact ⟨hkeep.order, hkeep.room, hkeep.pos, hkeep.gone⟩
  | fail place => exact ⟨h.order, h.room, h.pos, h.gone⟩
  | remove key => exact h.drop List.filter_sublist rfl rfl id id
  | removeIdle maxIdle => exact h.drop List.filter_sublist rfl rfl id id
  | configure limits => exact h.configure limits
  | dispose => exact h.dispose
  | wait duration => exact h.wait duration

theorem run (h : Ordered u) (acts : List (Act κ ν)) : Ordered (u.run acts) := by
  induction acts generalizing u with
  | nil => exact h
  | cons a acts ih => exact ih (h.step a)

/-! ### Every act does the same to the list -/

omit [DecidableEq κ] in
theorem recency_eq (h : Ordered u) : u.recency =
    ⟨u.clock, u.cache.entries.map Entry.element, u.cache.capacity, u.cache.sweep, u.cache.disposed,
      u.cache.stats.misses, u.inFlight⟩ := by
  rw [← h.recency_elements]
  rfl

theorem recency_get (h : Ordered u) (key : κ) (version : Int) (kind : String) :
    (u.step (.get key version kind)).recency = u.recency.step (.get key version kind) := by
  rw [(h.step (.get key version kind)).recency_eq]
  simp only [Usage.step, Recency.step, h.serving?_eq, h.others_eq]
  cases hhit : u.cache.hit? key version kind with
  | none => simp [h.recency_eq, miss]
  | some e =>
    obtain ⟨-, rfl, -, -⟩ := mem_of_hit? hhit
    simp [h.recency_eq, Cache.touch, put, Entry.element]

theorem recency_succeed (h : Ordered u) (place : Nat) (value : ν) :
    (u.step (.succeed place value)).recency = u.recency.step (.succeed place value) := by
  have hflight : u.recency.inFlight = u.inFlight := rfl
  rw [(h.step (.succeed place value)).recency_eq]
  simp only [Usage.step, Recency.step, Recency.pushed, hflight, h.others_eq]
  cases u.inFlight[place]? with
  | none => exact h.recency_eq.symm
  | some q =>
    cases hd : u.cache.disposed with
    | true => simp [h.recency_eq, Cache.keep, hd, (h.gone hd).1]
    | false =>
      obtain ⟨evictions, hkeep⟩ := keep_eq h.order hd q.key q.version q.kind ⟨q.serial, value⟩
      simp [h.recency_eq, hkeep, hd, Entry.element, List.map_take]

theorem recency_configure (h : Ordered u) (limits : Limits) :
    (u.step (.configure limits)).recency = u.recency.step (.configure limits) := by
  rw [(h.step (.configure limits)).recency_eq]
  simp only [Usage.step, Recency.step]
  cases hd : u.cache.disposed with
  | true => simp [h.recency_eq, Cache.configure, hd]
  | false =>
    obtain ⟨evictions, hconfigure⟩ := configure_eq h.order hd limits u.clock.time
    simp [h.recency_eq, hconfigure, hd, Limits.capacity, List.map_take]

theorem recency_dispose (h : Ordered u) :
    (u.step .dispose).recency = u.recency.step .dispose := by
  rw [(h.step .dispose).recency_eq]
  simp only [Usage.step, Recency.step]
  cases hd : u.cache.disposed with
  | true =>
    obtain ⟨hnil, hnone⟩ := h.gone hd
    simp [h.recency_eq, Cache.dispose, hd, hnil, hnone]
  | false => simp [h.recency_eq, Cache.dispose, hd]

theorem recency_wait (h : Ordered u) (duration : Nat) :
    (u.step (.wait duration)).recency = u.recency.step (.wait duration) := by
  obtain ⟨expirations, hadvance⟩ := u.cache.advance_eq (u.clock.later duration).time
  rw [(h.step (.wait duration)).recency_eq]
  simp only [Usage.step, Recency.step, hadvance, h.recency_eq]
  cases u.cache.sweep with
  | none => rfl
  | some s =>
    simp only [List.filter_map]
    rfl

theorem recency_step (h : Ordered u) (a : Act κ ν) : (u.step a).recency = u.recency.step a := by
  cases a with
  | get key version kind => exact h.recency_get key version kind
  | succeed place value => exact h.recency_succeed place value
  | fail place => rfl
  | remove key =>
    rw [(h.step (.remove key)).recency_eq]
    simp only [Usage.step, Recency.step, h.others_eq]
    rw [h.recency_eq]
    rfl
  | removeIdle maxIdle =>
    rw [(h.step (.removeIdle maxIdle)).recency_eq]
    simp only [Usage.step, Recency.step, h.recency_eq, List.filter_map]
    rfl
  | configure limits => exact h.recency_configure limits
  | dispose => exact h.recency_dispose
  | wait duration => exact h.recency_wait duration

theorem recency_run (h : Ordered u) (acts : List (Act κ ν)) :
    (u.run acts).recency = u.recency.run acts := by
  induction acts generalizing u with
  | nil => rfl
  | cons a acts ih =>
    rw [Usage.run_cons, ih (h.step a), h.recency_step]
    rfl

theorem answers_eq (h : Ordered u) (acts : List (Act κ ν)) :
    u.answers acts = u.recency.answers acts := by
  induction acts generalizing u with
  | nil => rfl
  | cons a acts ih =>
    simp only [Usage.answers, Recency.answers, h.answer?_eq]
    rw [ih (h.step a), h.recency_step]

end Ordered

/-! ## After disposal -/

section Disposal

variable [DecidableEq κ]

theorem Recency.disposed_step {r : Recency κ ν} {a : Act κ ν} :
    (r.step a).disposed = true ↔ r.disposed = true ∨ a = .dispose := by
  cases a with
  | get key version kind =>
    simp only [step]
    split <;> simp
  | succeed place value =>
    simp only [step]
    split <;> simp
  | configure limits =>
    simp only [step]
    split <;> simp
  | dispose => simp [step]
  | fail _ => simp [step]
  | remove _ => simp [step]
  | removeIdle _ => simp [step]
  | wait _ => simp [step]

/-- Disposal is for good. -/
theorem Recency.disposed_run {r : Recency κ ν} {acts : List (Act κ ν)} :
    (r.run acts).disposed = true ↔ r.disposed = true ∨ .dispose ∈ acts := by
  induction acts generalizing r with
  | nil => simp [run]
  | cons a acts ih =>
    have hcons : r.run (a :: acts) = (r.step a).run acts := rfl
    rw [hcons, ih, disposed_step, List.mem_cons, or_assoc, eq_comm (a := a)]

theorem disposed_iff {limits : Limits} {clock : Clock} {acts : List (Act κ ν)} :
    ((Usage.start limits clock).run acts).cache.disposed = true ↔ .dispose ∈ acts := by
  have hrun := (Ordered.start (κ := κ) (ν := ν) limits clock).recency_run acts
  have hsame : ((Usage.start limits clock).run acts).cache.disposed =
      ((Usage.start limits clock).run acts).recency.disposed := rfl
  rw [hsame, hrun, Recency.disposed_run]
  exact or_iff_right Bool.false_ne_true

end Disposal

/-! ## Refinement -/

/-- What a list is like after some acts. -/
structure Recency.WellKept [DecidableEq κ] (acts : List (Act κ ν)) (r : Recency κ ν) : Prop where
  /-- No two elements are of one key. -/
  keys : (r.elements.map (·.key)).Nodup
  /-- There are no more elements than the limit allows. -/
  room : r.elements.length ≤ r.limit
  /-- A new element stays, and it drives out at most one. -/
  one : ∀ x, ∃ kept, r.pushed x = x :: kept ∧
    (r.others x.key = kept ∨ ∃ last, r.others x.key = kept ++ [last])
  /-- After disposal there are no elements, and new limits change nothing. -/
  gone : .dispose ∈ acts → r.elements = [] ∧ ∀ limits, r.step (.configure limits) = r

/-- A list that is cut behind its head loses at most its last element. -/
theorem exists_take_cons {α : Type} {n : Nat} (x : α) {xs : List α} (hpos : 0 < n)
    (hlen : xs.length ≤ n) :
    ∃ kept, (x :: xs).take n = x :: kept ∧ (xs = kept ∨ ∃ last, xs = kept ++ [last]) := by
  obtain ⟨n, rfl⟩ := Nat.exists_eq_succ_of_ne_zero (Nat.ne_of_gt hpos)
  refine ⟨xs.take n, rfl, ?_⟩
  by_cases hfit : xs.length ≤ n
  · exact .inl (List.take_of_length_le hfit).symm
  · have hne : xs ≠ [] := by
      rintro rfl
      simp at hfit
    refine .inr ⟨xs.getLast hne, ?_⟩
    have hcut : xs.take n = xs.dropLast := by
      rw [List.dropLast_eq_take]
      congr 1
      omega
    rw [hcut, List.dropLast_append_getLast]

theorem Ordered.wellKept [DecidableEq κ] {u : Usage κ ν} {acts : List (Act κ ν)} (hu : Ordered u)
    (hd : .dispose ∈ acts → u.cache.disposed = true) : u.recency.WellKept acts := by
  have helements := hu.recency_elements
  refine ⟨?_, ?_, fun x => ?_, fun hdispose => ?_⟩
  · rw [helements, List.map_map]
    exact hu.order.keys
  · rw [helements, List.length_map]
    exact hu.room
  · refine exists_take_cons x hu.pos ?_
    refine Nat.le_trans (List.length_filter_le _ _) ?_
    rw [helements, List.length_map]
    exact hu.room
  · have hdisposed : u.recency.disposed = true := hd hdispose
    constructor
    · rw [helements, (hu.gone (hd hdispose)).1]
      rfl
    · intro limits
      simp only [Recency.step, hdisposed, if_true]

/-- Whatever happens to a cache, its entries by their last use are the elements of the list to which
the same has happened, and both have handed out the same values. That holds of a call too, whatever
its computation calls in its turn. -/
theorem refines_recency [DecidableEq κ] (limits : Limits) (clock : Clock) (acts : List (Act κ ν)) :
    let u := (Usage.start limits clock).run acts
    let r := (Recency.start limits clock).run acts
    u.recency = r ∧ r.WellKept acts ∧
      (Usage.start limits clock).answers acts = (Recency.start limits clock).answers acts ∧
      ∀ call : Call κ ν ε, (u.after call).recency = r.run (call.acts u) ∧
        (call.run u.clock u.cache).2.values = r.answers (call.acts u) := by
  intro u r
  have hstart := Ordered.start (κ := κ) (ν := ν) limits clock
  have hinit : (Usage.start limits clock : Usage κ ν).recency = Recency.start limits clock := by
    rw [hstart.recency_eq]
    rfl
  have hrun := hstart.recency_run acts
  have hanswers := hstart.answers_eq acts
  rw [hinit] at hrun hanswers
  have hu : Ordered u := hstart.run acts
  rw [show r = u.recency from hrun.symm]
  refine ⟨rfl, hu.wellKept disposed_iff.2, hanswers, fun call => ?_⟩
  obtain ⟨hcall, hvalues⟩ := call.run_acts u
  rw [← hcall, ← hvalues]
  exact ⟨hu.recency_run _, hu.answers_eq _⟩

end LangHost.Cache
