import LangHost.Proofs.Cache.Recency
import Mathlib.Data.List.Infix
/-!
# A larger cache computes less

Two caches that differ in the number of entries they may hold are used in the same way, by callers
whose computations leave the cache alone and come to what key, version and kind decide. In the order
of their use the entries of the smaller cache are then the first of those of the larger one
(`Covers`), whatever is looked up, removed or swept. So what the smaller cache serves the larger one
serves too, and it computes at most as often.
-/

namespace LangHost.Cache

variable {κ ν ε : Type}

/-! ## Callers -/

/-- What a caller does whose computations leave the cache alone. -/
inductive Visit (κ : Type) where
  | get (key : κ) (version : Int) (kind : String)
  | remove (key : κ)
  | removeIdle (maxIdle : Nat)
  | dispose
  /-- Time passes, and sweeps take place when they are due. -/
  | wait (duration : Nat)

/-- Whether a reply comes from a computation that was run for it. -/
def Reply.computed : Reply ν ε → Bool
  | .got _ during => during.isSome
  | .flag _ => false
  | .count _ => false
  | .sweeps _ => false
  | .done => false

/-- A cache in use, and how often it has computed. -/
structure Tally (κ ν : Type) where
  usage : Usage κ ν
  computations : Nat := 0

namespace Tally

variable [DecidableEq κ]

/-- A call, with the computation that it may need. -/
def call (x : Tally κ ν) (call : Call κ ν ε) : Tally κ ν where
  usage := x.usage.after call
  computations := x.computations + (call.run x.usage.clock x.usage.cache).2.computed.toNat

/-- A visit, where `outcome` says what computations come to. -/
def visit (outcome : κ → Int → String → Except ε ν) (x : Tally κ ν) : Visit κ → Tally κ ν
  | .get key version kind => x.call (.get key version kind [] (outcome key version kind))
  | .remove key => x.call (.remove key : Call κ ν ε)
  | .removeIdle maxIdle => x.call (.removeIdle maxIdle : Call κ ν ε)
  | .dispose => x.call (.dispose : Call κ ν ε)
  | .wait duration => { x with usage := x.usage.step (.wait duration) }

/-- A new cache after some visits. -/
def visits (outcome : κ → Int → String → Except ε ν) (limits : Limits) (clock : Clock)
    (visits : List (Visit κ)) : Tally κ ν :=
  visits.foldl (visit outcome) ⟨Usage.start limits clock, 0⟩

end Tally

/-! ## A lookup, seen on the list -/

section Lookup

variable [DecidableEq κ] {u : Usage κ ν}

theorem Ordered.after (h : Ordered u) (call : Call κ ν ε) : Ordered (u.after call) := by
  rw [← (call.run_acts u).1]
  exact h.run _

theorem Ordered.recency_after (h : Ordered u) (call : Call κ ν ε) :
    (u.after call).recency = u.recency.run (call.acts u) := by
  rw [← (call.run_acts u).1]
  exact h.recency_run _

/-- The list after a lookup whose computation leaves the cache alone. -/
def Recency.lookup (r : Recency κ ν) (key : κ) (version : Int) (kind : String)
    (outcome : Except ε ν) : Recency κ ν :=
  match r.serving? key version kind with
  | some x => { r with elements := { x with lastUse := r.clock.time } :: r.others key }
  | none =>
    match outcome with
    | .error _ => { r with begun := r.begun + 1 }
    | .ok value =>
      { r with
        begun := r.begun + 1
        elements := if r.disposed then r.elements
          else r.pushed ⟨key, version, kind, ⟨r.begun, value⟩, r.clock.time⟩ }

theorem Ordered.recency_lookup (h : Ordered u) (key : κ) (version : Int) (kind : String)
    (outcome : Except ε ν) :
    (u.after (.get key version kind [] outcome)).recency =
      u.recency.lookup key version kind outcome := by
  rw [h.recency_after]
  have hserving := h.serving?_eq key version kind
  unfold Recency.lookup
  cases hhit : u.cache.hit? key version kind with
  | some e =>
    rw [hhit, Option.map_some] at hserving
    simp [Call.acts, hhit, Recency.run, Recency.step, hserving]
  | none =>
    rw [hhit, Option.map_none] at hserving
    cases outcome with
    | error f => simp [Call.acts, Call.actsAll, hhit, Recency.run, Recency.step, hserving]
    | ok value =>
      simp [Call.acts, Call.actsAll, hhit, Recency.run, Recency.step, hserving, Recency.pushed,
        Recency.others]

/-- A computation is run just if nothing serves the lookup. -/
theorem Ordered.computed_lookup (h : Ordered u) (key : κ) (version : Int) (kind : String)
    (outcome : Except ε ν) :
    ((Call.get key version kind [] outcome).run u.clock u.cache).2.computed =
      (u.recency.serving? key version kind).isNone := by
  rw [h.serving?_eq, Option.isNone_map]
  cases hhit : u.cache.hit? key version kind with
  | some e => simp [Call.run, Cache.get, hhit, Reply.computed]
  | none =>
    cases outcome with
    | error f => simp [Call.run, Cache.get, hhit, Reply.computed]
    | ok value => simp [Call.run, Cache.get, hhit, Reply.computed]

end Lookup

/-! ## The first elements of a longer list -/

/-- An element without its value. -/
structure Recency.Mark (κ : Type) where
  key : κ
  version : Int
  kind : String
  lastUse : Nat

/-- What an element was computed from and when it was last used. -/
def Recency.Element.mark (x : Recency.Element κ ν) : Recency.Mark κ :=
  ⟨x.key, x.version, x.kind, x.lastUse⟩

/-- Two lists are at one time and under the same sweeps, and but for their values the elements of the
first are the first elements of the second, which have all been computed. -/
structure Recency.Covers (outcome : κ → Int → String → Except ε ν) (r r' : Recency κ ν) : Prop where
  clock : r'.clock = r.clock
  limit : r.limit ≤ r'.limit
  sweep : r'.sweep = r.sweep
  disposed : r'.disposed = r.disposed
  marks : r.elements.map (·.mark) <+: r'.elements.map (·.mark)
  made : ∀ x ∈ r'.elements, ∃ value, outcome x.key x.version x.kind = .ok value
  gone : r.disposed = true → r'.elements = []

namespace Recency.Covers

variable {outcome : κ → Int → String → Except ε ν} {r r' : Recency κ ν}

/-- Both lists drop the elements for the same reason. -/
theorem filter (h : Covers outcome r r') (p : Mark κ → Bool) {sweep sweep' : Option Sweep}
    {clock clock' : Clock} (hs : sweep' = sweep) (hc : clock' = clock) :
    Covers outcome { r with elements := r.elements.filter fun x => p x.mark, sweep, clock }
      { r' with elements := r'.elements.filter fun x => p x.mark, sweep := sweep', clock := clock' } where
  clock := hc
  limit := h.limit
  sweep := hs
  disposed := h.disposed
  marks := by
    have hmarks (xs : List (Element κ ν)) :
        (xs.filter fun x => p x.mark).map (·.mark) = (xs.map (·.mark)).filter p := by
      rw [List.filter_map]
      rfl
    rw [hmarks, hmarks]
    exact h.marks.filter p
  made x hx := h.made x (List.mem_filter.1 hx).1
  gone hd := by simp [h.gone hd]

variable [DecidableEq κ]

theorem remove (h : Covers outcome r r') (key : κ) :
    Covers outcome (r.step (.remove key)) (r'.step (.remove key)) :=
  h.filter (fun m => m.key ≠ key) h.sweep h.clock

theorem removeIdle (h : Covers outcome r r') (maxIdle : Nat) :
    Covers outcome (r.step (.removeIdle maxIdle)) (r'.step (.removeIdle maxIdle)) := by
  simp only [step, h.clock]
  exact h.filter (fun m => !decide (m.lastUse + maxIdle < r.clock.present)) h.sweep rfl

theorem dispose (h : Covers outcome r r') :
    Covers outcome (r.step .dispose) (r'.step .dispose) where
  clock := h.clock
  limit := h.limit
  sweep := rfl
  disposed := rfl
  marks := List.prefix_rfl
  made x hx := by cases hx
  gone _ := rfl

/-- The sweeps are the same, and so are the uses they look at. -/
theorem wait (h : Covers outcome r r') (duration : Nat) :
    Covers outcome (r.step (.wait duration)) (r'.step (.wait duration)) := by
  simp only [step, h.clock, h.sweep]
  cases r.sweep with
  | none => exact ⟨rfl, h.limit, rfl, h.disposed, h.marks, h.made, h.gone⟩
  | some s =>
    exact h.filter (fun m => (s.ticks (r.clock.later duration).time).all fun t =>
      !decide (m.lastUse + s.ttl < t)) rfl rfl

theorem others (h : Covers outcome r r') (key : κ) :
    (r.others key).map (·.mark) <+: (r'.others key).map (·.mark) :=
  (h.filter (fun m => m.key ≠ key) h.sweep h.clock).marks

/-- What the shorter list holds of a key the longer one holds too. -/
theorem find (h : Covers outcome r r') {key : κ} {x : Element κ ν}
    (hx : r.elements.find? (·.key = key) = some x) :
    ∃ x', r'.elements.find? (·.key = key) = some x' ∧ x'.mark = x.mark := by
  have hmarked : (r.elements.map (·.mark)).find? (fun m => m.key = key) = some x.mark := by
    rw [List.find?_map]
    exact congrArg (Option.map _) hx
  have hmarked' := h.marks.find?_eq_some hmarked
  rw [List.find?_map] at hmarked'
  exact Option.map_eq_some_iff.1 hmarked'

/-- What serves a lookup in the shorter list serves it in the longer one. -/
theorem serving (h : Covers outcome r r') {key : κ} {version : Int} {kind : String} {x : Element κ ν}
    (hx : r.serving? key version kind = some x) :
    ∃ x', r'.serving? key version kind = some x' ∧ x'.mark = x.mark := by
  obtain ⟨hfind, hmatch⟩ := Option.filter_eq_some_iff.1 hx
  obtain ⟨x', hfind', hmark⟩ := h.find hfind
  have hversion : x'.version = x.version := congrArg Mark.version hmark
  have hkind : x'.kind = x.kind := congrArg Mark.kind hmark
  refine ⟨x', Option.filter_eq_some_iff.2 ⟨hfind', ?_⟩, hmark⟩
  rw [hversion, hkind]
  exact hmatch

theorem of_serving {key : κ} {version : Int} {kind : String} {x : Element κ ν}
    (hx : r.serving? key version kind = some x) :
    x ∈ r.elements ∧ x.key = key ∧ x.version = version ∧ x.kind = kind := by
  obtain ⟨hfind, hmatch⟩ := Option.filter_eq_some_iff.1 hx
  have hkey := List.find?_some hfind
  simp only [decide_eq_true_eq] at hkey hmatch
  exact ⟨List.mem_of_find?_eq_some hfind, hkey, hmatch⟩

/-- Every element was computed, also after one was put in front. -/
theorem made_cons (h : Covers outcome r r') {x : Element κ ν}
    (hx : ∃ value, outcome x.key x.version x.kind = .ok value) {key : κ} {xs : List (Element κ ν)}
    (hxs : xs.Sublist (x :: r'.others key)) :
    ∀ y ∈ xs, ∃ value, outcome y.key y.version y.kind = .ok value := by
  intro y hy
  rcases List.mem_cons.1 (hxs.subset hy) with rfl | hy
  · exact hx
  · exact h.made y (List.mem_filter.1 hy).1

/-- A lookup keeps it, whether it is served by both, by neither or by the longer list alone. -/
theorem lookup (h : Covers outcome r r') (key : κ) (version : Int) (kind : String) :
    Covers outcome (r.lookup key version kind (outcome key version kind))
      (r'.lookup key version kind (outcome key version kind)) := by
  have hothers := h.others key
  unfold Recency.lookup
  cases hserving : r.serving? key version kind with
  | some x =>
    obtain ⟨x', hserving', hmark⟩ := h.serving hserving
    obtain ⟨hmem', -⟩ := of_serving hserving'
    simp only [hserving']
    refine ⟨h.clock, h.limit, h.sweep, h.disposed, ?_, ?_, fun hd => ?_⟩
    · simp only [Element.mark, Mark.mk.injEq] at hmark
      simp only [List.map_cons, List.cons_prefix_cons]
      exact ⟨by simp [Element.mark, h.clock, hmark], hothers⟩
    · exact h.made_cons (x := { x' with lastUse := r'.clock.time }) (h.made x' hmem') (.refl _)
    · simp [h.gone hd] at hmem'
  | none =>
    cases hserving' : r'.serving? key version kind with
    | some x' =>
      -- what the longer list holds has been computed, so the computation succeeds again
      obtain ⟨hmem', rfl, rfl, rfl⟩ := of_serving hserving'
      obtain ⟨value, hvalue⟩ := h.made x' hmem'
      have hd : r.disposed = false := by
        refine Bool.eq_false_iff.2 fun hd => ?_
        simp [h.gone hd] at hmem'
      simp only [hvalue, hd, Bool.false_eq_true, if_false]
      refine ⟨h.clock, h.limit, h.sweep, by rw [h.disposed, hd], ?_, ?_, fun hd => by cases hd⟩
      · simp only [pushed, List.map_take, List.map_cons]
        refine (List.take_prefix _ _).trans ?_
        rw [List.cons_prefix_cons]
        exact ⟨by simp [Element.mark, h.clock], hothers⟩
      · exact h.made_cons (x := { x' with lastUse := r'.clock.time }) ⟨value, hvalue⟩ (.refl _)
    | none =>
      cases hvalue : outcome key version kind with
      | error f => exact ⟨h.clock, h.limit, h.sweep, h.disposed, h.marks, h.made, h.gone⟩
      | ok value =>
        cases hd : r.disposed with
        | true =>
          simp only [h.disposed, hd, if_true]
          exact ⟨h.clock, h.limit, h.sweep, rfl, h.marks, h.made, fun _ => h.gone hd⟩
        | false =>
          simp only [h.disposed, hd, Bool.false_eq_true, if_false]
          refine ⟨h.clock, h.limit, h.sweep, rfl, ?_, ?_, fun hd => by cases hd⟩
          · simp only [pushed, List.map_take, List.map_cons]
            refine .trans (.take ?_ _) (List.take_prefix_take_left h.limit)
            rw [List.cons_prefix_cons]
            exact ⟨by simp [Element.mark, h.clock], hothers⟩
          · exact h.made_cons (x := ⟨key, version, kind, ⟨r'.begun, value⟩, r'.clock.time⟩)
              ⟨value, hvalue⟩ (List.take_sublist _ _)

end Recency.Covers

/-! ## Every visit -/

/-- The second cache covers the first one and has computed at most as often. -/
structure Tally.Below [DecidableEq κ] (outcome : κ → Int → String → Except ε ν) (x y : Tally κ ν) : Prop where
  small : Ordered x.usage
  large : Ordered y.usage
  covers : x.usage.recency.Covers outcome y.usage.recency
  computations : y.computations ≤ x.computations

namespace Tally.Below

variable [DecidableEq κ] {outcome : κ → Int → String → Except ε ν} {x y : Tally κ ν}

/-- A call that computes nothing keeps it if its acts do. -/
theorem call (h : Below outcome x y) {c : Call κ ν ε}
    (hx : (c.run x.usage.clock x.usage.cache).2.computed = false)
    (hy : (c.run y.usage.clock y.usage.cache).2.computed = false)
    (hcovers : (x.usage.after c).recency.Covers outcome (y.usage.after c).recency) :
    Below outcome (x.call c) (y.call c) where
  small := h.small.after c
  large := h.large.after c
  covers := hcovers
  computations := by simpa [Tally.call, hx, hy] using h.computations

theorem get (h : Below outcome x y) (key : κ) (version : Int) (kind : String) :
    Below outcome (x.visit outcome (.get key version kind)) (y.visit outcome (.get key version kind)) where
  small := h.small.after _
  large := h.large.after _
  covers := by
    have hlookup := h.covers.lookup key version kind
    rw [← h.small.recency_lookup, ← h.large.recency_lookup] at hlookup
    exact hlookup
  computations := by
    have hle := h.computations
    simp only [visit, Tally.call, h.small.computed_lookup, h.large.computed_lookup]
    cases hserving : x.usage.recency.serving? key version kind with
    | some e =>
      obtain ⟨e', hserving', -⟩ := h.covers.serving hserving
      simpa [hserving'] using hle
    | none =>
      have hone := Bool.toNat_le (y.usage.recency.serving? key version kind).isNone
      simp only [Option.isNone_none, Bool.toNat_true]
      omega

theorem visit (h : Below outcome x y) (v : Visit κ) :
    Below outcome (x.visit outcome v) (y.visit outcome v) := by
  cases v with
  | get key version kind => exact h.get key version kind
  | remove key =>
    refine h.call rfl rfl ?_
    rw [h.small.recency_after, h.large.recency_after]
    exact h.covers.remove key
  | removeIdle maxIdle =>
    refine h.call rfl rfl ?_
    rw [h.small.recency_after, h.large.recency_after]
    exact h.covers.removeIdle maxIdle
  | dispose =>
    refine h.call rfl rfl ?_
    rw [h.small.recency_after, h.large.recency_after]
    exact h.covers.dispose
  | wait duration =>
    refine ⟨h.small.step (.wait duration), h.large.step (.wait duration), ?_, h.computations⟩
    simp only [Tally.visit, h.small.recency_step, h.large.recency_step]
    exact h.covers.wait duration

end Tally.Below

/-- New caches are empty, and nothing has been computed. -/
theorem below_start [DecidableEq κ] (outcome : κ → Int → String → Except ε ν) (limits : Limits)
    {n : Nat} (h : limits.maxEntries ≤ n) (clock : Clock) :
    Tally.Below outcome ⟨Usage.start limits clock, 0⟩
      ⟨Usage.start { limits with maxEntries := n } clock, 0⟩ where
  small := .start limits clock
  large := .start _ clock
  covers := by
    rw [(Ordered.start limits clock).recency_eq, (Ordered.start { limits with maxEntries := n } clock).recency_eq]
    refine ⟨rfl, ?_, rfl, rfl, List.prefix_rfl, fun x hx => (by cases hx), fun hd => (by cases hd)⟩
    simp only [Usage.start, Cache.new, Limits.capacity]
    omega
  computations := Nat.le_refl 0

theorem below_visits [DecidableEq κ] (outcome : κ → Int → String → Except ε ν) (limits : Limits)
    {n : Nat} (h : limits.maxEntries ≤ n) (clock : Clock) (visits : List (Visit κ)) :
    Tally.Below outcome (Tally.visits outcome limits clock visits)
      (Tally.visits outcome { limits with maxEntries := n } clock visits) := by
  induction visits using List.reverseRecOn with
  | nil => exact below_start outcome limits h clock
  | append_singleton visits v ih =>
    simp only [Tally.visits, List.foldl_append] at ih ⊢
    exact ih.visit v

/-- Of two caches that are used in the same way, the one that may hold more entries holds every key
that the other one holds, at the same version and of the same kind, and has computed at most as
often. -/
theorem larger_cache_computes_less [DecidableEq κ] (outcome : κ → Int → String → Except ε ν)
    (limits : Limits) {n : Nat} (h : limits.maxEntries ≤ n) (clock : Clock) (visits : List (Visit κ)) :
    let small := Tally.visits outcome limits clock visits
    let large := Tally.visits outcome { limits with maxEntries := n } clock visits
    (∀ key e, small.usage.cache.entry? key = some e →
      ∃ e', large.usage.cache.entry? key = some e' ∧ e'.version = e.version ∧ e'.kind = e.kind) ∧
      large.computations ≤ small.computations := by
  intro small large
  have hbelow : Tally.Below outcome small large := below_visits outcome limits h clock visits
  refine ⟨fun key e he => ?_, hbelow.computations⟩
  have hfind : small.usage.recency.elements.find? (·.key = key) = some e.element := by
    rw [hbelow.small.find?_elements, he]
    rfl
  obtain ⟨x', hfind', hmark⟩ := hbelow.covers.find hfind
  rw [hbelow.large.find?_elements] at hfind'
  obtain ⟨e', he', rfl⟩ := Option.map_eq_some_iff.1 hfind'
  exact ⟨e', he', congrArg Recency.Mark.version hmark, congrArg Recency.Mark.kind hmark⟩

/-- Two texts are looked up in turn: where there is room for one, every lookup computes. -/
def alternating : List (Visit String) :=
  [.get "a" 1 "text", .get "b" 1 "text", .removeIdle 100, .get "a" 1 "text"]

/-- Room for one more entry saves a computation. -/
theorem larger_cache_computes_less_alternating :
    let outcome : String → Int → String → Except String String := fun key _ _ => .ok key
    let small := Tally.visits outcome ⟨1, 60000, 60000⟩ ⟨0, false⟩ alternating
    let large := Tally.visits outcome ⟨2, 60000, 60000⟩ ⟨0, false⟩ alternating
    small.computations = 3 ∧ large.computations = 2 ∧
      (∃ e', large.usage.cache.entry? "a" = some e' ∧ e'.version = 1 ∧ e'.kind = "text") := by
  intro outcome small large
  obtain ⟨hentries, -⟩ := larger_cache_computes_less outcome ⟨1, 60000, 60000⟩ (n := 2) (by decide)
    ⟨0, false⟩ alternating
  have hheld : (small.usage.cache.entry? "a").map (fun e => (e.version, e.kind)) = some (1, "text") := by
    decide +kernel
  obtain ⟨e, he, hmark⟩ := Option.map_eq_some_iff.1 hheld
  obtain ⟨hversion, hkind⟩ := Prod.mk.inj hmark
  obtain ⟨e', he', hversion', hkind'⟩ := hentries "a" e he
  exact ⟨by decide +kernel, by decide +kernel, e', he', hversion'.trans hversion, hkind'.trans hkind⟩

end LangHost.Cache
