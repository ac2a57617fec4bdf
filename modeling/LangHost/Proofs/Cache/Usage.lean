import LangHost.Cache.Call
/-!
# A cache in use

A computation can use the cache that it computes for, and so can anyone else while it runs. Taken
apart, what happens to a cache is then a sequence of acts: a lookup is served, or it begins a
computation; later that computation succeeds or fails; and before, in between and after that other
acts take place, lookups among them. Computations can so overlap in any way, nested or not, and
time can pass while they run.

A call is such a sequence, in which the computations are nested: `Call.acts` takes it apart, and
`Call.run_acts` says that nothing is lost.
-/

namespace LangHost.Cache

variable {κ ν ε : Type}

/-- A computation that a lookup has begun, and its number. -/
structure Computation (κ : Type) where
  key : κ
  version : Int
  kind : String
  serial : Nat
  deriving DecidableEq

/-- A cache, the time, and the computations that are going on, latest first. -/
structure Usage (κ ν : Type) where
  clock : Clock
  cache : Cache κ ν
  inFlight : List (Computation κ) := []

/-- What can happen to a cache. A computation that ends is told by its place among those that are
going on. -/
inductive Act (κ ν : Type) where
  | get (key : κ) (version : Int) (kind : String)
  | succeed (place : Nat) (value : ν)
  | fail (place : Nat)
  | remove (key : κ)
  | removeIdle (maxIdle : Nat)
  | configure (limits : Limits)
  | dispose
  /-- Time passes, and sweeps take place when they are due. -/
  | wait (duration : Nat)
  deriving DecidableEq

/-- The clock after a while. -/
def Clock.later (k : Clock) (duration : Nat) : Clock := { k with time := k.time + duration }

namespace Usage

/-- A new cache. -/
def start (limits : Limits) (clock : Clock) : Usage κ ν where
  clock := clock
  cache := Cache.new limits clock.time

variable [DecidableEq κ]

/-- What becomes of a cache in an act. -/
def step (u : Usage κ ν) : Act κ ν → Usage κ ν
  | .get key version kind =>
    match u.cache.hit? key version kind with
    | some e => { u with cache := u.cache.touch e u.clock.time }
    | none =>
      { u with
        cache := u.cache.miss
        inFlight := ⟨key, version, kind, u.cache.stats.misses⟩ :: u.inFlight }
  | .succeed place value =>
    match u.inFlight[place]? with
    | none => u
    | some q =>
      { u with
        cache := u.cache.keep u.clock.time q.key q.version q.kind ⟨q.serial, value⟩
        inFlight := u.inFlight.eraseIdx place }
  | .fail place => { u with inFlight := u.inFlight.eraseIdx place }
  | .remove key => { u with cache := u.cache.remove key }
  | .removeIdle maxIdle => { u with cache := u.cache.removeIdle maxIdle u.clock.present }
  | .configure limits => { u with cache := u.cache.configure limits u.clock.time }
  | .dispose => { u with cache := u.cache.dispose }
  | .wait duration =>
    { u with
      clock := u.clock.later duration
      cache := u.cache.advance (u.clock.later duration).time }

/-- The value that an act hands out: that of the entry which serves a lookup, or that of a
computation which succeeds. -/
def answer? (u : Usage κ ν) : Act κ ν → Option (Stamped ν)
  | .get key version kind => (u.cache.hit? key version kind).map (·.stored)
  | .succeed place value => u.inFlight[place]?.map fun q => ⟨q.serial, value⟩
  | _ => none

/-- What becomes of a cache in some acts. -/
def run (u : Usage κ ν) (acts : List (Act κ ν)) : Usage κ ν := acts.foldl step u

/-- The values that some acts hand out. -/
def answers : Usage κ ν → List (Act κ ν) → List (Stamped ν)
  | _, [] => []
  | u, a :: acts => (u.answer? a).toList ++ (u.step a).answers acts

@[simp] theorem run_nil (u : Usage κ ν) : u.run [] = u := rfl

@[simp] theorem run_cons (u : Usage κ ν) (a : Act κ ν) (acts : List (Act κ ν)) :
    u.run (a :: acts) = (u.step a).run acts := rfl

@[simp] theorem run_append (u : Usage κ ν) (acts more : List (Act κ ν)) :
    u.run (acts ++ more) = (u.run acts).run more :=
  List.foldl_append

@[simp] theorem answers_append (u : Usage κ ν) (acts more : List (Act κ ν)) :
    u.answers (acts ++ more) = u.answers acts ++ (u.run acts).answers more := by
  induction acts generalizing u with
  | nil => rfl
  | cons a acts ih => simp [answers, ih]

end Usage

/-! ## Calls are acts -/

/-- What becomes of a cache in a call. -/
def Usage.after [DecidableEq κ] (u : Usage κ ν) (call : Call κ ν ε) : Usage κ ν :=
  { u with cache := (call.run u.clock u.cache).1 }

mutual

/-- The values that a call hands out, those of the calls of its computation first. -/
def Reply.values : Reply ν ε → List (Stamped ν)
  | .got result (some replies) => Reply.valuesAll replies ++ result.toOption.toList
  | .got result none => result.toOption.toList
  | .flag _ => []
  | .count _ => []
  | .sweeps _ => []
  | .done => []

/-- The values that some calls hand out. -/
def Reply.valuesAll : List (Reply ν ε) → List (Stamped ν)
  | [] => []
  | reply :: rest => reply.values ++ Reply.valuesAll rest

end

variable [DecidableEq κ]

mutual

/-- The acts that a call is made of. What its computation does lies between the lookup and the end of
the computation, which is the latest one at that time. -/
def Call.acts (u : Usage κ ν) : Call κ ν ε → List (Act κ ν)
  | .get key version kind during outcome =>
    match u.cache.hit? key version kind with
    | some _ => [.get key version kind]
    | none =>
      .get key version kind :: (Call.actsAll (u.step (.get key version kind)) during ++
        [match outcome with
          | .ok value => .succeed 0 value
          | .error _ => .fail 0])
  | .remove key => [.remove key]
  | .contains _ => []
  | .removeIdle maxIdle => [.removeIdle maxIdle]
  | .configure limits => [.configure limits]
  | .dispose => [.dispose]
  | .size => []

/-- The acts that some calls are made of. -/
def Call.actsAll (u : Usage κ ν) : List (Call κ ν ε) → List (Act κ ν)
  | [] => []
  | call :: rest => Call.acts u call ++ Call.actsAll (u.run (Call.acts u call)) rest

end

mutual

/-- The acts of a call do what the call does, and leave the computations alone that were going on. -/
theorem Call.run_acts (call : Call κ ν ε) (u : Usage κ ν) :
    u.run (call.acts u) = u.after call ∧
      u.answers (call.acts u) = (call.run u.clock u.cache).2.values := by
  cases call with
  | get key version kind during outcome =>
    cases hhit : u.cache.hit? key version kind with
    | some e =>
      constructor
      · simp [Call.acts, Usage.step, Usage.after, Call.run, Cache.get, hhit]
      · simp [Call.acts, Usage.answers, Usage.answer?, Call.run, Cache.get, hhit, Reply.values,
          Except.toOption]
    | none =>
      -- the calls of the computation leave it where the lookup has put it, in front
      obtain ⟨hrun, hanswers⟩ := Call.run_actsAll during (u.step (.get key version kind))
      simp only [Usage.step, hhit] at hrun hanswers
      cases outcome with
      | error f =>
        constructor
        · simp [Call.acts, Usage.step, hhit, hrun, Usage.after, Call.run, Cache.get]
        · simp [Call.acts, Usage.answers, Usage.answer?, Usage.step, hhit, hanswers, Call.run,
            Cache.get, Reply.values, Except.toOption]
      | ok v =>
        constructor
        · simp [Call.acts, Usage.step, hhit, hrun, Usage.after, Call.run, Cache.get]
        · simp [Call.acts, Usage.answers, Usage.answer?, Usage.step, hhit, hrun, hanswers, Call.run,
            Cache.get, Reply.values, Except.toOption]
  | remove key => exact ⟨rfl, rfl⟩
  | contains key => exact ⟨rfl, rfl⟩
  | removeIdle maxIdle => exact ⟨rfl, rfl⟩
  | configure limits => exact ⟨rfl, rfl⟩
  | dispose => exact ⟨rfl, rfl⟩
  | size => exact ⟨rfl, rfl⟩

theorem Call.run_actsAll (calls : List (Call κ ν ε)) (u : Usage κ ν) :
    u.run (Call.actsAll u calls) = { u with cache := (Call.runAll u.clock u.cache calls).1 } ∧
      u.answers (Call.actsAll u calls) = Reply.valuesAll (Call.runAll u.clock u.cache calls).2 := by
  cases calls with
  | nil => exact ⟨rfl, rfl⟩
  | cons call calls =>
    obtain ⟨hrun, hanswers⟩ := Call.run_acts call u
    obtain ⟨hrun', hanswers'⟩ := Call.run_actsAll calls (u.after call)
    simp only [Usage.after] at hrun hrun' hanswers'
    constructor
    · simp [Call.actsAll, hrun, hrun', Call.runAll]
    · simp [Call.actsAll, hrun, hanswers, hanswers', Call.runAll, Reply.valuesAll]

end

end LangHost.Cache
