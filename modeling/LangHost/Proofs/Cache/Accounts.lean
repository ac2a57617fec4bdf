import LangHost.Proofs.Cache.Inclusion
import LangHost.Proofs.Cache.Timeline
/-!
# The accounts of a cache

A cache counts its hits and misses and the entries that it drops on its own. What it does not count
can be told from a run: `Usage.total` adds up over all acts what each of them does. Every act changes
the counters and the number of entries by just that, so the accounts balance after every run, however
computations overlap (`accounts_balance`). For the acts of a call, the totals are what the replies tell
to the caller and to the computations (`Call.total_acts`).
-/

namespace LangHost.Cache

variable {κ ν ε : Type}

/-! ## Totals -/

namespace Usage

variable [DecidableEq κ]

/-- The sum over a run of what each act does, which `one` tells from the cache that it is done to. -/
def total (one : Usage κ ν → Act κ ν → Nat) : Usage κ ν → List (Act κ ν) → Nat
  | _, [] => 0
  | u, a :: acts => one u a + total one (u.step a) acts

/-- The lookups that an act makes. -/
def lookups (_ : Usage κ ν) : Act κ ν → Nat
  | .get _ _ _ => 1
  | _ => 0

/-- The computations that an act begins: so many more are going on after it. -/
def computations (u : Usage κ ν) (a : Act κ ν) : Nat := (u.step a).inFlight.length - u.inFlight.length

/-- The values that an act stores under keys that have no entry. -/
def additions (u : Usage κ ν) : Act κ ν → Nat
  | .succeed place _ =>
    match u.inFlight[place]? with
    | none => 0
    | some q => if u.cache.disposed || u.cache.contains q.key then 0 else 1
  | _ => 0

/-- The removals that an act makes and that find an entry. -/
def removals (u : Usage κ ν) : Act κ ν → Nat
  | .remove key => (u.cache.contains key).toNat
  | _ => 0

/-- The entries that disposal drops. -/
def clearances (u : Usage κ ν) : Act κ ν → Nat
  | .dispose => u.cache.size - u.cache.dispose.size
  | _ => 0

variable {one other : Usage κ ν → Act κ ν → Nat}

theorem total_append (u : Usage κ ν) (acts more : List (Act κ ν)) :
    u.total one (acts ++ more) = u.total one acts + (u.run acts).total one more := by
  induction acts generalizing u with
  | nil => simp [total]
  | cons a acts ih =>
    simp only [List.cons_append, total, ih, run_cons]
    omega

theorem total_add (u : Usage κ ν) (acts : List (Act κ ν)) :
    u.total (fun u a => one u a + other u a) acts = u.total one acts + u.total other acts := by
  induction acts generalizing u with
  | nil => rfl
  | cons a acts ih =>
    simp only [total, ih]
    omega

theorem total_zero (u : Usage κ ν) (acts : List (Act κ ν)) : u.total (fun _ _ => 0) acts = 0 := by
  induction acts generalizing u with
  | nil => rfl
  | cons a acts ih => simp only [total, ih]

/-- What every act changes by its gain less its loss a run changes by the totals of both. -/
theorem total_of_step (held : Usage κ ν → Nat) (gain loss : Usage κ ν → Act κ ν → Nat)
    (hstep : ∀ u, Ordered u → ∀ a, held (u.step a) + loss u a = held u + gain u a) {u : Usage κ ν}
    (hu : Ordered u) (acts : List (Act κ ν)) :
    held (u.run acts) + u.total loss acts = held u + u.total gain acts := by
  induction acts generalizing u with
  | nil => rfl
  | cons a acts ih =>
    have hfirst := hstep u hu a
    have hrest := ih (hu.step a)
    simp only [run_cons, total]
    omega

end Usage

/-! ## Hits and misses -/

section Lookups

variable [DecidableEq κ] {u : Usage κ ν}

theorem Ordered.stats_keep (h : Ordered u) (key : κ) (version : Int) (kind : String)
    (stored : Stamped ν) : ∃ evictions,
      (u.cache.keep u.clock.time key version kind stored).stats = { u.cache.stats with evictions } := by
  cases hd : u.cache.disposed with
  | true => exact ⟨u.cache.stats.evictions, by simp [Cache.keep, hd]⟩
  | false =>
    obtain ⟨evictions, hkeep⟩ := keep_eq h.order hd key version kind stored
    exact ⟨evictions, by rw [hkeep]⟩

theorem Ordered.stats_configure (h : Ordered u) (limits : Limits) : ∃ evictions,
    (u.cache.configure limits u.clock.time).stats = { u.cache.stats with evictions } := by
  cases hd : u.cache.disposed with
  | true => exact ⟨u.cache.stats.evictions, by simp [Cache.configure, hd]⟩
  | false =>
    obtain ⟨evictions, hconfigure⟩ := configure_eq h.order hd limits u.clock.time
    exact ⟨evictions, by rw [hconfigure]⟩

theorem computations_get (u : Usage κ ν) (key : κ) (version : Int) (kind : String) :
    u.computations (.get key version kind) = (u.cache.hit? key version kind).isNone.toNat := by
  simp only [Usage.computations, Usage.step]
  cases u.cache.hit? key version kind <;> simp

theorem computations_succeed (u : Usage κ ν) (place : Nat) (value : ν) :
    u.computations (.succeed place value) = 0 := by
  simp only [Usage.computations, Usage.step]
  split
  · exact Nat.sub_self _
  · exact Nat.sub_eq_zero_of_le (List.length_eraseIdx_le ..)

theorem computations_fail (u : Usage κ ν) (place : Nat) :
    u.computations (.fail place : Act κ ν) = 0 :=
  Nat.sub_eq_zero_of_le (List.length_eraseIdx_le ..)

/-- Every lookup is counted, as a miss if it begins a computation and as a hit otherwise. -/
theorem Ordered.counted (h : Ordered u) (a : Act κ ν) :
    (u.step a).cache.stats.misses = u.cache.stats.misses + u.computations a ∧
      (u.step a).cache.stats.hits + u.computations a = u.cache.stats.hits + u.lookups a := by
  cases a with
  | get key version kind =>
    rw [computations_get]
    simp only [Usage.step, Usage.lookups]
    cases u.cache.hit? key version kind with
    | none => simp [miss]
    | some e => simp [Cache.touch, put]
  | succeed place value =>
    rw [computations_succeed]
    simp only [Usage.step, Usage.lookups]
    split
    · exact ⟨rfl, rfl⟩
    · rename_i q _
      obtain ⟨evictions, hstats⟩ := h.stats_keep q.key q.version q.kind ⟨q.serial, value⟩
      simp [hstats]
  | fail place =>
    rw [computations_fail]
    exact ⟨rfl, rfl⟩
  | configure limits =>
    obtain ⟨evictions, hstats⟩ := h.stats_configure limits
    simp [Usage.step, Usage.lookups, Usage.computations, hstats]
  | dispose =>
    simp only [Usage.step, Usage.lookups, Usage.computations, Cache.dispose, Nat.sub_self]
    split <;> exact ⟨rfl, rfl⟩
  | wait duration =>
    obtain ⟨expirations, hadvance⟩ := u.cache.advance_eq (u.clock.later duration).time
    simp [Usage.step, Usage.lookups, Usage.computations, hadvance]
  | remove key => simp [Usage.step, Usage.lookups, Usage.computations, Cache.remove]
  | removeIdle maxIdle => simp [Usage.step, Usage.lookups, Usage.computations, Cache.removeIdle]

end Lookups

/-! ## Entries that come and go -/

/-- The entries that are there, and those that the cache has dropped on its own. -/
def held (c : Cache κ ν) : Nat := c.size + c.stats.evictions + c.stats.expirations

theorem held_removeIdle (c : Cache κ ν) (maxIdle now : Nat) :
    (c.removeIdle maxIdle now).held = c.held := by
  have hcounted := (expires_removeIdle c maxIdle now).counted
  have hevictions : (c.removeIdle maxIdle now).stats.evictions = c.stats.evictions := rfl
  unfold held size
  omega

theorem held_sweepUntil (now : Nat) (s : Sweep) (c : Cache κ ν) :
    (sweepUntil now s c).held = c.held := by
  fun_induction sweepUntil now s c with
  | case1 s c hdue ih => rw [ih, held_removeIdle]
  | case2 s c hdue => rfl

theorem held_advance (c : Cache κ ν) (now : Nat) : (c.advance now).held = c.held := by
  unfold advance
  split
  · rfl
  · exact held_sweepUntil now _ c

theorem oldest_mem (e : Entry κ ν) (rest : List (Entry κ ν)) : oldest e rest ∈ e :: rest := by
  induction rest generalizing e with
  | nil => exact List.mem_singleton.2 rfl
  | cons b rest ih =>
    rw [oldest, List.foldl_cons]
    split
    · exact List.mem_cons_of_mem e (ih b)
    · rcases List.mem_cons.1 (ih e) with he | hrest
      · exact List.mem_cons.2 (.inl he)
      · exact List.mem_cons_of_mem e (List.mem_cons_of_mem b hrest)

section Entries

variable [DecidableEq κ] {c : Cache κ ν} {u : Usage κ ν}

/-- A removal drops one entry if it finds one. -/
theorem size_remove (h : (c.entries.map (·.key)).Nodup) (key : κ) :
    (c.remove key).size + (c.contains key).toNat = c.size := by
  have hkeys : (c.remove key).entries.map (·.key) = (c.entries.map (·.key)).erase key := by
    rw [h.erase_eq_filter, List.filter_map]
    simp only [Cache.remove, without]
    congr 2
    funext e
    simp [bne, beq_eq_decide]
  have hsize := congrArg List.length hkeys
  rw [List.length_map, List.length_erase, List.length_map] at hsize
  unfold size
  by_cases hkey : c.contains key = true
  · have hmem : key ∈ c.entries.map (·.key) := List.mem_map.2 (contains_iff.1 hkey)
    have hpos := List.length_pos_of_mem hmem
    rw [List.length_map] at hpos
    rw [if_pos hmem] at hsize
    rw [hkey, Bool.toNat_true]
    omega
  · have hmem : key ∉ c.entries.map (·.key) := fun hmem => hkey (contains_iff.2 (List.mem_map.1 hmem))
    rw [if_neg hmem] at hsize
    simpa [hkey] using hsize

theorem size_put (h : (c.entries.map (·.key)).Nodup) (e : Entry κ ν) :
    (c.put e).size + (c.contains e.key).toNat = c.size + 1 := by
  have hremove := size_remove h e.key
  have hput : (c.put e).size = (c.remove e.key).size + 1 := rfl
  omega

theorem held_evict (h : (c.entries.map (·.key)).Nodup) (n : Nat) : (c.evict n).held = c.held := by
  induction n generalizing c with
  | zero => rfl
  | succ n ih =>
    unfold evict
    split
    · rfl
    · rename_i e rest hcons
      -- the victim is one of the entries, so what is counted is what is lost
      have hvictim : c.contains (oldest e rest).key = true := by
        refine contains_iff.2 ⟨oldest e rest, ?_, rfl⟩
        rw [hcons]
        exact oldest_mem e rest
      have hsize := size_remove h (oldest e rest).key
      rw [hvictim, Bool.toNat_true] at hsize
      rw [ih (h.sublist (List.filter_sublist.map _))]
      simp only [held, size, Cache.remove] at hsize ⊢
      omega

theorem held_trim (h : (c.entries.map (·.key)).Nodup) : c.trim.held = c.held := held_evict h _

theorem Ordered.held_keep (h : Ordered u) (hd : u.cache.disposed = false) (key : κ) (version : Int)
    (kind : String) (stored : Stamped ν) :
    (u.cache.keep u.clock.time key version kind stored).held + (u.cache.contains key).toNat =
      u.cache.held + 1 := by
  have hput := size_put h.order.keys ⟨key, version, kind, stored, u.clock.time, u.cache.nextSeq⟩
  have hkeys := (h.order.front (x := ⟨key, version, kind, stored, u.clock.time, u.cache.nextSeq⟩) rfl rfl).keys
  rw [Cache.keep, if_neg (by simp [hd]), held_trim hkeys]
  have hstats (e : Entry κ ν) : (u.cache.put e).stats = u.cache.stats := rfl
  simp only [held, hstats] at hput ⊢
  omega

theorem Ordered.held_configure (h : Ordered u) (limits : Limits) (now : Nat) :
    (u.cache.configure limits now).held = u.cache.held := by
  unfold Cache.configure
  split
  · rfl
  · exact held_trim (c := { u.cache with capacity := limits.capacity }) h.order.keys

/-- The entry that serves a lookup is put in its own place. -/
theorem Ordered.held_touch (h : Ordered u) {key : κ} {version : Int} {kind : String} {e : Entry κ ν}
    (he : u.cache.hit? key version kind = some e) :
    (u.cache.touch e u.clock.time).held = u.cache.held := by
  have hput := size_put h.order.keys { e with lastAccess := u.clock.time, accessSeq := u.cache.nextSeq }
  have hthere : u.cache.contains e.key = true := contains_iff.2 ⟨e, (mem_of_hit? he).1, rfl⟩
  simp only [hthere, Bool.toNat_true] at hput
  simp only [held, Cache.touch, size, put] at hput ⊢
  omega

omit [DecidableEq κ] in
theorem held_dispose (c : Cache κ ν) : c.dispose.held + (c.size - c.dispose.size) = c.held := by
  unfold Cache.dispose
  split
  · simp
  · simp only [held, size, List.length_nil]
    omega

/-- Whatever is added is there until it is dropped, removed or cleared. -/
theorem Ordered.held_step (h : Ordered u) (a : Act κ ν) :
    (u.step a).cache.held + (u.removals a + u.clearances a) = u.cache.held + u.additions a := by
  cases a with
  | get key version kind =>
    simp only [Usage.step, Usage.removals, Usage.clearances, Usage.additions]
    split
    · rename_i e he
      rw [h.held_touch he]
    · rfl
  | succeed place value =>
    simp only [Usage.step, Usage.removals, Usage.clearances, Usage.additions]
    cases u.inFlight[place]? with
    | none => rfl
    | some q =>
      cases hd : u.cache.disposed with
      | true => simp [Cache.keep, hd]
      | false =>
        have hkeep := h.held_keep hd q.key q.version q.kind ⟨q.serial, value⟩
        cases hthere : u.cache.contains q.key with
        | true => simpa [hthere] using hkeep
        | false => simpa [hthere] using hkeep
  | fail place => rfl
  | remove key =>
    have hsize := size_remove h.order.keys key
    have hstats : (u.cache.remove key).stats = u.cache.stats := rfl
    simp only [Usage.step, Usage.removals, Usage.clearances, Usage.additions, held, hstats] at hsize ⊢
    omega
  | removeIdle maxIdle => exact held_removeIdle _ _ _
  | configure limits => exact h.held_configure limits _
  | dispose =>
    have hdispose := held_dispose u.cache
    simp only [Usage.step, Usage.removals, Usage.clearances, Usage.additions]
    omega
  | wait duration => exact held_advance _ _

end Entries

/-! ## What the replies tell -/

/-- Whether a call is a lookup. -/
def Call.isLookup : Call κ ν ε → Bool
  | .get _ _ _ _ _ => true
  | _ => false

/-- Whether a call is a removal that was told to have found an entry. -/
def Call.removed : Call κ ν ε → Reply ν ε → Bool
  | .remove _, .flag found => found
  | _, _ => false

mutual

/-- How many calls with their replies are such as told, among a call and those that its computation
has made. -/
def Call.tally (p : Call κ ν ε → Reply ν ε → Bool) : Call κ ν ε → Reply ν ε → Nat
  | .get key version kind during outcome, .got result (some replies) =>
    (p (.get key version kind during outcome) (.got result (some replies))).toNat +
      Call.tallyAll p during replies
  | call, reply => (p call reply).toNat

/-- How many are such as told among some calls and those that their computations have made. -/
def Call.tallyAll (p : Call κ ν ε → Reply ν ε → Bool) : List (Call κ ν ε) → List (Reply ν ε) → Nat
  | call :: calls, reply :: replies => Call.tally p call reply + Call.tallyAll p calls replies
  | _, _ => 0

end

section Replies

variable [DecidableEq κ] {one : Usage κ ν → Act κ ν → Nat} {p : Call κ ν ε → Reply ν ε → Bool}

/-- What an act does is told by the reply to the call that begins with it, and the end of a computation
does nothing. -/
structure Reports (one : Usage κ ν → Act κ ν → Nat) (p : Call κ ν ε → Reply ν ε → Bool) : Prop where
  first : ∀ u (call : Call κ ν ε),
    ((call.acts u).head?.map (one u)).getD 0 = (p call (call.run u.clock u.cache).2).toNat
  succeed : ∀ u place value, one u (.succeed place value) = 0
  fail : ∀ u place, one u (.fail place) = 0

mutual

/-- The total over the acts of a call is what its reply and those to its computation tell. -/
theorem Call.total_acts (h : Reports one p) (call : Call κ ν ε) (u : Usage κ ν) :
    u.total one (call.acts u) = call.tally p (call.run u.clock u.cache).2 := by
  have hfirst := h.first u call
  cases call with
  | get key version kind during outcome =>
    cases hhit : u.cache.hit? key version kind with
    | some e =>
      have hreply : ((Call.get key version kind during outcome).run u.clock u.cache).2 =
          .got (.ok e.stored) none := by
        simp [Call.run, Cache.get, hhit]
      rw [hreply] at hfirst ⊢
      simp only [Call.acts, hhit, List.head?_cons, Option.map_some, Option.getD_some] at hfirst
      simp only [Call.acts, hhit, Usage.total, Nat.add_zero, hfirst]
      rfl
    | none =>
      have hduring := Call.total_actsAll h during (u.step (.get key version kind))
      have hreply : ∃ result, ((Call.get key version kind during outcome).run u.clock u.cache).2 =
          .got result (some (Call.runAll u.clock u.cache.miss during).2) := by
        cases outcome with
        | error f => exact ⟨.error f, by simp [Call.run, Cache.get, hhit]⟩
        | ok value => exact ⟨.ok ⟨u.cache.stats.misses, value⟩, by simp [Call.run, Cache.get, hhit]⟩
      obtain ⟨result, hreply⟩ := hreply
      rw [hreply] at hfirst ⊢
      simp only [Call.acts, hhit, List.head?_cons, Option.map_some, Option.getD_some] at hfirst
      simp only [Call.acts, hhit, Usage.total, Usage.total_append, hfirst, hduring]
      simp only [Usage.step, hhit, Call.tally]
      cases outcome with
      | error f => simp [h.fail]
      | ok value => simp [h.succeed]
  | remove key => simpa [Call.acts, Usage.total, Call.tally] using hfirst
  | contains key => simpa [Call.acts, Usage.total, Call.tally] using hfirst
  | removeIdle maxIdle => simpa [Call.acts, Usage.total, Call.tally] using hfirst
  | configure limits => simpa [Call.acts, Usage.total, Call.tally] using hfirst
  | dispose => simpa [Call.acts, Usage.total, Call.tally] using hfirst
  | size => simpa [Call.acts, Usage.total, Call.tally] using hfirst

theorem Call.total_actsAll (h : Reports one p) (calls : List (Call κ ν ε)) (u : Usage κ ν) :
    u.total one (Call.actsAll u calls) = Call.tallyAll p calls (Call.runAll u.clock u.cache calls).2 := by
  cases calls with
  | nil => rfl
  | cons call calls =>
    have hcall := Call.total_acts h call u
    have hcalls := Call.total_actsAll h calls (u.after call)
    simp only [Call.actsAll, Usage.total_append, (call.run_acts u).1, hcall, hcalls]
    simp only [Usage.after, Call.runAll, Call.tallyAll]

end

theorem reports_lookups :
    Reports (κ := κ) (ν := ν) (ε := ε) Usage.lookups (fun call _ => call.isLookup) where
  first u call := by
    cases call with
    | get key version kind during outcome =>
      simp only [Call.acts]
      split <;> rfl
    | _ => rfl
  succeed _ _ _ := rfl
  fail _ _ := rfl

theorem reports_computations :
    Reports (κ := κ) (ν := ν) (ε := ε) Usage.computations (fun _ reply => reply.computed) where
  first u call := by
    cases call with
    | get key version kind during outcome =>
      have hone := computations_get u key version kind
      cases hhit : u.cache.hit? key version kind with
      | some e => simp_all [Call.acts, Call.run, Cache.get, Reply.computed]
      | none => cases outcome <;> simp_all [Call.acts, Call.run, Cache.get, Reply.computed]
    | contains key => rfl
    | size => rfl
    | _ => exact Nat.sub_self _
  succeed := computations_succeed
  fail := computations_fail

theorem reports_removals :
    Reports (κ := κ) (ν := ν) (ε := ε) Usage.removals Call.removed where
  first u call := by
    cases call with
    | get key version kind during outcome =>
      simp only [Call.acts]
      split <;> rfl
    | _ => rfl
  succeed _ _ _ := rfl
  fail _ _ := rfl

end Replies

/-! ## The balance -/

/-- The accounts of a cache balance after every run. Hits and misses together are the lookups that
were made, and misses are the computations that were run. Every value stored under a key without an
entry is still there, was driven out, has expired, was removed, or went with the disposal. For calls
that are made then, the replies tell the same of lookups, computations and removals. -/
theorem accounts_balance [DecidableEq κ] (limits : Limits) (clock : Clock) (acts : List (Act κ ν)) :
    let start := Usage.start limits clock
    let u := start.run acts
    u.cache.stats.hits + u.cache.stats.misses = start.total Usage.lookups acts ∧
      u.cache.stats.misses = start.total Usage.computations acts ∧
      start.total Usage.additions acts =
        u.cache.size + u.cache.stats.evictions + u.cache.stats.expirations +
          start.total Usage.removals acts + start.total Usage.clearances acts ∧
      ∀ calls : List (Call κ ν ε),
        let replies := (Call.runAll u.clock u.cache calls).2
        u.run (Call.actsAll u calls) = { u with cache := (Call.runAll u.clock u.cache calls).1 } ∧
          u.total Usage.lookups (Call.actsAll u calls) =
            Call.tallyAll (fun call _ => call.isLookup) calls replies ∧
          u.total Usage.computations (Call.actsAll u calls) =
            Call.tallyAll (fun _ reply => reply.computed) calls replies ∧
          u.total Usage.removals (Call.actsAll u calls) =
            Call.tallyAll Call.removed calls replies := by
  intro start u
  have hstart : Ordered start := Ordered.start limits clock
  have hmisses := Usage.total_of_step (fun u => u.cache.stats.misses) Usage.computations (fun _ _ => 0)
    (fun u hu a => (hu.counted a).1) hstart acts
  have hhits := Usage.total_of_step (fun u => u.cache.stats.hits) Usage.lookups Usage.computations
    (fun u hu a => (hu.counted a).2) hstart acts
  have hheld := Usage.total_of_step (fun u => u.cache.held) Usage.additions
    (fun u a => u.removals a + u.clearances a) (fun u hu a => hu.held_step a) hstart acts
  have hnone : start.cache.stats.hits = 0 ∧ start.cache.stats.misses = 0 ∧ start.cache.held = 0 :=
    ⟨rfl, rfl, rfl⟩
  have hrun : start.run acts = u := rfl
  simp only [hrun, hnone, Usage.total_zero, Usage.total_add] at hmisses hhits hheld
  refine ⟨by omega, by omega, by rw [held] at hheld; omega, fun calls => ?_⟩
  exact ⟨(Call.run_actsAll calls u).1, Call.total_actsAll reports_lookups calls u,
    Call.total_actsAll reports_computations calls u, Call.total_actsAll reports_removals calls u⟩

end LangHost.Cache
