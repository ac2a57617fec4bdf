import LangHost.Proofs.Cache.Timeline
import LangHost.Proofs.Plain.Host
import LangHost.Proofs.Server.Frame
/-!
# Settings in force

The client's settings have three takers: the configuration of the server, its cache, and the
services. Each takes of the settings what it can read and keeps what it had where it can read
nothing. So what is in force with a taker is what the latest settings say that it could read, and
it does not matter what came before, or what the others could read (`settings_in_force`).

For the cache that goes further than for the others, since sweeps are counted from the time at which
their limits were put in force. All that a server does to its cache in between are uses of it that
leave the limits alone (`Uses`), so that it sweeps by the timeline of a cache in use.
-/

namespace LangHost

/-! ## Settings that arrive -/

/-- The configuration that the server reads in settings, unless they are malformed. -/
def Config.read? (settings : Json) : Option Config := (Config.decode settings).toOption

namespace Plain.Settings

/-- The section about plain texts in settings, unless it is missing or malformed. -/
def read? (settings : Json) : Option Settings := (ofClient? settings).toOption.join

theorem configure_eq (settings : Json) (current : Settings) :
    current.configure settings = (read? settings).getD current := by
  unfold configure read?
  rcases ofClient? settings with e | none | s <;> rfl

end Plain.Settings

theorem Registry.get?_configure {σ μ : Type} (r : Registry σ μ) (settings : Json) (id : String) :
    (r.configure settings).get? id = (r.get? id).map (·.configured settings) := by
  unfold get? configure
  rw [List.find?_map]
  rfl

/-! ## Acts that leave the limits alone -/

namespace Cache

variable {κ ν : Type}

/-- Whether an act leaves the limits of a cache alone. -/
def Act.KeepsLimits : Act κ ν → Prop
  | .configure _ => False
  | .dispose => False
  | _ => True

theorem Timeline.term_step {x : Timeline} {a : Act κ ν} (h : a.KeepsLimits) :
    (x.step a).term = x.term := by
  cases a with
  | configure _ => cases h
  | dispose => cases h
  | _ => rfl

theorem Timeline.term_of_append {limits : Limits} {now : Nat} {acts more : List (Act κ ν)}
    (h : ∀ a ∈ more, a.KeepsLimits) : (of limits now (acts ++ more)).term = (of limits now acts).term := by
  induction more using List.reverseRecOn with
  | nil => rw [List.append_nil]
  | append_singleton more a ih =>
    simp only [List.forall_mem_append, List.forall_mem_singleton] at h
    rw [← List.append_assoc, of_concat, term_step h.2, ih h.1]

end Cache

namespace Server

variable {σ μ : Type}

/-- Settings of the client, and the time at which they arrived. -/
structure Arrival where
  time : Nat
  settings : Json

/-- The settings that an event brings, if it brings any. -/
def Event.settings? : Event → Option Json
  | .setUp options => options
  | .notification (.configured settings) => some settings
  | _ => none

/-- `start.Receives events arrivals s`: when the events happen to `start`, it becomes `s`, and the
settings that arrive meanwhile are `arrivals`, latest first. -/
inductive Receives (start : Server σ μ) : List Event → List Arrival → Server σ μ → Prop where
  | nil : Receives start [] [] start
  | snoc {events : List Event} {arrivals : List Arrival} {e : Event} {s s' : Server σ μ} :
      Receives start events arrivals s → Step s e s' →
        Receives start (events ++ [e]) ((e.settings?.map (⟨s.clock, ·⟩)).toList ++ arrivals) s'

theorem Receives.reaches {start s : Server σ μ} {events : List Event} {arrivals : List Arrival}
    (h : start.Receives events arrivals s) : start.Reaches events s := by
  induction h with
  | nil => exact .nil
  | snoc _ hstep ih => exact ih.snoc hstep

/-- It can be told of every run what settings arrive in it. -/
theorem Reaches.receives {start s : Server σ μ} {events : List Event} (h : start.Reaches events s) :
    ∃ arrivals, start.Receives events arrivals s := by
  induction h with
  | nil => exact ⟨_, .nil⟩
  | snoc _ hstep ih =>
    obtain ⟨arrivals, hreceives⟩ := ih
    exact ⟨_, hreceives.snoc hstep⟩

/-! ## The latest that could be read -/

/-- The configuration in the latest settings in which the server could read one. -/
def configOf (arrivals : List Arrival) : Config :=
  (arrivals.findSome? (Config.read? ·.settings)).getD {}

/-- When those settings arrived. A server has its first configuration from the start. -/
def sinceOf (arrivals : List Arrival) : Nat :=
  ((arrivals.find? fun a => (Config.read? a.settings).isSome).map Arrival.time).getD 0

/-- The section about plain texts in the latest settings that have a well-formed one. -/
def plainOf (initial : Plain.Settings) (arrivals : List Arrival) : Plain.Settings :=
  (arrivals.findSome? (Plain.Settings.read? ·.settings)).getD initial

/-- The limits of the cache, and since when they are in force. -/
def termOf (arrivals : List Arrival) : Cache.Term := ⟨(configOf arrivals).cache.limits, sinceOf arrivals⟩

section Latest

variable (a : Arrival) (arrivals : List Arrival)

theorem configOf_cons : configOf (a :: arrivals) = (Config.read? a.settings).getD (configOf arrivals) := by
  unfold configOf
  rw [List.findSome?_cons]
  cases Config.read? a.settings <;> rfl

theorem plainOf_cons (initial : Plain.Settings) : plainOf initial (a :: arrivals) =
    (Plain.Settings.read? a.settings).getD (plainOf initial arrivals) := by
  unfold plainOf
  rw [List.findSome?_cons]
  cases Plain.Settings.read? a.settings <;> rfl

theorem termOf_cons : termOf (a :: arrivals) =
    ((Config.read? a.settings).map (⟨·.cache.limits, a.time⟩)).getD (termOf arrivals) := by
  unfold termOf sinceOf
  rw [configOf_cons, List.find?_cons]
  cases Config.read? a.settings <;> rfl

end Latest

/-! ## What a server does to its cache -/

/-- The cache of a server, in use at the server's time. -/
def usage (s : Server σ μ) : Cache.Usage String μ := ⟨⟨s.clock, false⟩, s.models, []⟩

/-- What lies between two servers are uses of the cache that leave its limits alone. -/
def Uses (s s' : Server σ μ) : Prop :=
  ∃ acts : List (Cache.Act String μ), (∀ a ∈ acts, a.KeepsLimits) ∧ s'.usage = s.usage.run acts

namespace Uses

variable {s s' s'' : Server σ μ}

theorem of_eq (h : s'.usage = s.usage) : Uses s s' := ⟨[], nofun, h⟩

theorem act {a : Cache.Act String μ} (ha : a.KeepsLimits) (h : s'.usage = s.usage.step a) : Uses s s' :=
  ⟨[a], by simpa using ha, h⟩

theorem trans (h : Uses s s') (h' : Uses s' s'') : Uses s s'' := by
  obtain ⟨acts, hacts, hrun⟩ := h
  obtain ⟨more, hmore, hrun'⟩ := h'
  refine ⟨acts ++ more, List.forall_mem_append.2 ⟨hacts, hmore⟩, ?_⟩
  rw [hrun', hrun, Cache.Usage.run_append]

end Uses

/-- A document's model is looked up, and a computation begins if it is not there. -/
theorem Lookup.uses {s s' : Server σ μ} {d : Document}
    {r : Except Fault (Service σ μ × Cache.Stamped μ)} (h : Lookup s d s' r) : Uses s s' := by
  cases h with
  | unknown _ => exact .of_eq rfl
  | hit _ he =>
    refine .act (a := .get d.uri d.version d.kind) trivial ?_
    simp only [usage, Cache.Usage.step, he]
  | failed _ he _ =>
    refine ⟨[.get d.uri d.version d.kind, .fail 0], by simp [Cache.Act.KeepsLimits], ?_⟩
    simp [usage, Cache.Usage.step, he]
  | @parsed v m _ he _ =>
    refine ⟨[.get d.uri d.version d.kind, .succeed 0 m], by simp [Cache.Act.KeepsLimits], ?_⟩
    simp [usage, Cache.Usage.step, he]

theorem usage_later (s : Server σ μ) (t : Nat) :
    (⟨⟨max s.clock t, false⟩, s.models.advance (max s.clock t), []⟩ : Cache.Usage String μ) =
      s.usage.step (.wait (t - s.clock)) := by
  have hlater : max s.clock t = s.clock + (t - s.clock) := by omega
  simp only [usage, Cache.Usage.step, Cache.Clock.later, hlater]

theorem wait_uses (s : Server σ μ) (t : Nat) : Uses s (s.wait t) :=
  .act (a := .wait (t - s.clock)) trivial (s.usage_later t)

theorem take_uses (s : Server σ μ) (due : Nat) (rest : Agenda (Debouncer.Job String Unit Run)) :
    Uses s (s.take due rest) :=
  .act (a := .wait (due - s.clock)) trivial (s.usage_later due)

theorem answer_uses (s : Server σ μ) (r : Request) : Uses s (s.answer r).1 := by
  cases hd : s.document? r.uri with
  | none => exact .of_eq (by simp [answer, hd])
  | some d =>
    rw [answer_eq hd]
    exact (s.getModel_lookup d).uses

theorem launch_uses (s : Server σ μ) (uri : String) : Uses s (s.launch uri) := by
  obtain ⟨_, _, _, _, hlaunch⟩ := s.launch_frame uri
  cases hd : s.document? uri with
  | none =>
    refine .of_eq ?_
    simp [hlaunch, startRun, hd, usage]
  | some d =>
    obtain ⟨_, _, hmodel⟩ := s.getModel_frame d
    obtain ⟨_, _, hbegun⟩ :=
      (s.getModel d).1.begun_frame (startOf s.nextRun d (modelOf (s.getModel d).2))
    have husage : (s.launch uri).usage = (s.getModel d).1.usage := by
      rw [hlaunch, (startRun_eq hd).2, hbegun, hmodel]
      rfl
    obtain ⟨acts, hacts, hrun⟩ := (s.getModel_lookup d).uses
    exact ⟨acts, hacts, husage.trans hrun⟩

theorem perform_uses (s : Server σ μ) (job : Debouncer.Job String Unit Run) : Uses s (s.perform job) := by
  cases job with
  | resume run =>
    obtain ⟨_, _, hs⟩ := s.finishRun_frame run
    exact .of_eq (by simp only [perform, hs]; rfl)
  | fire uri id action =>
    rw [perform_fire]
    split
    · exact .of_eq rfl
    · rename_i ledger _
      exact launch_uses { s with validations := { s.validations with ledger } } uri

/-! ## What an event does to settings -/

theorem notify_leaves (s : Server σ μ) {n : Notification} (h : (Event.notification n).settings? = none) :
    (s.notify n).config = s.config ∧ (s.notify n).services = s.services ∧ Uses s (s.notify n) := by
  cases n with
  | initialized =>
    obtain ⟨sent, hs⟩ := s.log_frame .info "genls ready"
    rw [notify, hs]
    exact ⟨rfl, rfl, .of_eq rfl⟩
  | opened d =>
    obtain ⟨validations, sent, hs⟩ := s.openDocument_frame d
    rw [notify, hs]
    exact ⟨rfl, rfl, .of_eq rfl⟩
  | changed uri version texts =>
    simp only [notify]
    split
    · exact ⟨rfl, rfl, .of_eq rfl⟩
    · rename_i text _
      cases hd : s.document? uri with
      | none =>
        have hs : s.changeDocument uri version text = s := by simp only [changeDocument, hd]
        rw [hs]
        exact ⟨rfl, rfl, .of_eq rfl⟩
      | some d =>
        obtain ⟨validations, hs⟩ := changeDocument_frame hd version text
        rw [hs]
        exact ⟨rfl, rfl, .of_eq rfl⟩
  | closed uri =>
    obtain ⟨validations, sent, hs⟩ := s.closeDocument_frame uri
    rw [notify, hs]
    exact ⟨rfl, rfl, .act (a := .remove uri) trivial rfl⟩
  | configured settings => cases h

/-- An event brings settings, which are applied, or it leaves all settings and, unless it ends the
session, the limits of the cache alone. -/
theorem Step.settings {s s' : Server σ μ} {e : Event} (h : Step s e s') :
    (∃ j phase validations, e.settings? = some j ∧ s' = { s.applySettings j with phase, validations }) ∨
      e.settings? = none ∧ s'.config = s.config ∧ s'.services = s.services ∧
        (e ≠ .shutDown → Uses s s') := by
  cases h with
  | setUp options _ =>
    cases options with
    | none => exact .inr ⟨rfl, rfl, rfl, fun _ => .of_eq rfl⟩
    | some j => exact .inl ⟨j, .initialized, _, rfl, rfl⟩
  | notification n _ =>
    cases hn : (Event.notification n).settings? with
    | none =>
      obtain ⟨hconfig, hservices, huses⟩ := s.notify_leaves hn
      exact .inr ⟨rfl, hconfig, hservices, fun _ => huses⟩
    | some j =>
      cases n with
      | configured settings =>
        cases hn
        obtain ⟨validations, hs⟩ :=
          (s.applySettings j).revalidate_frame (s.applySettings j).config.validation
        exact .inl ⟨j, (s.applySettings j).phase, validations, rfl, by simp only [notify, hs]⟩
      | _ => cases hn
  | request r _ =>
    have huses := s.answer_uses r
    obtain ⟨_, _, hs⟩ := s.answer_frame r
    exact .inr ⟨rfl, by rw [hs], by rw [hs], fun _ => huses⟩
  | shutDown _ => exact .inr ⟨rfl, rfl, rfl, fun hopen => absurd rfl hopen⟩
  | hangUp _ => exact .inr ⟨rfl, rfl, rfl, fun _ => .of_eq rfl⟩
  | exit => exact .inr ⟨rfl, rfl, rfl, fun _ => .of_eq rfl⟩
  | validation uri =>
    have huses := s.launch_uses uri
    obtain ⟨_, _, _, _, hs⟩ := s.launch_frame uri
    exact .inr ⟨rfl, by rw [hs], by rw [hs], fun _ => huses⟩
  | job front back item _ _ =>
    have huses := (s.take_uses item.due (front ++ back)).trans
      ((s.take item.due (front ++ back)).perform_uses item.job)
    obtain ⟨_, _, _, _, _, hs⟩ := (s.take item.due (front ++ back)).perform_frame item.job
    exact .inr ⟨rfl, by rw [hs]; rfl, by rw [hs]; rfl, fun _ => huses⟩
  | time t _ => exact .inr ⟨rfl, rfl, rfl, fun _ => s.wait_uses t⟩

/-- What settings do to a server when they arrive. What the server makes of them and what the services
make of them does not hang on each other. -/
structure Takes (s : Server σ μ) (settings : Json) (s' : Server σ μ) : Prop where
  /-- Every service is handed the settings. -/
  services : s'.services = s.services.configure settings
  noted : ∀ v ∈ s.services.services, .configured v.id settings ∈ s'.history
  accepted : ∀ config, Config.decode settings = .ok config →
    s'.config = config ∧ s'.models = s.models.configure config.cache.limits s.clock
  rejected : ∀ e, Config.decode settings = .error e → s'.config = s.config ∧ s'.models = s.models
  clock : s'.clock = s.clock

theorem history_applySettings (s : Server σ μ) (settings : Json) :
    (s.applySettings settings).history =
      s.services.services.map (fun v => .configured v.id settings) ++ s.history := by
  unfold applySettings
  cases Config.decode settings with
  | ok config => rfl
  | error e =>
    obtain ⟨sent, hs⟩ := s.log_frame .warning ("Invalid genls configuration: " ++ e.message)
    simp only [hs]

theorem Step.takes {s s' : Server σ μ} {e : Event} {settings : Json} (h : Step s e s')
    (he : e.settings? = some settings) : Takes s settings s' := by
  obtain ⟨j, phase, validations, hj, rfl⟩ | ⟨hnone, -⟩ := h.settings
  · obtain rfl : j = settings := Option.some.inj (hj.symm.trans he)
    obtain ⟨_, _, _, _, hs, -⟩ := s.applySettings_frame j
    refine ⟨by simp only [hs], fun v hv => ?_, fun config hc => ?_, fun err hc => ?_, by simp only [hs]⟩
    · rw [history_applySettings]
      exact List.mem_append_left _ (List.mem_map_of_mem hv)
    · obtain ⟨_, hok⟩ := s.applySettings_ok hc
      simp only [hok, and_self]
    · obtain ⟨_, herr⟩ := s.applySettings_error hc
      obtain ⟨_, hl⟩ := s.log_frame .warning ("Invalid genls configuration: " ++ err.message)
      simp only [herr, hl, and_self]
  · rw [hnone] at he
    cases he

/-- An event without settings leaves them alone. -/
theorem Step.leaves {s s' : Server σ μ} {e : Event} (h : Step s e s') (he : e.settings? = none) :
    s'.config = s.config ∧ s'.services = s.services ∧ (e ≠ .shutDown → Uses s s') := by
  obtain ⟨_, _, _, hj, -⟩ | ⟨-, hleaves⟩ := h.settings
  · rw [he] at hj
    cases hj
  · exact hleaves

namespace Takes

variable {s s' : Server σ μ} {settings : Json}

theorem config_eq (h : Takes s settings s') : s'.config = (Config.read? settings).getD s.config := by
  unfold Config.read?
  cases hc : Config.decode settings with
  | ok config => exact (h.accepted config hc).1
  | error e => exact (h.rejected e hc).1

/-- The plain-text service takes its section if it can read it. -/
theorem plain {s s' : Server Plain.Settings μ} {embed : Plain.Model → μ} {view : μ → Option Plain.Model}
    {current : Plain.Settings} (h : Takes s settings s')
    (hs : s.services.get? Plain.kind = some (Plain.service embed view current)) :
    s'.services.get? Plain.kind =
      some (Plain.service embed view ((Plain.Settings.read? settings).getD current)) := by
  rw [h.services, Registry.get?_configure, hs, ← Plain.Settings.configure_eq]
  rfl

end Takes

/-! ## The limits of the cache -/

/-- The cache of a server is a cache in use, and the given limits were put in force last. -/
def Under (p : Cache.Term) (s : Server σ μ) : Prop :=
  ∃ acts, s.usage = (Cache.Usage.start {} ⟨0, false⟩).run acts ∧
    (Cache.Timeline.of {} 0 acts).term = some p

theorem milliseconds_ne_zero {seconds : Int} : milliseconds seconds ≠ 0 ↔ 0 < seconds := by
  unfold milliseconds
  omega

/-- The timeline of the cache keeps the server's time. -/
theorem now_of_usage {s : Server σ μ} {acts : List (Cache.Act String μ)}
    (h : s.usage = (Cache.Usage.start {} ⟨0, false⟩).run acts) :
    (Cache.Timeline.of {} 0 acts).now = s.clock := by
  have hclock := (Cache.timed_run {} 0 acts).clock
  rw [← h] at hclock
  exact (congrArg Cache.Clock.time hclock).symm

namespace Under

variable {p : Cache.Term} {s s' : Server σ μ}

theorem uses (h : Under p s) (huses : Uses s s') : Under p s' := by
  obtain ⟨acts, hrun, hterm⟩ := h
  obtain ⟨more, hmore, husage⟩ := huses
  refine ⟨acts ++ more, ?_, (Cache.Timeline.term_of_append hmore).trans hterm⟩
  rw [husage, hrun, Cache.Usage.run_append]

/-- Settings that the server can read put their limits in force, from the time at which they arrive. -/
theorem takes (h : Under p s) {settings : Json} (htakes : Takes s settings s') :
    Under (((Config.read? settings).map (⟨·.cache.limits, s.clock⟩)).getD p) s' := by
  obtain ⟨acts, hrun, hterm⟩ := h
  unfold Config.read?
  cases hc : Config.decode settings with
  | ok config =>
    refine ⟨acts ++ [.configure config.cache.limits], ?_, ?_⟩
    · rw [Cache.Usage.run_append, ← hrun]
      simp only [usage, htakes.clock, (htakes.accepted config hc).2]
      rfl
    · rw [Cache.Timeline.of_concat]
      simp only [Cache.Timeline.step, hterm, now_of_usage hrun]
      rfl
  | error e =>
    refine ⟨acts, ?_, hterm⟩
    rw [← hrun]
    simp only [usage, htakes.clock, (htakes.rejected e hc).2]

theorem capacity (h : Under p s) : s.models.capacity = p.limits.capacity := by
  obtain ⟨acts, hrun, hterm⟩ := h
  have hlimit := Cache.capacity_run {} 0 acts p hterm
  rw [← hrun] at hlimit
  exact hlimit

theorem timed (h : Under p s) :
    Cache.Ordered s.usage ∧ Cache.Timed ⟨s.clock, some p⟩ s.usage.recency := by
  obtain ⟨acts, hrun, hterm⟩ := h
  have hordered := (Cache.Ordered.start {} ⟨0, false⟩).run acts
  have htimed := Cache.timed_run {} 0 acts
  rw [← hrun] at hordered htimed
  have hline : Cache.Timeline.of {} 0 acts = ⟨s.clock, some p⟩ := by
    rw [← hterm, ← now_of_usage hrun]
  exact ⟨hordered, hline ▸ htimed⟩

end Under

/-! ## What a run does to settings -/

namespace Receives

variable {events : List Event} {arrivals : List Arrival}

theorem config {services : Registry σ μ} {s : Server σ μ}
    (h : (boot services).Receives events arrivals s) : s.config = configOf arrivals := by
  induction h with
  | nil => rfl
  | @snoc events arrivals e s s' _ hstep ih =>
    cases he : e.settings? with
    | some settings =>
      rw [(hstep.takes he).config_eq, ih]
      exact (configOf_cons ⟨s.clock, settings⟩ arrivals).symm
    | none => exact (hstep.leaves he).1.trans ih

theorem plain {services : Registry Plain.Settings μ} {s : Server Plain.Settings μ}
    {embed : Plain.Model → μ} {view : μ → Option Plain.Model} {initial : Plain.Settings}
    (hplain : services.get? Plain.kind = some (Plain.service embed view initial))
    (h : (boot services).Receives events arrivals s) :
    s.services.get? Plain.kind = some (Plain.service embed view (plainOf initial arrivals)) := by
  induction h with
  | nil => exact hplain
  | @snoc events arrivals e s s' _ hstep ih =>
    cases he : e.settings? with
    | some settings =>
      rw [(hstep.takes he).plain ih, ← plainOf_cons ⟨s.clock, settings⟩]
      rfl
    | none =>
      rw [(hstep.leaves he).2.1]
      exact ih

theorem under {services : Registry σ μ} {s : Server σ μ}
    (h : (boot services).Receives events arrivals s) (hopen : .shutDown ∉ events) :
    Under (termOf arrivals) s := by
  induction h with
  | nil => exact ⟨[], rfl, rfl⟩
  | @snoc events arrivals e s s' _ hstep ih =>
    simp only [List.mem_append, List.mem_singleton, not_or] at hopen
    have hunder := ih hopen.1
    cases he : e.settings? with
    | some settings =>
      have htaken := hunder.takes (hstep.takes he)
      exact termOf_cons ⟨s.clock, settings⟩ arrivals ▸ htaken
    | none => exact hunder.uses ((hstep.leaves he).2.2 (Ne.symm hopen.2))

end Receives

/-! ## Settings in force -/

/-- What is in force with a server that knows plain texts is what the latest settings say, each taker
counting those only that it could read. -/
structure InForce (embed : Plain.Model → μ) (view : μ → Option Plain.Model) (initial : Plain.Settings)
    (arrivals : List Arrival) (s : Server Plain.Settings μ) : Prop where
  config : s.config = configOf arrivals
  capacity : s.models.capacity = max 1 s.config.cache.maxEntries
  /-- Sweeps are counted from the time at which the configuration came. -/
  sweeps : 0 < s.config.cache.ttlSecs → 0 < s.config.cache.sweepIntervalSecs →
    Cache.SweepsBy ⟨s.config.cache.limits, sinceOf arrivals⟩ s.usage
  still : s.config.cache.ttlSecs ≤ 0 ∨ s.config.cache.sweepIntervalSecs ≤ 0 → s.models.sweep = none
  plain : s.services.get? Plain.kind = some (Plain.service embed view (plainOf initial arrivals))

theorem Receives.inForce {services : Registry Plain.Settings μ} {embed : Plain.Model → μ}
    {view : μ → Option Plain.Model} {initial : Plain.Settings} {events : List Event}
    {arrivals : List Arrival} {s : Server Plain.Settings μ}
    (hplain : services.get? Plain.kind = some (Plain.service embed view initial))
    (h : (boot services).Receives events arrivals s) (hopen : .shutDown ∉ events) :
    InForce embed view initial arrivals s := by
  have hunder := h.under hopen
  obtain ⟨hordered, htimed⟩ := hunder.timed
  unfold termOf at hunder htimed
  rw [← h.config] at hunder htimed
  refine ⟨h.config, hunder.capacity, fun httl hinterval => ?_, fun hoff => ?_, h.plain hplain⟩
  · exact htimed.sweepsBy hordered rfl (milliseconds_ne_zero.2 httl) (milliseconds_ne_zero.2 hinterval)
  · have hsweep : s.models.sweep = Cache.Term.sweep? ⟨s.config.cache.limits, sinceOf arrivals⟩ s.clock :=
      htimed.sweep
    rw [hsweep, Option.eq_none_iff_forall_ne_some]
    intro sweep hsome
    obtain ⟨httl, hinterval, -⟩ := Cache.Term.sweep?_eq_some.1 hsome
    have httl := milliseconds_ne_zero.1 httl
    have hinterval := milliseconds_ne_zero.1 hinterval
    omega

/-- Whatever settings a client sends and whatever else happens until the session ends, the server has
the configuration of the latest settings in which it can read one; its cache has the room of that
configuration and sweeps as it asks for, from the time at which it came; and plain texts are checked
by the latest section about them that is well-formed. Settings which the server cannot read are handed
to the services and change nothing else, and those whose section about plain texts is of no use are
taken by the server all the same. -/
theorem settings_in_force {services : Registry Plain.Settings μ} {embed : Plain.Model → μ}
    {view : μ → Option Plain.Model} {initial : Plain.Settings} {events : List Event}
    {s : Server Plain.Settings μ}
    (hplain : services.get? Plain.kind = some (Plain.service embed view initial))
    (h : (boot services).Reaches events s) (hopen : .shutDown ∉ events) :
    (∃ arrivals, (boot services).Receives events arrivals s) ∧
      (∀ arrivals, (boot services).Receives events arrivals s →
        InForce embed view initial arrivals s) ∧
      ∀ e settings s', Step s e s' → e.settings? = some settings → Takes s settings s' ∧
        (Plain.Settings.read? settings = none →
          s'.services.get? Plain.kind = s.services.get? Plain.kind) := by
  refine ⟨h.receives, fun arrivals harrivals => harrivals.inForce hplain hopen, ?_⟩
  intro e settings s' hstep he
  have htakes := hstep.takes he
  refine ⟨htakes, fun hnone => ?_⟩
  obtain ⟨arrivals, harrivals⟩ := h.receives
  have hs := harrivals.plain hplain
  rw [htakes.plain hs, hnone, hs]
  rfl

/-- Settings that only the plain-text service can read, and later ones that only the server can. -/
def tuned : List Event :=
  [.setUp (some (.obj [("model_cache", .bool true), ("plaintext", .obj [("maxLineLength", .int 80)])])),
    .notification (.opened ⟨"a", "plaintext", 1, "x"⟩), .request ⟨"a", .symbols⟩,
    .notification (.closed "a"), .time 500,
    .notification (.configured (.obj [("model_cache", .obj [("max_entries", .int 3),
      ("sweep_interval_secs", .int 5), ("ttl_secs", .int 2)]), ("plaintext", .str "wide")])),
    .time 6000]

/-- Each of the two takers has what it could read, and sweeps are counted from the later arrival. -/
theorem settings_in_force_tuned : ∃ s : Server Plain.Settings Plain.Model,
    (boot (Plain.services id some)).Reaches tuned s ∧ s.config.cache = ⟨3, 2, 5⟩ ∧
    s.models.capacity = 3 ∧
    (∃ sweep, s.models.sweep = some sweep ∧ sweep.ttl = 2000 ∧ sweep.interval = 5000 ∧
      sweep.next = 10500) ∧
    s.services.get? Plain.kind = some (Plain.service id some ⟨true, some 80⟩) := by
  obtain ⟨s, arrivals, hreceives, hconfig, hsince, hplain, hclock⟩ :
      ∃ (s : Server Plain.Settings Plain.Model) (arrivals : List Arrival),
        (boot (Plain.services id some)).Receives tuned arrivals s ∧
        configOf arrivals = { cache := ⟨3, 2, 5⟩ } ∧ sinceOf arrivals = 500 ∧
        plainOf {} arrivals = ⟨true, some 80⟩ ∧ s.clock = 6000 :=
    ⟨_, _, .snoc (.snoc (.snoc (.snoc (.snoc (.snoc (.snoc .nil (.setUp _ rfl)) (.notification _ rfl))
        (.request _ rfl)) (.notification _ rfl)) (.time 500 (by decide))) (.notification _ rfl))
        (.time 6000 (by decide)), rfl, rfl, rfl, rfl⟩
  have hservice : (Plain.services id some).get? Plain.kind = some (Plain.service id some {}) := rfl
  obtain ⟨-, hall, -⟩ := settings_in_force hservice hreceives.reaches (by simp [tuned])
  obtain ⟨hc, hcapacity, hsweeps, -, hservices⟩ := hall arrivals hreceives
  rw [hconfig] at hc
  rw [hc] at hcapacity hsweeps
  refine ⟨s, hreceives.reaches, by rw [hc], hcapacity, ?_, hplain ▸ hservices⟩
  have hnext := (hsweeps (by decide) (by decide)).next
  simpa [hsince, usage, hclock, Cache.Term.tick, Cache.Term.count, CacheConfig.limits, milliseconds]
    using hnext

end Server

end LangHost
