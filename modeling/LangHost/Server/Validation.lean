import LangHost.Server.Basic
/-!
# Validation

A document is validated some time after its last edit. A validation works on the revision that is
current when it starts, and it can take a while; its findings are published only if that revision
is still the current one when it ends.
-/

namespace LangHost.Server

variable {σ μ : Type}

/-- The finding about a document that cannot be parsed. -/
def parseFailure (f : Fault) : Diagnostic where
  range := .origin
  message := f.message
  severity := some Severity.error.code
  source := some "genls"

/-- What comes of asking for a validation. -/
inductive Start where
  /-- The document is not open. -/
  | closed
  /-- No service handles the document. -/
  | refused (f : Fault)
  /-- The validation runs for the given time. -/
  | running (duration : Nat) (run : Run)

/-- Starts a validation of the current revision of a document. -/
def startRun (s : Server σ μ) (uri : String) : Server σ μ × Start :=
  match s.document? uri with
  | none => (s, .closed)
  | some d =>
    match s.getModel d with
    | (s', .error (.noLanguageService kind)) =>
      let f := .noLanguageService kind
      (s'.log .error f.message, .refused f)
    | (s', .error f) =>
      ({ s' with nextRun := s'.nextRun + 1 }, .running 0 ⟨s'.nextRun, d, none, some [parseFailure f]⟩)
    | (s', .ok (service, model)) =>
      let pass := service.validate service.settings d model.value s'.nextRun
      ({ s' with nextRun := s'.nextRun + 1 },
        .running pass.duration ⟨s'.nextRun, d, some service.id, pass.findings⟩)

/-- Whether the revision that a validation works on has the version of the stored one. -/
def isCurrent (s : Server σ μ) (d : Document) : Bool :=
  (s.document? d.uri).any (·.version = d.version)

/-- Ends a validation. -/
def finishRun (s : Server σ μ) (run : Run) : Server σ μ :=
  let s := match run.service with
    | some id => s.note (.validated id)
    | none => s
  match run.findings with
  | none => s.note (.crashed run.number)
  | some findings =>
    if s.isCurrent run.document then
      (s.publish run.document.uri findings (some run.document.version)).note
        (.settled run.number true)
    else s.note (.settled run.number false)

/-- Goes on with a validation that has started: it ends at once or some time later. -/
def continueRun (s : Server σ μ) : Start → Server σ μ
  | .closed => s
  | .refused _ => s
  | .running duration run =>
    if duration = 0 then s.finishRun run
    else { s with validations := s.validations.suspend s.clock duration run }

/-- Does a job that has come due: starts a validation, unless it is no longer the one that its
document waits for, or ends one. -/
def perform (s : Server σ μ) : Debouncer.Job String Unit Run → Server σ μ
  | .fire uri id _ =>
    match s.validations.ledger.redeem? uri id with
    | none => s
    | some ledger =>
      let (s', start) := startRun { s with validations := { s.validations with ledger } } uri
      s'.continueRun start
  | .resume run => s.finishRun run

/-- The server at the time a job is due, with the job taken out of the agenda. -/
def take (s : Server σ μ) (due : Nat) (rest : Agenda (Debouncer.Job String Unit Run)) :
    Server σ μ :=
  { s with
    clock := max s.clock due
    models := s.models.advance (max s.clock due)
    validations := { s.validations with agenda := rest } }

/-! ## The passage of time -/

/-- A bound on how often a job has to be attended to. -/
def jobWeight : Debouncer.Job String Unit Run → Nat
  | .fire _ _ _ => 2
  | .resume _ => 1

/-- The weight of all work that waits. -/
def weight (s : Server σ μ) : Nat := s.validations.agenda.weight jobWeight

@[simp] theorem validations_send (s : Server σ μ) (n : Notice) :
    (s.send n).validations = s.validations := by
  unfold send; split <;> rfl

@[simp] theorem validations_note (s : Server σ μ) (a : Activity) :
    (s.note a).validations = s.validations := rfl

@[simp] theorem validations_getModel (s : Server σ μ) (d : Document) :
    (s.getModel d).1.validations = s.validations := by
  unfold getModel
  split
  · rfl
  · simp only
    split <;> rfl

@[simp] theorem validations_startRun (s : Server σ μ) (uri : String) :
    (s.startRun uri).1.validations = s.validations := by
  unfold startRun
  split
  · rfl
  · rename_i d _
    have h := s.validations_getModel d
    split <;> simp_all [log]

@[simp] theorem validations_finishRun (s : Server σ μ) (run : Run) :
    (s.finishRun run).validations = s.validations := by
  unfold finishRun
  cases run.service <;> cases run.findings <;> simp <;> split <;> simp [publish]

theorem weight_continueRun_le (s : Server σ μ) (start : Start) :
    (s.continueRun start).weight ≤ s.weight + 1 := by
  cases start with
  | closed => simp [continueRun]
  | refused f => simp [continueRun]
  | running duration run =>
    simp only [continueRun]
    split
    · simp [weight]
    · simp [weight, Debouncer.suspend, Agenda.weight, jobWeight]

theorem weight_perform_lt (s : Server σ μ) (job : Debouncer.Job String Unit Run) :
    (s.perform job).weight < s.weight + jobWeight job := by
  cases job with
  | resume run => simp [perform, weight, jobWeight]
  | fire uri id action =>
    simp only [perform, jobWeight]
    split
    · omega
    · rename_i ledger _
      have h := weight_continueRun_le
        (startRun { s with validations := { s.validations with ledger } } uri).1
        (startRun { s with validations := { s.validations with ledger } } uri).2
      simp only [weight, validations_startRun] at h ⊢
      omega

/-- The server after all that is due by the given time, each job done at its own time. -/
def runUntil (s : Server σ μ) (limit : Nat) : Server σ μ :=
  match _h : s.validations.agenda.firstBy? limit with
  | none => { s with clock := max s.clock limit, models := s.models.advance (max s.clock limit) }
  | some (e, rest) => ((s.take e.due rest).perform e.job).runUntil limit
termination_by s.weight
decreasing_by
  have h₁ := Agenda.weight_firstBy? jobWeight _h
  have h₂ := (s.take e.due rest).weight_perform_lt e.job
  simp only [weight, take] at h₁ h₂ ⊢
  omega

/-- The server after all that is due by now. -/
def settle (s : Server σ μ) : Server σ μ := s.runUntil s.clock

/-- The server at the end of a sleep, and after all that is due then. -/
def sleep (s : Server σ μ) (duration : Nat) : Server σ μ :=
  s.runUntil (Agenda.dueAfter s.clock duration)

/-- How a validation that was waited for ended. -/
inductive Outcome where
  | published
  | outdated
  | crashed
  deriving DecidableEq, Repr

/-- The end of a validation, once it has come to it. -/
def outcome? (s : Server σ μ) (run : Nat) : Option Outcome :=
  s.history.findSome? fun
    | .settled n published =>
      if n = run then some (if published then .published else .outdated) else none
    | .crashed n => if n = run then some .crashed else none
    | _ => none

/-- Validates a document now and waits for the end, while the clock goes on. A document that is
not open has nothing to publish. -/
def validate (s : Server σ μ) (uri : String) : Server σ μ × Except Fault Outcome :=
  match s.startRun uri with
  | (s', .closed) => (s', .ok .outdated)
  | (s', .refused f) => (s', .error f)
  | (s', .running duration run) =>
    let s'' := (s'.continueRun (.running duration run)).runUntil
      (Agenda.dueAfter s'.clock duration)
    (s'', .ok ((s''.outcome? run.number).getD .crashed))

/-! ## Asking for validations -/

/-- Asks for a validation of a document after a delay. Nothing happens when validation is off, or
when the document is not open or no service handles it. -/
def schedule (s : Server σ μ) (v : ValidationConfig) (uri : String) : Server σ μ :=
  if v.enabled && (s.document? uri).any fun d => (s.services.forKind? d.kind).isSome then
    { s with validations := s.validations.trigger s.clock uri v.delayMs () }
  else s

/-- Asks for a validation of every open document, or takes all back when validation is off. -/
def revalidate (s : Server σ μ) (v : ValidationConfig) : Server σ μ :=
  if v.enabled then (s.documents.map (·.uri)).foldl (fun s uri => s.schedule v uri) s
  else { s with validations := s.validations.cancelAll }

/-- Takes back the validation that is pending for a document. -/
def cancelValidation (s : Server σ μ) (uri : String) : Server σ μ :=
  { s with validations := s.validations.cancel uri }

end LangHost.Server
