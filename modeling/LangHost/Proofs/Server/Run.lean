import Mathlib.Logic.Function.Basic
import LangHost.Server.Session
/-!
# Runs of a server

A run is what happens to a server from its start on, one event after another: messages of the
client, and work that is done when it comes due. Messages can arrive at any moment, also while
other work is due; of the work that is due first, any can be done first. So a theorem about every
run holds for every interleaving of the client with validations and sweeps.

`receive_step` and `reaches_runUntil` say that messages and the passage of time, as the server
takes them, are events of such runs.
-/

namespace LangHost.Server

variable {σ μ : Type}

/-! ## Events -/

/-- What can happen to a server. -/
inductive Event where
  /-- The client starts the session, with its settings if it brings any. -/
  | setUp (options : Option Json)
  | notification (n : Notification)
  | request (r : Request)
  /-- The client ends the session. -/
  | shutDown
  /-- The client ends the session by a message that is no proper call, so that nothing is cleared. -/
  | hangUp
  | exit
  /-- A validation starts that was not put off. -/
  | validation (uri : String)
  /-- The job at a place of the agenda is done. -/
  | job (place : Nat)
  /-- The clock moves on. -/
  | time (t : Nat)

/-- Starts a validation of a document and goes on with it. -/
def launch (s : Server σ μ) (uri : String) : Server σ μ :=
  (s.startRun uri).1.continueRun (s.startRun uri).2

/-- The server at a later time at which nothing is due. -/
def wait (s : Server σ μ) (t : Nat) : Server σ μ :=
  { s with clock := max s.clock t, models := s.models.advance (max s.clock t) }

/-- What an event does to a server. Messages are taken in the phase they belong to, and neither a
job nor the clock overtakes a job that is due before. -/
inductive Step : Server σ μ → Event → Server σ μ → Prop where
  | setUp {s : Server σ μ} (options : Option Json) (h : s.phase = .uninitialized) :
      Step s (.setUp options) { s.setUp options with phase := .initialized }
  | notification {s : Server σ μ} (n : Notification) (h : s.phase = .initialized) :
      Step s (.notification n) (s.notify n)
  | request {s : Server σ μ} (r : Request) (h : s.phase = .initialized) :
      Step s (.request r) (s.answer r).1
  | shutDown {s : Server σ μ} (h : s.phase = .initialized) :
      Step s .shutDown (shutdown { s with phase := .shutDown })
  | hangUp {s : Server σ μ} (h : s.phase = .initialized) :
      Step s .hangUp { s with phase := .shutDown }
  | exit {s : Server σ μ} : Step s .exit { s with phase := .exited }
  | validation {s : Server σ μ} (uri : String) : Step s (.validation uri) (s.launch uri)
  | job {s : Server σ μ} (front back : Agenda (Debouncer.Job String Unit Run))
      (item : Agenda.Item (Debouncer.Job String Unit Run))
      (h : s.validations.agenda = front ++ item :: back)
      (first : ∀ x ∈ s.validations.agenda, item.due ≤ x.due) :
      Step s (.job front.length) ((s.take item.due (front ++ back)).perform item.job)
  | time {s : Server σ μ} (t : Nat) (h : ∀ x ∈ s.validations.agenda, t ≤ x.due) :
      Step s (.time t) (s.wait t)

/-- `Starts s e s₁ uri`: when `e` happens to `s`, a validation of `uri` starts on the server `s₁`. -/
inductive Starts : Server σ μ → Event → Server σ μ → String → Prop where
  | direct (s : Server σ μ) (uri : String) : Starts s (.validation uri) s uri
  | due {s : Server σ μ} {front back : Agenda (Debouncer.Job String Unit Run)} {due id : Nat}
      {uri : String} {action : Unit} {ledger : Ledger String}
      (h : s.validations.agenda = front ++ ⟨due, .fire uri id action⟩ :: back)
      (first : ∀ x ∈ s.validations.agenda, due ≤ x.due)
      (hr : s.validations.ledger.redeem? uri id = some ledger) :
      Starts s (.job front.length)
        { s.take due (front ++ back) with validations := ⟨ledger, front ++ back⟩ } uri

theorem Starts.step {s s₁ : Server σ μ} {e : Event} {uri : String} (h : Starts s e s₁ uri) :
    Step s e (s₁.launch uri) := by
  cases h with
  | direct => exact .validation uri
  | @due front back due id _ action ledger h first hr =>
    have hstep := Step.job front back _ h first
    simpa only [launch, perform, take, hr] using hstep

/-- `Ends s e s₁ run`: when `e` happens to `s`, the validation `run` comes to its end on the server
`s₁`. -/
inductive Ends : Server σ μ → Event → Server σ μ → Run → Prop where
  | atOnce {s s₁ : Server σ μ} {e : Event} {uri : String} {run : Run} (h : Starts s e s₁ uri)
      (hr : (s₁.startRun uri).2 = .running 0 run) : Ends s e (s₁.startRun uri).1 run
  | later {s : Server σ μ} {front back : Agenda (Debouncer.Job String Unit Run)} {due : Nat}
      {run : Run} (h : s.validations.agenda = front ++ ⟨due, .resume run⟩ :: back)
      (first : ∀ x ∈ s.validations.agenda, due ≤ x.due) :
      Ends s (.job front.length) (s.take due (front ++ back)) run

/-- `Consults s e s₁ d`: when `e` happens to `s`, the model of the stored document `d` is asked for
on the server `s₁`. -/
inductive Consults : Server σ μ → Event → Server σ μ → Document → Prop where
  | request {s : Server σ μ} {r : Request} {d : Document} (h : s.phase = .initialized)
      (hd : s.document? r.uri = some d) : Consults s (.request r) s d
  | validation {s s₁ : Server σ μ} {e : Event} {uri : String} {d : Document}
      (h : Starts s e s₁ uri) (hd : s₁.document? uri = some d) : Consults s e s₁ d

/-- A server with the given services, before anything has happened to it. -/
def boot (services : Registry σ μ) : Server σ μ := { services }

/-- `start.Reaches events s`: when the events happen to `start`, it becomes `s`. -/
inductive Reaches (start : Server σ μ) : List Event → Server σ μ → Prop where
  | nil : Reaches start [] start
  | snoc {events : List Event} {e : Event} {s s' : Server σ μ} :
      Reaches start events s → Step s e s' → Reaches start (events ++ [e]) s'

/-- An event does one thing. -/
theorem Step.unique {s s₁ s₂ : Server σ μ} {e : Event} (h₁ : Step s e s₁) (h₂ : Step s e s₂) :
    s₁ = s₂ := by
  cases h₁ with
  | job front back item h _ =>
    generalize hplace : front.length = place at h₂
    cases h₂ with
    | job front' back' item' h' _ =>
      obtain ⟨rfl, hrest⟩ := List.append_inj (h.symm.trans h') hplace
      cases hrest
      rfl
  | _ =>
    cases h₂
    rfl

theorem Reaches.unique {start s₁ : Server σ μ} {events : List Event} (h₁ : start.Reaches events s₁) :
    ∀ {s₂ : Server σ μ}, start.Reaches events s₂ → s₁ = s₂ := by
  induction h₁ with
  | nil =>
    intro s₂ h₂
    generalize hevents : ([] : List Event) = events at h₂
    cases h₂ with
    | nil => rfl
    | snoc => simp at hevents
  | @snoc events e s s' _ hstep ih =>
    intro s₂ h₂
    generalize hevents : events ++ [e] = events' at h₂
    cases h₂ with
    | nil => simp at hevents
    | snoc h₂ hstep' =>
      obtain ⟨rfl, rfl⟩ := List.append_inj' hevents rfl |>.imp_right List.singleton_inj.1
      obtain rfl := ih h₂
      exact hstep.unique hstep'

/-! ## The client's part -/

/-- The revisions of each document since it was opened, latest first; none when it is closed. -/
abbrev Revisions := String → List Document

namespace Revisions

/-- The revisions after an event. -/
def after (c : Revisions) : Event → Revisions
  | .notification (.opened d) => Function.update c d.uri [d]
  | .notification (.changed uri version texts) =>
    match texts.getLast?, c uri with
    | some text, d :: _ => Function.update c uri (d.update version text :: c uri)
    | _, _ => c
  | .notification (.closed uri) => Function.update c uri []
  | _ => c

/-- The client opens only what is not open, and gives a new revision a version that satisfies `p`
beside the versions since the document was opened. -/
def Admits (p : Int → List Int → Prop) (c : Revisions) : Event → Prop
  | .notification (.opened d) => c d.uri = []
  | .notification (.changed uri version texts) =>
    texts ≠ [] → p version ((c uri).map (·.version))
  | _ => True

end Revisions

/-- The revisions after some events. -/
def revisions (events : List Event) : Revisions := events.foldl Revisions.after fun _ => []

/-- Every event is one that the client may cause when it happens, from the given revisions on. -/
def OrderlyFrom (p : Int → List Int → Prop) : Revisions → List Event → Prop
  | _, [] => True
  | c, e :: events => c.Admits p e ∧ OrderlyFrom p (c.after e) events

/-- Every event of a run is one that the client may cause when it happens. -/
def Orderly (p : Int → List Int → Prop) : List Event → Prop := OrderlyFrom p fun _ => []

/-- The client opens only what is not open, and from its opening to its closing no two revisions of
a document have one version. -/
def Distinct : List Event → Prop := Orderly fun version used => version ∉ used

/-- The client opens only what is not open, and from its opening to its closing the versions of a
document grow. -/
def Rising : List Event → Prop := Orderly fun version used => ∀ v ∈ used, v < version

@[simp] theorem revisions_snoc (events : List Event) (e : Event) :
    revisions (events ++ [e]) = (revisions events).after e := by
  simp [revisions]

theorem revisions_append (events more : List Event) :
    revisions (events ++ more) = more.foldl Revisions.after (revisions events) :=
  List.foldl_append

theorem orderlyFrom_append {p : Int → List Int → Prop} {c : Revisions} {events more : List Event} :
    OrderlyFrom p c (events ++ more) ↔
      OrderlyFrom p c events ∧ OrderlyFrom p (events.foldl Revisions.after c) more := by
  induction events generalizing c with
  | nil => simp [OrderlyFrom]
  | cons f events ih => simp [OrderlyFrom, ih, and_assoc]

theorem orderly_append {p : Int → List Int → Prop} {events more : List Event} :
    Orderly p (events ++ more) ↔ Orderly p events ∧ OrderlyFrom p (revisions events) more :=
  orderlyFrom_append

theorem orderly_snoc {p : Int → List Int → Prop} {events : List Event} {e : Event} :
    Orderly p (events ++ [e]) ↔ Orderly p events ∧ (revisions events).Admits p e := by
  simp [orderly_append, OrderlyFrom]

section Decidable

variable {p : Int → List Int → Prop} [∀ version used, Decidable (p version used)]

instance (c : Revisions) : (e : Event) → Decidable (c.Admits p e)
  | .notification (.opened d) => inferInstanceAs (Decidable (c d.uri = []))
  | .notification (.changed uri version texts) =>
    inferInstanceAs (Decidable (texts ≠ [] → p version ((c uri).map (·.version))))
  | .notification .initialized => isTrue trivial
  | .notification (.closed _) => isTrue trivial
  | .notification (.configured _) => isTrue trivial
  | .setUp _ => isTrue trivial
  | .request _ => isTrue trivial
  | .shutDown => isTrue trivial
  | .hangUp => isTrue trivial
  | .exit => isTrue trivial
  | .validation _ => isTrue trivial
  | .job _ => isTrue trivial
  | .time _ => isTrue trivial

instance decidableOrderlyFrom : (c : Revisions) → (events : List Event) → Decidable (OrderlyFrom p c events)
  | _, [] => isTrue trivial
  | c, e :: events =>
    haveI := decidableOrderlyFrom (c.after e) events
    inferInstanceAs (Decidable (c.Admits p e ∧ OrderlyFrom p (c.after e) events))

end Decidable

instance (events : List Event) : Decidable (Distinct events) :=
  inferInstanceAs (Decidable (OrderlyFrom (fun version used => version ∉ used) (fun _ => []) events))

instance (events : List Event) : Decidable (Rising events) :=
  inferInstanceAs
    (Decidable (OrderlyFrom (fun version used => ∀ v ∈ used, v < version) (fun _ => []) events))

theorem Rising.distinct {events : List Event} (h : Rising events) : Distinct events := by
  suffices hfrom : ∀ c : Revisions, OrderlyFrom (fun version used => ∀ v ∈ used, v < version) c events →
      OrderlyFrom (fun version used => version ∉ used) c events from hfrom _ h
  clear h
  induction events with
  | nil => exact fun _ _ => trivial
  | cons e events ih =>
    rintro c ⟨ha, hrest⟩
    refine ⟨?_, ih _ hrest⟩
    unfold Revisions.Admits at ha ⊢
    split at ha
    · exact ha
    · exact fun ht hmem => Int.lt_irrefl _ (ha ht _ hmem)
    · trivial

/-! ## Messages and time are events -/

/-- The server is as it was, or an event has made it what it is. -/
def StepOrNot (s s' : Server σ μ) : Prop := s' = s ∨ ∃ e, Step s e s'

theorem receiveSetUp_step (s : Server σ μ) (m : Message) : s.StepOrNot (s.receiveSetUp m).1 := by
  unfold receiveSetUp
  split
  · exact .inl rfl
  · rename_i hphase
    split
    · exact .inl rfl
    · split
      · exact .inl rfl
      · exact .inr ⟨_, .setUp _ (by simpa using hphase)⟩

theorem receiveShutdown_step (s : Server σ μ) (m : Message) :
    s.StepOrNot (s.receiveShutdown m).1 := by
  unfold receiveShutdown
  split
  · exact .inl rfl
  · rename_i hphase
    have hphase : s.phase = .initialized := by simpa using hphase
    simp only
    split
    · exact .inr ⟨_, .hangUp hphase⟩
    · split
      · exact .inr ⟨_, .shutDown hphase⟩
      · exact .inr ⟨_, .hangUp hphase⟩

theorem receiveRegular_step (s : Server σ μ) (m : Message) (purpose : Purpose)
    (hphase : s.phase = .initialized) : s.StepOrNot (s.receiveRegular m purpose).1 := by
  cases purpose with
  | request decode =>
    simp only [receiveRegular]
    split
    · exact .inl rfl
    · split
      · exact .inl rfl
      · rename_i r _
        have hstep : Step s (.request r) (s.answer r).1 := .request r hphase
        refine .inr ⟨.request r, ?_⟩
        split <;> simp_all
  | notification decode =>
    simp only [receiveRegular]
    split
    · exact .inl rfl
    · split
      · exact .inl rfl
      · exact .inr ⟨_, .notification _ hphase⟩
  | unsupportedRequest params => exact .inl rfl
  | unsupportedNotification => exact .inl rfl

/-- A message changes nothing, or it is an event. -/
theorem receive_step (s : Server σ μ) (m : Message) : s.StepOrNot (s.receive m).1 := by
  unfold receive
  split
  · exact .inl rfl
  · split
    · exact .inl rfl
    · exact s.receiveSetUp_step m
    · exact s.receiveShutdown_step m
    · exact .inr ⟨_, .exit⟩
    · exact .inl rfl
    · split
      · rename_i hphase
        exact s.receiveRegular_step m _ hphase
      · exact .inl rfl

/-- The request that a message makes in an initialized session, if it makes one. -/
def asks? (m : Message) : Option Request :=
  match Wire.method? m.method with
  | some (.regular (.request decode)) => if m.isCall then (m.decode decode).toOption else none
  | _ => none

/-- The answer to a message hangs on the phase of the session and on the answer to its request. -/
theorem receive_congr {s t : Server σ μ} (hphase : t.phase = s.phase) {m : Message}
    (hanswer : ∀ r, asks? m = some r → (s.answer r).2 = (t.answer r).2) :
    (s.receive m).2 = (t.receive m).2 := by
  unfold receive
  rw [hphase]
  split
  · rfl
  · split
    · rfl
    · unfold receiveSetUp
      rw [hphase]
      split
      · rfl
      · split
        · rfl
        · split <;> rfl
    · unfold receiveShutdown outOfPhase
      rw [hphase]
      split
      · rfl
      · simp only
        split
        · rfl
        · split <;> rfl
    · rfl
    · rfl
    · rename_i purpose hmethod
      split
      · cases purpose with
        | request decode =>
          simp only [receiveRegular]
          split
          · rfl
          · rename_i hcall
            split
            · rfl
            · rename_i r hr
              have hasks : asks? m = some r := by
                simp only [Bool.not_eq_true', Bool.not_eq_false] at hcall
                simp [asks?, hmethod, hcall, hr, Except.toOption]
              have hanswer := hanswer r hasks
              rcases hsr : s.answer r with ⟨s₁, e | a⟩ <;> rcases htr : t.answer r with ⟨t₁, e' | a'⟩ <;>
                simp_all
        | notification decode =>
          simp only [receiveRegular]
          split
          · rfl
          · split <;> rfl
        | unsupportedRequest params => rfl
        | unsupportedNotification => rfl
      · simp only [outOfPhase, hphase]

/-- All that is due by a time is done by events. -/
theorem reaches_runUntil {start s : Server σ μ} {events : List Event}
    (h : start.Reaches events s) (limit : Nat) :
    ∃ more, start.Reaches (events ++ more) (s.runUntil limit) := by
  fun_induction runUntil s limit generalizing events with
  | case1 s hnone =>
    have hlate := Agenda.firstBy?_eq_none hnone
    exact ⟨[.time limit], h.snoc (.time limit fun x hx => Nat.le_of_lt (hlate x hx))⟩
  | case2 s item rest hsome ih =>
    obtain ⟨-, front, back, hagenda, rfl, hfirst⟩ := Agenda.firstBy?_eq_some hsome
    obtain ⟨more, hmore⟩ := ih (h.snoc (.job front back item hagenda hfirst))
    exact ⟨.job front.length :: more, by simpa using hmore⟩

end LangHost.Server
