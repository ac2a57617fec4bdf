import LangHost.Proofs.Server.Provenance
/-!
# A server as one document sees it

`Share` is what of a server concerns one document: the services, the clock, the session, the
configuration, the stored revision, when its validation is due, and what was published for it and
when. There is no cache in it, no other document, no agenda and no numbers. Still it is all that the
document's future hangs on, as long as validations end at once (`Prompt`): whatever happens to a
server changes the share of a document as the share alone tells (`Step.share`), and what happens to
other documents leaves it as it is, but for the time that passes.
-/

namespace LangHost

variable {σ μ : Type}

/-- Validations end at once, and do not hang on their number. -/
def Registry.Prompt (r : Registry σ μ) : Prop :=
  ∀ kind v, r.forKind? kind = some v → ∀ settings d m number,
    (v.validate settings d m number).duration = 0 ∧
      (v.validate settings d m number).findings = (v.validate settings d m 0).findings

theorem Registry.Prompt.configure {r : Registry σ μ} (h : r.Prompt) (settings : Json) :
    (r.configure settings).Prompt := by
  intro kind v hv
  rw [forKind?_configure] at hv
  obtain ⟨w, hw, rfl⟩ := Option.map_eq_some_iff.1 hv
  exact h kind w hw

/-- The plain-text service is prompt. -/
theorem Plain.prompt_services (embed : Plain.Model → μ) (view : μ → Option Plain.Model)
    (settings : Plain.Settings) : (Plain.services embed view settings).Prompt := by
  intro kind v hv
  obtain rfl : v = Plain.service embed view settings := by
    simpa [Plain.services, Registry.register] using Registry.mem_of_forKind? hv
  exact fun _ _ _ _ => ⟨rfl, rfl⟩

namespace Server

/-! ## Shares -/

/-- Findings that were published, with the time and the version they are of. -/
structure Publication where
  time : Nat
  findings : List Diagnostic
  version : Option Int

/-- What was published for a document, latest first. -/
def publications (s : Server σ μ) (uri : String) : List Publication :=
  s.sent.filterMap fun x =>
    match x.notice with
    | .diagnostics u findings version => if u = uri then some ⟨x.time, findings, version⟩ else none
    | .log _ _ => none

/-- What of a server concerns one document. -/
structure Share (σ μ : Type) where
  services : Registry σ μ
  clock : Nat
  phase : Phase
  config : Config
  document : Option Document
  /-- When a validation is due. -/
  due : List Nat
  published : List Publication

/-- What of a server concerns a document. -/
def share (s : Server σ μ) (uri : String) : Share σ μ where
  services := s.services
  clock := s.clock
  phase := s.phase
  config := s.config
  document := s.document? uri
  due := s.validations.dues uri
  published := s.publications uri

namespace Share

/-- Publishes findings, once the session has been initialized and until its exit. -/
def publish (x : Share σ μ) (findings : List Diagnostic) (version : Option Int) : Share σ μ :=
  if x.phase = .initialized ∨ x.phase = .shutDown then
    { x with published := ⟨x.clock, findings, version⟩ :: x.published }
  else x

/-- Asks for a validation. -/
def schedule (x : Share σ μ) (v : ValidationConfig) : Share σ μ :=
  if v.enabled && x.document.any fun d => (x.services.forKind? d.kind).isSome then
    { x with due := [Agenda.dueAfter x.clock v.delayMs] }
  else x

/-- Publishes what the services find in the document. -/
def validate (x : Share σ μ) : Share σ μ :=
  match x.document with
  | none => x
  | some d =>
    match x.services.verdict d with
    | none => x
    | some findings => x.publish findings (some d.version)

/-- Puts the client's settings in force. -/
def applySettings (x : Share σ μ) (settings : Json) : Share σ μ :=
  match Config.decode settings with
  | .ok config => { x with config, services := x.services.configure settings }
  | .error _ => { x with services := x.services.configure settings }

/-- Takes what the client tells about the document, or about none. -/
def notify (x : Share σ μ) : Notification → Share σ μ
  | .initialized => x
  | .opened d => { x with document := some d }.schedule x.config.validation
  | .changed _ version texts =>
    match texts.getLast?, x.document with
    | some text, some d => { x with document := some (d.update version text) }.schedule x.config.validation
    | _, _ => x
  | .closed _ => { x with document := none, due := [] }.publish [] none
  | .configured settings =>
    let x := x.applySettings settings
    if x.config.validation.enabled then x.schedule x.config.validation else { x with due := [] }

/-- The share after an event about its document, or about none. A job is the one that is due. -/
def after (x : Share σ μ) : Event → Share σ μ
  | .setUp none => { x with phase := .initialized }
  | .setUp (some settings) => { x.applySettings settings with phase := .initialized }
  | .notification n => x.notify n
  | .request _ => x
  | .shutDown => { x with phase := .shutDown, due := [] }
  | .hangUp => { x with phase := .shutDown }
  | .exit => { x with phase := .exited }
  | .validation _ => x.validate
  | .job _ => { x with clock := x.due.foldl max x.clock, due := [] }.validate
  | .time t => { x with clock := max x.clock t }

end Share

/-! ## What operations do to the share of a document -/

section Operations

variable (s : Server σ μ) (uri uri' : String)

theorem OnlyLogs.publications {s s' : Server σ μ} (h : OnlyLogs s s') (uri : String) :
    s'.publications uri = s.publications uri := by
  obtain ⟨new, hsent, hlogs⟩ := h
  unfold Server.publications
  rw [hsent, List.filterMap_append, List.filterMap_eq_nil_iff.2, List.nil_append]
  intro x hx
  obtain ⟨severity, text, hx⟩ := hlogs x hx
  rw [hx]

/-- Neither models nor logs nor numbers are part of a share. -/
theorem OnlyLogs.share_eq {s s' : Server σ μ} (h : OnlyLogs s s')
    (hframe : ∃ models history nextRun sent, s' = { s with models, history, nextRun, sent }) (uri : String) :
    s'.share uri = s.share uri := by
  have hlogs := h.publications uri
  obtain ⟨_, _, _, _, rfl⟩ := hframe
  simp only [share, hlogs]
  rfl

theorem share_log (severity : Severity) (text : String) :
    (s.log severity text).share uri = s.share uri := by
  obtain ⟨sent, hs⟩ := s.log_frame severity text
  exact (s.log_onlyLogs severity text).share_eq ⟨s.models, s.history, s.nextRun, sent, hs⟩ uri

theorem share_publish (findings : List Diagnostic) (version : Option Int) :
    (s.publish uri' findings version).share uri =
      if uri' = uri then (s.share uri).publish findings version else s.share uri := by
  have hadmits : s.phase.admits (.diagnostics uri' findings version) = true ↔
      (s.share uri).phase = .initialized ∨ (s.share uri).phase = .shutDown := by
    simp [Phase.admits, share]
  unfold Server.publish send Share.publish
  by_cases hphase : s.phase.admits (.diagnostics uri' findings version) = true
  · rw [if_pos hphase, if_pos (hadmits.1 hphase)]
    by_cases hu : uri' = uri
    · subst hu
      simp only [if_true, share, publications, List.filterMap_cons]
      rfl
    · simp only [hu, if_false, share, publications, List.filterMap_cons]
      rfl
  · rw [if_neg hphase, if_neg (hadmits.not.1 hphase), ite_self]

theorem share_putDocument (d : Document) : (s.putDocument d).share uri =
    if d.uri = uri then { s.share uri with document := some d } else s.share uri := by
  have hdoc := s.document?_putDocument d uri
  by_cases hu : d.uri = uri
  · simp only [hu, if_true] at hdoc ⊢
    simp only [share, hdoc]
    rfl
  · simp only [hu, if_false] at hdoc ⊢
    simp only [share, hdoc]
    rfl

variable {s}

theorem share_schedule (hc : s.validations.Coherent) (v : ValidationConfig) :
    (s.schedule v uri').share uri =
      if uri' = uri then (s.share uri).schedule v else s.share uri := by
  unfold Server.schedule Share.schedule
  by_cases hu : uri' = uri
  · subst hu
    simp only [if_true]
    have hcond : (s.share uri').document = s.document? uri' := rfl
    have hservices : (s.share uri').services = s.services := rfl
    rw [hcond, hservices]
    split
    · simp only [share, hc.dues_trigger, if_true]
      rfl
    · rfl
  · simp only [hu, if_false]
    split
    · simp only [share, hc.dues_trigger, if_neg (Ne.symm hu)]
      rfl
    · rfl

theorem coherent_schedule (hc : s.validations.Coherent) (v : ValidationConfig) :
    (s.schedule v uri).validations.Coherent := by
  unfold Server.schedule
  split
  · exact hc.trigger _ _ _ _
  · exact hc

/-- To ask for a validation again changes nothing. -/
theorem Share.schedule_schedule (x : Share σ μ) (v : ValidationConfig) :
    (x.schedule v).schedule v = x.schedule v := by
  unfold Share.schedule
  split
  · rfl
  · rfl

theorem share_scheduleAll (hc : s.validations.Coherent) (v : ValidationConfig) (uris : List String) :
    (uris.foldl (fun s uri => s.schedule v uri) s).share uri =
      if uri ∈ uris then (s.share uri).schedule v else s.share uri := by
  induction uris generalizing s with
  | nil => rfl
  | cons uri' uris ih =>
    rw [List.foldl_cons, ih (coherent_schedule uri' hc v), share_schedule uri uri' hc]
    by_cases hu : uri' = uri
    · subst hu
      simp only [if_true, List.mem_cons_self, Share.schedule_schedule, ite_self]
    · simp only [hu, if_false, List.mem_cons, Ne.symm hu, false_or]

theorem share_revalidate (hc : s.validations.Coherent) (v : ValidationConfig) :
    (s.revalidate v).share uri =
      if v.enabled then (s.share uri).schedule v else { s.share uri with due := [] } := by
  unfold Server.revalidate
  split
  · rw [share_scheduleAll uri hc]
    split
    · rfl
    · rename_i hno
      -- what is not open is not asked for
      have hdoc : s.document? uri = none := by
        refine List.find?_eq_none.2 fun d hd huri => hno ?_
        exact List.mem_map.2 ⟨d, hd, by simpa using huri⟩
      simp [Share.schedule, share, hdoc]
  · simp only [share, Debouncer.dues_cancelAll]
    rfl

theorem share_openDocument (hc : s.validations.Coherent) (d : Document) :
    (s.openDocument d).share uri =
      if d.uri = uri then (s.share uri).notify (.opened d) else s.share uri := by
  have hput := s.share_putDocument uri d
  simp only [Server.openDocument, Share.notify]
  split
  · rw [share_schedule uri d.uri (s := s.putDocument d) hc, hput]
    by_cases hu : d.uri = uri
    · simp only [hu, if_true]
      rfl
    · simp only [hu, if_false]
  · rename_i f hf
    rw [share_log, hput]
    by_cases hu : d.uri = uri
    · have hnone : s.services.forKind? d.kind = none := by
        have hf : s.services.require d.kind = .error f := hf
        unfold Registry.require at hf
        split at hf
        · cases hf
        · assumption
      simp only [hu, if_true, Share.schedule]
      simp [share, hnone]
    · simp only [hu, if_false]

theorem share_changeDocument (hc : s.validations.Coherent) (version : Int) {texts : List String}
    {text : String} (ht : texts.getLast? = some text) :
    (s.changeDocument uri' version text).share uri =
      if uri' = uri then (s.share uri).notify (.changed uri' version texts) else s.share uri := by
  unfold Server.changeDocument
  simp only [Share.notify, ht]
  cases hd : s.document? uri' with
  | none =>
    by_cases hu : uri' = uri
    · subst hu
      simp [share, hd]
    · simp [hu]
  | some d =>
    have huri : (d.update version text).uri = uri' := uri_of_document? (d := d) hd
    have hput := s.share_putDocument uri (d.update version text)
    rw [huri] at hput
    simp only
    rw [share_schedule uri uri' (s := s.putDocument (d.update version text)) hc, hput]
    by_cases hu : uri' = uri
    · subst hu
      have hdoc : (s.share uri').document = some d := hd
      simp only [if_true, hdoc]
      rfl
    · simp only [hu, if_false]

theorem share_closeDocument (hc : s.validations.Coherent) :
    (s.closeDocument uri').share uri =
      if uri' = uri then (s.share uri).notify (.closed uri') else s.share uri := by
  unfold Server.closeDocument
  rw [share_publish]
  have hdoc := s.document?_dropDocument uri' uri
  have hdues := hc.dues_cancel uri' uri
  have hclosed : (((s.dropDocument uri').cancelValidation uri').dropModel uri').share uri =
      { s.share uri with
        document := (s.dropDocument uri').document? uri, due := (s.validations.cancel uri').dues uri } :=
    rfl
  rw [hclosed, hdoc, hdues]
  by_cases hu : uri' = uri
  · subst hu
    simp only [if_true, Share.notify]
  · simp only [hu, Ne.symm hu, if_false]
    rfl

variable (s)

theorem share_applySettings (settings : Json) :
    (s.applySettings settings).share uri = (s.share uri).applySettings settings := by
  unfold Share.applySettings
  cases h : Config.decode settings with
  | ok config =>
    obtain ⟨_, hs⟩ := s.applySettings_ok h
    rw [hs]
    rfl
  | error e =>
    obtain ⟨_, hs⟩ := s.applySettings_error h
    calc
      (s.applySettings settings).share uri =
          { (s.log .warning ("Invalid genls configuration: " ++ e.message)).share uri with
            services := s.services.configure settings } := by rw [hs]; rfl
      _ = { s.share uri with services := s.services.configure settings } := by rw [share_log]

theorem share_answer (r : Request) : (s.answer r).1.share uri = s.share uri := by
  obtain ⟨models, history, hs⟩ := s.answer_frame r
  exact (s.answer_onlyLogs r).share_eq ⟨models, history, s.nextRun, s.sent, hs⟩ uri

theorem share_startRun : (s.startRun uri').1.share uri = s.share uri :=
  (s.startRun_onlyLogs uri').share_eq (s.startRun_frame uri') uri

theorem share_finishRun (run : Run) : (s.finishRun run).share uri =
    match run.findings with
    | none => s.share uri
    | some findings =>
      if s.isCurrent run.document = true ∧ run.document.uri = uri then
        (s.share uri).publish findings (some run.document.version)
      else s.share uri := by
  obtain ⟨_, hs⟩ := s.finishRun_eq run
  have hreleased : (s.finishRun run).share uri = (s.released run).share uri := by
    rw [hs]
    rfl
  rw [hreleased]
  unfold released
  cases run.findings with
  | none => rfl
  | some findings =>
    simp only
    by_cases hcurrent : s.isCurrent run.document = true
    · simp only [hcurrent, if_true, true_and]
      exact s.share_publish uri run.document.uri findings (some run.document.version)
    · simp only [hcurrent, Bool.false_eq_true, if_false, false_and]

end Operations

/-! ## Validations -/

/-- A prompt service refuses a document, or ends at once with what the services find in it. -/
theorem startOf_prompt {s : Server σ μ} (hprompt : s.services.Prompt) (number : Nat) (d : Document) :
    (∃ f, startOf number d (s.parsed d) = .refused f ∧ s.services.verdict d = none) ∨
      ∃ run, startOf number d (s.parsed d) = .running 0 run ∧ run.document = d ∧
        run.findings = s.services.verdict d := by
  unfold parsed Registry.require Registry.verdict
  cases hv : s.services.forKind? d.kind with
  | none => exact .inl ⟨_, rfl, rfl⟩
  | some v =>
    simp only
    cases v.parse d with
    | error f =>
      cases f with
      | noLanguageService kind => exact .inl ⟨_, rfl, rfl⟩
      | _ => exact .inr ⟨_, rfl, rfl, rfl⟩
    | ok m =>
      obtain ⟨hduration, hfindings⟩ := hprompt d.kind v hv v.settings d m number
      refine .inr ⟨⟨number, d, some v.id, (v.validate v.settings d m number).findings⟩, ?_, rfl, hfindings⟩
      simp only [Except.map, startOf, hduration]

section Launch

variable {c : Revisions} {s : Server σ μ}

/-- A validation starts that is refused or ends at once. -/
theorem startRun_prompt (hprompt : s.services.Prompt) (hsound : Sound c s) {uri : String} {d : Document}
    (hd : s.document? uri = some d) :
    (∃ f, (s.startRun uri).2 = .refused f ∧ s.services.verdict d = none) ∨
      ∃ run, (s.startRun uri).2 = .running 0 run ∧ run.document = d ∧
        run.findings = s.services.verdict d := by
  rw [(startRun_eq hd).1, hsound.getModel_eq hd]
  exact startOf_prompt hprompt s.nextRun d

theorem share_launch (hprompt : s.services.Prompt) (hsound : Sound c s) (uri uri' : String) :
    (s.launch uri').share uri = if uri' = uri then (s.share uri).validate else s.share uri := by
  have hstart := s.share_startRun uri uri'
  have hdoc : (s.share uri).document = s.document? uri := rfl
  have hservices : (s.share uri).services = s.services := rfl
  unfold launch
  cases hd : s.document? uri' with
  | none =>
    have hclosed : s.startRun uri' = (s, .closed) := by simp [startRun, hd]
    rw [hclosed]
    by_cases hu : uri' = uri
    · subst hu
      simp only [if_true, Share.validate, hdoc, hd, continueRun]
    · simp only [hu, if_false, continueRun]
  | some d =>
    obtain rfl : d.uri = uri' := uri_of_document? hd
    have hvalidate (hu : d.uri = uri) : (s.share uri).validate =
        match s.services.verdict d with
        | none => s.share uri
        | some findings => (s.share uri).publish findings (some d.version) := by
      subst hu
      simp only [Share.validate, hdoc, hd, hservices]
    rcases startRun_prompt hprompt hsound hd with ⟨f, hrefused, hnone⟩ | ⟨run, hrun, rfl, hfindings⟩
    · rw [hrefused, continueRun, hstart]
      by_cases hu : d.uri = uri
      · simp only [hu, if_true, hvalidate hu, hnone]
      · simp only [hu, if_false]
    · -- the revision that was validated is the stored one
      have hcurrent : (s.startRun run.document.uri).1.isCurrent run.document = true := by
        obtain ⟨_, _, _, _, hframe⟩ := s.startRun_frame run.document.uri
        have hstored : (s.startRun run.document.uri).1.document? run.document.uri = some run.document := by
          rw [hframe]
          exact hd
        simp [isCurrent, hstored]
      rw [hrun, continueRun, if_pos rfl, share_finishRun, hfindings, hstart]
      by_cases hu : run.document.uri = uri
      · simp only [hu, if_true, hvalidate hu, and_true]
        rw [← hu]
        simp only [hcurrent, if_true]
      · simp only [hu, if_false, and_false]
        cases s.services.verdict run.document with
        | none => rfl
        | some findings => rfl

end Launch

/-! ## Events -/

/-- The document that an event is about, if it is about one. Jobs are told by the agenda. -/
def Event.about : Event → Option String
  | .notification (.opened d) => some d.uri
  | .notification (.changed uri _ _) => some uri
  | .notification (.closed uri) => some uri
  | .request r => some r.uri
  | .validation uri => some uri
  | _ => none

/-- The document that a job is about. -/
def jobAbout : Debouncer.Job String Unit Run → String
  | .fire uri _ _ => uri
  | .resume run => run.document.uri

/-- What is left of an event when all that concerns other documents is taken out: nothing of what the
client says about them, and of their jobs the time that passes. A job of the document has another
place then. -/
def left (uri : String) (s : Server σ μ) : Event → List Event
  | .job place =>
    match s.validations.agenda[place]? with
    | none => []
    | some item =>
      if jobAbout item.job = uri then
        [.job ((s.validations.agenda.take place).countP fun x => jobAbout x.job = uri)]
      else [.time item.due]
  | e => if e.about = none ∨ e.about = some uri then [e] else []

theorem left_job {s : Server σ μ} (uri : String) {front back : Agenda (Debouncer.Job String Unit Run)}
    {item : Agenda.Item (Debouncer.Job String Unit Run)}
    (h : s.validations.agenda = front ++ item :: back) :
    left uri s (.job front.length) =
      if jobAbout item.job = uri then [.job (front.countP fun x => jobAbout x.job = uri)]
      else [.time item.due] := by
  have hitem : s.validations.agenda[front.length]? = some item := by simp [h]
  simp only [left, hitem]
  rw [h, List.take_left]

/-- Nothing goes on for some time, and ledger and agenda go together. -/
structure Calm (s : Server σ μ) : Prop where
  prompt : s.services.Prompt
  coherent : s.validations.Coherent
  atOnce : ∀ due run, ⟨due, .resume run⟩ ∉ s.validations.agenda

section Events

variable {c : Revisions} {s s' : Server σ μ} (uri : String)

theorem share_notify (hcalm : Calm s) (n : Notification) : (s.notify n).share uri =
    if (Event.notification n).about = none ∨ (Event.notification n).about = some uri then
      (s.share uri).notify n
    else s.share uri := by
  cases n with
  | initialized => exact s.share_log uri .info "genls ready"
  | opened d => simpa [Event.about, Server.notify] using share_openDocument uri hcalm.coherent d
  | changed uri' version texts =>
    simp only [Server.notify, Event.about, reduceCtorEq, Option.some.injEq, false_or]
    cases ht : texts.getLast? with
    | none => simp [Share.notify, ht]
    | some text => exact share_changeDocument uri uri' hcalm.coherent version ht
  | closed uri' => simpa [Event.about, Server.notify] using share_closeDocument uri uri' hcalm.coherent
  | configured settings =>
    have hshare := s.share_applySettings uri settings
    have hvalidations : (s.applySettings settings).validations = s.validations := by
      obtain ⟨_, _, _, _, hs, -⟩ := s.applySettings_frame settings
      rw [hs]
    have hconfig : (s.applySettings settings).config = ((s.share uri).applySettings settings).config := by
      rw [← hshare]
      rfl
    simp only [Server.notify, Event.about, true_or, if_true]
    rw [share_revalidate uri (hvalidations ▸ hcalm.coherent), hshare, hconfig]
    rfl

/-- What a job does to the share of a document. -/
theorem share_job (hcalm : Calm s) (hsound : Sound c s)
    {front back : Agenda (Debouncer.Job String Unit Run)} {item : Agenda.Item (Debouncer.Job String Unit Run)}
    (hagenda : s.validations.agenda = front ++ item :: back)
    (hfirst : ∀ x ∈ s.validations.agenda, item.due ≤ x.due) :
    ((s.take item.due (front ++ back)).perform item.job).share uri =
      if jobAbout item.job = uri then (s.share uri).after (.job 0) else (s.share uri).after (.time item.due) := by
  obtain ⟨due, job⟩ := item
  cases job with
  | resume run => exact (hcalm.atOnce due run (by rw [hagenda]; simp)).elim
  | fire uri' id action =>
    have hheld := hcalm.coherent.held due uri' id action (by rw [hagenda]; simp)
    have hredeem : s.validations.ledger.redeem? uri' id = some (s.validations.ledger.erase uri') :=
      Ledger.redeem?_eq_some.2 ⟨hheld, rfl⟩
    have hstarts := Starts.due hagenda hfirst hredeem
    have hrest := hcalm.coherent.dues_fired hagenda uri
    obtain ⟨s₁, hs₁, hperform⟩ : ∃ s₁ : Server σ μ,
        s₁ = { s.take due (front ++ back) with
          validations := ⟨s.validations.ledger.erase uri', front ++ back⟩ } ∧
        (s.take due (front ++ back)).perform (.fire uri' id action) = s₁.launch uri' :=
      ⟨_, rfl, by simp only [perform_fire, take, hredeem]⟩
    rw [← hs₁] at hstarts
    have hshare : s₁.share uri =
        { s.share uri with clock := max s.clock due, due := (front ++ back).filterMap (Debouncer.dueFor uri) } := by
      rw [hs₁]
      rfl
    simp only [jobAbout]
    rw [hperform, share_launch (by rw [hs₁]; exact hcalm.prompt) (hsound.starts hstarts)]
    rw [hshare, hrest]
    by_cases hu : uri' = uri
    · subst hu
      have hdue : (s.share uri').due = [due] := hcalm.coherent.dues_eq_singleton hagenda
      simp only [if_true, Share.after, hdue]
      rfl
    · simp only [hu, Ne.symm hu, if_false, Share.after]
      rfl

theorem Step.share (hcalm : Calm s) (hsound : Sound c s) {e : Event} (hstep : Step s e s') :
    s'.share uri = (left uri s e).foldl Share.after (s.share uri) := by
  cases hstep with
  | setUp options _ =>
    cases options with
    | none => rfl
    | some settings =>
      have hshare := s.share_applySettings uri settings
      simp only [left, Event.about, true_or, if_true, List.foldl_cons, List.foldl_nil, Share.after,
        ← hshare]
      rfl
  | notification n _ =>
    rw [share_notify uri hcalm n]
    simp only [left]
    split
    · rfl
    · rfl
  | request r _ =>
    rw [share_answer]
    simp only [left]
    split
    · rfl
    · rfl
  | shutDown _ =>
    simp only [left, Event.about, true_or, if_true, List.foldl_cons, List.foldl_nil, Share.after]
    simp only [Server.share, Server.shutdown, Debouncer.dues_cancelAll]
    rfl
  | hangUp _ => rfl
  | exit => rfl
  | validation uri' =>
    rw [share_launch hcalm.prompt hsound]
    simp only [left, Event.about, reduceCtorEq, Option.some.injEq, false_or]
    split
    · rfl
    · rfl
  | job front back item hagenda hfirst =>
    rw [share_job uri hcalm hsound hagenda hfirst, left_job uri hagenda]
    split
    · rfl
    · rfl
  | time t _ => rfl

end Events

/-! ## Runs stay calm -/

section Coherence

variable {s s' : Server σ μ}

theorem coherent_revalidate (hc : s.validations.Coherent) (v : ValidationConfig) :
    (s.revalidate v).validations.Coherent := by
  unfold Server.revalidate
  split
  · generalize s.documents.map (·.uri) = uris
    induction uris generalizing s with
    | nil => exact hc
    | cons uri uris ih => exact ih (coherent_schedule uri hc v)
  · exact hc.cancelAll

theorem coherent_notify (hc : s.validations.Coherent) (n : Notification) :
    (s.notify n).validations.Coherent := by
  cases n with
  | initialized => simpa [notify, log] using hc
  | opened d =>
    simp only [notify, openDocument]
    split
    · exact coherent_schedule d.uri (s := s.putDocument d) hc _
    · rw [log, validations_send]
      exact hc
  | changed uri version texts =>
    simp only [notify, changeDocument]
    split
    · exact hc
    · split
      · exact hc
      · rename_i text _ _ d _
        exact coherent_schedule uri (s := s.putDocument (d.update version text)) hc _
  | closed uri =>
    simp only [notify, closeDocument, publish, validations_send]
    exact hc.cancel uri
  | configured settings =>
    obtain ⟨_, _, _, _, hs, -⟩ := s.applySettings_frame settings
    have hsame : (s.applySettings settings).validations = s.validations := by rw [hs]
    exact coherent_revalidate (hsame ▸ hc) _

theorem coherent_launch (hc : s.validations.Coherent) (uri : String) :
    (s.launch uri).validations.Coherent := by
  have hstart : (s.startRun uri).1.validations.Coherent := by simpa using hc
  unfold launch
  cases (s.startRun uri).2 with
  | closed => exact hstart
  | refused f => exact hstart
  | running duration run =>
    simp only [continueRun]
    split
    · simpa using hc
    · exact hstart.suspend _ _ _

theorem Step.coherent (hc : s.validations.Coherent) {e : Event} (hstep : Step s e s') :
    s'.validations.Coherent := by
  cases hstep with
  | setUp options _ =>
    cases options with
    | none => exact hc
    | some settings =>
      obtain ⟨_, _, _, _, hs, -⟩ := s.applySettings_frame settings
      simpa only [Server.setUp, hs] using hc
  | notification n _ => exact coherent_notify hc n
  | request r _ =>
    obtain ⟨_, _, hs⟩ := s.answer_frame r
    rw [hs]
    exact hc
  | shutDown _ => exact hc.cancelAll
  | hangUp _ => exact hc
  | exit => exact hc
  | validation uri => exact coherent_launch hc uri
  | job front back item hagenda hfirst =>
    obtain ⟨due, job⟩ := item
    cases job with
    | resume run =>
      simp only [perform, validations_finishRun]
      exact hc.resumed hagenda
    | fire uri id action =>
      have hheld := hc.held due uri id action (by rw [hagenda]; simp)
      have hredeem : s.validations.ledger.redeem? uri id = some (s.validations.ledger.erase uri) :=
        Ledger.redeem?_eq_some.2 ⟨hheld, rfl⟩
      simp only [perform_fire, take, hredeem]
      exact coherent_launch (s := { s.take due (front ++ back) with validations := ⟨_, _⟩ })
        (hc.fired hagenda) uri
  | time t _ => exact hc

end Coherence

theorem Calm.step {c : Revisions} {s s' : Server σ μ} (h : Calm s) (hsound : Sound c s) {e : Event}
    (hstep : Step s e s') : Calm s' where
  prompt := by
    rcases hstep.services with hs | ⟨settings, hs⟩
    · exact hs ▸ h.prompt
    · exact hs ▸ h.prompt.configure settings
  coherent := hstep.coherent h.coherent
  atOnce due run hmem := by
    rcases hstep.mem_of_mem_agenda hmem with hmem | ⟨s₁, uri, duration, hstarts, hne, hrun⟩
    · exact h.atOnce due run hmem
    · -- a validation that has just started would have ended at once
      obtain ⟨_, _, _, hframe, -⟩ := hstarts.frame
      have hprompt : s₁.services.Prompt := by
        rw [hframe]
        exact h.prompt
      rcases startRun_prompt hprompt (hsound.starts hstarts) (document_of_startRun hrun) with
        ⟨f, hrefused, -⟩ | ⟨run', hended, -⟩
      · rw [hrefused] at hrun
        cases hrun
      · rw [hended] at hrun
        cases hrun
        exact hne rfl

theorem calm_of_reaches {services : Registry σ μ} (hprompt : services.Prompt) {events : List Event}
    {s : Server σ μ} (h : (boot services).Reaches events s) (hd : Distinct events) : Calm s := by
  induction h with
  | nil =>
    refine ⟨hprompt, ⟨Ledger.Numbered.clear ({} : Ledger String), ?_, .nil⟩, ?_⟩
    · intro due k i a hmem
      cases hmem
    · intro due run hmem
      cases hmem
  | snoc hreach hstep ih =>
    obtain ⟨hd, -⟩ := orderly_snoc.1 hd
    exact (ih hd).step (sound_of_reaches hreach hd) hstep

end Server

end LangHost
