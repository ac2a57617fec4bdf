import LangHost.Proofs.Cache.Entries
import LangHost.Proofs.Debounce.Basic
import LangHost.Proofs.Server.Run
/-!
# What the operations of a server change

One equation for each operation says which fields of the server it can change; all others stay as
they are. `getModel` and `startRun` also get an account of what they answer: the outcome of a
validation's start is fixed by the document, its number and what came of parsing the document.
-/

namespace LangHost.Server

variable {σ μ : Type}

/-! ## Notices and documents -/

theorem send_frame (s : Server σ μ) (n : Notice) : ∃ sent, s.send n = { s with sent } := by
  unfold send
  split
  · exact ⟨_, rfl⟩
  · exact ⟨s.sent, rfl⟩

theorem log_frame (s : Server σ μ) (severity : Severity) (text : String) :
    ∃ sent, s.log severity text = { s with sent } :=
  s.send_frame _

theorem publish_frame (s : Server σ μ) (uri : String) (findings : List Diagnostic)
    (version : Option Int) : ∃ sent, s.publish uri findings version = { s with sent } :=
  s.send_frame _

theorem document?_putDocument (s : Server σ μ) (d : Document) (uri : String) :
    (s.putDocument d).document? uri = if d.uri = uri then some d else s.document? uri := by
  simp only [document?, putDocument, List.find?_cons]
  by_cases h : d.uri = uri
  · simp [h]
  · simp only [h, decide_false, if_false, List.find?_filter]
    congr 1
    funext x
    by_cases hx : x.uri = uri
    · simp [hx, Ne.symm h]
    · simp [hx]

theorem document?_dropDocument (s : Server σ μ) (uri uri' : String) :
    (s.dropDocument uri).document? uri' = if uri = uri' then none else s.document? uri' := by
  simp only [document?, dropDocument, List.find?_filter]
  by_cases h : uri = uri'
  · subst h
    simp only [if_true, List.find?_eq_none]
    intro x _
    by_cases hx : x.uri = uri <;> simp [hx]
  · simp only [h, if_false]
    congr 1
    funext x
    by_cases hx : x.uri = uri'
    · simp [hx, Ne.symm h]
    · simp [hx]

theorem uri_of_document? {s : Server σ μ} {uri : String} {d : Document}
    (h : s.document? uri = some d) : d.uri = uri := by
  simpa using List.find?_some h

/-! ## Models -/

/-- What comes of asking for the model of a document: the server after that, and the answer. -/
inductive Lookup (s : Server σ μ) (d : Document) :
    Server σ μ → Except Fault (Service σ μ × Cache.Stamped μ) → Prop where
  | unknown {f : Fault} (h : s.services.require d.kind = .error f) : Lookup s d s (.error f)
  | hit {v : Service σ μ} {e : Cache.Entry String μ} (h : s.services.require d.kind = .ok v)
      (he : s.models.hit? d.uri d.version d.kind = some e) :
      Lookup s d { s with models := s.models.touch e s.clock } (.ok (v, e.stored))
  | failed {v : Service σ μ} {f : Fault} (h : s.services.require d.kind = .ok v)
      (he : s.models.hit? d.uri d.version d.kind = none) (hp : v.parse d = .error f) :
      Lookup s d { s with models := s.models.miss, history := .parsed v.id :: s.history } (.error f)
  | parsed {v : Service σ μ} {m : μ} (h : s.services.require d.kind = .ok v)
      (he : s.models.hit? d.uri d.version d.kind = none) (hp : v.parse d = .ok m) :
      Lookup s d
        { s with
          models := s.models.miss.keep s.clock d.uri d.version d.kind ⟨s.models.stats.misses, m⟩
          history := .parsed v.id :: s.history }
        (.ok (v, ⟨s.models.stats.misses, m⟩))

theorem getModel_lookup (s : Server σ μ) (d : Document) :
    Lookup s d (s.getModel d).1 (s.getModel d).2 := by
  unfold getModel
  split
  · rename_i h
    exact .unknown h
  · rename_i v h
    unfold Cache.get
    cases he : s.models.hit? d.uri d.version d.kind with
    | some e => exact .hit h he
    | none =>
      cases hp : v.parse d with
      | error f => exact .failed h he hp
      | ok m => exact .parsed h he hp

theorem Lookup.frame {s s' : Server σ μ} {d : Document}
    {r : Except Fault (Service σ μ × Cache.Stamped μ)} (h : Lookup s d s' r) :
    ∃ models history, s' = { s with models, history } := by
  cases h with
  | unknown _ => exact ⟨s.models, s.history, rfl⟩
  | hit _ _ => exact ⟨_, s.history, rfl⟩
  | failed _ _ _ => exact ⟨_, _, rfl⟩
  | parsed _ _ _ => exact ⟨_, _, rfl⟩

theorem getModel_frame (s : Server σ μ) (d : Document) :
    ∃ models history, (s.getModel d).1 = { s with models, history } :=
  (s.getModel_lookup d).frame

/-- The answer of a lookup without the number of the computation that made the model. -/
def modelOf : Except Fault (Service σ μ × Cache.Stamped μ) → Except Fault (Service σ μ × μ)
  | .ok (v, m) => .ok (v, m.value)
  | .error f => .error f

/-- The answer to a question about a document, from what came of parsing. -/
def answerOf (q : Query) (d : Document) :
    Except Fault (Service σ μ × μ) → Except RpcError (Option Answer)
  | .error f => .error f.toRpcError
  | .ok (v, m) => .ok (q.ask v d m)

theorem answer_eq {s : Server σ μ} {r : Request} {d : Document} (hd : s.document? r.uri = some d) :
    s.answer r = ((s.getModel d).1, answerOf r.query d (modelOf (s.getModel d).2)) := by
  unfold answer
  rw [hd]
  simp only
  split <;> rename_i heq <;> rw [heq] <;> rfl

theorem answer_frame (s : Server σ μ) (r : Request) :
    ∃ models history, (s.answer r).1 = { s with models, history } := by
  cases hd : s.document? r.uri with
  | none => exact ⟨s.models, s.history, by simp [answer, hd]⟩
  | some d => rw [answer_eq hd]; exact s.getModel_frame d

/-! ## Validations -/

/-- How a validation of a document starts, from its number and what came of parsing. -/
def startOf (number : Nat) (d : Document) : Except Fault (Service σ μ × μ) → Start
  | .error (.noLanguageService kind) => .refused (.noLanguageService kind)
  | .error f => .running 0 ⟨number, d, none, some [parseFailure f]⟩
  | .ok (v, m) =>
    .running (v.validate v.settings d m number).duration
      ⟨number, d, some v.id, (v.validate v.settings d m number).findings⟩

theorem document_of_startOf {number duration : Nat} {d : Document} {r : Except Fault (Service σ μ × μ)}
    {run : Run} (h : startOf number d r = .running duration run) : run.document = d := by
  unfold startOf at h
  split at h <;> cases h <;> rfl

/-- The server once it is known how a validation starts. -/
def begun (s : Server σ μ) : Start → Server σ μ
  | .closed => s
  | .refused f => s.log .error f.message
  | .running _ _ => { s with nextRun := s.nextRun + 1 }

/-- A validation starts with the model of the stored document. -/
theorem startRun_eq {s : Server σ μ} {uri : String} {d : Document} (hd : s.document? uri = some d) :
    (s.startRun uri).2 = startOf s.nextRun d (modelOf (s.getModel d).2) ∧
      (s.startRun uri).1 =
        (s.getModel d).1.begun (startOf s.nextRun d (modelOf (s.getModel d).2)) := by
  obtain ⟨models, history, hframe⟩ := s.getModel_frame d
  have hnext : (s.getModel d).1.nextRun = s.nextRun := by rw [hframe]
  unfold startRun
  rw [hd]
  simp only
  split <;> rename_i heq <;> rw [heq] at hnext ⊢ <;> simp only at hnext
  · exact ⟨rfl, rfl⟩
  · rename_i f hf
    cases f with
    | noLanguageService kind => exact absurd rfl (hf kind)
    | _ => exact ⟨by rw [hnext]; rfl, rfl⟩
  · exact ⟨by rw [hnext]; rfl, rfl⟩

theorem document_of_startRun {s : Server σ μ} {uri : String} {duration : Nat} {run : Run}
    (h : (s.startRun uri).2 = .running duration run) : s.document? uri = some run.document := by
  cases hd : s.document? uri with
  | none => simp [startRun, hd] at h
  | some d =>
    rw [(startRun_eq hd).1] at h
    rw [document_of_startOf h]

theorem begun_frame (s : Server σ μ) (start : Start) :
    ∃ nextRun sent, s.begun start = { s with nextRun, sent } := by
  cases start with
  | closed => exact ⟨s.nextRun, s.sent, rfl⟩
  | refused f =>
    obtain ⟨sent, h⟩ := s.log_frame .error f.message
    exact ⟨s.nextRun, sent, h⟩
  | running _ _ => exact ⟨_, s.sent, rfl⟩

theorem startRun_frame (s : Server σ μ) (uri : String) :
    ∃ models history nextRun sent, (s.startRun uri).1 = { s with models, history, nextRun, sent } := by
  cases hd : s.document? uri with
  | none => exact ⟨s.models, s.history, s.nextRun, s.sent, by simp [startRun, hd]⟩
  | some d =>
    obtain ⟨models, history, hm⟩ := s.getModel_frame d
    obtain ⟨nextRun, sent, hb⟩ :=
      (s.getModel d).1.begun_frame (startOf s.nextRun d (modelOf (s.getModel d).2))
    refine ⟨models, history, nextRun, sent, ?_⟩
    rw [(startRun_eq hd).2, hb, hm]

/-- The server once the findings of a validation have been published, if there are any and they are
not outdated. -/
def released (s : Server σ μ) (run : Run) : Server σ μ :=
  match run.findings with
  | none => s
  | some findings =>
    if s.isCurrent run.document then
      s.publish run.document.uri findings (some run.document.version)
    else s

theorem note_publish (s : Server σ μ) (a : Activity) (uri : String) (findings : List Diagnostic)
    (version : Option Int) :
    (s.note a).publish uri findings version = (s.publish uri findings version).note a := by
  unfold publish send note
  by_cases h : s.phase.admits (.diagnostics uri findings version) <;> simp [h]

/-- The end of a validation is noted, and its findings are released. -/
theorem finishRun_eq (s : Server σ μ) (run : Run) :
    ∃ history, s.finishRun run = { s.released run with history } := by
  unfold finishRun released
  cases run.service with
  | none =>
    cases run.findings with
    | none => exact ⟨_, rfl⟩
    | some findings =>
      simp only
      split <;> exact ⟨_, rfl⟩
  | some id =>
    cases run.findings with
    | none => exact ⟨_, rfl⟩
    | some findings =>
      have hcurrent : (s.note (.validated id)).isCurrent run.document = s.isCurrent run.document := rfl
      simp only [hcurrent]
      split
      · rw [note_publish]; exact ⟨_, rfl⟩
      · exact ⟨_, rfl⟩

theorem released_frame (s : Server σ μ) (run : Run) : ∃ sent, s.released run = { s with sent } := by
  unfold released
  split
  · exact ⟨s.sent, rfl⟩
  · split
    · exact s.publish_frame _ _ _
    · exact ⟨s.sent, rfl⟩

theorem finishRun_frame (s : Server σ μ) (run : Run) :
    ∃ sent history, s.finishRun run = { s with sent, history } := by
  obtain ⟨history, hf⟩ := s.finishRun_eq run
  obtain ⟨sent, hr⟩ := s.released_frame run
  exact ⟨sent, history, by rw [hf, hr]⟩

theorem continueRun_frame (s : Server σ μ) (start : Start) :
    ∃ sent history agenda, s.continueRun start =
      { s with sent, history, validations := { s.validations with agenda } } := by
  cases start with
  | closed => exact ⟨s.sent, s.history, s.validations.agenda, rfl⟩
  | refused _ => exact ⟨s.sent, s.history, s.validations.agenda, rfl⟩
  | running duration run =>
    simp only [continueRun]
    split
    · obtain ⟨sent, history, h⟩ := s.finishRun_frame run
      exact ⟨sent, history, s.validations.agenda, h⟩
    · exact ⟨s.sent, s.history, _, rfl⟩

theorem launch_frame (s : Server σ μ) (uri : String) :
    ∃ history nextRun sent agenda, s.launch uri =
      { s with
        models := (s.startRun uri).1.models, history, nextRun, sent
        validations := { s.validations with agenda } } := by
  obtain ⟨models, history, nextRun, sent, hs⟩ := s.startRun_frame uri
  obtain ⟨sent', history', agenda, hc⟩ :=
    (s.startRun uri).1.continueRun_frame (s.startRun uri).2
  refine ⟨history', nextRun, sent', agenda, ?_⟩
  rw [launch, hc, hs]

/-- A job that has come due starts its validation if its document still waits for it. -/
theorem perform_fire (s : Server σ μ) (uri : String) (id : Nat) (action : Unit) :
    s.perform (.fire uri id action) =
      match s.validations.ledger.redeem? uri id with
      | none => s
      | some ledger => launch { s with validations := { s.validations with ledger } } uri := rfl

theorem perform_frame (s : Server σ μ) (job : Debouncer.Job String Unit Run) :
    ∃ models validations nextRun sent history,
      s.perform job = { s with models, validations, nextRun, sent, history } := by
  cases job with
  | resume run =>
    obtain ⟨sent, history, h⟩ := s.finishRun_frame run
    exact ⟨s.models, s.validations, s.nextRun, sent, history, h⟩
  | fire uri id action =>
    rw [perform_fire]
    split
    · exact ⟨s.models, s.validations, s.nextRun, s.sent, s.history, rfl⟩
    · rename_i ledger _
      obtain ⟨history, nextRun, sent, agenda, h⟩ :=
        launch_frame { s with validations := { s.validations with ledger } } uri
      exact ⟨_, ⟨ledger, agenda⟩, nextRun, sent, history, h⟩

/-! ## Asking for validations -/

theorem schedule_frame (s : Server σ μ) (v : ValidationConfig) (uri : String) :
    ∃ validations, s.schedule v uri = { s with validations } := by
  unfold schedule
  split
  · exact ⟨_, rfl⟩
  · exact ⟨s.validations, rfl⟩

theorem scheduleAll_frame (s : Server σ μ) (v : ValidationConfig) (uris : List String) :
    ∃ validations, uris.foldl (fun s uri => s.schedule v uri) s = { s with validations } := by
  induction uris generalizing s with
  | nil => exact ⟨s.validations, rfl⟩
  | cons uri uris ih =>
    obtain ⟨validations, h⟩ := s.schedule_frame v uri
    obtain ⟨validations', h'⟩ := ih { s with validations }
    exact ⟨validations', by rw [List.foldl_cons, h, h']⟩

theorem revalidate_frame (s : Server σ μ) (v : ValidationConfig) :
    ∃ validations, s.revalidate v = { s with validations } := by
  unfold revalidate
  split
  · exact s.scheduleAll_frame v _
  · exact ⟨_, rfl⟩

/-! ## Documents over time -/

theorem openDocument_frame (s : Server σ μ) (d : Document) :
    ∃ validations sent, s.openDocument d = { s.putDocument d with validations, sent } := by
  simp only [openDocument]
  split
  · obtain ⟨validations, h⟩ := (s.putDocument d).schedule_frame (s.putDocument d).config.validation d.uri
    exact ⟨validations, s.sent, h⟩
  · rename_i f _
    obtain ⟨sent, h⟩ := (s.putDocument d).log_frame .warning f.message
    exact ⟨s.validations, sent, h⟩

theorem changeDocument_frame {s : Server σ μ} {uri : String} {d : Document}
    (hd : s.document? uri = some d) (version : Int) (text : String) :
    ∃ validations, s.changeDocument uri version text =
      { s.putDocument (d.update version text) with validations } := by
  unfold changeDocument
  rw [hd]
  exact schedule_frame _ _ _

theorem closeDocument_frame (s : Server σ μ) (uri : String) :
    ∃ validations sent, s.closeDocument uri =
      { (s.dropDocument uri).dropModel uri with validations, sent } := by
  obtain ⟨sent, h⟩ :=
    (((s.dropDocument uri).cancelValidation uri).dropModel uri).publish_frame uri [] none
  exact ⟨_, sent, h⟩

theorem document?_openDocument (s : Server σ μ) (d : Document) (uri : String) :
    (s.openDocument d).document? uri = if d.uri = uri then some d else s.document? uri := by
  obtain ⟨_, _, h⟩ := s.openDocument_frame d
  rw [← document?_putDocument, h]
  rfl

theorem document?_changeDocument {s : Server σ μ} {uri : String} {d : Document}
    (hd : s.document? uri = some d) (version : Int) (text uri' : String) :
    (s.changeDocument uri version text).document? uri' =
      if uri = uri' then some (d.update version text) else s.document? uri' := by
  obtain ⟨_, h⟩ := changeDocument_frame hd version text
  have huri : (d.update version text).uri = uri := uri_of_document? (d := d) hd
  have hput := s.document?_putDocument (d.update version text) uri'
  rw [huri] at hput
  rw [← hput, h]
  rfl

theorem document?_closeDocument (s : Server σ μ) (uri uri' : String) :
    (s.closeDocument uri).document? uri' = if uri = uri' then none else s.document? uri' := by
  obtain ⟨_, _, h⟩ := s.closeDocument_frame uri
  rw [← document?_dropDocument, h]
  rfl

/-! ## Settings -/

theorem applySettings_ok (s : Server σ μ) {settings : Json} {config : Config}
    (h : Config.decode settings = .ok config) : ∃ history, s.applySettings settings =
      { s with
        services := s.services.configure settings, config, history
        models := s.models.configure config.cache.limits s.clock } := by
  unfold applySettings
  rw [h]
  exact ⟨_, rfl⟩

theorem applySettings_error (s : Server σ μ) {settings : Json} {e : DecodeError}
    (h : Config.decode settings = .error e) : ∃ history, s.applySettings settings =
      { s.log .warning ("Invalid genls configuration: " ++ e.message) with
        services := s.services.configure settings, history } := by
  obtain ⟨sent, hl⟩ := s.log_frame .warning ("Invalid genls configuration: " ++ e.message)
  unfold applySettings
  rw [h]
  simp only [hl]
  exact ⟨_, rfl⟩

theorem applySettings_frame (s : Server σ μ) (settings : Json) :
    ∃ config models sent history, s.applySettings settings =
        { s with services := s.services.configure settings, config, models, sent, history } ∧
      ∀ e ∈ models.entries, e ∈ s.models.entries := by
  cases h : Config.decode settings with
  | ok config =>
    obtain ⟨history, hs⟩ := s.applySettings_ok h
    exact ⟨config, _, s.sent, history, hs, fun e he => Cache.mem_of_mem_configure he⟩
  | error e =>
    obtain ⟨history, hs⟩ := s.applySettings_error h
    obtain ⟨sent, hl⟩ := s.log_frame .warning ("Invalid genls configuration: " ++ e.message)
    exact ⟨s.config, s.models, sent, history, by rw [hs, hl], fun e he => he⟩

/-! ## Events -/

/-- What the client tells changes neither the phase of the session nor the clock, and the services
only by handing them settings. -/
theorem notify_frame (s : Server σ μ) (n : Notification) :
    ∃ services config documents models validations sent history, s.notify n =
        { s with services, config, documents, models, validations, sent, history } ∧
      (services = s.services ∨ ∃ settings, services = s.services.configure settings) := by
  cases n with
  | initialized =>
    obtain ⟨sent, h⟩ := s.log_frame .info "genls ready"
    exact ⟨_, _, _, _, _, sent, _, h, .inl rfl⟩
  | opened d =>
    obtain ⟨validations, sent, h⟩ := s.openDocument_frame d
    exact ⟨_, _, _, _, validations, sent, _, h, .inl rfl⟩
  | changed uri version texts =>
    simp only [notify]
    split
    · exact ⟨_, _, _, _, _, _, _, rfl, .inl rfl⟩
    · rename_i text _
      cases hd : s.document? uri with
      | none =>
        simp only [changeDocument, hd]
        exact ⟨_, _, _, _, _, _, _, rfl, .inl rfl⟩
      | some d =>
        obtain ⟨validations, h⟩ := changeDocument_frame hd version text
        exact ⟨_, _, _, _, validations, _, _, h, .inl rfl⟩
  | closed uri =>
    obtain ⟨validations, sent, h⟩ := s.closeDocument_frame uri
    exact ⟨_, _, _, _, validations, sent, _, h, .inl rfl⟩
  | configured settings =>
    obtain ⟨config, models, sent, history, happly, -⟩ := s.applySettings_frame settings
    obtain ⟨validations, h⟩ :=
      (s.applySettings settings).revalidate_frame (s.applySettings settings).config.validation
    simp only [notify, h]
    exact ⟨_, _, _, _, validations, _, _, by rw [happly], .inr ⟨settings, rfl⟩⟩

/-- No event changes the services but by handing them settings. -/
theorem Step.services {s s' : Server σ μ} {e : Event} (h : Step s e s') :
    s'.services = s.services ∨ ∃ settings, s'.services = s.services.configure settings := by
  cases h with
  | setUp options _ =>
    cases options with
    | none => exact .inl rfl
    | some settings =>
      obtain ⟨_, _, _, _, hs, -⟩ := s.applySettings_frame settings
      exact .inr ⟨settings, by simp only [Server.setUp, hs]⟩
  | notification n _ =>
    obtain ⟨_, _, _, _, _, _, _, hs, hservices⟩ := s.notify_frame n
    rw [hs]
    exact hservices
  | request r _ =>
    obtain ⟨_, _, hs⟩ := s.answer_frame r
    exact .inl (by rw [hs])
  | shutDown _ => exact .inl rfl
  | hangUp _ => exact .inl rfl
  | exit => exact .inl rfl
  | validation uri =>
    obtain ⟨_, _, _, _, hs⟩ := s.launch_frame uri
    exact .inl (by rw [hs])
  | job front back item _ _ =>
    obtain ⟨_, _, _, _, _, hs⟩ := (s.take item.due (front ++ back)).perform_frame item.job
    exact .inl (by rw [hs]; rfl)
  | time t _ => exact .inl rfl

/-- Nothing is opened before the session starts. -/
theorem Step.early {s s' : Server σ μ} {e : Event} (h : Step s e s')
    (hphase : s'.phase = .uninitialized) : s.phase = .uninitialized ∧ s'.documents = s.documents := by
  cases h with
  | setUp _ _ => cases hphase
  | notification n hinit =>
    obtain ⟨_, _, _, _, _, _, _, hs, -⟩ := s.notify_frame n
    rw [hs] at hphase
    simp only [hinit] at hphase
    cases hphase
  | request r _ =>
    obtain ⟨_, _, hs⟩ := s.answer_frame r
    rw [hs] at hphase ⊢
    exact ⟨hphase, rfl⟩
  | shutDown _ => cases hphase
  | hangUp _ => cases hphase
  | exit => cases hphase
  | validation uri =>
    obtain ⟨_, _, _, _, hs⟩ := s.launch_frame uri
    rw [hs] at hphase ⊢
    exact ⟨hphase, rfl⟩
  | job front back item _ _ =>
    obtain ⟨_, _, _, _, _, hs⟩ := (s.take item.due (front ++ back)).perform_frame item.job
    rw [hs] at hphase ⊢
    exact ⟨hphase, rfl⟩
  | time t _ => exact ⟨hphase, rfl⟩

/-! ## Validations that go on -/

section Resume

variable {due : Nat} {run : Run}

theorem mem_of_mem_schedule {s : Server σ μ} {v : ValidationConfig} {uri : String}
    (h : ⟨due, .resume run⟩ ∈ (s.schedule v uri).validations.agenda) :
    ⟨due, .resume run⟩ ∈ s.validations.agenda := by
  unfold schedule at h
  split at h
  · rcases Debouncer.mem_trigger.1 h with h | h
    · exact (Debouncer.mem_abort.1 h).1
    · cases h
  · exact h

theorem mem_of_mem_scheduleAll {s : Server σ μ} {v : ValidationConfig} {uris : List String}
    (h : ⟨due, .resume run⟩ ∈ (uris.foldl (fun s uri => s.schedule v uri) s).validations.agenda) :
    ⟨due, .resume run⟩ ∈ s.validations.agenda := by
  induction uris generalizing s with
  | nil => exact h
  | cons uri uris ih => exact mem_of_mem_schedule (ih h)

theorem mem_of_mem_notify {s : Server σ μ} {n : Notification}
    (h : ⟨due, .resume run⟩ ∈ (s.notify n).validations.agenda) :
    ⟨due, .resume run⟩ ∈ s.validations.agenda := by
  cases n with
  | initialized => simpa [notify, log] using h
  | opened d =>
    simp only [notify, openDocument] at h
    split at h
    · exact mem_of_mem_schedule (s := s.putDocument d) h
    · simpa [log, putDocument] using h
  | changed uri version texts =>
    simp only [notify, changeDocument] at h
    split at h
    · exact h
    · split at h
      · exact h
      · rename_i text _ _ d _
        exact mem_of_mem_schedule (s := s.putDocument (d.update version text)) h
  | closed uri =>
    simp only [notify, closeDocument, publish, validations_send] at h
    exact (Debouncer.mem_abort.1 (Debouncer.mem_cancel.1 h)).1
  | configured settings =>
    obtain ⟨_, _, _, _, hs, -⟩ := s.applySettings_frame settings
    have hsame : (s.applySettings settings).validations = s.validations := by rw [hs]
    rw [← hsame]
    simp only [notify, revalidate] at h
    split at h
    · exact mem_of_mem_scheduleAll h
    · exact (Debouncer.mem_cancelAll.1 h).1

theorem mem_of_mem_launch {s : Server σ μ} {uri : String}
    (h : ⟨due, .resume run⟩ ∈ (s.launch uri).validations.agenda) :
    ⟨due, .resume run⟩ ∈ s.validations.agenda ∨
      ∃ duration, duration ≠ 0 ∧ (s.startRun uri).2 = .running duration run := by
  rw [launch] at h
  cases hstart : (s.startRun uri).2 with
  | closed => exact .inl (by simpa [hstart, continueRun] using h)
  | refused f => exact .inl (by simpa [hstart, continueRun] using h)
  | running duration run' =>
    simp only [hstart, continueRun] at h
    split at h
    · exact .inl (by simpa using h)
    · rename_i hduration
      rcases Debouncer.mem_suspend.1 h with h | h
      · exact .inl (by simpa using h)
      · cases h
        exact .inr ⟨duration, hduration, rfl⟩

/-- What goes on after an event went on before, or it has just started. -/
theorem Step.mem_of_mem_agenda {s s' : Server σ μ} {e : Event} (h : Step s e s')
    (hmem : ⟨due, .resume run⟩ ∈ s'.validations.agenda) :
    ⟨due, .resume run⟩ ∈ s.validations.agenda ∨
      ∃ s₁ uri duration, Starts s e s₁ uri ∧ duration ≠ 0 ∧
        (s₁.startRun uri).2 = .running duration run := by
  cases h with
  | setUp options _ =>
    left
    cases options with
    | none => exact hmem
    | some settings =>
      obtain ⟨_, _, _, _, hs, -⟩ := s.applySettings_frame settings
      simpa only [Server.setUp, hs] using hmem
  | notification n _ => exact .inl (mem_of_mem_notify hmem)
  | request r _ =>
    left
    cases hd : s.document? r.uri with
    | none => simpa [answer, hd] using hmem
    | some d => simpa [answer_eq hd] using hmem
  | shutDown _ => exact .inl (Debouncer.mem_cancelAll.1 hmem).1
  | hangUp _ => exact .inl hmem
  | exit => exact .inl hmem
  | validation uri =>
    rcases mem_of_mem_launch hmem with hmem | ⟨duration, hduration, hstart⟩
    · exact .inl hmem
    · exact .inr ⟨s, uri, duration, .direct s uri, hduration, hstart⟩
  | job front back item hagenda hfirst =>
    obtain ⟨due', job⟩ := item
    cases job with
    | resume run' =>
      simp only [perform, validations_finishRun] at hmem
      exact .inl (Agenda.mem_of_mem_rest hagenda hmem)
    | fire uri id action =>
      simp only [perform_fire] at hmem
      cases hr : s.validations.ledger.redeem? uri id with
      | none =>
        simp only [take, hr] at hmem
        exact .inl (Agenda.mem_of_mem_rest hagenda hmem)
      | some ledger =>
        simp only [take, hr] at hmem
        rcases mem_of_mem_launch hmem with hmem | ⟨duration, hduration, hstart⟩
        · exact .inl (Agenda.mem_of_mem_rest hagenda hmem)
        · exact .inr ⟨_, uri, duration, .due hagenda hfirst hr, hduration, hstart⟩
  | time t _ => exact .inl hmem

end Resume

end LangHost.Server
