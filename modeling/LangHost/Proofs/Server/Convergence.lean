import LangHost.Proofs.Plain.Host
import LangHost.Proofs.Server.Notices
import LangHost.Proofs.Server.Transparency
/-!
# Findings converge

In a host that knows plain texts only, no edit and no change of settings is lost. Whatever makes the
published findings of a text outdated leaves a validation pending for it, and a pending validation
goes away only with the text, with validation as a whole, or by publishing the findings anew. So
once validation is on and nothing is pending for an open text, what was last published for it is
what its present lines and the present settings demand.
-/

namespace LangHost.Server

/-! ## The last word on a document -/

section Published

variable {σ μ : Type}

/-- The findings that were last published for a document, and the version they are of. -/
def published? (s : Server σ μ) (uri : String) : Option (List Diagnostic × Option Int) :=
  s.sent.findSome? fun x =>
    match x.notice with
    | .diagnostics u findings version => if u = uri then some (findings, version) else none
    | .log _ _ => none

theorem OnlyLogs.published? {s s' : Server σ μ} (h : OnlyLogs s s') (uri : String) :
    s'.published? uri = s.published? uri := by
  obtain ⟨new, hsent, hlogs⟩ := h
  unfold Server.published?
  rw [hsent, List.findSome?_append, List.findSome?_eq_none_iff.2]
  · rfl
  · intro x hx
    obtain ⟨severity, text, hx⟩ := hlogs x hx
    rw [hx]

theorem published?_closeDocument_of_ne (s : Server σ μ) {uri uri' : String} (h : uri' ≠ uri) :
    (s.closeDocument uri).published? uri' = s.published? uri' := by
  unfold published?
  rcases s.closeDocument_sent uri with hsent | hsent
  · rw [hsent]
  · simp [hsent, Ne.symm h]

theorem published?_finishRun_of_ne (s : Server σ μ) (run : Run) {uri : String}
    (h : uri ≠ run.document.uri) : (s.finishRun run).published? uri = s.published? uri := by
  unfold published?
  rcases s.finishRun_sent run with hsent | ⟨findings, -, -, hsent⟩
  · rw [hsent]
  · simp [hsent, Ne.symm h]

theorem published?_finishRun {s : Server σ μ} (run : Run) {findings : List Diagnostic}
    (hphase : s.phase = .initialized) (hd : s.document? run.document.uri = some run.document)
    (hf : run.findings = some findings) :
    (s.finishRun run).published? run.document.uri = some (findings, some run.document.version) := by
  obtain ⟨_, h⟩ := s.finishRun_eq run
  rw [h]
  simp [published?, released, hf, isCurrent, hd, publish, send, hphase, Phase.admits]

/-- A validation has no say on other documents. -/
theorem published?_launch_of_ne (s : Server σ μ) {uri uri' : String} (h : uri' ≠ uri) :
    (s.launch uri).published? uri' = s.published? uri' := by
  rcases s.launch_notices uri with hlogs | ⟨run, hrun, heq⟩
  · exact hlogs.published? uri'
  · have huri : run.document.uri = uri := uri_of_document? (document_of_startRun hrun)
    rw [heq, published?_finishRun_of_ne _ _ (by rwa [huri])]
    exact (s.startRun_onlyLogs uri).published? uri'

end Published

/-! ## What a text demands -/

variable {μ : Type} {embed : Plain.Model → μ} {view : μ → Option Plain.Model}

/-- The findings that a text demands: that it cannot be parsed if it holds a NUL character, else
what the checks in force find in its lines. -/
def demanded (settings : Plain.Settings) (d : Document) : List Diagnostic :=
  if '\x00' ∈ d.text.toList then
    [parseFailure (Plain.Fault.binaryContent (d.lines.findIdx (·.contains '\x00'))).toFault]
  else (⟨d.lines⟩ : Plain.Model).check settings

/-- A validation of a plain text ends at once with the findings that the text demands. -/
theorem startOf_plain (hview : ∀ m, view (embed m) = some m) {s : Server Plain.Settings μ}
    {settings : Plain.Settings} (hs : s.services = Plain.services embed view settings) {d : Document}
    (hk : d.kind = Plain.kind) : ∃ service, startOf s.nextRun d (s.parsed d) =
      .running 0 ⟨s.nextRun, d, service, some (demanded settings d)⟩ := by
  have hparsed : s.parsed d =
      ((Plain.service embed view settings).parse d).map (Plain.service embed view settings, ·) := by
    simp only [parsed, Registry.require, hs, hk, Plain.services_forKind?]
  rw [hparsed, Plain.service_parse]
  unfold demanded
  by_cases hnul : '\x00' ∈ d.text.toList
  · simp only [hnul, if_true]
    exact ⟨none, rfl⟩
  · simp only [hnul, if_false]
    refine ⟨some Plain.kind, ?_⟩
    simp only [Except.map, startOf, Plain.service, hview, Option.elim_some]

/-- No validation goes on for some time. -/
theorem duration_plain (hview : ∀ m, view (embed m) = some m) {s : Server Plain.Settings μ}
    {settings : Plain.Settings} (hs : s.services = Plain.services embed view settings) {d : Document}
    {duration : Nat} {run : Run} (h : startOf s.nextRun d (s.parsed d) = .running duration run) :
    duration = 0 := by
  by_cases hk : d.kind = Plain.kind
  · obtain ⟨_, hstart⟩ := startOf_plain hview hs hk
    rw [hstart] at h
    cases h
    rfl
  · have hrefused : s.parsed d = .error (.noLanguageService d.kind) := by
      simp only [parsed, Registry.require, hs, Plain.services_forKind?_of_ne hk]
    rw [hrefused] at h
    cases h

theorem published?_launch (hview : ∀ m, view (embed m) = some m) {c : Revisions}
    {s : Server Plain.Settings μ} {settings : Plain.Settings} (hsound : Sound c s)
    (hs : s.services = Plain.services embed view settings) (hphase : s.phase = .initialized)
    {uri : String} {d : Document} (hd : s.document? uri = some d) (hk : d.kind = Plain.kind) :
    (s.launch uri).published? uri = some (demanded settings d, some d.version) := by
  obtain ⟨service, hstart⟩ := startOf_plain hview hs hk
  have hrun : (s.startRun uri).2 = .running 0 ⟨s.nextRun, d, service, some (demanded settings d)⟩ := by
    rw [(startRun_eq hd).1, hsound.getModel_eq hd, hstart]
  obtain ⟨_, _, _, _, hframe⟩ := s.startRun_frame uri
  obtain rfl : d.uri = uri := uri_of_document? hd
  rw [launch, hrun]
  simp only [continueRun, if_true]
  exact published?_finishRun ⟨s.nextRun, d, service, some (demanded settings d)⟩
    (by rw [hframe]; exact hphase) (by rw [hframe]; exact hd) rfl

/-! ## What is pending -/

section Pending

variable {σ μ : Type}

theorem isPending_schedule (s : Server σ μ) (v : ValidationConfig) (uri uri' : String) :
    (s.schedule v uri).validations.isPending uri' =
      (s.validations.isPending uri' || (uri' = uri && v.enabled &&
        (s.document? uri).any fun d => (s.services.forKind? d.kind).isSome)) := by
  unfold schedule
  split
  · rename_i h
    rw [Bool.and_eq_true] at h
    simp only [Debouncer.isPending, Debouncer.trigger, Ledger.isPending, Ledger.id?_enter, h]
    by_cases hu : uri' = uri <;> simp [hu]
  · rename_i h
    cases hv : v.enabled
    · simp
    · simp only [hv, Bool.true_and, Bool.not_eq_true] at h
      simp [h]

/-- After all have been asked for, every document that a service handles waits for its validation. -/
theorem isPending_scheduleAll {s : Server σ μ} {v : ValidationConfig} {uris : List String}
    {uri : String} {d : Document} (hv : v.enabled = true) (hd : s.document? uri = some d)
    (hk : (s.services.forKind? d.kind).isSome = true)
    (h : s.validations.isPending uri = true ∨ uri ∈ uris) :
    (uris.foldl (fun s uri => s.schedule v uri) s).validations.isPending uri = true := by
  induction uris generalizing s with
  | nil => simpa using h
  | cons uri' uris ih =>
    obtain ⟨validations, hframe⟩ := s.schedule_frame v uri'
    refine ih (s := s.schedule v uri') (by rw [hframe]; exact hd) (by rw [hframe]; exact hk) ?_
    rw [isPending_schedule]
    rcases h with h | h
    · exact .inl (by rw [h]; rfl)
    · rcases List.mem_cons.1 h with rfl | h
      · exact .inl (by simp [hv, hd, hk])
      · exact .inr h

end Pending

/-! ## Up to date, or pending -/

/-- What was last published for a document is what it demands, unless it is no open plain text or
waits for its validation. -/
def UpToDate (settings : Plain.Settings) (s : Server Plain.Settings μ) (uri : String) : Prop :=
  ∀ d, s.document? uri = some d → d.kind = Plain.kind → s.validations.isPending uri = false →
    s.published? uri = some (demanded settings d, some d.version)

theorem UpToDate.of_frame {settings : Plain.Settings} {s s' : Server Plain.Settings μ} {uri : String}
    (h : UpToDate settings s uri) (hd : s'.document? uri = s.document? uri)
    (hp : s'.validations.isPending uri = s.validations.isPending uri)
    (hpub : s'.published? uri = s.published? uri) : UpToDate settings s' uri := by
  intro d hdoc hk hpending
  rw [hpub]
  exact h d (hd ▸ hdoc) hk (hp ▸ hpending)

/-- A document is up to date whenever its validation has just been asked for. -/
theorem upToDate_schedule {settings settings' : Plain.Settings} {s : Server Plain.Settings μ}
    {v : ValidationConfig} {uri : String} (hs : s.services = Plain.services embed view settings)
    (hv : v.enabled = true) : UpToDate settings' (s.schedule v uri) uri := by
  intro d hd hk hpending
  obtain ⟨_, hframe⟩ := s.schedule_frame v uri
  have hd : s.document? uri = some d := by rw [hframe] at hd; exact hd
  simp [isPending_schedule, hv, hd, hs, hk, Plain.services_forKind?] at hpending

/-- Asking for the validation of one document leaves the others as they were. -/
theorem UpToDate.schedule_of_ne {settings : Plain.Settings} {s : Server Plain.Settings μ}
    {v : ValidationConfig} {uri uri' : String} (h : UpToDate settings s uri') (hne : uri' ≠ uri) :
    UpToDate settings (s.schedule v uri) uri' := by
  have hpending := s.isPending_schedule v uri uri'
  obtain ⟨_, hframe⟩ := s.schedule_frame v uri
  rw [hframe] at hpending ⊢
  exact h.of_frame rfl (by simpa [hne] using hpending) rfl

/-- A validation brings its document up to date and leaves the others as they were. -/
theorem upToDate_launch (hview : ∀ m, view (embed m) = some m) {c : Revisions}
    {s : Server Plain.Settings μ} {settings : Plain.Settings} (hsound : Sound c s)
    (hs : s.services = Plain.services embed view settings) (hphase : s.phase = .initialized)
    {uri : String} (h : ∀ uri', uri' ≠ uri → UpToDate settings s uri') (uri' : String) :
    UpToDate settings (s.launch uri) uri' := by
  obtain ⟨_, _, _, _, hframe⟩ := s.launch_frame uri
  by_cases hne : uri' = uri
  · subst hne
    intro d hd hk _
    have hd : s.document? uri' = some d := by rw [hframe] at hd; exact hd
    exact published?_launch hview hsound hs hphase hd hk
  · have hpub := s.published?_launch_of_ne hne
    exact (h uri' hne).of_frame (by rw [hframe]; rfl) (by rw [hframe]; rfl) hpub

theorem upToDate_opened {s : Server Plain.Settings μ} {settings : Plain.Settings}
    (hs : s.services = Plain.services embed view settings)
    (henabled : s.config.validation.enabled = true) (d : Document)
    (h : ∀ uri, UpToDate settings s uri) (uri : String) :
    UpToDate settings (s.openDocument d) uri := by
  have hlogs := (s.openDocument_onlyLogs d).published? uri
  simp only [openDocument] at hlogs ⊢
  by_cases hu : uri = d.uri
  · subst hu
    split
    · exact upToDate_schedule hs henabled
    · -- no service handles the document, so it is no plain text
      rename_i f hf
      intro d' hd' hk _
      obtain ⟨_, hframe⟩ := (s.putDocument d).log_frame .warning f.message
      have hd' : (s.putDocument d).document? d.uri = some d' := by rw [hframe] at hd'; exact hd'
      rw [document?_putDocument] at hd'
      simp only [if_true, Option.some.injEq] at hd'
      subst hd'
      have hs : (s.putDocument d).services = Plain.services embed view settings := hs
      rw [hs, hk, Registry.require, Plain.services_forKind?] at hf
      cases hf
  · have hput : UpToDate settings (s.putDocument d) uri :=
      (h uri).of_frame (by rw [document?_putDocument, if_neg (Ne.symm hu)]) rfl rfl
    split
    · exact hput.schedule_of_ne hu
    · rename_i f _
      obtain ⟨_, hframe⟩ := (s.putDocument d).log_frame .warning f.message
      exact hput.of_frame (by rw [hframe]; rfl) (by rw [hframe])
        (((s.putDocument d).log_onlyLogs .warning f.message).published? uri)

theorem upToDate_changed {s : Server Plain.Settings μ} {settings : Plain.Settings}
    (hs : s.services = Plain.services embed view settings)
    (henabled : s.config.validation.enabled = true) (uri : String) (version : Int) (text : String)
    (h : ∀ uri', UpToDate settings s uri') (uri' : String) :
    UpToDate settings (s.changeDocument uri version text) uri' := by
  unfold changeDocument
  cases hd : s.document? uri with
  | none => exact h uri'
  | some d =>
    have huri : (d.update version text).uri = uri := uri_of_document? (d := d) hd
    by_cases hu : uri' = uri
    · subst hu
      exact upToDate_schedule (s := s.putDocument (d.update version text)) hs henabled
    · have hput : UpToDate settings (s.putDocument (d.update version text)) uri' :=
        (h uri').of_frame (by rw [document?_putDocument, huri, if_neg (Ne.symm hu)]) rfl rfl
      exact hput.schedule_of_ne hu

theorem upToDate_closed {s : Server Plain.Settings μ} {settings : Plain.Settings} (uri : String)
    (h : ∀ uri', UpToDate settings s uri') (uri' : String) :
    UpToDate settings (s.closeDocument uri) uri' := by
  have hdoc : (s.closeDocument uri).document? uri' = if uri = uri' then none else s.document? uri' := by
    obtain ⟨_, _, hframe⟩ := s.closeDocument_frame uri
    rw [← document?_dropDocument, hframe]
    rfl
  by_cases hu : uri' = uri
  · subst hu
    intro d hd
    simp [hdoc] at hd
  · refine (h uri').of_frame (by rw [hdoc, if_neg (Ne.symm hu)]) ?_ (s.published?_closeDocument_of_ne hu)
    simp [closeDocument, publish, dropModel, cancelValidation, dropDocument, Debouncer.cancel,
      Debouncer.isPending, Ledger.isPending, Ledger.id?_erase, hu]

/-- New settings make every plain text wait for its validation. -/
theorem upToDate_revalidate {s : Server Plain.Settings μ} {settings settings' : Plain.Settings}
    (hs : s.services = Plain.services embed view settings) {v : ValidationConfig}
    (hv : v.enabled = true) (uri : String) : UpToDate settings' (s.revalidate v) uri := by
  intro d hd hk hpending
  obtain ⟨_, hframe⟩ := s.revalidate_frame v
  have hd : s.document? uri = some d := by rw [hframe] at hd; exact hd
  have hopen : uri ∈ s.documents.map (·.uri) :=
    List.mem_map.2 ⟨d, List.mem_of_find?_eq_some hd, uri_of_document? hd⟩
  have hkind : (s.services.forKind? d.kind).isSome = true := by
    rw [hs, hk, Plain.services_forKind?]; rfl
  simp [revalidate, hv, isPending_scheduleAll hv hd hkind (.inr hopen)] at hpending

/-- The invariant of a host that knows plain texts only: nothing is open before the session starts,
no validation goes on for some time, and while the session lasts and validation is on, every
document is up to date. -/
structure Converged (embed : Plain.Model → μ) (view : μ → Option Plain.Model)
    (s : Server Plain.Settings μ) : Prop where
  early : s.phase = .uninitialized → s.documents = []
  atOnce : ∀ due run, ⟨due, .resume run⟩ ∉ s.validations.agenda
  upToDate : ∃ settings, s.services = Plain.services embed view settings ∧
    (s.phase = .initialized → s.config.validation.enabled = true → ∀ uri, UpToDate settings s uri)

namespace Converged

variable {s s' : Server Plain.Settings μ}

theorem notify (h : Converged embed view s) (hphase : s.phase = .initialized) (n : Notification) :
    ∃ settings, (s.notify n).services = Plain.services embed view settings ∧
      ((s.notify n).config.validation.enabled = true → ∀ uri, UpToDate settings (s.notify n) uri) := by
  obtain ⟨settings, hs, hup⟩ := h.upToDate
  have hup := hup hphase
  cases n with
  | initialized =>
    obtain ⟨_, hframe⟩ := s.log_frame .info "genls ready"
    have hlogs := s.log_onlyLogs .info "genls ready"
    refine ⟨settings, by simp only [Server.notify, hframe, hs], fun henabled uri => ?_⟩
    simp only [Server.notify, hframe] at henabled
    exact (hup henabled uri).of_frame (by simp only [Server.notify, hframe]; rfl)
      (by simp only [Server.notify, hframe]) (hlogs.published? uri)
  | opened d =>
    obtain ⟨_, _, hframe⟩ := s.openDocument_frame d
    refine ⟨settings, by simp only [Server.notify, hframe]; exact hs, fun henabled => ?_⟩
    have henabled : s.config.validation.enabled = true := by
      simp only [Server.notify, hframe] at henabled; exact henabled
    exact upToDate_opened hs henabled d (hup henabled)
  | changed uri version texts =>
    simp only [Server.notify]
    split
    · exact ⟨settings, hs, hup⟩
    · rename_i text _
      cases hd : s.document? uri with
      | none =>
        simp only [changeDocument, hd]
        exact ⟨settings, hs, hup⟩
      | some d =>
        obtain ⟨_, hframe⟩ := changeDocument_frame hd version text
        refine ⟨settings, by rw [hframe]; exact hs, fun henabled => ?_⟩
        have henabled : s.config.validation.enabled = true := by rw [hframe] at henabled; exact henabled
        exact upToDate_changed hs henabled uri version text (hup henabled)
  | closed uri =>
    obtain ⟨_, _, hframe⟩ := s.closeDocument_frame uri
    refine ⟨settings, by simp only [Server.notify, hframe]; exact hs, fun henabled => ?_⟩
    have henabled : s.config.validation.enabled = true := by
      simp only [Server.notify, hframe] at henabled; exact henabled
    exact upToDate_closed uri (hup henabled)
  | configured j =>
    obtain ⟨_, _, _, _, happly, -⟩ := s.applySettings_frame j
    obtain ⟨_, hframe⟩ := (s.applySettings j).revalidate_frame (s.applySettings j).config.validation
    have hs' : (s.applySettings j).services = Plain.services embed view (settings.configure j) := by
      rw [happly, hs, Plain.services_configure]
    refine ⟨settings.configure j, by simp only [Server.notify, hframe, hs'], fun henabled => ?_⟩
    simp only [Server.notify, hframe] at henabled
    exact upToDate_revalidate hs' henabled

theorem launch (hview : ∀ m, view (embed m) = some m) {c : Revisions} (hsound : Sound c s)
    {settings : Plain.Settings} (hs : s.services = Plain.services embed view settings) {uri : String}
    (hup : s.phase = .initialized → s.config.validation.enabled = true →
      ∀ uri', uri' ≠ uri → UpToDate settings s uri') :
    ∃ settings, (s.launch uri).services = Plain.services embed view settings ∧
      ((s.launch uri).phase = .initialized → (s.launch uri).config.validation.enabled = true →
        ∀ uri', UpToDate settings (s.launch uri) uri') := by
  obtain ⟨_, _, _, _, hframe⟩ := s.launch_frame uri
  refine ⟨settings, by rw [hframe]; exact hs, fun hphase henabled => ?_⟩
  rw [hframe] at hphase henabled
  exact upToDate_launch hview hsound hs hphase (hup hphase henabled)

theorem step (hview : ∀ m, view (embed m) = some m) {c : Revisions} {e : Event}
    (h : Converged embed view s) (hsound : Sound c s) (hstep : Step s e s') :
    Converged embed view s' := by
  refine ⟨fun hphase => ?_, fun due run hmem => ?_, ?_⟩
  · obtain ⟨hphase, hdocs⟩ := hstep.early hphase
    rw [hdocs, h.early hphase]
  · -- a validation that went on would have taken some time
    rcases hstep.mem_of_mem_agenda hmem with hmem | ⟨s₁, uri, duration, hstarts, hne, hrun⟩
    · exact h.atOnce due run hmem
    · obtain ⟨settings, hs, -⟩ := h.upToDate
      have hd := document_of_startRun hrun
      rw [(startRun_eq hd).1, (hsound.starts hstarts).getModel_eq hd] at hrun
      have hs : s₁.services = Plain.services embed view settings := by
        cases hstarts <;> exact hs
      exact hne (duration_plain hview hs hrun)
  · obtain ⟨settings, hs, hup⟩ := h.upToDate
    cases hstep with
    | setUp options hphase =>
      have hdocs := h.early hphase
      cases options with
      | none =>
        refine ⟨settings, hs, fun _ _ uri d hd => ?_⟩
        simp [document?, Server.setUp, hdocs] at hd
      | some j =>
        obtain ⟨_, _, _, _, happly, -⟩ := s.applySettings_frame j
        refine ⟨settings.configure j, ?_, fun _ _ uri d hd => ?_⟩
        · simp only [Server.setUp, happly, hs, Plain.services_configure]
        · simp [document?, Server.setUp, happly, hdocs] at hd
    | notification n hphase =>
      obtain ⟨settings', hs', hup'⟩ := h.notify hphase n
      exact ⟨settings', hs', fun _ => hup'⟩
    | request r _ =>
      have hpub := (s.answer_onlyLogs r).published?
      obtain ⟨_, _, hframe⟩ := s.answer_frame r
      rw [hframe] at hpub ⊢
      refine ⟨settings, hs, ?_⟩
      intro hphase henabled uri
      exact (hup hphase henabled uri).of_frame rfl rfl (hpub uri)
    | shutDown _ => exact ⟨settings, hs, fun hphase => by cases hphase⟩
    | hangUp _ => exact ⟨settings, hs, fun hphase => by cases hphase⟩
    | exit => exact ⟨settings, hs, fun hphase => by cases hphase⟩
    | validation uri => exact launch hview hsound hs fun hphase henabled uri' _ => hup hphase henabled uri'
    | job front back item hagenda hfirst =>
      obtain ⟨due, job⟩ := item
      cases job with
      | resume run => exact (h.atOnce due run (by rw [hagenda]; simp)).elim
      | fire uri id action =>
        simp only [perform_fire]
        cases hr : s.validations.ledger.redeem? uri id with
        | none =>
          simp only [take, hr]
          exact ⟨settings, hs, hup⟩
        | some ledger =>
          -- the document no longer waits, but its validation is done in the same step
          obtain ⟨-, rfl⟩ := Ledger.redeem?_eq_some.1 hr
          simp only [take, hr]
          refine launch hview (hsound.starts (.due hagenda hfirst hr)) hs fun hphase henabled uri' hne => ?_
          refine (hup hphase henabled uri').of_frame rfl ?_ rfl
          simp [Debouncer.isPending, Ledger.isPending, Ledger.id?_erase, hne]
    | time t _ => exact ⟨settings, hs, hup⟩

end Converged

theorem converged_of_reaches (hview : ∀ m, view (embed m) = some m) {settings : Plain.Settings}
    {events : List Event} {s : Server Plain.Settings μ}
    (h : (boot (Plain.services embed view settings)).Reaches events s) (hd : Distinct events) :
    Converged embed view s := by
  induction h with
  | nil =>
    refine ⟨fun _ => rfl, ?_, settings, rfl, ?_⟩
    · intro due run hmem
      cases hmem
    · intro hphase
      cases hphase
  | snoc hreach hstep ih =>
    obtain ⟨hd, _⟩ := orderly_snoc.1 hd
    exact (ih hd).step hview (sound_of_reaches hreach hd) hstep

/-- Findings converge. Until the session is shut down, whenever validation is on and no validation is
pending for an open plain text, the findings last published for it are of its current version, and
they are what its current text demands under the current settings. -/
theorem published_of_not_pending (hview : ∀ m, view (embed m) = some m) {settings : Plain.Settings}
    {events : List Event} {s : Server Plain.Settings μ}
    (hreach : (boot (Plain.services embed view settings)).Reaches events s) (hdistinct : Distinct events)
    (hphase : s.phase = .uninitialized ∨ s.phase = .initialized)
    (henabled : s.config.validation.enabled = true) {uri : String} {d : Document}
    (hd : s.document? uri = some d) (hk : d.kind = Plain.kind)
    (hpending : s.validations.isPending uri = false) :
    ∃ v, s.services.forKind? Plain.kind = some v ∧
      s.published? uri = some (demanded v.settings d, some d.version) := by
  have hconverged := converged_of_reaches hview hreach hdistinct
  obtain ⟨current, hs, hup⟩ := hconverged.upToDate
  rcases hphase with hphase | hphase
  · simp [document?, hconverged.early hphase] at hd
  · refine ⟨Plain.service embed view current, by rw [hs, Plain.services_forKind?], ?_⟩
    exact hup hphase henabled uri d hd hk hpending

/-- A text with a blank at its end is opened, and its validation comes due. -/
theorem published_of_not_pending_opened :
    ∃ s : Server Plain.Settings Plain.Model,
      (boot (Plain.services id some)).Reaches
        [.setUp none, .notification (.opened ⟨"a", "plaintext", 1, "x "⟩), .job 0] s ∧
      s.published? "a" = some ([Plain.trailingFinding (.onLine 0 1 2)], some 1) := by
  have hreach : ∃ s, (boot (Plain.services id some)).Reaches
      [.setUp none, .notification (.opened ⟨"a", "plaintext", 1, "x "⟩), .job 0]
      (launch s "a") ∧ s.services = Plain.services id some ∧ s.phase = .initialized ∧
      s.config.validation.enabled = true ∧ s.document? "a" = some ⟨"a", "plaintext", 1, "x "⟩ ∧
      s.validations.ledger.isPending "a" = false :=
    ⟨_, .snoc (.snoc (.snoc .nil (.setUp _ rfl)) (.notification _ rfl))
      (@Starts.due _ _ _ [] [] 200 0 "a" () _ rfl (by decide) rfl).step,
      rfl, rfl, rfl, rfl, rfl⟩
  obtain ⟨s, hreach, hs, hphase, henabled, hd, hpending⟩ := hreach
  obtain ⟨_, _, _, _, hframe⟩ := s.launch_frame "a"
  refine ⟨s.launch "a", hreach, ?_⟩
  obtain ⟨v, hv, hpublished⟩ := published_of_not_pending (fun _ => rfl) hreach (by decide)
    (.inr (by rw [hframe]; exact hphase)) (by rw [hframe]; exact henabled)
    (d := ⟨"a", "plaintext", 1, "x "⟩) (by rw [hframe]; exact hd) rfl (by rw [hframe]; exact hpending)
  obtain rfl : Plain.service id some = v := by
    rw [hframe, hs, Plain.services_forKind?] at hv
    exact Option.some.inj hv
  rw [hpublished]
  rfl

end LangHost.Server
