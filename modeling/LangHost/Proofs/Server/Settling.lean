import LangHost.Proofs.Server.Outdated
import LangHost.Proofs.Server.Provenance
/-!
# Validations that overlap

Validations of one document can go on at the same time, each of the revision it started with, and
end in any order. While validation is on, an open document waits for its validation, or one of its
version goes on, or findings of its version were published last (`Attended`): whatever ends one of
these starts another. And findings of a version are those of its one revision (`Faithful`). So once
nothing is pending or going on for a document, the last word is on its current revision.

There is one exception. A service may fail to parse a document because it misses a service itself,
and that is taken for a document without a service: nothing is published then.
-/

namespace LangHost.Server

variable {σ μ : Type}

/-! ## No revision is passed over -/

theorem mem_sent_of_published? {s : Server σ μ} {uri : String} {findings : List Diagnostic}
    {version : Option Int} (h : s.published? uri = some (findings, version)) :
    ∃ t, ⟨t, .diagnostics uri findings version⟩ ∈ s.sent := by
  obtain ⟨⟨t, notice⟩, hmem, hx⟩ := List.exists_of_findSome?_eq_some h
  cases notice with
  | log severity text => cases hx
  | diagnostics u findings' version' =>
    simp only at hx
    split at hx
    · rename_i hu
      cases hx
      exact ⟨t, hu ▸ hmem⟩
    · cases hx

/-- Something is under way for a version of a document, or it was the last to be published: the
document waits for its validation, or a validation of that version goes on. -/
def Attended (s : Server σ μ) (uri : String) (version : Int) : Prop :=
  s.validations.isPending uri = true ∨
    (∃ due run, ⟨due, .resume run⟩ ∈ s.validations.agenda ∧ run.document.uri = uri ∧
      run.document.version = version) ∨
    ∃ findings, s.published? uri = some (findings, some version)

/-- The stored revision of a document is attended to, if the services find something in it. -/
def Attends (services : Registry σ μ) (s : Server σ μ) (uri : String) : Prop :=
  ∀ d, s.document? uri = some d → (services.verdict d).isSome = true → s.Attended uri d.version

theorem Attended.of_frame {s s' : Server σ μ} {uri : String} {version : Int} (h : s.Attended uri version)
    (hp : s.validations.isPending uri = true → s'.validations.isPending uri = true)
    (hr : ∀ due run, run.document.uri = uri → run.document.version = version →
      ⟨due, .resume run⟩ ∈ s.validations.agenda → ⟨due, .resume run⟩ ∈ s'.validations.agenda)
    (hpub : s'.published? uri = s.published? uri) : s'.Attended uri version := by
  rcases h with hpending | ⟨due, run, hmem, huri, hversion⟩ | ⟨findings, hlast⟩
  · exact .inl (hp hpending)
  · exact .inr (.inl ⟨due, run, hr due run huri hversion hmem, huri, hversion⟩)
  · exact .inr (.inr ⟨findings, hpub.trans hlast⟩)

/-- Findings that are not outdated are the last to be published. -/
theorem published?_finishRun_of_current {s : Server σ μ} {run : Run} {findings : List Diagnostic}
    (hphase : s.phase = .initialized) (hcurrent : s.isCurrent run.document = true)
    (hf : run.findings = some findings) :
    (s.finishRun run).published? run.document.uri = some (findings, some run.document.version) := by
  obtain ⟨_, h⟩ := s.finishRun_eq run
  rw [h]
  simp [published?, released, hf, hcurrent, publish, send, hphase, Phase.admits]

section Agenda

variable {s : Server σ μ} {due : Nat} {run : Run}

/-- What goes on is not stopped by asking for a validation. -/
theorem resume_mem_schedule (h : ⟨due, .resume run⟩ ∈ s.validations.agenda) (v : ValidationConfig)
    (uri : String) : ⟨due, .resume run⟩ ∈ (s.schedule v uri).validations.agenda := by
  unfold schedule
  split
  · exact Debouncer.mem_trigger.2 (.inl (Debouncer.mem_abort.2 ⟨h, fun _ _ => rfl⟩))
  · exact h

/-- Nothing that waits or goes on is stopped by a validation that starts. -/
theorem mem_launch {x : Agenda.Item (Debouncer.Job String Unit Run)} (h : x ∈ s.validations.agenda)
    (uri : String) : x ∈ (s.launch uri).validations.agenda := by
  unfold launch
  cases (s.startRun uri).2 with
  | closed => simpa [continueRun] using h
  | refused f => simpa [continueRun] using h
  | running duration run =>
    simp only [continueRun]
    split
    · simpa using h
    · exact Debouncer.mem_suspend.2 (.inl (by simpa using h))

end Agenda

namespace Attends

variable {services : Registry σ μ} {s s' : Server σ μ} {uri uri' : String}

theorem of_frame (h : Attends services s uri) (hd : s'.document? uri = s.document? uri)
    (hp : s.validations.isPending uri = true → s'.validations.isPending uri = true)
    (hr : ∀ due run, ⟨due, .resume run⟩ ∈ s.validations.agenda →
      ⟨due, .resume run⟩ ∈ s'.validations.agenda)
    (hpub : s'.published? uri = s.published? uri) : Attends services s' uri := by
  intro d hdoc hverdict
  exact (h d (hd ▸ hdoc) hverdict).of_frame hp (fun due run _ _ => hr due run) hpub

/-- A document is attended to once its validation has been asked for. -/
theorem of_schedule (hs : ∀ d, s.services.verdict d = services.verdict d) {v : ValidationConfig}
    (hv : v.enabled = true) : Attends services (s.schedule v uri) uri := by
  intro d hd hverdict
  obtain ⟨_, hframe⟩ := s.schedule_frame v uri
  have hd : s.document? uri = some d := by rw [hframe] at hd; exact hd
  have hkind := Registry.forKind?_of_verdict (hs d ▸ hverdict)
  left
  simp [isPending_schedule, hv, hd, hkind]

theorem schedule (h : Attends services s uri') (v : ValidationConfig) (uri : String) :
    Attends services (s.schedule v uri) uri' := by
  have hpending := s.isPending_schedule v uri uri'
  have hresume : ∀ due run, ⟨due, .resume run⟩ ∈ s.validations.agenda → _ :=
    fun due run hmem => resume_mem_schedule hmem v uri
  obtain ⟨_, hframe⟩ := s.schedule_frame v uri
  rw [hframe] at hpending hresume ⊢
  refine h.of_frame rfl (fun hp => ?_) hresume rfl
  rw [hpending, hp]
  rfl

/-- A validation that starts leaves other documents as they were. -/
theorem launch_of_ne (h : Attends services s uri') (hne : uri' ≠ uri) :
    Attends services (s.launch uri) uri' := by
  have hpub := s.published?_launch_of_ne hne
  have hresume : ∀ due run, ⟨due, .resume run⟩ ∈ s.validations.agenda → _ :=
    fun due run hmem => mem_launch hmem uri
  obtain ⟨_, _, _, _, hframe⟩ := s.launch_frame uri
  rw [hframe] at hpub hresume ⊢
  exact h.of_frame rfl id hresume hpub

/-- A validation that starts attends to its document: its findings are published, or it goes on. -/
theorem of_launch (hphase : s.phase = .initialized)
    (hstart : ∀ d, s.document? uri = some d → (services.verdict d).isSome = true →
      ∃ duration run, (s.startRun uri).2 = .running duration run ∧ run.findings.isSome = true) :
    Attends services (s.launch uri) uri := by
  intro d hd hverdict
  obtain ⟨_, _, _, _, hframe⟩ := s.launch_frame uri
  have hd : s.document? uri = some d := by rw [hframe] at hd; exact hd
  obtain ⟨duration, run, hrun, hsome⟩ := hstart d hd hverdict
  have hdoc := document_of_startRun hrun
  obtain rfl : d = run.document := Option.some.inj (hd.symm.trans hdoc)
  obtain rfl : run.document.uri = uri := uri_of_document? hdoc
  unfold launch
  rw [hrun, continueRun]
  split
  · obtain ⟨findings, hfindings⟩ := Option.isSome_iff_exists.1 hsome
    obtain ⟨_, _, _, _, hframe⟩ := s.startRun_frame run.document.uri
    refine .inr (.inr ⟨findings, published?_finishRun run ?_ ?_ hfindings⟩)
    · rw [hframe]
      exact hphase
    · rw [hframe]
      exact hdoc
  · exact .inr (.inl ⟨_, run, Debouncer.mem_suspend.2 (.inr rfl), rfl, rfl⟩)

/-- The end of a validation publishes its findings if they are of the stored version, and otherwise
it attended to another version. -/
theorem finishRun (h : Attends services s uri) (hphase : s.phase = .initialized)
    {front back : Agenda (Debouncer.Job String Unit Run)} {due : Nat} {run : Run}
    (hagenda : s.validations.agenda = front ++ ⟨due, .resume run⟩ :: back)
    (hsome : run.findings.isSome = true) :
    Attends services ((s.take due (front ++ back)).finishRun run) uri := by
  intro d hd hverdict
  obtain ⟨_, _, hframe⟩ := (s.take due (front ++ back)).finishRun_frame run
  have hd : s.document? uri = some d := by rw [hframe] at hd; exact hd
  by_cases hsame : run.document.uri = uri ∧ run.document.version = d.version
  · obtain ⟨rfl, hversion⟩ := hsame
    obtain ⟨findings, hfindings⟩ := Option.isSome_iff_exists.1 hsome
    have hd : (s.take due (front ++ back)).document? run.document.uri = some d := hd
    refine .inr (.inr ⟨findings, ?_⟩)
    rw [← hversion]
    exact published?_finishRun_of_current hphase (by simp [isCurrent, hd, hversion]) hfindings
  · refine (h d hd hverdict).of_frame ?_ ?_ ?_
    · intro hp
      rw [hframe]
      exact hp
    · intro due' run' huri hversion hmem
      rw [hframe]
      refine Agenda.mem_rest_of_ne hagenda hmem fun heq => ?_
      cases heq
      exact hsame ⟨huri, hversion⟩
    · -- what ends is of another document, or it is outdated
      have hpub : (s.take due (front ++ back)).published? uri = s.published? uri := rfl
      rw [← hpub]
      by_cases hne : uri = run.document.uri
      · rcases (s.take due (front ++ back)).finishRun_sent run with hsent | ⟨_, -, hcurrent, -⟩
        · simp only [published?, hsent]
        · have hd : (s.take due (front ++ back)).document? run.document.uri = some d := hne ▸ hd
          simp only [isCurrent, hd, Option.any_some, decide_eq_true_eq] at hcurrent
          exact absurd ⟨hne.symm, hcurrent.symm⟩ hsame
      · exact published?_finishRun_of_ne _ run hne

/-- Closing a document leaves others as they were. -/
theorem closeDocument (h : Attends services s uri') (uri : String) :
    Attends services (s.closeDocument uri) uri' := by
  by_cases hne : uri' = uri
  · subst hne
    intro d hd
    simp [document?_closeDocument] at hd
  · refine h.of_frame ?_ ?_ ?_ (s.published?_closeDocument_of_ne hne)
    · rw [document?_closeDocument, if_neg (Ne.symm hne)]
    · intro hp
      simp only [Server.closeDocument, publish, validations_send]
      exact Ledger.isPending_erase.2 ⟨hne, hp⟩
    · intro due run hmem
      simp only [Server.closeDocument, publish, validations_send]
      exact Debouncer.mem_cancel.2 (Debouncer.mem_abort.2 ⟨hmem, fun _ _ => rfl⟩)

/-- Every document is attended to once all validations have been asked for. -/
theorem of_revalidate (hs : ∀ d, s.services.verdict d = services.verdict d) {v : ValidationConfig}
    (hv : v.enabled = true) : Attends services (s.revalidate v) uri := by
  intro d hd hverdict
  obtain ⟨_, hframe⟩ := s.revalidate_frame v
  have hd : s.document? uri = some d := by rw [hframe] at hd; exact hd
  have hopen : uri ∈ s.documents.map (·.uri) :=
    List.mem_map.2 ⟨d, List.mem_of_find?_eq_some hd, uri_of_document? hd⟩
  have hkind := Registry.forKind?_of_verdict (hs d ▸ hverdict)
  left
  simp only [revalidate, hv, if_true]
  exact isPending_scheduleAll hv hd hkind (.inr hopen)

theorem openDocument (h : ∀ uri, Attends services s uri)
    (hs : ∀ d, s.services.verdict d = services.verdict d)
    (henabled : s.config.validation.enabled = true) (d : Document) (uri : String) :
    Attends services (s.openDocument d) uri := by
  have hput (hne : uri ≠ d.uri) : Attends services (s.putDocument d) uri :=
    (h uri).of_frame (by rw [document?_putDocument, if_neg (Ne.symm hne)]) id (fun _ _ hmem => hmem) rfl
  simp only [Server.openDocument]
  split
  · by_cases hu : uri = d.uri
    · subst hu
      exact of_schedule (s := s.putDocument d) hs henabled
    · exact (hput hu).schedule _ _
  · rename_i f hf
    have hpub := ((s.putDocument d).log_onlyLogs .warning f.message).published? uri
    obtain ⟨_, hframe⟩ := (s.putDocument d).log_frame .warning f.message
    rw [hframe] at hpub ⊢
    by_cases hu : uri = d.uri
    · -- no service handles the document, so nothing is found in it
      subst hu
      intro d' hd' hverdict
      have hd' : (s.putDocument d).document? d.uri = some d' := hd'
      simp only [document?_putDocument, if_true, Option.some.injEq] at hd'
      subst hd'
      have hkind := Registry.forKind?_of_verdict (hs d ▸ hverdict)
      obtain ⟨v, hv⟩ := Option.isSome_iff_exists.1 hkind
      have hf : s.services.require d.kind = .error f := hf
      rw [Registry.require, hv] at hf
      cases hf
    · exact (hput hu).of_frame rfl id (fun _ _ hmem => hmem) hpub

theorem changeDocument (h : ∀ uri, Attends services s uri)
    (hs : ∀ d, s.services.verdict d = services.verdict d)
    (henabled : s.config.validation.enabled = true) (uri : String) (version : Int) (text : String)
    (uri' : String) : Attends services (s.changeDocument uri version text) uri' := by
  unfold Server.changeDocument
  split
  · exact h uri'
  · rename_i d hd
    have huri : (d.update version text).uri = uri := uri_of_document? (d := d) hd
    by_cases hu : uri' = uri
    · subst hu
      exact of_schedule (s := s.putDocument (d.update version text)) hs henabled
    · have hput : Attends services (s.putDocument (d.update version text)) uri' :=
        (h uri').of_frame (by rw [document?_putDocument, huri, if_neg (Ne.symm hu)]) id
          (fun _ _ hmem => hmem) rfl
      exact hput.schedule _ _

theorem notify (h : s.config.validation.enabled = true → ∀ uri, Attends services s uri)
    (hsteady : s.services.Steady) (hs : ∀ d, s.services.verdict d = services.verdict d)
    (n : Notification) (henabled : (s.notify n).config.validation.enabled = true) (uri : String) :
    Attends services (s.notify n) uri := by
  cases n with
  | initialized =>
    have hpub := (s.log_onlyLogs .info "genls ready").published? uri
    obtain ⟨_, hframe⟩ := s.log_frame .info "genls ready"
    simp only [Server.notify, hframe] at henabled ⊢
    rw [hframe] at hpub
    exact (h henabled uri).of_frame rfl id (fun _ _ hmem => hmem) hpub
  | opened d =>
    obtain ⟨_, _, hframe⟩ := s.openDocument_frame d
    have henabled : s.config.validation.enabled = true := by
      simp only [Server.notify, hframe] at henabled
      exact henabled
    exact openDocument (h henabled) hs henabled d uri
  | changed uri' version texts =>
    simp only [Server.notify] at henabled ⊢
    cases htext : texts.getLast? with
    | none =>
      rw [htext] at henabled
      exact h henabled uri
    | some text =>
      rw [htext] at henabled
      simp only at henabled ⊢
      have hconfig : (s.changeDocument uri' version text).config = s.config := by
        cases hd : s.document? uri' with
        | none => simp only [Server.changeDocument, hd]
        | some d =>
          obtain ⟨_, hframe⟩ := changeDocument_frame hd version text
          rw [hframe]
          rfl
      rw [hconfig] at henabled
      exact changeDocument (h henabled) hs henabled uri' version text uri
  | closed uri' =>
    obtain ⟨_, _, hframe⟩ := s.closeDocument_frame uri'
    have henabled : s.config.validation.enabled = true := by
      simp only [Server.notify, hframe] at henabled
      exact henabled
    exact (h henabled uri).closeDocument uri'
  | configured settings =>
    obtain ⟨_, _, _, _, happly, -⟩ := s.applySettings_frame settings
    obtain ⟨_, hframe⟩ :=
      (s.applySettings settings).revalidate_frame (s.applySettings settings).config.validation
    simp only [Server.notify, hframe] at henabled
    refine of_revalidate (fun d => ?_) henabled
    rw [happly, ← hs d]
    exact hsteady.verdict_configure settings d

end Attends

/-- Nothing is open before the session starts, and while the session lasts and validation is on, every
document is attended to. -/
structure Settling (services : Registry σ μ) (s : Server σ μ) : Prop where
  early : s.phase = .uninitialized → s.documents = []
  attends : s.phase = .initialized → s.config.validation.enabled = true →
    ∀ uri, Attends services s uri

namespace Settling

variable {services : Registry σ μ} {known : List Document} {s s' : Server σ μ}

/-- A validation that starts attends to its document and leaves the others as they were. -/
theorem launch (hfaithful : Faithful services known s) (htells : Tells known)
    (hstored : ∀ uri d, s.document? uri = some d → d ∈ known) {e : Event} {s₁ : Server σ μ} {uri : String}
    (hstarts : Starts s e s₁ uri) (hphase : s₁.phase = .initialized)
    (hothers : ∀ uri', uri' ≠ uri → Attends services s₁ uri') (uri' : String) :
    Attends services (s₁.launch uri) uri' := by
  by_cases hne : uri' = uri
  · subst hne
    refine Attends.of_launch hphase fun d hd hverdict => ?_
    obtain ⟨_, _, _, hframe, -⟩ := hstarts.frame
    have hd : s.document? uri' = some d := by
      rw [hframe] at hd
      exact hd
    obtain ⟨duration, run, hrun⟩ := exists_startOf (s := s) (hfaithful.verdict d ▸ hverdict) s₁.nextRun
    rw [← hfaithful.startRun_eq htells hstarts hd (hstored uri' d hd)] at hrun
    obtain ⟨-, -, hsome⟩ := hfaithful.starts htells hstored hstarts hrun
    exact ⟨duration, run, hrun, hsome⟩
  · exact (hothers uri' hne).launch_of_ne hne

/-- A job that is due keeps every document attended to. -/
theorem perform (hfaithful : Faithful services known s) (htells : Tells known)
    (hstored : ∀ uri d, s.document? uri = some d → d ∈ known) (hphase : s.phase = .initialized)
    (hattends : ∀ uri, Attends services s uri) {front back : Agenda (Debouncer.Job String Unit Run)}
    {item : Agenda.Item (Debouncer.Job String Unit Run)}
    (hagenda : s.validations.agenda = front ++ item :: back)
    (hfirst : ∀ x ∈ s.validations.agenda, item.due ≤ x.due) (uri : String) :
    Attends services ((s.take item.due (front ++ back)).perform item.job) uri := by
  obtain ⟨due, job⟩ := item
  cases job with
  | resume run =>
    obtain ⟨-, -, hsome⟩ := hfaithful.runs due run (by rw [hagenda]; simp)
    exact (hattends uri).finishRun hphase hagenda hsome
  | fire uri' number action =>
    have hresume (due' : Nat) (run : Run) (hmem : ⟨due', .resume run⟩ ∈ s.validations.agenda) :
        ⟨due', .resume run⟩ ∈ front ++ back :=
      Agenda.mem_rest_of_ne hagenda hmem nofun
    simp only [perform_fire]
    cases hr : s.validations.ledger.redeem? uri' number with
    | none =>
      simp only [take, hr]
      exact (hattends uri).of_frame rfl id hresume rfl
    | some ledger =>
      -- the document no longer waits, and its validation starts in the same step
      obtain ⟨-, rfl⟩ := Ledger.redeem?_eq_some.1 hr
      simp only [take, hr]
      refine launch hfaithful htells hstored (.due hagenda hfirst hr) hphase (fun uri'' hne => ?_) uri
      refine (hattends uri'').of_frame rfl (fun hp => ?_) hresume rfl
      exact Ledger.isPending_erase.2 ⟨hne, hp⟩

theorem step (h : Settling services s) (hfaithful : Faithful services known s) (htells : Tells known)
    (hstored : ∀ uri d, s.document? uri = some d → d ∈ known) {e : Event} (hstep : Step s e s') :
    Settling services s' := by
  refine ⟨fun hphase => ?_, fun hphase henabled uri => ?_⟩
  · obtain ⟨hphase, hdocs⟩ := hstep.early hphase
    rw [hdocs, h.early hphase]
  · cases hstep with
    | setUp options huninitialized =>
      have hdocs := h.early huninitialized
      intro d hd
      cases options with
      | none => simp [document?, Server.setUp, hdocs] at hd
      | some settings =>
        obtain ⟨_, _, _, _, happly, -⟩ := s.applySettings_frame settings
        simp [document?, Server.setUp, happly, hdocs] at hd
    | notification n hinit =>
      exact Attends.notify (h.attends hinit) hfaithful.steady hfaithful.verdict n henabled uri
    | request r hinit =>
      have hpub := (s.answer_onlyLogs r).published? uri
      obtain ⟨_, _, hframe⟩ := s.answer_frame r
      rw [hframe] at henabled hpub ⊢
      exact (h.attends hinit henabled uri).of_frame rfl id (fun _ _ hmem => hmem) hpub
    | shutDown _ => cases hphase
    | hangUp _ => cases hphase
    | exit => cases hphase
    | validation uri' =>
      obtain ⟨_, _, _, _, hframe⟩ := s.launch_frame uri'
      have hphase : s.phase = .initialized := by
        rw [hframe] at hphase
        exact hphase
      have henabled : s.config.validation.enabled = true := by
        rw [hframe] at henabled
        exact henabled
      exact launch hfaithful htells hstored (.direct s uri') hphase
        (fun uri' _ => h.attends hphase henabled uri') uri
    | job front back item hagenda hfirst =>
      obtain ⟨_, _, _, _, _, hframe⟩ := (s.take item.due (front ++ back)).perform_frame item.job
      have hinit : s.phase = .initialized := by
        rw [hframe] at hphase
        exact hphase
      have hattends := h.attends hinit (by rw [hframe] at henabled; exact henabled)
      exact perform hfaithful htells hstored hinit hattends hagenda hfirst uri
    | time t _ => exact (h.attends hphase henabled uri).of_frame rfl id (fun _ _ hmem => hmem) rfl

end Settling

theorem settling_of_reaches {services : Registry σ μ} (hsteady : services.Steady) {events : List Event}
    {s : Server σ μ} (h : (boot services).Reaches events s) (htelling : Telling events) :
    Settling services s := by
  induction h with
  | nil => exact ⟨fun _ => rfl, fun hphase => by cases hphase⟩
  | snoc hreach hstep ih =>
    have htelling := htelling.of_snoc
    exact (ih htelling).step (faithful_of_reaches hsteady hreach htelling) htelling
      (fun uri d hd => mem_made_of_document? hreach hd) hstep

/-! ## The last word -/

/-- What a service has to say about a document: that it cannot be parsed, or what a validation finds
in it, whatever its settings and its number are. -/
inductive Verdict (v : Service σ μ) (d : Document) : List Diagnostic → Prop where
  | unparsed {f : Fault} (hp : v.parse d = .error f) : Verdict v d [parseFailure f]
  | found {m : μ} {findings : List Diagnostic} (hp : v.parse d = .ok m)
      (hf : ∀ settings number, (v.validate settings d m number).findings = some findings) :
      Verdict v d findings

theorem verdict_of_eq_some {services : Registry σ μ} (hsteady : services.Steady) {d : Document}
    {v : Service σ μ} (hv : services.forKind? d.kind = some v) {findings : List Diagnostic}
    (h : services.verdict d = some findings) : Verdict v d findings := by
  obtain ⟨find, hfind⟩ := hsteady d.kind v hv
  unfold Registry.verdict at h
  rw [hv] at h
  simp only at h
  cases hp : v.parse d with
  | error f =>
    rw [hp] at h
    cases f <;> cases h <;> exact .unparsed hp
  | ok m =>
    rw [hp] at h
    simp only [hfind, Option.some.injEq] at h
    refine .found hp fun settings number => ?_
    rw [hfind, h]

theorem isSome_verdict_iff {services : Registry σ μ} (hsteady : services.Steady) {d : Document}
    {v : Service σ μ} (hv : services.forKind? d.kind = some v) :
    (services.verdict d).isSome = true ↔ ∀ kind, v.parse d ≠ .error (.noLanguageService kind) := by
  obtain ⟨find, hfind⟩ := hsteady d.kind v hv
  unfold Registry.verdict
  rw [hv]
  simp only
  cases v.parse d with
  | error f => cases f <;> simp
  | ok m => simp [hfind]

/-- Overlapping validations settle. Before the session is shut down, whenever validation is on and
neither is one pending for an open document nor does one go on for it, what was published last is of
its current version and is what its service has to say about it. The one exception is a service that
fails to parse the document because it misses a service itself. -/
theorem settled_iff {services : Registry σ μ} (hsteady : services.Steady) {events : List Event}
    {s : Server σ μ} (hreach : (boot services).Reaches events s) (htelling : Telling events)
    (hphase : s.phase = .uninitialized ∨ s.phase = .initialized)
    (henabled : s.config.validation.enabled = true) {uri : String} {d : Document} {v : Service σ μ}
    (hd : s.document? uri = some d) (hv : services.forKind? d.kind = some v)
    (hpending : s.validations.isPending uri = false)
    (hended : ∀ due run, ⟨due, .resume run⟩ ∈ s.validations.agenda → run.document.uri ≠ uri) :
    (∃ findings, s.published? uri = some (findings, some d.version) ∧ Verdict v d findings) ↔
      ∀ kind, v.parse d ≠ .error (.noLanguageService kind) := by
  have hfaithful := faithful_of_reaches hsteady hreach htelling
  have hsettling := settling_of_reaches hsteady hreach htelling
  have hknown := mem_made_of_document? hreach hd
  rw [← isSome_verdict_iff hsteady hv]
  -- what was published for the version was found in the one revision of it
  have hlast {findings : List Diagnostic} (h : s.published? uri = some (findings, some d.version)) :
      services.verdict d = some findings := by
    obtain ⟨t, hmem⟩ := mem_sent_of_published? h
    obtain ⟨d', hknown', huri, hversion, hverdict⟩ := hfaithful.sent t uri findings d.version hmem
    have hsame : d' = d := htelling d' hknown' d hknown (huri.trans (uri_of_document? hd).symm) hversion
    rw [← hsame, hverdict]
  constructor
  · rintro ⟨findings, hpublished, -⟩
    rw [hlast hpublished]
    rfl
  · intro hsome
    rcases hphase with hphase | hphase
    · simp [document?, hsettling.early hphase] at hd
    · rcases hsettling.attends hphase henabled uri d hd hsome with hp | ⟨due, run, hmem, huri, -⟩ | hpub
      · rw [hpending] at hp
        cases hp
      · exact absurd huri (hended due run hmem)
      · obtain ⟨findings, hpublished⟩ := hpub
        exact ⟨findings, hpublished, verdict_of_eq_some hsteady hv (hlast hpublished)⟩

/-- Settings under which validations start soon and nothing is swept. -/
def brisk : Json :=
  .obj [("model_cache", .obj [("ttl_secs", .int 0)]), ("validation", .obj [("delay_ms", .int 50)])]

/-- A text is changed while its validation goes on, and the validation of the new words starts before
the first one ends. -/
def overlapping : List Event :=
  [.setUp (some brisk), .notification (.opened ⟨"a", "text", 1, "old"⟩), .job 0,
    .notification (.changed "a" 2 ["new"]), .job 1, .job 0, .job 0]

theorem steady_echoing : echoing.Steady := by
  intro kind v hv
  obtain rfl := List.mem_singleton.1 (Registry.mem_of_forKind? hv)
  exact ⟨fun _ text => [echo text], fun _ _ _ _ => rfl⟩

/-- The findings in the new words are the last to be published. -/
theorem settled_iff_overlapping :
    ∃ s : Server Unit String, (boot echoing).Reaches overlapping s ∧
      s.published? "a" = some ([echo "new"], some 2) := by
  obtain ⟨s, hreach, hphase, henabled, hd, hpending, hagenda⟩ : ∃ s : Server Unit String,
      (boot echoing).Reaches overlapping s ∧ s.phase = .initialized ∧
      s.config.validation.enabled = true ∧ s.document? "a" = some ⟨"a", "text", 2, "new"⟩ ∧
      s.validations.isPending "a" = false ∧ s.validations.agenda = [] :=
    ⟨_, .snoc (.snoc (.snoc (.snoc (.snoc (.snoc (.snoc .nil (.setUp _ rfl)) (.notification _ rfl))
        (.job [] [] ⟨50, .fire "a" 0 ()⟩ rfl (by decide))) (.notification _ rfl))
        (.job [⟨150, .resume ⟨0, ⟨"a", "text", 1, "old"⟩, some "echo", some [echo "old"]⟩⟩] []
          ⟨100, .fire "a" 1 ()⟩ rfl (by decide)))
        (.job [] [⟨200, .resume ⟨1, ⟨"a", "text", 2, "new"⟩, some "echo", some [echo "new"]⟩⟩]
          ⟨150, .resume ⟨0, ⟨"a", "text", 1, "old"⟩, some "echo", some [echo "old"]⟩⟩ rfl (by decide)))
        (.job [] [] ⟨200, .resume ⟨1, ⟨"a", "text", 2, "new"⟩, some "echo", some [echo "new"]⟩⟩ rfl
          (by decide)),
      rfl, rfl, rfl, rfl, rfl⟩
  have hended : ∀ due run, ⟨due, .resume run⟩ ∈ s.validations.agenda → run.document.uri ≠ "a" := by
    intro due run hmem
    rw [hagenda] at hmem
    cases hmem
  obtain ⟨findings, hlast, hverdict⟩ := (settled_iff steady_echoing hreach (by decide) (.inr hphase)
    henabled hd rfl hpending hended).2 fun kind hp => by cases hp
  refine ⟨s, hreach, ?_⟩
  rw [hlast]
  cases hverdict with
  | unparsed hp => cases hp
  | found hp hf =>
    cases hp
    rw [← Option.some.inj (hf () 0)]

/-- The services of a host that knows one kind of text, but not what is embedded in it. -/
def embedding : Registry Unit String :=
  ({} : Registry Unit String).register
    { id := "embed", displayName := "Embed", kinds := ["text"], settings := ()
      parse := fun _ => .error (.noLanguageService "embedded")
      validate := fun _ _ _ _ => { findings := some [] } }

/-- A text is opened and its validation comes due. -/
def validated : List Event :=
  [.setUp (some brisk), .notification (.opened ⟨"a", "text", 1, "x"⟩), .job 0]

/-- A run after which nothing is pending or going on for a text that cannot be parsed, and no finding
says so. -/
theorem parse_failure_unpublished :
    ∃ (s : Server Unit String) (v : Service Unit String),
      (boot embedding).Reaches validated s ∧ Telling validated ∧ embedding.Steady ∧
      s.phase = .initialized ∧ s.config.validation.enabled = true ∧
      s.document? "a" = some ⟨"a", "text", 1, "x"⟩ ∧ embedding.forKind? "text" = some v ∧
      v.parse ⟨"a", "text", 1, "x"⟩ = .error (.noLanguageService "embedded") ∧
      s.validations.isPending "a" = false ∧ s.validations.agenda = [] ∧ s.published? "a" = none := by
  have hsteady : embedding.Steady := by
    intro kind v hv
    obtain rfl := List.mem_singleton.1 (Registry.mem_of_forKind? hv)
    exact ⟨fun _ _ => [], fun _ _ _ _ => rfl⟩
  exact ⟨_, _, .snoc (.snoc (.snoc .nil (.setUp _ rfl)) (.notification _ rfl))
      (.job [] [] ⟨50, .fire "a" 0 ()⟩ rfl (by decide)),
    by decide, hsteady, rfl, rfl, rfl, rfl, rfl, rfl, rfl, rfl⟩

end LangHost.Server
