import LangHost.Proofs.Server.Convergence
import LangHost.Proofs.Server.Outdated
/-!
# Nothing is left of a closed document

Four things are kept by document: the text, a pending validation, a cached model, and what the
client was last told. Opening a document only adds to them and closing it takes all of them down.
In between, models are cached for open documents only, validations are asked for open documents
only, and a validation that ends after the closing finds no document and publishes nothing. So at
every moment of a run, whatever is kept beside the text belongs to an open document (`Tidy`).
-/

namespace LangHost.Server

variable {σ μ : Type} {s s' : Server σ μ}

/-! ## What a validation leaves behind -/

/-- A lookup caches nothing but a model of its own document. -/
theorem Lookup.key_of_mem {d : Document} {r : Except Fault (Service σ μ × Cache.Stamped μ)}
    (h : Lookup s d s' r) {e : Cache.Entry String μ} (he : e ∈ s'.models.entries) :
    e ∈ s.models.entries ∨ e.key = d.uri := by
  cases h with
  | unknown _ => exact .inl he
  | failed _ _ _ => exact .inl he
  | hit _ hhit =>
    rcases Cache.mem_of_mem_touch he with rfl | he
    · exact .inr (Cache.mem_of_hit? hhit).2.1
    · exact .inl he
  | parsed _ _ _ =>
    rcases Cache.mem_of_mem_keep he with rfl | he
    · exact .inr rfl
    · exact .inl he

theorem key_of_mem_launch {uri : String} {e : Cache.Entry String μ}
    (he : e ∈ (s.launch uri).models.entries) :
    e ∈ s.models.entries ∨ (s.document? e.key).isSome = true := by
  obtain ⟨_, _, _, _, hlaunch⟩ := s.launch_frame uri
  rw [hlaunch] at he
  cases hd : s.document? uri with
  | none => exact .inl (by simpa [startRun, hd] using he)
  | some d =>
    obtain ⟨_, _, hbegun⟩ :=
      (s.getModel d).1.begun_frame (startOf s.nextRun d (modelOf (s.getModel d).2))
    rw [(startRun_eq hd).2, hbegun] at he
    rcases (s.getModel_lookup d).key_of_mem he with he | hkey
    · exact .inl he
    · rw [hkey, uri_of_document? hd, hd]
      exact .inr rfl

/-- A validation that ends says nothing about documents that are not open. -/
theorem published?_finishRun_of_closed (run : Run) {uri : String} (h : s.document? uri = none) :
    (s.finishRun run).published? uri = s.published? uri := by
  unfold published?
  rcases s.finishRun_sent run with hsent | ⟨findings, -, hcurrent, hsent⟩
  · rw [hsent]
  · have hne : run.document.uri ≠ uri := by
      rintro rfl
      simp [isCurrent, h] at hcurrent
    simp [hsent, hne]

theorem published?_launch_of_closed (uri : String) {uri' : String} (h : s.document? uri' = none) :
    (s.launch uri).published? uri' = s.published? uri' := by
  rcases s.launch_notices uri with hlogs | ⟨run, -, heq⟩
  · exact hlogs.published? uri'
  · obtain ⟨_, _, _, _, hstart⟩ := s.startRun_frame uri
    have hclosed : (s.startRun uri).1.document? uri' = none := by
      rw [hstart]
      exact h
    rw [heq, published?_finishRun_of_closed run hclosed]
    exact (s.startRun_onlyLogs uri).published? uri'

/-! ## The invariant -/

/-- Whatever is kept beside the text belongs to an open document, and nothing is open before the
session starts. -/
structure Tidy (s : Server σ μ) : Prop where
  early : s.phase = .uninitialized → s.documents = []
  pending : ∀ uri, s.validations.isPending uri = true → (s.document? uri).isSome = true
  cached : ∀ e ∈ s.models.entries, (s.document? e.key).isSome = true
  cleared : ∀ uri findings version, s.document? uri = none →
    s.published? uri = some (findings, version) → findings = []

/-- No validation is pending while validation is off. -/
def Silent (s : Server σ μ) : Prop :=
  s.config.validation.enabled = false → ∀ uri, s.validations.isPending uri = false

namespace Tidy

theorem of_frame (h : Tidy s) (hphase : s'.phase = .uninitialized → s.phase = .uninitialized)
    (hd : s'.documents = s.documents)
    (hp : ∀ uri, s'.validations.isPending uri = true →
      s.validations.isPending uri = true ∨ (s.document? uri).isSome = true)
    (hm : ∀ e ∈ s'.models.entries, e ∈ s.models.entries ∨ (s.document? e.key).isSome = true)
    (hpub : ∀ uri, s.document? uri = none → s'.published? uri = s.published? uri) : Tidy s' := by
  have hdoc (uri : String) : s'.document? uri = s.document? uri := by simp only [document?, hd]
  refine ⟨fun hu => ?_, fun uri hpending => ?_, fun e he => ?_, fun uri findings version hno hlast => ?_⟩
  · rw [hd, h.early (hphase hu)]
  · rw [hdoc]
    rcases hp uri hpending with hpending | hopen
    · exact h.pending uri hpending
    · exact hopen
  · rw [hdoc]
    rcases hm e he with he | hopen
    · exact h.cached e he
    · exact hopen
  · rw [hdoc] at hno
    rw [hpub uri hno] at hlast
    exact h.cleared uri findings version hno hlast

theorem log (h : Tidy s) (severity : Severity) (text : String) : Tidy (s.log severity text) := by
  have hlogs := s.log_onlyLogs severity text
  obtain ⟨sent, hs⟩ := s.log_frame severity text
  rw [hs] at hlogs ⊢
  exact h.of_frame id rfl (fun _ hp => .inl hp) (fun _ he => .inl he)
    (fun uri _ => hlogs.published? uri)

theorem getModel (h : Tidy s) {uri : String} {d : Document} (hd : s.document? uri = some d) :
    Tidy (s.getModel d).1 := by
  have hlogs := s.getModel_onlyLogs d
  have hlookup := s.getModel_lookup d
  obtain ⟨models, history, hs⟩ := s.getModel_frame d
  rw [hs] at hlogs hlookup ⊢
  refine h.of_frame id rfl (fun _ hp => .inl hp) (fun e he => ?_) (fun uri _ => hlogs.published? uri)
  rcases hlookup.key_of_mem he with he | hkey
  · exact .inl he
  · rw [hkey, uri_of_document? hd, hd]
    exact .inr rfl

theorem launch (h : Tidy s) (uri : String) : Tidy (s.launch uri) := by
  have hmodels : ∀ e ∈ (s.launch uri).models.entries,
      e ∈ s.models.entries ∨ (s.document? e.key).isSome = true := fun _ he => key_of_mem_launch he
  have hpublished : ∀ uri', s.document? uri' = none →
      (s.launch uri).published? uri' = s.published? uri' :=
    fun _ hno => published?_launch_of_closed uri hno
  obtain ⟨_, _, _, _, hs⟩ := s.launch_frame uri
  rw [hs] at hmodels hpublished ⊢
  exact h.of_frame id rfl (fun _ hp => .inl hp) hmodels hpublished

/-- Work that comes due is taken out of the agenda, and sweeps go on until then. -/
theorem take (h : Tidy s) (due : Nat) (rest : Agenda (Debouncer.Job String Unit Run)) :
    Tidy (s.take due rest) :=
  h.of_frame id rfl (fun _ hp => .inl hp) (fun _ he => .inl (Cache.mem_of_mem_advance he))
    (fun _ _ => rfl)

theorem perform (h : Tidy s) (job : Debouncer.Job String Unit Run) : Tidy (s.perform job) := by
  cases job with
  | resume run =>
    have hpublished : ∀ uri, s.document? uri = none →
        (s.finishRun run).published? uri = s.published? uri :=
      fun _ hno => published?_finishRun_of_closed run hno
    obtain ⟨_, _, hs⟩ := s.finishRun_frame run
    simp only [Server.perform]
    rw [hs] at hpublished ⊢
    exact h.of_frame id rfl (fun _ hp => .inl hp) (fun _ he => .inl he) hpublished
  | fire uri id action =>
    rw [perform_fire]
    split
    · exact h
    · rename_i ledger hredeem
      obtain ⟨-, rfl⟩ := Ledger.redeem?_eq_some.1 hredeem
      refine launch ?_ uri
      refine h.of_frame (fun hu => hu) rfl (fun uri' hp => .inl ?_) (fun _ he => .inl he)
        (fun _ _ => rfl)
      exact (Ledger.isPending_erase.1 hp).2

/-! ### Messages of the client -/

theorem schedule (h : Tidy s) (v : ValidationConfig) (uri : String) : Tidy (s.schedule v uri) := by
  have hpending := s.isPending_schedule v uri
  obtain ⟨_, hs⟩ := s.schedule_frame v uri
  rw [hs] at hpending ⊢
  refine h.of_frame id rfl (fun uri' hp => ?_) (fun _ he => .inl he) (fun _ _ => rfl)
  rw [hpending, Bool.or_eq_true] at hp
  rcases hp with hp | hp
  · exact .inl hp
  · right
    simp only [Bool.and_eq_true, decide_eq_true_eq] at hp
    obtain ⟨⟨rfl, -⟩, hopen⟩ := hp
    cases hd : s.document? uri' with
    | none => simp [hd] at hopen
    | some d => rfl

theorem scheduleAll (h : Tidy s) (v : ValidationConfig) (uris : List String) :
    Tidy (uris.foldl (fun s uri => s.schedule v uri) s) := by
  induction uris generalizing s with
  | nil => exact h
  | cons uri uris ih => exact ih (h.schedule v uri)

theorem cancelAll (h : Tidy s) : Tidy { s with validations := s.validations.cancelAll } :=
  h.of_frame id rfl (fun _ hp => by cases hp) (fun _ he => .inl he) (fun _ _ => rfl)

theorem revalidate (h : Tidy s) (v : ValidationConfig) : Tidy (s.revalidate v) := by
  unfold Server.revalidate
  split
  · exact h.scheduleAll v _
  · exact h.cancelAll

theorem putDocument (h : Tidy s) (hphase : s.phase = .initialized) (d : Document) :
    Tidy (s.putDocument d) := by
  have hopen {uri : String} (ho : (s.document? uri).isSome = true) :
      ((s.putDocument d).document? uri).isSome = true := by
    rw [document?_putDocument]
    split
    · rfl
    · exact ho
  refine ⟨fun hu => ?_, fun uri hp => hopen (h.pending uri hp), fun e he => hopen (h.cached e he),
    fun uri findings version hno hlast => ?_⟩
  · have hu : s.phase = .uninitialized := hu
    rw [hphase] at hu
    cases hu
  · rw [document?_putDocument] at hno
    split at hno
    · cases hno
    · exact h.cleared uri findings version hno hlast

/-- Closing takes down everything that is kept for a document. -/
theorem closeDocument (h : Tidy s) (hphase : s.phase = .initialized) (uri : String) :
    Tidy (s.closeDocument uri) := by
  have hdoc (uri' : String) :
      (s.closeDocument uri).document? uri' = if uri = uri' then none else s.document? uri' := by
    obtain ⟨_, _, hframe⟩ := s.closeDocument_frame uri
    rw [← document?_dropDocument, hframe]
    rfl
  refine ⟨fun hu => ?_, fun uri' hp => ?_, fun e he => ?_, fun uri' findings version hno hlast => ?_⟩
  · obtain ⟨_, _, hframe⟩ := s.closeDocument_frame uri
    rw [hframe] at hu
    have hu : s.phase = .uninitialized := hu
    rw [hphase] at hu
    cases hu
  · simp only [Server.closeDocument, publish, validations_send] at hp
    obtain ⟨hne, hp⟩ := Ledger.isPending_erase.1 hp
    rw [hdoc, if_neg (Ne.symm hne)]
    exact h.pending uri' hp
  · obtain ⟨_, _, hframe⟩ := s.closeDocument_frame uri
    rw [hframe] at he
    obtain ⟨he, hne⟩ := Cache.mem_remove.1 he
    rw [hdoc, if_neg (Ne.symm hne)]
    exact h.cached e he
  · by_cases hu : uri' = uri
    · -- the client was told last that the document has no findings
      subst hu
      have hsent : (s.closeDocument uri').published? uri' = some ([], none) := by
        simp [Server.closeDocument, published?, publish, send, dropModel, cancelValidation,
          Server.dropDocument, hphase, Phase.admits]
      rw [hsent] at hlast
      cases hlast
      rfl
    · rw [hdoc, if_neg (Ne.symm hu)] at hno
      rw [s.published?_closeDocument_of_ne hu] at hlast
      exact h.cleared uri' findings version hno hlast

theorem applySettings (h : Tidy s) (settings : Json) : Tidy (s.applySettings settings) := by
  have hlogs := s.applySettings_onlyLogs settings
  obtain ⟨_, _, _, _, hs, hmodels⟩ := s.applySettings_frame settings
  rw [hs] at hlogs ⊢
  exact h.of_frame id rfl (fun _ hp => .inl hp) (fun e he => .inl (hmodels e he))
    (fun uri _ => hlogs.published? uri)

theorem notify (h : Tidy s) (hphase : s.phase = .initialized) (n : Notification) :
    Tidy (s.notify n) := by
  cases n with
  | initialized => exact h.log .info _
  | opened d =>
    simp only [Server.notify, openDocument]
    split
    · exact (h.putDocument hphase d).schedule _ _
    · exact (h.putDocument hphase d).log .warning _
  | changed uri version texts =>
    simp only [Server.notify, changeDocument]
    split
    · exact h
    · split
      · exact h
      · exact (h.putDocument hphase _).schedule _ _
  | closed uri => exact h.closeDocument hphase uri
  | configured settings => exact (h.applySettings settings).revalidate _

theorem step (h : Tidy s) {e : Event} (hstep : Step s e s') : Tidy s' := by
  cases hstep with
  | setUp options _ =>
    have hset : Tidy (s.setUp options) := by
      cases options with
      | none => exact h
      | some settings => exact h.applySettings settings
    exact hset.of_frame (fun hu => by cases hu) rfl (fun _ hp => .inl hp) (fun _ he => .inl he)
      (fun _ _ => rfl)
  | notification n hphase => exact h.notify hphase n
  | request r _ =>
    cases hd : s.document? r.uri with
    | none => simpa [answer, hd] using h
    | some d =>
      rw [answer_eq hd]
      exact h.getModel hd
  | shutDown _ =>
    exact h.of_frame (fun hu => by cases hu) rfl (fun _ hp => by cases hp)
      (fun _ he => .inl (Cache.mem_of_mem_dispose he)) (fun _ _ => rfl)
  | hangUp _ =>
    exact h.of_frame (fun hu => by cases hu) rfl (fun _ hp => .inl hp) (fun _ he => .inl he)
      (fun _ _ => rfl)
  | exit =>
    exact h.of_frame (fun hu => by cases hu) rfl (fun _ hp => .inl hp) (fun _ he => .inl he)
      (fun _ _ => rfl)
  | validation uri => exact h.launch uri
  | job front back item _ _ => exact (h.take item.due (front ++ back)).perform item.job
  | time t _ =>
    exact h.of_frame id rfl (fun _ hp => .inl hp) (fun _ he => .inl (Cache.mem_of_mem_advance he))
      (fun _ _ => rfl)

end Tidy

namespace Silent

theorem of_frame (h : Silent s) (hc : s'.config = s.config)
    (hp : ∀ uri, s'.validations.isPending uri = true → s.validations.isPending uri = true) :
    Silent s' := by
  intro hoff uri
  rw [hc] at hoff
  have hnone := h hoff uri
  cases hpending : s'.validations.isPending uri with
  | false => rfl
  | true => rw [hp uri hpending] at hnone; cases hnone

/-- While validation is off, nothing is asked for. -/
theorem schedule (h : Silent s) (uri : String) : Silent (s.schedule s.config.validation uri) := by
  have hpending := s.isPending_schedule s.config.validation uri
  obtain ⟨_, hs⟩ := s.schedule_frame s.config.validation uri
  rw [hs] at hpending ⊢
  intro hoff uri'
  have hoff : s.config.validation.enabled = false := hoff
  rw [hpending, h hoff uri', hoff]
  simp

theorem launch (h : Silent s) (uri : String) : Silent (s.launch uri) := by
  obtain ⟨_, _, _, _, hs⟩ := s.launch_frame uri
  rw [hs]
  exact h.of_frame rfl fun _ hp => hp

theorem perform (h : Silent s) (job : Debouncer.Job String Unit Run) : Silent (s.perform job) := by
  cases job with
  | resume run =>
    obtain ⟨_, _, hs⟩ := s.finishRun_frame run
    simp only [Server.perform]
    rw [hs]
    exact h.of_frame rfl fun _ hp => hp
  | fire uri id action =>
    rw [perform_fire]
    split
    · exact h
    · rename_i ledger hredeem
      obtain ⟨-, rfl⟩ := Ledger.redeem?_eq_some.1 hredeem
      refine launch ?_ uri
      refine h.of_frame rfl fun uri' hp => ?_
      exact (Ledger.isPending_erase.1 hp).2

/-- Once a configuration has been put in force, no validation is pending against it. -/
theorem revalidate (s : Server σ μ) : Silent (s.revalidate s.config.validation) := by
  intro hoff uri
  obtain ⟨_, hs⟩ := s.revalidate_frame s.config.validation
  rw [hs] at hoff
  have hoff : s.config.validation.enabled = false := hoff
  unfold Server.revalidate
  rw [hoff]
  rfl

theorem notify (h : Silent s) (n : Notification) : Silent (s.notify n) := by
  cases n with
  | initialized =>
    obtain ⟨_, hs⟩ := s.log_frame .info "genls ready"
    simp only [Server.notify]
    rw [hs]
    exact h.of_frame rfl fun _ hp => hp
  | opened d =>
    have hput : Silent (s.putDocument d) := h.of_frame rfl fun _ hp => hp
    simp only [Server.notify, openDocument]
    split
    · exact hput.schedule d.uri
    · rename_i f _
      obtain ⟨_, hs⟩ := (s.putDocument d).log_frame .warning f.message
      rw [hs]
      exact hput.of_frame rfl fun _ hp => hp
  | changed uri version texts =>
    simp only [Server.notify, changeDocument]
    split
    · exact h
    · split
      · exact h
      · rename_i text _ _ d _
        have hput : Silent (s.putDocument (d.update version text)) := h.of_frame rfl fun _ hp => hp
        exact hput.schedule uri
  | closed uri =>
    refine h.of_frame ?_ fun uri' hp => ?_
    · obtain ⟨_, _, hs⟩ := s.closeDocument_frame uri
      simp only [Server.notify]
      rw [hs]
      rfl
    · simp only [Server.notify, closeDocument, publish, validations_send] at hp
      exact (Ledger.isPending_erase.1 hp).2
  | configured settings => exact revalidate _

theorem step (h : Silent s) (ht : Tidy s) {e : Event} (hstep : Step s e s') : Silent s' := by
  cases hstep with
  | setUp options hphase =>
    -- nothing is open yet, so nothing is pending
    intro _ uri
    have hvalidations : (s.setUp options).validations = s.validations := by
      cases options with
      | none => rfl
      | some settings =>
        obtain ⟨_, _, _, _, hs, -⟩ := s.applySettings_frame settings
        simp only [Server.setUp, hs]
    cases hp : s.validations.isPending uri with
    | false => exact hvalidations ▸ hp
    | true =>
      have hopen := ht.pending uri hp
      simp [document?, ht.early hphase] at hopen
  | notification n _ => exact h.notify n
  | request r _ =>
    obtain ⟨_, _, hs⟩ := s.answer_frame r
    rw [hs]
    exact h.of_frame rfl fun _ hp => hp
  | shutDown _ => exact h.of_frame rfl fun _ hp => by cases hp
  | hangUp _ => exact h.of_frame rfl fun _ hp => hp
  | exit => exact h.of_frame rfl fun _ hp => hp
  | validation uri => exact h.launch uri
  | job front back item _ _ =>
    have htake : Silent (s.take item.due (front ++ back)) := h.of_frame rfl fun _ hp => hp
    exact htake.perform item.job
  | time t _ => exact h.of_frame rfl fun _ hp => hp

end Silent

theorem tidy_boot (services : Registry σ μ) : Tidy (boot services) where
  early _ := rfl
  pending _ hp := by cases hp
  cached _ he := by cases he
  cleared _ _ _ _ hlast := by cases hlast

/-- Both hold at every moment of a run. -/
theorem tidy_of_reaches {services : Registry σ μ} {events : List Event}
    (h : (boot services).Reaches events s) : Tidy s ∧ Silent s := by
  induction h with
  | nil => exact ⟨tidy_boot services, fun _ _ => rfl⟩
  | snoc _ hstep ih => exact ⟨ih.1.step hstep, ih.2.step ih.1 hstep⟩

/-- At every moment of every run, each pending validation and each cached model belongs to an open
document, nothing is pending while validation is off, and the findings last published for a document
that is not open are none. -/
theorem nothing_kept_of_closed {services : Registry σ μ} {events : List Event}
    (h : (boot services).Reaches events s) :
    (∀ uri, s.validations.isPending uri = true → ∃ d, s.document? uri = some d) ∧
      (∀ uri, s.models.contains uri = true → ∃ d, s.document? uri = some d) ∧
      (s.config.validation.enabled = false →
        s.validations.pendingCount = 0 ∧ ∀ uri, s.validations.isPending uri = false) ∧
      ∀ uri findings version, s.document? uri = none →
        s.published? uri = some (findings, version) → findings = [] := by
  obtain ⟨htidy, hsilent⟩ := tidy_of_reaches h
  refine ⟨fun uri hp => ?_, fun uri hc => ?_, fun hoff => ⟨?_, hsilent hoff⟩, htidy.cleared⟩
  · exact Option.isSome_iff_exists.1 (htidy.pending uri hp)
  · obtain ⟨e, he, rfl⟩ := Cache.contains_iff.1 hc
    exact Option.isSome_iff_exists.1 (htidy.cached e he)
  · exact Ledger.count_eq_zero (hsilent hoff)

/-- A text is closed while its validation goes on, and the validation ends after that. -/
theorem nothing_kept_of_closed_late :
    ∃ s : Server Unit String,
      (boot echoing).Reaches (opening ++ [.notification (.closed "a"), .job 0]) s ∧
      s.document? "a" = none ∧ s.validations.isPending "a" = false ∧ s.models.contains "a" = false ∧
      ∃ version, s.published? "a" = some ([], version) := by
  obtain ⟨s, hreach, hdoc, findings, version, hlast⟩ : ∃ s : Server Unit String,
      (boot echoing).Reaches (opening ++ [.notification (.closed "a"), .job 0]) s ∧
      s.document? "a" = none ∧ ∃ findings version, s.published? "a" = some (findings, version) :=
    ⟨_, .snoc (.snoc (.snoc (.snoc (.snoc .nil (.setUp _ rfl)) (.notification _ rfl)) (.validation _))
        (.notification _ rfl))
      (.job [] [] ⟨100, .resume ⟨0, ⟨"a", "text", 1, "old"⟩, some "echo", some [echo "old"]⟩⟩ rfl
        (by decide)),
      rfl, _, _, rfl⟩
  obtain ⟨hpending, hcached, -, hcleared⟩ := nothing_kept_of_closed hreach
  obtain rfl := hcleared "a" findings version hdoc hlast
  refine ⟨s, hreach, hdoc, ?_, ?_, version, hlast⟩
  · refine Bool.eq_false_iff.2 fun hp => ?_
    obtain ⟨d, hd⟩ := hpending "a" hp
    rw [hdoc] at hd
    cases hd
  · refine Bool.eq_false_iff.2 fun hc => ?_
    obtain ⟨d, hd⟩ := hcached "a" hc
    rw [hdoc] at hd
    cases hd

end LangHost.Server
