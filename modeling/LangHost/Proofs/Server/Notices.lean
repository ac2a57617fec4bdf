import LangHost.Proofs.Server.Frame
/-!
# What the client is told

Findings are published in two places only: at the end of a validation, and, with nothing in them,
at the closing of a document. Everything else that happens leaves at most lines in the log
(`Step.notices`).
-/

namespace LangHost.Server

variable {σ μ : Type}

/-- Nothing but lines of the log was sent from `s` to `s'`. -/
def OnlyLogs (s s' : Server σ μ) : Prop :=
  ∃ new, s'.sent = new ++ s.sent ∧ ∀ x ∈ new, ∃ severity text, x.notice = .log severity text

namespace OnlyLogs

variable {s s' s'' : Server σ μ}

theorem of_eq (h : s'.sent = s.sent) : OnlyLogs s s' := ⟨[], h, by simp⟩

theorem trans (h : OnlyLogs s s') (h' : OnlyLogs s' s'') : OnlyLogs s s'' := by
  obtain ⟨new, hs, hnew⟩ := h
  obtain ⟨new', hs', hnew'⟩ := h'
  refine ⟨new' ++ new, by rw [hs', hs, List.append_assoc], fun x hx => ?_⟩
  rcases List.mem_append.1 hx with hx | hx
  · exact hnew' x hx
  · exact hnew x hx

end OnlyLogs

theorem log_onlyLogs (s : Server σ μ) (severity : Severity) (text : String) :
    OnlyLogs s (s.log severity text) := by
  unfold log send
  split
  · exact ⟨[⟨s.clock, .log severity text⟩], rfl, by simp⟩
  · exact .of_eq rfl

theorem openDocument_onlyLogs (s : Server σ μ) (d : Document) : OnlyLogs s (s.openDocument d) := by
  simp only [openDocument]
  split
  · obtain ⟨_, h⟩ := (s.putDocument d).schedule_frame (s.putDocument d).config.validation d.uri
    exact .of_eq (by rw [h]; rfl)
  · exact .trans (.of_eq rfl) ((s.putDocument d).log_onlyLogs .warning _)

theorem changeDocument_onlyLogs (s : Server σ μ) (uri : String) (version : Int) (text : String) :
    OnlyLogs s (s.changeDocument uri version text) := by
  cases hd : s.document? uri with
  | none => exact .of_eq (by simp [changeDocument, hd])
  | some d =>
    obtain ⟨_, h⟩ := changeDocument_frame hd version text
    exact .of_eq (by rw [h]; rfl)

theorem applySettings_onlyLogs (s : Server σ μ) (settings : Json) :
    OnlyLogs s (s.applySettings settings) := by
  cases h : Config.decode settings with
  | ok config =>
    obtain ⟨_, hs⟩ := s.applySettings_ok h
    exact .of_eq (by rw [hs])
  | error e =>
    obtain ⟨_, hs⟩ := s.applySettings_error h
    exact (s.log_onlyLogs .warning _).trans (.of_eq (by rw [hs]))

theorem revalidate_onlyLogs (s : Server σ μ) (v : ValidationConfig) : OnlyLogs s (s.revalidate v) := by
  obtain ⟨_, h⟩ := s.revalidate_frame v
  exact .of_eq (by rw [h])

theorem getModel_onlyLogs (s : Server σ μ) (d : Document) : OnlyLogs s (s.getModel d).1 := by
  obtain ⟨_, _, h⟩ := s.getModel_frame d
  exact .of_eq (by rw [h])

theorem answer_onlyLogs (s : Server σ μ) (r : Request) : OnlyLogs s (s.answer r).1 := by
  cases hd : s.document? r.uri with
  | none => exact .of_eq (by simp [answer, hd])
  | some d => rw [answer_eq hd]; exact s.getModel_onlyLogs d

theorem startRun_onlyLogs (s : Server σ μ) (uri : String) : OnlyLogs s (s.startRun uri).1 := by
  cases hd : s.document? uri with
  | none => exact .of_eq (by simp [startRun, hd])
  | some d =>
    rw [(startRun_eq hd).2]
    refine (s.getModel_onlyLogs d).trans ?_
    cases startOf s.nextRun d (modelOf (s.getModel d).2) with
    | closed => exact .of_eq rfl
    | refused f => exact log_onlyLogs _ _ _
    | running _ _ => exact .of_eq rfl

/-- A validation that starts leaves lines in the log, unless it ends at once. -/
theorem launch_notices (s : Server σ μ) (uri : String) :
    OnlyLogs s (s.launch uri) ∨
      ∃ run, (s.startRun uri).2 = .running 0 run ∧ s.launch uri = (s.startRun uri).1.finishRun run := by
  have hstart := s.startRun_onlyLogs uri
  unfold launch
  cases (s.startRun uri).2 with
  | closed => exact .inl hstart
  | refused f => exact .inl hstart
  | running duration run =>
    by_cases hduration : duration = 0
    · subst hduration
      exact .inr ⟨run, rfl, rfl⟩
    · left
      simp only [continueRun, hduration, if_false]
      exact hstart.trans (.of_eq rfl)

/-- What an event sends: lines of the log, or the empty findings of a document that was closed, or
what a validation ends with. -/
theorem Step.notices {s s' : Server σ μ} {e : Event} (h : Step s e s') :
    OnlyLogs s s' ∨ (∃ uri, e = .notification (.closed uri)) ∨
      ∃ s₁ run, Ends s e s₁ run ∧ OnlyLogs s s₁ ∧ s' = s₁.finishRun run := by
  cases h with
  | setUp options _ =>
    left
    cases options with
    | none => exact .of_eq rfl
    | some settings => exact (s.applySettings_onlyLogs settings).trans (.of_eq rfl)
  | notification n _ =>
    cases n with
    | initialized => exact .inl (s.log_onlyLogs .info _)
    | opened d => exact .inl (s.openDocument_onlyLogs d)
    | changed uri version texts =>
      left
      simp only [notify]
      split
      · exact .of_eq rfl
      · exact s.changeDocument_onlyLogs uri version _
    | closed uri => exact .inr (.inl ⟨uri, rfl⟩)
    | configured settings =>
      exact .inl ((s.applySettings_onlyLogs settings).trans (revalidate_onlyLogs _ _))
  | request r _ => exact .inl (s.answer_onlyLogs r)
  | shutDown _ => exact .inl (.of_eq rfl)
  | hangUp _ => exact .inl (.of_eq rfl)
  | exit => exact .inl (.of_eq rfl)
  | validation uri =>
    rcases s.launch_notices uri with hlogs | ⟨run, hrun, heq⟩
    · exact .inl hlogs
    · exact .inr (.inr ⟨_, run, .atOnce (.direct s uri) hrun, s.startRun_onlyLogs uri, heq⟩)
  | job front back item hagenda hfirst =>
    obtain ⟨due, job⟩ := item
    cases job with
    | resume run => exact .inr (.inr ⟨_, run, .later hagenda hfirst, .of_eq rfl, rfl⟩)
    | fire uri id action =>
      simp only [perform_fire]
      cases hr : s.validations.ledger.redeem? uri id with
      | none =>
        simp only [take, hr]
        exact .inl (.of_eq rfl)
      | some ledger =>
        simp only [take, hr]
        have hstarts := Starts.due hagenda hfirst hr
        rcases launch_notices _ uri with hlogs | ⟨run, hrun, heq⟩
        · exact .inl (.trans (.of_eq rfl) hlogs)
        · exact .inr (.inr ⟨_, run, .atOnce hstarts hrun,
            .trans (.of_eq rfl) (startRun_onlyLogs _ uri), heq⟩)
  | time t _ => exact .inl (.of_eq rfl)

/-- The end of a validation sends its findings, if it has any and they are not outdated. -/
theorem finishRun_sent (s : Server σ μ) (run : Run) :
    (s.finishRun run).sent = s.sent ∨
      ∃ findings, run.findings = some findings ∧ s.isCurrent run.document = true ∧
        (s.finishRun run).sent =
          ⟨s.clock, .diagnostics run.document.uri findings (some run.document.version)⟩ :: s.sent := by
  obtain ⟨_, h⟩ := s.finishRun_eq run
  rw [h]
  simp only [released]
  cases run.findings with
  | none => exact .inl rfl
  | some findings =>
    by_cases hcurrent : s.isCurrent run.document
    · simp only [hcurrent, if_true, publish, send]
      split
      · exact .inr ⟨findings, rfl, trivial, rfl⟩
      · exact .inl rfl
    · simp [hcurrent]

theorem closeDocument_sent (s : Server σ μ) (uri : String) :
    (s.closeDocument uri).sent = s.sent ∨
      (s.closeDocument uri).sent = ⟨s.clock, .diagnostics uri [] none⟩ :: s.sent := by
  simp only [closeDocument, publish, send]
  split
  · exact .inr rfl
  · exact .inl rfl

/-- Findings of a version are published at the end of a validation that is not outdated. -/
theorem Step.published {s s' : Server σ μ} {e : Event} (h : Step s e s') {new : List Sent}
    (hnew : s'.sent = new ++ s.sent) {t : Nat} {uri : String} {findings : List Diagnostic}
    {version : Int} (hmem : ⟨t, .diagnostics uri findings (some version)⟩ ∈ new) :
    ∃ s₁ run, Ends s e s₁ run ∧ s' = s₁.finishRun run ∧ s₁.isCurrent run.document = true ∧
      run.findings = some findings ∧ run.document.uri = uri ∧ run.document.version = version := by
  have hlogs {s₁ : Server σ μ} {new' : List Sent} (hlogs : OnlyLogs s s₁) (heq : s₁.sent = new' ++ s.sent)
      (hmem : ⟨t, .diagnostics uri findings (some version)⟩ ∈ new') : False := by
    obtain ⟨logs, hsent, hall⟩ := hlogs
    rw [heq, List.append_cancel_right_eq] at hsent
    subst hsent
    obtain ⟨_, _, hlog⟩ := hall _ hmem
    cases hlog
  rcases h.notices with hs | ⟨uri', rfl⟩ | ⟨s₁, run, hends, hs, rfl⟩
  · exact (hlogs hs hnew hmem).elim
  · cases h with | notification _ _ =>
    rcases s.closeDocument_sent uri' with hsent | hsent <;> simp only [notify, hsent] at hnew
    · obtain rfl := List.self_eq_append_left.1 hnew
      cases hmem
    · rw [← List.singleton_append, List.append_cancel_right_eq] at hnew
      subst hnew
      simp at hmem
  · refine ⟨s₁, run, hends, rfl, ?_⟩
    obtain ⟨logs, hsent, hall⟩ := hs
    rcases s₁.finishRun_sent run with hsent' | ⟨findings', hf, hcurrent, hsent'⟩
    · rw [hsent'] at hnew
      exact (hlogs ⟨logs, hsent, hall⟩ hnew hmem).elim
    · rw [hsent', hsent, ← List.cons_append, List.append_cancel_right_eq] at hnew
      subst hnew
      rcases List.mem_cons.1 hmem with heq | hmem
      · cases heq
        exact ⟨hcurrent, hf, rfl, rfl⟩
      · exact (hlogs ⟨logs, hsent, hall⟩ hsent hmem).elim

end LangHost.Server
