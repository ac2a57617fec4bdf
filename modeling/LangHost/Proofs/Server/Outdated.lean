import LangHost.Proofs.Server.Notices
import LangHost.Proofs.Server.Transparency
/-!
# Findings that are published late

A validation works on a snapshot, and when it ends it looks at the version of the stored document
to see whether its findings are outdated. Between the opening and the closing of a document its
version tells its text, so late findings are those of the stored text as long as the document was
not closed in between. A document that was closed and opened again can have the version of the
snapshot and another text, and then the findings published are those of the old text.
-/

namespace LangHost.Server

variable {σ μ : Type}

/-! ## Where a validation comes from -/

/-- `Origin services events between run`: of the events, one started the validation `run` of the
revision stored then, the ones `between` came after it, and the findings of `run` are what the
services made of that revision's text. -/
inductive Origin (services : Registry σ μ) : List Event → List Event → Run → Prop where
  | mk {before between : List Event} {e : Event} {s s₁ : Server σ μ} {run : Run} {duration : Nat}
      (reach : (boot services).Reaches before s) (starts : Starts s e s₁ run.document.uri)
      (stored : s₁.document? run.document.uri = some run.document)
      (made : startOf s₁.nextRun run.document (s₁.parsed run.document) = .running duration run) :
      Origin services (before ++ e :: between) between run

theorem Origin.snoc {services : Registry σ μ} {events between : List Event} {run : Run}
    (h : Origin services events between run) (e : Event) :
    Origin services (events ++ [e]) (between ++ [e]) run := by
  cases h with
  | mk reach starts stored made =>
    rw [List.append_assoc, List.cons_append]
    exact .mk reach starts stored made

theorem Origin.subset {services : Registry σ μ} {events between : List Event} {run : Run}
    (h : Origin services events between run) : between ⊆ events := by
  cases h with
  | mk _ _ _ _ => exact fun e he => List.mem_append_right _ (List.mem_cons_of_mem _ he)

/-- A validation that has just started works on the stored revision. -/
theorem Sound.origin {services : Registry σ μ} {events : List Event} {s s₁ : Server σ μ} {e : Event}
    {uri : String} {duration : Nat} {run : Run} (h : Sound (revisions events) s)
    (reach : (boot services).Reaches events s) (hs : Starts s e s₁ uri)
    (hr : (s₁.startRun uri).2 = .running duration run) :
    run.document.uri = uri ∧ s₁.document? uri = some run.document ∧
      Origin services (events ++ [e]) [] run := by
  have hd := document_of_startRun hr
  have huri : run.document.uri = uri := uri_of_document? hd
  rw [(startRun_eq hd).1, (h.starts hs).getModel_eq hd] at hr
  refine ⟨huri, hd, ?_⟩
  rw [← huri] at hs hd
  exact .mk reach hs hd hr

/-! ## A revision is remembered until the closing -/

theorem Revisions.mem_after {p : Int → List Int → Prop} {c : Revisions} {e : Event} {uri : String}
    {d : Document} (hd : d ∈ c uri) (ha : c.Admits p e) (he : e ≠ .notification (.closed uri)) :
    d ∈ c.after e uri := by
  unfold Revisions.after
  split
  · rename_i d'
    by_cases hu : uri = d'.uri
    · -- what is open is not opened
      have hclosed : c d'.uri = [] := ha
      rw [hu, hclosed] at hd
      cases hd
    · simpa [hu] using hd
  · rename_i uri' version texts
    cases texts.getLast? with
    | none => exact hd
    | some text =>
      by_cases hu : uri = uri'
      · subst hu
        cases hc : c uri with
        | nil => simp [hc] at hd
        | cons d' rest => simpa [hc] using .inr (List.mem_cons.1 (hc ▸ hd))
      · cases c uri' with
        | nil => exact hd
        | cons d' rest => simpa [hu] using hd
  · rename_i uri'
    have hu : uri ≠ uri' := by rintro rfl; exact he rfl
    simpa [hu] using hd
  · exact hd

theorem Starts.after {s s₁ : Server σ μ} {e : Event} {uri : String} (h : Starts s e s₁ uri)
    (c : Revisions) : c.after e = c := by
  cases h <;> rfl

/-- Every validation that goes on has its origin, and the revision it works on is one since the
opening unless the document was closed in between. -/
def Traced (services : Registry σ μ) (events : List Event) (s : Server σ μ) : Prop :=
  ∀ due run, ⟨due, .resume run⟩ ∈ s.validations.agenda → ∃ between,
    Origin services events between run ∧
      (.notification (.closed run.document.uri) ∉ between →
        run.document ∈ revisions events run.document.uri)

theorem traced_of_reaches {services : Registry σ μ} {events : List Event} {s : Server σ μ}
    (h : (boot services).Reaches events s) (hd : Distinct events) : Traced services events s := by
  induction h with
  | nil => exact fun due run hmem => by cases hmem
  | @snoc events e s s' hreach hstep ih =>
    obtain ⟨hd, ha⟩ := orderly_snoc.1 hd
    have hsound := sound_of_reaches hreach hd
    intro due run hmem
    rw [revisions_snoc]
    rcases hstep.mem_of_mem_agenda hmem with hmem | ⟨s₁, uri, duration, hstarts, -, hrun⟩
    · -- it went on before, and `e` came after its start
      obtain ⟨between, horigin, hopen⟩ := ih hd due run hmem
      refine ⟨between ++ [e], horigin.snoc e, fun hno => ?_⟩
      simp only [List.mem_append, List.mem_singleton, not_or] at hno
      exact Revisions.mem_after (hopen hno.1) ha (Ne.symm hno.2)
    · -- it has just started, on the revision that is stored
      obtain ⟨huri, hstored, horigin⟩ := hsound.origin hreach hstarts hrun
      refine ⟨[], horigin, fun _ => ?_⟩
      rw [hstarts.after, huri]
      exact (hsound.starts hstarts).mem_revisions hstored

/-! ## What is published -/

theorem document?_finishRun (s : Server σ μ) (run : Run) (uri : String) :
    (s.finishRun run).document? uri = s.document? uri := by
  obtain ⟨_, _, h⟩ := s.finishRun_frame run
  rw [h]
  rfl

/-- A validation that ends works on a revision since the opening, unless the document was closed
after its start. -/
theorem Ends.traced {services : Registry σ μ} {events : List Event} {s s₁ : Server σ μ} {e : Event}
    {run : Run} (h : Ends s e s₁ run) (hreach : (boot services).Reaches events s)
    (hd : Distinct events) : Sound (revisions events) s₁ ∧ ∃ between,
      Origin services (events ++ [e]) between run ∧
        (.notification (.closed run.document.uri) ∉ between →
          run.document ∈ revisions events run.document.uri) := by
  have hsound := sound_of_reaches hreach hd
  cases h with
  | atOnce hstarts hrun =>
    obtain ⟨huri, hstored, horigin⟩ := hsound.origin hreach hstarts hrun
    refine ⟨(hsound.starts hstarts).startRun _, [], horigin, fun _ => ?_⟩
    rw [huri]
    exact (hsound.starts hstarts).mem_revisions hstored
  | @later front back due _ hagenda hfirst =>
    have hmem : ⟨due, .resume run⟩ ∈ s.validations.agenda := by rw [hagenda]; simp
    obtain ⟨between, horigin, hopen⟩ := traced_of_reaches hreach hd due run hmem
    refine ⟨hsound.of_frame rfl rfl fun _ he => Cache.mem_of_mem_advance he, between ++ [_],
      horigin.snoc _, fun hno => hopen fun hmem => hno ?_⟩
    exact List.mem_append_left _ hmem

/-- Findings that are published were made of the text of an earlier revision with the version of the
stored one. If the document was not closed between the start and the end of the validation, that is the
stored text. In general it is just if the client, since it opened the document last, gave this version
the same text as then. -/
theorem published_stored_text_iff {services : Registry σ μ} {events : List Event} {e : Event}
    {s s' : Server σ μ} {new : List Sent} (hreach : (boot services).Reaches events s)
    (hd : Distinct events) (hstep : Step s e s') (hnew : s'.sent = new ++ s.sent) {t : Nat}
    {uri : String} {findings : List Diagnostic} {version : Int}
    (hmem : ⟨t, .diagnostics uri findings (some version)⟩ ∈ new) :
    ∃ run between d, Origin services (events ++ [e]) between run ∧
      run.document.uri = uri ∧ run.document.version = version ∧ run.findings = some findings ∧
      s'.document? uri = some d ∧ d.version = version ∧
      (.notification (.closed uri) ∉ between → d.text = run.document.text) ∧
      (d.text = run.document.text ↔
        ∃ d' ∈ revisions events uri, d'.version = version ∧ d'.text = run.document.text) := by
  obtain ⟨s₁, run, hends, rfl, hcurrent, hfindings, rfl, rfl⟩ := hstep.published hnew hmem
  obtain ⟨hsound, between, horigin, hopen⟩ := hends.traced hreach hd
  obtain ⟨d, hstored, hversion⟩ : ∃ d, s₁.document? run.document.uri = some d ∧
      d.version = run.document.version := by
    simpa [isCurrent, Option.any_eq_true] using hcurrent
  have hlatest := hsound.mem_revisions hstored
  refine ⟨run, between, d, horigin, rfl, rfl, hfindings, ?_, hversion, ?_, ?_⟩
  · rw [document?_finishRun, hstored]
  · intro hno
    rw [hsound.eq_of_version hlatest (hopen hno) hversion]
  · constructor
    · intro htext
      exact ⟨d, hlatest, hversion, htext⟩
    · rintro ⟨d', hd', hv, htext⟩
      rw [← htext, hsound.eq_of_version hlatest hd' (hversion.trans hv.symm)]

/-- A finding that repeats a text. -/
def echo (text : String) : Diagnostic where
  range := .origin
  message := text

/-- The services of a host that knows one kind of text, and takes its time to repeat it. -/
def echoing : Registry Unit String :=
  ({} : Registry Unit String).register
    { id := "echo", displayName := "Echo", kinds := ["text"], settings := ()
      parse := fun d => .ok d.text
      validate := fun _ _ text _ => { duration := 100, findings := some [echo text] } }

/-- A client opens a text that gets validated. -/
def opening : List Event :=
  [.setUp none, .notification (.opened ⟨"a", "text", 1, "old"⟩), .validation "a"]

/-- While the validation goes on, the client closes the text and opens it again with other words. -/
def reopening : List Event :=
  opening ++ [.notification (.closed "a"), .notification (.opened ⟨"a", "text", 1, "new"⟩)]

/-- The findings about a text that stays open are those of the stored text. -/
theorem published_stored_text_opening :
    ∃ s : Server Unit String, (boot echoing).Reaches (opening ++ [.job 1]) s ∧
      s.sent = [⟨100, .diagnostics "a" [echo "old"] (some 1)⟩] ∧
      ∃ run between d, Origin echoing (opening ++ [.job 1]) between run ∧
        run.findings = some [echo "old"] ∧ s.document? "a" = some d ∧ d.text = run.document.text := by
  obtain ⟨s, s', hreach, hstep, hs, hs'⟩ :
      ∃ s s', (boot echoing).Reaches opening s ∧ Step s (.job 1) s' ∧ s.sent = [] ∧
        s'.sent = [⟨100, .diagnostics "a" [echo "old"] (some 1)⟩] :=
    ⟨_, _, .snoc (.snoc (.snoc .nil (.setUp _ rfl)) (.notification _ rfl)) (.validation _),
      .job [⟨200, .fire "a" 0 ()⟩] []
        ⟨100, .resume ⟨0, ⟨"a", "text", 1, "old"⟩, some "echo", some [echo "old"]⟩⟩ rfl (by decide),
      rfl, rfl⟩
  have hnew : s'.sent = [⟨100, .diagnostics "a" [echo "old"] (some 1)⟩] ++ s.sent := by rw [hs', hs]; rfl
  obtain ⟨run, between, d, horigin, -, -, hfindings, hstored, -, hopen, -⟩ :=
    published_stored_text_iff hreach (Rising.distinct (by decide)) hstep hnew (List.mem_singleton.2 rfl)
  refine ⟨s', .snoc hreach hstep, hs', run, between, d, horigin, hfindings, hstored, hopen ?_⟩
  intro hclosed
  simpa [opening] using horigin.subset hclosed

/-- A run in which the findings of the old text are published for the new one. -/
theorem stale_findings_published :
    ∃ s s' : Server Unit String,
      (boot echoing).Reaches reopening s ∧ Step s (.job 0) s' ∧ Rising (reopening ++ [.job 0]) ∧
        s'.sent = ⟨100, .diagnostics "a" [echo "old"] (some 1)⟩ :: s.sent ∧
        s'.document? "a" = some ⟨"a", "text", 1, "new"⟩ :=
  ⟨_, _, .snoc (.snoc (.snoc (.snoc (.snoc .nil (.setUp _ rfl)) (.notification _ rfl)) (.validation _))
      (.notification _ rfl)) (.notification _ rfl),
    .job [] [⟨200, .fire "a" 1 ()⟩]
      ⟨100, .resume ⟨0, ⟨"a", "text", 1, "old"⟩, some "echo", some [echo "old"]⟩⟩ rfl (by decide),
    by decide, rfl, rfl⟩

end LangHost.Server
