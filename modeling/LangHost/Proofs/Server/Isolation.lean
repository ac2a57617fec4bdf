import LangHost.Proofs.Server.Share
/-!
# Documents do not interfere

When all that concerns other documents is taken out of a run, what is left is a run too, and nobody
who looks at one document can tell them apart (`documents_apart`). The documents share a cache, an
agenda, the settings and the clock. But the cache does not show, the agenda holds at most one action
for each document, and the rest is part of the document's share. So the two runs go step by step with
each other (`Alone.follow`), one with a single document in it.
-/

namespace LangHost.Server

variable {σ μ : Type}

/-! ## Runs as one document sees them -/

/-- The answers that an event gives to requests for a document. -/
def answersFor (uri : String) (s : Server σ μ) : Event → List (Except RpcError (Option Answer))
  | .request r => if r.uri = uri then [(s.answer r).2] else []
  | _ => []

/-- `Seen uri start events s kept answers`: when the events happen to `start`, it becomes `s` and
gives the answers to the requests for the document. What is left of the events without all that
concerns other documents is `kept`. -/
inductive Seen (uri : String) (start : Server σ μ) :
    List Event → Server σ μ → List Event → List (Except RpcError (Option Answer)) → Prop where
  | nil : Seen uri start [] start [] []
  | snoc {events kept : List Event} {s s' : Server σ μ} {e : Event}
      {answers : List (Except RpcError (Option Answer))} :
      Seen uri start events s kept answers → Step s e s' →
        Seen uri start (events ++ [e]) s' (kept ++ left uri s e) (answers ++ answersFor uri s e)

section Seen

variable {uri : String} {start s : Server σ μ} {events kept : List Event}
  {answers : List (Except RpcError (Option Answer))}

theorem Seen.reaches (h : Seen uri start events s kept answers) : start.Reaches events s := by
  induction h with
  | nil => exact .nil
  | snoc _ hstep ih => exact ih.snoc hstep

/-- Every run can be looked at with the eyes of a document. -/
theorem Reaches.seen (h : start.Reaches events s) (uri : String) :
    ∃ kept answers, Seen uri start events s kept answers := by
  induction h with
  | nil => exact ⟨_, _, .nil⟩
  | snoc _ hstep ih =>
    obtain ⟨kept, answers, hseen⟩ := ih
    exact ⟨_, _, hseen.snoc hstep⟩

end Seen

/-! ## What is left of an orderly client -/

/-- Nothing is left of an event for a document, or itself if it is about the document. Of what is
about no document, something is left that is about none. -/
theorem left_cases (uri : String) (s : Server σ μ) (e : Event) :
    (left uri s e = [] ∧ e.about ≠ some uri) ∨
      ∃ e', left uri s e = [e'] ∧ (e' = e ∧ e.about = some uri ∨ e.about = none ∧ e'.about = none) := by
  unfold left
  split
  · split
    · exact .inl ⟨rfl, nofun⟩
    · split
      · exact .inr ⟨_, rfl, .inr ⟨rfl, rfl⟩⟩
      · exact .inr ⟨_, rfl, .inr ⟨rfl, rfl⟩⟩
  · split
    · rename_i habout
      refine .inr ⟨e, rfl, ?_⟩
      rcases habout with hnone | hsome
      · exact .inr ⟨hnone, hnone⟩
      · exact .inl ⟨rfl, hsome⟩
    · rename_i habout
      exact .inl ⟨rfl, fun hsome => habout (.inr hsome)⟩

namespace Revisions

/-- The revisions of a document after an event about it. -/
def told (known : List Document) : Event → List Document
  | .notification (.opened d) => [d]
  | .notification (.changed _ version texts) =>
    match texts.getLast?, known with
    | some text, d :: _ => d.update version text :: known
    | _, _ => known
  | .notification (.closed _) => []
  | _ => known

variable {c c' : Revisions} {uri : String}

/-- What becomes of the revisions of a document hangs on them alone, and on what is told about it. -/
theorem after_apply (c : Revisions) (e : Event) (uri : String) :
    c.after e uri = if e.about = some uri then told (c uri) e else c uri := by
  unfold after
  split
  · rename_i d
    by_cases hu : d.uri = uri
    · subst hu
      simp [Event.about, told]
    · simp [Event.about, hu, Ne.symm hu]
  · rename_i uri' version texts
    simp only [Event.about, told, Option.some.injEq]
    by_cases hu : uri' = uri
    · subst hu
      cases texts.getLast? with
      | none => simp
      | some text => cases hc : c uri' <;> simp [hc]
    · cases texts.getLast? with
      | none => simp
      | some text => cases c uri' <;> simp [hu, Ne.symm hu]
  · rename_i uri'
    by_cases hu : uri' = uri
    · subst hu
      simp [Event.about, told]
    · simp [Event.about, hu, Ne.symm hu]
  · rename_i hopened hchanged hclosed
    unfold told
    split
    · split <;> simp_all
    · rfl

theorem after_left (h : c' uri = c uri) (s : Server σ μ) (e : Event) :
    (left uri s e).foldl after c' uri = c.after e uri := by
  rcases left_cases uri s e with ⟨hleft, habout⟩ | ⟨e', hleft, ⟨rfl, habout⟩ | ⟨habout, habout'⟩⟩
  · rw [hleft, after_apply, if_neg habout]
    exact h
  · rw [hleft, List.foldl_cons, List.foldl_nil, after_apply, after_apply, h]
  · simp [hleft, after_apply, habout, habout', h]

theorem admits_of_about {p : Int → List Int → Prop} {e : Event} (h : c' uri = c uri)
    (habout : e.about = some uri) (ha : c.Admits p e) : c'.Admits p e := by
  unfold Admits at ha ⊢
  split at ha
  · obtain rfl : _ = uri := Option.some.inj habout
    rw [h]
    exact ha
  · obtain rfl : _ = uri := Option.some.inj habout
    rw [h]
    exact ha
  · trivial

theorem admits_of_about_none {p : Int → List Int → Prop} {e : Event} (h : e.about = none) :
    c.Admits p e := by
  unfold Admits
  split
  · cases h
  · cases h
  · trivial

theorem admits_left {p : Int → List Int → Prop} (h : c' uri = c uri) (s : Server σ μ) {e : Event}
    (ha : c.Admits p e) : OrderlyFrom p c' (left uri s e) := by
  rcases left_cases uri s e with ⟨hleft, -⟩ | ⟨e', hleft, ⟨rfl, habout⟩ | ⟨-, habout'⟩⟩
  · rw [hleft]
    trivial
  · rw [hleft]
    exact ⟨admits_of_about h habout ha, trivial⟩
  · rw [hleft]
    exact ⟨admits_of_about_none habout', trivial⟩

end Revisions

theorem Seen.revisions_eq {uri : String} {start s : Server σ μ} {events kept : List Event}
    {answers : List (Except RpcError (Option Answer))} (h : Seen uri start events s kept answers) :
    revisions kept uri = revisions events uri := by
  induction h with
  | nil => rfl
  | snoc _ _ ih =>
    rw [revisions_append, revisions_snoc]
    exact Revisions.after_left ih _ _

/-- What is left of what an orderly client does is orderly. -/
theorem Seen.distinct {uri : String} {start s : Server σ μ} {events kept : List Event}
    {answers : List (Except RpcError (Option Answer))} (h : Seen uri start events s kept answers)
    (hd : Distinct events) : Distinct kept := by
  induction h with
  | nil => trivial
  | snoc hseen _ ih =>
    obtain ⟨hd, ha⟩ := orderly_snoc.1 hd
    exact orderly_append.2 ⟨ih hd, Revisions.admits_left hseen.revisions_eq _ ha⟩

/-! ## A server with a single document -/

/-- The share of a document that was never heard of. -/
def Share.Blank (x : Share σ μ) : Prop := x.document = none ∧ x.due = []

theorem Share.Blank.after {x : Share σ μ} (h : x.Blank) {e : Event} (he : e.about = none) :
    (x.after e).Blank := by
  obtain ⟨hdoc, hdue⟩ := h
  have hsettings (settings : Json) : (x.applySettings settings).Blank := by
    unfold Share.applySettings
    split <;> exact ⟨hdoc, hdue⟩
  cases e with
  | setUp options =>
    cases options with
    | none => exact ⟨hdoc, hdue⟩
    | some settings => exact hsettings settings
  | notification n =>
    cases n with
    | initialized => exact ⟨hdoc, hdue⟩
    | configured settings =>
      obtain ⟨hdoc, hdue⟩ := hsettings settings
      simp only [Share.after, Share.notify]
      split
      · simp [Share.Blank, Share.schedule, hdoc, hdue]
      · exact ⟨hdoc, rfl⟩
    | opened d => cases he
    | changed uri version texts => cases he
    | closed uri => cases he
  | request r => cases he
  | shutDown => exact ⟨hdoc, rfl⟩
  | hangUp => exact ⟨hdoc, hdue⟩
  | exit => exact ⟨hdoc, hdue⟩
  | validation uri => cases he
  | job place => simp [Share.Blank, Share.after, Share.validate, hdoc]
  | time t => exact ⟨hdoc, hdue⟩

/-- `Alone uri s t`: the document is to `t` what it is to `s`, and `t` has no other. -/
structure Alone (uri : String) (s t : Server σ μ) : Prop where
  share : t.share uri = s.share uri
  blank : ∀ uri', uri' ≠ uri → (t.share uri').Blank

/-- The answer to a request hangs on the share of its document, and not on what is cached. -/
theorem answer_congr {c c' : Revisions} {s t : Server σ μ} (hs : Sound c s) (ht : Sound c' t) {r : Request}
    (h : t.share r.uri = s.share r.uri) : (s.answer r).2 = (t.answer r).2 := by
  have hdoc : t.document? r.uri = s.document? r.uri := congrArg Share.document h
  have hservices : t.services = s.services := congrArg Share.services h
  cases hd : s.document? r.uri with
  | none => simp [answer, hdoc, hd]
  | some d =>
    rw [hd] at hdoc
    rw [answer_eq hd, answer_eq hdoc, hs.getModel_eq hd, ht.getModel_eq hdoc]
    simp only [parsed, hservices]

/-- A document whose action comes due has no other job. -/
theorem Calm.countP_front {s : Server σ μ} (hcalm : Calm s)
    {front back : Agenda (Debouncer.Job String Unit Run)} {due id : Nat} {uri : String} {action : Unit}
    (hagenda : s.validations.agenda = front ++ ⟨due, .fire uri id action⟩ :: back) :
    (front.countP fun x => jobAbout x.job = uri) = 0 := by
  have hrest := hcalm.coherent.dues_fired hagenda uri
  rw [if_pos rfl, List.filterMap_append, List.append_eq_nil_iff] at hrest
  refine List.countP_eq_zero.2 fun x hx habout => ?_
  have hmem : x ∈ s.validations.agenda := by rw [hagenda]; simp [hx]
  obtain ⟨due', job⟩ := x
  cases job with
  | resume run => exact hcalm.atOnce due' run hmem
  | fire uri' id' action' =>
    obtain rfl : uri' = uri := of_decide_eq_true habout
    simpa [Debouncer.dueFor] using List.filterMap_eq_nil_iff.1 hrest.1 _ hx

/-- What happens to a server can happen to one in the same phase with no other times in its agenda. -/
theorem Step.again {s s' t : Server σ μ} {e : Event} (hstep : Step s e s') (hjob : ∀ place, e ≠ .job place)
    (hphase : t.phase = s.phase)
    (hdue : ∀ x ∈ t.validations.agenda, ∃ y ∈ s.validations.agenda, y.due = x.due) :
    ∃ t', Step t e t' := by
  cases hstep with
  | setUp options h => exact ⟨_, .setUp options (hphase.trans h)⟩
  | notification n h => exact ⟨_, .notification n (hphase.trans h)⟩
  | request r h => exact ⟨_, .request r (hphase.trans h)⟩
  | shutDown h => exact ⟨_, .shutDown (hphase.trans h)⟩
  | hangUp h => exact ⟨_, .hangUp (hphase.trans h)⟩
  | exit => exact ⟨_, .exit⟩
  | validation uri => exact ⟨_, .validation uri⟩
  | job front back item h first => exact (hjob _ rfl).elim
  | time time h =>
    refine ⟨_, .time time fun x hx => ?_⟩
    obtain ⟨y, hy, hyx⟩ := hdue x hx
    exact hyx ▸ h y hy

namespace Alone

variable {c c' : Revisions} {uri : String} {s s' t t' : Server σ μ}

theorem dues_eq (h : Alone uri s t) : t.validations.dues uri = s.validations.dues uri :=
  congrArg Share.due h.share

theorem fire_of_mem (h : Alone uri s t) (hcalm : Calm t) :
    ∀ x ∈ t.validations.agenda, ∃ id action, x.job = .fire uri id action := by
  rintro ⟨due, job⟩ hx
  cases job with
  | resume run => exact (hcalm.atOnce due run hx).elim
  | fire uri' id action =>
    have hdue := Debouncer.mem_dues.2 ⟨id, action, hx⟩
    by_cases hu : uri' = uri
    · subst hu
      exact ⟨id, action, rfl⟩
    · have hnone : t.validations.dues uri' = [] := (h.blank uri' hu).2
      rw [hnone] at hdue
      cases hdue

/-- No times are in the agenda that were not there with the other documents. -/
theorem due_of_mem (h : Alone uri s t) (hcalm : Calm t) :
    ∀ x ∈ t.validations.agenda, ∃ y ∈ s.validations.agenda, y.due = x.due := by
  intro x hx
  obtain ⟨id, action, hjob⟩ := h.fire_of_mem hcalm x hx
  obtain ⟨due, job⟩ := x
  subst hjob
  have hdue := Debouncer.mem_dues.2 ⟨id, action, hx⟩
  rw [h.dues_eq] at hdue
  obtain ⟨id', action', hy⟩ := Debouncer.mem_dues.1 hdue
  exact ⟨_, hy, rfl⟩

/-- What is due for the document is all that there is to do. -/
theorem agenda_eq (h : Alone uri s t) (hcalm : Calm t) {due : Nat} (hdue : s.validations.dues uri = [due]) :
    ∃ id action, t.validations.agenda = [⟨due, .fire uri id action⟩] := by
  have hdues := h.dues_eq.trans hdue
  rcases hcalm.coherent.agenda_of_one_key (h.fire_of_mem hcalm) with hnil | ⟨due', id, action, hone⟩
  · simp [Debouncer.dues, hnil] at hdues
  · have hsame : due' = due := by simpa [Debouncer.dues, hone, Debouncer.dueFor] using hdues
    exact ⟨id, action, hsame ▸ hone⟩

theorem follow_job (h : Alone uri s t) (hcalm : Calm s) (hcalm' : Calm t)
    {front back : Agenda (Debouncer.Job String Unit Run)} {item : Agenda.Item (Debouncer.Job String Unit Run)}
    (hagenda : s.validations.agenda = front ++ item :: back)
    (hfirst : ∀ x ∈ s.validations.agenda, item.due ≤ x.due) :
    ∃ e t', left uri s (.job front.length) = [e] ∧ Step t e t' ∧ left uri t e = [e] ∧
      answersFor uri t e = [] := by
  rw [left_job uri hagenda]
  by_cases hu : jobAbout item.job = uri
  · obtain ⟨due, job⟩ := item
    cases job with
    | resume run => exact (hcalm.atOnce due run (by rw [hagenda]; simp)).elim
    | fire uri' id action =>
      obtain rfl : uri' = uri := hu
      obtain ⟨id', action', halone⟩ :=
        h.agenda_eq hcalm' (hcalm.coherent.dues_eq_singleton hagenda)
      refine ⟨.job 0, _, ?_, .job [] [] _ halone (by simp [halone]), by simp [left, halone, jobAbout], rfl⟩
      rw [hcalm.countP_front hagenda]
      exact if_pos rfl
  · -- of the job of another document, the time stays
    refine ⟨.time item.due, t.wait item.due, if_neg hu, .time _ fun x hx => ?_, rfl, rfl⟩
    obtain ⟨y, hy, hyx⟩ := h.due_of_mem hcalm' x hx
    exact hyx ▸ hfirst y hy

/-- What is left of an event for the document is nothing, or it can happen to the server with the
single document, all of it, and gives the same answers there. -/
theorem follow (h : Alone uri s t) (hcalm : Calm s) (hcalm' : Calm t) (hs : Sound c s) (ht : Sound c' t)
    {e : Event} (hstep : Step s e s') :
    (left uri s e = [] ∧ answersFor uri s e = []) ∨
      ∃ e' t', left uri s e = [e'] ∧ Step t e' t' ∧ left uri t e' = [e'] ∧
        answersFor uri t e' = answersFor uri s e := by
  by_cases hjob : ∃ place, e = .job place
  · obtain ⟨place, rfl⟩ := hjob
    cases hstep with
    | job front back item hagenda hfirst => exact .inr (h.follow_job hcalm hcalm' hagenda hfirst)
  · have hjob : ∀ place, e ≠ .job place := fun place he => hjob ⟨place, he⟩
    have hleft (u : Server σ μ) :
        left uri u e = if e.about = none ∨ e.about = some uri then [e] else [] := by
      cases e with
      | job place => exact (hjob place rfl).elim
      | _ => rfl
    by_cases habout : e.about = none ∨ e.about = some uri
    · obtain ⟨t', hstep'⟩ := hstep.again hjob (congrArg Share.phase h.share) (h.due_of_mem hcalm')
      refine .inr ⟨e, t', by rw [hleft, if_pos habout], hstep', by rw [hleft, if_pos habout], ?_⟩
      cases e with
      | request r =>
        simp only [answersFor]
        split
        · rename_i hr
          subst hr
          rw [answer_congr hs ht h.share]
        · rfl
      | _ => rfl
    · refine .inl ⟨by rw [hleft, if_neg habout], ?_⟩
      cases e with
      | request r => exact if_neg fun hr => habout (.inr (congrArg some hr))
      | _ => rfl

/-- An event that leaves nothing for the document goes by. -/
theorem skip (h : Alone uri s t) (hcalm : Calm s) (hs : Sound c s) {e : Event} (hstep : Step s e s')
    (hleft : left uri s e = []) : Alone uri s' t where
  share := by rw [hstep.share uri hcalm hs, hleft, h.share]; rfl
  blank := h.blank

theorem step (h : Alone uri s t) (hcalm : Calm s) (hcalm' : Calm t) (hs : Sound c s) (ht : Sound c' t)
    {e e' : Event} (hstep : Step s e s') (hstep' : Step t e' t') (hleft : left uri s e = [e'])
    (hleft' : left uri t e' = [e']) : Alone uri s' t' where
  share := by rw [hstep.share uri hcalm hs, hstep'.share uri hcalm' ht, hleft, hleft', h.share]
  blank uri' hne := by
    rw [hstep'.share uri' hcalm' ht]
    have hblank := h.blank uri' hne
    rcases left_cases uri' t e' with ⟨hleft'', -⟩ | ⟨e'', hleft'', ⟨rfl, habout⟩ | ⟨-, habout⟩⟩
    · rw [hleft'']
      exact hblank
    · -- an event that is about one document leaves nothing for another
      rcases left_cases uri t e'' with ⟨hnone, -⟩ | ⟨_, -, ⟨-, habout'⟩ | ⟨habout', -⟩⟩
      · rw [hleft'] at hnone
        cases hnone
      · exact (hne (Option.some.inj (habout.symm.trans habout'))).elim
      · rw [habout] at habout'
        cases habout'
    · rw [hleft'']
      exact hblank.after habout

end Alone

/-- What is left of a run for a document is a run in which there is no other. -/
theorem Seen.alone {services : Registry σ μ} (hprompt : services.Prompt) {uri : String} {s : Server σ μ}
    {events kept : List Event} {answers : List (Except RpcError (Option Answer))}
    (h : Seen uri (boot services) events s kept answers) (hd : Distinct events) :
    ∃ t, Seen uri (boot services) kept t kept answers ∧ Alone uri s t := by
  induction h with
  | nil => exact ⟨_, .nil, rfl, fun _ _ => ⟨rfl, rfl⟩⟩
  | snoc hseen hstep ih =>
    obtain ⟨hd, -⟩ := orderly_snoc.1 hd
    obtain ⟨t, hseen', halone⟩ := ih hd
    have hs := sound_of_reaches hseen.reaches hd
    have ht := sound_of_reaches hseen'.reaches (hseen.distinct hd)
    have hcalm := calm_of_reaches hprompt hseen.reaches hd
    have hcalm' := calm_of_reaches hprompt hseen'.reaches (hseen.distinct hd)
    rcases halone.follow hcalm hcalm' hs ht hstep with
      ⟨hleft, hanswers⟩ | ⟨e', t', hleft, hstep', hleft', hanswers⟩
    · refine ⟨t, ?_, halone.skip hcalm hs hstep hleft⟩
      rw [hleft, hanswers, List.append_nil, List.append_nil]
      exact hseen'
    · refine ⟨t', ?_, halone.step hcalm hcalm' hs ht hstep hstep' hleft hleft'⟩
      have hsnoc := hseen'.snoc hstep'
      rw [hleft', hanswers] at hsnoc
      rw [hleft]
      exact hsnoc

/-- Documents do not interfere. Take out of any run of an orderly client all that it says about other
documents than one, and of their validations all but the time that passes: what is left is a run. It
gives the same answers to the requests for the document and publishes the same for it at the same
times, and whatever message about the document comes next is answered the same. -/
theorem documents_apart (embed : Plain.Model → μ) (view : μ → Option Plain.Model) (settings : Plain.Settings)
    {uri : String} {s : Server Plain.Settings μ} {events kept : List Event}
    {answers : List (Except RpcError (Option Answer))}
    (h : Seen uri (boot (Plain.services embed view settings)) events s kept answers)
    (hd : Distinct events) :
    (∃ t, (boot (Plain.services embed view settings)).Reaches kept t) ∧
      ∀ t, (boot (Plain.services embed view settings)).Reaches kept t →
        Seen uri (boot (Plain.services embed view settings)) kept t kept answers ∧
        t.publications uri = s.publications uri ∧ t.clock = s.clock ∧
        ∀ m, (∀ r, asks? m = some r → r.uri = uri) → (t.receive m).2 = (s.receive m).2 := by
  obtain ⟨t, hseen, halone⟩ := h.alone (Plain.prompt_services embed view settings) hd
  refine ⟨⟨t, hseen.reaches⟩, fun t' ht' => ?_⟩
  obtain rfl : t = t' := hseen.reaches.unique ht'
  refine ⟨hseen, congrArg Share.published halone.share, congrArg Share.clock halone.share, ?_⟩
  intro m hm
  have hs := sound_of_reaches h.reaches hd
  have ht := sound_of_reaches hseen.reaches (h.distinct hd)
  refine (receive_congr (congrArg Share.phase halone.share) fun r hr => ?_).symm
  exact answer_congr hs ht (by rw [hm r hr]; exact halone.share)

/-- A client works on two texts and asks about both. -/
def interleaved : List Event :=
  [.setUp (some (.obj [("model_cache", .obj [("ttl_secs", .int 0)])])),
    .notification (.opened ⟨"a", "plaintext", 1, "x "⟩), .notification (.opened ⟨"b", "plaintext", 1, "y"⟩),
    .request ⟨"a", .symbols⟩, .request ⟨"b", .symbols⟩, .notification (.changed "b" 2 ["z "]),
    .job 0, .job 0, .notification (.closed "b"), .request ⟨"a", .symbols⟩]

/-- The same client with the first text only. -/
def single : List Event :=
  [.setUp (some (.obj [("model_cache", .obj [("ttl_secs", .int 0)])])),
    .notification (.opened ⟨"a", "plaintext", 1, "x "⟩), .request ⟨"a", .symbols⟩, .job 0, .time 200,
    .request ⟨"a", .symbols⟩]

/-- Two answers are given and findings published for the first text, with the other one and without. -/
theorem documents_apart_interleaved :
    ∃ (s t : Server Plain.Settings Plain.Model) (answers : List (Except RpcError (Option Answer))),
      answers.length = 2 ∧ Seen "a" (boot (Plain.services id some)) interleaved s single answers ∧
      Seen "a" (boot (Plain.services id some)) single t single answers ∧
      t.publications "a" = s.publications "a" ∧
      (s.publications "a").map (fun p => (p.time, p.version)) = [(200, some 1)] := by
  obtain ⟨s, answers, hseen, hlength, hpublished⟩ : ∃ s answers,
      Seen "a" (boot (Plain.services id some)) interleaved s single answers ∧ answers.length = 2 ∧
      (s.publications "a").map (fun p => (p.time, p.version)) = [(200, some 1)] :=
    ⟨_, _, .snoc (.snoc (.snoc (.snoc (.snoc (.snoc (.snoc (.snoc (.snoc (.snoc .nil (.setUp _ rfl))
        (.notification _ rfl)) (.notification _ rfl)) (.request _ rfl)) (.request _ rfl))
        (.notification _ rfl)) (.job [] [⟨200, .fire "b" 2 ()⟩] ⟨200, .fire "a" 0 ()⟩ rfl (by decide)))
        (.job [] [] ⟨200, .fire "b" 2 ()⟩ rfl (by decide))) (.notification _ rfl)) (.request _ rfl),
      rfl, rfl⟩
  obtain ⟨⟨t, ht⟩, hsame⟩ := documents_apart id some {} hseen (by decide)
  obtain ⟨hseen', hpublications, -⟩ := hsame t ht
  exact ⟨s, t, answers, hlength, hseen, hseen', hpublications, hpublished⟩

end LangHost.Server
