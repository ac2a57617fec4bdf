import LangHost.Proofs.Server.Convergence
import Mathlib.Data.List.Induction
/-!
# What every word of a server is about

Cached models, validations that go on and findings that were sent all come from a document that was
stored at some time. Where a version tells its revision in the whole run (`Telling`), and the
findings of a validation hang on its document alone (`Steady`), each of them is therefore what the
services make of the one revision of its version, however validations overlap and however often the
document was closed and opened again (`faithful_of_reaches`).
-/

namespace LangHost

variable {σ μ : Type}

/-! ## What services find in a document -/

/-- The services always come to an end of a validation, with findings that hang on the document and
its model alone; how long they take is left open. -/
def Registry.Steady (r : Registry σ μ) : Prop :=
  ∀ kind v, r.forKind? kind = some v → ∃ find : Document → μ → List Diagnostic,
    ∀ settings d m number, (v.validate settings d m number).findings = some (find d m)

/-- What the services find in a document: nothing at all if none handles it, or if the one that does
says that it misses a service. -/
def Registry.verdict (r : Registry σ μ) (d : Document) : Option (List Diagnostic) :=
  match r.forKind? d.kind with
  | none => none
  | some v =>
    match v.parse d with
    | .error (.noLanguageService _) => none
    | .error f => some [Server.parseFailure f]
    | .ok m => (v.validate v.settings d m 0).findings

theorem Registry.Steady.configure {r : Registry σ μ} (h : r.Steady) (settings : Json) :
    (r.configure settings).Steady := by
  intro kind v hv
  rw [forKind?_configure] at hv
  obtain ⟨w, hw, rfl⟩ := Option.map_eq_some_iff.1 hv
  obtain ⟨find, hfind⟩ := h kind w hw
  exact ⟨find, hfind⟩

theorem Registry.Steady.verdict_configure {r : Registry σ μ} (h : r.Steady) (settings : Json)
    (d : Document) : (r.configure settings).verdict d = r.verdict d := by
  unfold verdict
  rw [forKind?_configure]
  cases hv : r.forKind? d.kind with
  | none => rfl
  | some v =>
    obtain ⟨find, hfind⟩ := h d.kind v hv
    simp only [Option.map_some, Service.configured]
    cases v.parse d with
    | error f => cases f <;> rfl
    | ok m => simp only [hfind]

theorem Registry.forKind?_of_verdict {r : Registry σ μ} {d : Document}
    (h : (r.verdict d).isSome = true) : (r.forKind? d.kind).isSome = true := by
  unfold verdict at h
  split at h
  · cases h
  · rename_i v hv
    rw [hv]
    rfl

theorem Registry.mem_of_forKind? {r : Registry σ μ} {kind : String} {v : Service σ μ}
    (h : r.forKind? kind = some v) : v ∈ r.services := by
  obtain ⟨id, -, hget⟩ := Option.bind_eq_some_iff.1 h
  exact List.mem_of_find?_eq_some hget

namespace Server

/-! ## The revisions of a whole run -/

/-- The revision that an event makes, if it makes one. -/
def Revisions.made? (c : Revisions) : Event → Option Document
  | .notification (.opened d) => some d
  | .notification (.changed uri version texts) =>
    match texts.getLast?, c uri with
    | some text, d :: _ => some (d.update version text)
    | _, _ => none
  | _ => none

/-- All revisions that events make, from the given revisions on. -/
def madeFrom : Revisions → List Event → List Document
  | _, [] => []
  | c, e :: events => (c.made? e).toList ++ madeFrom (c.after e) events

/-- All revisions that are made in a run, of closed documents too. -/
def made : List Event → List Document := madeFrom fun _ => []

/-- Among some documents, the version tells the revision of a URI. -/
def Tells (known : List Document) : Prop :=
  ∀ d ∈ known, ∀ d' ∈ known, d.uri = d'.uri → d.version = d'.version → d = d'

instance (known : List Document) : Decidable (Tells known) :=
  inferInstanceAs (Decidable (∀ d ∈ known, ∀ d' ∈ known, _ → _ → d = d'))

/-- In the whole run, a version of a document tells its revision, also when the document has been
closed and opened again in between. -/
def Telling (events : List Event) : Prop := Tells (made events)

instance (events : List Event) : Decidable (Telling events) :=
  inferInstanceAs (Decidable (Tells (made events)))

theorem madeFrom_snoc (c : Revisions) (events : List Event) (e : Event) :
    madeFrom c (events ++ [e]) =
      madeFrom c events ++ ((events.foldl Revisions.after c).made? e).toList := by
  induction events generalizing c with
  | nil => simp [madeFrom]
  | cons f events ih => simp [madeFrom, ih]

theorem made_snoc (events : List Event) (e : Event) :
    made (events ++ [e]) = made events ++ ((revisions events).made? e).toList :=
  madeFrom_snoc _ events e

theorem Telling.of_snoc {events : List Event} {e : Event} (h : Telling (events ++ [e])) :
    Telling events := by
  have hsub : ∀ d ∈ made events, d ∈ made (events ++ [e]) := by
    intro d hd
    rw [made_snoc]
    exact List.mem_append_left _ hd
  exact fun d hd d' hd' => h d (hsub d hd) d' (hsub d' hd')

theorem Revisions.mem_of_mem_after {c : Revisions} {e : Event} {uri : String} {d : Document}
    (h : d ∈ c.after e uri) : d ∈ c uri ∨ c.made? e = some d := by
  unfold Revisions.after at h
  split at h
  · rename_i d'
    by_cases hu : uri = d'.uri
    · subst hu
      simp only [Function.update_self, List.mem_singleton] at h
      exact .inr (by rw [h]; rfl)
    · exact .inl (by simpa [hu] using h)
  · rename_i uri' version texts
    simp only [made?]
    cases ht : texts.getLast? with
    | none => exact .inl (by simpa [ht] using h)
    | some text =>
      cases hc : c uri' with
      | nil => exact .inl (by simpa [ht, hc] using h)
      | cons d' rest =>
        by_cases hu : uri = uri'
        · subst hu
          simp only [ht, hc, Function.update_self] at h
          rcases List.mem_cons.1 h with rfl | h
          · exact .inr rfl
          · exact .inl (by rw [hc]; exact h)
        · exact .inl (by simpa [ht, hc, hu] using h)
  · rename_i uri'
    by_cases hu : uri = uri'
    · subst hu
      simp at h
    · exact .inl (by simpa [hu] using h)
  · exact .inl h

theorem mem_made_of_mem_revisions {events : List Event} {uri : String} {d : Document}
    (h : d ∈ revisions events uri) : d ∈ made events := by
  induction events using List.reverseRecOn with
  | nil => cases h
  | append_singleton events e ih =>
    rw [revisions_snoc] at h
    rw [made_snoc, List.mem_append, Option.mem_toList]
    rcases Revisions.mem_of_mem_after h with h | h
    · exact .inl (ih h)
    · exact .inr h

/-! ## The stored documents are the latest revisions -/

theorem notify_documents {c : Revisions} {s : Server σ μ} (h : ∀ uri, s.document? uri = (c uri).head?)
    (n : Notification) (uri : String) :
    (s.notify n).document? uri = (c.after (.notification n) uri).head? := by
  cases n with
  | initialized =>
    obtain ⟨_, hs⟩ := s.log_frame .info "genls ready"
    simp only [notify, hs]
    exact h uri
  | opened d =>
    simp only [notify, document?_openDocument, Revisions.after]
    by_cases hu : d.uri = uri
    · subst hu
      simp
    · simp [hu, Ne.symm hu, h]
  | changed uri' version texts =>
    simp only [notify, Revisions.after]
    have hdoc := h uri'
    cases texts.getLast? with
    | none => exact h uri
    | some text =>
      cases hc : c uri' with
      | nil =>
        rw [hc, List.head?_nil] at hdoc
        simp only [changeDocument, hdoc]
        exact h uri
      | cons d rest =>
        rw [hc, List.head?_cons] at hdoc
        simp only [document?_changeDocument hdoc]
        by_cases hu : uri' = uri
        · subst hu
          simp
        · simp [hu, Ne.symm hu, h]
  | closed uri' =>
    simp only [notify, document?_closeDocument, Revisions.after]
    by_cases hu : uri' = uri
    · subst hu
      simp
    · simp [hu, Ne.symm hu, h]
  | configured settings =>
    obtain ⟨_, _, _, _, happly, -⟩ := s.applySettings_frame settings
    obtain ⟨_, hs⟩ :=
      (s.applySettings settings).revalidate_frame (s.applySettings settings).config.validation
    simp only [notify, hs]
    rw [happly]
    exact h uri

theorem Step.documents {c : Revisions} {s s' : Server σ μ} {e : Event} (hstep : Step s e s')
    (h : ∀ uri, s.document? uri = (c uri).head?) (uri : String) :
    s'.document? uri = (c.after e uri).head? := by
  cases hstep with
  | setUp options _ =>
    cases options with
    | none => exact h uri
    | some settings =>
      obtain ⟨_, _, _, _, hs, -⟩ := s.applySettings_frame settings
      simp only [Server.setUp, hs]
      exact h uri
  | notification n _ => exact notify_documents h n uri
  | request r _ =>
    obtain ⟨_, _, hs⟩ := s.answer_frame r
    rw [hs]
    exact h uri
  | shutDown _ => exact h uri
  | hangUp _ => exact h uri
  | exit => exact h uri
  | validation uri' =>
    obtain ⟨_, _, _, _, hs⟩ := s.launch_frame uri'
    rw [hs]
    exact h uri
  | job front back item _ _ =>
    obtain ⟨_, _, _, _, _, hs⟩ := (s.take item.due (front ++ back)).perform_frame item.job
    rw [hs]
    exact h uri
  | time t _ => exact h uri

theorem documents_of_reaches {services : Registry σ μ} {events : List Event} {s : Server σ μ}
    (h : (boot services).Reaches events s) (uri : String) :
    s.document? uri = (revisions events uri).head? := by
  induction h generalizing uri with
  | nil => rfl
  | snoc _ hstep ih =>
    rw [revisions_snoc]
    exact hstep.documents ih uri

/-- What is stored was made. -/
theorem mem_made_of_document? {services : Registry σ μ} {events : List Event} {s : Server σ μ}
    (h : (boot services).Reaches events s) {uri : String} {d : Document}
    (hd : s.document? uri = some d) : d ∈ made events := by
  rw [documents_of_reaches h] at hd
  exact mem_made_of_mem_revisions (List.mem_of_head? hd)

/-! ## Where models come from -/

/-- At the start of a validation documents and services are as they were. -/
theorem Starts.frame {s s₁ : Server σ μ} {e : Event} {uri : String} (h : Starts s e s₁ uri) :
    ∃ clock models validations, s₁ = { s with clock, models, validations } ∧
      ∀ x ∈ models.entries, x ∈ s.models.entries := by
  cases h with
  | direct => exact ⟨s.clock, s.models, s.validations, rfl, fun x hx => hx⟩
  | due _ _ _ => exact ⟨_, _, _, rfl, fun x hx => Cache.mem_of_mem_advance hx⟩

/-- A model in the cache was there before, or it is what a service makes of the stored document. -/
def Kept (s : Server σ μ) (x : Cache.Entry String μ) : Prop :=
  (∃ y ∈ s.models.entries, x.key = y.key ∧ x.version = y.version ∧ x.stored = y.stored) ∨
    ∃ d v, s.document? x.key = some d ∧ x.version = d.version ∧ s.parsed d = .ok (v, x.stored.value)

theorem Kept.of_mem {s : Server σ μ} {x : Cache.Entry String μ} (h : x ∈ s.models.entries) : s.Kept x :=
  .inl ⟨x, h, rfl, rfl, rfl⟩

theorem kept_getModel {s : Server σ μ} {uri : String} {d : Document} (hd : s.document? uri = some d)
    {x : Cache.Entry String μ} (hx : x ∈ (s.getModel d).1.models.entries) : s.Kept x := by
  obtain rfl : d.uri = uri := uri_of_document? hd
  have hlookup := s.getModel_lookup d
  generalize (s.getModel d).1 = s₁ at hlookup hx
  generalize (s.getModel d).2 = r at hlookup
  cases hlookup with
  | unknown _ => exact .of_mem hx
  | failed _ _ _ => exact .of_mem hx
  | @hit v e hv he =>
    rcases Cache.mem_of_mem_touch hx with rfl | hx
    · exact .inl ⟨e, (Cache.mem_of_hit? he).1, rfl, rfl, rfl⟩
    · exact .of_mem hx
  | @parsed v m hv _ hp =>
    rcases Cache.mem_of_mem_keep hx with rfl | hx
    · exact .inr ⟨d, v, hd, rfl, by simp [Server.parsed, hv, hp, Except.map]⟩
    · exact .of_mem hx

theorem kept_launch {s : Server σ μ} {uri : String} {x : Cache.Entry String μ}
    (hx : x ∈ (s.launch uri).models.entries) : s.Kept x := by
  obtain ⟨_, _, _, _, hlaunch⟩ := s.launch_frame uri
  rw [hlaunch] at hx
  cases hd : s.document? uri with
  | none => exact .of_mem (by simpa [startRun, hd] using hx)
  | some d =>
    obtain ⟨_, _, hbegun⟩ :=
      (s.getModel d).1.begun_frame (startOf s.nextRun d (modelOf (s.getModel d).2))
    rw [(startRun_eq hd).2, hbegun] at hx
    exact kept_getModel hd hx

theorem mem_models_notify {s : Server σ μ} {n : Notification} {x : Cache.Entry String μ}
    (hx : x ∈ (s.notify n).models.entries) : x ∈ s.models.entries := by
  cases n with
  | initialized =>
    obtain ⟨_, hs⟩ := s.log_frame .info "genls ready"
    simpa only [notify, hs] using hx
  | opened d =>
    obtain ⟨_, _, hs⟩ := s.openDocument_frame d
    simp only [notify, hs] at hx
    exact hx
  | changed uri version texts =>
    simp only [notify] at hx
    split at hx
    · exact hx
    · rename_i text _
      cases hd : s.document? uri with
      | none => simpa only [changeDocument, hd] using hx
      | some d =>
        obtain ⟨_, hs⟩ := changeDocument_frame hd version text
        simp only [hs] at hx
        exact hx
  | closed uri =>
    obtain ⟨_, _, hs⟩ := s.closeDocument_frame uri
    simp only [notify, hs] at hx
    exact (Cache.mem_remove.1 hx).1
  | configured settings =>
    obtain ⟨_, _, _, _, happly, hmodels⟩ := s.applySettings_frame settings
    obtain ⟨_, hs⟩ :=
      (s.applySettings settings).revalidate_frame (s.applySettings settings).config.validation
    simp only [notify, hs] at hx
    rw [happly] at hx
    exact hmodels x hx

theorem Step.kept {s s' : Server σ μ} {e : Event} (h : Step s e s') {x : Cache.Entry String μ}
    (hx : x ∈ s'.models.entries) : s.Kept x := by
  cases h with
  | setUp options _ =>
    cases options with
    | none => exact .of_mem hx
    | some settings =>
      obtain ⟨_, _, _, _, hs, hmodels⟩ := s.applySettings_frame settings
      simp only [Server.setUp, hs] at hx
      exact .of_mem (hmodels x hx)
  | notification n _ => exact .of_mem (mem_models_notify hx)
  | request r _ =>
    cases hd : s.document? r.uri with
    | none => exact .of_mem (by simpa [answer, hd] using hx)
    | some d =>
      rw [answer_eq hd] at hx
      exact kept_getModel hd hx
  | shutDown _ => exact .of_mem (Cache.mem_of_mem_dispose hx)
  | hangUp _ => exact .of_mem hx
  | exit => exact .of_mem hx
  | validation uri => exact kept_launch hx
  | job front back item hagenda hfirst =>
    have htaken : ∀ {y : Cache.Entry String μ},
        y ∈ (s.take item.due (front ++ back)).models.entries → y ∈ s.models.entries :=
      fun hy => Cache.mem_of_mem_advance hy
    obtain ⟨due, job⟩ := item
    cases job with
    | resume run =>
      obtain ⟨_, _, hs⟩ := (s.take due (front ++ back)).finishRun_frame run
      simp only [perform, hs] at hx
      exact .of_mem (htaken hx)
    | fire uri id action =>
      rw [perform_fire] at hx
      split at hx
      · exact .of_mem (htaken hx)
      · rcases kept_launch hx with ⟨y, hy, hsame⟩ | hstored
        · exact .inl ⟨y, htaken hy, hsame⟩
        · exact .inr hstored
  | time t _ => exact .of_mem (Cache.mem_of_mem_advance hx)

/-! ## Every word is on one revision -/

/-- With steady services, the start of a validation settles its findings. -/
theorem findings_of_startOf {s : Server σ μ} (hsteady : s.services.Steady) {number duration : Nat}
    {d : Document} {run : Run} (h : startOf number d (s.parsed d) = .running duration run) :
    run.findings = s.services.verdict d ∧ run.findings.isSome = true := by
  unfold parsed Registry.require at h
  unfold Registry.verdict
  cases hv : s.services.forKind? d.kind with
  | none =>
    rw [hv] at h
    cases h
  | some v =>
    obtain ⟨find, hfind⟩ := hsteady d.kind v hv
    rw [hv] at h
    simp only at h ⊢
    cases hp : v.parse d with
    | error f =>
      rw [hp] at h
      cases f <;> cases h <;> exact ⟨rfl, rfl⟩
    | ok m =>
      rw [hp] at h
      cases h
      simp only [hfind]
      exact ⟨trivial, rfl⟩

theorem exists_startOf {s : Server σ μ} {d : Document} (h : (s.services.verdict d).isSome = true)
    (number : Nat) : ∃ duration run, startOf number d (s.parsed d) = .running duration run := by
  unfold Registry.verdict at h
  unfold parsed Registry.require
  cases hv : s.services.forKind? d.kind with
  | none => simp [hv] at h
  | some v =>
    rw [hv] at h
    simp only at h ⊢
    cases hp : v.parse d with
    | error f =>
      rw [hp] at h
      cases f with
      | noLanguageService kind => cases h
      | _ => exact ⟨_, _, rfl⟩
    | ok m => exact ⟨_, _, rfl⟩

/-- New settings do not change what is made of a document. -/
theorem Step.parsed {s s' : Server σ μ} {e : Event} (h : Step s e s') {d : Document} {v : Service σ μ}
    {m : μ} (hparsed : s.parsed d = .ok (v, m)) : ∃ v', s'.parsed d = .ok (v', m) := by
  obtain ⟨hv, hp⟩ := parsed_eq_ok.1 hparsed
  rcases h.services with hs | ⟨settings, hs⟩
  · exact ⟨v, parsed_eq_ok.2 ⟨by rw [hs, hv], hp⟩⟩
  · refine ⟨v.configured settings, parsed_eq_ok.2 ⟨?_, hp⟩⟩
    rw [hs, Registry.forKind?_configure, hv]
    rfl

/-- Every cached model is what a service makes of a known document. -/
def ModelsOf (known : List Document) (s : Server σ μ) : Prop :=
  ∀ x ∈ s.models.entries, ∃ d ∈ known, d.uri = x.key ∧ d.version = x.version ∧
    ∃ v, s.parsed d = .ok (v, x.stored.value)

namespace ModelsOf

variable {known : List Document} {s s' : Server σ μ}

theorem of_frame (h : ModelsOf known s) (hs : s'.services = s.services)
    (hm : ∀ x ∈ s'.models.entries, x ∈ s.models.entries) : ModelsOf known s' := by
  intro x hx
  obtain ⟨d, hd, huri, hversion, v, hparsed⟩ := h x (hm x hx)
  refine ⟨d, hd, huri, hversion, v, ?_⟩
  rw [← hparsed]
  simp only [parsed, hs]

/-- The model of a known document is what its service makes of it, wherever it comes from. -/
theorem getModel_eq (h : ModelsOf known s) (htells : Tells known) {d : Document} (hd : d ∈ known) :
    modelOf (s.getModel d).2 = s.parsed d := by
  have hlookup := s.getModel_lookup d
  generalize (s.getModel d).1 = s₁ at hlookup
  generalize (s.getModel d).2 = r at hlookup ⊢
  cases hlookup with
  | unknown hv => simp [modelOf, parsed, hv]
  | failed hv _ hp => simp [modelOf, parsed, hv, hp, Except.map]
  | parsed hv _ hp => simp [modelOf, parsed, hv, hp, Except.map]
  | @hit v e hv he =>
    -- the entry is of a document with this version, and there is only one
    obtain ⟨hmem, hkey, hversion, -⟩ := Cache.mem_of_hit? he
    obtain ⟨d', hd', huri', hversion', w, hw⟩ := h e hmem
    obtain rfl : d' = d := htells d' hd' d hd (huri'.trans hkey) (hversion'.trans hversion)
    have hvw : v = w := by
      simp only [Registry.require, (parsed_eq_ok.1 hw).1, Except.ok.injEq] at hv
      exact hv.symm
    rw [hw, hvw, modelOf]

end ModelsOf

/-- Models, validations that go on and findings that were sent are all of known documents, and they
are what the services make of them. -/
structure Faithful (services : Registry σ μ) (known : List Document) (s : Server σ μ) : Prop where
  steady : s.services.Steady
  verdict : ∀ d, s.services.verdict d = services.verdict d
  models : ModelsOf known s
  runs : ∀ due run, ⟨due, .resume run⟩ ∈ s.validations.agenda → run.document ∈ known ∧
    run.findings = services.verdict run.document ∧ run.findings.isSome = true
  sent : ∀ t uri findings version, ⟨t, .diagnostics uri findings (some version)⟩ ∈ s.sent →
    ∃ d ∈ known, d.uri = uri ∧ d.version = version ∧ services.verdict d = some findings

/-- What was sent stays sent. -/
theorem Step.sent {s s' : Server σ μ} {e : Event} (h : Step s e s') : ∃ new, s'.sent = new ++ s.sent := by
  rcases h.notices with ⟨new, hnew, -⟩ | ⟨uri, rfl⟩ | ⟨s₁, run, -, ⟨new, hnew, -⟩, rfl⟩
  · exact ⟨new, hnew⟩
  · cases h with | notification _ _ =>
    rcases s.closeDocument_sent uri with hsent | hsent
    · exact ⟨[], hsent⟩
    · exact ⟨[_], hsent⟩
  · rcases s₁.finishRun_sent run with hsent | ⟨_, -, -, hsent⟩
    · exact ⟨new, hsent.trans hnew⟩
    · exact ⟨_ :: new, by rw [hsent, hnew, List.cons_append]⟩

namespace Faithful

variable {services : Registry σ μ} {known : List Document} {s s' : Server σ μ}

theorem mono (h : Faithful services known s) {known' : List Document} (hsub : known ⊆ known') :
    Faithful services known' s where
  steady := h.steady
  verdict := h.verdict
  models x hx := by
    obtain ⟨d, hd, hrest⟩ := h.models x hx
    exact ⟨d, hsub hd, hrest⟩
  runs due run hmem := by
    obtain ⟨hd, hrest⟩ := h.runs due run hmem
    exact ⟨hsub hd, hrest⟩
  sent t uri findings version hmem := by
    obtain ⟨d, hd, hrest⟩ := h.sent t uri findings version hmem
    exact ⟨d, hsub hd, hrest⟩

/-- How a validation starts of a known document that is stored. -/
theorem startRun_eq (h : Faithful services known s) (htells : Tells known) {e : Event} {s₁ : Server σ μ}
    {uri : String} (hstarts : Starts s e s₁ uri) {d : Document} (hd : s.document? uri = some d)
    (hknown : d ∈ known) : (s₁.startRun uri).2 = startOf s₁.nextRun d (s.parsed d) := by
  obtain ⟨_, _, _, hframe, hsub⟩ := hstarts.frame
  have hmodels : ModelsOf known s₁ := h.models.of_frame (by rw [hframe]) (by rw [hframe]; exact hsub)
  have hd : s₁.document? uri = some d := by
    rw [hframe]
    exact hd
  rw [(Server.startRun_eq hd).1, hmodels.getModel_eq htells hknown]
  rw [hframe]
  rfl

/-- A validation that has just started has the findings of a known document. -/
theorem starts (h : Faithful services known s) (htells : Tells known)
    (hstored : ∀ uri d, s.document? uri = some d → d ∈ known) {e : Event} {s₁ : Server σ μ} {uri : String}
    (hstarts : Starts s e s₁ uri) {duration : Nat} {run : Run}
    (hrun : (s₁.startRun uri).2 = .running duration run) : run.document ∈ known ∧
      run.findings = services.verdict run.document ∧ run.findings.isSome = true := by
  have hd : s.document? uri = some run.document := by
    have hd := document_of_startRun hrun
    obtain ⟨_, _, _, hframe, -⟩ := hstarts.frame
    rw [hframe] at hd
    exact hd
  have hknown := hstored uri _ hd
  rw [h.startRun_eq htells hstarts hd hknown] at hrun
  obtain ⟨hfindings, hsome⟩ := findings_of_startOf h.steady hrun
  exact ⟨hknown, hfindings.trans (h.verdict _), hsome⟩

theorem step (h : Faithful services known s) (htells : Tells known)
    (hstored : ∀ uri d, s.document? uri = some d → d ∈ known) {e : Event} (hstep : Step s e s') :
    Faithful services known s' := by
  have hservices := hstep.services
  refine ⟨?_, fun d => ?_, fun x hx => ?_, fun due run hmem => ?_, fun t uri findings version hmem => ?_⟩
  · rcases hservices with hs | ⟨settings, hs⟩
    · exact hs ▸ h.steady
    · exact hs ▸ h.steady.configure settings
  · rw [← h.verdict]
    rcases hservices with hs | ⟨settings, hs⟩
    · rw [hs]
    · rw [hs, h.steady.verdict_configure]
  · rcases hstep.kept hx with ⟨y, hy, hkey, hversion, hvalue⟩ | ⟨d, v, hd, hversion, hparsed⟩
    · obtain ⟨d, hd, huri, hversion', v, hparsed⟩ := h.models y hy
      rw [hkey, hversion, hvalue]
      exact ⟨d, hd, huri, hversion', hstep.parsed hparsed⟩
    · exact ⟨d, hstored _ d hd, uri_of_document? hd, hversion.symm, hstep.parsed hparsed⟩
  · rcases hstep.mem_of_mem_agenda hmem with hmem | ⟨s₁, uri, duration, hstarts, -, hrun⟩
    · exact h.runs due run hmem
    · exact h.starts htells hstored hstarts hrun
  · obtain ⟨new, hnew⟩ := hstep.sent
    rw [hnew, List.mem_append] at hmem
    rcases hmem with hmem | hmem
    · obtain ⟨s₁, run, hends, -, -, hfindings, huri, hversion⟩ := hstep.published hnew hmem
      refine ⟨run.document, ?_⟩
      have hrun : run.document ∈ known ∧ run.findings = services.verdict run.document ∧
          run.findings.isSome = true := by
        cases hends with
        | atOnce hstarts hrun => exact h.starts htells hstored hstarts hrun
        | @later _ _ due _ hagenda _ => exact h.runs due run (by rw [hagenda]; simp)
      obtain ⟨hknown, hverdict, -⟩ := hrun
      exact ⟨hknown, huri, hversion, by rw [← hverdict, hfindings]⟩
    · exact h.sent t uri findings version hmem

end Faithful

theorem faithful_of_reaches {services : Registry σ μ} (hsteady : services.Steady) {events : List Event}
    {s : Server σ μ} (h : (boot services).Reaches events s) (htelling : Telling events) :
    Faithful services (made events) s := by
  induction h with
  | nil =>
    refine ⟨hsteady, fun _ => rfl, ?_, ?_, ?_⟩
    · intro x hx
      cases hx
    · intro due run hmem
      cases hmem
    · intro t uri findings version hmem
      cases hmem
  | @snoc events e s s' hreach hstep ih =>
    have htelling := htelling.of_snoc
    refine ((ih htelling).step htelling (fun uri d hd => mem_made_of_document? hreach hd) hstep).mono ?_
    rw [made_snoc]
    exact List.subset_append_left _ _

end Server

end LangHost
