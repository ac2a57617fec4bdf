import LangHost.Proofs.Cache.Entries
import LangHost.Proofs.Server.Frame
import Mathlib.Data.List.Nodup
/-!
# The cache does not show

A cached model is handed out for a version and a kind; nobody looks at the text again. It is the
right model all the same, as long as the client opens only what is not open and does not use a
version twice between the opening and the closing of a document (`Distinct`): every entry was then
made of a revision since the opening (`Sound.models`), and that version has only one.
-/

namespace LangHost

/-! ## New settings leave the parsers as they are -/

theorem Registry.forKind?_configure {σ μ : Type} (r : Registry σ μ) (settings : Json) (kind : String) :
    (r.configure settings).forKind? kind = (r.forKind? kind).map (·.configured settings) := by
  have hget (id : String) : (r.configure settings).get? id = (r.get? id).map (·.configured settings) := by
    simp only [get?, configure, List.find?_map]
    rfl
  cases h : r.kinds.lookup kind with
  | none => simp [forKind?, configure, h]
  | some id =>
    simp only [forKind?, h, Option.bind_some, ← hget]
    simp [configure, h]

namespace Server

variable {σ μ : Type}

/-- What the service of a document makes of it, with no cache in between. -/
def parsed (s : Server σ μ) (d : Document) : Except Fault (Service σ μ × μ) :=
  match s.services.require d.kind with
  | .error f => .error f
  | .ok v => (v.parse d).map (v, ·)

theorem parsed_eq_ok {s : Server σ μ} {d : Document} {v : Service σ μ} {m : μ} :
    s.parsed d = .ok (v, m) ↔ s.services.forKind? d.kind = some v ∧ v.parse d = .ok m := by
  unfold parsed Registry.require
  cases s.services.forKind? d.kind with
  | none => simp
  | some w =>
    cases hp : w.parse d with
    | error f =>
      simp only [Except.map, hp, Option.some.injEq, reduceCtorEq, false_iff]
      rintro ⟨rfl, h⟩
      rw [hp] at h; cases h
    | ok m' =>
      simp only [Except.map, hp, Except.ok.injEq, Prod.mk.injEq, Option.some.injEq]
      constructor
      · rintro ⟨rfl, rfl⟩; exact ⟨rfl, hp⟩
      · rintro ⟨rfl, h⟩; rw [hp] at h; cases h; exact ⟨rfl, rfl⟩

/-! ## Every entry is of a revision since the opening -/

/-- The server holds the latest revisions, and its cached models are of revisions since the opening
of their documents, as the services make them. -/
structure Sound (c : Revisions) (s : Server σ μ) : Prop where
  documents : ∀ uri, s.document? uri = (c uri).head?
  versions : ∀ uri, ((c uri).map (·.version)).Nodup
  models : ∀ e ∈ s.models.entries, ∃ d ∈ c e.key, d.version = e.version ∧
    ∃ v, s.parsed d = .ok (v, e.stored.value)

namespace Sound

variable {c : Revisions} {s s' : Server σ μ}

theorem mem_revisions (h : Sound c s) {uri : String} {d : Document} (hd : s.document? uri = some d) :
    d ∈ c uri :=
  List.mem_of_head? (by rw [← h.documents, hd])

/-- A version since the opening belongs to one revision. -/
theorem eq_of_version (h : Sound c s) {uri : String} {d d' : Document} (hd : d ∈ c uri)
    (hd' : d' ∈ c uri) (hv : d.version = d'.version) : d = d' :=
  List.inj_on_of_nodup_map (h.versions uri) hd hd' hv

/-- The model of a stored document is what its service makes of it, wherever it comes from. -/
theorem getModel_eq (h : Sound c s) {uri : String} {d : Document} (hd : s.document? uri = some d) :
    modelOf (s.getModel d).2 = s.parsed d := by
  have hlookup := s.getModel_lookup d
  generalize (s.getModel d).1 = s₁ at hlookup
  generalize (s.getModel d).2 = r at hlookup ⊢
  cases hlookup with
  | unknown hv => simp [modelOf, parsed, hv]
  | failed hv _ hp => simp [modelOf, parsed, hv, hp, Except.map]
  | parsed hv _ hp => simp [modelOf, parsed, hv, hp, Except.map]
  | @hit v e hv he =>
    -- the entry is of a revision with this version, and that version has only one
    obtain ⟨hmem, hkey, hversion, -⟩ := Cache.mem_of_hit? he
    obtain ⟨d', hd', hv', w, hw⟩ := h.models e hmem
    have huri : d.uri = uri := uri_of_document? hd
    have heq : d' = d := h.eq_of_version (by rw [← huri, ← hkey]; exact hd') (h.mem_revisions hd)
      (by rw [hv', hversion])
    subst heq
    have hvw : v = w := by
      have hw' := (parsed_eq_ok.1 hw).1
      simp only [Registry.require, hw', Except.ok.injEq] at hv
      exact hv.symm
    rw [hw, hvw, modelOf]

/-! ### What keeps it -/

theorem of_frame (h : Sound c s) (hd : s'.documents = s.documents) (hs : s'.services = s.services)
    (hm : ∀ e ∈ s'.models.entries, e ∈ s.models.entries) : Sound c s' where
  documents uri := by rw [← h.documents]; simp only [document?, hd]
  versions := h.versions
  models e he := by
    obtain ⟨d, hdc, hv, v, hp⟩ := h.models e (hm e he)
    refine ⟨d, hdc, hv, v, ?_⟩
    rw [← hp]
    simp only [parsed, hs]

theorem getModel (h : Sound c s) {uri : String} {d : Document} (hd : s.document? uri = some d) :
    Sound c (s.getModel d).1 := by
  have hlookup := s.getModel_lookup d
  generalize (s.getModel d).1 = s₁ at hlookup ⊢
  generalize (s.getModel d).2 = r at hlookup
  have huri : d.uri = uri := uri_of_document? hd
  cases hlookup with
  | unknown _ => exact h
  | failed _ _ _ => exact h.of_frame rfl rfl fun e he => he
  | @hit v e₀ hv he₀ =>
    refine ⟨h.documents, h.versions, fun e he => ?_⟩
    rcases Cache.mem_of_mem_touch he with rfl | he
    · exact h.models e₀ (Cache.mem_of_hit? he₀).1
    · exact h.models e he
  | @parsed v m hv _ hp =>
    refine ⟨h.documents, h.versions, fun e he => ?_⟩
    rcases Cache.mem_of_mem_keep he with rfl | he
    · exact ⟨d, by rw [huri]; exact h.mem_revisions hd, rfl, v,
        by simp [Server.parsed, hv, hp, Except.map]⟩
    · exact h.models e he

theorem startRun (h : Sound c s) (uri : String) : Sound c (s.startRun uri).1 := by
  cases hd : s.document? uri with
  | none => simpa [Server.startRun, hd] using h
  | some d =>
    obtain ⟨_, _, hb⟩ := (s.getModel d).1.begun_frame (startOf s.nextRun d (modelOf (s.getModel d).2))
    rw [(startRun_eq hd).2, hb]
    exact (h.getModel hd).of_frame rfl rfl fun e he => he

theorem launch (h : Sound c s) (uri : String) : Sound c (s.launch uri) := by
  obtain ⟨sent, history, agenda, hc⟩ := (s.startRun uri).1.continueRun_frame (s.startRun uri).2
  rw [Server.launch, hc]
  exact (h.startRun uri).of_frame rfl rfl fun e he => he

theorem perform (h : Sound c s) (job : Debouncer.Job String Unit Run) : Sound c (s.perform job) := by
  cases job with
  | fire uri id _ =>
    rw [perform_fire]
    split
    · exact h
    · refine launch ?_ uri
      exact h.of_frame rfl rfl fun e he => he
  | resume run =>
    obtain ⟨sent, history, hf⟩ := s.finishRun_frame run
    simp only [Server.perform, hf]
    exact h.of_frame rfl rfl fun e he => he

theorem put (h : Sound c s) {d : Document} (hv : d.version ∉ (c d.uri).map (·.version)) :
    Sound (Function.update c d.uri (d :: c d.uri)) (s.putDocument d) where
  documents uri := by
    rw [document?_putDocument]
    by_cases hu : d.uri = uri
    · subst hu; simp
    · simp [hu, Ne.symm hu, h.documents]
  versions uri := by
    by_cases hu : d.uri = uri
    · subst hu
      simpa using ⟨by simpa using hv, h.versions d.uri⟩
    · simpa [Ne.symm hu] using h.versions uri
  models e he := by
    obtain ⟨d', hd', hrest⟩ := h.models e he
    refine ⟨d', ?_, hrest⟩
    by_cases hu : e.key = d.uri
    · rw [hu] at hd' ⊢; simp [hd']
    · simpa [hu] using hd'

theorem close (h : Sound c s) (uri : String) :
    Sound (Function.update c uri []) ((s.dropDocument uri).dropModel uri) where
  documents uri' := by
    show (s.dropDocument uri).document? uri' = _
    rw [document?_dropDocument]
    by_cases hu : uri = uri'
    · subst hu; simp
    · simp [hu, Ne.symm hu, h.documents]
  versions uri' := by
    by_cases hu : uri' = uri
    · subst hu; simp
    · simpa [hu] using h.versions uri'
  models e he := by
    obtain ⟨he, hkey⟩ := Cache.mem_remove.1 he
    obtain ⟨d, hd, hrest⟩ := h.models e he
    exact ⟨d, by simpa [hkey] using hd, hrest⟩

theorem applySettings (h : Sound c s) (settings : Json) : Sound c (s.applySettings settings) := by
  obtain ⟨config, models, sent, history, hs, hm⟩ := s.applySettings_frame settings
  rw [hs]
  refine ⟨h.documents, h.versions, fun e he => ?_⟩
  obtain ⟨d, hd, hv, v, hp⟩ := h.models e (hm e he)
  obtain ⟨hk, hparse⟩ := parsed_eq_ok.1 hp
  refine ⟨d, hd, hv, v.configured settings, parsed_eq_ok.2 ⟨?_, hparse⟩⟩
  rw [Registry.forKind?_configure, hk]
  rfl

theorem notify (h : Sound c s) {n : Notification}
    (ha : c.Admits (fun version used => version ∉ used) (.notification n)) :
    Sound (c.after (.notification n)) (s.notify n) := by
  cases n with
  | initialized =>
    obtain ⟨sent, hs⟩ := s.log_frame .info "genls ready"
    simp only [Server.notify, hs]
    exact h.of_frame rfl rfl fun e he => he
  | opened d =>
    have hclosed : c d.uri = [] := ha
    have hput := h.put (d := d) (by simp [hclosed])
    rw [hclosed] at hput
    obtain ⟨validations, sent, hs⟩ := s.openDocument_frame d
    simp only [Revisions.after, Server.notify, hs]
    exact hput.of_frame rfl rfl fun e he => he
  | changed uri version texts =>
    simp only [Revisions.after, Server.notify]
    cases ht : texts.getLast? with
    | none => exact h
    | some text =>
      have hne : texts ≠ [] := by rintro rfl; simp at ht
      have hdoc := h.documents uri
      cases hc : c uri with
      | nil =>
        rw [hc, List.head?_nil] at hdoc
        simpa [changeDocument, hdoc] using h
      | cons d rest =>
        rw [hc, List.head?_cons] at hdoc
        have huri : d.uri = uri := uri_of_document? hdoc
        subst huri
        have hput := h.put (d := d.update version text) (ha hne)
        obtain ⟨validations, hs⟩ := changeDocument_frame hdoc version text
        simp only [hs]
        simp only [Document.update, hc] at hput ⊢
        exact hput.of_frame rfl rfl fun e he => he
  | closed uri =>
    obtain ⟨validations, sent, hs⟩ := s.closeDocument_frame uri
    simp only [Revisions.after, Server.notify, hs]
    exact (h.close uri).of_frame rfl rfl fun e he => he
  | configured settings =>
    obtain ⟨validations, hs⟩ :=
      (s.applySettings settings).revalidate_frame (s.applySettings settings).config.validation
    simp only [Revisions.after, Server.notify, hs]
    exact (h.applySettings settings).of_frame rfl rfl fun e he => he

theorem step (h : Sound c s) {e : Event} (hs : Step s e s')
    (ha : c.Admits (fun version used => version ∉ used) e) : Sound (c.after e) s' := by
  cases hs with
  | setUp options _ =>
    cases options with
    | none => exact h.of_frame rfl rfl fun e he => he
    | some settings => exact (h.applySettings settings).of_frame rfl rfl fun e he => he
  | notification n _ => exact h.notify ha
  | request r _ =>
    show Sound c (s.answer r).1
    cases hd : s.document? r.uri with
    | none => simpa [answer, hd] using h
    | some d =>
      rw [answer_eq hd]
      exact h.getModel hd
  | shutDown _ => exact h.of_frame rfl rfl fun e he => Cache.mem_of_mem_dispose he
  | hangUp _ => exact h.of_frame rfl rfl fun e he => he
  | exit => exact h.of_frame rfl rfl fun e he => he
  | validation uri => exact h.launch uri
  | job front back item _ _ =>
    have ht : Sound c (s.take item.due (front ++ back)) :=
      h.of_frame rfl rfl fun e he => Cache.mem_of_mem_advance he
    exact ht.perform item.job
  | time t _ => exact h.of_frame rfl rfl fun e he => Cache.mem_of_mem_advance he

/-- It holds at the start of a validation too. -/
theorem starts (h : Sound c s) {e : Event} {uri : String} (hs : Starts s e s' uri) : Sound c s' := by
  cases hs with
  | direct => exact h
  | due _ _ _ => exact h.of_frame rfl rfl fun e he => Cache.mem_of_mem_advance he

end Sound

theorem sound_boot (services : Registry σ μ) : Sound (fun _ => []) (boot services) where
  documents _ := rfl
  versions _ := List.nodup_nil
  models e he := by cases he

/-- After every run of an orderly client, every cached model is of a revision since the opening. -/
theorem sound_of_reaches {services : Registry σ μ} {events : List Event} {s : Server σ μ}
    (h : (boot services).Reaches events s) (hd : Distinct events) : Sound (revisions events) s := by
  induction h with
  | nil => exact sound_boot services
  | snoc _ hs ih =>
    obtain ⟨hd, ha⟩ := orderly_snoc.1 hd
    rw [revisions_snoc]
    exact (ih hd).step hs ha

end Server

end LangHost
