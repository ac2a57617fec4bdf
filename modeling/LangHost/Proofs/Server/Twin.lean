import LangHost.Proofs.Plain.Host
import LangHost.Proofs.Server.Transparency
/-!
# Servers that differ in their caches only

Two servers with the same services see the same client, except that the client bounds their caches
differently. They stay `Twin`: all that can differ are the cached models, the bounds of the cache
and the notes of what was done. So they give the same answers and publish the same findings.

The services, however, are given all that the client sends. So this holds of services that ignore the
bounds of the cache (`Service.IgnoresCache`), and a service that does not can tell the two servers apart
(`cache_bounds_reported`).
-/

namespace LangHost

/-! ## Settings that differ in the bounds of the cache -/

/-- The client's settings are the same but for the section about the cache, which is well-formed in
both. -/
inductive Json.AlikeButCache : Json → Json → Prop where
  | refl (j : Json) : AlikeButCache j j
  | obj {fields fields' : List (String × Json)} {c c' : CacheConfig}
      (h : ∀ name, name ≠ "model_cache" → fields.lookup name = fields'.lookup name)
      (hc : Decode.orDefault CacheConfig.decode {} (fields.lookup "model_cache") = .ok c)
      (hc' : Decode.orDefault CacheConfig.decode {} (fields'.lookup "model_cache") = .ok c') :
      AlikeButCache (.obj fields) (.obj fields')
  | arr {items items' : List Json} {c c' : CacheConfig} (h : ∀ i, i ≠ 1 → items[i]? = items'[i]?)
      (hc : Decode.orDefault CacheConfig.decode {} items[1]? = .ok c)
      (hc' : Decode.orDefault CacheConfig.decode {} items'[1]? = .ok c') :
      AlikeButCache (.arr items) (.arr items')

/-- Lists that agree but for the second place are both short, or of one length. -/
theorem atMost_two_congr {items items' : List Json} (h : ∀ i, i ≠ 1 → items[i]? = items'[i]?) :
    Decode.atMost 2 items = Decode.atMost 2 items' := by
  have hlt (i : Nat) (hi : i ≠ 1) : items.length ≤ i ↔ items'.length ≤ i := by
    rw [← List.getElem?_eq_none_iff, ← List.getElem?_eq_none_iff, h i hi]
  have h₁ := hlt (items.length - 1)
  have h₂ := hlt (items'.length - 1)
  unfold Decode.atMost
  by_cases hshort : items.length ≤ 2
  · have : items'.length ≤ 2 := by omega
    simp [hshort, this]
  · have : items.length = items'.length := by omega
    simp [this]

/-- Such settings are refused for the same reason, or differ in the bounds of the cache only. -/
theorem Json.AlikeButCache.decode {j j' : Json} (h : j.AlikeButCache j') :
    (∃ e, Config.decode j = .error e ∧ Config.decode j' = .error e) ∨
      ∃ v c c', Config.decode j = .ok ⟨v, c⟩ ∧ Config.decode j' = .ok ⟨v, c'⟩ := by
  cases h with
  | refl =>
    cases hd : Config.decode j with
    | error e => exact .inl ⟨e, rfl, rfl⟩
    | ok config => exact .inr ⟨_, _, _, rfl, rfl⟩
  | obj h hc hc' =>
    simp only [Config.decode, hc, hc', h "validation" (by decide), bind, Except.bind, pure, Except.pure]
    cases Decode.orDefault ValidationConfig.decode {} (List.lookup "validation" _) with
    | error e => exact .inl ⟨e, rfl, rfl⟩
    | ok v => exact .inr ⟨v, _, _, rfl, rfl⟩
  | arr h hc hc' =>
    simp only [Config.decode, hc, hc', h 0 (by decide), atMost_two_congr h, bind, Except.bind, pure,
      Except.pure]
    cases Decode.orDefault ValidationConfig.decode {} _ with
    | error e => exact .inl ⟨e, rfl, rfl⟩
    | ok v =>
      cases Decode.atMost 2 _ with
      | error e => exact .inl ⟨e, rfl, rfl⟩
      | ok _ => exact .inr ⟨v, _, _, rfl, rfl⟩

/-- A service picks out the settings it understands and ignores the rest. The section about the cache
is the server's, and this service ignores it. -/
def Service.IgnoresCache {σ μ : Type} (v : Service σ μ) : Prop :=
  ∀ j j', Json.AlikeButCache j j' → v.configure j = v.configure j'

/-- The plain-text service reads its own section only. -/
theorem Plain.service_ignoresCache {μ : Type} (embed : Plain.Model → μ) (view : μ → Option Plain.Model)
    (settings : Plain.Settings) : (Plain.service embed view settings).IgnoresCache := by
  intro j j' h
  have hfield : j.field? Plain.kind = j'.field? Plain.kind := by
    cases h with
    | refl => rfl
    | obj h _ _ => exact h Plain.kind (by decide)
    | arr _ _ _ => rfl
  funext current
  simp only [Plain.service, Plain.Settings.configure, Plain.Settings.ofClient?, hfield]

theorem Registry.configure_congr {σ μ : Type} {r : Registry σ μ} {j j' : Json}
    (hr : ∀ v ∈ r.services, v.IgnoresCache) (h : j.AlikeButCache j') :
    r.configure j = r.configure j' := by
  have hmap : r.services.map (·.configured j) = r.services.map (·.configured j') :=
    List.map_congr_left fun v hv => by simp only [Service.configured, hr v hv j j' h]
  simp only [Registry.configure, hmap]

/-- One message, or one that brings other settings. -/
inductive Message.Alike : Message → Message → Prop where
  | refl (m : Message) : Alike m m
  | setUp {params params' : Option Json} {p p' : SetUp}
      (h : Message.decode ⟨"initialize", true, params⟩ SetUp.decode = .ok p)
      (h' : Message.decode ⟨"initialize", true, params'⟩ SetUp.decode = .ok p')
      (hs : p.snippets = p'.snippets) :
      Alike ⟨"initialize", true, params⟩ ⟨"initialize", true, params'⟩
  | configured (params params' : Option Json) :
      Alike ⟨"workspace/didChangeConfiguration", false, params⟩
        ⟨"workspace/didChangeConfiguration", false, params'⟩

namespace Server

variable {σ μ : Type}

/-! ## Twins -/

/-- Two servers that are the same but for the cached models, the bounds of the cache and the notes
of what was done. -/
def Twin (s t : Server σ μ) : Prop :=
  ∃ models cache history, t = { s with models, config := { s.config with cache }, history }

/-- One event, or one that brings settings with other bounds of the cache. -/
inductive Event.Alike : Event → Event → Prop where
  | refl (e : Event) : Alike e e
  | setUp {j j' : Json} (h : j.AlikeButCache j') : Alike (.setUp (some j)) (.setUp (some j'))
  | configured {j j' : Json} (h : j.AlikeButCache j') :
      Alike (.notification (.configured j)) (.notification (.configured j'))

namespace Twin

variable {c c' : Revisions} {s s' t t' : Server σ μ}

theorem of_frame (h : Twin s t) (models models' : Cache String μ) (history history' : List Activity) :
    Twin { s with models, history } { t with models := models', history := history' } := by
  obtain ⟨m, cache, hist, rfl⟩ := h
  exact ⟨models', cache, history', rfl⟩

theorem document?_eq (h : Twin s t) (uri : String) : t.document? uri = s.document? uri := by
  obtain ⟨_, _, _, rfl⟩ := h
  rfl

theorem validations_eq (h : Twin s t) : t.validations = s.validations := by
  obtain ⟨_, _, _, rfl⟩ := h
  rfl

theorem putDocument (h : Twin s t) (d : Document) : Twin (s.putDocument d) (t.putDocument d) := by
  obtain ⟨m, cache, hist, rfl⟩ := h
  exact ⟨m, cache, hist, rfl⟩

theorem send (h : Twin s t) (n : Notice) : Twin (s.send n) (t.send n) := by
  obtain ⟨m, cache, hist, rfl⟩ := h
  unfold Server.send
  simp only
  split <;> exact ⟨m, cache, hist, rfl⟩

theorem schedule (h : Twin s t) (v : ValidationConfig) (uri : String) :
    Twin (s.schedule v uri) (t.schedule v uri) := by
  obtain ⟨m, cache, hist, rfl⟩ := h
  unfold Server.schedule document?
  simp only
  split <;> exact ⟨m, cache, hist, rfl⟩

theorem scheduleAll (h : Twin s t) (v : ValidationConfig) (uris : List String) :
    Twin (uris.foldl (fun s uri => s.schedule v uri) s) (uris.foldl (fun s uri => s.schedule v uri) t) := by
  induction uris generalizing s t with
  | nil => exact h
  | cons uri uris ih => exact ih (h.schedule v uri)

theorem revalidate (h : Twin s t) (v : ValidationConfig) : Twin (s.revalidate v) (t.revalidate v) := by
  have hall := h.scheduleAll v (s.documents.map (·.uri))
  obtain ⟨m, cache, hist, rfl⟩ := h
  unfold Server.revalidate
  split
  · exact hall
  · exact ⟨m, cache, hist, rfl⟩

theorem released (h : Twin s t) (run : Run) : Twin (s.released run) (t.released run) := by
  have hcurrent : t.isCurrent run.document = s.isCurrent run.document := by
    obtain ⟨_, _, _, rfl⟩ := h; rfl
  unfold Server.released
  cases run.findings with
  | none => exact h
  | some findings =>
    simp only [hcurrent]
    split
    · exact h.send _
    · exact h

theorem finishRun (h : Twin s t) (run : Run) : Twin (s.finishRun run) (t.finishRun run) := by
  obtain ⟨history, hs⟩ := s.finishRun_eq run
  obtain ⟨history', ht⟩ := t.finishRun_eq run
  rw [hs, ht]
  exact (h.released run).of_frame _ _ _ _

theorem continueRun (h : Twin s t) (start : Start) : Twin (s.continueRun start) (t.continueRun start) := by
  cases start with
  | closed => exact h
  | refused _ => exact h
  | running duration run =>
    have hf := h.finishRun run
    obtain ⟨m, cache, hist, rfl⟩ := h
    simp only [Server.continueRun]
    split
    · exact hf
    · exact ⟨m, cache, hist, rfl⟩

/-! ### Where the cache is asked -/

theorem getModel_eq (h : Twin s t) (hs : Sound c s) (ht : Sound c' t) {uri : String} {d : Document}
    (hd : s.document? uri = some d) :
    modelOf (s.getModel d).2 = modelOf (t.getModel d).2 := by
  -- both caches are transparent, and without them the servers parse alike
  have hd' : t.document? uri = some d := by rw [h.document?_eq, hd]
  rw [hs.getModel_eq hd, ht.getModel_eq hd']
  obtain ⟨_, _, _, rfl⟩ := h
  rfl

theorem getModel (h : Twin s t) (d : Document) : Twin (s.getModel d).1 (t.getModel d).1 := by
  obtain ⟨_, _, hs⟩ := s.getModel_frame d
  obtain ⟨_, _, ht⟩ := t.getModel_frame d
  rw [hs, ht]
  exact h.of_frame _ _ _ _

theorem begun (h : Twin s t) (start : Start) : Twin (s.begun start) (t.begun start) := by
  cases start with
  | closed => exact h
  | refused f => exact h.send _
  | running _ _ =>
    obtain ⟨m, cache, hist, rfl⟩ := h
    exact ⟨m, cache, hist, rfl⟩

theorem launch (h : Twin s t) (hs : Sound c s) (ht : Sound c' t) (uri : String) :
    Twin (s.launch uri) (t.launch uri) := by
  have hdoc := h.document?_eq uri
  have hnext : t.nextRun = s.nextRun := by obtain ⟨_, _, _, rfl⟩ := h; rfl
  unfold Server.launch
  cases hd : s.document? uri with
  | none =>
    rw [hd] at hdoc
    simpa [startRun, hd, hdoc, Server.continueRun] using h
  | some d =>
    rw [hd] at hdoc
    obtain ⟨hs₂, hs₁⟩ := startRun_eq hd
    obtain ⟨ht₂, ht₁⟩ := startRun_eq hdoc
    rw [hs₁, hs₂, ht₁, ht₂, hnext, ← h.getModel_eq hs ht hd]
    exact ((h.getModel d).begun _).continueRun _

theorem answer_snd (h : Twin s t) (hs : Sound c s) (ht : Sound c' t) (r : Request) :
    (s.answer r).2 = (t.answer r).2 := by
  have hdoc := h.document?_eq r.uri
  cases hd : s.document? r.uri with
  | none => simp [answer, hdoc, hd]
  | some d =>
    rw [hd] at hdoc
    rw [answer_eq hd, answer_eq hdoc, h.getModel_eq hs ht hd]

theorem answer_fst (h : Twin s t) (r : Request) : Twin (s.answer r).1 (t.answer r).1 := by
  have hdoc := h.document?_eq r.uri
  cases hd : s.document? r.uri with
  | none => simpa [answer, hdoc, hd] using h
  | some d =>
    rw [hd] at hdoc
    rw [answer_eq hd, answer_eq hdoc]
    exact h.getModel d

theorem perform (h : Twin s t) (hs : Sound c s) (ht : Sound c' t)
    (job : Debouncer.Job String Unit Run) : Twin (s.perform job) (t.perform job) := by
  cases job with
  | resume run => exact h.finishRun run
  | fire uri id action =>
    rw [perform_fire, perform_fire, h.validations_eq]
    split
    · exact h
    · rename_i ledger _
      have hredeemed : Twin { s with validations := { s.validations with ledger } }
          { t with validations := { s.validations with ledger } } := by
        obtain ⟨m, cache, hist, rfl⟩ := h
        exact ⟨m, cache, hist, rfl⟩
      exact hredeemed.launch (hs.of_frame rfl rfl fun _ he => he)
        (ht.of_frame rfl rfl fun _ he => he) uri

theorem applySettings (h : Twin s t) (hq : ∀ v ∈ s.services.services, v.IgnoresCache) {j j' : Json}
    (hj : j.AlikeButCache j') : Twin (s.applySettings j) (t.applySettings j') := by
  have hservices : s.services.configure j = t.services.configure j' := by
    obtain ⟨_, _, _, rfl⟩ := h
    exact Registry.configure_congr hq hj
  -- the settings are refused by both servers, or they differ in the bounds of the cache
  rcases hj.decode with ⟨e, hd, hd'⟩ | ⟨v, b, b', hd, hd'⟩
  · obtain ⟨_, hs⟩ := s.applySettings_error hd
    obtain ⟨hist, ht⟩ := t.applySettings_error hd'
    obtain ⟨m, cache, _, hlog⟩ := h.send (.log .warning ("Invalid genls configuration: " ++ e.message))
    rw [hs, ht, ← hservices, log, log, hlog]
    exact ⟨m, cache, hist, rfl⟩
  · obtain ⟨_, hs⟩ := s.applySettings_ok hd
    obtain ⟨hist, ht⟩ := t.applySettings_ok hd'
    rw [hs, ht, ← hservices]
    obtain ⟨m, _, _, rfl⟩ := h
    exact ⟨_, b', hist, rfl⟩

theorem configure (h : Twin s t) (hq : ∀ v ∈ s.services.services, v.IgnoresCache) {j j' : Json}
    (hj : j.AlikeButCache j') : Twin (s.notify (.configured j)) (t.notify (.configured j')) := by
  have happly := h.applySettings hq hj
  have hconfig : (t.applySettings j').config.validation = (s.applySettings j).config.validation := by
    obtain ⟨_, _, _, heq⟩ := happly
    rw [heq]
  simp only [Server.notify, hconfig]
  exact happly.revalidate _

/-! ### Events -/

theorem notify (h : Twin s t) (n : Notification) (hq : ∀ v ∈ s.services.services, v.IgnoresCache) :
    Twin (s.notify n) (t.notify n) := by
  cases n with
  | initialized => exact h.send _
  | opened d =>
    have hput := h.putDocument d
    have hconfig : (t.putDocument d).config.validation = (s.putDocument d).config.validation := by
      obtain ⟨_, _, _, rfl⟩ := h; rfl
    have hservices : (t.putDocument d).services = (s.putDocument d).services := by
      obtain ⟨_, _, _, rfl⟩ := h; rfl
    simp only [Server.notify, openDocument, hservices, hconfig]
    split
    · exact hput.schedule _ _
    · exact hput.send _
  | changed uri version texts =>
    simp only [Server.notify]
    cases texts.getLast? with
    | none => exact h
    | some text =>
      have hconfig : t.config.validation = s.config.validation := by
        obtain ⟨_, _, _, rfl⟩ := h; rfl
      simp only [changeDocument, h.document?_eq, hconfig]
      cases s.document? uri with
      | none => exact h
      | some d => exact (h.putDocument _).schedule _ _
  | closed uri =>
    refine Twin.send ?_ _
    obtain ⟨m, cache, hist, rfl⟩ := h
    exact ⟨_, cache, hist, rfl⟩
  | configured settings => exact h.configure hq (.refl settings)

theorem step (h : Twin s t) (hs : Sound c s) (ht : Sound c' t)
    (hq : ∀ v ∈ s.services.services, v.IgnoresCache) {e e' : Event} (he : e.Alike e')
    (hstep : Step s e s') (hstep' : Step t e' t') : Twin s' t' := by
  cases he with
  | setUp hj =>
    cases hstep with | setUp _ _ =>
    cases hstep' with | setUp _ _ =>
    obtain ⟨m, cache, hist, heq⟩ := h.applySettings hq hj
    simp only [Server.setUp, heq]
    exact ⟨m, cache, hist, rfl⟩
  | configured hj =>
    cases hstep with | notification _ _ =>
    cases hstep' with | notification _ _ =>
    exact h.configure hq hj
  | refl =>
    cases hstep with
    | setUp options _ =>
      cases hstep' with | setUp _ _ =>
      cases options with
      | none =>
        obtain ⟨m, cache, hist, rfl⟩ := h
        exact ⟨m, cache, hist, rfl⟩
      | some j =>
        obtain ⟨m, cache, hist, heq⟩ := h.applySettings hq (.refl j)
        simp only [Server.setUp, heq]
        exact ⟨m, cache, hist, rfl⟩
    | notification n _ =>
      cases hstep' with | notification _ _ =>
      exact h.notify n hq
    | request r _ =>
      cases hstep' with | request _ _ =>
      exact h.answer_fst r
    | shutDown _ =>
      cases hstep' with | shutDown _ =>
      obtain ⟨m, cache, hist, rfl⟩ := h
      exact ⟨_, cache, hist, rfl⟩
    | hangUp _ =>
      cases hstep' with | hangUp _ =>
      obtain ⟨m, cache, hist, rfl⟩ := h
      exact ⟨m, cache, hist, rfl⟩
    | exit =>
      cases hstep' with | exit =>
      obtain ⟨m, cache, hist, rfl⟩ := h
      exact ⟨m, cache, hist, rfl⟩
    | validation uri =>
      cases hstep' with | validation _ =>
      exact h.launch hs ht uri
    | job front back item hagenda _ =>
      generalize hplace : front.length = place at hstep'
      cases hstep' with | job front' back' item' hagenda' _ =>
      -- the agendas are the same, so the same place holds the same job
      rw [h.validations_eq, hagenda] at hagenda'
      obtain ⟨rfl, htail⟩ := List.append_inj hagenda' hplace
      obtain ⟨rfl, rfl⟩ := List.cons.inj htail
      have hs' : Sound c (s.take item.due (front ++ back)) :=
        hs.of_frame rfl rfl fun _ he => Cache.mem_of_mem_advance he
      have ht' : Sound c' (t.take item.due (front ++ back)) :=
        ht.of_frame rfl rfl fun _ he => Cache.mem_of_mem_advance he
      refine Twin.perform ?_ hs' ht' item.job
      obtain ⟨m, cache, hist, rfl⟩ := h
      exact ⟨_, cache, hist, rfl⟩
    | time t₀ _ =>
      cases hstep' with | time _ _ =>
      obtain ⟨m, cache, hist, rfl⟩ := h
      exact ⟨_, cache, hist, rfl⟩

theorem receive_snd (h : Twin s t) (hs : Sound c s) (ht : Sound c' t) (m : Message) :
    (s.receive m).2 = (t.receive m).2 := by
  have hphase : t.phase = s.phase := by obtain ⟨_, _, _, rfl⟩ := h; rfl
  exact receive_congr hphase fun r _ => h.answer_snd hs ht r

/-- Twins give alike messages the same answer. -/
theorem receive_alike (h : Twin s t) (hs : Sound c s) (ht : Sound c' t) {m m' : Message}
    (hm : m.Alike m') : (s.receive m).2 = (t.receive m').2 := by
  cases hm with
  | refl => exact h.receive_snd hs ht m
  | @setUp params params' p p' hp hp' hsnippets =>
    rw [h.receive_snd hs ht]
    have hmethod : Wire.method? "initialize" = some .setUp := rfl
    simp only [Server.receive, receiveSetUp, hmethod, hp, hp', hsnippets, apply_ite Prod.snd]
  | configured params params' =>
    rw [h.receive_snd hs ht]
    have hmethod : Wire.method? "workspace/didChangeConfiguration" =
        some (.regular Wire.didChangeConfiguration) := rfl
    simp only [Server.receive, hmethod, Wire.didChangeConfiguration, Wire.notification, receiveRegular]
    split
    · rfl
    · split
      · simp only [Bool.false_eq_true, if_false]
        split <;> split <;> rfl
      · rfl

end Twin

theorem quiet_step {s s' : Server σ μ} {e : Event} (h : Step s e s')
    (hq : ∀ v ∈ s.services.services, v.IgnoresCache) : ∀ v ∈ s'.services.services, v.IgnoresCache := by
  rcases h.services with heq | ⟨settings, heq⟩ <;> rw [heq]
  · exact hq
  · intro v hv
    obtain ⟨w, hw, rfl⟩ := List.mem_map.1 hv
    exact hq w hw

/-- Two runs of orderly clients that differ in the bounds of the cache only lead to twins. -/
theorem twin_of_reaches {services : Registry σ μ} (hq : ∀ v ∈ services.services, v.IgnoresCache)
    {events events' : List Event} {s t : Server σ μ} (hs : (boot services).Reaches events s)
    (ht : (boot services).Reaches events' t) (hd : Distinct events) (hd' : Distinct events')
    (h : List.Forall₂ Event.Alike events events') :
    Twin s t ∧ ∀ v ∈ s.services.services, v.IgnoresCache := by
  -- along the first run; the second one ends with an event that is alike
  induction hs generalizing events' t with
  | nil =>
    cases h
    generalize hnil : [] = none at ht
    cases ht with
    | nil => exact ⟨⟨_, _, _, rfl⟩, hq⟩
    | snoc _ _ => simp at hnil
  | @snoc events e s s' hreach hstep ih =>
    cases ht with
    | nil => simp at h
    | @snoc events' e' t t' hreach' hstep' =>
      rw [← List.forall₂_reverse_iff] at h
      simp only [List.reverse_append, List.reverse_cons, List.reverse_nil, List.nil_append,
        List.singleton_append, List.forall₂_cons, List.forall₂_reverse_iff] at h
      obtain ⟨hd, _⟩ := orderly_snoc.1 hd
      obtain ⟨hd', _⟩ := orderly_snoc.1 hd'
      obtain ⟨htwin, hquiet⟩ := ih hreach' hd hd' h.2
      exact ⟨htwin.step (sound_of_reaches hreach hd) (sound_of_reaches hreach' hd') hquiet h.1 hstep hstep',
        quiet_step hstep hquiet⟩

/-- The cache does not show. Whatever an orderly client does, a request or a validation that asks
for the model of a stored document gets what the document's service makes of the stored text. So
two runs that differ in the bounds of the cache publish the same and give the same answers, if no
service makes anything of these bounds itself. -/
theorem cache_transparent (services : Registry σ μ) :
    (∀ (events : List Event) (s : Server σ μ),
      (boot services).Reaches events s → Distinct events →
        ∀ (e : Event) (s₁ : Server σ μ) (d : Document), Consults s e s₁ d →
          s₁.document? d.uri = some d ∧ modelOf (s₁.getModel d).2 = s₁.parsed d) ∧
    ((∀ v ∈ services.services, v.IgnoresCache) →
      ∀ (events events' : List Event) (s t : Server σ μ),
        (boot services).Reaches events s → (boot services).Reaches events' t →
        Distinct events → Distinct events' → List.Forall₂ Event.Alike events events' →
          s.sent = t.sent ∧
            ∀ m m' : Message, m.Alike m' → (s.receive m).2 = (t.receive m').2) := by
  constructor
  · intro events s hreach hdistinct e s₁ d hconsults
    have hsound := sound_of_reaches hreach hdistinct
    obtain ⟨uri, hsound₁, hd⟩ : ∃ uri, Sound (revisions events) s₁ ∧ s₁.document? uri = some d := by
      cases hconsults with
      | request _ hd => exact ⟨_, hsound, hd⟩
      | validation hstarts hd => exact ⟨_, hsound.starts hstarts, hd⟩
    rw [uri_of_document? hd]
    exact ⟨hd, hsound₁.getModel_eq hd⟩
  · intro hq events events' s t hs ht hd hd' halike
    obtain ⟨htwin, -⟩ := twin_of_reaches hq hs ht hd hd' halike
    constructor
    · obtain ⟨_, _, _, rfl⟩ := htwin
      rfl
    · intro m m' hm
      exact htwin.receive_alike (sound_of_reaches hs hd) (sound_of_reaches ht hd') hm

/-- Settings by which so many models are kept, each until it is pushed out. -/
def keeping (n : Nat) : Json :=
  .obj [("model_cache", .obj [("max_entries", .nat n), ("sweep_interval_secs", .int 0)])]

theorem alike_keeping : Json.AlikeButCache (keeping 10) (keeping 1) :=
  .obj (fun name hname => by simp [List.lookup_cons, beq_false_of_ne hname]) rfl rfl

/-- A client starts with some settings, opens a text, asks about it, edits it, asks again and gets
it validated. -/
def editing (settings : Json) : List Event :=
  [.setUp (some settings), .notification (.opened ⟨"a", "plaintext", 1, "x "⟩),
    .request ⟨"a", .symbols⟩, .notification (.changed "a" 2 ["x y "]), .request ⟨"a", .symbols⟩,
    .job 0]

/-- With a cache of ten models and with one of a single model, the edited text is seen as it is and the
same is published. -/
theorem cache_transparent_editing :
    ∃ s t : Server Plain.Settings Plain.Model,
      (boot (Plain.services id some)).Reaches (editing (keeping 10)) s ∧
      (boot (Plain.services id some)).Reaches (editing (keeping 1)) t ∧
      modelOf (s.getModel ⟨"a", "plaintext", 2, "x y "⟩).2 = s.parsed ⟨"a", "plaintext", 2, "x y "⟩ ∧
      s.sent = t.sent := by
  have hs : ∃ s, (boot (Plain.services id some)).Reaches (editing (keeping 10)) s :=
    ⟨_, .snoc (.snoc (.snoc (.snoc (.snoc (.snoc .nil (.setUp _ rfl)) (.notification _ rfl))
      (.request _ rfl)) (.notification _ rfl)) (.request _ rfl))
      (.job [] [] ⟨200, .fire "a" 1 ()⟩ rfl (by decide))⟩
  have ht : ∃ t, (boot (Plain.services id some)).Reaches (editing (keeping 1)) t :=
    ⟨_, .snoc (.snoc (.snoc (.snoc (.snoc (.snoc .nil (.setUp _ rfl)) (.notification _ rfl))
      (.request _ rfl)) (.notification _ rfl)) (.request _ rfl))
      (.job [] [] ⟨200, .fire "a" 1 ()⟩ rfl (by decide))⟩
  obtain ⟨s, hs⟩ := hs
  obtain ⟨t, ht⟩ := ht
  have hdoc : s.document? "a" = some ⟨"a", "plaintext", 2, "x y "⟩ :=
    (sound_of_reaches hs (by decide)).documents "a"
  obtain ⟨hmodel, hruns⟩ := cache_transparent (Plain.services id some)
  have hquiet : ∀ v ∈ (Plain.services id some).services, v.IgnoresCache := by
    intro v hv
    obtain rfl : v = Plain.service id some := by simpa [Plain.services, Registry.register] using hv
    exact Plain.service_ignoresCache _ _ _
  refine ⟨s, t, hs, ht, ?_, ?_⟩
  · exact (hmodel _ s hs (by decide) _ s _ (.validation (.direct s "a") hdoc)).2
  · refine (hruns hquiet _ _ s t hs ht (by decide) (by decide) ?_).1
    exact .cons (.setUp alike_keeping) (List.forall₂_same.2 fun _ _ => .refl _)

/-- A finding with a given message. -/
def report (message : String) : Diagnostic where
  range := .origin
  message := message

/-- The services of a host that knows one kind of text, and reports whether more than one model is kept. -/
def reporting : Registry CacheConfig String :=
  ({} : Registry CacheConfig String).register
    { id := "report", displayName := "Report", kinds := ["text"], settings := {}
      configure := fun j current => (Config.decode j).toOption.elim current (·.cache)
      parse := fun d => .ok d.text
      validate := fun bounds _ _ _ =>
        { findings := some [report (if 1 < bounds.maxEntries then "several models" else "one model")] } }

/-- A client starts with some settings, opens a text and gets it validated. -/
def reported (settings : Json) : List Event :=
  [.setUp (some settings), .notification (.opened ⟨"a", "text", 1, "x"⟩), .job 0]

/-- With the two caches, this host publishes different findings. -/
theorem cache_bounds_reported :
    ∃ s t : Server CacheConfig String,
      (boot reporting).Reaches (reported (keeping 10)) s ∧
      (boot reporting).Reaches (reported (keeping 1)) t ∧
      Distinct (reported (keeping 10)) ∧ Distinct (reported (keeping 1)) ∧
      List.Forall₂ Event.Alike (reported (keeping 10)) (reported (keeping 1)) ∧
      s.sent = [⟨200, .diagnostics "a" [report "several models"] (some 1)⟩] ∧
      t.sent = [⟨200, .diagnostics "a" [report "one model"] (some 1)⟩] ∧
      s.sent ≠ t.sent := by
  obtain ⟨s, hs, hsent⟩ : ∃ s, (boot reporting).Reaches (reported (keeping 10)) s ∧
      s.sent = [⟨200, .diagnostics "a" [report "several models"] (some 1)⟩] :=
    ⟨_, .snoc (.snoc (.snoc .nil (.setUp _ rfl)) (.notification _ rfl))
      (.job [] [] ⟨200, .fire "a" 0 ()⟩ rfl (by decide)), rfl⟩
  obtain ⟨t, ht, hsent'⟩ : ∃ t, (boot reporting).Reaches (reported (keeping 1)) t ∧
      t.sent = [⟨200, .diagnostics "a" [report "one model"] (some 1)⟩] :=
    ⟨_, .snoc (.snoc (.snoc .nil (.setUp _ rfl)) (.notification _ rfl))
      (.job [] [] ⟨200, .fire "a" 0 ()⟩ rfl (by decide)), rfl⟩
  refine ⟨s, t, hs, ht, by decide, by decide, ?_, hsent, hsent', ?_⟩
  · exact .cons (.setUp alike_keeping) (List.forall₂_same.2 fun _ _ => .refl _)
  · rw [hsent, hsent']
    simp [report]

end Server

end LangHost
