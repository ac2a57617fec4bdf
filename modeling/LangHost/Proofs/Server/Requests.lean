import LangHost.Proofs.Plain.Host
import LangHost.Proofs.Server.Transparency
/-!
# Requests only read

A request looks up the model of a document and hands both to the service. So all that it can change is the
cache, and the note of what was parsed (`answer_frame`). What becomes of the cache and what is answered is
settled by how the lookup ends (`Served`): nothing is open, nothing handles the document, the document
cannot be parsed, or there is a model to answer from.

A document that cannot be parsed is the host's fault. The error, however, is chosen by the fault alone, and
two faults are laid to the client wherever they come from. A service that fails with one of them, because it
misses another document or another service itself, is reported as a mistake of the client
(`request_served_iff`).
-/

namespace LangHost

variable {σ μ : Type}

/-! ## Answers on the wire -/

/-- The response to a question about a document: what the service finds, in the shape of the question. -/
def Query.respond (q : Query) (v : Service σ μ) (d : Document) (m : μ) : Json :=
  match q with
  | .completion p => Json.orNull (·.toJson) (v.complete v.settings d p m)
  | .hover p => Json.orNull (·.toJson) (v.hover v.settings d p m)
  | .definition p =>
    -- nothing for no place, the place itself for one, and an array for several
    match v.definition v.settings d p m with
    | [] => .null
    | [l] => l.toJson
    | ls => .arr (ls.map (·.toJson))
  | .references p => .arr ((v.references v.settings d p m).map (·.toJson))
  | .highlights p => .arr ((v.highlights v.settings d p m).map (·.toJson))
  | .symbols => .arr ((v.symbols v.settings d m).map (·.toJson))
  | .codeActions range ds => .arr ((v.codeActions v.settings d range ds m).map (·.toJson))
  | .rename p newName => Json.orNull (·.toJson) (v.rename v.settings d p newName m)
  | .format range options => .arr ((v.format v.settings d range options m).map (·.toJson))

theorem Query.orNull_ask (q : Query) (v : Service σ μ) (d : Document) (m : μ) :
    Json.orNull (·.toJson) (q.ask v d m) = q.respond v d m := by
  cases q with
  | completion p =>
    simp only [Query.ask, Query.respond]
    cases v.complete v.settings d p m <;> rfl
  | hover p =>
    simp only [Query.ask, Query.respond]
    cases v.hover v.settings d p m <;> rfl
  | definition p =>
    simp only [Query.ask, Query.respond]
    rcases v.definition v.settings d p m with _ | ⟨l, _ | ⟨l', ls⟩⟩ <;> rfl
  | rename p newName =>
    simp only [Query.ask, Query.respond]
    cases v.rename v.settings d p newName m <;> rfl
  | _ => rfl

/-- Faults that are laid to the client. -/
def Fault.isClients : Fault → Bool
  | .noLanguageService _ => true
  | .documentNotFound _ => true
  | _ => false

theorem Fault.toRpcError_eq (f : Fault) :
    f.toRpcError = if f.isClients then .invalidParams f.message else .internalError f.message := by
  cases f <;> rfl

/-- A result or an error, as the response to a message. -/
def Response.of : Except RpcError Json → Response
  | .ok v => .result v
  | .error e => .error e

theorem Registry.require_eq_ok {r : Registry σ μ} {kind : String} {v : Service σ μ} :
    r.require kind = .ok v ↔ r.forKind? kind = some v := by
  unfold Registry.require
  cases r.forKind? kind <;> simp

theorem Registry.require_eq_error {r : Registry σ μ} {kind : String} {f : Fault} :
    r.require kind = .error f ↔ r.forKind? kind = none ∧ f = .noLanguageService kind := by
  unfold Registry.require
  cases r.forKind? kind with
  | some v => simp
  | none => simp [eq_comm]

namespace Server

/-- What a request is answered on the wire. -/
def response (s : Server σ μ) (r : Request) : Except RpcError Json :=
  (s.answer r).2.map (Json.orNull (·.toJson))

theorem receive_request {s : Server σ μ} (hphase : s.phase = .initialized) {m : Message} {r : Request}
    (hasks : asks? m = some r) : s.receive m = ((s.answer r).1, Response.of (s.response r)) := by
  unfold asks? at hasks
  split at hasks
  · rename_i decode hmethod
    split at hasks
    · rename_i hcall
      cases hr : m.decode decode with
      | error e => simp [hr, Except.toOption] at hasks
      | ok r' =>
        obtain rfl : r' = r := by simpa [hr, Except.toOption] using hasks
        simp only [receive, if_false, hmethod, hphase, if_true, receiveRegular, hcall, hr,
          Bool.not_true, Bool.false_eq_true, response]
        rcases s.answer r' with ⟨s', e | answer⟩ <;> rfl
    · cases hasks
  · cases hasks

/-! ## How a request ends -/

/-- What becomes of the cache and what is answered if a request fails where it should and as it should. -/
inductive Served (s : Server σ μ) (r : Request) : Cache String μ → Except RpcError Json → Prop where
  /-- The document is not open. -/
  | closed (hd : s.document? r.uri = none) : Served s r s.models (.ok .null)
  /-- No service handles the document. -/
  | unhandled {d : Document} (hd : s.document? r.uri = some d) (hv : s.services.forKind? d.kind = none) :
      Served s r s.models (.error (.invalidParams (Fault.noLanguageService d.kind).message))
  /-- The document has to be parsed and cannot be: a miss is counted and nothing else changes. -/
  | unparsed {d : Document} {v : Service σ μ} {f : Fault} (hd : s.document? r.uri = some d)
      (hv : s.services.forKind? d.kind = some v)
      (hmiss : s.models.hit? d.uri d.version d.kind = none) (hp : v.parse d = .error f) :
      Served s r
        { s.models with stats := { s.models.stats with misses := s.models.stats.misses + 1 } }
        (.error (.internalError f.message))
  /-- The cache has the model of the document. -/
  | cached {d : Document} {v : Service σ μ} {e : Cache.Entry String μ} (hd : s.document? r.uri = some d)
      (hv : s.services.forKind? d.kind = some v)
      (hhit : s.models.hit? d.uri d.version d.kind = some e) :
      Served s r (s.models.touch e s.clock) (.ok (r.query.respond v d e.stored.value))
  /-- The document is parsed. -/
  | parsed {d : Document} {v : Service σ μ} {m : μ} (hd : s.document? r.uri = some d)
      (hv : s.services.forKind? d.kind = some v)
      (hmiss : s.models.hit? d.uri d.version d.kind = none) (hp : v.parse d = .ok m) :
      Served s r
        (s.models.miss.keep s.clock d.uri d.version d.kind ⟨s.models.stats.misses, m⟩)
        (.ok (r.query.respond v d m))

/-- `Fails s r d f`: the request asks for the model of the stored document `d`, which is not in the cache
and which its service fails to parse with `f`. -/
structure Fails (s : Server σ μ) (r : Request) (d : Document) (f : Fault) : Prop where
  stored : s.document? r.uri = some d
  miss : s.models.hit? d.uri d.version d.kind = none
  parse : ∃ v, s.services.forKind? d.kind = some v ∧ v.parse d = .error f

variable {s : Server σ μ} {r : Request}

theorem response_eq {d : Document} (hd : s.document? r.uri = some d) :
    s.response r =
      match modelOf (s.getModel d).2 with
      | .error f => .error f.toRpcError
      | .ok (v, m) => .ok (r.query.respond v d m) := by
  rw [response, answer_eq hd]
  cases modelOf (s.getModel d).2 with
  | error f => rfl
  | ok found => exact congrArg Except.ok (r.query.orNull_ask found.1 d found.2)

theorem getModel_hit {d : Document} {v : Service σ μ} {e : Cache.Entry String μ}
    (hv : s.services.forKind? d.kind = some v)
    (hhit : s.models.hit? d.uri d.version d.kind = some e) :
    (s.getModel d).2 = .ok (v, e.stored) := by
  simp only [getModel, Registry.require_eq_ok.2 hv, Cache.get, hhit]
  rfl

/-- A document that cannot be parsed costs a miss and is answered with the error of the fault. -/
theorem Fails.answer {d : Document} {f : Fault} (h : Fails s r d f) :
    (s.answer r).1.models = s.models.miss ∧ s.response r = .error f.toRpcError := by
  obtain ⟨v, hv, hp⟩ := h.parse
  have hlookup := s.getModel_lookup d
  rw [response_eq h.stored, answer_eq h.stored]
  generalize (s.getModel d).1 = s₁ at hlookup ⊢
  generalize (s.getModel d).2 = result at hlookup ⊢
  cases hlookup with
  | unknown hrequire =>
    rw [(Registry.require_eq_error.1 hrequire).1] at hv
    cases hv
  | hit _ hhit =>
    rw [h.miss] at hhit
    cases hhit
  | failed hrequire _ hparse =>
    obtain rfl := Option.some.inj (hv.symm.trans (Registry.require_eq_ok.1 hrequire))
    obtain rfl := Except.error.inj (hp.symm.trans hparse)
    exact ⟨rfl, rfl⟩
  | parsed hrequire _ hparse =>
    obtain rfl := Option.some.inj (hv.symm.trans (Registry.require_eq_ok.1 hrequire))
    cases hp.symm.trans hparse

/-- A request ends as it should unless a fault of the parser is laid to the client. -/
theorem served_of_lookup (hfault : ∀ d f, Fails s r d f → f.isClients = false) :
    Served s r (s.answer r).1.models (s.response r) := by
  cases hd : s.document? r.uri with
  | none =>
    have hanswer : s.answer r = (s, .ok none) := by simp [answer, hd]
    rw [response, hanswer]
    exact .closed hd
  | some d =>
    have hlookup := s.getModel_lookup d
    rw [response_eq hd, answer_eq hd]
    generalize (s.getModel d).1 = s₁ at hlookup ⊢
    generalize (s.getModel d).2 = result at hlookup ⊢
    cases hlookup with
    | unknown hrequire =>
      obtain ⟨hnone, rfl⟩ := Registry.require_eq_error.1 hrequire
      exact .unhandled hd hnone
    | hit hrequire hhit => exact .cached hd (Registry.require_eq_ok.1 hrequire) hhit
    | @failed v f hrequire hmiss hparse =>
      have hv := Registry.require_eq_ok.1 hrequire
      have hours := hfault d f ⟨hd, hmiss, v, hv, hparse⟩
      simp only [modelOf, f.toRpcError_eq, hours]
      exact .unparsed hd hv hmiss hparse
    | parsed hrequire hmiss hparse => exact .parsed hd (Registry.require_eq_ok.1 hrequire) hmiss hparse

/-- A document that cannot be parsed is to be answered with an internal error. -/
theorem Fails.response_of_served {d : Document} {f : Fault} (h : Fails s r d f) {models : Cache String μ}
    {response : Except RpcError Json} (hserved : Served s r models response) :
    response = .error (.internalError f.message) := by
  obtain ⟨v, hv, hp⟩ := h.parse
  have hstored := h.stored
  cases hserved with
  | closed hd =>
    rw [hd] at hstored
    cases hstored
  | unhandled hd hnone =>
    obtain rfl := Option.some.inj (hd.symm.trans hstored)
    rw [hnone] at hv
    cases hv
  | unparsed hd hv' _ hp' =>
    obtain rfl := Option.some.inj (hd.symm.trans hstored)
    obtain rfl := Option.some.inj (hv.symm.trans hv')
    obtain rfl := Except.error.inj (hp.symm.trans hp')
    rfl
  | cached hd _ hhit =>
    obtain rfl := Option.some.inj (hd.symm.trans hstored)
    rw [h.miss] at hhit
    cases hhit
  | parsed hd hv' _ hp' =>
    obtain rfl := Option.some.inj (hd.symm.trans hstored)
    obtain rfl := Option.some.inj (hv.symm.trans hv')
    cases hp.symm.trans hp'

/-- A request changes nothing but the cache and the note of what was parsed, and an initialized session
sends its response as it is. The request ends as it should just if no fault of a parser is laid to the
client; such a fault costs a miss too, but it is reported as wrong parameters. As long as the client is
orderly, a cached model is what the service makes of the stored document. -/
theorem request_served_iff (s : Server σ μ) (r : Request) :
    (∃ models history, (s.answer r).1 = { s with models, history }) ∧
    (s.phase = .initialized → ∀ m, asks? m = some r →
      s.receive m = ((s.answer r).1, Response.of (s.response r))) ∧
    (Served s r (s.answer r).1.models (s.response r) ↔ ∀ d f, Fails s r d f → f.isClients = false) ∧
    (∀ d f, Fails s r d f → f.isClients = true →
      (s.answer r).1.models = s.models.miss ∧ s.response r = .error (.invalidParams f.message)) ∧
    ∀ services events, (boot services).Reaches events s → Distinct events →
      ∀ d v e, s.document? r.uri = some d → s.services.forKind? d.kind = some v →
        s.models.hit? d.uri d.version d.kind = some e → v.parse d = .ok e.stored.value := by
  refine ⟨s.answer_frame r, fun hphase m hasks => receive_request hphase hasks, ⟨?_, served_of_lookup⟩, ?_, ?_⟩
  · intro hserved d f hfails
    have hresponse := hfails.response_of_served hserved
    rw [hfails.answer.2, f.toRpcError_eq] at hresponse
    cases hclients : f.isClients with
    | false => rfl
    | true =>
      rw [hclients] at hresponse
      cases hresponse
  · intro d f hfails hclients
    obtain ⟨hmodels, hresponse⟩ := hfails.answer
    rw [f.toRpcError_eq, hclients] at hresponse
    exact ⟨hmodels, hresponse⟩
  · intro services events hreach hdistinct d v e hd hv hhit
    have hmodel := (sound_of_reaches hreach hdistinct).getModel_eq hd
    rw [getModel_hit hv hhit] at hmodel
    exact (parsed_eq_ok.1 hmodel.symm).2

/-- A text is opened that is no plain text. -/
def openedBinary : List Event := [.setUp none, .notification (.opened ⟨"a", "plaintext", 1, "\x00"⟩)]

/-- That it cannot be parsed is an internal error. -/
theorem request_served_iff_openedBinary : ∃ s : Server Plain.Settings Plain.Model,
    (boot (Plain.services id some)).Reaches openedBinary s ∧
    ∃ f, Fails s ⟨"a", .symbols⟩ ⟨"a", "plaintext", 1, "\x00"⟩ f ∧
      s.response ⟨"a", .symbols⟩ = .error (.internalError f.message) := by
  obtain ⟨s, hreach, hd, hv, hmiss⟩ : ∃ s : Server Plain.Settings Plain.Model,
      (boot (Plain.services id some)).Reaches openedBinary s ∧
      s.document? "a" = some ⟨"a", "plaintext", 1, "\x00"⟩ ∧
      s.services.forKind? "plaintext" = some (Plain.service id some) ∧
      s.models.hit? "a" 1 "plaintext" = none :=
    ⟨_, .snoc (.snoc .nil (.setUp _ rfl)) (.notification _ rfl), rfl, rfl, rfl⟩
  have hparse : (Plain.service id some).parse ⟨"a", "plaintext", 1, "\x00"⟩ =
      .error (Plain.Fault.binaryContent 0).toFault := rfl
  have hfails : Fails s ⟨"a", .symbols⟩ ⟨"a", "plaintext", 1, "\x00"⟩ _ := ⟨hd, hmiss, _, hv, hparse⟩
  obtain ⟨-, -, hserved, -⟩ := request_served_iff s ⟨"a", .symbols⟩
  refine ⟨s, hreach, _, hfails, hfails.response_of_served (hserved.2 ?_)⟩
  intro d f h
  obtain rfl := Option.some.inj (hd.symm.trans h.stored)
  obtain ⟨v, hv', hp⟩ := h.parse
  obtain rfl := Option.some.inj (hv.symm.trans hv')
  obtain rfl := Except.error.inj (hparse.symm.trans hp)
  rfl

/-- The services of a host in which every text includes a document that is not open. -/
def including : Registry Unit Unit :=
  ({} : Registry Unit Unit).register
    { id := "include", displayName := "Include", kinds := ["text"], settings := ()
      parse := fun _ => .error (.documentNotFound "b")
      validate := fun _ _ _ _ => { findings := some [] } }

/-- A request about an open document of a registered kind is answered as if the document were not open. -/
theorem parse_failure_laid_to_client : ∃ s : Server Unit Unit,
    (boot including).Reaches [.setUp none, .notification (.opened ⟨"a", "text", 1, "x"⟩)] s ∧
    Fails s ⟨"a", .symbols⟩ ⟨"a", "text", 1, "x"⟩ (.documentNotFound "b") ∧
    s.response ⟨"a", .symbols⟩ = .error (.invalidParams "document not open: b") ∧
    ¬ Served s ⟨"a", .symbols⟩ (s.answer ⟨"a", .symbols⟩).1.models (s.response ⟨"a", .symbols⟩) := by
  obtain ⟨s, hreach, hd, hmiss, hv⟩ : ∃ s : Server Unit Unit,
      (boot including).Reaches [.setUp none, .notification (.opened ⟨"a", "text", 1, "x"⟩)] s ∧
      s.document? "a" = some ⟨"a", "text", 1, "x"⟩ ∧ s.models.hit? "a" 1 "text" = none ∧
      ∃ v, s.services.forKind? "text" = some v ∧
        v.parse ⟨"a", "text", 1, "x"⟩ = .error (.documentNotFound "b") :=
    ⟨_, .snoc (.snoc .nil (.setUp _ rfl)) (.notification _ rfl), rfl, rfl, _, rfl, rfl⟩
  have hfails : Fails s ⟨"a", .symbols⟩ ⟨"a", "text", 1, "x"⟩ (.documentNotFound "b") := ⟨hd, hmiss, hv⟩
  have hresponse := hfails.answer.2
  refine ⟨s, hreach, hfails, hresponse, ?_⟩
  intro hserved
  cases hresponse.symm.trans (hfails.response_of_served hserved)

end Server

end LangHost
