import LangHost.Registry
import Mathlib.Data.List.Induction
import Mathlib.Data.List.Nodup
/-!
# Where a kind is routed

Two registrations decide which service handles a kind: the last one that declares the kind says under
which id the service is looked for, and the last one of that id says which service it is
(`require_of_history`). They are the same one as long as no service takes the place of another one of
its id. Otherwise the kind may be routed to a service that does not declare it, for a registration
takes no kind away from its id (`declares_iff_not_replaced`).
-/

namespace LangHost.Registry

variable {σ μ : Type}

/-! ## The last registration with a property -/

/-- `Latest history p s`: of the registrations that satisfy `p`, that of `s` was the last. -/
def Latest (history : List (Service σ μ)) (p : Service σ μ → Prop) (s : Service σ μ) : Prop :=
  ∃ earlier later, history = earlier ++ s :: later ∧ p s ∧ ∀ t ∈ later, ¬ p t

section Latest

variable {history more : List (Service σ μ)} {p : Service σ μ → Prop} {s t : Service σ μ}

theorem latest_concat :
    Latest (history ++ [t]) p s ↔ p t ∧ s = t ∨ ¬ p t ∧ Latest history p s := by
  constructor
  · rintro ⟨earlier, later, hsplit, hs, hlater⟩
    rcases List.eq_nil_or_concat later with rfl | ⟨later, last, rfl⟩
    · obtain ⟨-, hst⟩ := List.append_inj' hsplit rfl
      obtain rfl : t = s := by simpa using hst
      exact .inl ⟨hs, rfl⟩
    · have hsplit : history ++ [t] = (earlier ++ s :: later) ++ [last] := by simpa using hsplit
      obtain ⟨rfl, hlast⟩ := List.append_inj' hsplit rfl
      obtain rfl : t = last := by simpa using hlast
      refine .inr ⟨hlater t (by simp), earlier, later, rfl, hs, fun u hu => ?_⟩
      exact hlater u (by simp [hu])
  · rintro (⟨ht, rfl⟩ | ⟨ht, earlier, later, rfl, hs, hlater⟩)
    · exact ⟨history, [], rfl, ht, by simp⟩
    · refine ⟨earlier, later ++ [t], by simp, hs, fun u hu => ?_⟩
      rcases List.mem_append.1 hu with hu | hu
      · exact hlater u hu
      · rw [List.mem_singleton.1 hu]
        exact ht

theorem Latest.mem (h : Latest history p s) : s ∈ history ∧ p s := by
  obtain ⟨earlier, later, rfl, hs, -⟩ := h
  exact ⟨by simp, hs⟩

theorem Latest.unique (hs : Latest history p s) (ht : Latest history p t) : s = t := by
  induction history using List.reverseRecOn with
  | nil =>
    obtain ⟨hmem, -⟩ := hs.mem
    cases hmem
  | append_singleton history u ih =>
    rcases latest_concat.1 hs with ⟨hu, rfl⟩ | ⟨hu, hs⟩
    · rcases latest_concat.1 ht with ⟨-, rfl⟩ | ⟨hu', -⟩
      · rfl
      · exact absurd hu hu'
    · rcases latest_concat.1 ht with ⟨hu', -⟩ | ⟨-, ht⟩
      · exact absurd hu' hu
      · exact ih hs ht

theorem exists_latest : (∃ s, Latest history p s) ↔ ∃ s ∈ history, p s := by
  constructor
  · rintro ⟨s, hs⟩
    exact ⟨s, hs.mem⟩
  · induction history using List.reverseRecOn with
    | nil => simp
    | append_singleton history t ih =>
      rintro ⟨s, hmem, hs⟩
      by_cases ht : p t
      · exact ⟨t, latest_concat.2 (.inl ⟨ht, rfl⟩)⟩
      · have hmem : s ∈ history := by
          rcases List.mem_append.1 hmem with hmem | hmem
          · exact hmem
          · rw [List.mem_singleton.1 hmem] at hs
            exact absurd hs ht
        obtain ⟨last, hlast⟩ := ih ⟨s, hmem, hs⟩
        exact ⟨last, latest_concat.2 (.inr ⟨ht, hlast⟩)⟩

/-- A registration with the property leaves earlier ones behind. -/
theorem Latest.of_append (h : Latest (history ++ more) p s) (hmore : ∃ t ∈ more, p t) :
    Latest more p s := by
  obtain ⟨t, ht⟩ := exists_latest.2 hmore
  obtain ⟨earlier, later, rfl, hp, hlater⟩ := ht
  have hlast : Latest (history ++ (earlier ++ t :: later)) p t :=
    ⟨history ++ earlier, later, by simp, hp, hlater⟩
  rw [h.unique hlast]
  exact ⟨earlier, later, rfl, hp, hlater⟩

end Latest

/-! ## One registration -/

theorem lookup_filter_ne (kinds : List (String × String)) {k kind : String} (h : kind ≠ k) :
    (kinds.filter (·.1 ≠ k)).lookup kind = kinds.lookup kind := by
  induction kinds with
  | nil => rfl
  | cons entry kinds ih => grind

theorem lookup_register (r : Registry σ μ) (s : Service σ μ) (kind : String) :
    (r.register s).kinds.lookup kind = if kind ∈ s.kinds then some s.id else r.kinds.lookup kind := by
  -- the kinds are entered one after the other, and a later one leaves the others alone
  suffices hall : ∀ kinds known : List _,
      (kinds.foldl (fun ks k => (k, s.id) :: ks.filter (·.1 ≠ k)) known).lookup kind =
        if kind ∈ kinds then some s.id else known.lookup kind from hall s.kinds r.kinds
  intro kinds
  induction kinds with
  | nil => simp
  | cons k kinds ih =>
    intro known
    rw [List.foldl_cons, ih, List.lookup_cons]
    by_cases hk : kind = k
    · subst hk
      simp
    · rw [beq_false_of_ne hk, lookup_filter_ne known hk]
      simp [hk]

theorem get?_register (r : Registry σ μ) (s : Service σ μ) (id : String) :
    (r.register s).get? id = if s.id = id then some s else r.get? id := by
  simp only [get?, register, List.find?_cons]
  by_cases h : s.id = id
  · simp [h]
  · simp only [h, decide_false, if_false, List.find?_filter]
    congr 1
    funext t
    by_cases ht : t.id = id
    · simp [ht, Ne.symm h]
    · simp [ht]

theorem mem_kinds_register {r : Registry σ μ} {s : Service σ μ} {entry : String × String}
    (h : entry ∈ (r.register s).kinds) : entry.2 = s.id ∨ entry ∈ r.kinds := by
  suffices hall : ∀ kinds known : List _,
      entry ∈ kinds.foldl (fun ks k => (k, s.id) :: ks.filter (·.1 ≠ k)) known →
        entry.2 = s.id ∨ entry ∈ known from hall s.kinds r.kinds h
  intro kinds
  induction kinds with
  | nil => exact fun known hentry => .inr hentry
  | cons k kinds ih =>
    intro known hentry
    rcases ih _ hentry with hid | hentry
    · exact .inl hid
    · rcases List.mem_cons.1 hentry with rfl | hentry
      · exact .inl rfl
      · exact .inr (List.mem_filter.1 hentry).1

theorem nodup_ids_register {r : Registry σ μ} (h : r.ids.Nodup) (s : Service σ μ) :
    (r.register s).ids.Nodup := by
  refine List.nodup_cons.2 ⟨?_, h.sublist (List.filter_sublist.map _)⟩
  simp

/-! ## Every history -/

/-- The registry after the given registrations. -/
def ofHistory (history : List (Service σ μ)) : Registry σ μ := history.foldl register {}

/-- A registry knows what the registrations so far have told it. -/
structure Records (history : List (Service σ μ)) (r : Registry σ μ) : Prop where
  kind_iff : ∀ kind id, r.kinds.lookup kind = some id ↔
    ∃ d, Latest history (fun s => kind ∈ s.kinds) d ∧ d.id = id
  get?_iff : ∀ id s, r.get? id = some s ↔ Latest history (fun s => s.id = id) s
  ids : r.ids.Nodup
  known : ∀ entry ∈ r.kinds, ∃ s ∈ history, s.id = entry.2

theorem Records.register {history : List (Service σ μ)} {r : Registry σ μ} (h : Records history r)
    (s : Service σ μ) : Records (history ++ [s]) (r.register s) where
  kind_iff kind id := by
    rw [lookup_register]
    by_cases hkind : kind ∈ s.kinds
    · simp [latest_concat, hkind]
    · simp [latest_concat, hkind, h.kind_iff]
  get?_iff id t := by
    rw [get?_register]
    by_cases hid : s.id = id
    · simp [latest_concat, hid, eq_comm]
    · simp [latest_concat, hid, h.get?_iff]
  ids := nodup_ids_register h.ids s
  known entry hentry := by
    rcases mem_kinds_register hentry with hid | hentry
    · exact ⟨s, by simp, hid.symm⟩
    · obtain ⟨t, ht, hid⟩ := h.known entry hentry
      exact ⟨t, by simp [ht], hid⟩

theorem records_ofHistory (history : List (Service σ μ)) : Records history (ofHistory history) := by
  induction history using List.reverseRecOn with
  | nil =>
    refine ⟨fun kind id => ?_, fun id s => ?_, List.nodup_nil, fun entry hentry => ?_⟩
    · simp [ofHistory, Latest]
    · simp [ofHistory, get?, Latest]
    · cases hentry
  | append_singleton history s ih =>
    rw [ofHistory, List.foldl_append]
    exact ih.register s

namespace Records

variable {history : List (Service σ μ)} {r : Registry σ μ}

theorem forKind?_iff (h : Records history r) {kind : String} {s : Service σ μ} :
    r.forKind? kind = some s ↔
      ∃ d, Latest history (fun t => kind ∈ t.kinds) d ∧ Latest history (fun t => t.id = d.id) s := by
  simp only [forKind?, Option.bind_eq_some_iff, h.kind_iff, h.get?_iff]
  constructor
  · rintro ⟨id, ⟨d, hd, rfl⟩, hs⟩
    exact ⟨d, hd, hs⟩
  · rintro ⟨d, hd, hs⟩
    exact ⟨d.id, ⟨d, hd, rfl⟩, hs⟩

theorem forKind?_eq_none (h : Records history r) {kind : String} :
    r.forKind? kind = none ↔ ∀ s ∈ history, kind ∉ s.kinds := by
  rw [Option.eq_none_iff_forall_ne_some]
  constructor
  · intro hnone s hs hkind
    obtain ⟨d, hd⟩ := exists_latest (p := fun t => kind ∈ t.kinds).2 ⟨s, hs, hkind⟩
    obtain ⟨t, ht⟩ := exists_latest (p := fun t => t.id = d.id).2 ⟨d, hd.mem.1, rfl⟩
    exact hnone t (h.forKind?_iff.2 ⟨d, hd, ht⟩)
  · intro hall s hs
    obtain ⟨d, hd, -⟩ := h.forKind?_iff.1 hs
    exact hall d hd.mem.1 hd.mem.2

/-- No entry of a kind points to an id without a service. -/
theorem exists_get? (h : Records history r) {entry : String × String} (hentry : entry ∈ r.kinds) :
    ∃ s, r.get? entry.2 = some s := by
  obtain ⟨t, ht, hid⟩ := h.known entry hentry
  obtain ⟨s, hs⟩ := exists_latest (p := fun s => s.id = entry.2).2 ⟨t, ht, hid⟩
  exact ⟨s, (h.get?_iff _ s).2 hs⟩

theorem mem_services (h : Records history r) {s : Service σ μ} :
    s ∈ r.services ↔ Latest history (fun t => t.id = s.id) s := by
  rw [← h.get?_iff]
  constructor
  · intro hs
    obtain ⟨t, ht⟩ : ∃ t, r.get? s.id = some t := by
      rw [← Option.isSome_iff_exists, get?, List.find?_isSome]
      exact ⟨s, hs, by simp⟩
    have hid : t.id = s.id := by simpa using List.find?_some ht
    rw [ht, List.inj_on_of_nodup_map h.ids (List.mem_of_find?_eq_some ht) hs hid]
  · exact List.mem_of_find?_eq_some

end Records

/-- What a lookup finds is decided by the registrations so far. Where no service has declared the kind
it fails and tells the kind; otherwise it finds the service registered last under the id of the one
that declared the kind last. No kind points to an id without a service, no id is there twice, and the
services are the last ones registered of every id. -/
theorem require_of_history (history : List (Service σ μ)) :
    let r := ofHistory history
    (∀ kind, r.require kind = .error (.noLanguageService kind) ↔ ∀ s ∈ history, kind ∉ s.kinds) ∧
      (∀ kind s, r.require kind = .ok s ↔
        ∃ d, Latest history (fun t => kind ∈ t.kinds) d ∧ Latest history (fun t => t.id = d.id) s) ∧
      (∀ entry ∈ r.kinds, ∃ s, r.get? entry.2 = some s) ∧
      r.ids.Nodup ∧
      ∀ s, s ∈ r.services ↔ ∃ id, Latest history (fun t => t.id = id) s := by
  intro r
  have hr : Records history r := records_ofHistory history
  refine ⟨fun kind => ?_, fun kind s => ?_, fun entry hentry => hr.exists_get? hentry, hr.ids, fun s => ?_⟩
  · rw [← hr.forKind?_eq_none, require]
    cases r.forKind? kind <;> simp
  · rw [← hr.forKind?_iff, require]
    cases r.forKind? kind <;> simp
  · rw [hr.mem_services]
    constructor
    · exact fun hs => ⟨s.id, hs⟩
    · rintro ⟨id, hs⟩
      obtain rfl : s.id = id := hs.mem.2
      exact hs

/-- A service that knows nothing but its kinds. -/
def stub (id name : String) (kinds : List String) : Service Unit Unit where
  id := id
  displayName := name
  kinds := kinds
  settings := ()
  parse _ := .ok ()
  validate _ _ _ _ := { findings := some [] }

/-- The service `a` is registered anew for other kinds, after `b` has taken one of its kinds. -/
def renewed : List (Service Unit Unit) :=
  [stub "a" "one" ["x", "y"], stub "b" "two" ["y", "z"], stub "a" "three" ["z"]]

/-- The last to declare `y` is `b`, and the last to declare `x` is `a`, which has been replaced. -/
theorem require_of_history_renewed :
    (ofHistory renewed).require "y" = .ok (stub "b" "two" ["y", "z"]) ∧
      (ofHistory renewed).require "x" = .ok (stub "a" "three" ["z"]) ∧
      (ofHistory renewed).require "w" = .error (.noLanguageService "w") := by
  obtain ⟨hnone, hsome, -⟩ := require_of_history renewed
  refine ⟨(hsome _ _).2 ?_, (hsome _ _).2 ?_, (hnone _).2 (by simp [renewed, stub])⟩
  · refine ⟨stub "b" "two" ["y", "z"], ⟨[_], [_], rfl, ?_⟩, ⟨[_], [_], rfl, ?_⟩⟩
    · simp [stub]
    · simp [stub]
  · refine ⟨stub "a" "one" ["x", "y"], ⟨[], [_, _], rfl, ?_⟩, ⟨[_, _], [], rfl, ?_⟩⟩
    · simp [stub]
    · simp [stub]

/-- A kind is routed to a service that declares it just if the service that declared it last was not
replaced since by another one of its id. -/
theorem declares_iff_not_replaced {history : List (Service σ μ)} {kind : String} {s : Service σ μ}
    (h : (ofHistory history).forKind? kind = some s) :
    ∃ earlier d later, history = earlier ++ d :: later ∧ kind ∈ d.kinds ∧
      (∀ t ∈ later, kind ∉ t.kinds) ∧ s.id = d.id ∧
      (kind ∈ s.kinds ↔ ∀ t ∈ later, t.id ≠ d.id) := by
  obtain ⟨d, hd, hs⟩ := (records_ofHistory history).forKind?_iff.1 h
  obtain ⟨earlier, later, rfl, hkind, hlater⟩ := hd
  refine ⟨earlier, d, later, rfl, hkind, hlater, hs.mem.2, ?_⟩
  constructor
  · intro hdeclares t ht hid
    -- then the service comes from the registrations after that of `d`, and none of them declares the kind
    have hsplit : earlier ++ d :: later = (earlier ++ [d]) ++ later := by simp
    rw [hsplit] at hs
    have hmem := (hs.of_append ⟨t, ht, hid⟩).mem.1
    exact hlater s hmem hdeclares
  · intro hkept
    have hlast : Latest (earlier ++ d :: later) (fun t => t.id = d.id) d := ⟨earlier, later, rfl, rfl, hkept⟩
    rw [hs.unique hlast]
    exact hkind

/-- As long as `a` is not replaced, its kind goes to a service that declares it. -/
theorem declares_iff_not_replaced_beside :
    (ofHistory (renewed.take 2)).forKind? "x" = some (stub "a" "one" ["x", "y"]) ∧
      "x" ∈ (stub "a" "one" ["x", "y"]).kinds := by
  have hfound : (ofHistory (renewed.take 2)).forKind? "x" = some (stub "a" "one" ["x", "y"]) := rfl
  obtain ⟨earlier, d, later, hsplit, -, -, hid, hiff⟩ := declares_iff_not_replaced hfound
  refine ⟨hfound, hiff.2 fun t ht => ?_⟩
  -- whatever was registered after `d` is no first registration, so it is that of `b`
  have hlate : t ∈ (renewed.take 2).tail := by
    cases earlier with
    | nil =>
      rw [hsplit]
      exact ht
    | cons a earlier =>
      rw [hsplit]
      simp [ht]
  obtain rfl : t = stub "b" "two" ["y", "z"] := by simpa [renewed] using hlate
  rw [← hid]
  decide

/-- A service that is registered anew for other kinds is still given the kinds of the one that it
replaces. -/
theorem undeclared_kind_routed :
    ∃ s, (ofHistory renewed).forKind? "x" = some s ∧ "x" ∉ s.kinds :=
  ⟨stub "a" "three" ["z"], rfl, by decide⟩

end LangHost.Registry
