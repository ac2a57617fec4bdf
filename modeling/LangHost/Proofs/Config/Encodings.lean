import LangHost.Config
import Mathlib.Algebra.Group.Int.Defs
import Mathlib.Algebra.Group.Nat.Defs
/-!
# The written forms of a configuration

A configuration is a record of two records, and a record is written as an object or as an array. An object
gives a field by its name, an array by its place (`Json.given?`), and this is all that the two forms differ
in: `Config.decode_eq_ok` says what a configuration is read from in terms of the given parts alone. So the
form does not matter, at either level, nor does anything that is given under a name that is not known
(`config_encodings_exact`).
-/

namespace LangHost

/-! ## Records -/

namespace Json

/-- What a record gives for a field: an object by its name, an array by its place. -/
def given? (name : String) (place : Nat) : Json → Option Json
  | .obj fields => fields.lookup name
  | .arr items => items[place]?
  | _ => none

/-- A value that can be a record of so many fields: an object, or an array that is not too long. -/
inductive IsRecord (count : Nat) : Json → Prop where
  | obj (fields : List (String × Json)) : IsRecord count (.obj fields)
  | arr {items : List Json} (h : items.length ≤ count) : IsRecord count (.arr items)

/-- A field holds its default when it is not given, and else what `reads` finds in what is given. -/
def Field {α : Type} (reads : Json → α → Prop) (default : α) : Option Json → α → Prop
  | none, a => a = default
  | some v, a => reads v a

/-- A natural number below `2^64`. -/
def IsNat64 (v : Json) (n : Nat) : Prop := v = .int n ∧ n < 2 ^ 64

/-- A whole number from `-2^63` up to but not including `2^63`. -/
def IsInt64 (v : Json) (n : Int) : Prop := v = .int n ∧ -2 ^ 63 ≤ n ∧ n < 2 ^ 63

/-- A record with the given fields, as an object that has them by their names, among others perhaps, or as
an array of them in their order. -/
inductive Writes (fields : List (String × Json)) : Json → Prop where
  | obj {entries : List (String × Json)} (h : ∀ f ∈ fields, entries.lookup f.1 = some f.2) :
      Writes fields (.obj entries)
  | arr : Writes fields (.arr (fields.map (·.2)))

/-- Two values that are the same but for fields of other names than the known ones. -/
inductive AgreeOn (known : List String) : Json → Json → Prop where
  | refl (v : Json) : AgreeOn known v v
  | obj {fields fields' : List (String × Json)}
      (h : ∀ name ∈ known, fields.lookup name = fields'.lookup name) :
      AgreeOn known (.obj fields) (.obj fields')

/-- Two values that are the same or records of the given fields which give the same for each of them. -/
inductive SameRecord (fields : List String) : Json → Json → Prop where
  | refl (v : Json) : SameRecord fields v v
  | record {v v' : Json} (h : v.IsRecord fields.length) (h' : v'.IsRecord fields.length)
      (hgiven : ∀ place name, fields[place]? = some name → v.given? name place = v'.given? name place) :
      SameRecord fields v v'

section Field

variable {α : Type} {reads : Json → α → Prop} {default : α}

theorem Field.exists_iff {given : Option Json} :
    (∃ a, Field reads default given a) ↔ ∀ v ∈ given, ∃ a, reads v a := by
  cases given with
  | none => exact iff_of_true ⟨default, rfl⟩ nofun
  | some v => exact ⟨by rintro h w ⟨⟩; exact h, fun h => h v rfl⟩

/-- What a field holds is as its default is if all that can be read is so. -/
theorem Field.of_forall {P : α → Prop} (hdefault : P default) (hreads : ∀ v a, reads v a → P a)
    {given : Option Json} {a : α} (h : Field reads default given a) : P a := by
  cases given with
  | none =>
    obtain rfl : a = default := h
    exact hdefault
  | some v => exact hreads v a h

theorem Field.congr {R : Json → Json → Prop} (hreads : ∀ v v', R v v' → ∀ a, reads v a ↔ reads v' a)
    (default : α) {given given' : Option Json} (h : Option.Rel R given given') (a : α) :
    Field reads default given a ↔ Field reads default given' a := by
  cases h with
  | none => exact Iff.rfl
  | some h => exact hreads _ _ h a

end Field

theorem Writes.isRecord {fields : List (String × Json)} {v : Json} (h : Writes fields v) :
    v.IsRecord fields.length := by
  cases h with
  | obj _ => exact .obj _
  | arr => exact .arr (by simp)

theorem Writes.given? {fields : List (String × Json)} {v : Json} (h : Writes fields v) {place : Nat}
    {name : String} {w : Json} (hfield : fields[place]? = some (name, w)) :
    v.given? name place = some w := by
  cases h with
  | obj h => exact h (name, w) (List.mem_of_getElem? hfield)
  | arr => simp [Json.given?, hfield]

end Json

/-! ## Decoders of parts -/

namespace Decode

variable {α β : Type}

theorem bind_eq_ok {x : Except DecodeError α} {f : α → Except DecodeError β} {b : β} :
    x >>= f = .ok b ↔ ∃ a, x = .ok a ∧ f a = .ok b := by
  cases x with
  | error e => exact iff_of_false nofun nofun
  | ok a => exact ⟨fun h => ⟨a, rfl, h⟩, by rintro ⟨_, ⟨⟩, h⟩; exact h⟩

theorem bool_eq_ok {v : Json} {b : Bool} : Decode.bool v = .ok b ↔ v = .bool b := by
  cases v <;> simp [Decode.bool]

theorem integer_eq_ok {lo hi : Int} {name : String} {v : Json} {n : Int} :
    Decode.integer lo hi name v = .ok n ↔ v = .int n ∧ lo ≤ n ∧ n ≤ hi := by
  cases v with
  | int k =>
    simp only [Decode.integer]
    split
    · rename_i hk
      constructor
      · rintro ⟨⟩
        exact ⟨rfl, hk⟩
      · rintro ⟨⟨⟩, -⟩
        rfl
    · rename_i hk
      refine iff_of_false nofun ?_
      rintro ⟨⟨⟩, hn⟩
      exact hk hn
  | _ => simp [Decode.integer]

theorem integer64_eq_ok {name : String} {v : Json} {n : Int} :
    Decode.integer64 name v = .ok n ↔ v.IsInt64 n := by
  rw [Decode.integer64, integer_eq_ok, Json.IsInt64]
  constructor
  · rintro ⟨hv, hlo, hhi⟩
    exact ⟨hv, by omega, by omega⟩
  · rintro ⟨hv, hlo, hhi⟩
    exact ⟨hv, by omega, by omega⟩

theorem natural64_eq_ok {name : String} {v : Json} {n : Nat} :
    Decode.natural64 name v = .ok n ↔ v.IsNat64 n := by
  unfold Decode.natural64 Decode.natural Json.IsNat64
  constructor
  · intro h
    cases hk : Decode.integer 0 (0xFFFFFFFFFFFFFFFF : Nat) name v with
    | error e =>
      rw [hk] at h
      cases h
    | ok k =>
      rw [hk] at h
      cases h
      obtain ⟨rfl, hlo, hhi⟩ := integer_eq_ok.1 hk
      exact ⟨by rw [Int.toNat_of_nonneg hlo], by omega⟩
  · rintro ⟨rfl, hn⟩
    rw [integer_eq_ok.2 ⟨rfl, by omega, by omega⟩]
    rfl

theorem orDefault_eq_ok {decode : Decoder α} {reads : Json → α → Prop}
    (h : ∀ v a, decode v = .ok a ↔ reads v a) {default : α} {given : Option Json} {a : α} :
    Decode.orDefault decode default given = .ok a ↔ Json.Field reads default given a := by
  cases given with
  | none => exact ⟨by rintro ⟨⟩; rfl, by rintro ⟨⟩; rfl⟩
  | some v => exact h v a

theorem orDefault_congr {decode : Decoder α} {R : Json → Json → Prop}
    (h : ∀ v v', R v v' → decode v = decode v') (default : α) {given given' : Option Json}
    (hgiven : Option.Rel R given given') :
    Decode.orDefault decode default given = Decode.orDefault decode default given' := by
  cases hgiven with
  | none => rfl
  | some hv => exact h _ _ hv

theorem atMost_eq_ok {count : Nat} {items : List Json} {u : Unit} :
    Decode.atMost count items = .ok u ↔ items.length ≤ count := by
  unfold Decode.atMost
  split <;> simp [*]

end Decode

/-! ## The section about validation -/

namespace ValidationConfig

/-- The names of the fields, in their order. -/
def names : List String := ["enabled", "delay_ms"]

/-- A record whose given fields are of their kinds. -/
structure WellTyped (v : Json) : Prop where
  record : v.IsRecord 2
  enabled : ∀ w ∈ v.given? "enabled" 0, ∃ b, w = .bool b
  delayMs : ∀ w ∈ v.given? "delay_ms" 1, ∃ n, w.IsNat64 n

/-- Every field is what the record gives for it, or else its default. -/
structure Says (v : Json) (c : ValidationConfig) : Prop where
  record : v.IsRecord 2
  enabled : Json.Field (fun w b => w = .bool b) true (v.given? "enabled" 0) c.enabled
  delayMs : Json.Field Json.IsNat64 200 (v.given? "delay_ms" 1) c.delayMs

/-- A written form of the section. -/
def Writes (c : ValidationConfig) : Json → Prop :=
  Json.Writes [("enabled", .bool c.enabled), ("delay_ms", .nat c.delayMs)]

variable {v v' : Json} {c : ValidationConfig}

theorem decode_eq_ok : decode v = .ok c ↔ Says v c := by
  cases v with
  | obj fields =>
    simp only [decode, Decode.bind_eq_ok, Decode.orDefault_eq_ok fun _ _ => Decode.bool_eq_ok,
      Decode.orDefault_eq_ok fun _ _ => Decode.natural64_eq_ok]
    constructor
    · rintro ⟨delayMs, hdelay, enabled, henabled, ⟨⟩⟩
      exact ⟨.obj fields, henabled, hdelay⟩
    · rintro ⟨-, henabled, hdelay⟩
      exact ⟨_, hdelay, _, henabled, rfl⟩
  | arr items =>
    simp only [decode, Decode.bind_eq_ok, Decode.orDefault_eq_ok fun _ _ => Decode.bool_eq_ok,
      Decode.orDefault_eq_ok fun _ _ => Decode.natural64_eq_ok, Decode.atMost_eq_ok]
    constructor
    · rintro ⟨enabled, henabled, delayMs, hdelay, -, hlength, ⟨⟩⟩
      exact ⟨.arr hlength, henabled, hdelay⟩
    · rintro ⟨⟨⟩ | ⟨hlength⟩, henabled, hdelay⟩
      exact ⟨_, henabled, _, hdelay, (), hlength, rfl⟩
  | _ => exact iff_of_false nofun nofun

theorem exists_says : (∃ c, Says v c) ↔ WellTyped v := by
  constructor
  · rintro ⟨c, hrecord, henabled, hdelay⟩
    exact ⟨hrecord, Json.Field.exists_iff.1 ⟨_, henabled⟩, Json.Field.exists_iff.1 ⟨_, hdelay⟩⟩
  · rintro ⟨hrecord, henabled, hdelay⟩
    obtain ⟨enabled, henabled⟩ := Json.Field.exists_iff.2 henabled
    obtain ⟨delayMs, hdelay⟩ := Json.Field.exists_iff.2 hdelay
    exact ⟨⟨enabled, delayMs⟩, hrecord, henabled, hdelay⟩

theorem decode_congr (h : Json.AgreeOn names v v') : decode v = decode v' := by
  cases h with
  | refl => rfl
  | obj h => simp only [decode, h "delay_ms" (by decide), h "enabled" (by decide)]

theorem says_congr (h : Json.SameRecord names v v') (c : ValidationConfig) : Says v c ↔ Says v' c := by
  cases h with
  | refl => exact Iff.rfl
  | record h h' hgiven =>
    have henabled := hgiven 0 "enabled" rfl
    have hdelay := hgiven 1 "delay_ms" rfl
    constructor
    · rintro ⟨-, he, hd⟩
      exact ⟨h', henabled ▸ he, hdelay ▸ hd⟩
    · rintro ⟨-, he, hd⟩
      exact ⟨h, henabled.symm ▸ he, hdelay.symm ▸ hd⟩

theorem says_of_writes (hrange : c.delayMs < 2 ^ 64) (h : c.Writes v) : Says v c := by
  refine ⟨h.isRecord, ?_, ?_⟩
  · rw [@Json.Writes.given? _ _ h 0 "enabled" _ rfl]
    rfl
  · rw [@Json.Writes.given? _ _ h 1 "delay_ms" _ rfl]
    exact ⟨rfl, hrange⟩

theorem Says.delayMs_lt (h : Says v c) : c.delayMs < 2 ^ 64 :=
  h.delayMs.of_forall (P := (· < 2 ^ 64)) (by decide) fun _ _ hread => hread.2

end ValidationConfig

/-! ## The section about the cache -/

namespace CacheConfig

/-- The names of the fields, in their order. -/
def names : List String := ["max_entries", "ttl_secs", "sweep_interval_secs"]

/-- A record whose given fields are of their kinds. -/
structure WellTyped (v : Json) : Prop where
  record : v.IsRecord 3
  maxEntries : ∀ w ∈ v.given? "max_entries" 0, ∃ n, w.IsNat64 n
  ttlSecs : ∀ w ∈ v.given? "ttl_secs" 1, ∃ n, w.IsInt64 n
  sweepIntervalSecs : ∀ w ∈ v.given? "sweep_interval_secs" 2, ∃ n, w.IsInt64 n

/-- Every field is what the record gives for it, or else its default. -/
structure Says (v : Json) (c : CacheConfig) : Prop where
  record : v.IsRecord 3
  maxEntries : Json.Field Json.IsNat64 10 (v.given? "max_entries" 0) c.maxEntries
  ttlSecs : Json.Field Json.IsInt64 60 (v.given? "ttl_secs" 1) c.ttlSecs
  sweepIntervalSecs : Json.Field Json.IsInt64 60 (v.given? "sweep_interval_secs" 2) c.sweepIntervalSecs

/-- A written form of the section. -/
def Writes (c : CacheConfig) : Json → Prop :=
  Json.Writes [("max_entries", .nat c.maxEntries), ("ttl_secs", .int c.ttlSecs),
    ("sweep_interval_secs", .int c.sweepIntervalSecs)]

/-- Every field fits into 64 bits. -/
structure InRange (c : CacheConfig) : Prop where
  maxEntries : c.maxEntries < 2 ^ 64
  ttlSecs : -2 ^ 63 ≤ c.ttlSecs ∧ c.ttlSecs < 2 ^ 63
  sweepIntervalSecs : -2 ^ 63 ≤ c.sweepIntervalSecs ∧ c.sweepIntervalSecs < 2 ^ 63

variable {v v' : Json} {c : CacheConfig}

theorem decode_eq_ok : decode v = .ok c ↔ Says v c := by
  cases v with
  | obj fields =>
    simp only [decode, Decode.bind_eq_ok, Decode.orDefault_eq_ok fun _ _ => Decode.natural64_eq_ok,
      Decode.orDefault_eq_ok fun _ _ => Decode.integer64_eq_ok]
    constructor
    · rintro ⟨maxEntries, hmax, sweepIntervalSecs, hsweep, ttlSecs, httl, ⟨⟩⟩
      exact ⟨.obj fields, hmax, httl, hsweep⟩
    · rintro ⟨-, hmax, httl, hsweep⟩
      exact ⟨_, hmax, _, hsweep, _, httl, rfl⟩
  | arr items =>
    simp only [decode, Decode.bind_eq_ok, Decode.orDefault_eq_ok fun _ _ => Decode.natural64_eq_ok,
      Decode.orDefault_eq_ok fun _ _ => Decode.integer64_eq_ok, Decode.atMost_eq_ok]
    constructor
    · rintro ⟨maxEntries, hmax, ttlSecs, httl, sweepIntervalSecs, hsweep, -, hlength, ⟨⟩⟩
      exact ⟨.arr hlength, hmax, httl, hsweep⟩
    · rintro ⟨⟨⟩ | ⟨hlength⟩, hmax, httl, hsweep⟩
      exact ⟨_, hmax, _, httl, _, hsweep, (), hlength, rfl⟩
  | _ => exact iff_of_false nofun nofun

theorem exists_says : (∃ c, Says v c) ↔ WellTyped v := by
  constructor
  · rintro ⟨c, hrecord, hmax, httl, hsweep⟩
    exact ⟨hrecord, Json.Field.exists_iff.1 ⟨_, hmax⟩, Json.Field.exists_iff.1 ⟨_, httl⟩,
      Json.Field.exists_iff.1 ⟨_, hsweep⟩⟩
  · rintro ⟨hrecord, hmax, httl, hsweep⟩
    obtain ⟨maxEntries, hmax⟩ := Json.Field.exists_iff.2 hmax
    obtain ⟨ttlSecs, httl⟩ := Json.Field.exists_iff.2 httl
    obtain ⟨sweepIntervalSecs, hsweep⟩ := Json.Field.exists_iff.2 hsweep
    exact ⟨⟨maxEntries, ttlSecs, sweepIntervalSecs⟩, hrecord, hmax, httl, hsweep⟩

theorem decode_congr (h : Json.AgreeOn names v v') : decode v = decode v' := by
  cases h with
  | refl => rfl
  | obj h =>
    simp only [decode, h "max_entries" (by decide), h "sweep_interval_secs" (by decide),
      h "ttl_secs" (by decide)]

theorem says_congr (h : Json.SameRecord names v v') (c : CacheConfig) : Says v c ↔ Says v' c := by
  cases h with
  | refl => exact Iff.rfl
  | record h h' hgiven =>
    have hmax := hgiven 0 "max_entries" rfl
    have httl := hgiven 1 "ttl_secs" rfl
    have hsweep := hgiven 2 "sweep_interval_secs" rfl
    constructor
    · rintro ⟨-, hm, ht, hs⟩
      exact ⟨h', hmax ▸ hm, httl ▸ ht, hsweep ▸ hs⟩
    · rintro ⟨-, hm, ht, hs⟩
      exact ⟨h, hmax.symm ▸ hm, httl.symm ▸ ht, hsweep.symm ▸ hs⟩

theorem says_of_writes (hrange : c.InRange) (h : c.Writes v) : Says v c := by
  refine ⟨h.isRecord, ?_, ?_, ?_⟩
  · rw [@Json.Writes.given? _ _ h 0 "max_entries" _ rfl]
    exact ⟨rfl, hrange.maxEntries⟩
  · rw [@Json.Writes.given? _ _ h 1 "ttl_secs" _ rfl]
    exact ⟨rfl, hrange.ttlSecs⟩
  · rw [@Json.Writes.given? _ _ h 2 "sweep_interval_secs" _ rfl]
    exact ⟨rfl, hrange.sweepIntervalSecs⟩

theorem Says.inRange (h : Says v c) : c.InRange where
  maxEntries := h.maxEntries.of_forall (P := (· < 2 ^ 64)) (by decide) fun _ _ hread => hread.2
  ttlSecs :=
    h.ttlSecs.of_forall (P := fun n => -2 ^ 63 ≤ n ∧ n < 2 ^ 63) (by decide) fun _ _ hread => hread.2
  sweepIntervalSecs :=
    h.sweepIntervalSecs.of_forall (P := fun n => -2 ^ 63 ≤ n ∧ n < 2 ^ 63) (by decide)
      fun _ _ hread => hread.2

end CacheConfig

/-! ## The configuration -/

namespace Config

/-- A record whose given sections are well-typed. -/
structure WellTyped (v : Json) : Prop where
  record : v.IsRecord 2
  validation : ∀ w ∈ v.given? "validation" 0, ValidationConfig.WellTyped w
  cache : ∀ w ∈ v.given? "model_cache" 1, CacheConfig.WellTyped w

/-- Every section is what the record gives for it, or else all defaults. -/
structure Says (v : Json) (c : Config) : Prop where
  record : v.IsRecord 2
  validation : Json.Field ValidationConfig.Says {} (v.given? "validation" 0) c.validation
  cache : Json.Field CacheConfig.Says {} (v.given? "model_cache" 1) c.cache

/-- A written form of the configuration, with its sections in some written forms of their own. -/
def Writes (c : Config) (v : Json) : Prop :=
  ∃ validation cache, c.validation.Writes validation ∧ c.cache.Writes cache ∧
    Json.Writes [("validation", validation), ("model_cache", cache)] v

/-- Every field fits into 64 bits. -/
structure InRange (c : Config) : Prop where
  delayMs : c.validation.delayMs < 2 ^ 64
  cache : c.cache.InRange

/-- Two values that are the same but for what is given under names that are not known, in the record or in
its sections. -/
inductive AgreeOnKnown : Json → Json → Prop where
  | refl (v : Json) : AgreeOnKnown v v
  | obj {fields fields' : List (String × Json)}
      (hv : Option.Rel (Json.AgreeOn ValidationConfig.names) (fields.lookup "validation")
        (fields'.lookup "validation"))
      (hc : Option.Rel (Json.AgreeOn CacheConfig.names) (fields.lookup "model_cache")
        (fields'.lookup "model_cache")) :
      AgreeOnKnown (.obj fields) (.obj fields')
  | arr {items items' : List Json} (hlength : items.length = items'.length)
      (hv : Option.Rel (Json.AgreeOn ValidationConfig.names) items[0]? items'[0]?)
      (hc : Option.Rel (Json.AgreeOn CacheConfig.names) items[1]? items'[1]?) :
      AgreeOnKnown (.arr items) (.arr items')

/-- Two records with the same given fields in their sections, whichever form each of them has. -/
structure SameFields (v v' : Json) : Prop where
  left : v.IsRecord 2
  right : v'.IsRecord 2
  validation : Option.Rel (Json.SameRecord ValidationConfig.names) (v.given? "validation" 0)
    (v'.given? "validation" 0)
  cache : Option.Rel (Json.SameRecord CacheConfig.names) (v.given? "model_cache" 1)
    (v'.given? "model_cache" 1)

variable {v v' : Json} {c : Config}

theorem decode_eq_ok : decode v = .ok c ↔ Says v c := by
  cases v with
  | obj fields =>
    simp only [decode, Decode.bind_eq_ok, Decode.orDefault_eq_ok fun _ _ => ValidationConfig.decode_eq_ok,
      Decode.orDefault_eq_ok fun _ _ => CacheConfig.decode_eq_ok]
    constructor
    · rintro ⟨cache, hcache, validation, hvalidation, ⟨⟩⟩
      exact ⟨.obj fields, hvalidation, hcache⟩
    · rintro ⟨-, hvalidation, hcache⟩
      exact ⟨_, hcache, _, hvalidation, rfl⟩
  | arr items =>
    simp only [decode, Decode.bind_eq_ok, Decode.orDefault_eq_ok fun _ _ => ValidationConfig.decode_eq_ok,
      Decode.orDefault_eq_ok fun _ _ => CacheConfig.decode_eq_ok, Decode.atMost_eq_ok]
    constructor
    · rintro ⟨validation, hvalidation, cache, hcache, -, hlength, ⟨⟩⟩
      exact ⟨.arr hlength, hvalidation, hcache⟩
    · rintro ⟨⟨⟩ | ⟨hlength⟩, hvalidation, hcache⟩
      exact ⟨_, hvalidation, _, hcache, (), hlength, rfl⟩
  | _ => exact iff_of_false nofun nofun

theorem exists_says : (∃ c, Says v c) ↔ WellTyped v := by
  constructor
  · rintro ⟨c, hrecord, hvalidation, hcache⟩
    have hvalidation := Json.Field.exists_iff.1 ⟨_, hvalidation⟩
    have hcache := Json.Field.exists_iff.1 ⟨_, hcache⟩
    exact ⟨hrecord, fun w hw => ValidationConfig.exists_says.1 (hvalidation w hw),
      fun w hw => CacheConfig.exists_says.1 (hcache w hw)⟩
  · rintro ⟨hrecord, hvalidation, hcache⟩
    obtain ⟨validation, hvalidation⟩ :=
      (@Json.Field.exists_iff _ ValidationConfig.Says {} _).2 fun w hw =>
        ValidationConfig.exists_says.2 (hvalidation w hw)
    obtain ⟨cache, hcache⟩ :=
      (@Json.Field.exists_iff _ CacheConfig.Says {} _).2 fun w hw =>
        CacheConfig.exists_says.2 (hcache w hw)
    exact ⟨⟨validation, cache⟩, hrecord, hvalidation, hcache⟩

theorem decode_congr (h : AgreeOnKnown v v') : decode v = decode v' := by
  have hvalidation {given given' : Option Json}
      (h : Option.Rel (Json.AgreeOn ValidationConfig.names) given given') :=
    Decode.orDefault_congr (R := Json.AgreeOn ValidationConfig.names)
      (fun _ _ => ValidationConfig.decode_congr) {} h
  have hcache {given given' : Option Json} (h : Option.Rel (Json.AgreeOn CacheConfig.names) given given') :=
    Decode.orDefault_congr (R := Json.AgreeOn CacheConfig.names) (fun _ _ => CacheConfig.decode_congr) {} h
  cases h with
  | refl => rfl
  | obj hv hc => simp only [decode, hvalidation hv, hcache hc]
  | arr hlength hv hc => simp only [decode, Decode.atMost, hvalidation hv, hcache hc, hlength]

theorem says_congr (h : SameFields v v') (c : Config) : Says v c ↔ Says v' c := by
  have hvalidation := Json.Field.congr (R := Json.SameRecord ValidationConfig.names)
    (fun _ _ => ValidationConfig.says_congr) {} h.validation c.validation
  have hcache := Json.Field.congr (R := Json.SameRecord CacheConfig.names) (fun _ _ => CacheConfig.says_congr) {}
    h.cache c.cache
  constructor
  · rintro ⟨-, hv, hc⟩
    exact ⟨h.right, hvalidation.1 hv, hcache.1 hc⟩
  · rintro ⟨-, hv, hc⟩
    exact ⟨h.left, hvalidation.2 hv, hcache.2 hc⟩

theorem says_of_writes (hrange : c.InRange) (h : c.Writes v) : Says v c := by
  obtain ⟨validation, cache, hvalidation, hcache, hrecord⟩ := h
  refine ⟨hrecord.isRecord, ?_, ?_⟩
  · rw [@Json.Writes.given? _ _ hrecord 0 "validation" _ rfl]
    exact ValidationConfig.says_of_writes hrange.delayMs hvalidation
  · rw [@Json.Writes.given? _ _ hrecord 1 "model_cache" _ rfl]
    exact CacheConfig.says_of_writes hrange.cache hcache

theorem Says.inRange (h : Says v c) : c.InRange where
  delayMs :=
    h.validation.of_forall (P := fun w => w.delayMs < 2 ^ 64) (by decide) fun _ _ hsays => hsays.delayMs_lt
  cache :=
    h.cache.of_forall (P := CacheConfig.InRange) ⟨by decide, by decide, by decide⟩ fun _ _ hsays =>
      hsays.inRange

end Config

/-- Settings are read as a configuration just if they are a record, and each section that they give is a
record, whose given fields are of their kinds. Every field then is what is given for it or its default.
Names that are not known do not matter, not even to the error. Nor does it matter which of the records
are objects and which are arrays. So every configuration whose numbers fit into 64 bits is read from all
its written forms, and no other is ever read. -/
theorem config_encodings_exact (v : Json) :
    ((∃ c, Config.decode v = .ok c) ↔ Config.WellTyped v) ∧
    (∀ c, Config.decode v = .ok c ↔ Config.Says v c) ∧
    (∀ v', Config.AgreeOnKnown v v' → Config.decode v = Config.decode v') ∧
    (∀ v', Config.SameFields v v' → ∀ c, Config.decode v = .ok c ↔ Config.decode v' = .ok c) ∧
    (∀ c : Config, c.InRange → c.Writes v → Config.decode v = .ok c) ∧
    ∀ c, Config.decode v = .ok c → c.InRange := by
  refine ⟨?_, ?_, ?_, ?_, ?_, ?_⟩
  · simp only [Config.decode_eq_ok]
    exact Config.exists_says
  · intro c
    exact Config.decode_eq_ok
  · intro v' h
    exact Config.decode_congr h
  · intro v' h c
    rw [Config.decode_eq_ok, Config.decode_eq_ok]
    exact Config.says_congr h c
  · intro c hrange hwrites
    exact Config.decode_eq_ok.2 (Config.says_of_writes hrange hwrites)
  · intro c hc
    exact (Config.decode_eq_ok.1 hc).inRange

/-- An array of two sections, of which one is an object with a name that is not known and the other an
array. -/
def mixedForms : Json :=
  .arr [.obj [("debounce", .str "fast"), ("delay_ms", .int 500), ("enabled", .bool false)],
    .arr [.int 3, .int (-1), .int 0x7FFFFFFFFFFFFFFF]]

/-- The configuration is read that it writes. -/
theorem config_encodings_exact_mixedForms :
    Config.InRange ⟨⟨false, 500⟩, ⟨3, -1, 0x7FFFFFFFFFFFFFFF⟩⟩ ∧
      Config.Writes ⟨⟨false, 500⟩, ⟨3, -1, 0x7FFFFFFFFFFFFFFF⟩⟩ mixedForms ∧
      Config.decode mixedForms = .ok ⟨⟨false, 500⟩, ⟨3, -1, 0x7FFFFFFFFFFFFFFF⟩⟩ := by
  have hrange : Config.InRange ⟨⟨false, 500⟩, ⟨3, -1, 0x7FFFFFFFFFFFFFFF⟩⟩ :=
    ⟨by decide, by decide, by decide, by decide⟩
  have hwrites : Config.Writes ⟨⟨false, 500⟩, ⟨3, -1, 0x7FFFFFFFFFFFFFFF⟩⟩ mixedForms := by
    refine ⟨_, _, .obj ?_, .arr, .arr⟩
    intro f hf
    simp only [List.mem_cons, List.not_mem_nil, or_false] at hf
    rcases hf with rfl | rfl <;> rfl
  obtain ⟨-, -, -, -, hread, -⟩ := config_encodings_exact mixedForms
  exact ⟨hrange, hwrites, hread _ hrange hwrites⟩

end LangHost
