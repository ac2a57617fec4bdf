import LangHost.Cache.Basic
/-!
# Where entries come from

Every operation of a cache but two only drops entries. A hit puts its entry back as used now, and a
computed value becomes an entry. So whatever is true of all entries stays true as long as it is
true of the values that are computed, and does not hang on when an entry was last used.
-/

namespace LangHost.Cache

variable {κ ν : Type} [DecidableEq κ] {c : Cache κ ν} {e : Entry κ ν}

theorem mem_without {key : κ} {entries : List (Entry κ ν)} :
    e ∈ without key entries ↔ e ∈ entries ∧ e.key ≠ key := by
  simp [without]

theorem contains_iff {key : κ} : c.contains key = true ↔ ∃ e ∈ c.entries, e.key = key := by
  simp [contains, entry?]

/-! ## Operations that only drop entries -/

theorem mem_of_mem_evict {n : Nat} (h : e ∈ (c.evict n).entries) : e ∈ c.entries := by
  induction n generalizing c with
  | zero => exact h
  | succ n ih =>
    unfold evict at h
    split at h
    · exact h
    · exact (mem_without.1 (ih h)).1

theorem mem_of_mem_trim (h : e ∈ c.trim.entries) : e ∈ c.entries := mem_of_mem_evict h

theorem mem_of_mem_configure {limits : Limits} {now : Nat}
    (h : e ∈ (c.configure limits now).entries) : e ∈ c.entries := by
  unfold configure at h
  split at h
  · exact h
  · exact mem_of_mem_trim (c := { c with capacity := limits.capacity }) h

omit [DecidableEq κ] in
theorem mem_of_mem_removeIdle {maxIdle now : Nat} (h : e ∈ (c.removeIdle maxIdle now).entries) :
    e ∈ c.entries :=
  (List.mem_filter.1 h).1

omit [DecidableEq κ] in
theorem mem_of_mem_sweepUntil {now : Nat} {s : Sweep} (h : e ∈ (sweepUntil now s c).entries) :
    e ∈ c.entries := by
  fun_induction sweepUntil now s c with
  | case1 s c hdue ih => exact mem_of_mem_removeIdle (ih h)
  | case2 s c hdue => exact h

omit [DecidableEq κ] in
theorem mem_of_mem_advance {now : Nat} (h : e ∈ (c.advance now).entries) : e ∈ c.entries := by
  unfold advance at h
  split at h
  · exact h
  · exact mem_of_mem_sweepUntil h

omit [DecidableEq κ] in
theorem mem_of_mem_dispose (h : e ∈ c.dispose.entries) : e ∈ c.entries := by
  unfold dispose at h
  split at h
  · exact h
  · cases h

theorem mem_remove {key : κ} : e ∈ (c.remove key).entries ↔ e ∈ c.entries ∧ e.key ≠ key :=
  mem_without

/-! ## Operations that make entries -/

theorem mem_put {f : Entry κ ν} : e ∈ (c.put f).entries ↔ e = f ∨ e ∈ c.entries ∧ e.key ≠ f.key := by
  simp [put, mem_without]

theorem mem_of_mem_touch {f : Entry κ ν} {now : Nat} (h : e ∈ (c.touch f now).entries) :
    e = { f with lastAccess := now, accessSeq := c.nextSeq } ∨ e ∈ c.entries := by
  rcases mem_put.1 h with rfl | ⟨he, -⟩
  · exact .inl rfl
  · exact .inr he

theorem mem_of_mem_keep {now : Nat} {key : κ} {version : Int} {kind : String} {stored : Stamped ν}
    (h : e ∈ (c.keep now key version kind stored).entries) :
    e = ⟨key, version, kind, stored, now, c.nextSeq⟩ ∨ e ∈ c.entries := by
  unfold keep at h
  split at h
  · exact .inr h
  · rcases mem_put.1 (mem_of_mem_trim h) with rfl | ⟨he, -⟩
    · exact .inl rfl
    · exact .inr he

/-! ## Hits -/

/-- The entry that serves a lookup is one of the key, at the version and of the kind asked for. -/
theorem mem_of_hit? {key : κ} {version : Int} {kind : String} (h : c.hit? key version kind = some e) :
    e ∈ c.entries ∧ e.key = key ∧ e.version = version ∧ e.kind = kind := by
  obtain ⟨hentry, hmatch⟩ := Option.filter_eq_some_iff.1 h
  have hkey := List.find?_some hentry
  simp only [decide_eq_true_eq] at hkey hmatch
  exact ⟨List.mem_of_find?_eq_some hentry, hkey, hmatch⟩

end LangHost.Cache
