/-!
# Agendas

Work to be done at set times. Of the work due first, what was entered first comes first.
-/

namespace LangHost

/-- A piece of work and the time at which it is due. -/
structure Agenda.Item (ι : Type) where
  due : Nat
  job : ι

/-- Work to be done, in the order in which it was entered. -/
abbrev Agenda (ι : Type) := List (Agenda.Item ι)

namespace Agenda

variable {ι : Type}

/-- The longest time that anything is put off: thirty years of 365 days, in milliseconds. -/
def horizon : Nat := 946080000000

/-- When work is due that is put off for a while, which is never longer than the horizon. -/
def dueAfter (now delay : Nat) : Nat := now + min delay horizon

/-- The work due first, and the rest. -/
def first? : Agenda ι → Option (Item ι × Agenda ι)
  | [] => none
  | e :: rest =>
    match first? rest with
    | none => some (e, rest)
    | some (f, others) => if e.due ≤ f.due then some (e, rest) else some (f, e :: others)

/-- The work due first and the rest, if it is due by the given time. -/
def firstBy? (limit : Nat) (a : Agenda ι) : Option (Item ι × Agenda ι) :=
  (first? a).filter fun p => p.1.due ≤ limit

/-- The total weight of the work, each job with a weight of its own. -/
def weight (w : ι → Nat) : Agenda ι → Nat
  | [] => 0
  | e :: rest => w e.job + weight w rest

@[simp] theorem weight_append (w : ι → Nat) (a b : Agenda ι) :
    weight w (a ++ b) = weight w a + weight w b := by
  induction a with
  | nil => simp [weight]
  | cons e rest ih => simp [weight, ih, Nat.add_assoc]

theorem weight_filter_le (w : ι → Nat) (p : Item ι → Bool) (a : Agenda ι) :
    weight w (a.filter p) ≤ weight w a := by
  induction a with
  | nil => simp
  | cons e rest ih =>
    simp only [List.filter_cons]
    split <;> simp only [weight] <;> omega

theorem weight_first? (w : ι → Nat) {a rest : Agenda ι} {e : Item ι}
    (h : first? a = some (e, rest)) : weight w a = w e.job + weight w rest := by
  induction a generalizing e rest with
  | nil => simp [first?] at h
  | cons x xs ih =>
    simp only [first?] at h
    split at h
    · simp only [Option.some.injEq, Prod.mk.injEq] at h
      obtain ⟨rfl, rfl⟩ := h
      rfl
    · rename_i f others hf
      have := ih hf
      split at h
      · simp only [Option.some.injEq, Prod.mk.injEq] at h
        obtain ⟨rfl, rfl⟩ := h
        rfl
      · simp only [Option.some.injEq, Prod.mk.injEq] at h
        obtain ⟨rfl, rfl⟩ := h
        simp only [weight]
        omega

theorem weight_firstBy? (w : ι → Nat) {limit : Nat} {a rest : Agenda ι} {e : Item ι}
    (h : firstBy? limit a = some (e, rest)) : weight w a = w e.job + weight w rest :=
  weight_first? w (Option.filter_eq_some_iff.1 h).1

/-! ## The work due first -/

theorem first?_eq_none {a : Agenda ι} (h : first? a = none) : a = [] := by
  cases a with
  | nil => rfl
  | cons e rest =>
    simp only [first?] at h
    split at h
    · cases h
    · split at h <;> cases h

/-- The work due first stands somewhere in the agenda, the rest is the agenda without it, and
nothing is due before it. -/
theorem first?_eq_some {a rest : Agenda ι} {e : Item ι} (h : first? a = some (e, rest)) :
    ∃ front back, a = front ++ e :: back ∧ rest = front ++ back ∧ ∀ x ∈ a, e.due ≤ x.due := by
  induction a generalizing e rest with
  | nil => cases h
  | cons x xs ih =>
    simp only [first?] at h
    split at h
    · rename_i hxs
      obtain rfl := first?_eq_none hxs
      cases h
      exact ⟨[], [], rfl, rfl, by simp⟩
    · rename_i f others hxs
      obtain ⟨front, back, rfl, rfl, hle⟩ := ih hxs
      split at h
      · rename_i hx
        cases h
        refine ⟨[], _, rfl, rfl, fun y hy => ?_⟩
        rcases List.mem_cons.1 hy with rfl | hy
        · exact Nat.le_refl _
        · exact Nat.le_trans hx (hle y hy)
      · rename_i hx
        cases h
        refine ⟨x :: front, back, rfl, rfl, fun y hy => ?_⟩
        rcases List.mem_cons.1 hy with rfl | hy
        · omega
        · exact hle y hy

theorem firstBy?_eq_some {limit : Nat} {a rest : Agenda ι} {e : Item ι}
    (h : firstBy? limit a = some (e, rest)) :
    e.due ≤ limit ∧
      ∃ front back, a = front ++ e :: back ∧ rest = front ++ back ∧ ∀ x ∈ a, e.due ≤ x.due := by
  obtain ⟨hfirst, hdue⟩ := Option.filter_eq_some_iff.1 h
  exact ⟨by simpa using hdue, first?_eq_some hfirst⟩

/-- What is not due by a time is due later. -/
theorem firstBy?_eq_none {limit : Nat} {a : Agenda ι} (h : firstBy? limit a = none) :
    ∀ x ∈ a, limit < x.due := by
  intro x hx
  cases hf : first? a with
  | none => simp [first?_eq_none hf] at hx
  | some p =>
    obtain ⟨-, -, -, -, hle⟩ := first?_eq_some hf
    have hlate : ¬ p.1.due ≤ limit := by simpa [firstBy?, hf] using h
    have := hle x hx
    omega

end Agenda

end LangHost
