import LangHost.Plain.Service
import LangHost.Proofs.Text.Cut
import LangHost.Registry
/-!
# The plain-text service in a host

A text is refused exactly if it holds a NUL character, wherever that is; and in a host that knows
plain texts only, the plain-text service handles its own kind whatever settings it was handed.
-/

namespace LangHost

namespace Plain

/-- A text with a NUL character is refused with the number of the first line that holds one; every
other text is its lines. -/
theorem Model.parse_eq (d : Document) :
    Model.parse d =
      if '\x00' ∈ d.text.toList then .error (.binaryContent (d.lines.findIdx (·.contains '\x00')))
      else .ok ⟨d.lines⟩ := by
  have hlines : (∃ line ∈ d.lines, '\x00' ∈ line) ↔ '\x00' ∈ d.text.toList :=
    Text.exists_mem_lines (by decide) (by decide) _
  unfold Model.parse
  cases hfirst : d.lines.findIdx? (·.contains '\x00') with
  | none =>
    have hno : '\x00' ∉ d.text.toList := by
      rw [← hlines]
      simpa [List.findIdx?_eq_none_iff] using hfirst
    rw [if_neg hno]
  | some n =>
    obtain ⟨hn, hfound⟩ := List.findIdx?_eq_some_iff_findIdx_eq.1 hfirst
    have hyes : '\x00' ∈ d.text.toList := by
      rw [← hlines]
      obtain ⟨hmem, -⟩ := (List.findIdx_eq hn).1 hfound
      exact ⟨d.lines[n], List.getElem_mem hn, by simpa using hmem⟩
    rw [if_pos hyes, hfound]

/-! ## The registered service -/

variable {μ : Type} {embed : Model → μ} {view : μ → Option Model} {settings : Settings}

theorem service_parse (d : Document) : (service embed view settings).parse d =
    if '\x00' ∈ d.text.toList then
      .error (Fault.binaryContent (d.lines.findIdx (·.contains '\x00'))).toFault
    else .ok (embed ⟨d.lines⟩) := by
  unfold service
  simp only
  rw [Model.parse_eq]
  by_cases h : '\x00' ∈ d.text.toList <;> simp only [h, if_true, if_false]

/-- The services of a host that knows plain texts only. -/
def services (embed : Model → μ) (view : μ → Option Model) (settings : Settings := {}) :
    Registry Settings μ :=
  ({} : Registry Settings μ).register (service embed view settings)

theorem services_configure (j : Json) :
    (services embed view settings).configure j = services embed view (settings.configure j) := rfl

theorem services_forKind? :
    (services embed view settings).forKind? kind = some (service embed view settings) := rfl

theorem services_forKind?_of_ne {k : String} (hk : k ≠ kind) :
    (services embed view settings).forKind? k = none := by
  simp [services, Registry.register, Registry.forKind?, service, beq_false_of_ne hk]

end Plain

end LangHost
