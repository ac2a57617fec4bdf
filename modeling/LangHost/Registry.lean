import LangHost.Service
/-!
# The service registry

Language services by their ids, and for each kind of document the id of the service that handles
it. The service registered last for a kind handles it. A service replaces the one that has its id,
and the kinds that pointed to that id go on pointing to it.
-/

namespace LangHost

/-- The registered services. -/
structure Registry (σ μ : Type) where
  /-- The id of the service of each kind. -/
  kinds : List (String × String) := []
  services : List (Service σ μ) := []

namespace Registry

variable {σ μ : Type}

/-- Registers a service for the kinds that it declares. -/
def register (r : Registry σ μ) (s : Service σ μ) : Registry σ μ where
  kinds := s.kinds.foldl (fun ks k => (k, s.id) :: ks.filter (·.1 ≠ k)) r.kinds
  services := s :: r.services.filter (·.id ≠ s.id)

/-- The ids of the registered services. -/
def ids (r : Registry σ μ) : List String := r.services.map (·.id)

/-- The service of an id. -/
def get? (r : Registry σ μ) (id : String) : Option (Service σ μ) :=
  r.services.find? (·.id = id)

/-- The service that handles a kind. -/
def forKind? (r : Registry σ μ) (kind : String) : Option (Service σ μ) :=
  (r.kinds.lookup kind).bind r.get?

/-- The service that handles a kind, or the fault that there is none. -/
def require (r : Registry σ μ) (kind : String) : Except Fault (Service σ μ) :=
  match r.forKind? kind with
  | some s => .ok s
  | none => .error (.noLanguageService kind)

/-- Hands new settings to every service. -/
def configure (r : Registry σ μ) (settings : Json) : Registry σ μ :=
  { r with services := r.services.map (·.configured settings) }

end Registry

end LangHost
