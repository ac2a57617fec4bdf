import LangHost.Plain.Check
import LangHost.Plain.Lookup
import LangHost.Service
/-!
# The plain-text service

The language service for plain texts. It lives in hosts whose models `μ` can be those of other
services too: `embed` makes a plain-text model one of the host's, and `view` gives it back.
-/

namespace LangHost.Plain

/-- The plain-text service with the given settings. -/
def service (embed : Model → μ) (view : μ → Option Model) (settings : Settings := {}) :
    Service Settings μ where
  id := kind
  displayName := "Plain text"
  kinds := [kind]
  settings := settings
  configure := Settings.configure
  parse d :=
    match Model.parse d with
    | .ok m => .ok (embed m)
    | .error f => .error f.toFault
  validate s _ m _ := { findings := some ((view m).elim [] (·.check s)) }
  complete _ _ p m := (view m).map (·.complete p)
  highlights _ _ p m := (view m).elim [] (·.highlights p)
  symbols _ _ m := (view m).elim [] Model.symbols
  codeActions _ d _ ds _ := quickFixes d.uri ds
  format _ _ range _ m := (view m).elim [] (·.format range)

end LangHost.Plain
