/-!
The settings of a registry: the label it goes by in the log, whether equally good matches are
chained behind the one that was chosen, and how many of them at most.
-/

set_option autoImplicit false
set_option relaxedAutoImplicit false

namespace CompositeSorts

/-- The settings of a registry. -/
structure Configuration where
  label : String := "registry"
  keepAlternatives : Bool := true
  maxAlternatives : Nat := 8
deriving DecidableEq, Repr

end CompositeSorts
