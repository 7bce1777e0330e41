import CarCare.Level
import CarCare.Uuid

/-!
Lookups: questions for what is kept about a scope, addressed by its level and id. A lookup may have
an effect, so that the same code answers from tables and can be watched while it asks.
-/
namespace CarCare

/-- Answers what is kept about a scope. -/
abbrev Lookup (m : Type → Type) (α : Type) := Level → Uuid → m (Option α)

namespace Lookup

/-- A lookup that keeps the list of what it was asked, in order. -/
def traced (look : Level → Uuid → Option α) : Lookup (StateM (List (Level × Uuid))) α :=
  fun level id => do
    modify (· ++ [(level, id)])
    pure (look level id)

end Lookup

end CarCare
