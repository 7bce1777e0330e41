import CarCare.Proofs.Store.Rows
import CarCare.Service

/-!
What readers see of the instruction store: the current rows, and of the retired ones nothing.

What is proved:
  1. `Store.byScope?_shown`, `Store.currentScopes_shown`, `Store.list_shown` and
     `Store.current?_shown`: each way of reading a store looks at its current rows only.
  2. `Database.readAlike_of_shown`: hence databases with the same leasing tables and the same current
     rows answer every read alike.
-/
namespace CarCare

/-! ## Current rows -/

namespace Store
variable {s : Store}

def shown (s : Store) : List InstructionRow := s.rows.filter (·.isCurrent)

theorem byScope?_shown (s : Store) (level : Level) (scope : Uuid) :
    s.byScope? level scope = s.shown.find? fun r => r.scopes.get level == some scope := by
  rw [shown, List.find?_filter, byScope?]
  congr 1
  funext r
  rw [Bool.eq_iff_iff]
  simp

theorem currentScopes_shown (s : Store) :
    s.currentScopes = s.shown.map fun r => (r.level, r.scopes.get r.level) := rfl

theorem list_shown (s : Store) (t : LeaseTables) (level : Option Level)
    (scope customer : Option Uuid) :
    s.list t level scope customer =
      (s.shown.filter fun r => level.all (r.level == ·) && scope.all (atScope level · r)
        && customer.all (inSubtree t · r)).mergeSort listedBefore := by
  rw [shown, List.filter_filter, list]
  congr 2
  funext r
  cases r.isCurrent <;> simp

/-- Where ids are distinct, a row that is not current hides no other. -/
theorem current?_shown (ids : (s.rows.map (·.id)).Nodup) (id : Uuid) :
    s.current? id = s.shown.find? (·.id == id) := by
  apply Option.ext
  intro r
  have hids : (s.shown.map (·.id)).Nodup := ids.sublist (List.filter_sublist.map _)
  rw [current?_eq_some, row?, find?_key_eq_some ids, find?_key_eq_some hids, shown,
    List.mem_filter]
  tauto

end Store

/-! ## Reads -/

/-- Two databases that answer every read alike, whatever it asks for. -/
structure Database.ReadAlike (a b : Database) : Prop where
  resolveCar : ∀ (v : Service) car asOf, v.resolveCar a car asOf = v.resolveCar b car asOf
  resolveScope : ∀ (v : Service) level scope,
    v.resolveScope a level scope = v.resolveScope b level scope
  preview : ∀ (v : Service) level scope, v.preview a level scope = v.preview b level scope
  tree : ∀ (v : Service) customer, v.tree a customer = v.tree b customer
  instructions : ∀ level scope customer,
    Service.instructions a level scope customer = Service.instructions b level scope customer
  instructionAt : ∀ level scope,
    Service.instructionAt a level scope = Service.instructionAt b level scope
  instruction : ∀ id, Service.instruction a id = Service.instruction b id

theorem Database.readAlike_of_shown {a b : Database} (leases : a.leases = b.leases)
    (shown : a.instructions.shown = b.instructions.shown)
    (idsA : (a.instructions.rows.map (·.id)).Nodup)
    (idsB : (b.instructions.rows.map (·.id)).Nodup) : a.ReadAlike b := by
  have hread : ∀ level scope,
      a.instructions.read level scope = b.instructions.read level scope := by
    intro level scope
    rw [Store.read, Store.read, Store.byScope?_shown, Store.byScope?_shown, shown]
  have hreader : Service.reader a = Service.reader b := funext fun l => funext fun i => hread l i
  have hdirectory : ∀ v : Service, v.directory a = v.directory b := by
    intro v
    rw [Service.directory, Service.directory, leases]
  constructor
  case resolveCar =>
    intro v car asOf
    rw [Service.resolveCar, Service.resolveCar, hdirectory, hreader]
  case resolveScope =>
    intro v level scope
    rw [Service.resolveScope, Service.resolveScope, hdirectory, hreader]
  case preview =>
    intro v level scope
    rw [Service.preview, Service.preview, hdirectory, hreader]
  case tree =>
    intro v customer
    rw [Service.tree, Service.tree, hdirectory, Store.currentScopes_shown,
      Store.currentScopes_shown, shown]
  case instructions =>
    intro level scope customer
    have hlist : ∀ l, a.instructions.list a.leases l scope customer =
        b.instructions.list b.leases l scope customer := by
      intro l
      rw [Store.list_shown, Store.list_shown, shown, leases]
    simp only [Service.instructions, hlist]
  case instructionAt =>
    intro level scope
    simp only [Service.instructionAt, hread]
  case instruction =>
    intro id
    rw [Service.instruction, Service.instruction, Store.current?_shown idsA,
      Store.current?_shown idsB, shown]

end CarCare
