import CarCare.Value

/-!
The four levels of the lease hierarchy, from the most general to the most specific.
-/
namespace CarCare

/-- A level that a care instruction can be declared at. -/
inductive Level where
  | customer
  | masterLease
  | rider
  | amendment
deriving DecidableEq, Repr

namespace Level

def all : List Level := [.customer, .masterLease, .rider, .amendment]

def rank : Level → Nat
  | customer => 0
  | masterLease => 1
  | rider => 2
  | amendment => 3

def name : Level → String
  | customer => "customer"
  | masterLease => "master_lease"
  | rider => "rider"
  | amendment => "amendment"

/-- The column that refers to a scope of the level. -/
def column : Level → String
  | customer => "customer_id"
  | masterLease => "master_lease_id"
  | rider => "rider_id"
  | amendment => "amendment_id"

def ofName? (name : String) : Option Level := all.find? (·.name == name)

/-- The level that a value names; only a text names one. -/
def ofValue? : Value → Option Level
  | .scalar (.text name) => ofName? name
  | _ => none

theorem mem_all (l : Level) : l ∈ all := by cases l <;> decide

/-- The levels above one and those below it. -/
theorem all_split (l : Level) : ∃ above below, all = above ++ l :: below ∧
    (∀ m ∈ above, m.rank < l.rank) ∧ ∀ m ∈ below, l.rank < m.rank := by
  cases l with
  | customer => exact ⟨[], [.masterLease, .rider, .amendment], rfl, by decide, by decide⟩
  | masterLease => exact ⟨[.customer], [.rider, .amendment], rfl, by decide, by decide⟩
  | rider => exact ⟨[.customer, .masterLease], [.amendment], rfl, by decide, by decide⟩
  | amendment => exact ⟨[.customer, .masterLease, .rider], [], rfl, by decide, by decide⟩

theorem rank_inj {a b : Level} (h : a.rank = b.rank) : a = b := by
  cases a <;> cases b <;> first | rfl | cases h

theorem ofName?_name (l : Level) : ofName? l.name = some l := by cases l <;> decide

end Level

end CarCare
