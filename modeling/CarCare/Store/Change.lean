import CarCare.Store

/-!
Changes of sections. A change names the columns that it sets; it may clear a describing column,
but leaves the placeholder mark and the place in the display order alone where it gives no value.
-/
namespace CarCare

/-- The columns that a change sets. -/
structure SectionChange where
  commodity : Option (Option String) := none
  details : Detail → Option (Option FieldValue) := fun _ => none
  inherits : Option Bool := none
  sortOrder : Option Int := none

namespace SectionChange

/-- What a member of a payload sets a text to: nothing if it is left out, else a text or none. -/
def textMember (members : Members) (key : String) : Option (Option String) :=
  (members.lookup key).map fun
    | .scalar (.text s) => some s
    | _ => none

def detailMember (members : Members) (d : Detail) : Option (Option FieldValue) :=
  (members.lookup d.name).map FieldValue.ofValue?

def flagMember (members : Members) (key : String) : Option Bool :=
  match members.lookup key with
  | some (.scalar (.bool b)) => some b
  | _ => none

def integerMember (members : Members) (key : String) : Option Int :=
  match members.lookup key with
  | some (.scalar (.int n)) => some n
  | _ => none

/-- The change that members ask for. The values are of the kinds of their columns, as a schema leaves
them or as the columns keep them; what is made of others is said by `Affinity.write`. Members with
other names are passed over. -/
def ofMembers (kind : SectionKind) (members : Members) : SectionChange where
  commodity := textMember members "commodity"
  details d := if kind.details.contains d then detailMember members d else none
  inherits := flagMember members "inherit_from_parent"
  sortOrder := integerMember members "sort_order"

def named? (c : SectionChange) : Option String := c.commodity.join

/-- The columns of a section after a change, its commodity apart. -/
def applyDetails (c : SectionChange) (s : SectionRow) : SectionRow :=
  { s with
    details := fun d => (c.details d).getD (s.details d)
    inherits := c.inherits.getD s.inherits
    sortOrder := c.sortOrder.getD s.sortOrder }

/-- The rule of storing that a change breaks whatever it is applied to: its place has to fit into
a column, and the commodity may not be cleared. -/
def fault? (c : SectionChange) (kind : SectionKind) : Option Error :=
  if c.sortOrder.any (!Store.storable ·) then some .integerTooLarge
  else if c.commodity = some none then
    some (.constraint (.notNull (Store.sectionColumn kind "commodity")))
  else none

def apply (c : SectionChange) (kind : SectionKind) (s : SectionRow) : Except Error SectionRow :=
  match c.fault? kind with
  | some fault => .error fault
  | none => .ok (c.applyDetails { s with commodity := c.named?.getD s.commodity })

/-- A new section that holds what a change sets; without a commodity there is none. -/
def create (c : SectionChange) (kind : SectionKind) (stamp : Stamp) : Except Error SectionRow :=
  apply { c with commodity := some c.named? } kind
    { id := stamp.id, commodity := "", details := fun _ => none, inherits := false, sortOrder := 0,
      createdAt := stamp.now }

end SectionChange

end CarCare
