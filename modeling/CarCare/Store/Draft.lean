import CarCare.Session

/-!
Drafts: records that are put into the store as they are given, with their ids and their sections.
Only the rules of the tables are kept; attributes that a draft lacks get their defaults.
-/
namespace CarCare

/-- A record to be stored, with the ids and columns of its sections in the given order. -/
structure Draft where
  record : Instruction
  sealing : List (Uuid × SectionChange)
  lining : List (Uuid × SectionChange)

namespace Draft

/-- New sections of a kind, all of one age. -/
def sectionRows (kind : SectionKind) (now : Timestamp) (given : List (Uuid × SectionChange)) :
    Except Error (List SectionRow) :=
  given.mapM fun (id, change) => change.create kind ⟨id, now⟩

def row (d : Draft) (now : Timestamp) : Except Error InstructionRow := do
  let id ← match d.record.id with
    | some id => pure id
    | none => throw (.constraint (.notNull (Store.column "id")))
  let level ← match d.record.level with
    | some level => pure level
    | none => throw (.constraint (.notNull (Store.column "scope_level")))
  let sealing ← sectionRows .sealing now d.sealing
  let lining ← sectionRows .lining now d.lining
  pure
    { id, level, sealing, lining
      scopes := d.record.scopes
      scopeName := d.record.scopeName
      fields := d.record.fields
      version := d.record.version.getD 1
      isCurrent := d.record.isCurrent.getD true
      supersedes := d.record.supersedes
      createdBy := d.record.createdBy
      createdAt := now
      updatedAt := now }

/-- Stores a draft and answers it as it was given. -/
def insert (d : Draft) (now : Timestamp) (s : Session) : Session.Outcome Instruction :=
  match d.row now with
  | .error e => (.error e, s)
  | .ok row =>
    match s.store.insert row with
    | .error broken => (.error (.constraint broken), s)
    | .ok store => (.ok row.asListed, s.withStore store)

end Draft

end CarCare
