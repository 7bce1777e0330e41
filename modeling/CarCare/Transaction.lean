import CarCare.Hierarchy.Rows

/-!
Blocks of work on the leasing tables. A row that is added waits until it is flushed; a commit
flushes and keeps everything for good, and a rollback takes back everything since the last commit.
Blocks differ in how they end: a session scope commits, a unit of work keeps only what it committed
itself. An error ends a block at once and takes back what was not committed.
-/
namespace CarCare

/-- A step of a block. -/
inductive BlockStep where
  | add (row : LeaseRow)
  | flush
  | commit
  | rollback
  | abort (text : String)
deriving DecidableEq, Repr

/-- Why a block ends early. -/
inductive BlockError where
  /-- The block gave up, with words of its own. -/
  | aborted (text : String)
  | constraint (broken : Constraint)
  /-- The session of a unit of work was asked for outside its block. -/
  | outside
deriving DecidableEq, Repr

namespace BlockError

def message : BlockError → String
  | aborted text => text
  | constraint broken => broken.message
  | outside => "UnitOfWork used outside its with-block"

end BlockError

/-- The state of a block: what is stored for good, what it has written on top of that, and the rows
that wait to be written. -/
structure Work where
  committed : LeaseTables
  written : LeaseTables
  waiting : List LeaseRow := []

namespace Work

def start (stored : LeaseTables) : Work := ⟨stored, stored, []⟩

def flush (w : Work) : Except BlockError Work :=
  match w.written.insertAll w.waiting with
  | .ok written => .ok { w with written, waiting := [] }
  | .error broken => .error (.constraint broken)

def rollback (w : Work) : Work := start w.committed

/-- Writes the waiting rows and keeps everything for good. -/
def commit (w : Work) : Except BlockError Work :=
  w.flush.map fun flushed => start flushed.written

def step (w : Work) : BlockStep → Except BlockError Work
  | .add row => .ok { w with waiting := w.waiting ++ [row] }
  | .flush => w.flush
  | .commit => w.commit
  | .rollback => .ok w.rollback
  | .abort text => .error (.aborted text)

/-- Makes the steps of a block up to the first error; what an error leaves is what was committed. -/
def run (w : Work) : List BlockStep → Option BlockError × Work
  | [] => (none, w)
  | s :: rest =>
    match w.step s with
    | .ok w => w.run rest
    | .error e => (some e, w.rollback)

end Work

/-- A unit of work as its owner holds it: it has work only inside its block. -/
structure UnitOfWork where
  work : Option Work := none

namespace UnitOfWork

def enter (stored : LeaseTables) : UnitOfWork := ⟨some (.start stored)⟩

def commit (u : UnitOfWork) : Except BlockError UnitOfWork :=
  match u.work with
  | some w => w.commit.map fun w => ⟨some w⟩
  | none => .ok u

def rollback (u : UnitOfWork) : UnitOfWork := ⟨u.work.map Work.rollback⟩

def close (_ : UnitOfWork) : UnitOfWork := {}

/-- The session, which there is inside the block only. -/
def session (u : UnitOfWork) : Except BlockError Work :=
  match u.work with
  | some w => .ok w
  | none => .error .outside

/-- Makes a step. Commits and rollbacks go by the unit of work, and all else by its session. -/
def step (u : UnitOfWork) : BlockStep → Except BlockError UnitOfWork
  | .commit => u.commit
  | .rollback => .ok u.rollback
  | s => do
    let w ← (← u.session).step s
    pure ⟨some w⟩

/-- Makes the steps of a block up to the first error, which takes back what was not committed. -/
def run (u : UnitOfWork) : List BlockStep → Option BlockError × UnitOfWork
  | [] => (none, u)
  | s :: rest =>
    match u.step s with
    | .ok u => u.run rest
    | .error e => (some e, u.rollback)

end UnitOfWork

/-- How a block ends that no error ends. -/
inductive BlockKind where
  | sessionScope
  | unitOfWork
deriving DecidableEq, Repr

/-- Runs a block: the error that ends it, if there is one, and what is stored afterwards. What a
unit of work has not committed itself is lost when it closes. -/
def BlockKind.run (kind : BlockKind) (steps : List BlockStep) (stored : LeaseTables) :
    Option BlockError × LeaseTables :=
  match kind with
  | .unitOfWork =>
    let (ended, u) := (UnitOfWork.enter stored).run steps
    (ended, u.work.elim stored Work.committed)
  | .sessionScope =>
    match (Work.start stored).run steps with
    | (some e, w) => (some e, w.committed)
    -- A session scope that no error has ended commits in the end, which may fail.
    | (none, w) =>
      match w.commit with
      | .ok w => (none, w.committed)
      | .error e => (some e, w.committed)

end CarCare
