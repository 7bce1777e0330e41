import CarCare.Transaction
import CarCare.Proofs.Hierarchy.Listing
import Mathlib.Data.List.Flatten
import Mathlib.Data.List.Nodup
import Mathlib.Data.List.Pairwise
import Mathlib.Data.List.Perm.Basic

/-!
What blocks of work leave behind. The steps that a block executes are cut into segments wherever it
commits or goes back; how a segment ends says whether its rows are kept.

What is proved:
  1. `LeaseTables.insertAll_apart`: rows that share no key with each other or with what is stored all
     go in, in their order.
  2. `Work.flush_open`, `Work.commit_open` and `Work.rollback_open`: what each step makes of the
     rows of the segment that is open.
  3. `BlockKind.finish_run`: hence what a block leaves behind, by induction on its steps.
  4. `blocks_keep_committed_segments`: hence what a sequence of blocks leaves behind, and how each of
     them ends.
-/
namespace CarCare
open scoped List

/-! ## Rows of all tables -/

/-- What no two rows may share: an id within a table, and the code of a customer. -/
inductive LeaseKey where
  | customer (id : Uuid)
  | customerCode (code : String)
  | lease (id : Uuid)
  | rider (id : Uuid)
  | amendment (id : Uuid)
  | placement (id : Uuid)
deriving DecidableEq

def LeaseRow.keys : LeaseRow → List LeaseKey
  | .customer c => [.customer c.id, .customerCode c.code]
  | .lease l => [.lease l.id]
  | .rider r => [.rider r.id]
  | .amendment a => [.amendment a.id]
  | .placement p => [.placement p.id]

/-- Rows that share no key. -/
def LeaseRow.Apart (rows : List LeaseRow) : Prop := (rows.flatMap keys).Nodup

instance : DecidablePred LeaseRow.Apart :=
  fun rows => inferInstanceAs (Decidable (rows.flatMap LeaseRow.keys).Nodup)

namespace LeaseTables

def rows (t : LeaseTables) : List LeaseRow :=
  t.customers.map .customer ++ t.leases.map .lease ++ t.riders.map .rider
    ++ t.amendments.map .amendment ++ t.placements.map .placement

/-- The tables with a row at the end of its table, whatever the others are. -/
def push (t : LeaseTables) : LeaseRow → LeaseTables
  | .customer c => { t with customers := t.customers ++ [c] }
  | .lease l => { t with leases := t.leases ++ [l] }
  | .rider r => { t with riders := t.riders ++ [r] }
  | .amendment a => { t with amendments := t.amendments ++ [a] }
  | .placement p => { t with placements := t.placements ++ [p] }

def pushAll (t : LeaseTables) (rows : List LeaseRow) : LeaseTables := rows.foldl push t

end LeaseTables

namespace LeaseRow
variable {rows rows' : List LeaseRow}

theorem Apart.perm (h : Apart rows) (same : rows ~ rows') : Apart rows' :=
  (same.flatMap_right keys).nodup_iff.mp h

theorem Apart.sublist (h : Apart rows) (fewer : rows'.Sublist rows) : Apart rows' :=
  List.Nodup.sublist (fewer.flatMap keys) h

/-- Every row has a key, so that rows that share none are distinct. -/
theorem Apart.nodup (h : Apart rows) : rows.Nodup := by
  obtain ⟨_, hdisjoint⟩ := List.nodup_flatMap.mp h
  apply hdisjoint.imp
  rintro a _ hab rfl
  cases a <;> simp [Function.onFun, keys] at hab

end LeaseRow

namespace LeaseTables
variable {t : LeaseTables} {row : LeaseRow} {rows later : List LeaseRow}

theorem rows_push (t : LeaseTables) (row : LeaseRow) : (t.push row).rows ~ t.rows ++ [row] := by
  unfold LeaseTables.rows
  cases row <;> simp only [push, List.map_append, List.map_cons, List.map_nil, List.append_assoc] <;>
    grind

theorem rows_pushAll (t : LeaseTables) (rows : List LeaseRow) :
    (t.pushAll rows).rows ~ t.rows ++ rows := by
  induction rows generalizing t with
  | nil =>
    rw [List.append_nil]
    rfl
  | cons row rest ih =>
    calc (t.pushAll (row :: rest)).rows
      _ ~ (t.push row).rows ++ rest := ih (t.push row)
      _ ~ (t.rows ++ [row]) ++ rest := (t.rows_push row).append_right rest
      _ = t.rows ++ row :: rest := List.append_assoc ..

theorem pushAll_append (t : LeaseTables) (rows later : List LeaseRow) :
    t.pushAll (rows ++ later) = (t.pushAll rows).pushAll later :=
  List.foldl_append

theorem insert_apart (apart : ∀ a ∈ t.rows, List.Disjoint a.keys row.keys) :
    t.insert row = .ok (t.push row) := by
  have hfree : ∀ {α : Type} (table : List α) (wrap : α → LeaseRow) (key : LeaseKey)
      (new : α → Bool), (∀ a ∈ table, wrap a ∈ t.rows) → key ∈ row.keys →
      (∀ a, new a → key ∈ (wrap a).keys) → ¬ table.any new := by
    intro α table wrap key new stored hkey same hany
    obtain ⟨a, ha, hnew⟩ := List.any_eq_true.mp hany
    exact apart (wrap a) (stored a ha) (same a hnew) hkey
  cases row with
  | customer c =>
    have hid := hfree t.customers .customer (.customer c.id) (·.id == c.id)
      (by simp [rows]) (by simp [LeaseRow.keys]) (by simp +contextual [LeaseRow.keys])
    have hcode := hfree t.customers .customer (.customerCode c.code) (·.code == c.code)
      (by simp [rows]) (by simp [LeaseRow.keys]) (by simp +contextual [LeaseRow.keys])
    exact (if_neg hid).trans (if_neg hcode)
  | lease l =>
    exact if_neg (hfree t.leases .lease (.lease l.id) (·.id == l.id)
      (by simp [rows]) (by simp [LeaseRow.keys]) (by simp +contextual [LeaseRow.keys]))
  | rider r =>
    exact if_neg (hfree t.riders .rider (.rider r.id) (·.id == r.id)
      (by simp [rows]) (by simp [LeaseRow.keys]) (by simp +contextual [LeaseRow.keys]))
  | amendment x =>
    exact if_neg (hfree t.amendments .amendment (.amendment x.id) (·.id == x.id)
      (by simp [rows]) (by simp [LeaseRow.keys]) (by simp +contextual [LeaseRow.keys]))
  | placement p =>
    exact if_neg (hfree t.placements .placement (.placement p.id) (·.id == p.id)
      (by simp [rows]) (by simp [LeaseRow.keys]) (by simp +contextual [LeaseRow.keys]))

theorem insertAll_apart (apart : LeaseRow.Apart (t.rows ++ rows)) :
    t.insertAll rows = .ok (t.pushAll rows) := by
  induction rows generalizing t with
  | nil => rfl
  | cons row rest ih =>
    have hrow : t.insert row = .ok (t.push row) := by
      apply insert_apart
      intro a ha
      have hpair := List.pairwise_append.mp (List.nodup_flatMap.mp apart).2
      exact hpair.2.2 a ha row List.mem_cons_self
    have hrest : LeaseRow.Apart ((t.push row).rows ++ rest) := by
      apply apart.perm
      calc t.rows ++ row :: rest
        _ = (t.rows ++ [row]) ++ rest := List.append_cons ..
        _ ~ (t.push row).rows ++ rest := (t.rows_push row).symm.append_right rest
    have ih := ih hrest
    unfold insertAll at ih ⊢
    rw [List.foldlM_cons, hrow]
    exact ih

end LeaseTables

/-! ## Segments -/

/-- How a segment of a block ends: by a commit, by going back, by the end of the block, or because
the block gives up. -/
inductive Closing where
  | commit
  | rollback
  | leave
  | abort (text : String)
deriving DecidableEq

/-- The rows that a block adds between two points where it commits or goes back. -/
structure Segment where
  rows : List LeaseRow
  closing : Closing
deriving DecidableEq

namespace Segment

/-- Cuts the steps that are executed into segments, the first of which has rows already. Nothing is
executed after a block has given up. -/
def cut (rows : List LeaseRow) : List BlockStep → List Segment
  | [] => [⟨rows, .leave⟩]
  | .add row :: rest => cut (rows ++ [row]) rest
  | .flush :: rest => cut rows rest
  | .commit :: rest => ⟨rows, .commit⟩ :: cut [] rest
  | .rollback :: rest => ⟨rows, .rollback⟩ :: cut [] rest
  | .abort text :: _ => [⟨rows, .abort text⟩]

/-- Whether the rows of a segment are kept: it was committed, or it is what a session scope ends
with. -/
def isKept (kind : BlockKind) (s : Segment) : Bool :=
  match s.closing with
  | .commit => true
  | .leave => kind == .sessionScope
  | .rollback | .abort _ => false

theorem isKept_iff {kind : BlockKind} {s : Segment} :
    s.isKept kind ↔ s.closing = .commit ∨ s.closing = .leave ∧ kind = .sessionScope := by
  unfold isKept
  cases s.closing <;> simp

/-- The rows of the segments that are kept. -/
def keptRows (kind : BlockKind) (segments : List Segment) : List LeaseRow :=
  (segments.filter (isKept kind)).flatMap Segment.rows

@[simp] theorem keptRows_cons (kind : BlockKind) (s : Segment) (rest : List Segment) :
    keptRows kind (s :: rest)
      = (if s.isKept kind then s.rows else []) ++ keptRows kind rest := by
  unfold keptRows
  rw [List.filter_cons]
  split <;> rfl

theorem keptRows_sublist (kind : BlockKind) (segments : List Segment) :
    (keptRows kind segments).Sublist (segments.flatMap rows) :=
  List.filter_sublist.flatMap rows

/-- The open segment is the first that is cut. -/
theorem prefix_cut (rows : List LeaseRow) (steps : List BlockStep) :
    rows <+: (cut rows steps).flatMap Segment.rows := by
  induction steps generalizing rows with
  | nil => simp [cut]
  | cons step rest ih =>
    cases step with
    | add row => exact (List.prefix_append rows [row]).trans (ih (rows ++ [row]))
    | flush => exact ih rows
    | commit | rollback | abort _ => simp [cut]

theorem apart_cut {before rows : List LeaseRow} {steps : List BlockStep}
    (h : LeaseRow.Apart (before ++ (cut rows steps).flatMap Segment.rows)) :
    LeaseRow.Apart (before ++ rows) :=
  h.sublist ((prefix_cut rows steps).sublist.append_left before)

end Segment

/-- The words with which steps give up, if they do. -/
def BlockStep.gaveUp? (steps : List BlockStep) : Option String :=
  steps.findSome? fun
    | .abort text => some text
    | _ => none

/-- A block of work. -/
structure Block where
  kind : BlockKind
  steps : List BlockStep
deriving DecidableEq

namespace Block

def segments (b : Block) : List Segment := Segment.cut [] b.steps

def added (b : Block) : List LeaseRow := b.segments.flatMap Segment.rows

/-- The rows that a block leaves behind. -/
def kept (b : Block) : List LeaseRow := Segment.keptRows b.kind b.segments

/-- A block that never writes rows before it commits. -/
def unflushed (b : Block) : Block := { b with steps := b.steps.filter (· != .flush) }

/-- Runs blocks one after the other: the error that ends each of them, if there is one, and what is
stored after all. -/
def runAll : List Block → LeaseTables → List (Option BlockError) × LeaseTables
  | [], stored => ([], stored)
  | b :: rest, stored =>
    let ended := b.kind.run b.steps stored
    let later := runAll rest ended.2
    (ended.1 :: later.1, later.2)

end Block

/-! ## Steps -/

/-- The state of a block that has rows in its open segment: some of them are written on top of what
is committed, and the others wait. -/
structure Work.Open (stored : LeaseTables) (rows : List LeaseRow) (w : Work) : Prop where
  committed : w.committed = stored
  written : ∃ flushed, w.written = stored.pushAll flushed ∧ flushed ++ w.waiting = rows

namespace Work
variable {w : Work} {stored : LeaseTables} {rows : List LeaseRow}

theorem open_start (stored : LeaseTables) : Open stored [] (start stored) :=
  ⟨rfl, [], rfl, rfl⟩

theorem Open.add (h : w.Open stored rows) (row : LeaseRow) :
    Open stored (rows ++ [row]) { w with waiting := w.waiting ++ [row] } := by
  obtain ⟨flushed, hwritten, rfl⟩ := h.written
  exact ⟨h.committed, flushed, hwritten, (List.append_assoc ..).symm⟩

theorem flush_open (h : w.Open stored rows) (apart : LeaseRow.Apart (stored.rows ++ rows)) :
    w.flush = .ok { w with written := stored.pushAll rows, waiting := [] } := by
  obtain ⟨flushed, hwritten, rfl⟩ := h.written
  have happart : LeaseRow.Apart (w.written.rows ++ w.waiting) := by
    apply apart.perm
    calc stored.rows ++ (flushed ++ w.waiting)
      _ = (stored.rows ++ flushed) ++ w.waiting := (List.append_assoc ..).symm
      _ ~ w.written.rows ++ w.waiting := by
        rw [hwritten]
        exact (stored.rows_pushAll flushed).symm.append_right w.waiting
  rw [flush, LeaseTables.insertAll_apart happart, hwritten, ← LeaseTables.pushAll_append]

theorem commit_open (h : w.Open stored rows) (apart : LeaseRow.Apart (stored.rows ++ rows)) :
    w.commit = .ok (start (stored.pushAll rows)) := by
  rw [commit, flush_open h apart]
  rfl

theorem rollback_open (h : w.Open stored rows) : w.rollback = start stored := by
  rw [rollback, h.committed]

end Work

/-! ## Blocks -/

theorem UnitOfWork.step_some (w : Work) (s : BlockStep) :
    step ⟨some w⟩ s = (w.step s).map fun w => ⟨some w⟩ := by
  cases s with
  | add _ | commit | rollback | abort _ => rfl
  | flush =>
    show (w.flush >>= fun w => Except.ok (UnitOfWork.mk (some w))) = w.flush.map _
    cases w.flush <;> rfl

theorem UnitOfWork.run_some (w : Work) (steps : List BlockStep) :
    run ⟨some w⟩ steps = ((w.run steps).1, ⟨some (w.run steps).2⟩) := by
  induction steps generalizing w with
  | nil => rfl
  | cons s rest ih =>
    rw [run, Work.run, step_some]
    cases w.step s with
    | ok w => exact ih w
    | error e => rfl

namespace BlockKind
variable {w : Work} {stored : LeaseTables} {rows : List LeaseRow} {steps : List BlockStep}

/-- How a block of a kind ends after its steps. -/
def finish (kind : BlockKind) : Option BlockError × Work → Option BlockError × LeaseTables
  | (some e, w) => (some e, w.committed)
  | (none, w) =>
    match kind with
    | .unitOfWork => (none, w.committed)
    | .sessionScope =>
      match w.commit with
      | .ok w => (none, w.committed)
      | .error e => (some e, w.committed)

theorem run_eq_finish (kind : BlockKind) (steps : List BlockStep) (stored : LeaseTables) :
    kind.run steps stored = kind.finish ((Work.start stored).run steps) := by
  cases kind with
  | unitOfWork =>
    rw [run, UnitOfWork.enter, UnitOfWork.run_some]
    obtain ⟨ended, w⟩ := (Work.start stored).run steps
    cases ended <;> rfl
  | sessionScope =>
    unfold run
    obtain ⟨ended, w⟩ := (Work.start stored).run steps
    cases ended <;> rfl

/-- What a block leaves behind from a state with an open segment: what was committed before, and
after it the rows of the segments that are kept. -/
theorem finish_run (kind : BlockKind) (h : w.Open stored rows)
    (apart : LeaseRow.Apart (stored.rows ++ (Segment.cut rows steps).flatMap Segment.rows)) :
    kind.finish (w.run steps) = ((BlockStep.gaveUp? steps).map .aborted,
      stored.pushAll (Segment.keptRows kind (Segment.cut rows steps))) := by
  -- Each step changes the open segment, or closes it and begins another one.
  induction steps generalizing w stored rows with
  | nil =>
    have hrows := Segment.apart_cut apart
    cases kind with
    | unitOfWork => exact Prod.ext rfl h.committed
    | sessionScope =>
      show (match w.commit with
        | .ok w => (none, w.committed)
        | .error e => (some e, w.committed)) = _
      rw [Work.commit_open h hrows]
      simp [Segment.cut, Segment.keptRows, Segment.isKept, Work.start, BlockStep.gaveUp?]
  | cons step rest ih =>
    cases step with
    | add row => exact ih (h.add row) apart
    | flush =>
      rw [Work.run, Work.step, Work.flush_open h (Segment.apart_cut apart)]
      have hopen : Work.Open stored rows
          { w with written := stored.pushAll rows, waiting := [] } :=
        ⟨h.committed, rows, rfl, List.append_nil rows⟩
      exact ih hopen apart
    | commit =>
      rw [Work.run, Work.step, Work.commit_open h (Segment.apart_cut apart)]
      have hrest : LeaseRow.Apart
          ((stored.pushAll rows).rows ++ (Segment.cut [] rest).flatMap Segment.rows) := by
        apply apart.perm
        calc stored.rows ++ (rows ++ (Segment.cut [] rest).flatMap Segment.rows)
          _ = (stored.rows ++ rows) ++ (Segment.cut [] rest).flatMap Segment.rows :=
            (List.append_assoc ..).symm
          _ ~ (stored.pushAll rows).rows ++ (Segment.cut [] rest).flatMap Segment.rows :=
            (stored.rows_pushAll rows).symm.append_right _
      have hkept : Segment.keptRows kind (Segment.cut rows (.commit :: rest))
          = rows ++ Segment.keptRows kind (Segment.cut [] rest) :=
        Segment.keptRows_cons ..
      rw [hkept, LeaseTables.pushAll_append]
      exact ih (Work.open_start _) hrest
    | rollback =>
      rw [Work.run, Work.step, Work.rollback_open h]
      have hrest : LeaseRow.Apart (stored.rows ++ (Segment.cut [] rest).flatMap Segment.rows) :=
        apart.sublist ((List.sublist_append_right rows _).append_left stored.rows)
      exact ih (Work.open_start _) hrest
    | abort text =>
      rw [Work.run, Work.step, Work.rollback_open h]
      rfl

theorem run_eq_kept (b : Block) (apart : LeaseRow.Apart (stored.rows ++ b.added)) :
    b.kind.run b.steps stored
      = ((BlockStep.gaveUp? b.steps).map .aborted, stored.pushAll b.kept) := by
  rw [run_eq_finish]
  exact finish_run b.kind (Work.open_start stored) apart

end BlockKind

namespace Block
variable {b b' : Block} {s s' : Segment} {row : LeaseRow} {blocks : List Block}
  {stored : LeaseTables}

/-- What a sequence of blocks leaves behind, and how each of them ends. -/
theorem runAll_eq_kept (apart : LeaseRow.Apart (stored.rows ++ blocks.flatMap added)) :
    runAll blocks stored
      = (blocks.map fun b => (BlockStep.gaveUp? b.steps).map .aborted,
        stored.pushAll (blocks.flatMap kept)) := by
  -- A block keeps no more than it adds, so that the rows of later blocks stay apart from it.
  induction blocks generalizing stored with
  | nil => rfl
  | cons b rest ih =>
    rw [List.flatMap_cons, ← List.append_assoc] at apart
    have hblock : LeaseRow.Apart (stored.rows ++ b.added) :=
      apart.sublist (List.sublist_append_left _ _)
    have hkept : (stored.rows ++ b.kept).Sublist (stored.rows ++ b.added) :=
      (Segment.keptRows_sublist b.kind b.segments).append_left stored.rows
    have hrest : LeaseRow.Apart ((stored.pushAll b.kept).rows ++ rest.flatMap added) :=
      (apart.sublist (hkept.append_right _)).perm
        ((stored.rows_pushAll b.kept).symm.append_right _)
    rw [runAll, BlockKind.run_eq_kept b hblock, ih hrest, List.flatMap_cons,
      LeaseTables.pushAll_append]
    rfl

/-! ### Flushing -/

@[simp] theorem segments_unflushed (b : Block) : b.unflushed.segments = b.segments := by
  have hcut : ∀ rows, Segment.cut rows (b.steps.filter (· != .flush)) = Segment.cut rows b.steps := by
    induction b.steps with
    | nil => exact fun _ => rfl
    | cons step rest ih =>
      intro rows
      cases step <;> simp [Segment.cut, ih]
  exact hcut []

@[simp] theorem added_unflushed (b : Block) : b.unflushed.added = b.added :=
  congrArg (List.flatMap Segment.rows) b.segments_unflushed

@[simp] theorem kept_unflushed (b : Block) : b.unflushed.kept = b.kept :=
  congrArg (Segment.keptRows b.kind) b.segments_unflushed

@[simp] theorem gaveUp?_unflushed (b : Block) :
    BlockStep.gaveUp? b.unflushed.steps = BlockStep.gaveUp? b.steps := by
  unfold BlockStep.gaveUp? unflushed
  induction b.steps with
  | nil => rfl
  | cons step rest ih => cases step <;> simp_all

/-- Rows that are written before a commit end where rows that wait for it do. -/
theorem runAll_unflushed (apart : LeaseRow.Apart (stored.rows ++ blocks.flatMap added)) :
    runAll (blocks.map unflushed) stored = runAll blocks stored := by
  have hadded : (blocks.map unflushed).flatMap added = blocks.flatMap added := by
    simp [List.flatMap_map]
  have hkept : (blocks.map unflushed).flatMap kept = blocks.flatMap kept := by
    simp [List.flatMap_map]
  rw [runAll_eq_kept apart, runAll_eq_kept (hadded ▸ apart), hkept]
  simp

/-! ### Rows and their segments -/

/-- Lists that share nothing are told apart by what they hold. -/
theorem eq_of_mem_flatMap {α β : Type} {f : α → List β} {l : List α} {x y : α} {z : β}
    (distinct : (l.flatMap f).Nodup) (hx : x ∈ l) (hzx : z ∈ f x) (hy : y ∈ l) (hzy : z ∈ f y) :
    x = y := by
  by_contra hne
  have : Std.Symm (Function.onFun List.Disjoint f) := ⟨fun _ _ h _ hy hx => h hx hy⟩
  have hdisjoint : List.Disjoint (f x) (f y) :=
    (List.nodup_flatMap.mp distinct).2.forall hx hy hne
  exact hdisjoint hzx hzy

/-- Rows that are all distinct are added by one block, in one segment. -/
theorem segment_unique (distinct : (blocks.flatMap added).Nodup)
    (hb : b ∈ blocks) (hs : s ∈ b.segments) (hrow : row ∈ s.rows)
    (hb' : b' ∈ blocks) (hs' : s' ∈ b'.segments) (hrow' : row ∈ s'.rows) : b = b' ∧ s = s' := by
  have hadded : row ∈ b.added := List.mem_flatMap.mpr ⟨s, hs, hrow⟩
  have hadded' : row ∈ b'.added := List.mem_flatMap.mpr ⟨s', hs', hrow'⟩
  obtain rfl : b = b' := eq_of_mem_flatMap distinct hb hadded hb' hadded'
  have hblock : b.added.Nodup := (List.nodup_flatMap.mp distinct).1 b hb
  exact ⟨rfl, eq_of_mem_flatMap hblock hs hrow hs' hrow'⟩

end Block

/-- Blocks keep whole segments, and nothing else. Where the rows that the blocks add share no key with
each other or with what is stored, a block ends with the words with which it gives up and otherwise
without an error; what is stored before stays; and the rows of a segment are stored afterwards exactly
if the segment was committed, or is the last one of a session scope that ran to its end. Flushes make
no difference to any of it. -/
theorem blocks_keep_committed_segments (blocks : List Block) (stored : LeaseTables)
    (apart : LeaseRow.Apart (stored.rows ++ blocks.flatMap Block.added)) :
    let after := (Block.runAll blocks stored).2
    (Block.runAll blocks stored).1
        = blocks.map (fun b => (BlockStep.gaveUp? b.steps).map .aborted)
      ∧ after.rows ~ stored.rows ++ blocks.flatMap Block.kept
      ∧ (∀ b ∈ blocks, ∀ s ∈ b.segments, ∀ row ∈ s.rows,
          row ∈ after.rows
            ↔ s.closing = .commit ∨ s.closing = .leave ∧ b.kind = .sessionScope)
      ∧ Block.runAll (blocks.map Block.unflushed) stored = Block.runAll blocks stored := by
  intro after
  have hrun := Block.runAll_eq_kept apart
  have hafter : after = stored.pushAll (blocks.flatMap Block.kept) := congrArg Prod.snd hrun
  have hrows : after.rows ~ stored.rows ++ blocks.flatMap Block.kept := by
    rw [hafter]
    exact stored.rows_pushAll _
  refine ⟨congrArg Prod.fst hrun, hrows, ?_, Block.runAll_unflushed apart⟩
  intro b hb s hs row hrow
  rw [← Segment.isKept_iff, hrows.mem_iff]
  have hadded : row ∈ blocks.flatMap Block.added :=
    List.mem_flatMap.mpr ⟨b, hb, List.mem_flatMap.mpr ⟨s, hs, hrow⟩⟩
  have hdistinct := List.nodup_append.mp apart.nodup
  constructor
  · intro hstays
    obtain hbefore | hkept := List.mem_append.mp hstays
    · exact absurd rfl (hdistinct.2.2 row hbefore row hadded)
    · obtain ⟨b', hb', hin⟩ := List.mem_flatMap.mp hkept
      obtain ⟨s', hs', hrow'⟩ := List.mem_flatMap.mp hin
      obtain ⟨hcut, hisKept⟩ := List.mem_filter.mp hs'
      obtain ⟨rfl, rfl⟩ := Block.segment_unique hdistinct.2.1 hb hs hrow hb' hcut hrow'
      exact hisKept
  · intro hisKept
    apply List.mem_append_right
    exact List.mem_flatMap.mpr ⟨b, hb, List.mem_flatMap.mpr
      ⟨s, List.mem_filter.mpr ⟨hs, hisKept⟩, hrow⟩⟩

def newCustomer (id : Nat) (code : String) : LeaseRow := .customer ⟨⟨id⟩, code, code, true⟩

/-- A session scope that gives up, a unit of work that does not commit at its end, and a session scope
that goes back once. -/
def mixedBlocks : List Block :=
  [⟨.sessionScope, [.add (newCustomer 2 "A"), .flush, .commit, .add (newCustomer 3 "B"),
      .abort "stop"]⟩,
    ⟨.unitOfWork, [.add (newCustomer 4 "C"), .commit, .add (newCustomer 5 "D"), .flush]⟩,
    ⟨.sessionScope, [.add (newCustomer 6 "E"), .rollback, .add (newCustomer 7 "F")]⟩]

theorem blocks_keep_committed_segments_mixed :
    let after := (Block.runAll mixedBlocks danglingTables).2
    LeaseRow.Apart (danglingTables.rows ++ mixedBlocks.flatMap Block.added)
      ∧ (Block.runAll mixedBlocks danglingTables).1 = [some (.aborted "stop"), none, none]
      ∧ after.rows ~ danglingTables.rows
          ++ [newCustomer 2 "A", newCustomer 4 "C", newCustomer 7 "F"]
      ∧ newCustomer 5 "D" ∉ after.rows := by
  intro after
  have hapart : LeaseRow.Apart (danglingTables.rows ++ mixedBlocks.flatMap Block.added) := by decide
  have hkeep := blocks_keep_committed_segments mixedBlocks danglingTables hapart
  have hlast := hkeep.2.2.1 ⟨.unitOfWork, [.add (newCustomer 4 "C"), .commit,
    .add (newCustomer 5 "D"), .flush]⟩ (by decide) ⟨[newCustomer 5 "D"], .leave⟩ (by decide)
    (newCustomer 5 "D") (by decide)
  exact ⟨hapart, hkeep.1.trans (by decide), hkeep.2.1, hlast.not.mpr (by decide)⟩

end CarCare
