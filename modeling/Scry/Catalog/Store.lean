import Scry.Lib.Table
import Scry.Block.Meta

/-! # The catalog

A date is its day number: `yyyy-mm-dd` sorts the same way for every `u64` nanosecond timestamp.
-/

open Scry.Lib Scry.Block

namespace Scry

namespace Catalog

def i64Max : Nat := 2 ^ 63 - 1

/-- `as i64`, the cast that `ORDER BY ts_min` sees. -/
def asI64 (n : Nat) : Int := Int.bmod n (2 ^ 64)

def formatDate (tsUnixNano : Nat) : Nat := tsUnixNano / 1000000000 / 86400

/-! ## Tables -/

structure Row where
  uuid : Uuid
  signal : SignalName
  date : Nat
  writerId : Uuid
  level : Nat
  tsMin : Nat
  tsMax : Nat
  rowCount : Nat
  byteSize : Nat
  schemaVersion : Nat
  supersededBy : Option Uuid
  superseded : Bool
  deletedAt : Option Nat
  deleteEligibleAt : Option Nat
  reapOutputUuid : Option Uuid
  reapEligibleAt : Option Nat
  walSegMax : Option Nat
  walShard : Option Nat
  deriving DecidableEq

structure LineageRow where
  ancestor : Uuid
  descendant : Uuid
  signal : SignalName
  date : Nat
  deriving DecidableEq

def LineageRow.key (l : LineageRow) : Uuid × Uuid := (l.ancestor, l.descendant)

structure Watermark where
  writerId : Uuid
  signal : SignalName
  shard : Nat
  segMax : Nat
  deriving DecidableEq

def Watermark.key (w : Watermark) : Uuid × SignalName × Nat := (w.writerId, w.signal, w.shard)

structure Cursor where
  signal : SignalName
  writerId : Uuid
  date : Nat
  highestUuid : Uuid
  deriving DecidableEq

def Cursor.key (c : Cursor) : SignalName × Uuid × Nat := (c.signal, c.writerId, c.date)

end Catalog

structure Catalog where
  blocks : Table Uuid Catalog.Row Catalog.Row.uuid
  blockLineage : Table (Uuid × Uuid) Catalog.LineageRow Catalog.LineageRow.key
  walWatermarks : Table (Uuid × SignalName × Nat) Catalog.Watermark Catalog.Watermark.key
  pollCursors : Table (SignalName × Uuid × Nat) Catalog.Cursor Catalog.Cursor.key

namespace Catalog

def empty : Catalog := ⟨.empty, .empty, .empty, .empty⟩

/-! ## One row -/

namespace Row

variable (deletedAt eligible : Nat) (r : Row) (t e : Nat)

/-- `deleted_at IS NULL AND superseded = 0` -/
def live : Bool := r.deletedAt.isNone && !r.superseded

def ofMeta (m : BlockMeta) (superseded : Bool) : Row where
  uuid := m.uuid
  signal := m.signal
  date := formatDate m.tsMinUnixNano
  writerId := m.writerId
  level := m.level
  tsMin := m.tsMinUnixNano
  tsMax := m.tsMaxUnixNano
  rowCount := m.rowCount
  byteSize := m.byteSize
  schemaVersion := m.schemaVersion
  supersededBy := none
  superseded := superseded
  deletedAt := none
  deleteEligibleAt := none
  reapOutputUuid := none
  reapEligibleAt := none
  walSegMax := m.walSegMax
  walShard := m.walShard

def claim (descendant : Uuid) (r : Row) : Row :=
  { r with superseded := true, supersededBy := r.supersededBy.or (some descendant) }

def stage (merged : Uuid) (eligible : Nat) (r : Row) : Row :=
  { r with
    supersededBy := some merged
    superseded := true
    reapOutputUuid := some merged
    reapEligibleAt := some (max (r.reapEligibleAt.getD eligible) eligible) }

def unstaged : Bool :=
  r.superseded && r.deletedAt.isNone && r.supersededBy.isSome && r.reapEligibleAt.isNone

def fillStage (eligible : Nat) (r : Row) : Row :=
  { r with
    reapOutputUuid := r.reapOutputUuid.or r.supersededBy
    reapEligibleAt := r.reapEligibleAt.or (some eligible) }

def markDeleted : Row :=
  { r with
    deletedAt := r.deletedAt.or (some deletedAt)
    deleteEligibleAt := some (max (r.deleteEligibleAt.getD eligible) eligible) }

def adoptPeerDeletion : Row :=
  { r with deletedAt := some deletedAt, deleteEligibleAt := some eligible }

@[simp] theorem uuid_claim (d : Uuid) (r : Row) : (r.claim d).uuid = r.uuid := rfl

@[simp] theorem uuid_stage (o : Uuid) (e : Nat) (r : Row) : (r.stage o e).uuid = r.uuid := rfl

@[simp] theorem uuid_fillStage (e : Nat) (r : Row) : (r.fillStage e).uuid = r.uuid := rfl

@[simp] theorem uuid_markDeleted (r : Row) : (r.markDeleted t e).uuid = r.uuid := rfl

@[simp] theorem uuid_adoptPeerDeletion (r : Row) :
    (r.adoptPeerDeletion t e).uuid = r.uuid := rfl

end Row

variable (c : Catalog) (m : BlockMeta) (u : Uuid) (now : Nat) (a b : Row) (signal : SignalName) (writerId : Uuid)
   (r : Row) (segMax : Nat) (w : Watermark) (h : Cursor)

def Watermark.raise : Watermark := { w with segMax := segMax }

@[simp] theorem Watermark.key_raise : (w.raise segMax).key = w.key := rfl

def Cursor.moveTo : Cursor := { h with highestUuid := u }

@[simp] theorem Cursor.key_moveTo : (h.moveTo u).key = h.key := rfl

/-! ## Writes -/

/-- The `EXISTS` of the insert: a live block claims `u`. -/
def hasLiveDescendant : Bool :=
  c.blockLineage.rows.any fun l => l.ancestor = u && (c.blocks.lookup l.descendant).any Row.live

def advanceWatermark (signal : SignalName) (shard segMax : Nat) : Catalog :=
  { c with
    walWatermarks :=
      (c.walWatermarks.insertIgnore ⟨writerId, signal, shard, segMax⟩).updateWhere
        (fun w => w.key = (writerId, signal, shard) ∧ w.segMax < segMax)
        (Watermark.raise segMax) (Watermark.key_raise segMax) }

def claimAncestor (c : Catalog) (ancestor : Uuid) : Catalog :=
  { c with
    blockLineage :=
      c.blockLineage.insertIgnore ⟨ancestor, m.uuid, m.signal, formatDate m.tsMinUnixNano⟩
    blocks := c.blocks.updateWhere (fun r => r.uuid = ancestor ∧ r.uuid ≠ m.uuid)
      (Row.claim m.uuid) (Row.uuid_claim m.uuid) }

def applyLineage : Catalog :=
  m.compactedFrom.foldl (claimAncestor m) c

def newRow : Row := Row.ofMeta m (c.hasLiveDescendant m.uuid)

/-- The high-water moves even when the row was present. -/
def advanceMetaWatermark : Catalog :=
  match m.walSegMax, m.walShard with
  | some seg, some shard => c.advanceWatermark m.writerId m.signal shard seg
  | _, _ => c

def insertRow : Catalog :=
  { c with blocks := c.blocks.insertIgnore (c.newRow m) }

def insertBlock : Catalog :=
  (((c.insertRow m).advanceMetaWatermark m).applyLineage m)

def insertBlockIsNew : Bool := !c.blocks.contains m.uuid

def stageSuperseded (inputs : List Uuid) (merged : Uuid) (eligibleAt : Nat) : Catalog :=
  { c with
    blocks := c.blocks.updateKeys inputs (fun r => r.uuid ≠ merged)
      (Row.stage merged (min eligibleAt i64Max)) (Row.uuid_stage _ _) }

def applyCompaction (output : BlockMeta) (directInputs : List Uuid) (reapEligibleAt : Nat) : Catalog :=
  (c.insertBlock output).stageSuperseded directInputs output.uuid reapEligibleAt

def stageUnstagedSuperseded (eligibleAt : Nat) : Catalog :=
  { c with
    blocks := c.blocks.updateWhere Row.unstaged (Row.fillStage (min eligibleAt i64Max))
      (Row.uuid_fillStage _) }

def deleteBlocks (uuids : List Uuid) : Catalog :=
  { c with blocks := c.blocks.deleteWhere fun r => r.uuid ∈ uuids }

def markDeleted (c : Catalog) (uuids : List Uuid) (deletedAt eligibleAt : Nat) : Catalog :=
  { c with
    blocks := c.blocks.updateKeys uuids (fun _ => True)
      (Row.markDeleted deletedAt (min eligibleAt i64Max)) (Row.uuid_markDeleted _ _) }

def adoptPeerDeletion (c : Catalog) (uuids : List Uuid) (deletedAt eligibleAt : Nat) : Catalog :=
  { c with
    blocks := c.blocks.updateKeys uuids (fun r => r.deletedAt = none)
      (Row.adoptPeerDeletion deletedAt (min eligibleAt i64Max)) (Row.uuid_adoptPeerDeletion _ _) }

/-- `Uuid::get_version_num`: the high nibble of byte 6. -/
def uuidVersion : Nat := u / 2 ^ 76 % 16

def advanceCursor (date : Nat) (u : Uuid) : Catalog :=
  if uuidVersion u ≠ 7 then c
  else
    { c with
      pollCursors :=
        (c.pollCursors.insertIgnore ⟨signal, writerId, date, u⟩).updateWhere
          (fun h => h.key = (signal, writerId, date) ∧ (h.highestUuid < u ∨ uuidVersion h.highestUuid ≠ 7))
          (Cursor.moveTo u) (Cursor.key_moveTo u) }

/-! ## Listings -/

structure CatalogEntry where
  blockMeta : BlockMeta
  date : Nat
  level : Nat
  deriving DecidableEq

/-- `row_to_entry`: `compacted_from` has no column, so it comes back empty. -/
def Row.toEntry : CatalogEntry where
  blockMeta :=
    { uuid := r.uuid
      signal := r.signal
      writerId := r.writerId
      tsMinUnixNano := r.tsMin
      tsMaxUnixNano := r.tsMax
      rowCount := r.rowCount
      byteSize := r.byteSize
      schemaVersion := r.schemaVersion
      level := r.level
      compactedFrom := []
      walSegMax := r.walSegMax
      walShard := r.walShard }
  date := r.date
  level := r.level

structure PendingReap where
  entry : CatalogEntry
  outputUuid : Uuid
  eligibleAtUnixNano : Nat
  deriving DecidableEq

def Row.pendingReap : Option PendingReap :=
  match r.reapOutputUuid, r.reapEligibleAt with
  | some output, some eligible =>
    if r.superseded ∧ eligible ≤ min now i64Max then some ⟨r.toEntry, output, eligible⟩ else none
  | _, _ => none

/-- `ORDER BY date, ts_min, uuid` -/
def listOrder : Prop :=
  a.date < b.date ∨ a.date = b.date ∧
    (asI64 a.tsMin < asI64 b.tsMin ∨ asI64 a.tsMin = asI64 b.tsMin ∧ a.uuid ≤ b.uuid)

instance : DecidableRel listOrder := fun _ _ => inferInstanceAs (Decidable (_ ∨ _ ∧ (_ ∨ _ ∧ _)))

def listBlocks : List CatalogEntry :=
  ((c.blocks.rows.filter Row.live).insertionSort listOrder).map Row.toEntry

def hasBlock : Bool := c.blocks.contains u

def knownBlockUuids : List Uuid := c.blocks.rows.map Row.uuid

def getWatermark (signal : SignalName) (shard : Nat) : Option Nat :=
  (c.walWatermarks.lookup (writerId, signal, shard)).map Watermark.segMax

def listWatermarks : List (Uuid × Nat × Nat) :=
  (c.walWatermarks.rows.filter fun w => w.signal = signal).map fun w => (w.writerId, w.shard, w.segMax)

/-- `ORDER BY reap_eligible_at, date, uuid` -/
def reapOrder : Prop :=
  a.reapEligibleAt.getD 0 < b.reapEligibleAt.getD 0 ∨
    a.reapEligibleAt.getD 0 = b.reapEligibleAt.getD 0 ∧
      (a.date < b.date ∨ a.date = b.date ∧ a.uuid ≤ b.uuid)

instance : DecidableRel reapOrder := fun _ _ => inferInstanceAs (Decidable (_ ∨ _ ∧ (_ ∨ _ ∧ _)))

def listPendingReaps : List PendingReap :=
  (c.blocks.rows.insertionSort reapOrder).filterMap (Row.pendingReap now)

def Row.deletionDue : Bool :=
  r.deletedAt.isSome && r.deleteEligibleAt.any (· ≤ min now i64Max)

/-- `ORDER BY delete_eligible_at, date, uuid` -/
def deletionOrder : Prop :=
  a.deleteEligibleAt.getD 0 < b.deleteEligibleAt.getD 0 ∨
    a.deleteEligibleAt.getD 0 = b.deleteEligibleAt.getD 0 ∧
      (a.date < b.date ∨ a.date = b.date ∧ a.uuid ≤ b.uuid)

instance : DecidableRel deletionOrder := fun _ _ => inferInstanceAs (Decidable (_ ∨ _ ∧ (_ ∨ _ ∧ _)))

def listPendingDeletions : List CatalogEntry :=
  ((c.blocks.rows.filter (Row.deletionDue now)).insertionSort deletionOrder).map Row.toEntry

end Catalog

end Scry
