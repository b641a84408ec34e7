import Scry.Cluster.Consume
import Scry.Compact.Plan

/-! # Compaction passes over one bucket

Each planned merge is a task of its own: it takes the lease of its partition, reconciles the partition from
the bucket, checks its plan again, merges and commits. The steps of different tasks interleave freely.
-/

open Scry.Lib Scry.Block Scry.Catalog Scry.Compact

namespace Scry.Cluster

/-! ## Keys -/

structure LeaseKey where
  signal : SignalName
  date : Nat
  inputLevel : Nat
  deriving DecidableEq

def compactionLeaseKey (p : PlannedMerge) : LeaseKey := ⟨p.signal, p.date, p.inputLevel⟩

/-- The object key of a sidecar, as `parse_block_key` reads it. -/
structure Location where
  signal : SignalName
  date : Nat
  writerId : Uuid
  uuid : Uuid
  deriving DecidableEq

def location (m : BlockMeta) : Location :=
  ⟨m.signal, formatDate m.tsMinUnixNano, m.writerId, m.uuid⟩

variable (bucket : List BlockMeta)

/-- `collect_meta_locations` with the prefix of one signal and day. -/
def collectMetaLocations (signal : SignalName) (date : Nat) : List Location :=
  (bucket.map location).filter fun loc => loc.signal = signal ∧ loc.date = date

def getObject (loc : Location) : Option BlockMeta :=
  bucket.find? fun m => location m = loc

/-! ## State -/

structure Commit where
  block : BlockMeta
  inputs : List Uuid
  deriving DecidableEq

def blocksOf (log : List Commit) : List BlockMeta := log.map Commit.block

inductive Phase where
  | planned
  | acquired
  | listed (locations : List Location)
  | fetching (toFetch : List Location) (fetched : List BlockMeta)
  | reconciled
  | validated
  | loading (outputUuid : Uuid) (toLoad : List CatalogEntry) (inputMetas : List BlockMeta)
  | merged (output : BlockMeta)
  | putting (output : BlockMeta)
  /-- The node has given up on the `PUT`, which may still be applied. -/
  | abandoned (output : BlockMeta)
  | committed (output : BlockMeta)
  | finished
  deriving DecidableEq

structure Task where
  node : Nat
  plan : PlannedMerge
  phase : Phase
  deriving DecidableEq

def Task.key (t : Task) : LeaseKey := compactionLeaseKey t.plan

def Task.inputUuids (t : Task) : List Uuid := t.plan.inputs.map fun e => e.blockMeta.uuid

/-- `log` is all that was committed, `lister` whose listing under each lease was the last; a task's token is
its place in `tasks`. -/
structure Fleet where
  bucket : List BlockMeta
  log : List Commit
  catalogs : Nat → Catalog
  holder : LeaseKey → Option Nat
  lister : LeaseKey → Option Nat
  tasks : List Task

namespace Fleet

def init : Fleet := ⟨[], [], fun _ => .empty, fun _ => none, fun _ => none, []⟩

variable (s : Fleet) (token : Nat) (t : Task)

def history : List BlockMeta := blocksOf s.log

variable (n : Nat) (p : PlannedMerge) (outputUuid : Uuid) (eligible : Nat) (m : BlockMeta)

def setCatalog (c : Catalog) : Fleet :=
  { s with catalogs := Function.update s.catalogs n c }

def setPhase (phase : Phase) : Fleet :=
  { s with tasks := s.tasks.set token { t with phase := phase } }

def release (key : LeaseKey) : Fleet :=
  { s with holder := if s.holder key = some token then Function.update s.holder key none else s.holder }

/-- Every early return of a task releases its lease, if it holds it. -/
def finish : Fleet :=
  (s.setPhase token t .finished).release token t.key

def commit (x : Commit) : Fleet :=
  { s with bucket := x.block :: s.bucket, log := x :: s.log }

def UuidFresh (u : Uuid) : Prop := ∀ x ∈ s.log, x.block.uuid ≠ u

instance (s : Fleet) (u : Uuid) : Decidable (s.UuidFresh u) :=
  inferInstanceAs (Decidable (∀ x ∈ s.log, _))

/-! ## Nodes and their catalogs -/

/-- `Deleted` follows the deletion of the objects. -/
def Emitted : BlockEvent → Prop
  | .created m => m ∈ s.history
  | .superseded inputs byMeta _ => ⟨byMeta, inputs⟩ ∈ s.log
  | .softDeleted _ _ _ => False
  | .deleted uuids => ∀ u ∈ uuids, ∀ m ∈ s.bucket, m.uuid ≠ u

instance (s : Fleet) : ∀ e, Decidable (s.Emitted e)
  | .created m => inferInstanceAs (Decidable (m ∈ s.history))
  | .superseded inputs byMeta _ => inferInstanceAs (Decidable (⟨byMeta, inputs⟩ ∈ s.log))
  | .softDeleted _ _ _ => inferInstanceAs (Decidable False)
  | .deleted uuids => inferInstanceAs (Decidable (∀ u ∈ uuids, ∀ m ∈ s.bucket, m.uuid ≠ u))

def write : Option Fleet :=
  if m.level = 0 ∧ m.compactedFrom = [] ∧ s.UuidFresh m.uuid then some (s.commit ⟨m, []⟩) else none

def poll : Option Fleet :=
  if m ∈ s.bucket then some (s.setCatalog n ((s.catalogs n).insertBlock m)) else none

def deliver (n grace now : Nat) (e : BlockEvent) : Option Fleet :=
  if s.Emitted e then some (s.setCatalog n (applyEventWithGrace (s.catalogs n) grace now e).1)
  else none

def reap (n now : Nat) (u : Uuid) : Option Fleet :=
  if u ∈ ((s.catalogs n).listPendingReaps now).map fun p => p.entry.blockMeta.uuid then
    some { s with bucket := s.bucket.filter fun m => m.uuid ≠ u }
  else none

/-- Ends the node's tasks; its catalog and leases stay. -/
def crashed (t : Task) : Task :=
  if t.node = n then
    { t with
      phase := match t.phase with
        | .putting output => .abandoned output
        | .abandoned output => .abandoned output
        | _ => .finished }
  else t

/-! ## One planned merge -/

/-- A pass with an invalid configuration returns before it plans. -/
def plan (cfg : CompactConfig) (i : Nat) : Option Fleet :=
  if cfg.validate then
    (planMerges (s.catalogs n).listBlocks cfg).merges[i]?.map fun p =>
      { s with tasks := s.tasks ++ [⟨n, p, .planned⟩] }
  else none

def acquire : Option Fleet :=
  match t.phase with
  | .planned =>
    if s.holder t.key = none then
      some { s.setPhase token t .acquired with holder := Function.update s.holder t.key (some token) }
    else some (s.finish token t)
  | _ => none

/-- A listing under a live lease ends the time in which an earlier holder's `PUT` may be applied. -/
def list : Option Fleet :=
  match t.phase with
  | .acquired =>
    let s' := s.setPhase token t (.listed (collectMetaLocations s.bucket t.plan.signal t.plan.date))
    if s.holder t.key = some token then
      some { s' with lister := Function.update s.lister t.key (some token) }
    else some s'
  | _ => none

def skipKnown : Option Fleet :=
  match t.phase with
  | .listed locations =>
    let known := (s.catalogs t.node).knownBlockUuids
    some (s.setPhase token t (.fetching (locations.filter fun loc => loc.uuid ∉ known) []))
  | _ => none

/-- One `GET`. A sidecar that is not there any more is skipped. -/
def get (i : Nat) : Option Fleet :=
  match t.phase with
  | .fetching toFetch fetched =>
    toFetch[i]?.map fun loc =>
      match getObject s.bucket loc with
      | some m => s.setPhase token t (.fetching (toFetch.eraseIdx i) (fetched ++ [m]))
      | none => s.setPhase token t (.fetching (toFetch.eraseIdx i) fetched)
  | _ => none

def insert (i : Nat) : Option Fleet :=
  match t.phase with
  | .fetching toFetch fetched =>
    fetched[i]?.map fun m =>
      (s.setCatalog t.node ((s.catalogs t.node).insertBlock m)).setPhase token t
        (.fetching toFetch (fetched.eraseIdx i))
  | _ => none

def stage : Option Fleet :=
  match t.phase with
  | .fetching [] [] =>
    some ((s.setCatalog t.node ((s.catalogs t.node).stageUnstagedSuperseded eligible)).setPhase token t .reconciled)
  | _ => none

def revalidate : Option Fleet :=
  match t.phase with
  | .reconciled =>
    let liveIds := (s.catalogs t.node).listBlocks.map fun e => e.blockMeta.uuid
    if ∀ u ∈ t.inputUuids, u ∈ liveIds then some (s.setPhase token t .validated)
    else some (s.finish token t)
  | _ => none

def inputsAgree : Bool :=
  match p.inputs with
  | [] => false
  | first :: _ => p.inputs.all fun e =>
      e.blockMeta.signal = p.signal && e.blockMeta.schemaVersion = first.blockMeta.schemaVersion

def start : Option Fleet :=
  match t.phase with
  | .validated =>
    if s.holder t.key = some token ∧ inputsAgree t.plan then
      some (s.setPhase token t (.loading outputUuid t.plan.inputs []))
    else some (s.finish token t)
  | _ => none

def load : Option Fleet :=
  match t.phase with
  | .loading outputUuid (e :: rest) inputMetas =>
    match loadInput s.bucket t.plan.signal e with
    | .ok m => some (s.setPhase token t (.loading outputUuid rest (inputMetas ++ [m])))
    | .error _ => some (s.finish token t)
  | _ => none

def mergedMeta (compactedFrom : List Uuid)
    (rowCount byteSize : Nat) : BlockMeta where
  uuid := outputUuid
  signal := p.signal
  writerId := (p.inputs.map fun e => e.blockMeta.writerId).min?.getD 0
  tsMinUnixNano := (p.inputs.map fun e => e.blockMeta.tsMinUnixNano).min?.getD 0
  tsMaxUnixNano := (p.inputs.map fun e => e.blockMeta.tsMaxUnixNano).max?.getD 0
  rowCount := rowCount
  byteSize := byteSize
  schemaVersion := (p.inputs.head?.map fun e => e.blockMeta.schemaVersion).getD 0
  level := p.outputLevel
  compactedFrom := compactedFrom
  walSegMax := none
  walShard := none

def merge (rowCount byteSize : Nat) : Option Fleet :=
  match t.phase with
  | .loading outputUuid [] inputMetas =>
    match compactedAncestorClosure outputUuid inputMetas with
    | .ok ancestors =>
      some (s.setPhase token t (.merged (mergedMeta t.plan outputUuid ancestors rowCount byteSize)))
    | .error _ => some (s.finish token t)
  | _ => none

/-- The fence check before the commit, and the `PUT` on its way. -/
def put : Option Fleet :=
  match t.phase with
  | .merged output =>
    if s.holder t.key = some token then some (s.setPhase token t (.putting output))
    else some (s.finish token t)
  | _ => none

/-- The `PUT` is applied, before another holder lists the partition. -/
def land : Option Fleet :=
  match t.phase with
  | .putting output =>
    if s.lister t.key = some token ∧ s.UuidFresh output.uuid then
      some ((s.commit ⟨output, t.inputUuids⟩).setPhase token t (.committed output))
    else none
  | .abandoned output =>
    if s.lister t.key = some token ∧ s.UuidFresh output.uuid then
      some ((s.commit ⟨output, t.inputUuids⟩).setPhase token t .finished)
    else none
  | _ => none

def publish : Option Fleet :=
  match t.phase with
  | .committed output =>
    let c := (s.catalogs t.node).applyCompaction output t.inputUuids eligible
    some ((s.setCatalog t.node c).finish token t)
  | _ => none

/-- An error anywhere, or a fence that trips during the `PUT`. -/
def giveUp : Option Fleet :=
  match t.phase with
  | .putting output => some ((s.setPhase token t (.abandoned output)).release token t.key)
  | .abandoned _ => none
  | _ => some (s.finish token t)

end Fleet

/-! ## Steps -/

inductive Act where
  | acquire
  | list
  | skipKnown
  | get (i : Nat)
  | insert (i : Nat)
  | stage (eligible : Nat)
  | revalidate
  | start (outputUuid : Uuid)
  | load
  | merge (rowCount byteSize : Nat)
  | put
  | land
  | publish (eligible : Nat)
  | giveUp
  deriving DecidableEq

inductive Action where
  | write (m : BlockMeta)
  | poll (n : Nat) (m : BlockMeta)
  | deliver (n grace now : Nat) (e : BlockEvent)
  | stageAll (n eligible : Nat)
  | reap (n now : Nat) (u : Uuid)
  | expire (key : LeaseKey)
  | crash (n : Nat)
  | plan (n : Nat) (cfg : CompactConfig) (i : Nat)
  | task (token : Nat) (act : Act)
  deriving DecidableEq

namespace Fleet

def act (s : Fleet) (token : Nat) (t : Task) : Act → Option Fleet
  | .acquire => s.acquire token t
  | .list => s.list token t
  | .skipKnown => s.skipKnown token t
  | .get i => s.get token t i
  | .insert i => s.insert token t i
  | .stage eligible => s.stage token t eligible
  | .revalidate => s.revalidate token t
  | .start outputUuid => s.start token t outputUuid
  | .load => s.load token t
  | .merge rowCount byteSize => s.merge token t rowCount byteSize
  | .put => s.put token t
  | .land => s.land token t
  | .publish eligible => s.publish token t eligible
  | .giveUp => s.giveUp token t

def step (s : Fleet) : Action → Option Fleet
  | .write m => s.write m
  | .poll n m => s.poll n m
  | .deliver n grace now e => s.deliver n grace now e
  | .stageAll n eligible =>
    some (s.setCatalog n ((s.catalogs n).stageUnstagedSuperseded eligible))
  | .reap n now u => s.reap n now u
  | .expire key => some { s with holder := Function.update s.holder key none }
  | .crash n => some { s with tasks := s.tasks.map (crashed n) }
  | .plan n cfg i => s.plan n cfg i
  | .task token a => s.tasks[token]?.bind fun t => s.act token t a

end Fleet

end Scry.Cluster
