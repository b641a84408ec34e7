import Scry.Catalog.Store
import Scry.Lib.Machine
import Scry.Pipeline.Signal
import Scry.Wal.Segments

/-!
# One ingest shard

A `Pipeline` with its WAL, its upload tasks, the object store and the catalog, as a machine. Every
point where the source can be interleaved with another task or cut by a crash is a step of its own.
File writes and fsyncs succeed. Whether a PUT or a catalog insert succeeds is part of the action.
-/

open Scry.Lib Scry.Block Scry.Wal

namespace Scry.Pipeline

structure Env where
  crc32 : Bytes → UInt32
  maxSegmentBytes : Nat
  writerUuid : Uuid
  shardIndex : Nat
  /-- The SHA-256 of the payloads replayed so far, cut to a UUID. -/
  recoveryBlockUuid : List Bytes → Uuid

/-- `batches` numbers the acknowledged batches in it. -/
structure StoredBlock (sig : Signal) where
  uuid : Uuid
  records : List sig.Record
  batches : List Nat

/-- What outlives the process, apart from the WAL directory. -/
structure Store (sig : Signal) where
  blocks : List (StoredBlock sig)
  catalog : Catalog

/-- `batches` is not in the source: it numbers what was merged in. -/
structure Filling (sig : Signal) where
  builder : sig.Builder
  batches : List Nat

structure UploadTask (sig : Signal) where
  block : Filling sig
  lowSeg : Nat
  sealedSeg : Nat
  uploaded : Option Uuid

/-- How far `ingest_decoded` has come. -/
inductive Ingest (sig : Signal) where
  | idle
  | received (payload : Bytes) (scratch : sig.Builder)
  | sealed (payload : Bytes) (scratch : sig.Builder)
  | written (payload : Bytes) (scratch : sig.Builder) (seg : Nat)
  | appended (payload : Bytes) (scratch : sig.Builder) (seg : Nat)
  | merged (payload : Bytes) (seg : Nat)

structure State (sig : Signal) where
  wal : Wal
  current : Filling sig
  blockLowSeg : Nat
  inFlight : List (UploadTask sig)

structure Live (sig : Signal) where
  pipe : State sig
  ingest : Ingest sig

structure Recovery (sig : Signal) where
  wal : Wal
  frames : List (Except ReplayError Bytes)
  builder : sig.Builder
  replayHigh : Option Nat
  hashed : List Bytes
  releasing : Bool

inductive Process (sig : Signal) where
  | down (dir : Dir)
  | opening (r : Recovery sig)
  | live (l : Live sig)

structure Ack where
  batch : Nat
  payload : Bytes
  seg : Nat
  deriving DecidableEq

structure Shard (sig : Signal) where
  process : Process sig
  store : Store sig
  acked : List Ack
  /-- Batches merged so far. The next one gets this number. -/
  merged : Nat

inductive Action where
  | ingest (payload : Bytes)
  | sealOnSchemaChange
  | writeFrame
  | rotateIfFull
  | merge
  | finishIngest
  | flush
  | uploadOk (task : Nat) (uuid : Uuid)
  | uploadFailed (task : Nat)
  | unlink (task : Nat) (seq : Nat)
  | insertBlock (task : Nat)
  | insertFailed (task : Nat)
  | crash (torn : Nat)
  | open
  | replayFrame (boundaryOk closeOk : Bool)
  | uploadRest (ok : Bool)
  | unlinkReplayed (seq : Nat)
  | finishOpen
  deriving DecidableEq

variable {sig : Signal}

/-! ## Live -/

def newFilling (sig : Signal) : Filling sig := ⟨sig.new, []⟩

/-- Waiting for a permit takes time and changes nothing. -/
def State.spawnUpload (l : State sig) : Except WalError (State sig) :=
  if sig.isEmpty l.current.builder then .ok l
  else
    match l.wal.rotate with
    | .error e => .error e
    | .ok (wal, sealedSeg) =>
      .ok
        { wal := wal
          current := newFilling sig
          blockLowSeg := sealedSeg + 1
          inFlight := l.inFlight ++ [⟨l.current, l.blockLowSeg, sealedSeg, none⟩] }

namespace Live

def sealOnSchemaChange (l : Live sig) : Option (Live sig) :=
  match l.ingest with
  | .received payload scratch =>
    if sig.schemaBoundary l.pipe.current.builder scratch then
      match l.pipe.spawnUpload with
      | .ok pipe => some ⟨pipe, .sealed payload scratch⟩
      | .error _ => some ⟨l.pipe, .idle⟩
    else some ⟨l.pipe, .sealed payload scratch⟩
  | _ => none

def writeFrame (env : Env) (l : Live sig) : Option (Live sig) :=
  match l.ingest with
  | .sealed payload scratch =>
    if maxReplayFrameBytes < payload.length then some ⟨l.pipe, .idle⟩
    else
      some ⟨{ l.pipe with wal := l.pipe.wal.writeFrame env.crc32 payload },
        .written payload scratch l.pipe.wal.currentSeq⟩
  | _ => none

def rotateIfFull (l : Live sig) : Option (Live sig) :=
  match l.ingest with
  | .written payload scratch seg =>
    match l.pipe.wal.rotateIfFull with
    | .ok wal => some ⟨{ l.pipe with wal := wal }, .appended payload scratch seg⟩
    | .error _ => some ⟨l.pipe, .idle⟩
  | _ => none

end Live

def stampMeta (env : Env) (sig : Signal) (b : sig.Builder) (uuid : Uuid) (walSegMax : Option Nat) : BlockMeta :=
  { sig.encode b with
    uuid := uuid
    signal := sig.name
    writerId := env.writerUuid
    level := 0
    compactedFrom := []
    walSegMax := walSegMax
    walShard := walSegMax.map fun _ => env.shardIndex }

namespace Shard

variable (s : Shard sig) (l : Live sig)

def setLive : Shard sig := { s with process := .live l }

/-- A failed assertion unwinds the task: the frame stays, the call never returns. -/
def mergeScratch : Option (Shard sig) :=
  match l.ingest with
  | .appended payload scratch seg =>
    match sig.merge l.pipe.current.builder scratch with
    | none => some (s.setLive ⟨l.pipe, .idle⟩)
    | some builder =>
      some { s with
        process := .live
          ⟨{ l.pipe with current := ⟨builder, l.pipe.current.batches ++ [s.merged]⟩ },
            .merged payload seg⟩
        merged := s.merged + 1 }
  | _ => none

def finishIngest : Option (Shard sig) :=
  match l.ingest with
  | .merged payload seg =>
    let acked := s.acked ++ [⟨s.merged - 1, payload, seg⟩]
    if sig.shouldClose l.pipe.current.builder then
      match l.pipe.spawnUpload with
      | .ok pipe => some { s with process := .live ⟨pipe, .idle⟩, acked := acked }
      | .error _ => some (s.setLive ⟨l.pipe, .idle⟩)
    else some { s with process := .live ⟨l.pipe, .idle⟩, acked := acked }
  | _ => none

def flush : Option (Shard sig) :=
  match l.ingest, l.pipe.spawnUpload with
  | .idle, .ok pipe => some (s.setLive ⟨pipe, .idle⟩)
  | _, _ => none

/-! ### Upload tasks -/

def setTasks (tasks : List (UploadTask sig)) : Shard sig :=
  s.setLive ⟨{ l.pipe with inFlight := tasks }, l.ingest⟩

/-- UUIDs of live blocks are version 7 and never repeat. -/
def uploadOk (i : Nat) (uuid : Uuid) : Option (Shard sig) :=
  match l.pipe.inFlight[i]? with
  | some t =>
    if t.uploaded = none ∧ ¬ s.store.catalog.hasBlock uuid ∧ ∀ b ∈ s.store.blocks, b.uuid ≠ uuid then
      some { s.setTasks l (l.pipe.inFlight.set i { t with uploaded := some uuid }) with
        store := { s.store with
          blocks := s.store.blocks ++ [⟨uuid, sig.records t.block.builder, t.block.batches⟩] } }
    else none
  | none => none

def uploadFailed (i : Nat) : Option (Shard sig) :=
  match l.pipe.inFlight[i]? with
  | some t => if t.uploaded = none then some (s.setTasks l (l.pipe.inFlight.eraseIdx i)) else none
  | none => none

/-- One `remove_file`, after `prepare_release` let the range through. -/
def unlink (i seq : Nat) : Option (Shard sig) :=
  match l.pipe.inFlight[i]? with
  | some t =>
    match l.pipe.wal.prepareRelease t.sealedSeg with
    | .ok () =>
      if t.uploaded ≠ none ∧ t.lowSeg ≤ seq ∧ seq ≤ t.sealedSeg then
        let wal := { l.pipe.wal with dir := l.pipe.wal.dir.unlink seq }
        some (s.setLive ⟨{ l.pipe with wal := wal }, l.ingest⟩)
      else none
    | .error _ => none
  | none => none

/-- The end of `run_upload`. A failed insert is only logged. -/
def endUpload (env : Env) (s : Shard sig) (l : Live sig) (i : Nat) (inserted : Bool) : Option (Shard sig) :=
  match l.pipe.inFlight[i]? with
  | some t =>
    match t.uploaded with
    | some uuid =>
      some { s.setTasks l (l.pipe.inFlight.eraseIdx i) with
        store := { s.store with
          catalog := if inserted then
              s.store.catalog.insertBlock (stampMeta env sig t.block.builder uuid (some t.sealedSeg))
            else s.store.catalog } }
    | none => none
  | none => none

/-- A frame being written leaves any prefix of itself behind. -/
def crashDir (env : Env) (torn : Nat) : Process sig → Option Dir
  | .down _ => none
  | .opening r => some r.wal.dir
  | .live l =>
    match l.ingest with
    | .sealed payload _ =>
      if maxReplayFrameBytes < payload.length then some l.pipe.wal.dir
      else some (l.pipe.wal.dir.write l.pipe.wal.currentSeq ((frame env.crc32 payload).take torn))
    | _ => some l.pipe.wal.dir

end Shard

/-! ## Recovery -/

/-- An empty builder makes no block, which is an error there. -/
def uploadReplayBlock (env : Env) (st : Store sig) (b : sig.Builder) (replayHigh : Option Nat)
    (hashed : List Bytes) (ok : Bool) : Option (Store sig) :=
  if ok && !sig.isEmpty b then
    let uuid := env.recoveryBlockUuid hashed
    some {
      blocks := st.blocks ++ [⟨uuid, sig.records b, []⟩]
      catalog := st.catalog.insertBlock (stampMeta env sig b uuid replayHigh) }
  else none

inductive Replayed (sig : Signal) where
  | failed (st : Store sig)
  | continued (r : Recovery sig) (st : Store sig)

namespace Recovery

variable (env : Env) (r : Recovery sig) (rest : List (Except ReplayError Bytes)) (st : Store sig)

/-- `Wal::open`, and the state of `open_with_config_and_shard` before its loop. -/
def start (sig : Signal) (dir : Dir) : Recovery sig :=
  let wal := Wal.openWal dir env.maxSegmentBytes
  { wal := wal
    frames := wal.replay env.crc32
    builder := sig.new
    replayHigh := if wal.currentSeq = 0 then none else some (wal.currentSeq - 1)
    hashed := []
    releasing := false }

/-- After the merge: hash the frame, and close a full block. -/
def closeIfFull
    (payload : Bytes) (builder : sig.Builder) (st : Store sig) (closeOk : Bool) : Replayed sig :=
  let hashed := r.hashed ++ [payload]
  if sig.shouldClose builder then
    match uploadReplayBlock env st builder none hashed closeOk with
    | none => .failed st
    | some st' => .continued { r with frames := rest, builder := sig.new, hashed := hashed } st'
  else .continued { r with frames := rest, builder := builder, hashed := hashed } st

/-- The loop body: redact, decode, close the block of another schema, merge. -/
def replayPayload
    (walPayload : Bytes) (st : Store sig) (boundaryOk closeOk : Bool) : Replayed sig :=
  match sig.redactReplayed walPayload with
  | none => .failed st
  | some payload =>
    match sig.decode payload with
    | none => .failed st
    | some scratch =>
      if sig.schemaBoundary r.builder scratch then
        match uploadReplayBlock env st r.builder none r.hashed boundaryOk with
        | none => .failed st
        | some st' =>
          match sig.merge sig.new scratch with
          | none => .failed st'
          | some builder => closeIfFull env r rest payload builder st' closeOk
      else
        match sig.merge r.builder scratch with
        | none => .failed st
        | some builder => closeIfFull env r rest payload builder st closeOk

def replayFrame (boundaryOk closeOk : Bool) : Option (Replayed sig) :=
  if r.releasing then none
  else
    match r.frames with
    | [] => none
    | .error _ :: _ => some (.failed st)
    | .ok walPayload :: rest => some (replayPayload env r rest walPayload st boundaryOk closeOk)

/-- After the loop: the last block carries the watermark. -/
def uploadRest (ok : Bool) : Option (Replayed sig) :=
  if r.releasing then none
  else
    match r.frames with
    | _ :: _ => none
    | [] =>
      if sig.isEmpty r.builder then some (.continued { r with releasing := true } st)
      else
        match uploadReplayBlock env st r.builder r.replayHigh r.hashed ok with
        | none => some (.failed st)
        | some st' =>
          some (.continued { r with builder := sig.new, releasing := true } st')

/-- One `remove_file` of the release of `[0, replay_high]`. -/
def unlinkReplayed (seq : Nat) : Option (Recovery sig) :=
  match r.replayHigh with
  | some high =>
    match r.wal.prepareRelease high with
    | .ok () =>
      if r.releasing ∧ seq ≤ high then some { r with wal := { r.wal with dir := r.wal.dir.unlink seq } }
      else none
    | .error _ => none
  | none => none

/-- `Ok(Self)`, once every segment of the range is gone. -/
def finish : Option (Live sig × Store sig) :=
  let live : Live sig := ⟨⟨r.wal, ⟨r.builder, []⟩, r.wal.currentSeq, []⟩, .idle⟩
  match r.replayHigh with
  | none => if r.releasing then some (live, st) else none
  | some high =>
    if r.releasing ∧ ∀ s ∈ r.wal.dir.rows, high < s.seq then
      some (live, { st with
        catalog := st.catalog.advanceWatermark env.writerUuid sig.name env.shardIndex high })
    else none

end Recovery

/-! ## Steps -/

namespace Shard

def ofReplayed (s : Shard sig) (r : Recovery sig) : Replayed sig → Shard sig
  | .failed st => { s with process := .down r.wal.dir, store := st }
  | .continued r' st => { s with process := .opening r', store := st }

variable (env : Env)

def stepLive (s : Shard sig) (l : Live sig) : Action → Option (Shard sig)
  | .ingest payload =>
    match l.ingest, sig.decode payload with
    | .idle, some scratch => some (s.setLive ⟨l.pipe, .received payload scratch⟩)
    | _, _ => none
  | .sealOnSchemaChange => l.sealOnSchemaChange.map s.setLive
  | .writeFrame => (l.writeFrame env).map s.setLive
  | .rotateIfFull => l.rotateIfFull.map s.setLive
  | .merge => s.mergeScratch l
  | .finishIngest => s.finishIngest l
  | .flush => s.flush l
  | .uploadOk i uuid => s.uploadOk l i uuid
  | .uploadFailed i => s.uploadFailed l i
  | .unlink i seq => s.unlink l i seq
  | .insertBlock i => s.endUpload env l i true
  | .insertFailed i => s.endUpload env l i false
  | _ => none

def stepOpening (s : Shard sig) (r : Recovery sig) : Action → Option (Shard sig)
  | .replayFrame boundaryOk closeOk =>
    (r.replayFrame env s.store boundaryOk closeOk).map (s.ofReplayed r)
  | .uploadRest ok => (r.uploadRest env s.store ok).map (s.ofReplayed r)
  | .unlinkReplayed seq => (r.unlinkReplayed seq).map fun r' => { s with process := .opening r' }
  | .finishOpen =>
    (r.finish env s.store).map fun (l, st) => { s with process := .live l, store := st }
  | _ => none

def step (s : Shard sig) (a : Action) : Option (Shard sig) :=
  match a with
  | .crash torn => (crashDir env torn s.process).map fun dir => { s with process := .down dir }
  | _ =>
    match s.process with
    | .down dir =>
      match a with
      | .open => some { s with process := .opening (Recovery.start env sig dir) }
      | _ => none
    | .opening r => s.stepOpening env r a
    | .live l => s.stepLive env l a

/-- No WAL directory yet, an empty bucket and an empty catalog. -/
def fresh (sig : Signal) : Shard sig := ⟨.down .empty, ⟨[], .empty⟩, [], 0⟩

end Shard

end Scry.Pipeline
