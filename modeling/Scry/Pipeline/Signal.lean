import Scry.Block.Meta
import Scry.Wal.Frame

/-! # Signals

What the pipeline asks of a signal, and the laws that it relies on; each signal proves its own.
-/

open Scry.Lib Scry.Block Scry.Wal

namespace Scry.Pipeline

structure Signal where
  Builder : Type
  Record : Type
  name : SignalName
  new : Builder
  isEmpty : Builder → Bool
  shouldClose : Builder → Bool
  contentSchemaKey : Builder → Option Nat
  /-- `none` when an assertion of `merge` fails. -/
  merge : Builder → Builder → Option Builder
  /-- Decoding into a scratch builder that is new or reset. -/
  decode : Bytes → Option Builder
  redactReplayed : Bytes → Option Bytes
  /-- The sidecar that `encode` writes, before the pipeline's own fields. -/
  encode : Builder → BlockMeta
  records : Builder → List Record
  isEmpty_iff : ∀ b, isEmpty b = true ↔ records b = []
  new_records : records new = []
  merge_records : ∀ b o m, merge b o = some m → records m = records b ++ records o
  redact_records : ∀ p q b b', redactReplayed p = some q → decode p = some b →
    decode q = some b' → (records b = [] ↔ records b' = [])

/-- `builder.content_schema_key() != scratch.content_schema_key()`, both with records. -/
def Signal.schemaBoundary (sig : Signal) (builder scratch : sig.Builder) : Bool :=
  !sig.isEmpty builder && !sig.isEmpty scratch &&
    sig.contentSchemaKey builder != sig.contentSchemaKey scratch

/-! ## The dummy signal -/

structure DummyRecord where
  tsUnixNano : Nat
  key : Bytes
  value : Bytes
  deriving DecidableEq

structure DummyBlockBuilder where
  rows : List DummyRecord
  bytesEst : Nat
  deriving DecidableEq

namespace DummyBlockBuilder

def new : DummyBlockBuilder := ⟨[], 0⟩

variable (b : DummyBlockBuilder)

def appendRaw (r : DummyRecord) : DummyBlockBuilder :=
  ⟨b.rows ++ [r], b.bytesEst + (16 + r.key.length + r.value.length)⟩

def merge (b other : DummyBlockBuilder) : DummyBlockBuilder :=
  ⟨b.rows ++ other.rows, b.bytesEst + other.bytesEst⟩

def tsMin : Nat := b.rows.foldl (fun m r => min m r.tsUnixNano) (2 ^ 64 - 1)

def tsMax : Nat := b.rows.foldl (fun m r => max m r.tsUnixNano) 0

end DummyBlockBuilder

/-- One turn of the loop in `decode_dummy_batch_into`. -/
def decodeDummyRecord (p : Bytes) : Option (DummyRecord × Bytes) := do
  let (ts, p) ← takeBe 8 p
  let (keyLen, p) ← takeBe 2 p
  let (key, p) ← takeBytes keyLen p
  let (valueLen, p) ← takeBe 4 p
  let (value, p) ← takeBytes valueLen p
  return (⟨ts, key, value⟩, p)

def decodeDummyRecords : Nat → Bytes → DummyBlockBuilder → Option DummyBlockBuilder
  | 0, _, b => some b
  | n + 1, p, b => do
    let (r, p) ← decodeDummyRecord p
    decodeDummyRecords n p (b.appendRaw r)

/-- Bytes after the last record are not looked at. -/
def decodeDummyBatchInto (p : Bytes) (b : DummyBlockBuilder) : Option DummyBlockBuilder := do
  let (count, p) ← takeBe 4 p
  decodeDummyRecords count p b

def dummySignal (maxRows targetBytes : Nat) (parquetSize : DummyBlockBuilder → Nat) : Signal where
  Builder := DummyBlockBuilder
  Record := DummyRecord
  name := .dummy
  new := .new
  isEmpty b := b.rows.isEmpty
  shouldClose b := maxRows ≤ b.rows.length || targetBytes ≤ b.bytesEst
  contentSchemaKey _ := none
  merge b other := some (b.merge other)
  decode p := decodeDummyBatchInto p .new
  redactReplayed p := some p
  encode b :=
    { uuid := 0
      signal := .dummy
      writerId := 0
      tsMinUnixNano := b.tsMin
      tsMaxUnixNano := b.tsMax
      rowCount := b.rows.length
      byteSize := parquetSize b
      schemaVersion := 1
      level := 0
      compactedFrom := []
      walSegMax := none
      walShard := none }
  records b := b.rows
  isEmpty_iff b := List.isEmpty_iff
  new_records := rfl
  merge_records b o m h := by
    cases h
    rfl
  redact_records p q b b' hq hb hb' := by
    cases hq
    rw [hb] at hb'
    cases hb'
    rfl

end Scry.Pipeline
