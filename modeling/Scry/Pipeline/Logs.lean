import Scry.Pipeline.Harmless
import Scry.Pipeline.LogsPayload

/-! # The logs pipeline

What the fingerprints of different batches say about labels decides whether the WAL can be replayed.
-/

open Scry.Lib Scry.Proto Scry.Block Scry.Wal

namespace Scry.Pipeline

open LogsBlockBuilder Shard

structure LogsConfig where
  hash : Bytes → UInt64
  displayDouble : Nat → Bytes
  block : BlockBuilderConfig
  parquetSize : LogsBlockBuilder → Nat

namespace LogsConfig

variable (c : LogsConfig)

def decode (payload : Bytes) : Option LogsBlockBuilder := decodeLogs c.hash c.displayDouble payload

def signal : Signal where
  Builder := LogsBlockBuilder
  Record := LogRow
  name := .logs
  new := .new
  isEmpty := isEmpty
  shouldClose := shouldClose c.block
  contentSchemaKey := contentSchemaKey
  merge := merge
  decode := c.decode
  redactReplayed := redactReplayedLogs
  encode b :=
    { uuid := 0
      signal := .logs
      writerId := 0
      tsMinUnixNano := b.tsMin
      tsMaxUnixNano := b.tsMax
      rowCount := b.rows.length
      byteSize := c.parquetSize b
      schemaVersion := (b.schema.getD .v1).version
      level := 0
      compactedFrom := []
      walSegMax := none
      walShard := none }
  records := rows
  isEmpty_iff _ := isEmpty_eq_true_iff
  new_records := rfl
  merge_records _ _ _ := merge_rows
  redact_records _ _ _ _ := redactReplayedLogs_records

/-- It came out of redaction or stamping, and decodes on its own. -/
def Accepts (payload : Bytes) : Prop :=
  (∃ receivedNs raw, transformLogs receivedNs raw = some payload) ∧ ∃ b, c.decode payload = some b

/-- Batches of one schema never give one fingerprint two lists of labels. -/
def Agree (p q : Bytes) : Prop :=
  ∀ b b', c.decode p = some b → c.decode q = some b' → b.rows ≠ [] → b'.rows ≠ [] → b.schema = b'.schema →
    ∀ k labels labels', b.labelsOf k = some labels → b'.labelsOf k = some labels' → labels = labels'

/-! ## Batches that agree -/

/-- Some batch in this schema gives the fingerprint these labels. -/
def Files (P : Bytes → Prop) (schema : Option LogsSchema) (k : Nat) (labels : Labels) : Prop :=
  ∃ p b, P p ∧ c.decode p = some b ∧ b.rows ≠ [] ∧ b.schema = schema ∧ b.labelsOf k = some labels

def Filed (P : Bytes → Prop) (b : LogsBlockBuilder) : Prop :=
  ∀ k labels, b.labelsOf k = some labels → c.Files P b.schema k labels

variable {c} {P : Bytes → Prop}

theorem Files.unique (hagr : ∀ p q, P p → P q → c.Agree p q) {schema : Option LogsSchema} {k : Nat}
    {labels labels' : Labels} (h : c.Files P schema k labels) (h' : c.Files P schema k labels') :
    labels = labels' := by
  obtain ⟨p, b, hp, hb, hrows, hschema, hlabs⟩ := h
  obtain ⟨q, b', hq, hb', hrows', hschema', hlabs'⟩ := h'
  exact hagr p q hp hq b b' hb hb' hrows hrows' (hschema.trans hschema'.symm) k labels labels' hlabs hlabs'

theorem version_injective : Function.Injective LogsSchema.version := by
  intro x y h
  cases x <;> cases y <;> simp [LogsSchema.version] at h ⊢

variable {b scratch : LogsBlockBuilder}

theorem schema_eq_of_not_boundary (hb : b.rows ≠ []) (hscratch : scratch.rows ≠ [])
    (h : c.signal.schemaBoundary b scratch = false) : b.schema = scratch.schema := by
  have hkeys : b.contentSchemaKey = scratch.contentSchemaKey := by
    have hb := isEmpty_eq_false_iff.mpr hb
    have hscratch := isEmpty_eq_false_iff.mpr hscratch
    simpa [Signal.schemaBoundary, signal, hb, hscratch] using h
  exact Option.map_injective version_injective hkeys

theorem merge_filed (hagr : ∀ p q, P p → P q → c.Agree p q)
    (hb : b = .new ∨ b.rows ≠ [] ∧ c.Filed P b) (hscratch : scratch.rows = [] ∨ c.Filed P scratch)
    (hcut : c.signal.schemaBoundary b scratch = false) :
    ∃ m, b.merge scratch = some m ∧ (m = .new ∨ m.rows ≠ [] ∧ c.Filed P m) := by
  by_cases hrows : scratch.rows = []
  · refine ⟨b, ?_, hb⟩
    rw [merge, if_pos (isEmpty_eq_true_iff.mpr hrows)]
  have hfiled := hscratch.resolve_left hrows
  obtain rfl | ⟨hbrows, hbfiled⟩ := hb
  · obtain ⟨m, hm, hmrows, hschema, hlabs⟩ := merge_of_empty (b := .new) rfl hrows
    refine ⟨m, hm, .inr ⟨hmrows, fun k labels hk => ?_⟩⟩
    rw [hschema]
    exact hfiled k labels (hlabs k ▸ hk)
  · have hschema := schema_eq_of_not_boundary hbrows hrows hcut
    obtain ⟨m, hm, hmrows, hmschema, hlabs⟩ := merge_of_agreeing hbrows hrows hschema
      fun k labels labels' hk hk' => (hbfiled k labels hk).unique hagr (hschema ▸ hfiled k labels' hk')
    refine ⟨m, hm, .inr ⟨hmrows, fun k labels hk => ?_⟩⟩
    rw [hlabs, Option.or_eq_some_iff] at hk
    rw [hmschema]
    obtain hk | ⟨-, hk⟩ := hk
    · exact hbfiled k labels hk
    · exact hschema ▸ hfiled k labels hk

def harmless (hrows : 0 < c.block.maxRows) (hbytes : 0 < c.block.targetBytes) (haccepts : ∀ p, P p → c.Accepts p)
    (hagree : ∀ p q, P p → P q → c.Agree p q) : Harmless c.signal where
  Batch := P
  Scratch scratch := scratch.rows = [] ∨ c.Filed P scratch
  Merged b := b = .new ∨ b.rows ≠ [] ∧ c.Filed P b
  new := .inl rfl
  decode {p} hp := by
    obtain ⟨-, b, hb⟩ := haccepts p hp
    refine ⟨b, hb, ?_⟩
    by_cases hrows : b.rows = []
    · exact .inl hrows
    · exact .inr fun k labels hk => ⟨p, b, hp, hb, hrows, rfl, hk⟩
  redact {p} hp := by
    obtain ⟨⟨receivedNs, raw, hraw⟩, -⟩ := haccepts p hp
    exact ⟨p, transformLogs_replayed hraw, hp⟩
  merge hb hscratch hboundary := merge_filed hagree hb hscratch hboundary
  close {b} hb hclose := by
    obtain rfl | ⟨hbrows, -⟩ := hb
    · simp [signal, shouldClose, new] at hclose
      omega
    · exact isEmpty_eq_false_iff.mpr hbrows

/-- **When the logs WAL has no poison batch.** If batches agree on the labels of shared fingerprints, no merge
fails, and `open` replays the WAL to its end. -/
theorem no_poison_batch {env : Env} {as : List Action} {s : Shard c.signal} (hrows : 0 < c.block.maxRows)
    (hbytes : 0 < c.block.targetBytes) (haccepts : ∀ p, .ingest p ∈ as → c.Accepts p)
    (hagree : ∀ p q, .ingest p ∈ as → .ingest q ∈ as → c.Agree p q)
    (hrun : run (step env) (fresh c.signal) as = some s) : NoPoison env s :=
  (harmless hrows hbytes haccepts hagree).noPoison (fun _ hp => hp) hrun

/-! ## A poisoned WAL -/

def sampleLogs : LogsConfig where
  hash _ := 0
  displayDouble _ := []
  block := ⟨1000000, 128 * 1024 * 1024⟩
  parquetSize _ := 100

def serviceBatch (service : String) : Bytes :=
  batchWire [⟨7, [(ascii "service", ascii service)], [⟨5, 9, ascii "started", []⟩]⟩]

theorem accepts_serviceBatch {service : String} (htransform : transformLogs 0 (serviceBatch service) = some
    (serviceBatch service)) (hdec : (sampleLogs.decode (serviceBatch service)).isSome = true) : sampleLogs.Accepts
    (serviceBatch service) :=
  ⟨⟨0, serviceBatch service, htransform⟩, Option.isSome_iff_exists.mp hdec⟩

def samePair : List Action := openFresh ++ ingestOne (serviceBatch "api") ++ ingestOne (serviceBatch "api")

theorem no_poison_batch_same : ∃ s, run (step sampleEnv) (fresh sampleLogs.signal) samePair = some s ∧
    NoPoison sampleEnv s := by
  have hrun : (run (step sampleEnv) (fresh sampleLogs.signal) samePair).isSome = true := by
    decide +kernel
  have hingest : ∀ p, .ingest p ∈ samePair → p = serviceBatch "api" := by
    intro p hp
    simpa [samePair, openFresh, ingestOne] using hp
  have haccepts : sampleLogs.Accepts (serviceBatch "api") :=
    accepts_serviceBatch (by decide +kernel) (by decide +kernel)
  obtain ⟨s, hs⟩ := Option.isSome_iff_exists.mp hrun
  refine ⟨s, hs, no_poison_batch (by decide) (by decide) (fun p hp => hingest p hp ▸ haccepts) ?_ hs⟩
  intro p q hp hq b b' hb hb' _ _ _ k labels labels' hk hk'
  rw [hingest p hp] at hb
  rw [hingest q hq, hb] at hb'
  cases hb'
  exact Option.some.inj (hk.symm.trans hk')

def mixedPair : List Action :=
  openFresh ++ ingestOne (serviceBatch "api") ++
    [.ingest (serviceBatch "web"), .sealOnSchemaChange, .writeFrame, .rotateIfFull]

def restart : List Action := [.crash 0, .open, .replayFrame true true, .replayFrame true true]

def mergeFails (s : Shard sampleLogs.signal) : Bool :=
  match s.process with
  | .live ⟨pipe, .appended p scratch seg⟩ => p = serviceBatch "web" ∧ seg = 0 ∧
      (sampleLogs.signal.merge pipe.current.builder scratch).isNone = true
  | _ => false

def keepsBoth (s : Shard sampleLogs.signal) : Bool :=
  match s.process with
  | .down dir => dir.rows =
      [⟨0, frame crc32Ieee (serviceBatch "api") ++ frame crc32Ieee (serviceBatch "web")⟩, ⟨1, []⟩]
  | _ => false

/-- The merge of the second batch fails after its frame is durable, and so does every restart. -/
theorem poison_batch :
    (∀ service ∈ ["api", "web"], sampleLogs.Accepts (serviceBatch service)) ∧
    (∃ s l scratch, run (step sampleEnv) (fresh sampleLogs.signal) mixedPair = some s ∧
      s.process = .live l ∧ l.ingest = .appended (serviceBatch "web") scratch 0 ∧
      sampleLogs.signal.merge l.pipe.current.builder scratch = none) ∧
    ∃ s dir, run (step sampleEnv) (fresh sampleLogs.signal) (mixedPair ++ .merge :: restart) =
        some s ∧
      s.process = .down dir ∧
      dir.rows = [⟨0, frame crc32Ieee (serviceBatch "api") ++ frame crc32Ieee (serviceBatch "web")⟩, ⟨1, []⟩] := by
  refine ⟨?_, ?_, ?_⟩
  · simp only [List.forall_mem_cons]
    exact ⟨accepts_serviceBatch (by decide +kernel) (by decide +kernel),
      accepts_serviceBatch (by decide +kernel) (by decide +kernel), by simp⟩
  · have hfails : (run (step sampleEnv) (fresh sampleLogs.signal) mixedPair).any mergeFails = true := by
      decide +kernel
    obtain ⟨s, hs, hfails⟩ := (Option.any_eq_true _ _).mp hfails
    unfold mergeFails at hfails
    split at hfails
    · rename_i pipe p scratch seg hlive
      obtain ⟨rfl, rfl, hnone⟩ := of_decide_eq_true hfails
      exact ⟨s, _, scratch, hs, hlive, rfl, Option.isNone_iff_eq_none.mp hnone⟩
    · cases hfails
  · have hdown : (run (step sampleEnv) (fresh sampleLogs.signal)
        (mixedPair ++ .merge :: restart)).any keepsBoth = true := by
      decide +kernel
    obtain ⟨s, hs, hdown⟩ := (Option.any_eq_true _ _).mp hdown
    unfold keepsBoth at hdown
    split at hdown
    · rename_i dir hdir
      exact ⟨s, dir, hs, hdir, of_decide_eq_true hdown⟩
    · cases hdown

end LogsConfig

end Scry.Pipeline
