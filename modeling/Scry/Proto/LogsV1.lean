import Scry.Lib.Reader

/-! # Logs batches, version 1

The streaming decoder of `LogsBatch` payloads, and the wire format it reads.
-/

open Scry.Lib

namespace Scry.Proto

open Cursor Reader

inductive BinSchemaError where
  | unexpectedEof
  | invalidUtf8
  | invalidValue (message : String)
  | invalidVariant (message : String)
  | invalidEncoding (message : String)
  deriving DecidableEq

/-- The arguments of `append_entry`, apart from the fingerprint. -/
structure LogEntry where
  tsUnixNano : Nat
  severity : Nat
  body : Bytes
  attributes : List (Bytes × Bytes)
  deriving DecidableEq

/-- The arguments of `observe_stream`, and the entries that follow it. -/
structure LogStream where
  fingerprint : Nat
  labels : List (Bytes × Bytes)
  entries : List LogEntry
  deriving DecidableEq

/-! ## The decoder -/

/-- A `BitStreamDecoder` that stays on byte boundaries. -/
abbrev BatchDecoder (α : Type) := Reader BinSchemaError (Cursor Unit) α

def readLabelPair : BatchDecoder (Bytes × Bytes) := do
  let keyLen ← uint .unexpectedEof 1
  let key ← take .unexpectedEof keyLen
  let valueLen ← uint .unexpectedEof 2
  let value ← take .unexpectedEof valueLen
  return (key, value)

def readLogEntry : BatchDecoder LogEntry := do
  let ts ← uint .unexpectedEof 8
  let severity ← uint .unexpectedEof 1
  let bodyLen ← uint .unexpectedEof 4
  let body ← take .unexpectedEof bodyLen
  let attrCount ← uint .unexpectedEof 2
  let attrs ← times attrCount readLabelPair
  return ⟨ts, severity, body, attrs⟩

def readLogStream : BatchDecoder LogStream := do
  let fingerprint ← uint .unexpectedEof 8
  let labelCount ← uint .unexpectedEof 2
  let labels ← times labelCount readLabelPair
  let entryCount ← uint .unexpectedEof 4
  let entries ← times entryCount readLogEntry
  return ⟨fingerprint, labels, entries⟩

def readLogsBatch : BatchDecoder (List LogStream) := do
  let streamCount ← uint .unexpectedEof 4
  times streamCount readLogStream

variable (c c' : Cursor Unit) (streams : List LogStream) (p : Bytes × Bytes) (payload : Bytes) (e : LogEntry)

/-- `decode_logs_batch_into`, as its callbacks. Bytes after the last stream are not looked at. -/
def decodeLogsBatch : Except BinSchemaError (List LogStream) :=
  match readLogsBatch ⟨payload, ()⟩ with
  | .ok (streams, _) => .ok streams
  | .error e => .error e

/-! ## The wire format -/

def pairWire : Bytes :=
  toBe 1 p.1.length ++ p.1 ++ toBe 2 p.2.length ++ p.2

def PairFits : Prop := p.1.length < 256 ^ 1 ∧ p.2.length < 256 ^ 2

def LogEntry.wire : Bytes :=
  toBe 8 e.tsUnixNano ++ toBe 1 e.severity ++ toBe 4 e.body.length ++ e.body ++
    toBe 2 e.attributes.length ++ e.attributes.flatMap pairWire

structure LogEntry.Fits (e : LogEntry) : Prop where
  ts : e.tsUnixNano < 256 ^ 8
  severity : e.severity < 256 ^ 1
  body : e.body.length < 256 ^ 4
  count : e.attributes.length < 256 ^ 2
  attributes : ∀ p ∈ e.attributes, PairFits p

def LogStream.wire (s : LogStream) : Bytes :=
  toBe 8 s.fingerprint ++ toBe 2 s.labels.length ++ s.labels.flatMap pairWire ++
    toBe 4 s.entries.length ++ s.entries.flatMap LogEntry.wire

structure LogStream.Fits (s : LogStream) : Prop where
  fingerprint : s.fingerprint < 256 ^ 8
  labelCount : s.labels.length < 256 ^ 2
  labels : ∀ p ∈ s.labels, PairFits p
  entryCount : s.entries.length < 256 ^ 4
  entries : ∀ e ∈ s.entries, e.Fits

def batchWire : Bytes :=
  toBe 4 streams.length ++ streams.flatMap LogStream.wire

def BatchFits : Prop :=
  streams.length < 256 ^ 4 ∧ ∀ s ∈ streams, s.Fits

theorem readLabelPair_ok :
    readLabelPair c = .ok (p, c') ↔ PairFits p ∧ c = c'.unread (pairWire p) := by
  simp only [readLabelPair, bind_ok, uint_ok, take_ok, pure_ok]
  constructor
  · rintro ⟨_, _, ⟨hk, rfl⟩, key, _, ⟨rfl, rfl⟩, _, _, ⟨hv, rfl⟩, value, _, ⟨rfl, rfl⟩, rfl, rfl⟩
    exact ⟨⟨hk, hv⟩, by simp [pairWire]⟩
  · rintro ⟨⟨hk, hv⟩, rfl⟩
    refine ⟨_, _, ⟨hk, ?_⟩, p.1, _, ⟨rfl, rfl⟩, _, _, ⟨hv, rfl⟩, p.2, _, ⟨rfl, rfl⟩, rfl, rfl⟩
    simp [pairWire]

theorem readLogEntry_ok :
    readLogEntry c = .ok (e, c') ↔ e.Fits ∧ c = c'.unread e.wire := by
  simp only [readLogEntry, bind_ok, uint_ok, take_ok, pure_ok, times_unread readLabelPair_ok]
  constructor
  · rintro ⟨ts, _, ⟨hts, rfl⟩, sev, _, ⟨hsev, rfl⟩, _, _, ⟨hb, rfl⟩, body, _, ⟨rfl, rfl⟩, _, _,
      ⟨ha, rfl⟩, attrs, _, ⟨rfl, hall, rfl⟩, rfl, rfl⟩
    exact ⟨⟨hts, hsev, hb, ha, hall⟩, by simp [LogEntry.wire]⟩
  · rintro ⟨h, rfl⟩
    refine ⟨_, _, ⟨h.ts, ?_⟩, _, _, ⟨h.severity, rfl⟩, _, _, ⟨h.body, rfl⟩, e.body, _, ⟨rfl, rfl⟩,
      _, _, ⟨h.count, rfl⟩, e.attributes, _, ⟨rfl, h.attributes, rfl⟩, rfl, rfl⟩
    simp [LogEntry.wire]

theorem readLogStream_ok (s : LogStream) :
    readLogStream c = .ok (s, c') ↔ s.Fits ∧ c = c'.unread s.wire := by
  simp only [readLogStream, bind_ok, uint_ok, pure_ok,
    times_unread readLabelPair_ok, times_unread readLogEntry_ok]
  constructor
  · rintro ⟨fp, _, ⟨hfp, rfl⟩, _, _, ⟨hl, rfl⟩, labels, _, ⟨rfl, hlabs, rfl⟩, _, _, ⟨hn, rfl⟩,
      entries, _, ⟨rfl, hents, rfl⟩, rfl, rfl⟩
    exact ⟨⟨hfp, hl, hlabs, hn, hents⟩, by simp [LogStream.wire]⟩
  · rintro ⟨h, rfl⟩
    refine ⟨_, _, ⟨h.fingerprint, ?_⟩, _, _, ⟨h.labelCount, rfl⟩, s.labels, _, ⟨rfl, h.labels, rfl⟩,
      _, _, ⟨h.entryCount, rfl⟩, s.entries, _, ⟨rfl, h.entries, rfl⟩, rfl, rfl⟩
    simp [LogStream.wire]

theorem readLogsBatch_ok :
    readLogsBatch c = .ok (streams, c') ↔ BatchFits streams ∧ c = c'.unread (batchWire streams) := by
  simp only [readLogsBatch, bind_ok, uint_ok, times_unread readLogStream_ok]
  constructor
  · rintro ⟨_, _, ⟨hn, rfl⟩, rfl, hall, rfl⟩
    exact ⟨⟨hn, hall⟩, by simp [batchWire]⟩
  · rintro ⟨⟨hn, hall⟩, rfl⟩
    refine ⟨_, _, ⟨hn, ?_⟩, rfl, hall, rfl⟩
    simp [batchWire]

theorem decodeLogsBatch_ok (streams : List LogStream) : decodeLogsBatch payload = .ok streams ↔
    BatchFits streams ∧ ∃ rest, payload = batchWire streams ++ rest := by
  unfold decodeLogsBatch
  constructor
  · intro h
    split at h
    · rename_i streams' c' hrun
      cases h
      obtain ⟨hfits, hc⟩ := (readLogsBatch_ok _ _ _).mp hrun
      exact ⟨hfits, c'.rest, congrArg rest hc⟩
    · cases h
  · rintro ⟨hfits, rest, rfl⟩
    rw [(readLogsBatch_ok ⟨_, ()⟩ ⟨rest, ()⟩ streams).mpr ⟨hfits, rfl⟩]

end Scry.Proto
