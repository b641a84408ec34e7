import Scry.Block.Logs
import Scry.Proto.LogsRedaction
import Scry.Proto.Replay

/-! # Logs payloads

The envelope magic tells the two formats apart, and neither redaction nor the stamp touches it.
-/

open Scry.Lib Scry.Proto Scry.Block

namespace Scry.Pipeline

open LogsBlockBuilder

def isLogsV2 (payload : Bytes) : Bool := (takeBe 4 payload).map Prod.fst == some logsBatchV2Magic

/-- What ingest decodes, logs and merges; `none` if it is rejected. -/
def transformLogs (receivedNs : UInt64) (payload : Bytes) : Option Bytes :=
  if isLogsV2 payload then (redactAndStampLogsV2 payload receivedNs .default).toOption
  else (redactLogsV1 payload).toOption

/-- `redact_replayed_payload` of logs. -/
def redactReplayedLogs (payload : Bytes) : Option Bytes :=
  if isLogsV2 payload then (redactReplayedLogsV2 payload .default).toOption.map Cow.bytes
  else (redactLogsV1 payload).toOption

def decodeLogs (hash : Bytes → UInt64) (displayDouble : Nat → Bytes) (payload : Bytes) : Option LogsBlockBuilder :=
  if isLogsV2 payload then
    (decodeLogsBatchV2Into payload .default (logsV2Appender hash displayDouble) .new).toOption
  else (decodeLogsBatchInto payload logsAppender .new).toOption

/-! ## The format of a payload -/

theorem isLogsV2_append {n : Nat} (h : n < 256 ^ 4) (rest : Bytes) :
    isLogsV2 (toBe 4 n ++ rest) = (n == logsBatchV2Magic) := by
  rw [isLogsV2, takeBe_append 4 n h, Option.map_some]
  rfl

theorem isLogsV2_batchV2Wire (rawVersion : Nat) (batch : List RecordTree) :
    isLogsV2 (batchV2Wire rawVersion batch) = true := by
  rw [batchV2Wire, envelopeWire, isLogsV2_append (by decide)]
  exact beq_self_eq_true _

theorem redactLogsV1_isLogsV2 {payload output : Bytes} (h : redactLogsV1 payload = .ok output) :
    isLogsV2 output = isLogsV2 payload := by
  obtain ⟨-, -, streams, hto⟩ := redactLogsV1_ok.mp h
  rw [hto.output, hto.payload, batchWire, batchWire, List.length_map, isLogsV2_append hto.count,
    isLogsV2_append hto.count]

theorem transformLogs_replayed {receivedNs : UInt64} {payload batch : Bytes}
    (h : transformLogs receivedNs payload = some batch) : redactReplayedLogs batch = some batch := by
  unfold transformLogs at h
  split at h
  · obtain ⟨trees, -, -, -, hmax, hstamped, hbatch, hclean⟩ :=
      redactAndStampLogsV2_accepted (toOption_eq_some.mp h)
    have hv2 : isLogsV2 batch = true := hbatch ▸ isLogsV2_batchV2Wire _ _
    rw [redactReplayedLogs, if_pos hv2, (clean_payload_preserved hmax hstamped hbatch hclean).2.2.1]
    rfl
  · rename_i hv1
    rw [toOption_eq_some] at h
    rw [redactReplayedLogs, redactLogsV1_isLogsV2 h, if_neg hv1, redactLogsV1_again h]
    rfl

/-! ## What a payload decodes to -/

variable {hash : Bytes → UInt64} {displayDouble : Nat → Bytes} {payload : Bytes} {b : LogsBlockBuilder}

theorem decodeLogs_v1 (hv1 : isLogsV2 payload = false) (h : decodeLogs hash displayDouble payload = some b) :
    ∃ streams, decodeLogsBatch payload = .ok streams ∧ b.rows = streams.flatMap streamRows := by
  rw [decodeLogs, hv1, if_neg Bool.false_ne_true, toOption_eq_some] at h
  simp only [decodeLogsBatchInto, except_bind_ok, mapError_ok, orPanic_ok] at h
  obtain ⟨streams, hstreams, hfold⟩ := h
  obtain ⟨b', hfold', hrows, -⟩ := logsAppender_streams streams
    (b := new) rfl
  rw [hfold] at hfold'
  cases hfold'
  exact ⟨streams, hstreams, hrows⟩

theorem decodeLogs_v2 (hv2 : isLogsV2 payload = true) (h : decodeLogs hash displayDouble payload = some b) :
    ∃ rawVersion records, validateEnvelope .default payload = .ok (rawVersion, records) ∧
      b.rows.length = records.length := by
  rw [decodeLogs, hv2, if_pos rfl, toOption_eq_some, decode_ok] at h
  obtain ⟨rawVersion, records, hvalid, start, hbegin, hfold⟩ := h
  cases hbegin
  obtain ⟨rows, hrows, hstores, -⟩ := record_records hfold
  refine ⟨rawVersion, records, hvalid, ?_⟩
  rw [hrows, hstores.length_eq]
  rfl

theorem length_eq_of_batchV2Wire_eq {limits limits' : DecodeLimits} {v v' : Nat} {batch batch' : List RecordTree}
    (hbatch : BatchAccepted limits v batch) (hbatch' : BatchAccepted limits' v' batch')
    (h : batchV2Wire v (batch.map RecordTree.redact) = batchV2Wire v' batch') : batch.length = batch'.length := by
  have hlt {limits : DecodeLimits} {v : Nat} {batch : List RecordTree} (h : BatchAccepted limits v batch) :
      v < 256 ^ 2 := by
    obtain h | h := h.version <;> rw [h] <;> decide
  have hmap : (batch.map RecordTree.redact).length = batch.length := List.length_map _
  rw [batchV2Wire_eq, batchV2Wire_eq, hmap] at h
  simp only [envelopeHeader, List.append_assoc] at h
  have hver := (toBe_append_inj (by decide) (by decide) h).2
  have hcnt := (toBe_append_inj (hlt hbatch) (hlt hbatch') hver).2
  exact (toBe_append_inj hbatch.count hbatch'.count hcnt).1

theorem redactReplayedLogs_records {q : Bytes} {b' : LogsBlockBuilder}
    (hq : redactReplayedLogs payload = some q) (hb : decodeLogs hash displayDouble payload = some b)
    (hb' : decodeLogs hash displayDouble q = some b') : b.rows = [] ↔ b'.rows = [] := by
  unfold redactReplayedLogs at hq
  split at hq
  · rename_i hv2
    simp only [Option.map_eq_some_iff, toOption_eq_some] at hq
    obtain ⟨cow, hcow, rfl⟩ := hq
    obtain ⟨rawVersion, records, hvalid, hlen⟩ := decodeLogs_v2 hv2 hb
    obtain ⟨hmax, batch, hbatch, hpay, rfl⟩ := validateEnvelope_iff.mp hvalid
    obtain ⟨-, -, rfl⟩ := (redactReplayedLogsV2_ok hmax hbatch hpay).mp hcow
    rw [redactedCow_bytes] at hb'
    obtain ⟨_, _, hvalid', hlen'⟩ := decodeLogs_v2 (isLogsV2_batchV2Wire _ _) hb'
    obtain ⟨-, batch', hbatch', hpay', rfl⟩ := validateEnvelope_iff.mp hvalid'
    rw [List.length_map] at hlen hlen'
    rw [← List.length_eq_zero_iff, ← List.length_eq_zero_iff, hlen, hlen',
      length_eq_of_batchV2Wire_eq hbatch hbatch' hpay']
  · rename_i hv1
    rw [toOption_eq_some] at hq
    have hv1 : isLogsV2 payload = false := by simpa using hv1
    obtain ⟨streams, hstreams, hrows⟩ := decodeLogs_v1 hv1 hb
    obtain ⟨streams', hstreams', hrows'⟩ := decodeLogs_v1 ((redactLogsV1_isLogsV2 hq).trans hv1) hb'
    obtain ⟨-, -, batch, hto⟩ := redactLogsV1_ok.mp hq
    cases hstreams.symm.trans hto.decodeLogsBatch
    cases hstreams'.symm.trans hto.again.decodeLogsBatch
    rw [hrows, hrows']
    simp [streamRows, LogStream.redact]

end Scry.Pipeline
