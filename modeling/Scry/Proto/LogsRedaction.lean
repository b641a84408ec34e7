import Scry.Proto.Redaction

/-! # Redaction of logs-v1 batches

What `parse_logs_v1` accepts is one batch in wire form to the end.
-/

open Scry.Lib

namespace Scry.Proto

open List

variable (limit : Option Nat) (payload : Bytes)

open V1Cursor in
def parseLogEntryV1 : V1Reader Unit := do
  raw limit 9
  copyString limit 4
  let attrs ← copyUint limit 2
  pairs limit attrs

open V1Cursor in
def parseLogStreamV1 : V1Reader Unit := do
  raw limit 8
  let labels ← copyUint limit 2
  pairs limit labels
  let entries ← copyUint limit 4
  count entries 15
  let _ ← Reader.times entries (parseLogEntryV1 limit)

open V1Cursor in
def parseLogStreamsV1 : V1Reader Unit := do
  let streams ← copyUint limit 4
  count streams 14
  let _ ← Reader.times streams (parseLogStreamV1 limit)

/-- `parse_logs_v1`: whether a value was replaced, and what was emitted. -/
def parseLogsV1 : Except BinSchemaError (Bool × Bytes) :=
  if defaultMaxBatchBytes < payload.length then
    .error (.invalidValue "batch exceeds transport byte limit")
  else
    match parseLogStreamsV1 limit ⟨payload, ⟨payload.length, false, []⟩⟩ with
    | .error e => .error e
    | .ok ((), c) =>
      if c.rest ≠ [] then .error (.invalidEncoding "trailing bytes")
      else .ok (c.extra.changed, c.extra.output)

def redactLogsV1 : Except BinSchemaError Bytes := redactV1 parseLogsV1 payload

/-! ## The redacted batch -/

def LogEntry.redact (e : LogEntry) : LogEntry := { e with attributes := e.attributes.map redactPair }

def LogEntry.dirty (e : LogEntry) : Bool := e.attributes.any pairDirty

def LogStream.redact (s : LogStream) : LogStream :=
  { s with labels := s.labels.map redactPair, entries := s.entries.map LogEntry.redact }

def LogStream.dirty (s : LogStream) : Bool := s.labels.any pairDirty || s.entries.any LogEntry.dirty

def LogEntry.items (e : LogEntry) : Nat := e.attributes.length

def LogStream.items (s : LogStream) : Nat :=
  s.labels.length + (s.entries.length + (s.entries.map LogEntry.items).sum)

structure LogEntry.Valid (e : LogEntry) : Prop where
  fits : e.Fits
  body : validUtf8 e.body = true
  attributes : ∀ p ∈ e.attributes, PairValid p

structure LogStream.Valid (s : LogStream) : Prop where
  fits : s.Fits
  labels : ∀ p ∈ s.labels, PairValid p
  entries : ∀ e ∈ s.entries, e.Valid

variable {e : LogEntry}

theorem LogEntry.redact_of_clean (h : e.dirty = false) : e.redact = e := by
  rw [LogEntry.redact, map_eq_self_of_clean (fun _ => redactPair_of_clean) h]

variable {s : LogStream}

theorem LogStream.redact_of_clean (h : s.dirty = false) : s.redact = s := by
  rw [LogStream.dirty, Bool.or_eq_false_iff] at h
  rw [LogStream.redact, map_eq_self_of_clean (fun _ => redactPair_of_clean) h.1,
    map_eq_self_of_clean (fun _ => LogEntry.redact_of_clean) h.2]

theorem LogEntry.redact_redact (e : LogEntry) : e.redact.redact = e.redact := by
  simp [LogEntry.redact, redactPair_redactPair]

theorem LogStream.redact_redact (s : LogStream) : s.redact.redact = s.redact := by
  simp [LogStream.redact, redactPair_redactPair, LogEntry.redact_redact]

theorem LogEntry.Valid.redact (h : e.Valid) : e.redact.Valid := by
  have hattrs : ∀ p ∈ e.redact.attributes, PairValid p :=
    forall_mem_map.mpr fun p hp => (h.attributes p hp).redact
  exact ⟨⟨h.fits.ts, h.fits.severity, h.fits.body, by simpa [LogEntry.redact] using h.fits.count,
    fun p hp => (hattrs p hp).fits⟩, h.body, hattrs⟩

theorem LogStream.Valid.redact (h : s.Valid) : s.redact.Valid := by
  have hlabs : ∀ p ∈ s.redact.labels, PairValid p :=
    forall_mem_map.mpr fun p hp => (h.labels p hp).redact
  have hents : ∀ e ∈ s.redact.entries, e.Valid :=
    forall_mem_map.mpr fun e he => (h.entries e he).redact
  exact ⟨⟨h.fits.fingerprint, by simpa [LogStream.redact] using h.fits.labelCount,
    fun p hp => (hlabs p hp).fits, by simpa [LogStream.redact] using h.fits.entryCount,
    fun e he => (hents e he).fits⟩, hlabs, hents⟩

/-! ## Reading a batch -/

namespace V1Cursor

variable {limit : Option Nat}

open Effects

def entryPass (e : LogEntry) : Pass := ⟨e.wire, e.redact.wire, e.items, e.dirty⟩

theorem parseLogEntryV1_reads :
    (passing limit).Reads (parseLogEntryV1 limit) LogEntry.Valid (fun _ => ()) entryPass := by
  have hhead : (passing limit).Reads (raw limit 9) (fun p : Nat × Nat => p.1 < 256 ^ 8 ∧ p.2 < 256 ^ 1)
      (fun _ => ()) (fun p => .copy (toBe 8 p.1 ++ toBe 1 p.2)) := by
    refine raw_reads_as (fun b hb => ?_) (by simp)
    obtain ⟨b₁, b₂, h₁, h₂, rfl⟩ := exists_append_of_length (m := 8) (n := 1) hb
    obtain ⟨ts, hts, rfl⟩ := exists_toBe h₁
    obtain ⟨severity, hsev, rfl⟩ := exists_toBe h₂
    exact ⟨(ts, severity), ⟨hts, hsev⟩, rfl⟩
  have hread : (passing limit).Reads (parseLogEntryV1 limit) _ _ _ :=
    hhead.bind fun _ _ => (copyString_reads 4).bind fun _ _ => (copyUint_reads 2).bind fun n _ =>
      pairs_reads n
  have hpass (e : LogEntry) : entryPass e = (passing limit).mul
      (.copy (toBe 8 e.tsUnixNano ++ toBe 1 e.severity)) ((passing limit).mul
        (.copy (toBe 4 e.body.length ++ e.body)) ((passing limit).mul
          (.copy (toBe 2 e.attributes.length)) (loopPass pairPass e.attributes))) := by
    rw [loopPass_pair]
    simp [entryPass, passing, Pass.copy, LogEntry.wire, LogEntry.redact, LogEntry.items, LogEntry.dirty]
  refine hread.congr ?_ ?_
  · rintro ⟨⟨ts, severity⟩, body, n, attrs⟩ ⟨⟨hts, hsev⟩, ⟨hbody, hutf8⟩, hn, hlen, hattrs⟩
    obtain rfl : attrs.length = n := hlen
    exact ⟨⟨ts, severity, body, attrs⟩, ⟨⟨hts, hsev, hbody, hn, fun p hp => (hattrs p hp).fits⟩,
      hutf8, hattrs⟩, rfl, hpass _⟩
  · intro e he
    exact ⟨((e.tsUnixNano, e.severity), e.body, e.attributes.length, e.attributes),
      ⟨⟨he.fits.ts, he.fits.severity⟩, ⟨he.fits.body, he.body⟩, he.fits.count, rfl, he.attributes⟩, rfl,
      (hpass e).symm⟩

theorem items_le_wire (e : LogEntry) : e.items + 15 ≤ e.wire.length := by
  have := length_pairs_le e.attributes
  simp only [LogEntry.items, LogEntry.wire, length_append, toBe_length]
  omega

def streamPass (s : LogStream) : Pass := ⟨s.wire, s.redact.wire, s.items, s.dirty⟩

theorem parseLogStreamV1_reads :
    (passing limit).Reads (parseLogStreamV1 limit) LogStream.Valid (fun _ => ()) streamPass := by
  have hents (n : Nat) : (passing limit).Reads
      (do count n 15; let _ ← Reader.times n (parseLogEntryV1 limit)) _ _ _ :=
    counted_reads parseLogEntryV1_reads (fun e _ => Nat.le_of_add_left_le (items_le_wire e)) n
  have hread : (passing limit).Reads (parseLogStreamV1 limit) _ _ _ :=
    (rawUint_reads 8).bind fun _ _ => (copyUint_reads 2).bind fun n _ => (pairs_reads n).bind fun _ _ =>
      (copyUint_reads 4).bind fun n _ => hents n
  have hpass (s : LogStream) : streamPass s = (passing limit).mul (.copy (toBe 8 s.fingerprint))
      ((passing limit).mul (.copy (toBe 2 s.labels.length)) ((passing limit).mul
        (loopPass pairPass s.labels) ((passing limit).mul (.copy (toBe 4 s.entries.length))
          (loopPass entryPass s.entries)))) := by
    rw [loopPass_pair]
    simp [streamPass, entryPass, loopPass, passing, Pass.copy, LogStream.wire, LogStream.redact,
      LogStream.items, LogStream.dirty, flatMap_map]
  refine hread.congr ?_ ?_
  · rintro ⟨fingerprint, n, labels, m, entries⟩ ⟨hfp, hn, ⟨hlabelCount, hlabs⟩, hm, hcnt, hents⟩
    obtain rfl : labels.length = n := hlabelCount
    obtain rfl : entries.length = m := hcnt
    exact ⟨⟨fingerprint, labels, entries⟩, ⟨⟨hfp, hn, fun p hp => (hlabs p hp).fits, hm,
      fun e he => (hents e he).fits⟩, hlabs, hents⟩, rfl, hpass _⟩
  · intro s hs
    exact ⟨(s.fingerprint, s.labels.length, s.labels, s.entries.length, s.entries),
      ⟨hs.fits.fingerprint, hs.fits.labelCount, ⟨rfl, hs.labels⟩, hs.fits.entryCount, rfl, hs.entries⟩,
      rfl, (hpass s).symm⟩

theorem stream_items_le_wire (s : LogStream) : s.items + 14 ≤ s.wire.length := by
  have hlabs := length_pairs_le s.labels
  have hents := sum_add_le_flatMap fun e (_ : e ∈ s.entries) => items_le_wire e
  simp only [LogStream.items, LogStream.wire, length_append, toBe_length]
  omega

def batchPass (streams : List LogStream) : Pass :=
  ⟨batchWire streams, batchWire (streams.map LogStream.redact),
    streams.length + (streams.map LogStream.items).sum, streams.any LogStream.dirty⟩

theorem parseLogStreamsV1_reads : (passing limit).Reads (parseLogStreamsV1 limit)
    (fun streams : List LogStream => streams.length < 256 ^ 4 ∧ ∀ s ∈ streams, s.Valid) (fun _ => ()) batchPass := by
  have hstreams (n : Nat) : (passing limit).Reads
      (do count n 14; let _ ← Reader.times n (parseLogStreamV1 limit)) _ _ _ :=
    counted_reads parseLogStreamV1_reads (fun s _ => Nat.le_of_add_left_le (stream_items_le_wire s)) n
  have hread := (copyUint_reads 4).bind fun n _ => hstreams n
  have hpass (streams : List LogStream) : batchPass streams = (passing limit).mul
      (.copy (toBe 4 streams.length)) (loopPass streamPass streams) := by
    simp [batchPass, streamPass, loopPass, passing, Pass.copy, batchWire, flatMap_map]
  refine hread.congr ?_ ?_
  · rintro ⟨n, streams⟩ ⟨hn, hcnt, hstreams⟩
    obtain rfl : streams.length = n := hcnt
    exact ⟨streams, ⟨hn, hstreams⟩, rfl, hpass _⟩
  · rintro streams ⟨hn, hstreams⟩
    exact ⟨(streams.length, streams), ⟨hn, rfl, hstreams⟩, rfl, (hpass streams).symm⟩

end V1Cursor

/-! ## Whole payloads -/

structure RedactsTo (payload : Bytes) (streams : List LogStream) (output : Bytes) : Prop where
  count : streams.length < 256 ^ 4
  valid : ∀ s ∈ streams, s.Valid
  payload : payload = batchWire streams
  output : output = batchWire (streams.map LogStream.redact)

variable {output payload : Bytes} {streams : List LogStream}

open V1Cursor in
theorem redactLogsV1_ok : redactLogsV1 payload = .ok output ↔ payload.length ≤ defaultMaxBatchBytes ∧ output.length ≤
    defaultMaxBatchBytes ∧ ∃ streams, RedactsTo payload streams output := by
  have hitems (streams : List LogStream) : (batchPass streams).items ≤ (batchPass streams).read.length := by
    have := sum_add_le_flatMap fun s (_ : s ∈ streams) => stream_items_le_wire s
    simp only [batchPass, batchWire, length_append]
    omega
  have hclean (streams : List LogStream) (h : (batchPass streams).dirty = false) :
      (batchPass streams).out = (batchPass streams).read := by
    simp only [batchPass]
    rw [map_eq_self_of_clean (fun _ => LogStream.redact_of_clean) h]
  refine Iff.trans (redactV1_ok (fun _ => parseLogStreamsV1_reads) (fun streams _ => hitems streams) hclean)
    (and_congr_right fun _ => and_congr_right fun _ => exists_congr fun streams => ?_)
  constructor
  · rintro ⟨⟨hcnt, hvalid⟩, hpay, hout⟩
    exact ⟨hcnt, hvalid, hpay, hout⟩
  · rintro ⟨hcnt, hvalid, hpay, hout⟩
    exact ⟨⟨hcnt, hvalid⟩, hpay, hout⟩

section

variable (h : RedactsTo payload streams output)
include h

theorem RedactsTo.batchFits : BatchFits streams :=
  ⟨h.count, fun s hs => (h.valid s hs).fits⟩

theorem RedactsTo.decodeLogsBatch : decodeLogsBatch payload = .ok streams :=
  (decodeLogsBatch_ok _ _).mpr ⟨h.batchFits, [], by rw [h.payload, append_nil]⟩

theorem RedactsTo.again :
    RedactsTo output (streams.map LogStream.redact) output where
  count := by simpa using h.count
  valid := forall_mem_map.mpr fun s hs => (h.valid s hs).redact
  payload := h.output
  output := by
    rw [h.output, map_map]
    congr 2
    funext s
    exact s.redact_redact.symm

end

theorem redactLogsV1_again (h : redactLogsV1 payload = .ok output) : redactLogsV1 output = .ok output := by
  obtain ⟨-, hout, streams, hto⟩ := redactLogsV1_ok.mp h
  exact redactLogsV1_ok.mpr ⟨hout, hout, _, hto.again⟩

end Scry.Proto
