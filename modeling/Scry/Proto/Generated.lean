import Mathlib.Data.Set.List
import Scry.Proto.LogsRedaction
import Scry.Proto.MetricsWire
import Scry.Proto.RedactTree
import Scry.Proto.TraceRedaction

/-! # Typed batches, version 1

`LogsBatch` and `TracesBatch` as the generated code has them: integers have their widths, and the encoders cut
what does not fit.
-/

open Scry.Lib

namespace Scry.Proto

open List

open Wire

namespace Wire

def u16 : Codec BinSchemaError UInt16 := .u16 .unexpectedEof

def byteChar (b : UInt8) : Char := Char.ofNat b.toNat

def charByte (c : Char) : UInt8 := UInt8.ofNat c.toNat

theorem charByte_byteChar (b : UInt8) : charByte (byteChar b) = b := by
  have hlt : b.toNat < 256 := b.toNat_lt
  have hvalid : b.toNat.isValidChar := .inl (by omega)
  have htoNat : (byteChar b).toNat = b.toNat := by
    rw [byteChar, Char.ofNat, dif_pos hvalid]
    rfl
  rw [charByte, htoNat, UInt8.ofNat_toNat]

theorem map_charByte_byteChar (l : Bytes) : (l.map byteChar).map charByte = l := by
  rw [map_map]
  exact map_id'' charByte_byteChar l

def latin1 (width : Nat) : Codec BinSchemaError (List Char) :=
  (Codec.blob .unexpectedEof width).via (map byteChar) (map charByte)
    fun l _ => map_charByte_byteChar l

end Wire

def LabelPair.raw (l : LabelPair) : Bytes × Bytes := (l.key.val, l.value.val)

def LabelPair.redact (l : LabelPair) : LabelPair :=
  if isSensitiveKey l.key.val then { l with value := marker } else l

namespace Generated

/-! ## Logs -/

structure LogEntry where
  tsUnixNano : UInt64
  severity : UInt8
  body : Str
  attributes : List LabelPair
  deriving DecidableEq

structure LogStream where
  fingerprint : UInt64
  labels : List LabelPair
  entries : List LogEntry
  deriving DecidableEq

structure LogsBatch where
  streams : List LogStream
  deriving DecidableEq

def LogEntry.codec : Codec BinSchemaError LogEntry :=
  (u64.seq (u8.seq ((text 4).seq (list 2 LabelPair.codec)))).iso
    (fun (ts, severity, body, attributes) => ⟨ts, severity, body, attributes⟩)
    (fun e => (e.tsUnixNano, e.severity, e.body, e.attributes)) (fun _ => rfl) fun _ _ => rfl

def LogStream.codec : Codec BinSchemaError LogStream :=
  (u64.seq ((list 2 LabelPair.codec).seq (list 4 LogEntry.codec))).iso
    (fun (fingerprint, labels, entries) => ⟨fingerprint, labels, entries⟩)
    (fun s => (s.fingerprint, s.labels, s.entries)) (fun _ => rfl) fun _ _ => rfl

def LogsBatch.codec : Codec BinSchemaError LogsBatch :=
  (list 4 LogStream.codec).iso LogsBatch.mk LogsBatch.streams (fun _ => rfl) fun _ _ => rfl

def LogEntry.redact (e : LogEntry) : LogEntry :=
  { e with attributes := e.attributes.map LabelPair.redact }

def LogStream.redact (s : LogStream) : LogStream :=
  { s with labels := s.labels.map LabelPair.redact, entries := s.entries.map LogEntry.redact }

def LogsBatch.redact (b : LogsBatch) : LogsBatch := ⟨b.streams.map LogStream.redact⟩

/-! ## Traces -/

structure ScopeEntry where
  name : Str
  version : List Char
  deriving DecidableEq

structure SpanEvent where
  tsUnixNano : UInt64
  name : Str
  attributes : List LabelPair
  deriving DecidableEq

structure SpanLink where
  traceId : Bytes
  spanId : Bytes
  attributes : List LabelPair
  deriving DecidableEq

structure Span where
  resourceIdx : UInt16
  scopeIdx : UInt16
  traceId : Bytes
  spanId : Bytes
  parentSpanId : Option Bytes
  name : Str
  kind : UInt8
  startUnixNano : UInt64
  endUnixNano : UInt64
  statusCode : UInt8
  statusMessage : Str
  attributes : List LabelPair
  events : List SpanEvent
  links : List SpanLink
  deriving DecidableEq

structure TracesBatch where
  resources : List (List LabelPair)
  scopes : List ScopeEntry
  spans : List Span
  deriving DecidableEq

def ScopeEntry.codec : Codec BinSchemaError ScopeEntry :=
  ((text 1).seq (latin1 1)).iso (fun (name, version) => ⟨name, version⟩)
    (fun s => (s.name, s.version)) (fun _ => rfl) fun _ _ => rfl

def SpanEvent.codec : Codec BinSchemaError SpanEvent :=
  (u64.seq ((text 2).seq (list 1 LabelPair.codec))).iso
    (fun (ts, name, attributes) => ⟨ts, name, attributes⟩)
    (fun e => (e.tsUnixNano, e.name, e.attributes)) (fun _ => rfl) fun _ _ => rfl

def SpanLink.codec : Codec BinSchemaError SpanLink :=
  ((fixed 16).seq ((fixed 8).seq (list 1 LabelPair.codec))).iso
    (fun (traceId, spanId, attributes) => ⟨traceId, spanId, attributes⟩)
    (fun l => (l.traceId, l.spanId, l.attributes)) (fun _ => rfl) fun _ _ => rfl

def Span.codec : Codec BinSchemaError Span :=
  (u16.seq (u16.seq ((fixed 16).seq ((fixed 8).seq ((Codec.optional .unexpectedEof (fixed 8)).seq
    ((text 2).seq (u8.seq (u64.seq (u64.seq (u8.seq ((text 2).seq ((list 2 LabelPair.codec).seq
    ((list 2 SpanEvent.codec).seq (list 1 SpanLink.codec)))))))))))))).iso
    (fun (resourceIdx, scopeIdx, traceId, spanId, parent, name, kind, start, stop, code, message,
        attributes, events, links) =>
      ⟨resourceIdx, scopeIdx, traceId, spanId, parent, name, kind, start, stop, code, message,
        attributes, events, links⟩)
    (fun s => (s.resourceIdx, s.scopeIdx, s.traceId, s.spanId, s.parentSpanId, s.name, s.kind,
      s.startUnixNano, s.endUnixNano, s.statusCode, s.statusMessage, s.attributes, s.events, s.links))
    (fun _ => rfl) fun _ _ => rfl

def TracesBatch.codec : Codec BinSchemaError TracesBatch :=
  ((list 2 (list 2 LabelPair.codec)).seq ((list 2 ScopeEntry.codec).seq (list 4 Span.codec))).iso
    (fun (resources, scopes, spans) => ⟨resources, scopes, spans⟩)
    (fun b => (b.resources, b.scopes, b.spans)) (fun _ => rfl) fun _ _ => rfl

def SpanEvent.redact (e : SpanEvent) : SpanEvent :=
  { e with attributes := e.attributes.map LabelPair.redact }

def SpanLink.redact (l : SpanLink) : SpanLink :=
  { l with attributes := l.attributes.map LabelPair.redact }

def Span.redact (s : Span) : Span :=
  { s with
    attributes := s.attributes.map LabelPair.redact
    events := s.events.map SpanEvent.redact
    links := s.links.map SpanLink.redact }

def TracesBatch.redact (b : TracesBatch) : TracesBatch :=
  { b with
    resources := b.resources.map (map LabelPair.redact)
    spans := b.spans.map Span.redact }

/-! ## The bytes behind the types -/

def LogEntry.raw (e : LogEntry) : Proto.LogEntry :=
  ⟨e.tsUnixNano.toNat, e.severity.toNat, e.body.val, e.attributes.map LabelPair.raw⟩

def LogStream.raw (s : LogStream) : Proto.LogStream :=
  ⟨s.fingerprint.toNat, s.labels.map LabelPair.raw, s.entries.map LogEntry.raw⟩

def LogsBatch.raw (b : LogsBatch) : List Proto.LogStream := b.streams.map LogStream.raw

def ScopeEntry.raw (s : ScopeEntry) : Bytes × Bytes := (s.name.val, s.version.map charByte)

def SpanEvent.raw (e : SpanEvent) : DecodedEvent :=
  ⟨e.tsUnixNano.toNat, e.name.val, e.attributes.map LabelPair.raw⟩

def SpanLink.raw (l : SpanLink) : DecodedLink := ⟨l.traceId, l.spanId, l.attributes.map LabelPair.raw⟩

def Span.raw (s : Span) : Proto.Span :=
  ⟨s.resourceIdx.toNat, s.scopeIdx.toNat, s.traceId, s.spanId, s.parentSpanId, s.name.val, s.kind.toNat,
    s.startUnixNano.toNat, s.endUnixNano.toNat, s.statusCode.toNat, s.statusMessage.val,
    s.attributes.map LabelPair.raw, s.events.map SpanEvent.raw, s.links.map SpanLink.raw⟩

def TracesBatch.raw (b : TracesBatch) : Proto.TracesBatch :=
  ⟨b.resources.map (map LabelPair.raw), b.scopes.map ScopeEntry.raw, b.spans.map Span.raw⟩

/-! ### What is written -/

variable {α β : Type} {raw : α → β} {x : Codec BinSchemaError α}

theorem flatMap_write {wire : β → Bytes}
    (h : ∀ a, x.write a = wire (raw a)) (as : List α) : as.flatMap x.write = (as.map raw).flatMap wire := by
  rw [flatMap_map]
  exact flatMap_congr fun a _ => h a

theorem labelPair_write (l : LabelPair) : LabelPair.codec.write l = pairWire l.raw := by
  have hwrite : LabelPair.codec.write l = (toBe 1 l.key.val.length ++ l.key.val) ++
    (toBe 2 l.value.val.length ++ l.value.val) := rfl
  simp only [hwrite, pairWire, LabelPair.raw, append_assoc]

theorem labels_write (width : Nat) (ls : List LabelPair) :
    (list width LabelPair.codec).write ls = attrsWire width (ls.map LabelPair.raw) := by
  have hwrite : (list width LabelPair.codec).write ls =
    toBe width ls.length ++ ls.flatMap LabelPair.codec.write := rfl
  rw [hwrite, flatMap_write labelPair_write, attrsWire, length_map]

theorem logEntry_write (e : LogEntry) : LogEntry.codec.write e = e.raw.wire := by
  have hwrite : LogEntry.codec.write e = toBe 8 e.tsUnixNano.toNat ++ (toBe 1 e.severity.toNat ++
    ((toBe 4 e.body.val.length ++ e.body.val) ++ (list 2 LabelPair.codec).write e.attributes)) := rfl
  simp only [hwrite, labels_write, attrsWire, Proto.LogEntry.wire, LogEntry.raw, append_assoc]

theorem logStream_write (s : LogStream) : LogStream.codec.write s = s.raw.wire := by
  have hwrite : LogStream.codec.write s = toBe 8 s.fingerprint.toNat ++
    ((list 2 LabelPair.codec).write s.labels ++
      (toBe 4 s.entries.length ++ s.entries.flatMap LogEntry.codec.write)) := rfl
  simp only [hwrite, flatMap_write logEntry_write, labels_write, attrsWire, Proto.LogStream.wire,
    LogStream.raw, append_assoc, length_map]

theorem logsBatch_write (b : LogsBatch) : LogsBatch.codec.write b = batchWire b.raw := by
  have hwrite : LogsBatch.codec.write b =
    toBe 4 b.streams.length ++ b.streams.flatMap LogStream.codec.write := rfl
  simp only [hwrite, flatMap_write logStream_write, batchWire, LogsBatch.raw, length_map]

theorem scopeEntry_write (s : ScopeEntry) : ScopeEntry.codec.write s = scopeEntryWire s.raw := rfl

theorem spanEvent_write (e : SpanEvent) : SpanEvent.codec.write e = e.raw.wire := by
  have hwrite : SpanEvent.codec.write e = toBe 8 e.tsUnixNano.toNat ++
    (strWire 2 e.name.val ++ (list 1 LabelPair.codec).write e.attributes) := rfl
  rw [hwrite, labels_write]
  rfl

theorem spanLink_write (l : SpanLink) : SpanLink.codec.write l = l.raw.wire := by
  have hwrite : SpanLink.codec.write l =
    l.traceId ++ (l.spanId ++ (list 1 LabelPair.codec).write l.attributes) := rfl
  rw [hwrite, labels_write]
  rfl

theorem span_write (s : Span) : Span.codec.write s = s.raw.wire := by
  have hpar : (Codec.optional .unexpectedEof (fixed 8) : Codec BinSchemaError _).write s.parentSpanId =
      parentWire s.parentSpanId := by
    cases s.parentSpanId <;> rfl
  have hwrite : Span.codec.write s = toBe 2 s.resourceIdx.toNat ++ (toBe 2 s.scopeIdx.toNat ++
    (s.traceId ++ (s.spanId ++
    ((Codec.optional .unexpectedEof (fixed 8) : Codec BinSchemaError _).write s.parentSpanId ++
    (strWire 2 s.name.val ++ (toBe 1 s.kind.toNat ++ (toBe 8 s.startUnixNano.toNat ++
    (toBe 8 s.endUnixNano.toNat ++ (toBe 1 s.statusCode.toNat ++ (strWire 2 s.statusMessage.val ++
    ((list 2 LabelPair.codec).write s.attributes ++
    ((toBe 2 s.events.length ++ s.events.flatMap SpanEvent.codec.write) ++
    (toBe 1 s.links.length ++ s.links.flatMap SpanLink.codec.write))))))))))))) := rfl
  simp only [hwrite, hpar, labels_write, flatMap_write spanEvent_write, flatMap_write spanLink_write,
    Proto.Span.wire, Span.raw, append_assoc, length_map]

theorem tracesBatch_write (b : TracesBatch) : TracesBatch.codec.write b = b.raw.wire := by
  have hwrite : TracesBatch.codec.write b =
    (toBe 2 b.resources.length ++ b.resources.flatMap (list 2 LabelPair.codec).write) ++
      ((toBe 2 b.scopes.length ++ b.scopes.flatMap ScopeEntry.codec.write) ++
        (toBe 4 b.spans.length ++ b.spans.flatMap Span.codec.write)) := rfl
  simp only [hwrite, flatMap_write (labels_write 2), flatMap_write scopeEntry_write, flatMap_write span_write,
    Proto.TracesBatch.wire, Proto.TracesBatch.dictionariesWire, TracesBatch.raw, append_assoc, length_map]

/-! ### What is redacted -/

theorem labelPair_raw_redact (l : LabelPair) : l.redact.raw = redactPair l.raw := by
  unfold LabelPair.redact redactPair LabelPair.raw
  split <;> rfl

theorem map_raw_redact {redact : α → α} {redact' : β → β}
    (h : ∀ a, raw (redact a) = redact' (raw a)) (as : List α) :
    (as.map redact).map raw = (as.map raw).map redact' := by
  rw [map_map, map_map]
  exact map_congr_left fun a _ => h a

theorem labels_raw_redact (ls : List LabelPair) :
    (ls.map LabelPair.redact).map LabelPair.raw = redactPairs (ls.map LabelPair.raw) :=
  map_raw_redact labelPair_raw_redact ls

theorem logEntry_raw_redact (e : LogEntry) : e.redact.raw = e.raw.redact := by
  simp only [LogEntry.raw, LogEntry.redact, labels_raw_redact]
  rfl

theorem logStream_raw_redact (s : LogStream) : s.redact.raw = s.raw.redact := by
  simp only [LogStream.raw, LogStream.redact, labels_raw_redact, map_raw_redact logEntry_raw_redact]
  rfl

theorem logsBatch_raw_redact (b : LogsBatch) : b.redact.raw = b.raw.map Proto.LogStream.redact :=
  map_raw_redact logStream_raw_redact b.streams

theorem spanEvent_raw_redact (e : SpanEvent) : e.redact.raw = e.raw.redact := by
  simp only [SpanEvent.raw, SpanEvent.redact, labels_raw_redact]
  rfl

theorem spanLink_raw_redact (l : SpanLink) : l.redact.raw = l.raw.redact := by
  simp only [SpanLink.raw, SpanLink.redact, labels_raw_redact]
  rfl

theorem span_raw_redact (s : Span) : s.redact.raw = s.raw.redact := by
  simp only [Span.raw, Span.redact, labels_raw_redact, map_raw_redact spanEvent_raw_redact,
    map_raw_redact spanLink_raw_redact]
  rfl

theorem tracesBatch_raw_redact (b : TracesBatch) : b.redact.raw = b.raw.redact := by
  simp only [TracesBatch.raw, TracesBatch.redact, map_raw_redact labels_raw_redact, map_raw_redact span_raw_redact]
  rfl

/-! ### What fits -/

theorem labelPair_fits_redact {l : LabelPair} (h : LabelPair.codec.Fits l) : LabelPair.codec.Fits l.redact := by
  unfold LabelPair.redact
  split
  · exact ⟨h.1, (by decide : marker.val.length < 256 ^ 2)⟩
  · exact h

variable {width : Nat}

theorem list_fits_map {α : Type} {x : Codec BinSchemaError α} {redact : α → α}
    (hx : ∀ {a}, x.Fits a → x.Fits (redact a)) {as : List α} (h : (list width x).Fits as) :
    (list width x).Fits (as.map redact) :=
  ⟨by simpa using h.1, forall_mem_map.mpr fun a ha => hx (h.2 a ha)⟩

theorem labels_fits_redact {ls : List LabelPair} (h : (list width LabelPair.codec).Fits ls) :
    (list width LabelPair.codec).Fits (ls.map LabelPair.redact) :=
  list_fits_map labelPair_fits_redact h

theorem logEntry_fits_redact {e : LogEntry} (h : LogEntry.codec.Fits e) : LogEntry.codec.Fits e.redact :=
  ⟨h.1, h.2.1, h.2.2.1, labels_fits_redact h.2.2.2⟩

theorem logStream_fits_redact {s : LogStream} (h : LogStream.codec.Fits s) : LogStream.codec.Fits s.redact :=
  ⟨h.1, labels_fits_redact h.2.1, list_fits_map logEntry_fits_redact h.2.2⟩

theorem logsBatch_fits_redact {b : LogsBatch} (h : LogsBatch.codec.Fits b) : LogsBatch.codec.Fits b.redact :=
  list_fits_map logStream_fits_redact h

theorem spanEvent_fits_redact {e : SpanEvent} (h : SpanEvent.codec.Fits e) : SpanEvent.codec.Fits e.redact :=
  ⟨h.1, h.2.1, labels_fits_redact h.2.2⟩

theorem spanLink_fits_redact {l : SpanLink} (h : SpanLink.codec.Fits l) : SpanLink.codec.Fits l.redact :=
  ⟨h.1, h.2.1, labels_fits_redact h.2.2⟩

theorem span_fits_redact {s : Span} (h : Span.codec.Fits s) : Span.codec.Fits s.redact := by
  obtain ⟨hres, hscope, htrace, hspan, hpar, hname, hkind, hstart, hstop, hcode, hmessage, hattrs,
    hevs, hlinks⟩ := h
  exact ⟨hres, hscope, htrace, hspan, hpar, hname, hkind, hstart, hstop, hcode, hmessage, labels_fits_redact
    hattrs, list_fits_map spanEvent_fits_redact hevs, list_fits_map spanLink_fits_redact hlinks⟩

variable {b : TracesBatch}

theorem tracesBatch_fits_redact (h : TracesBatch.codec.Fits b) : TracesBatch.codec.Fits b.redact :=
  ⟨list_fits_map labels_fits_redact h.1, h.2.1, list_fits_map span_fits_redact h.2.2⟩

/-! ### Types for bytes -/

variable {bs : List β}

theorem exists_map_eq {P : α → Prop}
    (h : ∀ b ∈ bs, ∃ a, P a ∧ raw a = b) : ∃ as : List α, (∀ a ∈ as, P a) ∧ as.map raw = bs := by
  induction bs with
  | nil => exact ⟨[], nofun, rfl⟩
  | cons b bs ih =>
    obtain ⟨⟨a, ha, hraw⟩, hbs⟩ := forall_mem_cons.mp h
    obtain ⟨as, has, hmap⟩ := ih hbs
    exact ⟨a :: as, forall_mem_cons.mpr ⟨ha, has⟩, by rw [map_cons, hraw, hmap]⟩

theorem exists_list
    (hcnt : bs.length < 256 ^ width) (h : ∀ b ∈ bs, ∃ a, x.Fits a ∧ raw a = b) :
    ∃ as, (list width x).Fits as ∧ as.map raw = bs := by
  obtain ⟨as, has, rfl⟩ := exists_map_eq h
  exact ⟨as, ⟨by simpa using hcnt, has⟩, rfl⟩

theorem exists_labelPair {p : Bytes × Bytes} (h : PairValid p) :
    ∃ l : LabelPair, LabelPair.codec.Fits l ∧ l.raw = p :=
  ⟨⟨⟨p.1, h.key⟩, ⟨p.2, h.value⟩⟩, h.fits, rfl⟩

theorem exists_labels {ps : List (Bytes × Bytes)} (hcnt : ps.length < 256 ^ width)
    (h : ∀ p ∈ ps, PairValid p) : ∃ ls, (list width LabelPair.codec).Fits ls ∧ ls.map LabelPair.raw = ps :=
  exists_list hcnt fun p hp => exists_labelPair (h p hp)

variable {n : Nat}

theorem exists_u64 (h : n < 256 ^ 8) : ∃ m : UInt64, m.toNat = n :=
  ⟨UInt64.ofNat n, UInt64.toNat_ofNat_of_lt' h⟩

theorem exists_u16 (h : n < 256 ^ 2) : ∃ m : UInt16, m.toNat = n :=
  ⟨UInt16.ofNat n, UInt16.toNat_ofNat_of_lt' h⟩

theorem exists_u8 (h : n < 256 ^ 1) : ∃ m : UInt8, m.toNat = n :=
  ⟨UInt8.ofNat n, UInt8.toNat_ofNat_of_lt' h⟩

theorem exists_logEntry {r : Proto.LogEntry} (h : r.Valid) : ∃ e : LogEntry, LogEntry.codec.Fits e ∧ e.raw = r := by
  obtain ⟨ts, hts⟩ := exists_u64 h.fits.ts
  obtain ⟨severity, hsev⟩ := exists_u8 h.fits.severity
  obtain ⟨attributes, hattrs, hraw⟩ := exists_labels h.fits.count h.attributes
  exact ⟨⟨ts, severity, ⟨r.body, h.body⟩, attributes⟩, ⟨MetricsV2.u64_fits ts, MetricsV2.u8_fits severity,
    h.fits.body, hattrs⟩, by rw [LogEntry.raw, hts, hsev, hraw]⟩

theorem exists_logStream {r : Proto.LogStream} (h : r.Valid) :
    ∃ s : LogStream, LogStream.codec.Fits s ∧ s.raw = r := by
  obtain ⟨fingerprint, hfp⟩ := exists_u64 h.fits.fingerprint
  obtain ⟨labels, hlabs, hrawLabels⟩ := exists_labels h.fits.labelCount h.labels
  obtain ⟨entries, hents, hrawEntries⟩ :=
    exists_list h.fits.entryCount fun e he => exists_logEntry (h.entries e he)
  exact ⟨⟨fingerprint, labels, entries⟩, ⟨MetricsV2.u64_fits fingerprint, hlabs, hents⟩,
    by rw [LogStream.raw, hfp, hrawLabels, hrawEntries]⟩

theorem exists_scopeEntry {r : Bytes × Bytes} (hname : r.1.length < 256 ^ 1) (hutf8 : validUtf8 r.1 = true)
    (hver : r.2.length < 256 ^ 1) : ∃ s : ScopeEntry, ScopeEntry.codec.Fits s ∧ s.raw = r := by
  have hback := map_charByte_byteChar r.2
  refine ⟨⟨⟨r.1, hutf8⟩, r.2.map byteChar⟩, ⟨hname, ?_, ?_⟩, ?_⟩
  · show ((r.2.map byteChar).map charByte).length < 256 ^ 1
    rwa [hback]
  · show ((r.2.map byteChar).map charByte).map byteChar = r.2.map byteChar
    rw [hback]
  · rw [ScopeEntry.raw, hback]

theorem exists_spanEvent {r : DecodedEvent} (h : r.Valid) : ∃ e : SpanEvent, SpanEvent.codec.Fits e ∧ e.raw = r := by
  obtain ⟨ts, hts⟩ := exists_u64 h.fits.ts
  obtain ⟨attributes, hattrs, hraw⟩ := exists_labels h.fits.attributes.count h.attributes
  exact ⟨⟨ts, ⟨r.name, h.name⟩, attributes⟩, ⟨MetricsV2.u64_fits ts, h.fits.name, hattrs⟩,
    by rw [SpanEvent.raw, hts, hraw]⟩

theorem exists_spanLink {r : DecodedLink} (h : r.Valid) : ∃ l : SpanLink, SpanLink.codec.Fits l ∧ l.raw = r := by
  obtain ⟨attributes, hattrs, hraw⟩ := exists_labels h.fits.attributes.count h.attributes
  exact ⟨⟨r.traceId, r.spanId, attributes⟩, ⟨h.fits.traceId, h.fits.spanId, hattrs⟩, by rw [SpanLink.raw, hraw]⟩

theorem exists_span {r : Proto.Span} (h : r.Valid) : ∃ s : Span, Span.codec.Fits s ∧ s.raw = r := by
  have hf := h.fits
  obtain ⟨resourceIdx, hres⟩ := exists_u16 hf.resourceIdx
  obtain ⟨scopeIdx, hscope⟩ := exists_u16 hf.scopeIdx
  obtain ⟨kind, hkind⟩ := exists_u8 hf.kind
  obtain ⟨start, hstart⟩ := exists_u64 hf.startUnixNano
  obtain ⟨stop, hstop⟩ := exists_u64 hf.endUnixNano
  obtain ⟨code, hcode⟩ := exists_u8 hf.statusCode
  obtain ⟨attributes, hattrs, hrawAttributes⟩ := exists_labels hf.attributes.count h.attributes
  obtain ⟨events, hevs, hrawEvents⟩ :=
    exists_list hf.eventCount fun e he => exists_spanEvent (h.events e he)
  obtain ⟨links, hlinks, hrawLinks⟩ :=
    exists_list hf.linkCount fun l hl => exists_spanLink (h.links l hl)
  refine ⟨⟨resourceIdx, scopeIdx, r.traceId, r.spanId, r.parentSpanId, ⟨r.name, h.name⟩, kind, start,
    stop, code, ⟨r.statusMessage, h.statusMessage⟩, attributes, events, links⟩, ?_, ?_⟩
  · exact ⟨Codec.u16_fits _ resourceIdx, Codec.u16_fits _ scopeIdx, hf.traceId, hf.spanId,
      hf.parentSpanId, hf.name, MetricsV2.u8_fits kind, MetricsV2.u64_fits start,
      MetricsV2.u64_fits stop, MetricsV2.u8_fits code, hf.statusMessage, hattrs, hevs, hlinks⟩
  · rw [Span.raw, hres, hscope, hkind, hstart, hstop, hcode, hrawAttributes, hrawEvents, hrawLinks]

theorem exists_tracesBatch {r : Proto.TracesBatch} (h : r.Valid) :
    ∃ b : TracesBatch, TracesBatch.codec.Fits b ∧ b.raw = r := by
  have hf := h.fits
  obtain ⟨resources, hress, hrawResources⟩ := exists_list hf.resourceCount fun l hl =>
    exists_labels (hf.resources l hl).count (h.resources l hl)
  obtain ⟨scopes, hscopes, hrawScopes⟩ := exists_list hf.scopeCount fun s hs =>
    exists_scopeEntry (hf.scopes s hs).1 (h.scopes s hs) (hf.scopes s hs).2
  obtain ⟨spans, hspans, hrawSpans⟩ := exists_list hf.spanCount fun s hs => exists_span (h.spans s hs)
  exact ⟨⟨resources, scopes, spans⟩, ⟨hress, hscopes, hspans⟩,
    by rw [TracesBatch.raw, hrawResources, hrawScopes, hrawSpans]⟩

/-! ## Redaction between the codecs -/

def decode {α : Type} (x : Codec BinSchemaError α) (bytes : Bytes) : Except BinSchemaError α :=
  (x.read ⟨bytes, ()⟩).map Prod.fst

theorem decode_write {α : Type} {x : Codec BinSchemaError α} {a : α} (h : x.Fits a) :
    decode x (x.write a) = .ok a := by
  have hread := x.reads h ⟨[], ()⟩
  rw [Cursor.unread, append_nil] at hread
  rw [decode, hread]
  rfl

theorem redactLogsV1_write {b : LogsBatch} {out : Bytes} (h : redactLogsV1 (LogsBatch.codec.write b) = .ok out) :
    ∃ b', LogsBatch.codec.Fits b' ∧ LogsBatch.codec.write b' = LogsBatch.codec.write b ∧ decode LogsBatch.codec out =
    .ok b'.redact := by
  obtain ⟨-, -, streams, hredacts⟩ := redactLogsV1_ok.mp h
  obtain ⟨typed, hfits, hraw⟩ :=
    exists_list hredacts.count fun s hs => exists_logStream (hredacts.valid s hs)
  have hb : LogsBatch.raw ⟨typed⟩ = streams := hraw
  refine ⟨⟨typed⟩, hfits, ?_, ?_⟩
  · rw [logsBatch_write, hb, hredacts.payload]
  · rw [hredacts.output, ← hb, ← logsBatch_raw_redact, ← logsBatch_write]
    exact decode_write (logsBatch_fits_redact hfits)

theorem redactTracesV1_write {out : Bytes} (h : redactTracesV1 (TracesBatch.codec.write b) = .ok
    out) : ∃ b', TracesBatch.codec.Fits b' ∧ TracesBatch.codec.write b' = TracesBatch.codec.write b ∧ decode
    TracesBatch.codec out = .ok b'.redact := by
  obtain ⟨-, -, r, hvalid, hpay, rfl⟩ := redactTracesV1_ok.mp h
  obtain ⟨b', hfits, rfl⟩ := exists_tracesBatch hvalid
  refine ⟨b', hfits, ?_, ?_⟩
  · rw [tracesBatch_write b', hpay]
  · rw [← tracesBatch_raw_redact, ← tracesBatch_write]
    exact decode_write (tracesBatch_fits_redact hfits)

end Generated

end Scry.Proto
