import Scry.Pipeline.LogsPayload

/-! # Live rows and their stored twins

An appender that sits before the block builder keeps a copy of each record, and the query side makes a row of it
until the block is committed.
-/

open Scry.Lib Scry.Proto Scry.Block Scry.Pipeline

namespace Scry.Live

open List LogsBlockBuilder Except

structure LiveLogRecord where
  walShard : Nat
  walSeg : Nat
  tsUnixNano : Nat
  severity : Nat
  labels : Labels
  body : Bytes
  attributes : Labels
  deriving DecidableEq

/-! ## The retaining appenders -/

structure RetainingLogsAppender (α : Type) where
  inner : α
  streamLabels : Nat → Option Labels
  collected : List LiveLogRecord

namespace RetainingLogsAppender

variable {α : Type}

def new (inner : α) : RetainingLogsAppender α := ⟨inner, fun _ => none, []⟩

def observeStream (inner : LogsAppender α) (fingerprint : Nat) (labels : List (Bytes × Bytes))
    (a : RetainingLogsAppender α) : Option (RetainingLogsAppender α) := do
  let streamLabels := fun k => if k = fingerprint then some (lossyPairs labels) else a.streamLabels k
  let stored ← inner.observeStream fingerprint labels a.inner
  return { a with inner := stored, streamLabels := streamLabels }

def entryRecord (labels : Labels) (e : LogEntry) : LiveLogRecord where
  walShard := 0
  walSeg := 0
  tsUnixNano := e.tsUnixNano
  severity := e.severity
  labels := labels
  body := utf8Lossy e.body
  attributes := lossyPairs e.attributes

def appendEntry (inner : LogsAppender α) (fingerprint : Nat) (e : LogEntry)
    (a : RetainingLogsAppender α) : Option (RetainingLogsAppender α) := do
  let collected :=
    match a.streamLabels fingerprint with
    | some labels => a.collected ++ [entryRecord labels e]
    | none => a.collected
  let stored ← inner.appendEntry fingerprint e a.inner
  return { a with inner := stored, collected := collected }

def appender (inner : LogsAppender α) : LogsAppender (RetainingLogsAppender α) :=
  ⟨observeStream inner, appendEntry inner⟩

end RetainingLogsAppender

structure RetainingLogsV2Appender (α : Type) where
  inner : α
  collected : List LiveLogRecord

namespace RetainingLogsV2Appender

variable {α : Type} (displayDouble : Nat → Bytes)

def new (inner : α) : RetainingLogsV2Appender α := ⟨inner, []⟩

def project (r : CanonicalLogRecord) : Except (Fault String) LiveLogRecord := do
  let ts := if r.timeUnixNano ≠ 0 then r.timeUnixNano else r.observedTimeUnixNano
  let severity ← toU8 r.severityNumber "severity_number does not fit u8"
  let resource ← entriesOf r.resourceAttributes "resource_attributes is not a map"
  let labels ← recordLabels displayDouble r resource
  let attributes ← entriesOf r.attributes "attributes is not a map"
  let attributes ← typedTexts displayDouble attributes
  let body ← orPanic (canonicalText displayDouble r.body)
  return ⟨0, 0, ts, severity, labels, body, attributes⟩

def record (inner : LogsV2Appender α) (r : CanonicalLogRecord) (a : RetainingLogsV2Appender α) :
    Except (Fault String) (RetainingLogsV2Appender α) := do
  let stored ← inner.record r a.inner
  let live ← project displayDouble r
  return ⟨stored, a.collected ++ [live]⟩

def appender (inner : LogsV2Appender α) : LogsV2Appender (RetainingLogsV2Appender α) where
  beginBatchVersion rawVersion count a := do
    let stored ← inner.beginBatchVersion rawVersion count a.inner
    return { a with inner := stored }
  record := record displayDouble inner

end RetainingLogsV2Appender

variable (hash : Bytes → UInt64)

def retainBatch (displayDouble : Nat → Bytes) (receivedNs : UInt64)
    (payload : Bytes) : Option (List LiveLogRecord × LogsBlockBuilder) := do
  let batch ← transformLogs receivedNs payload
  if isLogsV2 payload then
    let appender := RetainingLogsV2Appender.appender displayDouble
      (logsV2Appender hash displayDouble)
    let a ← (decodeLogsBatchV2Into batch .default appender (.new .new)).toOption
    return (a.collected, a.inner)
  else
    let appender := RetainingLogsAppender.appender logsAppender
    let a ← (decodeLogsBatchInto batch appender (.new .new)).toOption
    return (a.collected, a.inner)

/-! ## The live table -/

structure LiveLogRow where
  tsUnixNano : Nat
  severity : Nat
  body : Bytes
  labels : Labels
  attributes : Labels
  fidelity : Fidelity
  deriving DecidableEq

/-- The live protocol has no fidelity fields. -/
def liveLogRow (r : LiveLogRecord) : LiveLogRow where
  tsUnixNano := r.tsUnixNano
  severity := r.severity
  body := r.body
  labels := r.labels
  attributes := r.attributes
  fidelity := .absent

structure LogsTableRow where
  streamFingerprint : Nat
  tsUnixNano : Nat
  severity : Nat
  body : Bytes
  attributes : Labels
  fidelity : Fidelity
  labels : Labels
  deriving DecidableEq

def buildLiveLogsBatch (rows : List LiveLogRow) : List LogsTableRow :=
  rows.map fun r =>
    { streamFingerprint := fingerprint hash r.labels
      tsUnixNano := r.tsUnixNano
      severity := r.severity
      body := r.body
      attributes := r.attributes
      fidelity := r.fidelity
      labels := r.labels }

/-- A live row and a row of the builder agree on all that both have. -/
@[mk_iff]
structure Twin (b : LogsBlockBuilder) (live : LogsTableRow) (stored : LogRow) : Prop where
  fingerprint : live.streamFingerprint = stored.fingerprint
  ts : live.tsUnixNano = stored.ts
  severity : live.severity = stored.severity
  body : live.body = stored.body
  labels : b.labelsOf stored.fingerprint = some live.labels
  attributes : live.attributes = stored.attributes

instance (b : LogsBlockBuilder) (live : LogsTableRow) (stored : LogRow) : Decidable (Twin b live stored) :=
  decidable_of_iff' _ (twin_iff b live stored)

/-! ## What the decorators keep -/

namespace RetainingLogsAppender

variable {α : Type} {inner : LogsAppender α} {a a' : RetainingLogsAppender α} {fingerprint : Nat} {labels : Labels}

theorem appendEntry_ok {e : LogEntry}
    (hl : a.streamLabels fingerprint = some labels) (h : appendEntry inner fingerprint e a = some a') :
    inner.appendEntry fingerprint e a.inner = some a'.inner ∧ a'.streamLabels = a.streamLabels ∧ a'.collected =
    a.collected ++ [entryRecord labels e] := by
  simp only [appendEntry, hl, Option.bind_eq_bind, Option.bind_eq_some_iff] at h
  obtain ⟨stored, hstored, hpure⟩ := h
  cases hpure
  exact ⟨hstored, rfl, rfl⟩

theorem appendEntry_entries {es : List LogEntry}
    (hl : a.streamLabels fingerprint = some labels) (h : es.foldlM (fun a e => appendEntry inner fingerprint e a) a =
    some a') : es.foldlM (fun a e => inner.appendEntry fingerprint e a) a.inner = some a'.inner ∧ a'.collected =
    a.collected ++ es.map (entryRecord labels) := by
  induction es generalizing a with
  | nil =>
    cases h
    exact ⟨rfl, by simp⟩
  | cons e es ih =>
    rw [foldlM_cons, Option.bind_eq_bind, Option.bind_eq_some_iff] at h
    obtain ⟨a₁, he, hrest⟩ := h
    obtain ⟨hstored, hkept, hone⟩ := appendEntry_ok hl he
    obtain ⟨hinner, hcoll⟩ := ih (hkept ▸ hl) hrest
    refine ⟨?_, ?_⟩
    · rw [foldlM_cons, hstored]
      exact hinner
    · rw [hcoll, hone, append_assoc]
      rfl

theorem appender_stream {s : LogStream} (h : (appender inner).stream a s = some a') : inner.stream a.inner s = some
    a'.inner ∧ a'.collected = a.collected ++ s.entries.map (entryRecord (lossyPairs s.labels)) := by
  simp only [LogsAppender.stream, appender, observeStream, Option.bind_eq_bind, Option.bind_eq_some_iff]
    at h ⊢
  obtain ⟨_, ⟨stored, hstored, hobs⟩, hents⟩ := h
  cases hobs
  obtain ⟨hinner, hcoll⟩ := appendEntry_entries (if_pos rfl) hents
  exact ⟨⟨stored, hstored, hinner⟩, hcoll⟩

theorem appender_streams {streams : List LogStream} (h : streams.foldlM (appender inner).stream a = some a') :
    streams.foldlM inner.stream a.inner = some a'.inner ∧ a'.collected = a.collected ++ streams.flatMap
    fun s => s.entries.map (entryRecord (lossyPairs s.labels)) := by
  induction streams generalizing a with
  | nil =>
    cases h
    exact ⟨rfl, by simp⟩
  | cons s streams ih =>
    rw [foldlM_cons, Option.bind_eq_bind, Option.bind_eq_some_iff] at h
    obtain ⟨a₁, hs, hrest⟩ := h
    obtain ⟨hstr, hcoll⟩ := appender_stream hs
    obtain ⟨hinner, hcoll'⟩ := ih hrest
    refine ⟨?_, ?_⟩
    · rw [foldlM_cons, hstr]
      exact hinner
    · rw [hcoll', hcoll, flatMap_cons, append_assoc]

end RetainingLogsAppender

namespace RetainingLogsV2Appender

variable {α : Type} {displayDouble : Nat → Bytes} {inner : LogsV2Appender α}
  {a a' : RetainingLogsV2Appender α}

theorem record_ok {r : CanonicalLogRecord} (h : record displayDouble inner r a = .ok a') : ∃ live, project
    displayDouble r = .ok live ∧ inner.record r a.inner = .ok a'.inner ∧ a'.collected = a.collected ++ [live] := by
  simp only [record, except_bind_ok] at h
  obtain ⟨stored, hstored, live, hlive, hpure⟩ := h
  cases hpure
  exact ⟨live, hlive, hstored, rfl⟩

theorem appender_records {records : List CanonicalLogRecord} (h : records.foldlM
    (fun a r => (record displayDouble inner r a).mapError Fault.ofAppender) a = .ok a') : records.foldlM
    (fun a r => (inner.record r a).mapError Fault.ofAppender) a.inner = .ok a'.inner ∧ ∃ lives, a'.collected =
    a.collected ++ lives ∧ List.Forall₂ (fun r live => project displayDouble r = .ok live) records lives := by
  induction records generalizing a with
  | nil =>
    cases h
    exact ⟨rfl, [], by simp, .nil⟩
  | cons r records ih =>
    rw [foldlM_cons, except_bind_ok] at h
    obtain ⟨a₁, hr, hrest⟩ := h
    obtain ⟨live, hlive, hstored, hcoll⟩ := record_ok (mapError_ok.mp hr)
    obtain ⟨hinner, lives, hcoll', hall⟩ := ih hrest
    refine ⟨?_, live :: lives, ?_, .cons hlive hall⟩
    · rw [foldlM_cons, except_bind_ok]
      exact ⟨a₁.inner, mapError_ok.mpr hstored, hinner⟩
    · rw [hcoll', hcoll, append_assoc]
      rfl

end RetainingLogsV2Appender

/-! ## Twins -/

variable (hash : Bytes → UInt64) (displayDouble : Nat → Bytes)

/-- No earlier stream of the batch has its fingerprint with other labels. -/
def StreamIdentified (streams : List LogStream) (s : LogStream) : Prop :=
  s.fingerprint = fingerprint hash (lossyPairs s.labels) ∧
    ∀ first ∈ streams.find? fun t => t.fingerprint = s.fingerprint,
      lossyPairs first.labels = lossyPairs s.labels

/-- The two byte strings made of the labels have one hash. -/
def RecordIdentified (r : CanonicalLogRecord) : Prop :=
  ∀ labels, labelsOfRecord displayDouble r = .ok labels →
    fingerprint hash labels = streamFingerprint hash labels

/-- Every record has the fingerprint that its labels have in the live table. -/
def Identified (receivedNs : UInt64) (payload : Bytes) : Prop :=
  ∀ batch, transformLogs receivedNs payload = some batch →
    if isLogsV2 payload then
      ∀ records, decodeLogsBatchV2Into batch .default collecting [] = .ok records →
        ∀ r ∈ records, RecordIdentified hash displayDouble r
    else
      ∀ streams, decodeLogsBatch batch = .ok streams →
        ∀ s ∈ streams, s.entries ≠ [] → StreamIdentified hash streams s

section Twins

variable {hash : Bytes → UInt64} {displayDouble : Nat → Bytes}

theorem forall₂_iff_forall {ρ α β : Type} {R : ρ → α → Prop} {S : ρ → β → Prop} {T : α → β → Prop} {C : ρ → Prop}
    {rs : List ρ} {xs : List α} {ys : List β} (hxs : List.Forall₂ R rs xs) (hys : List.Forall₂ S rs ys)
    (h : ∀ r x y, R r x → S r y → (T x y ↔ C r)) : List.Forall₂ T xs ys ↔ ∀ r ∈ rs, C r := by
  induction hxs generalizing ys with
  | nil =>
    cases hys
    simp
  | cons hx _ ih =>
    cases hys with
    | cons hy hys =>
      rw [forall₂_cons, h _ _ _ hx hy, ih hys]
      simp

variable {b : LogsBlockBuilder}

theorem buildLiveLogsBatch_forall₂ {lives : List LiveLogRecord} {rows : List LogRow} :
    List.Forall₂ (Twin b) (buildLiveLogsBatch hash (lives.map liveLogRow)) rows ↔ List.Forall₂
    (fun live row => fingerprint hash live.labels = row.fingerprint ∧ live.tsUnixNano = row.ts ∧ live.severity =
    row.severity ∧ live.body = row.body ∧ b.labelsOf row.fingerprint = some live.labels ∧ live.attributes =
    row.attributes) lives rows := by
  simp only [buildLiveLogsBatch, map_map, forall₂_map_left_iff, twin_iff, Function.comp_apply, liveLogRow]

def streamEntries (streams : List LogStream) : List (LogStream × LogEntry) :=
  streams.flatMap fun s => s.entries.map fun e => (s, e)

theorem flatMap_entries {β : Type} (streams : List LogStream) (f : LogStream → LogEntry → β) :
    (streams.flatMap fun s => s.entries.map (f s)) = (streamEntries streams).map fun p => f p.1 p.2 := by
  simp [streamEntries, map_flatMap, Function.comp_def]

variable {streams : List LogStream}

theorem mem_streamEntries {p : LogStream × LogEntry} :
    p ∈ streamEntries streams ↔ p.1 ∈ streams ∧ p.2 ∈ p.1.entries := by
  obtain ⟨s, e⟩ := p
  simp only [streamEntries, mem_flatMap, mem_map, Prod.mk.injEq]
  constructor
  · rintro ⟨s, hs, e, he, rfl, rfl⟩
    exact ⟨hs, he⟩
  · rintro ⟨hs, he⟩
    exact ⟨s, hs, e, he, rfl, rfl⟩

theorem streamIdentified_iff {s : LogStream} (hs : s ∈ streams) :
    StreamIdentified hash streams s ↔ fingerprint hash (lossyPairs s.labels) = s.fingerprint ∧
      (streams.find? fun t => t.fingerprint = s.fingerprint).map (fun t => lossyPairs t.labels) =
        some (lossyPairs s.labels) := by
  unfold StreamIdentified
  refine and_congr eq_comm ?_
  cases hfind : streams.find? fun t => t.fingerprint = s.fingerprint with
  | none =>
    have hnot := find?_eq_none.mp hfind s hs
    simp at hnot
  | some first => simp

theorem twins_v1 {a : RetainingLogsAppender LogsBlockBuilder}
    (h : streams.foldlM (RetainingLogsAppender.appender logsAppender).stream (.new .new) = some a) :
    List.Forall₂ (Twin a.inner) (buildLiveLogsBatch hash (a.collected.map liveLogRow)) a.inner.rows ↔ ∀ s ∈ streams,
    s.entries ≠ [] → StreamIdentified hash streams s := by
  obtain ⟨hinner, hcoll⟩ := RetainingLogsAppender.appender_streams h
  obtain ⟨b, hfold, hrows, hdict⟩ := logsAppender_streams streams
    (b := new) rfl
  obtain rfl : a.inner = b := Option.some.inj (hinner.symm.trans hfold)
  have hlabs (s : LogStream) : a.inner.labelsOf s.fingerprint =
      (streams.find? fun t => t.fingerprint = s.fingerprint).map fun t => lossyPairs t.labels := by
    rw [labelsOf, hdict, Table.lookup_foldl_insertIgnore, find?_map]
    simp only [new, Table.lookup_empty, Option.none_or, Option.map_map,
      Function.comp_def, ownedStream]
    rfl
  have hrows' := hrows.trans (flatMap_entries streams fun s => entryRow s.fingerprint)
  have hlives : a.collected = (streamEntries streams).map fun p =>
      RetainingLogsAppender.entryRecord (lossyPairs p.1.labels) p.2 :=
    hcoll.trans (flatMap_entries streams fun s =>
      RetainingLogsAppender.entryRecord (lossyPairs s.labels))
  rw [buildLiveLogsBatch_forall₂, hrows', hlives, forall₂_map_left_iff, forall₂_map_right_iff, forall₂_same]
  constructor
  · intro hall s hs hents
    obtain ⟨e, he⟩ := exists_mem_of_ne_nil _ hents
    obtain ⟨hfp, -, -, -, hfile, -⟩ := hall (s, e) (mem_streamEntries.mpr ⟨hs, he⟩)
    exact (streamIdentified_iff hs).mpr ⟨hfp, (hlabs s).symm.trans hfile⟩
  · rintro hall ⟨s, e⟩ hp
    obtain ⟨hs, he⟩ := mem_streamEntries.mp hp
    obtain ⟨hfp, hfile⟩ := (streamIdentified_iff hs).mp (hall s hs (ne_nil_of_mem he))
    exact ⟨hfp, rfl, rfl, rfl, (hlabs s).trans hfile, rfl⟩

theorem twins_record {r : CanonicalLogRecord} {live : LiveLogRecord} {row : LogRow}
    (hlive : RetainingLogsV2Appender.project displayDouble r = .ok live)
    (hrow : Stores hash displayDouble b.streamDict r row) : (fingerprint hash live.labels = row.fingerprint ∧
    live.tsUnixNano = row.ts ∧ live.severity = row.severity ∧ live.body = row.body ∧ b.labelsOf row.fingerprint = some
    live.labels ∧ live.attributes = row.attributes) ↔ RecordIdentified hash displayDouble r := by
  simp only [RetainingLogsV2Appender.project, except_bind_ok, orPanic_ok] at hlive
  obtain ⟨severity, hsev, resource, hres, labels, hlabs, entries, hents, texts, htexts,
    body, hbody, hpure⟩ := hlive
  cases hpure
  have hown : labelsOfRecord displayDouble r = .ok labels := by
    simp only [labelsOfRecord, except_bind_ok]
    exact ⟨resource, hres, hlabs⟩
  obtain ⟨labels', hlabs', hfp, hfile⟩ := hrow.stream
  obtain rfl : labels = labels' := ok.inj (hown.symm.trans hlabs')
  obtain ⟨entries', hents', htexts'⟩ := hrow.attributes
  obtain rfl : entries = entries' := ok.inj (hents.symm.trans hents')
  have hts : (if r.timeUnixNano ≠ 0 then r.timeUnixNano else r.observedTimeUnixNano) = row.ts := by
    have hrow := hrow.ts
    unfold eventTime at hrow
    split at hrow
    · rename_i htime
      rw [if_pos htime]
      exact ok.inj hrow
    · rename_i htime
      rw [if_neg htime]
      split at hrow
      · exact ok.inj hrow
      · cases hrow
  have hsame : severity = row.severity ∧ body = row.body ∧ texts = row.attributes :=
    ⟨ok.inj (hsev.symm.trans hrow.severity), Option.some.inj (hbody.symm.trans hrow.body),
      ok.inj (htexts.symm.trans htexts')⟩
  rw [hfp] at hfile ⊢
  constructor
  · rintro ⟨hhash, -⟩ labels' hlabs'
    obtain rfl : labels = labels' := ok.inj (hown.symm.trans hlabs')
    exact hhash
  · intro hid
    exact ⟨hid labels hown, hts, hsame.1, hsame.2.1, by rw [labelsOf, hfile]; rfl,
      hsame.2.2⟩

theorem twins_v2 {records : List CanonicalLogRecord} {a : RetainingLogsV2Appender LogsBlockBuilder} (hb : b.rows = [])
    (h : records.foldlM (fun a r => (RetainingLogsV2Appender.record displayDouble
      (logsV2Appender hash displayDouble) r a).mapError Fault.ofAppender) ⟨b, []⟩ = .ok a) :
    List.Forall₂ (Twin a.inner) (buildLiveLogsBatch hash (a.collected.map liveLogRow)) a.inner.rows ↔
      ∀ r ∈ records, RecordIdentified hash displayDouble r := by
  obtain ⟨hinner, lives, hlives, hprojects⟩ := RetainingLogsV2Appender.appender_records h
  obtain ⟨rows, hrows, hstores, -⟩ := record_records hinner
  rw [nil_append] at hlives
  rw [hb, nil_append] at hrows
  rw [buildLiveLogsBatch_forall₂, hlives, hrows]
  exact forall₂_iff_forall hprojects hstores fun r live row hlive hrow => twins_record hlive hrow

/-- **Live and stored twins.** The rows agree just when each record is filed under the fingerprint that its
labels have in the live table. -/
theorem live_twins_iff {receivedNs : UInt64} {payload : Bytes} {lives : List LiveLogRecord}
    {builder : LogsBlockBuilder} (h : retainBatch hash displayDouble receivedNs payload = some (lives, builder)) :
    List.Forall₂ (Twin builder) (buildLiveLogsBatch hash (lives.map liveLogRow)) builder.rows ↔ Identified hash
    displayDouble receivedNs payload := by
  simp only [retainBatch, Option.bind_eq_bind, Option.bind_eq_some_iff] at h
  obtain ⟨batch, hbatch, h⟩ := h
  have hidentified : Identified hash displayDouble receivedNs payload ↔
      if isLogsV2 payload then
        ∀ records, decodeLogsBatchV2Into batch .default collecting [] = .ok records →
          ∀ r ∈ records, RecordIdentified hash displayDouble r
      else
        ∀ streams, decodeLogsBatch batch = .ok streams →
          ∀ s ∈ streams, s.entries ≠ [] → StreamIdentified hash streams s := by
    simp only [Identified, hbatch, Option.some.injEq, forall_eq']
  rw [hidentified]
  split at h
  · rename_i hv2
    rw [if_pos hv2]
    simp only [Option.bind_eq_some_iff, toOption_eq_some, decode_ok] at h
    obtain ⟨a, ⟨rawVersion, records, hvalid, start, hbegin, hfold⟩, hpair⟩ := h
    cases hpair
    obtain ⟨b, hb, hstart⟩ := except_bind_ok.mp hbegin
    cases hstart
    cases hb
    rw [twins_v2 rfl hfold]
    constructor
    · intro hall records' hrecords'
      obtain ⟨_, hvalid'⟩ := decode_collecting.mp hrecords'
      cases hvalid.symm.trans hvalid'
      exact hall
    · intro hall
      exact hall records (decode_collecting.mpr ⟨rawVersion, hvalid⟩)
  · rename_i hv1
    rw [if_neg hv1]
    simp only [Option.bind_eq_some_iff, toOption_eq_some, decodeLogsBatchInto,
      except_bind_ok, mapError_ok, orPanic_ok] at h
    obtain ⟨a, ⟨streams, hstreams, hfold⟩, hpair⟩ := h
    cases hpair
    rw [twins_v1 hfold, hstreams]
    simp only [ok.injEq, forall_eq']

def fnv1a (bytes : Bytes) : UInt64 :=
  bytes.foldl (fun h b => (h ^^^ b.toUInt64) * 0x100000001B3) 0xCBF29CE484222325

def plainStream (fingerprint : Nat) : LogStream := ⟨fingerprint, [], [⟨5, 9, ascii "started", []⟩]⟩

def serviceRecord : RecordTree :=
  { secretRecord with
    resourceAttributes := [(⟨ascii "service", by decide +kernel⟩, .string ⟨ascii "api", by decide +kernel⟩)]
    severityNumber := 9 }

theorem live_twins_iff_plain : ∃ lives builder, retainBatch fnv1a (fun _ => []) 1
    (batchWire [plainStream 0xCBF29CE484222325]) = some (lives, builder) ∧ Identified fnv1a (fun _ => []) 1
    (batchWire [plainStream 0xCBF29CE484222325]) := by
  have htwins : (retainBatch fnv1a (fun _ => []) 1 (batchWire [plainStream 0xCBF29CE484222325])).any
      (fun p => List.Forall₂ (Twin p.2) (buildLiveLogsBatch fnv1a (p.1.map liveLogRow)) p.2.rows) = true := by
    decide +kernel
  obtain ⟨⟨lives, builder⟩, hretain, htwins⟩ := (Option.any_eq_true _ _).mp htwins
  exact ⟨lives, builder, hretain, (live_twins_iff hretain).mp (of_decide_eq_true htwins)⟩

theorem live_twins_differ : (∃ lives builder, retainBatch fnv1a (fun _ => []) 1 (batchWire [plainStream 7]) = some
    (lives, builder) ∧ ¬ List.Forall₂ (Twin builder) (buildLiveLogsBatch fnv1a (lives.map liveLogRow)) builder.rows) ∧
    ∃ lives builder, retainBatch fnv1a (fun _ => []) 1 (batchV2Wire logsRawVersionV1 [serviceRecord]) = some
    (lives, builder) ∧ ¬ List.Forall₂ (Twin builder) (buildLiveLogsBatch fnv1a (lives.map liveLogRow))
    builder.rows := by
  have hdiffer : ∀ payload ∈ [batchWire [plainStream 7], batchV2Wire logsRawVersionV1 [serviceRecord]],
      (retainBatch fnv1a (fun _ => []) 1 payload).any (fun p =>
        ¬ List.Forall₂ (Twin p.2) (buildLiveLogsBatch fnv1a (p.1.map liveLogRow)) p.2.rows) = true := by
    decide +kernel
  simp only [forall_mem_cons, Option.any_eq_true, Prod.exists, decide_eq_true_eq] at hdiffer
  exact ⟨hdiffer.1, hdiffer.2.1⟩

end Twins

end Scry.Live
