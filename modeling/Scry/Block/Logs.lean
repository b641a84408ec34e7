import Mathlib.Data.List.Forall2
import Mathlib.Data.List.Sort
import Scry.Block.Meta
import Scry.Lib.Effects
import Scry.Lib.Table
import Scry.Proto.LogsV1
import Scry.Proto.LogsV2
import Scry.Proto.Text

/-! # The logs block builder

`LogsBlockBuilder`, which both decoders of logs feed. A v1 stream comes with a fingerprint of the
client's choice; a v2 record is filed under a hash of its labels.
-/

open Scry.Lib Scry.Proto

namespace Scry.Block

open Table List

inductive LogsSchema where
  | v1
  | v2
  | v3
  deriving DecidableEq

def LogsSchema.version : LogsSchema → Nat
  | .v1 => 1
  | .v2 => 2
  | .v3 => 3

abbrev Labels := List (Bytes × Bytes)

structure OwnedStream where
  fingerprint : Nat
  labels : Labels
  deriving DecidableEq

/-- `stream_dict`, and in its keys `stream_seen`. -/
abbrev StreamDict := Table Nat OwnedStream OwnedStream.fingerprint

/-- The columns that v2 adds. A v1 row has none of them. -/
structure Fidelity where
  observedTs : Option Nat
  severityText : Option Bytes
  eventName : Option Bytes
  traceId : Option Bytes
  spanId : Option Bytes
  traceFlags : Option Nat
  rawRecordVersion : Option Nat
  rawRecord : Option Bytes
  receivedTs : Option Nat
  deriving DecidableEq

def Fidelity.absent : Fidelity := ⟨none, none, none, none, none, none, none, none, none⟩

structure LogRow where
  fingerprint : Nat
  ts : Nat
  severity : Nat
  body : Bytes
  attributes : Labels
  fidelity : Fidelity
  deriving DecidableEq

structure BlockBuilderConfig where
  maxRows : Nat
  targetBytes : Nat
  deriving DecidableEq

structure LogsBlockBuilder where
  rows : List LogRow
  schema : Option LogsSchema
  streamDict : StreamDict
  bytesEst : Nat
  tsMin : Nat
  tsMax : Nat

def labelBytes (labels : Labels) : Nat := (labels.map fun p => p.1.length + p.2.length).sum

namespace LogsBlockBuilder

def new : LogsBlockBuilder where
  rows := []
  schema := none
  streamDict := .empty
  bytesEst := 0
  tsMin := 2 ^ 64 - 1
  tsMax := 0

def isEmpty (b : LogsBlockBuilder) : Bool := b.rows.isEmpty

def shouldClose (cfg : BlockBuilderConfig) (b : LogsBlockBuilder) : Bool :=
  cfg.maxRows ≤ b.rows.length || cfg.targetBytes ≤ b.bytesEst

def contentSchemaKey (b : LogsBlockBuilder) : Option Nat := b.schema.map LogsSchema.version

def labelsOf (b : LogsBlockBuilder) (fingerprint : Nat) : Option Labels :=
  (b.streamDict.lookup fingerprint).map OwnedStream.labels

def collides (b other : LogsBlockBuilder) : Bool :=
  other.streamDict.rows.any fun incoming =>
    (b.labelsOf incoming.fingerprint).any fun labels => labels != incoming.labels

/-- The new contents of `self`; `none` when an assertion fails. -/
def merge (b other : LogsBlockBuilder) : Option LogsBlockBuilder :=
  if other.isEmpty then some b
  else if !b.isEmpty && b.schema != other.schema then none
  else if !b.isEmpty && b.collides other then none
  else
    -- No dictionary of streams without rows is carried into the adopted block.
    let dict := if b.isEmpty then .empty else b.streamDict
    some
      { rows := b.rows ++ other.rows
        schema := if b.isEmpty then other.schema else b.schema
        streamDict := other.streamDict.rows.foldl insertIgnore dict
        bytesEst := b.bytesEst + other.bytesEst
        tsMin := min b.tsMin other.tsMin
        tsMax := max b.tsMax other.tsMax }

end LogsBlockBuilder

/-! ## Version 1 -/

/-- A callback that panics gives `none`. -/
structure LogsAppender (α : Type) where
  observeStream : (fingerprint : Nat) → Labels → α → Option α
  appendEntry : (fingerprint : Nat) → LogEntry → α → Option α

def LogsAppender.stream {α : Type} (appender : LogsAppender α) (a : α) (s : LogStream) : Option α := do
  let a ← appender.observeStream s.fingerprint s.labels a
  s.entries.foldlM (fun a e => appender.appendEntry s.fingerprint e a) a

/-- Callbacks that precede a decode error are left out: whoever gets it resets the appender. -/
def decodeLogsBatchInto {α : Type} (payload : Bytes) (appender : LogsAppender α) (a : α) :
    Except (Fault BinSchemaError) α := do
  let streams ← (decodeLogsBatch payload).mapError .error
  orPanic (streams.foldlM appender.stream a)

def lossyPairs (pairs : List (Bytes × Bytes)) : Labels :=
  pairs.map fun p => (utf8Lossy p.1, utf8Lossy p.2)

namespace LogsBlockBuilder

/-- `self.schema.is_none() || self.schema == Some(LogsSchema::V1)` -/
def takesV1 (b : LogsBlockBuilder) : Bool := b.schema = none || b.schema = some .v1

variable (fingerprint : Nat) (e : LogEntry)

def observeStream (labels : List (Bytes × Bytes)) (b : LogsBlockBuilder) :
    Option LogsBlockBuilder :=
  if b.takesV1 then
    some { b with
      schema := some .v1
      streamDict := b.streamDict.insertIgnore ⟨fingerprint, lossyPairs labels⟩ }
  else none

def entryRow : LogRow where
  fingerprint := fingerprint
  ts := e.tsUnixNano
  severity := e.severity
  body := utf8Lossy e.body
  attributes := lossyPairs e.attributes
  fidelity := .absent

def appendEntry (b : LogsBlockBuilder) : Option LogsBlockBuilder :=
  if b.takesV1 then
    let row := entryRow fingerprint e
    some { b with
      rows := b.rows ++ [row]
      schema := some .v1
      bytesEst := b.bytesEst + (17 + row.body.length + labelBytes row.attributes)
      tsMin := min b.tsMin e.tsUnixNano
      tsMax := max b.tsMax e.tsUnixNano }
  else none

def logsAppender : LogsAppender LogsBlockBuilder := ⟨observeStream, appendEntry⟩

end LogsBlockBuilder

/-! ## Version 2 -/

def scopeNameLabel : Bytes := ascii "otel.scope.name"

def scopeVersionLabel : Bytes := ascii "otel.scope.version"

def require (p : Prop) [Decidable p] (message : String) : Except (Fault String) Unit :=
  if p then .ok () else .error (.error message)

def toU8 (value : Int) (message : String) : Except (Fault String) Nat :=
  if 0 ≤ value ∧ value ≤ 255 then .ok value.toNat else .error (.error message)

/-- `map_iter().ok_or_else(..)`, as the entries it yields. -/
def entriesOf (value : Bytes) (message : String) : Except (Fault String) (List (Bytes × Bytes)) :=
  match mapIter value with
  | none => .error .panic
  | some none => .error (.error message)
  | some (some entries) => .ok entries

def labelLe (p q : Bytes × Bytes) : Prop := p.1 < q.1 ∨ p.1 = q.1 ∧ p.2 ≤ q.2

instance : DecidableRel labelLe := fun _ _ => inferInstanceAs (Decidable (_ ∨ _ ∧ _))

/-- By key, then by value: all ways to sort agree. -/
def sortLabels (labels : Labels) : Labels := labels.insertionSort labelLe

/-- Left out where the resource has the key or the value is missing or empty. -/
def scopeLabel (resource : List (Bytes × Bytes)) (key : Bytes) (value : Option Bytes) : Labels :=
  if resource.any fun e => e.1 == key then []
  else match value with
    | some value => if value = [] then [] else [(key, value)]
    | none => []

def firstDuplicate : Labels → Option Bytes
  | p :: q :: rest => if p.1 = q.1 then some p.1 else firstDuplicate (q :: rest)
  | _ => none

def duplicateLabel (labels : Labels) : String :=
  "duplicate stream label " ++
    ((firstDuplicate labels).bind fun key => String.fromUTF8? ⟨key.toArray⟩).getD ""

def delimited (labels : Labels) : Bytes :=
  labels.flatMap fun p => toBe 8 p.1.length ++ p.1 ++ (toBe 8 p.2.length ++ p.2)

/-- The bytes that the fingerprint of `scry_proto` is the hash of. -/
def nulSeparated (labels : Labels) : Bytes :=
  (sortLabels labels).flatMap fun p => p.1 ++ (0 :: (p.2 ++ [0]))

section Identity

open List

/-- The texts between the zero bytes of `nulSeparated`. -/
def nulPieces (labels : Labels) : List Bytes :=
  (sortLabels labels).flatMap fun p => p.1.splitOn 0 ++ p.2.splitOn 0

def NulFree (labels : Labels) : Prop := ∀ p ∈ labels, 0 ∉ p.1 ∧ 0 ∉ p.2

theorem labelLe_antisymm {p q : Bytes × Bytes} (h : labelLe p q) (h' : labelLe q p) : p = q := by
  unfold labelLe at h h'
  exact Prod.ext (by grind) (by grind)

theorem pairwise_sortLabels (labels : Labels) : (sortLabels labels).Pairwise labelLe := by
  have htotal : Std.Total labelLe := ⟨fun p q => by unfold labelLe; grind⟩
  have htrans : IsTrans _ labelLe := ⟨fun p q r => by unfold labelLe; grind⟩
  exact pairwise_insertionSort _ labels

variable {labels labels' : Labels}

theorem sortLabels_eq_of_perm (h : labels.Perm labels') :
    sortLabels labels = sortLabels labels' :=
  Perm.eq_of_pairwise (fun _ _ _ _ => labelLe_antisymm) (pairwise_sortLabels _) (pairwise_sortLabels _)
    ((perm_insertionSort _ _).trans (h.trans (perm_insertionSort _ _).symm))

theorem splitOn_nulSeparated (labels : Labels) :
    (nulSeparated labels).splitOn 0 = nulPieces labels ++ [[]] := by
  unfold nulSeparated nulPieces
  induction sortLabels labels with
  | nil => rfl
  | cons p rest ih => simp [flatMap_cons, splitOn_append_cons_self, ih]

theorem nulSeparated_eq_iff_pieces :
    nulSeparated labels = nulSeparated labels' ↔ nulPieces labels = nulPieces labels' := by
  constructor
  · intro h
    have hsplit := congrArg (splitOn 0) h
    rw [splitOn_nulSeparated, splitOn_nulSeparated] at hsplit
    exact append_cancel_right hsplit
  · intro h
    have hjoin := congrArg (fun pieces => [0].intercalate (pieces ++ [[]])) h
    simp only [← splitOn_nulSeparated, intercalate_splitOn] at hjoin
    exact hjoin

theorem eq_of_pairs {l l' : Labels} (h : (l.flatMap fun p => [p.1, p.2]) = l'.flatMap fun p => [p.1, p.2]) :
    l = l' := by
  induction l generalizing l' with
  | nil => cases l' with
    | nil => rfl
    | cons p' rest' => simp at h
  | cons p rest ih => cases l' with
    | nil => simp at h
    | cons p' rest' =>
      simp only [flatMap_cons, cons_append, nil_append, cons.injEq] at h
      rw [ih h.2.2, Prod.ext h.1 h.2.1]

theorem nulPieces_of_nulFree {labels : Labels} (h : NulFree labels) :
    nulPieces labels = (sortLabels labels).flatMap fun p => [p.1, p.2] := by
  unfold nulPieces
  refine flatMap_congr fun p hp => ?_
  have hp := h p ((perm_insertionSort labelLe labels).mem_iff.mp hp)
  rw [splitOn_eq_singleton hp.1, splitOn_eq_singleton hp.2]
  rfl

end Identity

def recordSchema (r : CanonicalLogRecord) : Except (Fault String) LogsSchema :=
  if r.rawVersion = logsRawVersionV1 then
    match r.receivedTimeUnixNano with
    | none => .ok .v2
    | some _ => .error (.error "logs raw v1 record unexpectedly has a received timestamp")
  else if r.rawVersion = logsRawVersionV2 then
    match r.receivedTimeUnixNano with
    | some _ => .ok .v3
    | none => .error (.error "logs raw v2 record is missing its received timestamp")
  else .error (.error ("unsupported logs raw record version " ++ toString r.rawVersion))

def eventTime (r : CanonicalLogRecord) : Except (Fault String) Nat :=
  if r.timeUnixNano ≠ 0 then .ok r.timeUnixNano
  else if r.observedTimeUnixNano ≠ 0 then .ok r.observedTimeUnixNano
  else .error (.error "event and observed timestamps are both zero")

section Render

variable (hash : Bytes → UInt64) (displayDouble : Nat → Bytes)

def fingerprint (labels : Labels) : Nat := (hash (nulSeparated labels)).toNat

def streamFingerprint (labels : Labels) : Nat := (hash (delimited labels)).toNat

def typedTexts (entries : List (Bytes × Bytes)) : Except (Fault String) Labels :=
  orPanic (entries.mapM fun e => (typedCanonicalText displayDouble e.2).map fun text => (e.1, text))

def recordLabels (r : CanonicalLogRecord) (resource : List (Bytes × Bytes)) :
    Except (Fault String) Labels := do
  let labels ← typedTexts displayDouble resource
  return sortLabels (labels ++ (scopeLabel resource scopeNameLabel (r.scope.map Scope.name) ++ scopeLabel resource
    scopeVersionLabel (r.scope.map Scope.version)))

namespace LogsBlockBuilder

def beginBatch (b : LogsBlockBuilder) : Except String LogsBlockBuilder :=
  if b.schema = some .v1 then .error "cannot mix logs v1 and v2 records"
  else .ok { b with schema := some (b.schema.getD .v2) }

def push (b : LogsBlockBuilder) (schema : LogsSchema) (r : CanonicalLogRecord) (labels : Labels)
    (row : LogRow) : LogsBlockBuilder where
  rows := b.rows ++ [row]
  schema := some schema
  streamDict := b.streamDict.insertIgnore ⟨row.fingerprint, labels⟩
  bytesEst := b.bytesEst + (54 + row.body.length + labelBytes labels + labelBytes row.attributes +
    r.severityText.length + r.eventName.length + r.encoded.length)
  tsMin := min b.tsMin row.ts
  tsMax := max b.tsMax row.ts

/-- The first row turns the schema that `begin_batch` chose into its own. -/
def record (r : CanonicalLogRecord) (b : LogsBlockBuilder) : Except (Fault String) LogsBlockBuilder := do
  let recordSchema ← recordSchema r
  let schema := if b.rows = [] ∧ b.schema = some .v2 then some recordSchema else b.schema
  require (schema = none ∨ schema = some recordSchema)
    "cannot mix logs raw record versions in one block"
  let ts ← eventTime r
  let severity ← toU8 r.severityNumber "severity_number does not fit u8"
  let flags ← toU8 r.traceFlags "trace_flags does not fit u8"
  let resource ← entriesOf r.resourceAttributes "resource_attributes is not a map"
  let attributes ← entriesOf r.attributes "attributes is not a map"
  let labels ← recordLabels displayDouble r resource
  require (firstDuplicate labels = none) (duplicateLabel labels)
  let fingerprint := streamFingerprint hash labels
  require (∀ onFile ∈ b.labelsOf fingerprint, onFile = labels)
    "stream fingerprint collision with different exact labels"
  let attributes ← typedTexts displayDouble attributes
  let body ← orPanic (canonicalText displayDouble r.body)
  return b.push recordSchema r labels
    { fingerprint := fingerprint
      ts := ts
      severity := severity
      body := body
      attributes := attributes
      fidelity :=
        { observedTs := some r.observedTimeUnixNano
          severityText := some r.severityText
          eventName := some r.eventName
          traceId := r.traceId
          spanId := r.spanId
          traceFlags := some flags
          rawRecordVersion := some r.rawVersion
          rawRecord := some r.encoded
          receivedTs := r.receivedTimeUnixNano } }

def logsV2Appender : LogsV2Appender LogsBlockBuilder where
  beginBatchVersion _ _ b := b.beginBatch
  record := record hash displayDouble

end LogsBlockBuilder

end Render

/-! ## What a merge does -/

namespace LogsBlockBuilder

variable {b other m : LogsBlockBuilder}

theorem isEmpty_eq_true_iff : b.isEmpty = true ↔ b.rows = [] := isEmpty_iff

theorem isEmpty_eq_false_iff : b.isEmpty = false ↔ b.rows ≠ [] := by
  rw [← Bool.not_eq_true, isEmpty_eq_true_iff]

theorem collides_eq_false_iff : b.collides other = false ↔
    ∀ k labels labels', b.labelsOf k = some labels → other.labelsOf k = some labels' → labels = labels' := by
  simp only [collides, any_eq_false, Option.any_eq_true, not_exists, not_and, bne_iff_ne, ne_eq, not_not]
  constructor
  · intro h k labels labels' hb hother
    obtain ⟨incoming, hincoming, rfl⟩ := Option.map_eq_some_iff.mp hother
    have hkey := key_of_lookup hincoming
    exact h incoming (mem_of_lookup hincoming) labels (hkey ▸ hb)
  · intro h incoming hincoming labels hb
    refine h incoming.fingerprint labels incoming.labels hb ?_
    rw [labelsOf, lookup_of_mem hincoming]
    rfl

theorem merge_rows (h : b.merge other = some m) : m.rows = b.rows ++ other.rows := by
  unfold merge at h
  split at h
  · rename_i hempty
    cases h
    simp [isEmpty_eq_true_iff.mp hempty]
  split at h
  · cases h
  split at h
  · cases h
  · cases h
    rfl

theorem merge_of_empty (hb : b.rows = []) (hother : other.rows ≠ []) : ∃ m, b.merge other = some m ∧ m.rows ≠ [] ∧
    m.schema = other.schema ∧ ∀ k, m.labelsOf k = other.labelsOf k := by
  have hempty := isEmpty_eq_true_iff.mpr hb
  simp only [merge, isEmpty_eq_false_iff.mpr hother, hempty, Bool.not_true, Bool.false_and,
    Bool.false_eq_true, if_false, if_true]
  refine ⟨_, rfl, by simp [hother], rfl, fun k => ?_⟩
  rw [labelsOf, lookup_foldl_insertIgnore]
  rfl

theorem merge_of_agreeing (hb : b.rows ≠ []) (hother : other.rows ≠ []) (hschema : b.schema = other.schema)
    (hagr : ∀ k labels labels', b.labelsOf k = some labels → other.labelsOf k = some labels' → labels = labels') :
    ∃ m, b.merge other = some m ∧ m.rows ≠ [] ∧ m.schema = b.schema ∧ ∀ k, m.labelsOf k = (b.labelsOf k).or
    (other.labelsOf k) := by
  have hnonempty := isEmpty_eq_false_iff.mpr hb
  have hcollides := collides_eq_false_iff.mpr hagr
  simp only [merge, isEmpty_eq_false_iff.mpr hother, hnonempty, hschema, bne_self_eq_false, hcollides,
    Bool.not_false, Bool.and_false, Bool.false_eq_true, if_false]
  refine ⟨_, rfl, by simp [hb], rfl, fun k => ?_⟩
  rw [labelsOf, lookup_foldl_insertIgnore, Option.map_or]
  rfl

end LogsBlockBuilder

/-! ## What the callbacks do -/

namespace LogsBlockBuilder

variable (s : LogStream)

def streamRows : List LogRow := s.entries.map (entryRow s.fingerprint)

def ownedStream : OwnedStream := ⟨s.fingerprint, lossyPairs s.labels⟩

variable {b : LogsBlockBuilder}

theorem appendEntry_entries (fingerprint : Nat) (es : List LogEntry) (h : b.takesV1 = true) :
    ∃ b', es.foldlM (fun b e => appendEntry fingerprint e b) b = some b' ∧ b'.takesV1 = true ∧ b'.rows = b.rows ++
    es.map (entryRow fingerprint) ∧ b'.streamDict = b.streamDict := by
  induction es generalizing b with
  | nil => exact ⟨b, rfl, h, by simp, rfl⟩
  | cons e es ih =>
    rw [foldlM_cons, appendEntry, if_pos h]
    obtain ⟨b', hfold, htakes, hrows, hdict⟩ := ih (b := { b with
      rows := b.rows ++ [entryRow fingerprint e]
      schema := some .v1
      bytesEst := b.bytesEst + (17 + (entryRow fingerprint e).body.length +
        labelBytes (entryRow fingerprint e).attributes)
      tsMin := min b.tsMin e.tsUnixNano
      tsMax := max b.tsMax e.tsUnixNano }) rfl
    exact ⟨b', hfold, htakes, by simpa using hrows, hdict⟩

theorem logsAppender_stream (h : b.takesV1 = true) :
    ∃ b', logsAppender.stream b s = some b' ∧ b'.takesV1 = true ∧
      b'.rows = b.rows ++ streamRows s ∧ b'.streamDict = b.streamDict.insertIgnore (ownedStream s) := by
  obtain ⟨b', hfold, htakes, hrows, hdict⟩ := appendEntry_entries s.fingerprint s.entries (b := { b with
    schema := some .v1
    streamDict := b.streamDict.insertIgnore (ownedStream s) }) rfl
  refine ⟨b', ?_, htakes, hrows, hdict⟩
  have hobs : logsAppender.observeStream s.fingerprint s.labels b = some { b with
      schema := some .v1
      streamDict := b.streamDict.insertIgnore (ownedStream s) } := if_pos h
  rw [LogsAppender.stream, hobs]
  exact hfold

theorem logsAppender_streams (streams : List LogStream) (h : b.takesV1 = true) :
    ∃ b', streams.foldlM logsAppender.stream b = some b' ∧ b'.rows = b.rows ++ streams.flatMap streamRows ∧
      b'.streamDict = (streams.map ownedStream).foldl insertIgnore b.streamDict := by
  induction streams generalizing b with
  | nil => exact ⟨b, rfl, by simp, rfl⟩
  | cons s streams ih =>
    obtain ⟨b₁, hs, htakes, hrows, hdict⟩ := logsAppender_stream s h
    obtain ⟨b', hfold, hrows', hdict'⟩ := ih htakes
    refine ⟨b', ?_, ?_, ?_⟩
    · rw [foldlM_cons, hs]
      exact hfold
    · rw [hrows', hrows, flatMap_cons, append_assoc]
    · rw [hdict', hdict, map_cons, foldl_cons]

end LogsBlockBuilder

section Render

variable (hash : Bytes → UInt64) (displayDouble : Nat → Bytes)

def labelsOfRecord (r : CanonicalLogRecord) : Except (Fault String) Labels := do
  let resource ← entriesOf r.resourceAttributes "resource_attributes is not a map"
  recordLabels displayDouble r resource

structure Stores (dict : StreamDict) (r : CanonicalLogRecord) (row : LogRow) : Prop where
  stream : ∃ labels, labelsOfRecord displayDouble r = .ok labels ∧
    row.fingerprint = streamFingerprint hash labels ∧
    dict.lookup row.fingerprint = some ⟨row.fingerprint, labels⟩
  ts : eventTime r = .ok row.ts
  severity : toU8 r.severityNumber "severity_number does not fit u8" = .ok row.severity
  attributes : ∃ entries, entriesOf r.attributes "attributes is not a map" = .ok entries ∧
    typedTexts displayDouble entries = .ok row.attributes
  body : canonicalText displayDouble r.body = some row.body

variable {hash displayDouble} {r : CanonicalLogRecord} {b b' : LogsBlockBuilder}

theorem require_ok {p : Prop} [Decidable p] {message : String} {u : Unit} : require p message = .ok u ↔ p := by
  unfold require
  split <;> simp [*]

theorem orPanic_ok {ε α : Type} {x : Option α} {a : α} : (orPanic x : Except (Fault ε) α) = .ok a ↔ x = some a := by
  cases x <;> simp [orPanic]

namespace LogsBlockBuilder

theorem labelsOf_push {schema : LogsSchema} {labels : Labels} {row : LogRow}
    (h : ∀ onFile ∈ b.labelsOf row.fingerprint, onFile = labels) : (b.push schema r labels row).streamDict.lookup
    row.fingerprint = some ⟨row.fingerprint, labels⟩ := by
  rw [push, lookup_insertIgnore, if_pos rfl]
  cases hl : b.streamDict.lookup row.fingerprint with
  | none => rfl
  | some s =>
    obtain rfl := h s.labels (by simp [labelsOf, hl])
    have hkey := key_of_lookup hl
    rw [Option.some_or, ← hkey]

theorem record_ok (h : record hash displayDouble r b = .ok b') : ∃ row, b'.rows = b.rows ++ [row] ∧ Stores hash
    displayDouble b'.streamDict r row ∧ ∀ k s, b.streamDict.lookup k = some s → b'.streamDict.lookup k = some s := by
  simp only [record, except_bind_ok, require_ok, orPanic_ok] at h
  obtain ⟨schema, -, -, -, ts, hts, severity, hsev, flags, -, resource, hres, attributes,
    hattrs, labels, hlabs, -, -, -, hcol, texts, htexts, body, hbody, hpush⟩ := h
  cases hpush
  refine ⟨_, rfl, ⟨⟨labels, ?_, rfl, labelsOf_push hcol⟩, hts, hsev, ⟨attributes, hattrs,
    htexts⟩, hbody⟩, ?_⟩
  · simp only [labelsOfRecord, except_bind_ok]
    exact ⟨resource, hres, hlabs⟩
  · intro k s hs
    rw [push, lookup_insertIgnore, hs, Option.some_or]

end LogsBlockBuilder

theorem Stores.mono {dict dict' : StreamDict} {row : LogRow} (h : Stores hash displayDouble dict r row)
    (hle : ∀ k s, dict.lookup k = some s → dict'.lookup k = some s) : Stores hash displayDouble dict' r row := by
  obtain ⟨labels, hlabs, hfp, hfile⟩ := h.stream
  exact ⟨⟨labels, hlabs, hfp, hle _ _ hfile⟩, h.ts, h.severity, h.attributes, h.body⟩

theorem LogsBlockBuilder.record_records {records : List CanonicalLogRecord}
    (h : records.foldlM (fun b r => (record hash displayDouble r b).mapError Fault.ofAppender) b = .ok b') : ∃ rows,
    b'.rows = b.rows ++ rows ∧ List.Forall₂ (Stores hash displayDouble b'.streamDict) records rows ∧ ∀ k s,
    b.streamDict.lookup k = some s → b'.streamDict.lookup k = some s := by
  induction records generalizing b with
  | nil =>
    cases h
    exact ⟨[], by simp, .nil, fun _ _ => id⟩
  | cons r records ih =>
    rw [foldlM_cons, except_bind_ok] at h
    obtain ⟨b₁, hr, hrest⟩ := h
    obtain ⟨row, hrow, hstores, hkept⟩ := record_ok (mapError_ok.mp hr)
    obtain ⟨rows, hrows, hall, hkept'⟩ := ih hrest
    refine ⟨row :: rows, by rw [hrows, hrow, append_assoc]; rfl, .cons (hstores.mono hkept') hall, ?_⟩
    intro k s hs
    exact hkept' k s (hkept k s hs)

end Render

end Scry.Block
