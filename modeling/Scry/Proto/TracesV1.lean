import Scry.Proto.LogsV1

/-! # Traces batches, version 1

The streaming decoder of `TracesBatch` payloads, and the wire format it reads.
-/

open Scry.Lib

namespace Scry.Proto

open Cursor Reader

structure DecodedEvent where
  tsUnixNano : Nat
  name : Bytes
  attributes : List (Bytes × Bytes)
  deriving DecidableEq

structure DecodedLink where
  traceId : Bytes
  spanId : Bytes
  attributes : List (Bytes × Bytes)
  deriving DecidableEq

/-- As on the wire, with indexes into the batch's dictionaries. -/
structure Span where
  resourceIdx : Nat
  scopeIdx : Nat
  traceId : Bytes
  spanId : Bytes
  parentSpanId : Option Bytes
  name : Bytes
  kind : Nat
  startUnixNano : Nat
  endUnixNano : Nat
  statusCode : Nat
  statusMessage : Bytes
  attributes : List (Bytes × Bytes)
  events : List DecodedEvent
  links : List DecodedLink
  deriving DecidableEq

structure TracesBatch where
  resources : List (List (Bytes × Bytes))
  scopes : List (Bytes × Bytes)
  spans : List Span
  deriving DecidableEq

structure DecodedSpan where
  traceId : Bytes
  spanId : Bytes
  parentSpanId : Option Bytes
  resourceLabels : List (Bytes × Bytes)
  scopeName : Bytes
  scopeVersion : Bytes
  name : Bytes
  kind : Nat
  startUnixNano : Nat
  endUnixNano : Nat
  statusCode : Nat
  statusMessage : Bytes
  attributes : List (Bytes × Bytes)
  events : List DecodedEvent
  links : List DecodedLink
  deriving DecidableEq

/-! ## The decoder -/

def readFixed (len : Nat) : BatchDecoder Bytes := take .unexpectedEof len

variable (resources : List (List (Bytes × Bytes))) (width : Nat) (scopes : List (Bytes × Bytes))

/-- `read_str_u8` and `read_str_u16`, by the width of the length. -/
def readStr : BatchDecoder Bytes := do
  let len ← uint .unexpectedEof width
  readFixed len

/-- `read_attrs_u8`, and the same loop where the count has two bytes. -/
def readAttrs : BatchDecoder (List (Bytes × Bytes)) := do
  let count ← uint .unexpectedEof width
  times count readLabelPair

def readScope : BatchDecoder (Bytes × Bytes) := do
  let name ← readStr 1
  let version ← readStr 1
  return (name, version)

/-- Any flag but zero says that there is a parent. -/
def readParent : BatchDecoder (Option Bytes) := do
  let flag ← uint .unexpectedEof 1
  if flag ≠ 0 then do
    let id ← readFixed 8
    return some id
  else return none

def readEvent : BatchDecoder DecodedEvent := do
  let ts ← uint .unexpectedEof 8
  let name ← readStr 2
  let attributes ← readAttrs 1
  return ⟨ts, name, attributes⟩

def readLink : BatchDecoder DecodedLink := do
  let traceId ← readFixed 16
  let spanId ← readFixed 8
  let attributes ← readAttrs 1
  return ⟨traceId, spanId, attributes⟩

def readSpan : BatchDecoder Span := do
  let resourceIdx ← uint .unexpectedEof 2
  let scopeIdx ← uint .unexpectedEof 2
  let traceId ← readFixed 16
  let spanId ← readFixed 8
  let parentSpanId ← readParent
  let name ← readStr 2
  let kind ← uint .unexpectedEof 1
  let start ← uint .unexpectedEof 8
  let stop ← uint .unexpectedEof 8
  let statusCode ← uint .unexpectedEof 1
  let statusMessage ← readStr 2
  let attributes ← readAttrs 2
  let eventCount ← uint .unexpectedEof 2
  let events ← times eventCount readEvent
  let linkCount ← uint .unexpectedEof 1
  let links ← times linkCount readLink
  return ⟨resourceIdx, scopeIdx, traceId, spanId, parentSpanId, name, kind, start, stop, statusCode,
    statusMessage, attributes, events, links⟩

def Span.resolve (s : Span) :
    Except BinSchemaError DecodedSpan :=
  match resources[s.resourceIdx]?, scopes[s.scopeIdx]? with
  | some labels, some (scopeName, scopeVersion) =>
    .ok ⟨s.traceId, s.spanId, s.parentSpanId, labels, scopeName, scopeVersion, s.name, s.kind,
      s.startUnixNano, s.endUnixNano, s.statusCode, s.statusMessage, s.attributes, s.events, s.links⟩
  | _, _ => .error .unexpectedEof

def readDictionaries : BatchDecoder (List (List (Bytes × Bytes)) × List (Bytes × Bytes)) := do
  let resourceCount ← uint .unexpectedEof 2
  let resources ← times resourceCount (readAttrs 2)
  let scopeCount ← uint .unexpectedEof 2
  let scopes ← times scopeCount readScope
  return (resources, scopes)

def readDecodedSpan :
    BatchDecoder DecodedSpan := do
  let span ← readSpan
  lift (span.resolve resources scopes)

/-- `decode_traces_batch_into`: the spans that are appended on success. -/
def readTracesBatch : BatchDecoder (List DecodedSpan) := do
  let (resources, scopes) ← readDictionaries
  let spanCount ← uint .unexpectedEof 4
  times spanCount (readDecodedSpan resources scopes)

def readTraces : BatchDecoder TracesBatch := do
  let (resources, scopes) ← readDictionaries
  let spanCount ← uint .unexpectedEof 4
  let spans ← times spanCount readSpan
  return ⟨resources, scopes, spans⟩

/-! ## The wire format -/

def strWire (b : Bytes) : Bytes := toBe width b.length ++ b

def attrsWire (ps : List (Bytes × Bytes)) : Bytes :=
  toBe width ps.length ++ ps.flatMap pairWire

structure AttrsFit (width : Nat) (ps : List (Bytes × Bytes)) : Prop where
  count : ps.length < 256 ^ width
  pairs : ∀ p ∈ ps, PairFits p

def scopeEntryWire (s : Bytes × Bytes) : Bytes := strWire 1 s.1 ++ strWire 1 s.2

def parentWire : Option Bytes → Bytes
  | none => toBe 1 0
  | some id => toBe 1 1 ++ id

def DecodedEvent.wire (e : DecodedEvent) : Bytes :=
  toBe 8 e.tsUnixNano ++ (strWire 2 e.name ++ attrsWire 1 e.attributes)

structure DecodedEvent.Fits (e : DecodedEvent) : Prop where
  ts : e.tsUnixNano < 256 ^ 8
  name : e.name.length < 256 ^ 2
  attributes : AttrsFit 1 e.attributes

def DecodedLink.wire (l : DecodedLink) : Bytes := l.traceId ++ (l.spanId ++ attrsWire 1 l.attributes)

structure DecodedLink.Fits (l : DecodedLink) : Prop where
  traceId : l.traceId.length = 16
  spanId : l.spanId.length = 8
  attributes : AttrsFit 1 l.attributes

def Span.wire (s : Span) : Bytes :=
  toBe 2 s.resourceIdx ++ (toBe 2 s.scopeIdx ++ (s.traceId ++ (s.spanId ++ (parentWire s.parentSpanId ++
  (strWire 2 s.name ++ (toBe 1 s.kind ++ (toBe 8 s.startUnixNano ++ (toBe 8 s.endUnixNano ++
  (toBe 1 s.statusCode ++ (strWire 2 s.statusMessage ++ (attrsWire 2 s.attributes ++
  (toBe 2 s.events.length ++ (s.events.flatMap DecodedEvent.wire ++ (toBe 1 s.links.length ++
  s.links.flatMap DecodedLink.wire))))))))))))))

structure Span.Fits (s : Span) : Prop where
  resourceIdx : s.resourceIdx < 256 ^ 2
  scopeIdx : s.scopeIdx < 256 ^ 2
  traceId : s.traceId.length = 16
  spanId : s.spanId.length = 8
  parentSpanId : ∀ id ∈ s.parentSpanId, id.length = 8
  name : s.name.length < 256 ^ 2
  kind : s.kind < 256 ^ 1
  startUnixNano : s.startUnixNano < 256 ^ 8
  endUnixNano : s.endUnixNano < 256 ^ 8
  statusCode : s.statusCode < 256 ^ 1
  statusMessage : s.statusMessage.length < 256 ^ 2
  attributes : AttrsFit 2 s.attributes
  eventCount : s.events.length < 256 ^ 2
  events : ∀ e ∈ s.events, e.Fits
  linkCount : s.links.length < 256 ^ 1
  links : ∀ l ∈ s.links, l.Fits

namespace TracesBatch

def dictionariesWire (b : TracesBatch) : Bytes :=
  toBe 2 b.resources.length ++ (b.resources.flatMap (attrsWire 2) ++
  (toBe 2 b.scopes.length ++ b.scopes.flatMap scopeEntryWire))

def wire (b : TracesBatch) : Bytes :=
  b.dictionariesWire ++ (toBe 4 b.spans.length ++ b.spans.flatMap Span.wire)

structure Fits (b : TracesBatch) : Prop where
  resourceCount : b.resources.length < 256 ^ 2
  resources : ∀ r ∈ b.resources, AttrsFit 2 r
  scopeCount : b.scopes.length < 256 ^ 2
  scopes : ∀ s ∈ b.scopes, s.1.length < 256 ^ 1 ∧ s.2.length < 256 ^ 1
  spanCount : b.spans.length < 256 ^ 4
  spans : ∀ s ∈ b.spans, s.Fits

/-- It stops at the first index that is out of range. -/
def resolve (b : TracesBatch) : Except BinSchemaError (List DecodedSpan) :=
  b.spans.mapM (Span.resolve b.resources b.scopes)

end TracesBatch

/-! ## What the decoder makes of the wire format -/

open Cursor

theorem readLabelPair_decodes {p : Bytes × Bytes} (h : PairFits p) : Decodes readLabelPair (pairWire p) p :=
  fun c => (readLabelPair_ok _ c p).mpr ⟨h, rfl⟩

theorem readFixed_decodes {b : Bytes} {n : Nat} (h : b.length = n) : Decodes (readFixed n) b b := by
  subst h
  exact decodes_take _ b

theorem readStr_decodes {k : Nat} {b : Bytes} (h : b.length < 256 ^ k) : Decodes (readStr k) (strWire k b) b :=
  (decodes_uint _ h).bind (readFixed_decodes rfl)

theorem AttrsFit.decodes {k : Nat} {ps : List (Bytes × Bytes)} (h : AttrsFit k ps) :
    Decodes (readAttrs k) (attrsWire k ps) ps := by
  have hpairs := Decodes.times fun p hp => readLabelPair_decodes (h.pairs p hp)
  rw [List.map_id'] at hpairs
  exact (decodes_uint _ h.count).bind hpairs

theorem readScope_decodes {s : Bytes × Bytes} (h : s.1.length < 256 ^ 1 ∧ s.2.length < 256 ^ 1) :
    Decodes readScope (scopeEntryWire s) s :=
  (readStr_decodes h.1).bind ((readStr_decodes h.2).map fun version => (s.1, version))

theorem readParent_decodes {id : Option Bytes} (h : ∀ b ∈ id, b.length = 8) :
    Decodes readParent (parentWire id) id := by
  cases id with
  | none =>
    have hflag : Decodes (uint .unexpectedEof 1 : BatchDecoder Nat) (toBe 1 0) 0 :=
      decodes_uint _ (by decide)
    intro c
    exact bind_ok.mpr ⟨0, c, hflag c, rfl⟩
  | some id =>
    exact (decodes_uint _ (by decide)).bind ((readFixed_decodes (h id rfl)).map some)

theorem DecodedEvent.Fits.decodes {e : DecodedEvent} (h : e.Fits) : Decodes readEvent e.wire e :=
  (decodes_uint _ h.ts).bind ((readStr_decodes h.name).bind (h.attributes.decodes.map _))

theorem DecodedLink.Fits.decodes {l : DecodedLink} (h : l.Fits) : Decodes readLink l.wire l :=
  (readFixed_decodes h.traceId).bind ((readFixed_decodes h.spanId).bind (h.attributes.decodes.map _))

theorem Span.Fits.decodes {s : Span} (h : s.Fits) : Decodes readSpan s.wire s := by
  have hevs := Decodes.times fun e he => (h.events e he).decodes
  have hlinks := Decodes.times fun l hl => (h.links l hl).decodes
  rw [List.map_id'] at hevs hlinks
  exact (decodes_uint _ h.resourceIdx).bind ((decodes_uint _ h.scopeIdx).bind
    ((readFixed_decodes h.traceId).bind ((readFixed_decodes h.spanId).bind
    ((readParent_decodes h.parentSpanId).bind ((readStr_decodes h.name).bind
    ((decodes_uint _ h.kind).bind ((decodes_uint _ h.startUnixNano).bind
    ((decodes_uint _ h.endUnixNano).bind ((decodes_uint _ h.statusCode).bind
    ((readStr_decodes h.statusMessage).bind (h.attributes.decodes.bind
    ((decodes_uint _ h.eventCount).bind (hevs.bind ((decodes_uint _ h.linkCount).bind (hlinks.map _)))))))))))))))

namespace TracesBatch

variable {b : TracesBatch}

theorem Fits.dictionaries (h : b.Fits) : Decodes readDictionaries b.dictionariesWire (b.resources, b.scopes) := by
  have hress := Decodes.times fun r hr => (h.resources r hr).decodes
  have hscopes := Decodes.times fun s hs => readScope_decodes (h.scopes s hs)
  rw [List.map_id'] at hress hscopes
  exact (decodes_uint _ h.resourceCount).bind (hress.bind ((decodes_uint _ h.scopeCount).bind (hscopes.map _)))

theorem Fits.decodes (h : b.Fits) : Decodes readTraces b.wire b := by
  have hspans := Decodes.times fun s hs => (h.spans s hs).decodes
  rw [List.map_id'] at hspans
  exact h.dictionaries.bind ((decodes_uint _ h.spanCount).bind (hspans.map _))

variable {resources : List (List (Bytes × Bytes))} {scopes : List (Bytes × Bytes)}

theorem readDecodedSpan_eq {s : Span}
    (h : s.Fits) (c : Cursor Unit) : readDecodedSpan resources scopes (c.unread s.wire) =
    (s.resolve resources scopes).map fun decoded => (decoded, c) := by
  simp only [readDecodedSpan, bind, h.decodes c, lift]
  cases s.resolve resources scopes <;> rfl

theorem times_readDecodedSpan
    {spans : List Span} (h : ∀ s ∈ spans, s.Fits) (c : Cursor Unit) :
    times spans.length (readDecodedSpan resources scopes) (c.unread (spans.flatMap Span.wire)) =
      (spans.mapM (Span.resolve resources scopes)).map fun decoded => (decoded, c) := by
  induction spans with
  | nil => rfl
  | cons s spans ih =>
    simp only [List.mem_cons, forall_eq_or_imp] at h
    have hread : readDecodedSpan resources scopes _ = _ :=
      readDecodedSpan_eq h.1 (c.unread (spans.flatMap Span.wire))
    rw [unread_unread] at hread
    simp only [List.length_cons, times, List.flatMap_cons, List.mapM_cons, bind, hread]
    cases s.resolve resources scopes with
    | error e => rfl
    | ok d =>
      simp only [Except.map, ih h.2]
      cases spans.mapM (Span.resolve resources scopes) <;> rfl

/-- **What the decoder makes of a batch.** It takes the whole encoding, and fails only for an index out
of range. -/
theorem Fits.readTracesBatch (h : b.Fits) (c : Cursor Unit) :
    readTracesBatch (c.unread b.wire) = b.resolve.map fun decoded => (decoded, c) := by
  have hdicts := h.dictionaries (c.unread (toBe 4 b.spans.length ++ b.spans.flatMap Span.wire))
  have hcnt : uint .unexpectedEof 4 (c.unread (toBe 4 b.spans.length ++ b.spans.flatMap Span.wire)) =
      (.ok (b.spans.length, c.unread (b.spans.flatMap Span.wire)) : Except BinSchemaError _) := by
    rw [← unread_unread]
    exact decodes_uint _ h.spanCount _
  rw [unread_unread] at hdicts
  simp only [Proto.readTracesBatch, wire, bind, hdicts, hcnt]
  exact times_readDecodedSpan h.spans c

end TracesBatch

end Scry.Proto
