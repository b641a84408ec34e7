import Scry.Proto.Redaction
import Scry.Proto.TracesV1

/-! # Redaction of traces

The redactor of traces-v1 batches, on the cursor that logs-v1 uses.
-/

open Scry.Lib

namespace Scry.Proto

open List Reader

/-! ## The redactor -/

namespace V1Cursor

variable (limit : Option Nat) (width : Nat)

/-- `string_u8` without the check for UTF-8. -/
def copyBytes : V1Reader Unit := do
  let (_, bytes) ← Cursor.captured do
    let len ← uint width
    take len
  emit limit bytes

/-- The optional parent, in its canonical form only. -/
def copyParent : V1Reader Unit := do
  let (_, bytes) ← Cursor.captured do
    match ← uint 1 with
    | 0 => return none
    | 1 => do
      let id ← take 8
      return some id
    | _ => fail (.invalidEncoding "non-canonical optional")
  emit limit bytes

def copyLoop (width minimumBytes : Nat) (item : V1Reader Unit) : V1Reader Unit := do
  let n ← copyUint limit width
  count n minimumBytes
  let _ ← times n item

def copyPairs : V1Reader Unit := do
  let n ← copyUint limit width
  pairs limit n

end V1Cursor

open V1Cursor

variable (limit : Option Nat)

def parseScopeV1 : V1Reader Unit := do
  copyString limit 1
  copyBytes limit 1

def parseEventV1 : V1Reader Unit := do
  raw limit 8
  copyString limit 2
  copyPairs limit 1

def parseLinkV1 : V1Reader Unit := do
  raw limit 24
  copyPairs limit 1

def parseSpanV1 : V1Reader Unit := do
  raw limit 28
  copyParent limit
  copyString limit 2
  raw limit 18
  copyString limit 2
  copyPairs limit 2
  copyLoop limit 2 11 (parseEventV1 limit)
  copyLoop limit 1 25 (parseLinkV1 limit)

def parseTraceBatchV1 : V1Reader Unit := do
  copyLoop limit 2 2 (copyPairs limit 2)
  copyLoop limit 2 2 (parseScopeV1 limit)
  copyLoop limit 4 56 (parseSpanV1 limit)

def parseTracesV1 : Option Nat → Bytes → Except BinSchemaError (Bool × Bytes) := parseV1 parseTraceBatchV1

def redactTracesV1 (payload : Bytes) : Except BinSchemaError Bytes := redactV1 parseTracesV1 payload

/-! ## What the redactor does -/

def redactPairs (ps : List (Bytes × Bytes)) : List (Bytes × Bytes) := ps.map redactPair

def DecodedEvent.redact (e : DecodedEvent) : DecodedEvent :=
  { e with attributes := redactPairs e.attributes }

def DecodedLink.redact (l : DecodedLink) : DecodedLink :=
  { l with attributes := redactPairs l.attributes }

def Span.redact (s : Span) : Span :=
  { s with
    attributes := redactPairs s.attributes
    events := s.events.map DecodedEvent.redact
    links := s.links.map DecodedLink.redact }

def TracesBatch.redact (b : TracesBatch) : TracesBatch :=
  { b with resources := b.resources.map redactPairs, spans := b.spans.map Span.redact }

def DecodedSpan.redact (s : DecodedSpan) : DecodedSpan :=
  { s with
    resourceLabels := redactPairs s.resourceLabels
    attributes := redactPairs s.attributes
    events := s.events.map DecodedEvent.redact
    links := s.links.map DecodedLink.redact }

theorem Span.resolve_redact (resources : List (List (Bytes × Bytes))) (scopes : List (Bytes × Bytes)) (s : Span) :
    s.redact.resolve (resources.map redactPairs) scopes = (s.resolve resources scopes).map DecodedSpan.redact := by
  simp only [Span.resolve, Span.redact, getElem?_map]
  cases resources[s.resourceIdx]? with
  | none => rfl
  | some labels => cases scopes[s.scopeIdx]? <;> rfl

theorem TracesBatch.resolve_redact (b : TracesBatch) : b.redact.resolve = b.resolve.map (map DecodedSpan.redact) := by
  obtain ⟨resources, scopes, spans⟩ := b
  simp only [TracesBatch.resolve, TracesBatch.redact]
  induction spans with
  | nil => rfl
  | cons s spans ih =>
    simp only [map_cons, mapM_cons, Span.resolve_redact, ih]
    cases s.resolve resources scopes with
    | error e => rfl
    | ok d => cases spans.mapM (Span.resolve resources scopes) <;> rfl

/-! ## Valid batches -/

structure DecodedEvent.Valid (e : DecodedEvent) : Prop where
  fits : e.Fits
  name : validUtf8 e.name = true
  attributes : ∀ p ∈ e.attributes, PairValid p

structure DecodedLink.Valid (l : DecodedLink) : Prop where
  fits : l.Fits
  attributes : ∀ p ∈ l.attributes, PairValid p

structure Span.Valid (s : Span) : Prop where
  fits : s.Fits
  name : validUtf8 s.name = true
  statusMessage : validUtf8 s.statusMessage = true
  attributes : ∀ p ∈ s.attributes, PairValid p
  events : ∀ e ∈ s.events, e.Valid
  links : ∀ l ∈ s.links, l.Valid

structure TracesBatch.Valid (b : TracesBatch) : Prop where
  fits : b.Fits
  resources : ∀ r ∈ b.resources, ∀ p ∈ r, PairValid p
  scopes : ∀ s ∈ b.scopes, validUtf8 s.1 = true
  spans : ∀ s ∈ b.spans, s.Valid

/-! ## The passes -/

namespace DecodedEvent

variable (e : DecodedEvent)

def dirty : Bool := e.attributes.any pairDirty

def items : Nat := e.attributes.length

def pass : Pass := ⟨e.wire, e.redact.wire, e.items, e.dirty⟩

end DecodedEvent

namespace DecodedLink

variable (l : DecodedLink)

def dirty : Bool := l.attributes.any pairDirty

def items : Nat := l.attributes.length

def pass : Pass := ⟨l.wire, l.redact.wire, l.items, l.dirty⟩

end DecodedLink

namespace Span

def dirty (s : Span) : Bool :=
  s.attributes.any pairDirty || (s.events.any DecodedEvent.dirty || s.links.any DecodedLink.dirty)

def items (s : Span) : Nat :=
  s.attributes.length + (s.events.length + (s.events.map DecodedEvent.items).sum +
    (s.links.length + (s.links.map DecodedLink.items).sum))

def pass (s : Span) : Pass := ⟨s.wire, s.redact.wire, s.items, s.dirty⟩

end Span

namespace TracesBatch

def dirty (b : TracesBatch) : Bool :=
  (b.resources.any fun r => r.any pairDirty) || b.spans.any Span.dirty

def items (b : TracesBatch) : Nat :=
  b.resources.length + (b.resources.map length).sum + (b.scopes.length +
    (b.spans.length + (b.spans.map Span.items).sum))

def pass (b : TracesBatch) : Pass := ⟨b.wire, b.redact.wire, b.items, b.dirty⟩

end TracesBatch

namespace V1Cursor

open Effects

variable {limit : Option Nat}

theorem captured_reads {α ξ : Type} {r : V1Reader α} {P : ξ → Prop} {f : ξ → α} {w : ξ → Bytes}
    (hr : ∀ c c' a, r c = .ok (a, c') ↔ ∃ x, P x ∧ a = f x ∧ c = c'.unread (w x)) :
    (passing limit).Reads (do let (_, bytes) ← Cursor.captured r; emit limit bytes) P (fun _ => ())
      (fun x => .copy (w x)) := by
  refine ⟨fun {c c' u} hc => ?_⟩
  have htake (c₁ : V1Cursor) (a : α) (h : r c = .ok (a, c₁)) : ∃ w, c.rest = w ++ c₁.rest := by
    obtain ⟨x, -, -, rfl⟩ := (hr c c₁ a).mp h
    exact ⟨w x, rfl⟩
  simp only [bind_ok, Prod.exists, Cursor.captured_ok (htake _), emit_ok]
  constructor
  · rintro ⟨a, b, c₁, ⟨hread, hb⟩, hemit⟩
    obtain ⟨x, hx, -, rfl⟩ := (hr c c₁ a).mp hread
    have hb : w x = b := append_cancel_right hb
    subst hb
    exact ⟨x, hx, trivial, (passes_copy hc).mp ⟨c₁, rfl, hemit⟩, trivial⟩
  · rintro ⟨x, hx, -, hmove, -⟩
    obtain ⟨c₁, rfl, hemit⟩ := (passes_copy hc).mpr hmove
    exact ⟨f x, w x, c₁, ⟨(hr _ _ _).mpr ⟨x, hx, rfl, rfl⟩, rfl⟩, hemit⟩

variable (k : Nat) (ps : List (Bytes × Bytes))

theorem copyBytes_reads : (passing limit).Reads (copyBytes limit k) (fun b : Bytes => b.length < 256 ^ k)
    (fun _ => ()) (fun b => .copy (strWire k b)) := by
  refine captured_reads (f := id) fun c c' b => ?_
  simp only [uint, take, bind_ok, Cursor.uint_ok, Cursor.take_ok, strWire]
  constructor
  · rintro ⟨_, _, ⟨hlen, rfl⟩, rfl, rfl⟩
    exact ⟨b, hlen, rfl, by rw [Cursor.unread_unread]⟩
  · rintro ⟨_, hlen, rfl, rfl⟩
    exact ⟨_, _, ⟨hlen, (Cursor.unread_unread _ _ _).symm⟩, rfl, rfl⟩

theorem copyParent_reads : (passing limit).Reads (copyParent limit) (fun id : Option Bytes => ∀ b ∈ id, b.length = 8)
    (fun _ => ()) (fun id => .copy (parentWire id)) := by
  refine captured_reads (f := id) fun c c' id => ?_
  simp only [uint, take, bind_ok, Cursor.uint_ok]
  constructor
  · rintro ⟨n, c₁, ⟨_, rfl⟩, hrest⟩
    split at hrest
    · cases hrest
      exact ⟨none, by simp, rfl, rfl⟩
    · simp only [bind_ok, Cursor.take_ok, pure_ok] at hrest
      obtain ⟨b, _, ⟨hb, rfl⟩, rfl, rfl⟩ := hrest
      refine ⟨some b, by simpa using hb, rfl, by rw [Cursor.unread_unread]; rfl⟩
    · cases hrest
  · rintro ⟨id', hid, rfl, rfl⟩
    cases id with
    | none => exact ⟨0, c', ⟨by decide, rfl⟩, rfl⟩
    | some b =>
      refine ⟨1, c'.unread b, ⟨by decide, (Cursor.unread_unread _ _ _).symm⟩, ?_⟩
      simp only [bind_ok, Cursor.take_ok, pure_ok]
      exact ⟨b, c', ⟨hid b rfl, rfl⟩, rfl, rfl⟩

def countedPass {ξ : Type} (k : Nat) (l : ξ → Pass) (xs : List ξ) : Pass :=
  ⟨toBe k xs.length ++ xs.flatMap fun x => (l x).read, toBe k xs.length ++ xs.flatMap fun x => (l x).out,
    xs.length + (xs.map fun x => (l x).items).sum, xs.any fun x => (l x).dirty⟩

theorem countedPass_copy {ξ : Type} (w : ξ → Bytes) (xs : List ξ) : countedPass k (fun x => .copy (w x)) xs
    = ⟨toBe k xs.length ++ xs.flatMap w, toBe k xs.length ++ xs.flatMap w, xs.length, false⟩ := by
  simp [countedPass, Pass.copy, map_const', sum_replicate_nat]

theorem copyLoop_reads {ξ : Type} {r : V1Reader Unit} {P : ξ → Prop} {l : ξ → Pass} {m : Nat}
    (hr : (passing limit).Reads r P (fun _ => ()) l) (hm : ∀ x, P x → m ≤ (l x).read.length) (k : Nat) :
    (passing limit).Reads (copyLoop limit k m r)
      (fun xs : List ξ => xs.length < 256 ^ k ∧ ∀ x ∈ xs, P x) (fun _ => ()) (countedPass k l) := by
  have hread := (copyUint_reads k).bind fun n _ => counted_reads hr hm n
  have hpass (xs : List ξ) : countedPass k l xs =
      (passing limit).mul (.copy (toBe k xs.length)) (loopPass l xs) := by
    simp [countedPass, passing, Pass.copy, loopPass]
  refine hread.congr ?_ ?_
  · rintro ⟨n, xs⟩ ⟨hn, hlen, hxs⟩
    obtain rfl : xs.length = n := hlen
    exact ⟨xs, ⟨hn, hxs⟩, rfl, hpass xs⟩
  · rintro xs ⟨hn, hxs⟩
    exact ⟨(xs.length, xs), ⟨hn, rfl, hxs⟩, rfl, (hpass xs).symm⟩

def attrsPass : Pass :=
  ⟨attrsWire k ps, attrsWire k (redactPairs ps), ps.length, ps.any pairDirty⟩

theorem copyPairs_reads : (passing limit).Reads (copyPairs limit k)
    (fun ps : List (Bytes × Bytes) => ps.length < 256 ^ k ∧ ∀ p ∈ ps, PairValid p) (fun _ => ()) (attrsPass k) := by
  have hread : (passing limit).Reads (copyPairs limit k) _ _ _ :=
    (copyUint_reads k).bind fun n _ => pairs_reads n
  have hpass (ps : List (Bytes × Bytes)) : attrsPass k ps =
      (passing limit).mul (.copy (toBe k ps.length)) (loopPass pairPass ps) := by
    rw [loopPass_pair]
    simp [attrsPass, attrsWire, redactPairs, passing, Pass.copy]
  refine hread.congr ?_ ?_
  · rintro ⟨n, ps⟩ ⟨hn, hlen, hps⟩
    obtain rfl : ps.length = n := hlen
    exact ⟨ps, ⟨hn, hps⟩, rfl, hpass ps⟩
  · rintro ps ⟨hn, hps⟩
    exact ⟨(ps.length, ps), ⟨hn, rfl, hps⟩, rfl, (hpass ps).symm⟩

theorem parseScopeV1_reads : (passing limit).Reads (parseScopeV1 limit)
    (fun s : Bytes × Bytes => (s.1.length < 256 ^ 1 ∧ validUtf8 s.1 = true) ∧ s.2.length < 256 ^ 1) (fun _ => ())
    (fun s => .copy (scopeEntryWire s)) := by
  have hread : (passing limit).Reads (parseScopeV1 limit) _ _ _ :=
    (copyString_reads 1).bind fun _ _ => copyBytes_reads 1
  refine hread.congr ?_ ?_
  · intro s hs
    exact ⟨s, hs, rfl, rfl⟩
  · intro s hs
    exact ⟨s, hs, rfl, rfl⟩

theorem parseEventV1_reads :
    (passing limit).Reads (parseEventV1 limit) DecodedEvent.Valid (fun _ => ()) DecodedEvent.pass := by
  have hread : (passing limit).Reads (parseEventV1 limit) _ _ _ :=
    (rawUint_reads 8).bind fun _ _ => (copyString_reads 2).bind fun _ _ => copyPairs_reads 1
  have hpass (e : DecodedEvent) : e.pass = (passing limit).mul (.copy (toBe 8 e.tsUnixNano))
      ((passing limit).mul (.copy (strWire 2 e.name)) (attrsPass 1 e.attributes)) := by
    simp [DecodedEvent.pass, DecodedEvent.wire, DecodedEvent.redact, DecodedEvent.items,
      DecodedEvent.dirty, passing, Pass.copy, attrsPass]
  refine hread.congr ?_ ?_
  · rintro ⟨ts, name, attrs⟩ ⟨hts, ⟨hlen, hutf8⟩, hcnt, hattrs⟩
    exact ⟨⟨ts, name, attrs⟩, ⟨⟨hts, hlen, hcnt, fun p hp => (hattrs p hp).fits⟩, hutf8, hattrs⟩, rfl, hpass _⟩
  · intro e he
    exact ⟨(e.tsUnixNano, e.name, e.attributes),
      ⟨he.fits.ts, ⟨he.fits.name, he.name⟩, he.fits.attributes.count, he.attributes⟩, rfl, (hpass e).symm⟩

theorem parseLinkV1_reads :
    (passing limit).Reads (parseLinkV1 limit) DecodedLink.Valid (fun _ => ()) DecodedLink.pass := by
  have hids : (passing limit).Reads (raw limit 24)
      (fun p : Bytes × Bytes => p.1.length = 16 ∧ p.2.length = 8) (fun _ => ())
      (fun p => .copy (p.1 ++ p.2)) := by
    refine raw_reads_as (fun b hb => ?_) ?_
    · obtain ⟨b₁, b₂, h₁, h₂, rfl⟩ := exists_append_of_length (m := 16) (n := 8) hb
      exact ⟨(b₁, b₂), ⟨h₁, h₂⟩, rfl⟩
    · rintro ⟨b₁, b₂⟩ ⟨h₁, h₂⟩
      rw [length_append, h₁, h₂]
  have hread : (passing limit).Reads (parseLinkV1 limit) _ _ _ := hids.bind fun _ _ => copyPairs_reads 1
  have hpass (l : DecodedLink) : l.pass =
      (passing limit).mul (.copy (l.traceId ++ l.spanId)) (attrsPass 1 l.attributes) := by
    simp [DecodedLink.pass, DecodedLink.wire, DecodedLink.redact, DecodedLink.items, DecodedLink.dirty,
      passing, Pass.copy, attrsPass]
  refine hread.congr ?_ ?_
  · rintro ⟨⟨traceId, spanId⟩, attrs⟩ ⟨⟨htrace, hspan⟩, hcnt, hattrs⟩
    exact ⟨⟨traceId, spanId, attrs⟩, ⟨⟨htrace, hspan, hcnt, fun p hp => (hattrs p hp).fits⟩, hattrs⟩, rfl, hpass _⟩
  · intro l hl
    exact ⟨((l.traceId, l.spanId), l.attributes),
      ⟨⟨hl.fits.traceId, hl.fits.spanId⟩, hl.fits.attributes.count, hl.attributes⟩, rfl, (hpass l).symm⟩

/-! ### Sizes -/

theorem length_attrsWire_le : ps.length + k ≤ (attrsWire k ps).length := by
  have := length_pairs_le ps
  simp only [attrsWire, length_append, toBe_length]
  omega

theorem length_scopeEntryWire_le (s : Bytes × Bytes) : 2 ≤ (scopeEntryWire s).length := by
  simp only [scopeEntryWire, strWire, length_append, toBe_length]
  omega

theorem event_items_le_wire (e : DecodedEvent) : e.items + 11 ≤ e.wire.length := by
  have := length_attrsWire_le 1 e.attributes
  simp only [DecodedEvent.items, DecodedEvent.wire, strWire, length_append, toBe_length]
  omega

theorem link_items_le_wire {l : DecodedLink} (h : l.Fits) : l.items + 25 ≤ l.wire.length := by
  have := length_attrsWire_le 1 l.attributes
  simp only [DecodedLink.items, DecodedLink.wire, length_append, h.traceId, h.spanId]
  omega

theorem parentWire_length_pos (id : Option Bytes) : 1 ≤ (parentWire id).length := by
  cases id <;> simp [parentWire]

theorem span_items_le_wire {s : Span} (h : s.Fits) : s.items + 56 ≤ s.wire.length := by
  have hattrs := length_attrsWire_le 2 s.attributes
  have hevs := sum_add_le_flatMap fun e (_ : e ∈ s.events) => event_items_le_wire e
  have hlinks : (s.links.map DecodedLink.items).sum + s.links.length * 25 ≤
      (s.links.flatMap DecodedLink.wire).length :=
    sum_add_le_flatMap fun l hl => link_items_le_wire (h.links l hl)
  have hpar := parentWire_length_pos s.parentSpanId
  simp only [Span.items, Span.wire, strWire, length_append, toBe_length, h.traceId, h.spanId]
  omega

/-! ### Spans and batches -/

theorem spanIds_reads : (passing limit).Reads (raw limit 28) (fun p : (Nat × Nat) ×
    (Bytes × Bytes) => (p.1.1 < 256 ^ 2 ∧ p.1.2 < 256 ^ 2) ∧ p.2.1.length = 16 ∧ p.2.2.length = 8) (fun _ => ())
    (fun p => .copy (toBe 2 p.1.1 ++ (toBe 2 p.1.2 ++ (p.2.1 ++ p.2.2)))) := by
  refine raw_reads_as (fun b hb => ?_) ?_
  · obtain ⟨b₁, b, h₁, hb₁, rfl⟩ := exists_append_of_length (m := 2) (n := 26) hb
    obtain ⟨b₂, b, h₂, hb₂, rfl⟩ := exists_append_of_length (m := 2) (n := 24) hb₁
    obtain ⟨b₃, b₄, h₃, h₄, rfl⟩ := exists_append_of_length (m := 16) (n := 8) hb₂
    obtain ⟨resourceIdx, hr, rfl⟩ := exists_toBe h₁
    obtain ⟨scopeIdx, hs, rfl⟩ := exists_toBe h₂
    exact ⟨((resourceIdx, scopeIdx), b₃, b₄), ⟨⟨hr, hs⟩, h₃, h₄⟩, rfl⟩
  · rintro ⟨⟨r, s⟩, t, i⟩ ⟨-, ht, hi⟩
    simp only [length_append, toBe_length, ht, hi]

theorem spanTimes_reads : (passing limit).Reads (raw limit 18) (fun p : (Nat × Nat) ×
    (Nat × Nat) => (p.1.1 < 256 ^ 1 ∧ p.1.2 < 256 ^ 8) ∧ p.2.1 < 256 ^ 8 ∧ p.2.2 < 256 ^ 1) (fun _ => ())
    (fun p => .copy (toBe 1 p.1.1 ++ (toBe 8 p.1.2 ++ (toBe 8 p.2.1 ++ toBe 1 p.2.2)))) := by
  refine raw_reads_as (fun b hb => ?_) (by simp)
  obtain ⟨b₁, b, h₁, hb₁, rfl⟩ := exists_append_of_length (m := 1) (n := 17) hb
  obtain ⟨b₂, b, h₂, hb₂, rfl⟩ := exists_append_of_length (m := 8) (n := 9) hb₁
  obtain ⟨b₃, b₄, h₃, h₄, rfl⟩ := exists_append_of_length (m := 8) (n := 1) hb₂
  obtain ⟨kind, hkind, rfl⟩ := exists_toBe h₁
  obtain ⟨start, hstart, rfl⟩ := exists_toBe h₂
  obtain ⟨stop, hstop, rfl⟩ := exists_toBe h₃
  obtain ⟨status, hstatus, rfl⟩ := exists_toBe h₄
  exact ⟨((kind, start), stop, status), ⟨⟨hkind, hstart⟩, hstop, hstatus⟩, rfl⟩

theorem parseSpanV1_reads : (passing limit).Reads (parseSpanV1 limit) Span.Valid (fun _ => ()) Span.pass := by
  have hevs : (passing limit).Reads (copyLoop limit 2 11 (parseEventV1 limit)) _ _ _ :=
    copyLoop_reads parseEventV1_reads (fun e _ => Nat.le_of_add_left_le (event_items_le_wire e)) 2
  have hlinks : (passing limit).Reads (copyLoop limit 1 25 (parseLinkV1 limit)) _ _ _ :=
    copyLoop_reads parseLinkV1_reads (fun l hl => Nat.le_of_add_left_le (link_items_le_wire hl.fits)) 1
  have hread : (passing limit).Reads (parseSpanV1 limit) _ _ _ :=
    spanIds_reads.bind fun _ _ => copyParent_reads.bind fun _ _ => (copyString_reads 2).bind fun _ _ =>
      spanTimes_reads.bind fun _ _ => (copyString_reads 2).bind fun _ _ =>
      (copyPairs_reads 2).bind fun _ _ => hevs.bind fun _ _ => hlinks
  have hpass (s : Span) : s.pass = (passing limit).mul
      (.copy (toBe 2 s.resourceIdx ++ (toBe 2 s.scopeIdx ++ (s.traceId ++ s.spanId))))
      ((passing limit).mul (.copy (parentWire s.parentSpanId)) ((passing limit).mul (.copy (strWire 2 s.name))
      ((passing limit).mul (.copy (toBe 1 s.kind ++ (toBe 8 s.startUnixNano ++ (toBe 8 s.endUnixNano ++
        toBe 1 s.statusCode)))) ((passing limit).mul (.copy (strWire 2 s.statusMessage))
      ((passing limit).mul (attrsPass 2 s.attributes) ((passing limit).mul
      (countedPass 2 DecodedEvent.pass s.events) (countedPass 1 DecodedLink.pass s.links))))))) := by
    simp [Span.pass, Span.wire, Span.redact, Span.items, Span.dirty, passing, Pass.copy, attrsPass,
      countedPass, DecodedEvent.pass, DecodedLink.pass, flatMap_map]
  refine hread.congr ?_ ?_
  · rintro ⟨⟨⟨resourceIdx, scopeIdx⟩, traceId, spanId⟩, parent, name, ⟨⟨kind, start⟩, stop, status⟩, message,
      attrs, events, links⟩ ⟨⟨⟨hres, hscope⟩, htrace, hspan⟩, hpar, ⟨hname, hnameUtf8⟩,
      ⟨⟨hkind, hstart⟩, hstop, hstatus⟩, ⟨hmessage, hmessageUtf8⟩, ⟨hattrCount, hattrs⟩,
      ⟨heventCount, hevs⟩, hlinkCount, hlinks⟩
    refine ⟨⟨resourceIdx, scopeIdx, traceId, spanId, parent, name, kind, start, stop, status, message, attrs,
      events, links⟩, ⟨?_, hnameUtf8, hmessageUtf8, hattrs, hevs, hlinks⟩, rfl, hpass _⟩
    exact ⟨hres, hscope, htrace, hspan, hpar, hname, hkind, hstart, hstop, hstatus, hmessage,
      ⟨hattrCount, fun p hp => (hattrs p hp).fits⟩, heventCount, fun e he => (hevs e he).fits,
      hlinkCount, fun l hl => (hlinks l hl).fits⟩
  · intro s hs
    have hf := hs.fits
    exact ⟨(((s.resourceIdx, s.scopeIdx), s.traceId, s.spanId), s.parentSpanId, s.name,
      ((s.kind, s.startUnixNano), s.endUnixNano, s.statusCode), s.statusMessage, s.attributes, s.events, s.links),
      ⟨⟨⟨hf.resourceIdx, hf.scopeIdx⟩, hf.traceId, hf.spanId⟩, hf.parentSpanId, ⟨hf.name, hs.name⟩,
      ⟨⟨hf.kind, hf.startUnixNano⟩, hf.endUnixNano, hf.statusCode⟩, ⟨hf.statusMessage, hs.statusMessage⟩,
      ⟨hf.attributes.count, hs.attributes⟩, ⟨hf.eventCount, hs.events⟩, hf.linkCount, hs.links⟩, rfl, (hpass s).symm⟩

theorem parseTraceBatchV1_reads :
    (passing limit).Reads (parseTraceBatchV1 limit) TracesBatch.Valid (fun _ => ()) TracesBatch.pass := by
  have hress : (passing limit).Reads (copyLoop limit 2 2 (copyPairs limit 2)) _ _ _ :=
    copyLoop_reads (copyPairs_reads 2) (fun ps _ => Nat.le_of_add_left_le (length_attrsWire_le 2 ps)) 2
  have hscopes : (passing limit).Reads (copyLoop limit 2 2 (parseScopeV1 limit)) _ _ _ :=
    copyLoop_reads parseScopeV1_reads (fun s _ => length_scopeEntryWire_le s) 2
  have hspans : (passing limit).Reads (copyLoop limit 4 56 (parseSpanV1 limit)) _ _ _ :=
    copyLoop_reads parseSpanV1_reads (fun s hs => Nat.le_of_add_left_le (span_items_le_wire hs.fits)) 4
  have hread : (passing limit).Reads (parseTraceBatchV1 limit) _ _ _ :=
    hress.bind fun _ _ => hscopes.bind fun _ _ => hspans
  have hpass (b : TracesBatch) : b.pass = (passing limit).mul (countedPass 2 (attrsPass 2) b.resources)
      ((passing limit).mul (countedPass 2 (fun s => .copy (scopeEntryWire s)) b.scopes)
        (countedPass 4 Span.pass b.spans)) := by
    rw [countedPass_copy]
    simp [TracesBatch.pass, TracesBatch.wire, TracesBatch.dictionariesWire, TracesBatch.redact,
      TracesBatch.items, TracesBatch.dirty, passing, attrsPass, countedPass, Span.pass, flatMap_map]
  refine hread.congr ?_ ?_
  · rintro ⟨resources, scopes, spans⟩ ⟨⟨hresourceCount, hress⟩, ⟨hscopeCount, hscopes⟩, hspanCount, hspans⟩
    refine ⟨⟨resources, scopes, spans⟩, ⟨?_, fun r hr => (hress r hr).2,
      fun s hs => (hscopes s hs).1.2, hspans⟩, rfl, hpass _⟩
    exact ⟨hresourceCount, fun r hr => ⟨(hress r hr).1, fun p hp => ((hress r hr).2 p hp).fits⟩,
      hscopeCount, fun s hs => ⟨(hscopes s hs).1.1, (hscopes s hs).2⟩, hspanCount, fun s hs => (hspans s hs).fits⟩
  · intro b hb
    have hf := hb.fits
    exact ⟨(b.resources, b.scopes, b.spans), ⟨⟨hf.resourceCount, fun r hr => ⟨(hf.resources r hr).count,
      hb.resources r hr⟩⟩, ⟨hf.scopeCount, fun s hs => ⟨⟨(hf.scopes s hs).1, hb.scopes s hs⟩,
      (hf.scopes s hs).2⟩⟩, hf.spanCount, hb.spans⟩, rfl, (hpass b).symm⟩

end V1Cursor

/-! ## Redacted batches -/

variable {ps : List (Bytes × Bytes)}

theorem redactPairs_of_clean (h : ps.any pairDirty = false) : redactPairs ps = ps :=
  map_eq_self_of_clean (fun _ => redactPair_of_clean) h

variable {e : DecodedEvent}

theorem DecodedEvent.redact_of_clean (h : e.dirty = false) : e.redact = e := by
  rw [DecodedEvent.redact, redactPairs_of_clean h]

variable {l : DecodedLink}

theorem DecodedLink.redact_of_clean (h : l.dirty = false) : l.redact = l := by
  rw [DecodedLink.redact, redactPairs_of_clean h]

theorem Span.redact_of_clean {s : Span} (h : s.dirty = false) : s.redact = s := by
  simp only [Span.dirty, Bool.or_eq_false_iff] at h
  obtain ⟨hattrs, hevs, hlinks⟩ := h
  rw [Span.redact, redactPairs_of_clean hattrs, map_eq_self_of_clean (fun _ => DecodedEvent.redact_of_clean) hevs,
    map_eq_self_of_clean (fun _ => DecodedLink.redact_of_clean) hlinks]

variable {b : TracesBatch}

theorem TracesBatch.redact_of_clean (h : b.dirty = false) : b.redact = b := by
  simp only [TracesBatch.dirty, Bool.or_eq_false_iff] at h
  rw [TracesBatch.redact, map_eq_self_of_clean (fun _ => redactPairs_of_clean) h.1,
    map_eq_self_of_clean (fun _ => Span.redact_of_clean) h.2]

variable {payload output : Bytes}

theorem redactTracesV1_ok : redactTracesV1 payload = .ok output ↔ payload.length ≤
    defaultMaxBatchBytes ∧ output.length ≤ defaultMaxBatchBytes ∧ ∃ b : TracesBatch, b.Valid ∧ payload = b.wire ∧
    output = b.redact.wire := by
  refine redactV1_ok (fun _ => parseTraceBatchV1_reads) (fun b hb => ?_) fun b hclean => ?_
  · have hress := sum_add_le_flatMap fun r (_ : r ∈ b.resources) => length_attrsWire_le 2 r
    have hscopes : b.scopes.length * 2 ≤ (b.scopes.flatMap scopeEntryWire).length := by
      have hle : ∀ s ∈ b.scopes, 0 + 2 ≤ (scopeEntryWire s).length := by
        intro s _
        simpa using length_scopeEntryWire_le s
      simpa [map_const', sum_replicate_nat] using sum_add_le_flatMap hle
    have hspans : (b.spans.map Span.items).sum + b.spans.length * 56 ≤ (b.spans.flatMap Span.wire).length :=
      sum_add_le_flatMap fun s hs => span_items_le_wire (hb.fits.spans s hs)
    simp only [TracesBatch.pass, TracesBatch.items, TracesBatch.wire, TracesBatch.dictionariesWire, length_append]
    omega
  · simp only [TracesBatch.pass]
    rw [TracesBatch.redact_of_clean hclean]

theorem redactPairs_redactPairs (ps : List (Bytes × Bytes)) : redactPairs (redactPairs ps) = redactPairs ps := by
  simp [redactPairs, redactPair_redactPair]

theorem DecodedEvent.redact_redact (e : DecodedEvent) : e.redact.redact = e.redact := by
  simp [DecodedEvent.redact, redactPairs_redactPairs]

theorem DecodedLink.redact_redact (l : DecodedLink) : l.redact.redact = l.redact := by
  simp [DecodedLink.redact, redactPairs_redactPairs]

theorem Span.redact_redact (s : Span) : s.redact.redact = s.redact := by
  simp [Span.redact, redactPairs_redactPairs, DecodedEvent.redact_redact, DecodedLink.redact_redact]

theorem TracesBatch.redact_redact (b : TracesBatch) : b.redact.redact = b.redact := by
  simp [TracesBatch.redact, redactPairs_redactPairs, Span.redact_redact]

theorem pairValid_redactPairs (h : ∀ p ∈ ps, PairValid p) :
    ∀ p ∈ redactPairs ps, PairValid p :=
  forall_mem_map.mpr fun p hp => (h p hp).redact

theorem AttrsFit.redact {k : Nat} (h : AttrsFit k ps)
    (hvalid : ∀ p ∈ ps, PairValid p) : AttrsFit k (redactPairs ps) :=
  ⟨by simpa [redactPairs] using h.count, fun p hp => (pairValid_redactPairs hvalid p hp).fits⟩

theorem DecodedEvent.Valid.redact (h : e.Valid) : e.redact.Valid :=
  ⟨⟨h.fits.ts, h.fits.name, h.fits.attributes.redact h.attributes⟩, h.name, pairValid_redactPairs h.attributes⟩

theorem DecodedLink.Valid.redact (h : l.Valid) : l.redact.Valid :=
  ⟨⟨h.fits.traceId, h.fits.spanId, h.fits.attributes.redact h.attributes⟩, pairValid_redactPairs h.attributes⟩

theorem Span.Valid.redact {s : Span} (h : s.Valid) : s.redact.Valid := by
  have hevs := forall_mem_map.mpr fun e he => (h.events e he).redact
  have hlinks : ∀ l ∈ s.redact.links, l.Valid :=
    forall_mem_map.mpr fun l hl => (h.links l hl).redact
  refine ⟨{ h.fits with
    attributes := h.fits.attributes.redact h.attributes
    eventCount := by simpa [Span.redact] using h.fits.eventCount
    events := fun e he => (hevs e he).fits
    linkCount := by simpa [Span.redact] using h.fits.linkCount
    links := fun l hl => (hlinks l hl).fits }, h.name, h.statusMessage,
    pairValid_redactPairs h.attributes, hevs, hlinks⟩

theorem TracesBatch.Valid.redact (h : b.Valid) : b.redact.Valid := by
  have hress : ∀ r ∈ b.redact.resources, ∀ p ∈ r, PairValid p :=
    forall_mem_map.mpr fun r hr => pairValid_redactPairs (h.resources r hr)
  have hspans : ∀ s ∈ b.redact.spans, s.Valid :=
    forall_mem_map.mpr fun s hs => (h.spans s hs).redact
  refine ⟨{ h.fits with
    resourceCount := by simpa [TracesBatch.redact] using h.fits.resourceCount
    resources := forall_mem_map.mpr fun r hr => (h.fits.resources r hr).redact (h.resources r hr)
    spanCount := by simpa [TracesBatch.redact] using h.fits.spanCount
    spans := fun s hs => (hspans s hs).fits }, hress, h.scopes, hspans⟩

theorem redactTracesV1_again (h : redactTracesV1 payload = .ok output) :
    redactTracesV1 output = .ok output := by
  obtain ⟨-, hout, b, hb, -, rfl⟩ := redactTracesV1_ok.mp h
  exact redactTracesV1_ok.mpr ⟨hout, hout, b.redact, hb.redact, rfl, by rw [b.redact_redact]⟩

end Scry.Proto
