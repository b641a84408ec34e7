import Scry.Proto.Agreement
import Scry.Proto.Replay

/-! # Redaction hides what it replaces

No length, count or offset of the output depends on a value under a sensitive key.
-/

open Scry.Lib

namespace Scry.Proto

open AnyValueInput

/-! ## Batches that differ in secrets only -/

/-- The same pairs, but for the values under sensitive keys. -/
def PairsAgree (ps ps' : List (Bytes × Bytes)) : Prop :=
  List.Forall₂ (fun p p' => p.1 = p'.1 ∧ (isSensitiveKey p.1 = false → p.2 = p'.2)) ps ps'

structure LogEntry.Agree (e e' : LogEntry) : Prop where
  ts : e.tsUnixNano = e'.tsUnixNano
  severity : e.severity = e'.severity
  body : e.body = e'.body
  attributes : PairsAgree e.attributes e'.attributes

structure LogStream.Agree (s s' : LogStream) : Prop where
  fingerprint : s.fingerprint = s'.fingerprint
  labels : PairsAgree s.labels s'.labels
  entries : List.Forall₂ LogEntry.Agree s.entries s'.entries

structure DecodedEvent.Agree (e e' : DecodedEvent) : Prop where
  ts : e.tsUnixNano = e'.tsUnixNano
  name : e.name = e'.name
  attributes : PairsAgree e.attributes e'.attributes

structure DecodedLink.Agree (l l' : DecodedLink) : Prop where
  traceId : l.traceId = l'.traceId
  spanId : l.spanId = l'.spanId
  attributes : PairsAgree l.attributes l'.attributes

structure Span.Agree (s s' : Span) : Prop where
  fields : s' = { s with attributes := s'.attributes, events := s'.events, links := s'.links }
  attributes : PairsAgree s.attributes s'.attributes
  events : List.Forall₂ DecodedEvent.Agree s.events s'.events
  links : List.Forall₂ DecodedLink.Agree s.links s'.links

structure TracesBatch.Agree (b b' : TracesBatch) : Prop where
  resources : List.Forall₂ PairsAgree b.resources b'.resources
  scopes : b.scopes = b'.scopes
  spans : List.Forall₂ Span.Agree b.spans b'.spans

namespace AnyValueInput

/-- The same but for what stands under sensitive keys. -/
inductive Agree : AnyValueInput → AnyValueInput → Prop
  | refl (t : AnyValueInput) : Agree t t
  | array {vs vs' : List AnyValueInput} (length : vs.length = vs'.length)
      (items : ∀ (i : Nat) v v', vs[i]? = some v → vs'[i]? = some v' → Agree v v') :
      Agree (array vs) (array vs')
  | map {es es' : List KeyValueInput} (keys : es.map Prod.fst = es'.map Prod.fst)
      (values : ∀ (i : Nat) e e', es[i]? = some e → es'[i]? = some e' → isSensitiveKey e.1 = false →
        Agree e.2 e'.2) : Agree (map es) (map es')

end AnyValueInput

/-! ## What agrees is redacted to the same -/

theorem redactPair_eq {p p' : Bytes × Bytes}
    (h : p.1 = p'.1 ∧ (isSensitiveKey p.1 = false → p.2 = p'.2)) : redactPair p = redactPair p' := by
  obtain ⟨hkey, hvalue⟩ := h
  unfold redactPair
  rw [← hkey]
  split
  · rfl
  · rename_i hs
    exact Prod.ext hkey (hvalue (by simpa using hs))

variable {α β : Type}

theorem map_eq_of_related {R : α → α → Prop} {f : α → β} {xs ys : List α}
    (h : List.Forall₂ R xs ys) (hf : ∀ x y, R x y → f x = f y) : xs.map f = ys.map f :=
  map_eq_of_forall₂ h fun x _ y _ => hf x y

theorem PairsAgree.redact_eq {ps ps' : List (Bytes × Bytes)} (h : PairsAgree ps ps') :
    redactPairs ps = redactPairs ps' :=
  map_eq_of_related h fun _ _ => redactPair_eq

theorem LogEntry.Agree.redact_eq {e e' : LogEntry} (h : e.Agree e') : e.redact = e'.redact := by
  have hattrs : e.attributes.map redactPair = e'.attributes.map redactPair := h.attributes.redact_eq
  simp only [LogEntry.redact, h.ts, h.severity, h.body, hattrs]

theorem LogStream.Agree.redact_eq {s s' : LogStream} (h : s.Agree s') : s.redact = s'.redact := by
  have hlabs : s.labels.map redactPair = s'.labels.map redactPair := h.labels.redact_eq
  simp only [LogStream.redact, h.fingerprint, hlabs, map_eq_of_related h.entries fun _ _ => LogEntry.Agree.redact_eq]

theorem DecodedEvent.Agree.redact_eq {e e' : DecodedEvent} (h : e.Agree e') : e.redact = e'.redact := by
  simp only [DecodedEvent.redact, h.ts, h.name, h.attributes.redact_eq]

theorem DecodedLink.Agree.redact_eq {l l' : DecodedLink} (h : l.Agree l') : l.redact = l'.redact := by
  simp only [DecodedLink.redact, h.traceId, h.spanId, h.attributes.redact_eq]

theorem Span.Agree.redact_eq {s s' : Span} (h : s.Agree s') : s.redact = s'.redact := by
  rw [h.fields]
  simp only [Span.redact, h.attributes.redact_eq, map_eq_of_related h.events fun _ _ => DecodedEvent.Agree.redact_eq,
    map_eq_of_related h.links fun _ _ => DecodedLink.Agree.redact_eq]

variable {b b' : TracesBatch}

theorem TracesBatch.Agree.redact_eq (h : b.Agree b') : b.redact = b'.redact := by
  simp only [TracesBatch.redact, h.scopes, map_eq_of_related h.resources fun _ _ => PairsAgree.redact_eq,
    map_eq_of_related h.spans fun _ _ => Span.Agree.redact_eq]

theorem map_eq_of_getElem? {f g : α → β} {xs ys : List α} (hlen : xs.length = ys.length)
    (h : ∀ (i : Nat) x y, xs[i]? = some x → ys[i]? = some y → f x = g y) : xs.map f = ys.map g := by
  apply List.ext_getElem
  · simpa using hlen
  · intro i hi hi'
    simp only [List.length_map] at hi hi'
    simp only [List.getElem_map]
    exact h i _ _ (List.getElem?_eq_getElem hi) (List.getElem?_eq_getElem hi')

theorem AnyValueInput.Agree.redact_eq {t t' : AnyValueInput} (h : t.Agree t') : t.redact = t'.redact := by
  induction h with
  | refl t => rfl
  | array hlen _ ih =>
    rw [redact, redact]
    exact congrArg AnyValueInput.array (map_eq_of_getElem? hlen ih)
  | @map es es' hkeys _ ih =>
    rw [redact_map, redact_map]
    have hlen : es.length = es'.length := by simpa using congrArg List.length hkeys
    refine congrArg AnyValueInput.map (map_eq_of_getElem? hlen fun i e e' he he' => ?_)
    have hkey : e.1 = e'.1 := by
      have := congrArg (fun ks => ks[i]?) hkeys
      simpa [he, he'] using this
    unfold redactKeyValue
    rw [← hkey]
    split
    · rfl
    · rename_i hs
      rw [ih i e e' he he' (by simpa using hs)]

/-! ## Outputs -/

variable {p p' q q' : Bytes}

theorem redactLogsV1_agree {streams streams' : List LogStream} (hq : redactLogsV1 p = .ok q)
    (hq' : redactLogsV1 p' = .ok q') (hp : decodeLogsBatch p = .ok streams) (hp' : decodeLogsBatch p' = .ok streams')
    (h : List.Forall₂ LogStream.Agree streams streams') : q = q' := by
  have hsame {p q : Bytes} {streams : List LogStream} (hq : redactLogsV1 p = .ok q)
      (hp : decodeLogsBatch p = .ok streams) : q = batchWire (streams.map LogStream.redact) := by
    obtain ⟨-, -, streams', hto⟩ := redactLogsV1_ok.mp hq
    cases hp.symm.trans hto.decodeLogsBatch
    exact hto.output
  rw [hsame hq hp, hsame hq' hp', map_eq_of_related h fun _ _ => LogStream.Agree.redact_eq]

theorem redactTracesV1_agree {c c' : Cursor Unit}
    (hq : redactTracesV1 p = .ok q) (hq' : redactTracesV1 p' = .ok q') (hp : readTraces ⟨p, ()⟩ = .ok (b, c))
    (hp' : readTraces ⟨p', ()⟩ = .ok (b', c')) (h : b.Agree b') : q = q' := by
  have hsame {p q : Bytes} {b : TracesBatch} {c : Cursor Unit} (hq : redactTracesV1 p = .ok q)
      (hp : readTraces ⟨p, ()⟩ = .ok (b, c)) : q = b.redact.wire := by
    obtain ⟨-, -, b', hb', rfl, rfl⟩ := redactTracesV1_ok.mp hq
    rw [hb'.fits.readTraces_wire] at hp
    cases hp
    rfl
  rw [hsame hq hp, hsame hq' hp', h.redact_eq]

theorem redactLogsV2_agree {p p' : Bytes} {limits limits' : DecodeLimits} {q q' : Cow}
    {records records' : List CanonicalLogRecord} (hq : redactLogsV2 p limits = .ok q)
    (hq' : redactLogsV2 p' limits' = .ok q') (hp : decodeLogsBatchV2Into p limits collecting [] = .ok records)
    (hp' : decodeLogsBatchV2Into p' limits' collecting [] = .ok records')
    (hver : envelopeVersion p = envelopeVersion p') (h : List.Forall₂
    (fun r r' => SameBut AnyValueInput.Agree r r' ∧ r.receivedTimeUnixNano = r'.receivedTimeUnixNano) records
    records') : q.bytes = q'.bytes := by
  obtain ⟨version, hvalid⟩ := decode_collecting.mp hp
  obtain ⟨hlen, batch, hbatch, hpay, rfl⟩ := validateEnvelope_iff.mp hvalid
  obtain ⟨version', hvalid'⟩ := decode_collecting.mp hp'
  obtain ⟨hlen', batch', hbatch', hpay', rfl⟩ := validateEnvelope_iff.mp hvalid'
  rw [((redactLogsV2_ok hlen hbatch hpay).mp hq).2, ((redactLogsV2_ok hlen' hbatch' hpay').mp hq').2,
    redactedCow_bytes, redactedCow_bytes]
  rw [hpay, hpay', hbatch.envelopeVersion, hbatch'.envelopeVersion] at hver
  cases hver
  rw [List.forall₂_map_left_iff, List.forall₂_map_right_iff] at h
  have hred : batch.map RecordTree.redact = batch'.map RecordTree.redact := by
    refine map_eq_of_forall₂ h fun r hr r' hr' hsame => ?_
    have hrecv : r.receivedTimeUnixNano = r'.receivedTimeUnixNano :=
      Option.map_injective (fun _ _ => UInt64.toNat_inj.mp) hsame.2
    exact hsame.1.mapValues_eq redact_map (fun _ _ => AnyValueInput.Agree.redact_eq)
      (hbatch.records r hr).fits (hbatch'.records r' hr').fits hrecv
  rw [hred]

/-- **Redaction noninterference.** Payloads that differ only under sensitive keys are redacted to the same
bytes. -/
theorem redaction_noninterference : (∀ p p' q q' streams streams', redactLogsV1 p = .ok q → redactLogsV1 p' = .ok q' →
    decodeLogsBatch p = .ok streams → decodeLogsBatch p' = .ok streams' → List.Forall₂ LogStream.Agree streams
    streams' → q = q') ∧ (∀ p p' q q' b b' c c', redactTracesV1 p = .ok q → redactTracesV1 p' = .ok q' → readTraces
    ⟨p, ()⟩ = .ok (b, c) → readTraces ⟨p', ()⟩ = .ok (b', c') → b.Agree b' → q = q') ∧ ∀ p p' limits limits' q q'
    records records', redactLogsV2 p limits = .ok q → redactLogsV2 p' limits' = .ok q' → decodeLogsBatchV2Into p
    limits collecting [] = .ok records → decodeLogsBatchV2Into p' limits' collecting [] = .ok records' →
    envelopeVersion p = envelopeVersion p' → List.Forall₂ (fun r r' => SameBut AnyValueInput.Agree r r' ∧
    r.receivedTimeUnixNano = r'.receivedTimeUnixNano) records records' → q.bytes = q'.bytes := by
  refine ⟨?_, ?_, ?_⟩
  · intro p p' q q' streams streams' hq hq' hp hp' h
    exact redactLogsV1_agree hq hq' hp hp' h
  · intro p p' q q' b b' c c' hq hq' hp hp' h
    exact redactTracesV1_agree hq hq' hp hp' h
  · intro p p' limits limits' q q' records records' hq hq' hp hp' hversion h
    exact redactLogsV2_agree hq hq' hp hp' hversion h

def otherRecord : RecordTree :=
  { secretRecord with
    resourceAttributes := [(⟨ascii "password", validUtf8_password⟩, .int64 1)]
    body := .array [.null, .map [(⟨ascii "api_key", validUtf8_apiKey⟩, .null)]] }

theorem secretRecord_fits : secretRecord.Fits .default logsRawVersionV1 :=
  ⟨by decide, by decide,
    by
      rintro _ ⟨⟩
      exact ⟨by decide, by decide, by decide⟩,
    by decide, by decide, by rintro _ ⟨⟩, by decide, by decide,
    by decide, by decide, by rintro _ ⟨⟩, by rintro _ ⟨⟩, .inl rfl⟩

theorem otherRecord_fits : otherRecord.Fits .default logsRawVersionV1 :=
  { secretRecord_fits with
    resourceAttributes := by decide
    body := by decide }

theorem secretRecord_agrees : SameBut AnyValueInput.Agree (secretRecord.view logsRawVersionV1 secretRecord.wire)
    (otherRecord.view logsRawVersionV1 otherRecord.wire) := by
  have h := secretRecord_fits
  have h' := otherRecord_fits
  have hscope : ScopesRelated AnyValueInput.Agree (secretRecord.scope.map ScopeInput.view)
      (otherRecord.scope.map ScopeInput.view) :=
    ⟨rfl, rfl, rfl, (viewsRelated_wire (h.scope _ rfl).attributes (h'.scope _ rfl).attributes).mpr (.refl _)⟩
  have hsec {k : Str} {v v' : AnyValueInput} (hk : isSensitiveKey k.1 = true) :
      (AnyValueInput.map [(k, v)]).Agree (.map [(k, v')]) := by
    refine .map rfl fun i e e' he he' hs => ?_
    obtain rfl : (k, v) = e := by
      cases i <;> simp_all
    simp [hk] at hs
  refine ⟨rfl, rfl, (h.resourceAttributes.viewsRelated h'.resourceAttributes).mpr (hsec (by decide)),
    hscope, rfl, rfl, rfl, rfl, rfl, rfl, (viewsRelated_wire h.body h'.body).mpr (.array rfl fun i v v' hv hv' => ?_),
    rfl, (h.attributes.viewsRelated h'.attributes).mpr (.refl _), rfl, rfl, rfl⟩
  match i, hv, hv' with
  | 0, hv, hv' =>
    cases hv
    cases hv'
    exact .refl _
  | 1, hv, hv' =>
    cases hv
    cases hv'
    exact hsec (by decide)

def otherStream : LogStream :=
  { secretStream with entries := [⟨5, 1, ascii "hi", [(ascii "token", [])]⟩] }

def secretBatch : TracesBatch := ⟨[[]], [(ascii "lib", [0xff])], [secretSpan]⟩

def otherBatch : TracesBatch :=
  { secretBatch with
    spans := [{ secretSpan with events := [⟨7, ascii "login", [(ascii "password", ascii "x")]⟩] }] }

theorem redaction_noninterference_secret : (∃ q q', redactLogsV1 (batchWire [secretStream]) = .ok q ∧ redactLogsV1
    (batchWire [otherStream]) = .ok q' ∧ q = q') ∧ (∃ q q', redactTracesV1 secretBatch.wire = .ok q ∧ redactTracesV1
    otherBatch.wire = .ok q' ∧ q = q') ∧ ∃ q q', redactLogsV2 (batchV2Wire logsRawVersionV1 [secretRecord]) .default =
    .ok q ∧ redactLogsV2 (batchV2Wire logsRawVersionV1 [otherRecord]) .default = .ok q' ∧ q.bytes = q'.bytes := by
  refine ⟨?_, ?_, ?_⟩
  · have hq : redactLogsV1 (batchWire [secretStream]) = .ok (batchWire [secretStream.redact]) := by
      decide +kernel
    have hq' : redactLogsV1 (batchWire [otherStream]) = .ok (batchWire [otherStream.redact]) := by
      decide +kernel
    have hagree : secretStream.Agree otherStream := by
      refine ⟨rfl, ?_, .cons ⟨rfl, rfl, rfl, ?_⟩ .nil⟩
      · exact .cons ⟨rfl, fun _ => rfl⟩ .nil
      · exact .cons ⟨rfl, fun hs => absurd hs (by decide +kernel)⟩ .nil
    exact ⟨_, _, hq, hq', redaction_noninterference.1 _ _ _ _ [secretStream] [otherStream] hq hq'
      (by decide +kernel) (by decide +kernel) (.cons hagree .nil)⟩
  · have hq : redactTracesV1 secretBatch.wire = .ok secretBatch.redact.wire := by decide +kernel
    have hq' : redactTracesV1 otherBatch.wire = .ok otherBatch.redact.wire := by decide +kernel
    have hevent : PairsAgree [(ascii "password", ascii "hunter2")] [(ascii "password", ascii "x")] :=
      .cons ⟨rfl, fun hs => absurd hs (by decide +kernel)⟩ .nil
    have hagree : secretBatch.Agree otherBatch := by
      refine ⟨.cons .nil .nil, rfl, .cons ⟨rfl, ?_, .cons ⟨rfl, rfl, hevent⟩ .nil, .nil⟩ .nil⟩
      exact .cons ⟨rfl, fun _ => rfl⟩ .nil
    have hread : readTraces ⟨secretBatch.wire, ()⟩ = .ok (secretBatch, ⟨[], ()⟩) := by decide +kernel
    have hread' : readTraces ⟨otherBatch.wire, ()⟩ = .ok (otherBatch, ⟨[], ()⟩) := by decide +kernel
    exact ⟨_, _, hq, hq', redaction_noninterference.2.1 _ _ _ _ _ _ _ _ hq hq' hread hread' hagree⟩
  · have hq : redactLogsV2 (batchV2Wire logsRawVersionV1 [secretRecord]) .default =
        .ok (.owned (batchV2Wire logsRawVersionV1 [secretRecord.redact])) := by decide +kernel
    have hq' : redactLogsV2 (batchV2Wire logsRawVersionV1 [otherRecord]) .default =
        .ok (.owned (batchV2Wire logsRawVersionV1 [otherRecord.redact])) := by decide +kernel
    exact ⟨_, _, hq, hq', redaction_noninterference.2.2 _ _ _ _ _ _
      [secretRecord.view logsRawVersionV1 secretRecord.wire] [otherRecord.view logsRawVersionV1 otherRecord.wire] hq
      hq' (by decide +kernel) (by decide +kernel) (by decide +kernel) (.cons ⟨secretRecord_agrees, rfl⟩ .nil)⟩

end Scry.Proto
