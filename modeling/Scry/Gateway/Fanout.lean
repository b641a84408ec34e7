import Scry.Gateway.Otlp
import Scry.Proto.Replay

/-! # Fan-out of logs and traces

A batch is encoded, redacted as bytes, and decoded again before it goes to the sinks. The encoders cut what
does not fit the widths of the format.
-/

open Scry.Lib Scry.Proto Scry.Proto.Wire

namespace Scry.Gateway

open List Generated

/-! ## Offers -/

structure CanonicalLogsBatch where
  payload : Bytes
  recordCount : UInt32
  tsMin : UInt64
  tsMax : UInt64
  deriving DecidableEq

structure LogsFanout where
  projection : Generated.LogsBatch
  canonical : Option CanonicalLogsBatch
  deriving DecidableEq

inductive OfferError where
  | v1 (e : BinSchemaError)
  | v2 (e : DecodeError)
  deriving DecidableEq

def LogsFanout.recordCount (f : LogsFanout) : Nat :=
  match f.canonical with
  | some c => c.recordCount.toNat
  | none => (f.projection.streams.map fun s => s.entries.length).sum

def redactCanonical : Option CanonicalLogsBatch → Except (Fault OfferError) (Option CanonicalLogsBatch)
  | none => .ok none
  | some c => do
    let cow ← (redactLogsV2 c.payload .default).mapError (Fault.map .v2)
    return some { c with payload := cow.bytes }

def offerLogsFanout (f : LogsFanout) : Except (Fault OfferError) (Option LogsFanout) :=
  if f.recordCount = 0 then .ok none
  else do
    let payload ← (redactLogsV1 (Generated.LogsBatch.codec.write f.projection)).mapError (.error ∘ .v1)
    let projection ← (decode Generated.LogsBatch.codec payload).mapError (.error ∘ .v1)
    let canonical ← redactCanonical f.canonical
    return some ⟨projection, canonical⟩

def offerTraces (b : Generated.TracesBatch) : Except BinSchemaError (Option Generated.TracesBatch) :=
  if b.spans = [] then .ok none
  else do
    let payload ← redactTracesV1 (Generated.TracesBatch.codec.write b)
    let redacted ← decode Generated.TracesBatch.codec payload
    return some redacted

/-! ## The canonical payload -/

/-- The same records, with the values under sensitive keys replaced. -/
def CanonicalRedacts : Option CanonicalLogsBatch → Option CanonicalLogsBatch → Prop
  | none, d => d = none
  | some c, d => ∃ rawVersion batch, BatchAccepted .default rawVersion batch ∧
      c.payload = batchV2Wire rawVersion batch ∧
      d = some { c with payload := batchV2Wire rawVersion (batch.map RecordTree.redact) }

theorem redactLogsV2_ne_panic (payload : Bytes) (limits : DecodeLimits) :
    redactLogsV2 payload limits ≠ .error .panic := by
  intro hfail
  simp only [redactLogsV2, except_bind_error] at hfail
  obtain hdec | ⟨sink, -, hcheck⟩ := hfail
  · simp only [decodeLogsBatchV2Into, except_bind_error, mapError_error, mapError_ok, Prod.exists,
      reduceCtorEq, and_false, exists_false, false_or] at hdec
    obtain ⟨rawVersion, records, hvalid, a, -, hfold⟩ := hdec
    obtain ⟨-, batch, hbatch, -, rfl⟩ := validateEnvelope_iff.mp hvalid
    obtain ⟨_, hmem, s, hstep⟩ := foldlM_error hfold
    obtain ⟨r, hr, rfl⟩ := mem_map.mp hmem
    obtain ⟨e, he, hmap⟩ := mapError_error.mp hstep
    -- Every record of an accepted batch is written again; only its length can be refused.
    simp only [redactionSink, (hbatch.records r hr).fits.reencodeRecord, orPanic, except_bind_error,
      Except.ok.injEq, exists_eq_left', reduceCtorEq, false_or] at he
    split at he
    · cases he
      cases hmap
    · split at he
      · cases he
        cases hmap
      · cases he
  · split at hcheck
    · cases hcheck
    · split at hcheck <;> cases hcheck

theorem redactCanonical_ok {c d : Option CanonicalLogsBatch} (h : redactCanonical c = .ok d) :
    CanonicalRedacts c d := by
  cases c with
  | none =>
    cases h
    rfl
  | some c =>
    simp only [redactCanonical, except_bind_ok, mapError_ok] at h
    obtain ⟨cow, hcow, hd⟩ := h
    cases hd
    obtain ⟨sink, hdec, -⟩ := except_bind_ok.mp hcow
    obtain ⟨rawVersion, records, hvalid, -⟩ := decode_ok.mp hdec
    obtain ⟨hlen, batch, hbatch, hpay, -⟩ := validateEnvelope_iff.mp hvalid
    obtain ⟨-, rfl⟩ := (redactLogsV2_ok hlen hbatch hpay).mp hcow
    exact ⟨rawVersion, batch, hbatch, hpay, by rw [redactedCow_bytes]⟩

theorem redactCanonical_ne_panic (c : Option CanonicalLogsBatch) : redactCanonical c ≠ .error .panic := by
  intro hfail
  cases c with
  | none => cases hfail
  | some c =>
    simp only [redactCanonical, except_bind_error, mapError_error] at hfail
    obtain ⟨e, he, hmap⟩ | ⟨cow, -, hret⟩ := hfail
    · cases e with
      | panic => exact redactLogsV2_ne_panic _ _ he
      | error e => cases hmap
    · cases hret

/-! ## What the format holds -/

def ReadsBack {α : Type} (x : Codec BinSchemaError α) (redact : α → α) (a : α) : Prop :=
  ∃ a', x.Fits a' ∧ x.write a' = x.write a ∧ redact a' = redact a

variable {α : Type} {redact : α → α} {x : Codec BinSchemaError α}

theorem ReadsBack.of_fits {a : α}
    (h : x.Fits a) : ReadsBack x redact a := ⟨a, h, rfl, rfl⟩

theorem readsBack_iff {a a' : α} (hfits : x.Fits a')
    (hwrite : x.write a' = x.write a) : ReadsBack x redact a ↔ redact a' = redact a := by
  constructor
  · rintro ⟨a'', hfits'', hwrite'', hred⟩
    have hdec := decode_write hfits
    rw [hwrite, ← hwrite'', decode_write hfits''] at hdec
    cases hdec
    exact hred
  · intro hred
    exact ⟨a', hfits, hwrite, hred⟩

def ShortValue (l : LabelPair) : Prop := isSensitiveKey l.key.val = true → l.value.val.length < 2 ^ 16

theorem labelPair_fits_of_redact {l : LabelPair} (hshort : ShortValue l)
    (h : LabelPair.codec.Fits l.redact) : LabelPair.codec.Fits l := by
  unfold LabelPair.redact at h
  split at h
  · rename_i hsens
    exact ⟨h.1, hshort hsens⟩
  · exact h

theorem list_fits_of_map {width : Nat}
    {as : List α} (hx : ∀ a ∈ as, x.Fits (redact a) → x.Fits a) (h : (list width x).Fits (as.map redact)) :
    (list width x).Fits as :=
  ⟨by simpa using h.1, fun a ha => hx a ha (h.2 _ (mem_map_of_mem ha))⟩

theorem labels_fits_of_redact {width : Nat} {ls : List LabelPair} (hshort : ∀ l ∈ ls, ShortValue l)
    (h : (list width LabelPair.codec).Fits (ls.map LabelPair.redact)) : (list width LabelPair.codec).Fits ls :=
  list_fits_of_map (fun l hl => labelPair_fits_of_redact (hshort l hl)) h

def logLabels (b : Generated.LogsBatch) : List LabelPair :=
  b.streams.flatMap fun s => s.labels ++ s.entries.flatMap fun e => e.attributes

def spanLabels (s : Generated.Span) : List LabelPair :=
  s.attributes ++ (s.events.flatMap (fun e => e.attributes) ++ s.links.flatMap fun l => l.attributes)

def traceLabels (b : Generated.TracesBatch) : List LabelPair :=
  b.resources.flatten ++ b.spans.flatMap spanLabels

theorem logs_fits_of_redact {b : Generated.LogsBatch} (hshort : ∀ l ∈ logLabels b, ShortValue l)
    (h : Generated.LogsBatch.codec.Fits b.redact) : Generated.LogsBatch.codec.Fits b := by
  refine list_fits_of_map (fun s hs hfits => ?_) h
  have hstr : ∀ l ∈ s.labels ++ s.entries.flatMap (fun e => e.attributes), ShortValue l :=
    fun l hl => hshort l (mem_flatMap.mpr ⟨s, hs, hl⟩)
  obtain ⟨hlabs, hents⟩ := forall_mem_append.mp hstr
  refine ⟨hfits.1, labels_fits_of_redact hlabs hfits.2.1, list_fits_of_map (fun e he hentry => ?_) hfits.2.2⟩
  have hattrs : ∀ l ∈ e.attributes, ShortValue l :=
    fun l hl => hents l (mem_flatMap.mpr ⟨e, he, hl⟩)
  exact ⟨hentry.1, hentry.2.1, hentry.2.2.1, labels_fits_of_redact hattrs hentry.2.2.2⟩

theorem span_fits_of_redact {s : Generated.Span} (hshort : ∀ l ∈ spanLabels s, ShortValue l)
    (h : Generated.Span.codec.Fits s.redact) : Generated.Span.codec.Fits s := by
  obtain ⟨hattrs, hrest⟩ := forall_mem_append.mp hshort
  obtain ⟨hevs, hlinks⟩ := forall_mem_append.mp hrest
  obtain ⟨hres, hscope, htrace, hspan, hpar, hname, hkind, hstart, hstop, hcode, hmessage,
    hfitsAttrs, hfitsEvents, hfitsLinks⟩ := h
  refine ⟨hres, hscope, htrace, hspan, hpar, hname, hkind, hstart, hstop, hcode, hmessage,
    labels_fits_of_redact hattrs hfitsAttrs, list_fits_of_map (fun e he hevent => ?_) hfitsEvents,
    list_fits_of_map (fun k hk hlink => ?_) hfitsLinks⟩
  · have hown : ∀ l ∈ e.attributes, ShortValue l :=
      fun l hl => hevs l (mem_flatMap.mpr ⟨e, he, hl⟩)
    exact ⟨hevent.1, hevent.2.1, labels_fits_of_redact hown hevent.2.2⟩
  · have hown : ∀ l ∈ k.attributes, ShortValue l :=
      fun l hl => hlinks l (mem_flatMap.mpr ⟨k, hk, hl⟩)
    exact ⟨hlink.1, hlink.2.1, labels_fits_of_redact hown hlink.2.2⟩

variable {b : Generated.TracesBatch}

theorem traces_fits_of_redact (hshort : ∀ l ∈ traceLabels b, ShortValue l)
    (h : Generated.TracesBatch.codec.Fits b.redact) : Generated.TracesBatch.codec.Fits b := by
  obtain ⟨hress, hspans⟩ := forall_mem_append.mp hshort
  refine ⟨list_fits_of_map (fun r hr hfits => ?_) h.1, h.2.1, list_fits_of_map (fun s hs hfits => ?_) h.2.2⟩
  · exact labels_fits_of_redact (fun l hl => hress l (mem_flatten.mpr ⟨r, hr, hl⟩)) hfits
  · exact span_fits_of_redact (fun l hl => hspans l (mem_flatMap.mpr ⟨s, hs, hl⟩)) hfits

theorem readsBack_iff_fits {a : α}
    (hkeeps : ∀ {a}, x.Fits a → x.Fits (redact a)) (hback : x.Fits (redact a) → x.Fits a) :
    ReadsBack x redact a ↔ x.Fits a := by
  constructor
  · rintro ⟨a', hfits, -, hred⟩
    exact hback (hred ▸ hkeeps hfits)
  · exact ReadsBack.of_fits

/-! ## Traces -/

theorem references_redact (b : Generated.TracesBatch) : references b.redact = references b := by
  simp only [references, Generated.TracesBatch.redact, map_map]
  rfl

theorem readsBack_counts (h : ReadsBack Generated.TracesBatch.codec
    Generated.TracesBatch.redact b) : b.resources.length < 2 ^ 16 ∧ b.scopes.length < 2 ^ 16 := by
  obtain ⟨b', hfits, -, hred⟩ := h
  have hfits' := tracesBatch_fits_redact hfits
  rw [hred] at hfits'
  have hress : (b.resources.map (map LabelPair.redact)).length < 2 ^ 16 := hfits'.1.1
  rw [length_map] at hress
  exact ⟨hress, hfits'.2.1.1⟩

section Fanout

variable (displayDouble : Binary64 → Str)

/-- Refused, or sent as it was mapped, redacted, if it has spans. -/
def TracesFannedOut (req : ExportTraceServiceRequest) : Prop :=
  match offerTraces (mapTraces displayDouble req) with
  | .error _ => True
  | .ok none => (mapTraces displayDouble req).spans = []
  | .ok (some d) => d = (mapTraces displayDouble req).redact ∧ references d = origins req

theorem offerTraces_some {b : Generated.TracesBatch} (hspans : b.spans ≠ []) : (∃ e, offerTraces b = .error e) ∨ ∃ b',
    Generated.TracesBatch.codec.Fits b' ∧ Generated.TracesBatch.codec.write b' = Generated.TracesBatch.codec.write b ∧
    offerTraces b = .ok (some b'.redact) := by
  rw [offerTraces, if_neg hspans]
  cases hred : redactTracesV1 (Generated.TracesBatch.codec.write b) with
  | error e => exact .inl ⟨e, rfl⟩
  | ok out =>
    obtain ⟨b', hfits, hwrite, hdec⟩ := redactTracesV1_write hred
    refine .inr ⟨b', hfits, hwrite, ?_⟩
    simp only [bind, Except.bind, hdec]
    rfl

variable {displayDouble} {req : ExportTraceServiceRequest}

theorem tracesFannedOut_of_some {d : Generated.TracesBatch}
    (h : offerTraces (mapTraces displayDouble req) = .ok (some d)) : TracesFannedOut displayDouble req ↔ d =
    (mapTraces displayDouble req).redact ∧ references d = origins req := by
  rw [TracesFannedOut, h]

theorem tracesFannedOut_iff : TracesFannedOut displayDouble req ↔
    (∃ e, offerTraces (mapTraces displayDouble req) = .error e) ∨ (mapTraces displayDouble req).spans = [] ∨ ReadsBack
    Generated.TracesBatch.codec Generated.TracesBatch.redact (mapTraces displayDouble req) := by
  by_cases hspans : (mapTraces displayDouble req).spans = []
  · have hnone : offerTraces (mapTraces displayDouble req) = .ok none := if_pos hspans
    simp only [TracesFannedOut, hnone, hspans, true_or, or_true]
  obtain ⟨e, he⟩ | ⟨b', hfits, hwrite, hoffer⟩ := offerTraces_some hspans
  · simp only [TracesFannedOut, he, Except.error.injEq, exists_eq', true_or]
  rw [tracesFannedOut_of_some hoffer]
  simp only [hoffer, reduceCtorEq, exists_false, false_or, hspans]
  rw [readsBack_iff hfits hwrite, and_iff_left_iff_imp]
  intro hsame
  obtain ⟨hress, hscopes⟩ := readsBack_counts ((readsBack_iff hfits hwrite).mpr hsame)
  rw [hsame, references_redact]
  exact (references_foldl hress.le hscopes.le).trans (nil_append _)

/-! ## Logs -/

def LogsFanout.Empty (f : LogsFanout) : Prop :=
  (∀ s ∈ f.projection.streams, s.entries = []) ∧
    ∀ c ∈ f.canonical, ∃ rawVersion, c.payload = batchV2Wire rawVersion []

/-- Refused, or sent in both representations, redacted. -/
def LogsFannedOut (f : LogsFanout) : Prop :=
  match offerLogsFanout f with
  | .error (.error _) => True
  | .error .panic => False
  | .ok none => f.Empty
  | .ok (some d) => d.projection = f.projection.redact ∧ CanonicalRedacts f.canonical d.canonical

variable {f : LogsFanout}

theorem offerLogsFanout_some (hcnt : f.recordCount ≠ 0) :
    (∃ e, offerLogsFanout f = .error (.error e)) ∨ ∃ b' canonical, Generated.LogsBatch.codec.Fits b' ∧
    Generated.LogsBatch.codec.write b' = Generated.LogsBatch.codec.write f.projection ∧ CanonicalRedacts f.canonical
    canonical ∧ offerLogsFanout f = .ok (some ⟨b'.redact, canonical⟩) := by
  rw [offerLogsFanout, if_neg hcnt]
  cases hred : redactLogsV1 (Generated.LogsBatch.codec.write f.projection) with
  | error e => exact .inl ⟨.v1 e, rfl⟩
  | ok out =>
    obtain ⟨b', hfits, hwrite, hdec⟩ := redactLogsV1_write hred
    simp only [bind, Except.bind, Except.mapError, hdec]
    cases hcan : redactCanonical f.canonical with
    | error fault =>
      cases fault with
      | panic => exact absurd hcan (redactCanonical_ne_panic f.canonical)
      | error e => exact .inl ⟨e, rfl⟩
    | ok canonical =>
      exact .inr ⟨b', canonical, hfits, hwrite, redactCanonical_ok hcan, rfl⟩

theorem logsFannedOut_of_some {f d : LogsFanout} (h : offerLogsFanout f = .ok (some d)) : LogsFannedOut f ↔
    d.projection = f.projection.redact ∧ CanonicalRedacts f.canonical d.canonical := by
  rw [LogsFannedOut, h]

theorem logsFannedOut_iff : LogsFannedOut f ↔ (∃ e, offerLogsFanout f = .error (.error e)) ∨
    (f.recordCount = 0 ∧ f.Empty) ∨ (f.recordCount ≠ 0 ∧ ReadsBack Generated.LogsBatch.codec
    Generated.LogsBatch.redact f.projection) := by
  by_cases hcnt : f.recordCount = 0
  · have hnone : offerLogsFanout f = .ok none := if_pos hcnt
    simp only [LogsFannedOut, hnone, hcnt, reduceCtorEq, exists_false, false_or, true_and, ne_eq, not_true_eq_false,
      false_and, or_false]
  obtain ⟨e, he⟩ | ⟨b', canonical, hfits, hwrite, hcan, hoffer⟩ := offerLogsFanout_some hcnt
  · simp only [LogsFannedOut, he, Except.error.injEq, Fault.error.injEq, exists_eq', true_or]
  rw [logsFannedOut_of_some hoffer]
  simp only [hoffer, reduceCtorEq, exists_false, false_or, hcnt, false_and, ne_eq, not_false_eq_true,
    true_and, hcan, and_true]
  exact (readsBack_iff hfits hwrite).symm

/-- **Fan-out is faithful exactly to what the format holds.** What is not refused is sent as it was mapped,
redacted, just when its encoding reads back. -/
theorem fanout_faithful_iff (displayDouble : Binary64 → Str) : (∀ req, TracesFannedOut displayDouble req ↔
    (∃ e, offerTraces (mapTraces displayDouble req) = .error e) ∨ (mapTraces displayDouble req).spans = [] ∨ ReadsBack
    Generated.TracesBatch.codec Generated.TracesBatch.redact (mapTraces displayDouble req)) ∧
    (∀ f, LogsFannedOut f ↔ (∃ e, offerLogsFanout f = .error (.error e)) ∨ (f.recordCount = 0 ∧ f.Empty) ∨
    (f.recordCount ≠ 0 ∧ ReadsBack Generated.LogsBatch.codec Generated.LogsBatch.redact f.projection)) ∧
    (∀ b, Generated.TracesBatch.codec.Fits b → ReadsBack Generated.TracesBatch.codec Generated.TracesBatch.redact b) ∧
    (∀ b, Generated.LogsBatch.codec.Fits b → ReadsBack Generated.LogsBatch.codec Generated.LogsBatch.redact b) ∧
    (∀ b, (∀ l ∈ traceLabels b, ShortValue l) → (ReadsBack Generated.TracesBatch.codec Generated.TracesBatch.redact b
    ↔ Generated.TracesBatch.codec.Fits b)) ∧ ∀ b, (∀ l ∈ logLabels b, ShortValue l) →
    (ReadsBack Generated.LogsBatch.codec Generated.LogsBatch.redact b ↔ Generated.LogsBatch.codec.Fits b) := by
  refine ⟨fun _ => tracesFannedOut_iff, fun _ => logsFannedOut_iff, fun _ => ReadsBack.of_fits,
    fun _ => ReadsBack.of_fits, fun b hshort => ?_, fun b hshort => ?_⟩
  · exact readsBack_iff_fits tracesBatch_fits_redact (traces_fits_of_redact hshort)
  · exact readsBack_iff_fits logsBatch_fits_redact (logs_fits_of_redact hshort)

def betaExport : ExportTraceServiceRequest :=
  ⟨[⟨none, [⟨some ⟨⟨ascii "lib", validUtf8_lib⟩, ['β']⟩,
    [⟨replicate 16 1, replicate 8 2, [], ⟨ascii "get", by decide⟩, 0, 5, 6, none, [], [], []⟩]⟩]⟩]⟩

def betaSent : Generated.TracesBatch :=
  { mapTraces (fun _ => ⟨[], validUtf8_nil⟩) betaExport with scopes := [⟨⟨ascii "lib", validUtf8_lib⟩, ['²']⟩] }

/-- A key of 256 bytes, the first two of which read as a length. -/
def longKeyBatch : LogsFanout :=
  ⟨⟨[⟨0, [], [⟨5, 0, ⟨[], validUtf8_nil⟩, [⟨⟨1 :: 0 :: replicate 254 0x61, by decide +kernel⟩, ⟨[], validUtf8_nil⟩⟩]⟩]⟩]⟩, none⟩

def longKeySent : LogsFanout :=
  ⟨⟨[⟨0, [], [⟨5, 0, ⟨[], validUtf8_nil⟩, [⟨⟨[], validUtf8_nil⟩, ⟨replicate 254 0x61 ++ [0, 0], by decide +kernel⟩⟩]⟩]⟩]⟩, none⟩

/-- A letter above `U+00FF` is cut to a byte, a long key's length to zero. -/
theorem cut_fields_reach_sinks : (∃ d, offerTraces (mapTraces (fun _ => ⟨[], rfl⟩) betaExport) = .ok (some d) ∧
    d.scopes.map Generated.ScopeEntry.version = [['²']] ∧ ¬ TracesFannedOut (fun _ => ⟨[], rfl⟩) betaExport) ∧ ∃ d,
    offerLogsFanout longKeyBatch = .ok (some d) ∧ (logLabels d.projection).map LabelPair.raw =
    [([], replicate 254 0x61 ++ [0, 0])] ∧ ¬ LogsFannedOut longKeyBatch := by
  constructor
  · have hoffer : offerTraces (mapTraces (fun _ => ⟨[], rfl⟩) betaExport) = .ok (some betaSent) := by
      decide +kernel
    refine ⟨betaSent, hoffer, by decide +kernel, ?_⟩
    rw [tracesFannedOut_of_some hoffer, not_and_or]
    exact .inl (by decide +kernel)
  · have hoffer : offerLogsFanout longKeyBatch = .ok (some longKeySent) := by decide +kernel
    refine ⟨longKeySent, hoffer, by decide +kernel, ?_⟩
    rw [logsFannedOut_of_some hoffer, not_and_or]
    exact .inl (by decide +kernel)

end Fanout

end Scry.Gateway
