import Scry.Proto.RedactTree

/-! # What redaction and stamping do to a batch

A batch in which nothing was replaced is written back as it was read, and what live ingest has stamped
is what recovery will find.
-/

open Scry.Lib

namespace Scry.Proto

open List

/-! ## The stamping sink -/

/-- Bytes appended, and whether anything was replaced in them. -/
def emitting (limits : DecodeLimits) (outputVersion : Nat) : Effects Sink (Bytes × Bool) where
  one := ([], false)
  mul a b := (a.1 ++ b.1, a.2 || b.2)
  Good s := s.outputVersion = outputVersion ∧ s.output.length ≤ limits.maxPayloadBytes
  Moves s m s' := s' = ⟨s.output ++ m.1, s.changed || m.2, outputVersion⟩ ∧
    s'.output.length ≤ limits.maxPayloadBytes
  moves_one {s s'} h := by
    obtain ⟨rfl, hlen⟩ := h
    simp only [append_nil, Bool.or_false]
    constructor
    · rintro ⟨rfl, -⟩
      rfl
    · rintro rfl
      exact ⟨rfl, hlen⟩
  moves_mul {s s' m n} h := by
    constructor
    · rintro ⟨rfl, hlen⟩
      simp only [length_append] at hlen
      refine ⟨⟨s.output ++ m.1, s.changed || m.2, outputVersion⟩, ⟨rfl, ?_⟩, ?_, ?_⟩
      · simp only [length_append]
        omega
      · simp only [append_assoc, Bool.or_assoc]
      · simp only [length_append]
        omega
    · rintro ⟨t, ⟨rfl, -⟩, hs', hlen⟩
      refine ⟨?_, hlen⟩
      simpa only [append_assoc, Bool.or_assoc] using hs'
  good {s s' m} h hmove := by
    obtain ⟨rfl, hlen⟩ := hmove
    exact ⟨rfl, hlen⟩

theorem emitting_product (limits : DecodeLimits) (outputVersion : Nat) (ms : List (Bytes × Bool)) :
    (emitting limits outputVersion).product ms = (ms.flatMap Prod.fst, ms.any Prod.snd) := by
  induction ms with
  | nil => rfl
  | cons m ms ih =>
    rw [Effects.product_cons, ih]
    rfl

theorem append_ok {limit : Nat} {bytes out out' : Bytes} :
    append limit bytes out = .ok out' ↔ out' = out ++ bytes ∧ out'.length ≤ limit := by
  unfold append
  split
  · rename_i hover
    simp only [reduceCtorEq, false_iff, not_and]
    rintro rfl
    simp only [length_append]
    omega
  · rename_i hfits
    simp only [Except.ok.injEq]
    constructor
    · rintro rfl
      refine ⟨rfl, ?_⟩
      simp only [length_append]
      omega
    · rintro ⟨rfl, -⟩
      rfl

variable {limits : DecodeLimits} {changed : Bool} {r : CanonicalLogRecord}

theorem checkRecord_ok {out : Bytes} (h : changed = false → out = r.encoded)
    {u : Unit} : checkRecord limits r out changed = .ok u ↔ out.length ≤ limits.maxRecordBytes ∧ out.length < 2 ^
    32 := by
  unfold checkRecord
  rw [if_neg (fun hbad => hbad.2 (h hbad.1))]
  split
  · simp only [reduceCtorEq, false_iff]
    omega
  split
  · simp only [reduceCtorEq, false_iff]
    omega
  · simp only [true_iff]
    omega

/-- The messages that an unchanged record or batch came out different. -/
def preservationAlarms : List String :=
  [recordNotPreserved, replayNotPreserved, recordNotPreservedV2, batchNotPreservedV2]

variable {m : String}

theorem append_error {limit : Nat} {bytes out : Bytes}
    (h : append limit bytes out = .error m) : m ∉ preservationAlarms := by
  unfold append at h
  split at h
  · cases h
    decide
  · cases h

theorem checkRecord_error {out : Bytes}
    (hkept : changed = false → out = r.encoded)
    (h : checkRecord limits r out changed = .error m) : m ∉ preservationAlarms := by
  unfold checkRecord at h
  rw [if_neg (fun hbad => hbad.2 (hkept hbad.1))] at h
  split at h
  · cases h
    decide
  split at h
  · cases h
    decide
  · cases h

variable {α : Type} {appender : LogsV2Appender α} {payload : Bytes}

theorem decode_ok {a b : α} : decodeLogsBatchV2Into payload
    limits appender a = .ok b ↔ ∃ rawVersion records, validateEnvelope limits payload = .ok (rawVersion, records) ∧
    ∃ a', appender.beginBatchVersion rawVersion records.length a = .ok a' ∧ records.foldlM
    (fun a r => (appender.record r a).mapError Fault.ofAppender) a' = .ok b := by
  simp only [decodeLogsBatchV2Into, except_bind_ok, mapError_ok, Prod.exists]

variable {records : List CanonicalLogRecord} {rawVersion : Nat}

theorem decode_accepted {a b : α} (h : validateEnvelope limits payload = .ok (rawVersion, records)) :
    decodeLogsBatchV2Into payload limits appender a = .ok b ↔ ∃ a', appender.beginBatchVersion rawVersion
    records.length a = .ok a' ∧ records.foldlM (fun a r => (appender.record r a).mapError Fault.ofAppender) a' = .ok
    b := by
  simp only [decodeLogsBatchV2Into, h, except_bind_ok, mapError_ok, Except.ok.injEq, exists_eq_left']

theorem decode_ne_appender {a : α} (h : validateEnvelope limits payload = .ok (rawVersion, records))
    (hbegin : appender.beginBatchVersion rawVersion records.length a ≠ .error m)
    (hrec : ∀ r ∈ records, ∀ a, appender.record r a ≠ .error (.error m)) : decodeLogsBatchV2Into payload limits
    appender a ≠ .error (.error (.appender m)) := by
  intro hfail
  cases hstart : appender.beginBatchVersion rawVersion records.length a with
  | error m' =>
    simp only [decodeLogsBatchV2Into, h, Except.mapError, bind, Except.bind, hstart] at hfail
    cases hfail
    exact hbegin hstart
  | ok a' =>
    rw [decode_begun h hstart] at hfail
    obtain ⟨r, hr, a, hstep⟩ := foldlM_error hfail
    obtain ⟨e, he, hmap⟩ := mapError_error.mp hstep
    cases e with
    | panic => cases hmap
    | error m' =>
      cases hmap
      exact hrec r hr a he

def envelopeHeader (rawVersion count : Nat) : Bytes :=
  toBe 4 logsBatchV2Magic ++ (toBe 2 rawVersion ++ toBe 4 count)

theorem batchV2Wire_eq (rawVersion : Nat) (batch : List RecordTree) : batchV2Wire rawVersion batch = envelopeHeader
    rawVersion batch.length ++ batch.flatMap fun r => withLength r.wire := by
  simp [batchV2Wire, envelopeWire, envelopeHeader, flatMap_map]

section Stamp

variable {limits : DecodeLimits} {rawVersion outputVersion : Nat} {r : RecordTree} {mode : Mode}

def Mode.Emits (mode : Mode) (limits : DecodeLimits) (r : RecordTree) : Prop :=
  (mode.rewrite r).wire.length ≤ limits.maxRecordBytes ∧ (mode.rewrite r).wire.length < 2 ^ 32

def Mode.emitted (mode : Mode) (r : RecordTree) : Bytes × Bool :=
  (withLength (mode.rewrite r).wire, r.dirty || mode.isStamp)

theorem Mode.rewrite_of_unchanged (h : (r.dirty || mode.isStamp) = false) : mode.rewrite r = r := by
  rw [Bool.or_eq_false_iff] at h
  cases mode with
  | stamp receivedNs => cases h.2
  | preserve => exact RecordTree.redact_of_clean h.1

theorem stampSink_record (h : r.Fits limits rawVersion) (hver : mode.expectedInput outputVersion = rawVersion)
    {s s' : Sink} (hs : (emitting limits outputVersion).Good s) : (stampSink limits mode).record
    (r.view rawVersion r.wire) s = .ok s' ↔ mode.Emits limits r ∧ (emitting limits outputVersion).Moves s
    (mode.emitted r) s' := by
  obtain ⟨rfl, _⟩ := hs
  have hkept : (r.dirty || mode.isStamp) = false → (mode.rewrite r).wire = r.wire := fun hclean => by
    rw [Mode.rewrite_of_unchanged hclean]
  have hin : (r.view rawVersion r.wire).rawVersion = mode.expectedInput s.outputVersion :=
    hver.symm
  simp only [stampSink, if_neg (not_not_intro hin), h.reencodeRecord, orPanic, except_bind_ok,
    Except.ok.injEq, exists_eq_left', mapError_ok, append_ok]
  constructor
  · rintro ⟨_, hcheck, _, ⟨rfl, -⟩, _, ⟨rfl, hout⟩, hs'⟩
    cases hs'
    refine ⟨(checkRecord_ok hkept).mp hcheck, ?_, hout⟩
    simp only [Mode.emitted, withLength, append_assoc]
  · rintro ⟨hemits, rfl, hout⟩
    simp only [Mode.emitted, withLength, length_append] at hout
    refine ⟨(), (checkRecord_ok hkept).mpr hemits, _, ⟨rfl, ?_⟩, _, ⟨rfl, ?_⟩, ?_⟩
    · simp only [length_append]
      omega
    · simp only [length_append]
      omega
    · simp only [Mode.emitted, withLength, append_assoc]
      rfl

theorem stampSink_record_error (h : r.Fits limits rawVersion) {s : Sink} {m : String} (hm : m ∈ preservationAlarms) :
    (stampSink limits mode).record (r.view rawVersion r.wire) s ≠ .error (.error m) := by
  have hkept : (r.dirty || mode.isStamp) = false → (mode.rewrite r).wire = r.wire := fun hclean => by
    rw [Mode.rewrite_of_unchanged hclean]
  intro hfail
  simp only [stampSink, h.reencodeRecord, orPanic] at hfail
  split at hfail
  · cases hfail
    revert hm
    decide
  simp only [except_bind_error, mapError_error, reduceCtorEq, false_or, Except.ok.injEq, exists_eq_left',
    Fault.error.injEq, exists_eq_right, pure, Except.pure, and_false, exists_false, or_false] at hfail
  obtain hcheck | ⟨_, -, happ | ⟨_, -, happ⟩⟩ := hfail
  · exact checkRecord_error hkept hcheck hm
  · exact append_error happ hm
  · exact append_error happ hm

theorem stampSink_begin {count : Nat} {s : Sink} : (stampSink limits mode).beginBatchVersion rawVersion count
    ⟨[], mode.isStamp, 0⟩ = .ok s ↔ ∃ version, mode.outputVersion rawVersion = .ok version ∧ s =
    ⟨envelopeHeader version count, mode.isStamp, version⟩ ∧ (envelopeHeader version count).length ≤
    limits.maxPayloadBytes := by
  simp only [stampSink, except_bind_ok, append_ok, pure, Except.pure, Except.ok.injEq, nil_append]
  constructor
  · rintro ⟨version, hver, _, ⟨rfl, -⟩, _, ⟨rfl, -⟩, _, ⟨rfl, hlen⟩, rfl⟩
    rw [append_assoc] at hlen ⊢
    exact ⟨version, hver, rfl, hlen⟩
  · rintro ⟨version, hver, rfl, hlen⟩
    simp only [envelopeHeader, length_append] at hlen
    refine ⟨version, hver, _, ⟨rfl, by omega⟩, _, ⟨rfl, ?_⟩, _, ⟨rfl, ?_⟩, ?_⟩
    · simp only [length_append]
      omega
    · simp only [length_append]
      omega
    · simp only [envelopeHeader, append_assoc]

theorem Mode.expectedInput_of_outputVersion (h : mode.outputVersion rawVersion = .ok outputVersion) :
    mode.expectedInput outputVersion = rawVersion := by
  cases mode with
  | stamp receivedNs =>
    simp only [Mode.outputVersion] at h
    split at h
    · rename_i hv
      exact hv.symm
    · cases h
  | preserve =>
    cases h
    rfl

theorem encodeWith_ok {payload out : Bytes} {changed : Bool} {batch : List RecordTree}
    (hacc : validateEnvelope limits payload = .ok (rawVersion, batch.map fun r => r.view rawVersion r.wire))
    (hbatch : BatchAccepted limits rawVersion batch) : encodeWith limits mode payload = .ok (out, changed) ↔
    ∃ version, mode.outputVersion rawVersion = .ok version ∧ (∀ r ∈ batch, mode.Emits limits r) ∧ out = batchV2Wire
    version (batch.map mode.rewrite) ∧ out.length ≤ limits.maxPayloadBytes ∧ changed =
    (batch.any RecordTree.dirty || mode.isStamp) := by
  have hstep : ∀ version, mode.outputVersion rawVersion = .ok version → ∀ r ∈ batch, ∀ s s',
      (emitting limits version).Good s →
        (((stampSink limits mode).record (r.view rawVersion r.wire) s).mapError Fault.ofAppender = .ok s' ↔
          mode.Emits limits r ∧ (emitting limits version).Moves s (mode.emitted r) s') := by
    intro version hver r hr s s' hs
    rw [mapError_ok]
    exact stampSink_record (hbatch.records r hr).fits (Mode.expectedInput_of_outputVersion hver) hs
  have hlabel : (batch.map mode.emitted).flatMap Prod.fst =
      (batch.map mode.rewrite).flatMap fun r => withLength r.wire := by
    simp only [flatMap_map]
    rfl
  have hch : (mode.isStamp || (batch.map mode.emitted).any Prod.snd) =
      (batch.any RecordTree.dirty || mode.isStamp) := by
    cases mode with
    | stamp receivedNs => simp [Mode.isStamp]
    | preserve => simp [Mode.isStamp, Mode.emitted, any_map, Function.comp_def]
  have hwire (version : Nat) : batchV2Wire version (batch.map mode.rewrite) =
      envelopeHeader version batch.length ++ (batch.map mode.emitted).flatMap Prod.fst := by
    rw [batchV2Wire_eq, length_map, hlabel]
  simp only [encodeWith, except_bind_ok, decode_accepted hacc, stampSink_begin, foldlM_map, length_map]
  constructor
  · rintro ⟨sink, ⟨_, ⟨version, hver, rfl, hheader⟩, hfold⟩, hout⟩
    rw [Effects.foldlM_ok (hstep version hver) ⟨rfl, hheader⟩, emitting_product] at hfold
    obtain ⟨hemits, rfl, hlen⟩ := hfold
    cases hout
    exact ⟨version, hver, hemits, (hwire version).symm, hlen, hch⟩
  · rintro ⟨version, hver, hemits, rfl, hlen, rfl⟩
    rw [hwire] at hlen ⊢
    have hheader : (envelopeHeader version batch.length).length ≤ limits.maxPayloadBytes := by
      rw [length_append] at hlen
      omega
    rw [← hch]
    refine ⟨⟨_, _, version⟩, ⟨_, ⟨version, hver, rfl, hheader⟩, ?_⟩, rfl⟩
    rw [Effects.foldlM_ok (hstep version hver) ⟨rfl, hheader⟩, emitting_product]
    exact ⟨hemits, rfl, hlen⟩

end Stamp

/-! ## The redaction sink -/

/-- Bytes appended to the output of the redactor, which has no bound. -/
def redacting : Effects V2Sink (Bytes × Bool) where
  one := ([], false)
  mul a b := (a.1 ++ b.1, a.2 || b.2)
  Good _ := True
  Moves s m s' := s' = ⟨s.output ++ m.1, s.changed || m.2⟩
  moves_one {s s'} _ := by
    simp only [append_nil, Bool.or_false]
    exact eq_comm
  moves_mul {s s' m n} _ := by
    simp only [exists_eq_left, append_assoc, Bool.or_assoc]
  good _ _ := trivial

theorem redacting_product (ms : List (Bytes × Bool)) :
    redacting.product ms = (ms.flatMap Prod.fst, ms.any Prod.snd) := by
  induction ms with
  | nil => rfl
  | cons m ms ih =>
    rw [Effects.product_cons, ih]
    rfl

section Redact

variable {limits : DecodeLimits} {rawVersion : Nat} {r : RecordTree}

theorem RecordTree.kept (r : RecordTree) : ¬ (r.dirty = false ∧ r.redact.wire ≠ r.wire) := by
  rintro ⟨hclean, hne⟩
  rw [redact_of_clean hclean] at hne
  exact hne rfl

theorem redactionSink_record (h : r.Fits limits rawVersion) {s s' : V2Sink} : redactionSink.record
    (r.view rawVersion r.wire) s = .ok s' ↔ r.redact.wire.length < 2 ^ 32 ∧ redacting.Moves s
    (withLength r.redact.wire, r.dirty) s' := by
  simp only [redactionSink, h.reencodeRecord, orPanic, except_bind_ok, Except.ok.injEq, exists_eq_left',
    Mode.isStamp, Bool.or_false, Mode.rewrite, RecordTree.view_encoded]
  rw [if_neg r.kept]
  split
  · simp only [reduceCtorEq, false_iff]
    omega
  · rename_i hlen
    simp only [pure, Except.pure, Except.ok.injEq, redacting, withLength]
    constructor
    · rintro rfl
      exact ⟨by omega, rfl⟩
    · rintro ⟨-, rfl⟩
      rfl

theorem redactionSink_record_error (h : r.Fits limits rawVersion) {s : V2Sink} {m : String}
    (hm : m ∈ preservationAlarms) : redactionSink.record (r.view rawVersion r.wire) s ≠ .error (.error m) := by
  intro hfail
  simp only [redactionSink, h.reencodeRecord, orPanic, except_bind_error, Except.ok.injEq,
    exists_eq_left', Mode.isStamp, Bool.or_false, Mode.rewrite, RecordTree.view_encoded, reduceCtorEq, false_or] at hfail
  rw [if_neg r.kept] at hfail
  split at hfail
  · cases hfail
    revert hm
    decide
  · cases hfail

variable {payload : Bytes} {batch : List RecordTree}

theorem redactionSink_ok {sink : V2Sink} (hacc : validateEnvelope limits payload = .ok
    (rawVersion, batch.map fun r => r.view rawVersion r.wire)) (hbatch : BatchAccepted limits rawVersion batch) :
    decodeLogsBatchV2Into payload limits redactionSink ⟨[], false⟩ = .ok sink ↔
    (∀ r ∈ batch, r.redact.wire.length < 2 ^ 32) ∧ sink = ⟨batchV2Wire rawVersion (batch.map RecordTree.redact),
    batch.any RecordTree.dirty⟩ := by
  have hbegin : redactionSink.beginBatchVersion rawVersion
      (batch.map fun r => r.view rawVersion r.wire).length ⟨[], false⟩ =
        .ok ⟨envelopeHeader rawVersion batch.length, false⟩ := by
    rw [length_map]
    rfl
  have hstep : ∀ r ∈ batch, ∀ s s', redacting.Good s →
      ((redactionSink.record (r.view rawVersion r.wire) s).mapError Fault.ofAppender = .ok s' ↔
        r.redact.wire.length < 2 ^ 32 ∧ redacting.Moves s (withLength r.redact.wire, r.dirty) s') := by
    intro r hr s s' _
    rw [mapError_ok]
    exact redactionSink_record (hbatch.records r hr).fits
  rw [decode_begun hacc hbegin, foldlM_map, Effects.foldlM_ok hstep trivial, redacting_product, batchV2Wire_eq]
  simp only [redacting, length_map, flatMap_map, any_map, Bool.false_or]
  rfl

end Redact

/-! ## Accepted payloads are written back -/

section Accepted

variable {limits : DecodeLimits} {rawVersion : Nat} {payload : Bytes} {batch : List RecordTree}

theorem redact_of_all_clean (h : batch.any RecordTree.dirty = false) : batch.map RecordTree.redact = batch := by
  have hclean : ∀ r ∈ batch, r.redact = r := by
    intro r hr
    apply RecordTree.redact_of_clean
    simpa using any_eq_false.mp h r hr
  simpa using map_congr_left hclean

/-- The redacted batch: the payload itself if nothing was replaced. -/
def redactedCow (rawVersion : Nat) (batch : List RecordTree) : Cow :=
  if batch.any RecordTree.dirty then .owned (batchV2Wire rawVersion (batch.map RecordTree.redact))
  else .borrowed (batchV2Wire rawVersion batch)

theorem redactedCow_bytes (rawVersion : Nat) (batch : List RecordTree) :
    (redactedCow rawVersion batch).bytes = batchV2Wire rawVersion (batch.map RecordTree.redact) := by
  unfold redactedCow
  split
  · rfl
  · rename_i hclean
    rw [redact_of_all_clean (by simpa using hclean)]
    rfl

theorem redactedCow_eq {ε : Type} {e : ε} (hpay : payload = batchV2Wire rawVersion batch) :
    (if batch.any RecordTree.dirty then
        pure (.owned (batchV2Wire rawVersion (batch.map RecordTree.redact)))
      else if batchV2Wire rawVersion (batch.map RecordTree.redact) ≠ payload then .error e
      else pure (.borrowed payload) : Except ε Cow) = .ok (redactedCow rawVersion batch) := by
  unfold redactedCow
  split
  · rfl
  · rename_i hclean
    rw [redact_of_all_clean (by simpa using hclean), if_neg (not_not_intro hpay.symm), hpay]
    rfl

section

variable (hlen : payload.length ≤ limits.maxPayloadBytes) (hbatch : BatchAccepted limits rawVersion batch) (hpay : payload = batchV2Wire rawVersion batch)
include hlen hbatch hpay

theorem redactReplayedLogsV2_ok {cow : Cow} :
    redactReplayedLogsV2 payload limits = .ok cow ↔ (∀ r ∈ batch, Mode.preserve.Emits limits r) ∧
    (batchV2Wire rawVersion (batch.map RecordTree.redact)).length ≤ limits.maxPayloadBytes ∧ cow = redactedCow
    rawVersion batch := by
  have hacc := validateEnvelope_iff.mpr ⟨hlen, batch, hbatch, hpay, rfl⟩
  simp only [redactReplayedLogsV2, except_bind_ok, mapError_ok, Prod.exists, encodeWith_ok hacc hbatch]
  constructor
  · rintro ⟨_, _, ⟨version, hver, hemits, rfl, hmax, rfl⟩, hout⟩
    cases hver
    simp only [Mode.isStamp, Bool.or_false] at hout
    exact ⟨hemits, hmax, (Except.ok.inj ((redactedCow_eq hpay).symm.trans hout)).symm⟩
  · rintro ⟨hemits, hmax, rfl⟩
    refine ⟨_, _, ⟨rawVersion, rfl, hemits, rfl, hmax, rfl⟩, ?_⟩
    simp only [Mode.isStamp, Bool.or_false]
    exact redactedCow_eq hpay

theorem redactLogsV2_ok {cow : Cow} :
    redactLogsV2 payload limits = .ok cow ↔
      (∀ r ∈ batch, r.redact.wire.length < 2 ^ 32) ∧ cow = redactedCow rawVersion batch := by
  have hacc := validateEnvelope_iff.mpr ⟨hlen, batch, hbatch, hpay, rfl⟩
  simp only [redactLogsV2, except_bind_ok, redactionSink_ok hacc hbatch]
  constructor
  · rintro ⟨_, ⟨hshort, rfl⟩, hout⟩
    exact ⟨hshort, (Except.ok.inj ((redactedCow_eq hpay).symm.trans hout)).symm⟩
  · rintro ⟨hshort, rfl⟩
    exact ⟨_, ⟨hshort, rfl⟩, redactedCow_eq hpay⟩

end

theorem encodeWith_ne_alarm {m : String} (hm : m ∈ preservationAlarms)
    (hacc : validateEnvelope limits payload = .ok (rawVersion, batch.map fun r => r.view rawVersion r.wire))
    (hbatch : BatchAccepted limits rawVersion batch) : encodeWith limits .preserve payload ≠ .error
    (.error (.appender m)) := by
  intro hfail
  simp only [encodeWith, except_bind_error, pure, Except.pure, reduceCtorEq, and_false, exists_false,
    or_false] at hfail
  revert hfail
  refine decode_ne_appender hacc ?_ ?_
  · intro hbegin
    simp only [stampSink, Mode.outputVersion, except_bind_error, pure, Except.pure, reduceCtorEq,
      false_or, Except.ok.injEq, exists_eq_left', and_false, exists_false, or_false] at hbegin
    obtain happ | ⟨_, -, happ | ⟨_, -, happ⟩⟩ := hbegin
    · exact append_error happ hm
    · exact append_error happ hm
    · exact append_error happ hm
  · refine forall_mem_map.mpr fun r hr s => ?_
    exact stampSink_record_error (hbatch.records r hr).fits hm

theorem no_preservationAlarm {m : String} (hm : m ∈ preservationAlarms)
    (hlen : payload.length ≤ limits.maxPayloadBytes) (hbatch : BatchAccepted limits rawVersion batch)
    (hpay : payload = batchV2Wire rawVersion batch) : redactReplayedLogsV2 payload limits ≠ .error
    (.error (.decode (.appender m))) ∧ redactLogsV2 payload limits ≠ .error (.error (.appender m)) := by
  have hacc := validateEnvelope_iff.mpr ⟨hlen, batch, hbatch, hpay, rfl⟩
  constructor
  · intro hfail
    simp only [redactReplayedLogsV2, except_bind_error, mapError_error] at hfail
    obtain ⟨e, henc, he⟩ | ⟨⟨out, changed⟩, henc, hcheck⟩ := hfail
    · cases e with
      | panic => cases he
      | error e =>
        cases he
        exact encodeWith_ne_alarm hm hacc hbatch henc
    · rw [mapError_ok, encodeWith_ok hacc hbatch] at henc
      obtain ⟨_, ⟨⟩, -, rfl, -, rfl⟩ := henc
      simp only [Mode.isStamp, Bool.or_false] at hcheck
      cases (redactedCow_eq hpay).symm.trans hcheck
  · intro hfail
    simp only [redactLogsV2, except_bind_error] at hfail
    obtain hdec | ⟨sink, hdec, hcheck⟩ := hfail
    · revert hdec
      refine decode_ne_appender hacc (by simp [redactionSink]) ?_
      refine forall_mem_map.mpr fun r hr s => ?_
      exact redactionSink_record_error (hbatch.records r hr).fits hm
    · obtain ⟨-, rfl⟩ := (redactionSink_ok hacc hbatch).mp hdec
      cases (redactedCow_eq hpay).symm.trans hcheck

theorem BatchAccepted.envelopeVersion (hbatch : BatchAccepted limits rawVersion batch) :
    envelopeVersion (batchV2Wire rawVersion batch) = some rawVersion := by
  have hlt : rawVersion < 256 ^ 2 := by
    obtain h | h := hbatch.version <;> rw [h] <;> decide
  have htake (rest : Bytes) : takeBytes 2 (toBe 2 rawVersion ++ rest) = some (toBe 2 rawVersion, rest) := by
    have h := takeBytes_append (toBe 2 rawVersion) rest
    rwa [toBe_length] at h
  rw [Proto.envelopeVersion, batchV2Wire, envelopeWire, drop_left' (toBe_length 4 _), htake, Option.map_some]
  exact congrArg some (ofBe_toBe_of_lt 2 rawVersion hlt)

theorem map_eq_of_forall₂ {α β γ : Type} {R : α → β → Prop} {f : α → γ} {g : β → γ} {xs : List α} {ys : List β}
    (h : List.Forall₂ R xs ys) (hfg : ∀ x ∈ xs, ∀ y ∈ ys, R x y → f x = g y) : xs.map f = ys.map g := by
  induction h with
  | nil => rfl
  | cons hxy _ ih =>
    rw [map_cons, map_cons, hfg _ mem_cons_self _ mem_cons_self hxy,
      ih fun x hx y hy => hfg x (mem_cons_of_mem _ hx) y (mem_cons_of_mem _ hy)]

theorem sameBut_eq_inj {r r' : RecordTree} {rawVersion' : Nat} {encoded encoded' : Bytes}
    (h : r.Fits limits rawVersion) (h' : r'.Fits limits rawVersion')
    (hsame : SameBut Eq (r.view rawVersion encoded) (r'.view rawVersion' encoded'))
    (hrecv : (r.view rawVersion encoded).receivedTimeUnixNano =
      (r'.view rawVersion' encoded').receivedTimeUnixNano) : r = r' := by
  have hstamp : r.receivedTimeUnixNano = r'.receivedTimeUnixNano :=
    Option.map_injective (fun _ _ => UInt64.toNat_inj.mp) hrecv
  have hid (t : RecordTree) : t.mapValues id id = t := by
    cases t
    simp [RecordTree.mapValues]
  rw [← hid r, ← hid r']
  exact hsame.mapValues_eq (fun _ => rfl) (fun _ _ ht => ht) h h' hstamp

theorem clean_payload_preserved (hlen : payload.length ≤ limits.maxPayloadBytes)
    (hbatch : BatchAccepted limits rawVersion batch) (hpay : payload = batchV2Wire rawVersion batch)
    (hclean : batch.any RecordTree.dirty = false) : encodeWith limits .preserve payload = .ok (payload, false) ∧
    decodeLogsBatchV2Into payload limits redactionSink ⟨[], false⟩ = .ok ⟨payload, false⟩ ∧ redactReplayedLogsV2
    payload limits = .ok (.borrowed payload) ∧ redactLogsV2 payload limits = .ok (.borrowed payload) := by
  have haccept := validateEnvelope_iff.mpr ⟨hlen, batch, hbatch, hpay, rfl⟩
  have hred := redact_of_all_clean hclean
  have hemits : ∀ r ∈ batch, Mode.preserve.Emits limits r := by
    intro r hr
    have hacc := hbatch.records r hr
    have hsame : r.redact = r := RecordTree.redact_of_clean (by simpa using any_eq_false.mp hclean r hr)
    unfold Mode.Emits
    rw [Mode.rewrite, hsame]
    exact ⟨hacc.recordBytes, hacc.length⟩
  have hcow : redactedCow rawVersion batch = .borrowed payload := by
    rw [redactedCow, hclean, hpay]
    rfl
  refine ⟨?_, ?_, ?_, ?_⟩
  · refine (encodeWith_ok haccept hbatch).mpr ⟨rawVersion, rfl, hemits, ?_, hlen, ?_⟩
    · exact hpay.trans (congrArg _ hred.symm)
    · rw [hclean]
      rfl
  · refine (redactionSink_ok haccept hbatch).mpr ⟨fun r hr => (hemits r hr).2, ?_⟩
    rw [hred, hclean, hpay]
  · refine (redactReplayedLogsV2_ok hlen hbatch hpay).mpr ⟨hemits, ?_, hcow.symm⟩
    rwa [hred, ← hpay]
  · exact (redactLogsV2_ok hlen hbatch hpay).mpr ⟨fun r hr => (hemits r hr).2, hcow.symm⟩

/-- **One encoding per batch.** An accepted batch with nothing to replace comes back as it is; accepted
payloads with the same version and records are the same bytes. -/
theorem accepted_payload_preserved {records : List CanonicalLogRecord}
    (h : decodeLogsBatchV2Into payload limits collecting [] = .ok records) :
    (∀ r ∈ records, ∃ out changed, reencodeRecord .preserve r = some (out, changed) ∧
    (changed = false ↔ SameBut Redacts r r) ∧ (changed = false → out = r.encoded)) ∧
    ((∀ r ∈ records, SameBut Redacts r r) → encodeWith limits .preserve payload = .ok (payload, false) ∧
    decodeLogsBatchV2Into payload limits redactionSink ⟨[], false⟩ = .ok ⟨payload, false⟩ ∧ redactReplayedLogsV2
    payload limits = .ok (.borrowed payload) ∧ redactLogsV2 payload limits = .ok (.borrowed payload)) ∧
    (∀ m ∈ preservationAlarms, redactReplayedLogsV2 payload limits ≠ .error (.error (.decode (.appender m))) ∧
    redactLogsV2 payload limits ≠ .error (.error (.appender m))) ∧ ∀ payload' records', decodeLogsBatchV2Into payload'
    limits collecting [] = .ok records' → envelopeVersion payload = envelopeVersion payload' → List.Forall₂
    (fun r r' => SameBut Eq r r' ∧ r.receivedTimeUnixNano = r'.receivedTimeUnixNano) records records' → payload =
    payload' := by
  obtain ⟨rawVersion, hvalid⟩ := decode_collecting.mp h
  obtain ⟨hlen, batch, hbatch, hpayload, rfl⟩ := validateEnvelope_iff.mp hvalid
  have hfits : ∀ r ∈ batch, r.Fits limits rawVersion := fun r hr => (hbatch.records r hr).fits
  refine ⟨?_, ?_, fun m hm => no_preservationAlarm hm hlen hbatch hpayload, ?_⟩
  · refine forall_mem_map.mpr fun r hr => ⟨_, _, (hfits r hr).reencodeRecord .preserve _, ?_, ?_⟩
    · rw [Mode.isStamp, Bool.or_false]
      exact (hfits r hr).clean_iff
    · intro hclean
      rw [Mode.rewrite_of_unchanged hclean]
      rfl
  · intro hall
    apply clean_payload_preserved hlen hbatch hpayload
    rw [any_eq_false]
    intro r hr
    simpa using (hfits r hr).clean_iff.mpr (forall_mem_map.mp hall r hr)
  · intro payload' records' h' hversion hrecords
    obtain ⟨rawVersion', hvalid'⟩ := decode_collecting.mp h'
    obtain ⟨-, batch', hbatch', rfl, rfl⟩ := validateEnvelope_iff.mp hvalid'
    rw [hpayload, hbatch.envelopeVersion, hbatch'.envelopeVersion] at hversion
    cases hversion
    rw [forall₂_map_left_iff, forall₂_map_right_iff] at hrecords
    have hbatches : batch.map id = batch'.map id := by
      refine map_eq_of_forall₂ hrecords fun r hr r' hr' hsame => ?_
      exact sameBut_eq_inj (hfits r hr) (hbatch'.records r' hr').fits hsame.1 hsame.2
    rw [map_id, map_id] at hbatches
    rw [hpayload, hbatches]

def secretRecord : RecordTree where
  resourceSchemaUrl := ⟨[], validUtf8_nil⟩
  resourceDroppedAttributesCount := 0
  resourceAttributes := [(⟨ascii "password", validUtf8_password⟩, .string ⟨ascii "hunter2", by decide +kernel⟩)]
  scope := some ⟨⟨ascii "lib", validUtf8_lib⟩, ⟨ascii "1.0", by decide +kernel⟩, 0, []⟩
  scopeSchemaUrl := ⟨[], validUtf8_nil⟩
  timeUnixNano := 5
  observedTimeUnixNano := 6
  receivedTimeUnixNano := none
  severityNumber := -1
  severityText := ⟨ascii "INFO", validUtf8_info⟩
  eventName := ⟨[], validUtf8_nil⟩
  body := .array [.null, .map [(⟨ascii "api_key", validUtf8_apiKey⟩, .array [.int64 7, .bytes [0xff]])]]
  droppedAttributesCount := 0
  attributes := [(⟨ascii "host", validUtf8_host⟩, .bool true)]
  traceFlags := 1
  traceId := none
  spanId := none

theorem accepted_payload_preserved_secret : ∃ records, decodeLogsBatchV2Into
    (batchV2Wire logsRawVersionV1 [secretRecord]) .default collecting [] = .ok records ∧ records.length = 1 ∧ ∀ m ∈
    preservationAlarms, redactReplayedLogsV2 (batchV2Wire logsRawVersionV1 [secretRecord]) .default ≠ .error
    (.error (.decode (.appender m))) ∧ redactLogsV2 (batchV2Wire logsRawVersionV1 [secretRecord]) .default ≠ .error
    (.error (.appender m)) := by
  have hdecode : decodeLogsBatchV2Into (batchV2Wire logsRawVersionV1 [secretRecord]) .default collecting [] =
      .ok [secretRecord.view logsRawVersionV1 secretRecord.wire] := by decide +kernel
  exact ⟨_, hdecode, rfl, (accepted_payload_preserved hdecode).2.2.1⟩

/-! ## Stamped batches -/

variable {receivedNs : UInt64}

/-- Redaction adds no node and no pair; its bytes count as bytes of the record. -/
theorem RecordTree.Accepted.stamp {r : RecordTree} (hnonzero : receivedNs ≠ 0)
    (hmarker : redacted.length ≤ limits.maxStringBytes)
    (hbytes : limits.maxRecordBytes ≤ limits.maxVariableBytesPerRecord)
    (h : r.Accepted limits rawVersion) (hemits : (Mode.stamp receivedNs).Emits limits r) :
    ((Mode.stamp receivedNs).rewrite r).Accepted limits logsRawVersionV2 := by
  refine ⟨{ h.fits.redact hmarker with stamped := by simp [Mode.rewrite], received := ?_ }, ?_,
    hemits.2, hemits.1⟩
  · rintro _ ⟨⟩
    exact hnonzero
  · have hfewer := r.redact_cost
    have hvariable := ((Mode.stamp receivedNs).rewrite r).variableBytes_le
    have hlen := hemits.1
    exact ⟨by omega, Nat.le_trans hfewer.nodes h.cost.nodes, Nat.le_trans hfewer.keyValues h.cost.keyValues⟩

theorem redactAndStampLogsV2_ok {s : Bytes} (h : redactAndStampLogsV2 payload receivedNs limits = .ok s) : receivedNs
    ≠ 0 ∧ ∃ batch, payload.length ≤ limits.maxPayloadBytes ∧ BatchAccepted limits logsRawVersionV1 batch ∧ payload =
    batchV2Wire logsRawVersionV1 batch ∧ (∀ r ∈ batch, (Mode.stamp receivedNs).Emits limits r) ∧ s = batchV2Wire
    logsRawVersionV2 (batch.map (Mode.stamp receivedNs).rewrite) ∧ s.length ≤ limits.maxPayloadBytes := by
  unfold redactAndStampLogsV2 at h
  split at h
  · cases h
  rename_i hnonzero
  split at h
  · cases h
  simp only [except_bind_ok, mapError_ok, Prod.exists, pure, Except.pure, Except.ok.injEq] at h
  obtain ⟨out, changed, henc, rfl⟩ := h
  refine ⟨hnonzero, ?_⟩
  cases hvalid : validateEnvelope limits payload with
  | error e =>
    simp [encodeWith, decodeLogsBatchV2Into, hvalid, Except.mapError, bind, Except.bind] at henc
  | ok p =>
    obtain ⟨rawVersion, records⟩ := p
    obtain ⟨hlen, batch, hbatch, hpay, rfl⟩ := validateEnvelope_iff.mp hvalid
    obtain ⟨version, hver, hemits, hout, hmax, -⟩ := (encodeWith_ok hvalid hbatch).mp henc
    simp only [Mode.outputVersion] at hver
    split at hver
    · rename_i hv
      cases hver
      subst hv
      exact ⟨batch, hlen, hbatch, hpay, hemits, hout, hmax⟩
    · cases hver

theorem redactAndStampLogsV2_accepted {s : Bytes} (h : redactAndStampLogsV2 payload receivedNs .default = .ok s) :
    ∃ batch, payload.length ≤ DecodeLimits.default.maxPayloadBytes ∧ BatchAccepted .default logsRawVersionV1 batch ∧
    payload = batchV2Wire logsRawVersionV1 batch ∧ s.length ≤ DecodeLimits.default.maxPayloadBytes ∧ BatchAccepted
    .default logsRawVersionV2 (batch.map (Mode.stamp receivedNs).rewrite) ∧ s = batchV2Wire logsRawVersionV2
    (batch.map (Mode.stamp receivedNs).rewrite) ∧ (batch.map (Mode.stamp receivedNs).rewrite).any RecordTree.dirty =
    false := by
  obtain ⟨hnonzero, batch, hlen, hbatch, hpay, hemits, hs, hmax⟩ := redactAndStampLogsV2_ok h
  refine ⟨batch, hlen, hbatch, hpay, hmax, ?_, hs, ?_⟩
  · refine ⟨.inr rfl, by simpa using hbatch.count, by simpa using hbatch.maxRecords, ?_⟩
    refine forall_mem_map.mpr fun r hr => ?_
    exact (hbatch.records r hr).stamp hnonzero (by decide) (Nat.le_refl _) (hemits r hr)
  · rw [any_map, any_eq_false]
    intro r _
    exact Bool.not_eq_true _ ▸ r.dirty_redact

/-- **What live ingest stamps, recovery replays unchanged.** Its records are the payload's with the receipt
time and redacted values. -/
theorem stamped_replays_unchanged {s : Bytes} (h : redactAndStampLogsV2 payload receivedNs .default = .ok s) :
    ∃ records records', decodeLogsBatchV2Into payload .default collecting [] = .ok records ∧ decodeLogsBatchV2Into s
    .default collecting [] = .ok records' ∧ List.Forall₂ (fun r r' => r'.rawVersion = logsRawVersionV2 ∧
    r'.receivedTimeUnixNano = some receivedNs.toNat ∧ SameBut Redacts r r') records records' ∧ redactReplayedLogsV2 s
    .default = .ok (.borrowed s) := by
  obtain ⟨batch, hlen, hbatch, hpayload, hmax, hstamped, hs, hclean⟩ := redactAndStampLogsV2_accepted h
  refine ⟨_, _, decode_collecting.mpr ⟨_, validateEnvelope_iff.mpr ⟨hlen, batch, hbatch, hpayload, rfl⟩⟩,
    decode_collecting.mpr ⟨_, validateEnvelope_iff.mpr ⟨hmax, _, hstamped, hs, rfl⟩⟩, ?_,
    (clean_payload_preserved hmax hstamped hs hclean).2.2.1⟩
  rw [map_map, forall₂_map_left_iff, forall₂_map_right_iff, forall₂_same]
  intro r hr
  have hfits := (hbatch.records r hr).fits
  exact ⟨rfl, rfl, hfits.sameBut_redact (hfits.redact (by decide)) _⟩

theorem stamped_replays_unchanged_secret : ∃ s, redactAndStampLogsV2 (batchV2Wire logsRawVersionV1 [secretRecord]) 42
    .default = .ok s ∧ redactReplayedLogsV2 s .default = .ok (.borrowed s) := by
  have hstamp : redactAndStampLogsV2 (batchV2Wire logsRawVersionV1 [secretRecord]) 42 .default =
      .ok (batchV2Wire logsRawVersionV2 [(Mode.stamp 42).rewrite secretRecord]) := by decide +kernel
  obtain ⟨_, _, -, -, -, hreplay⟩ := stamped_replays_unchanged hstamp
  exact ⟨_, hstamp, hreplay⟩

end Accepted

end Scry.Proto
