import Scry.Proto.LogsRedaction
import Scry.Proto.TraceRedaction

/-! # One grammar, two readers

The v1 redactor copies byte ranges, the streaming decoders build records.
-/

open Scry.Lib

namespace Scry.Proto

theorem redactLogsV1_reads {p q : Bytes} (h : redactLogsV1 p = .ok q) : ∃ streams, readLogsBatch ⟨p, ()⟩ = .ok
    (streams, ⟨[], ()⟩) ∧ readLogsBatch ⟨q, ()⟩ = .ok (streams.map LogStream.redact, ⟨[], ()⟩) := by
  obtain ⟨-, -, streams, hto⟩ := redactLogsV1_ok.mp h
  refine ⟨streams, (readLogsBatch_ok _ _ _).mpr ⟨hto.batchFits, ?_⟩,
    (readLogsBatch_ok _ _ _).mpr ⟨hto.again.batchFits, ?_⟩⟩
  · simp [Cursor.unread, hto.payload]
  · simp [Cursor.unread, hto.output]

namespace TracesBatch

def OutOfRange (b : TracesBatch) : Prop :=
  ∃ s ∈ b.spans, b.resources.length ≤ s.resourceIdx ∨ b.scopes.length ≤ s.scopeIdx

variable {b : TracesBatch}

theorem outOfRange_of_resolve {e : BinSchemaError} (h : b.resolve = .error e) : b.OutOfRange := by
  obtain ⟨s, hs, hfail⟩ := mapM_error h
  refine ⟨s, hs, ?_⟩
  by_contra hin
  simp only [not_or, Nat.not_le] at hin
  simp [Span.resolve, List.getElem?_eq_getElem hin.1, List.getElem?_eq_getElem hin.2] at hfail

theorem Fits.readTraces_wire (h : b.Fits) : readTraces ⟨b.wire, ()⟩ = .ok (b, ⟨[], ()⟩) := by
  simpa [Cursor.unread] using h.decodes ⟨[], ()⟩

theorem Fits.readTracesBatch_wire (h : b.Fits) :
    Proto.readTracesBatch ⟨b.wire, ()⟩ = b.resolve.map fun decoded => (decoded, ⟨[], ()⟩) := by
  simpa [Cursor.unread] using h.readTracesBatch ⟨[], ()⟩

end TracesBatch

/-- **The v1 redactor and the v1 decoders read the same grammar.** What the redactor accepts, the decoder
reads to its end, but for an index out of range; so it does with the output. Redacting again changes nothing.
-/
theorem redactor_decoder_agree (p q : Bytes) : (redactLogsV1 p = .ok q →
    (∃ streams, readLogsBatch ⟨p, ()⟩ = .ok (streams, ⟨[], ()⟩) ∧ readLogsBatch ⟨q, ()⟩ = .ok
    (streams.map LogStream.redact, ⟨[], ()⟩)) ∧ redactLogsV1 q = .ok q) ∧
    (redactTracesV1 p = .ok q → ((∃ spans, readTracesBatch ⟨p, ()⟩ = .ok (spans, ⟨[], ()⟩) ∧ readTracesBatch ⟨q, ()⟩ =
    .ok (spans.map DecodedSpan.redact, ⟨[], ()⟩)) ∨ ∃ b : TracesBatch, readTraces ⟨p, ()⟩ = .ok (b, ⟨[], ()⟩) ∧
    readTraces ⟨q, ()⟩ = .ok (b.redact, ⟨[], ()⟩) ∧ b.OutOfRange ∧ b.redact.OutOfRange ∧
    (∃ e, readTracesBatch ⟨p, ()⟩ = .error e) ∧ ∃ e, readTracesBatch ⟨q, ()⟩ = .error e) ∧ redactTracesV1 q = .ok
    q) := by
  refine ⟨fun h => ⟨redactLogsV1_reads h, redactLogsV1_again h⟩, fun h => ⟨?_, redactTracesV1_again h⟩⟩
  obtain ⟨-, -, b, hb, rfl, rfl⟩ := redactTracesV1_ok.mp h
  have hfits := hb.fits
  have hfits' := hb.redact.fits
  rw [hfits.readTraces_wire, hfits'.readTraces_wire, hfits.readTracesBatch_wire,
    hfits'.readTracesBatch_wire, b.resolve_redact]
  cases hresolve : b.resolve with
  | ok spans => exact .inl ⟨spans, rfl, rfl⟩
  | error e =>
    have hresolve' : b.redact.resolve = .error e := by
      rw [b.resolve_redact, hresolve]
      rfl
    exact .inr ⟨b, rfl, rfl, TracesBatch.outOfRange_of_resolve hresolve,
      TracesBatch.outOfRange_of_resolve hresolve', ⟨e, rfl⟩, e, rfl⟩

def secretSpan : Span where
  resourceIdx := 0
  scopeIdx := 0
  traceId := List.replicate 16 1
  spanId := List.replicate 8 2
  parentSpanId := some (List.replicate 8 3)
  name := ascii "get"
  kind := 1
  startUnixNano := 5
  endUnixNano := 6
  statusCode := 0
  statusMessage := []
  attributes := [(ascii "host", ascii "a")]
  events := [⟨7, ascii "login", [(ascii "password", ascii "hunter2")]⟩]
  links := []

def secretStream : LogStream :=
  ⟨9, [(ascii "app", ascii "a")], [⟨5, 1, ascii "hi", [(ascii "token", ascii "abc")]⟩]⟩

theorem redactor_decoder_agree_secret :
    (∃ q, redactLogsV1 (batchWire [secretStream]) = .ok q ∧ redactLogsV1 q = .ok q) ∧
      ∃ q, redactTracesV1 (TracesBatch.mk [[]] [(ascii "lib", [0xff])] [secretSpan]).wire = .ok q ∧
        redactTracesV1 q = .ok q := by
  have hlogs : redactLogsV1 (batchWire [secretStream]) = .ok (batchWire [secretStream.redact]) := by
    decide +kernel
  have htraces : redactTracesV1 (TracesBatch.mk [[]] [(ascii "lib", [0xff])] [secretSpan]).wire =
      .ok (TracesBatch.mk [[]] [(ascii "lib", [0xff])] [secretSpan]).redact.wire := by decide +kernel
  exact ⟨⟨_, hlogs, ((redactor_decoder_agree _ _).1 hlogs).2⟩, _, htraces, ((redactor_decoder_agree _ _).2 htraces).2⟩

end Scry.Proto
