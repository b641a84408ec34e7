import Scry.Proto.Generated
import Scry.Proto.Text

/-! # OTLP traces

Each `ResourceSpans` and each `ScopeSpans` of a request gets an entry of its own, and every span the indexes of
the two, cut to 16 bits.
-/

open Scry.Lib Scry.Proto

namespace Scry.Gateway

open List

/-! ## Requests -/

/-- An absent or unknown value is `empty`. -/
inductive AnyValue where
  | empty
  | stringValue (value : Str)
  | boolValue (value : Bool)
  | intValue (value : Int64)
  | doubleValue (value : Binary64)
  | bytesValue (value : Bytes)
  | arrayValue (values : List AnyValue)
  | kvlistValue (values : List (Str × Option AnyValue))

abbrev KeyValue := Str × Option AnyValue

structure OtlpEvent where
  timeUnixNano : UInt64
  name : Str
  attributes : List KeyValue

structure OtlpLink where
  traceId : Bytes
  spanId : Bytes
  attributes : List KeyValue

structure OtlpStatus where
  code : Int32
  message : Str

structure OtlpSpan where
  traceId : Bytes
  spanId : Bytes
  parentSpanId : Bytes
  name : Str
  kind : Int32
  startTimeUnixNano : UInt64
  endTimeUnixNano : UInt64
  status : Option OtlpStatus
  attributes : List KeyValue
  events : List OtlpEvent
  links : List OtlpLink

structure OtlpScope where
  name : Str
  version : List Char

structure ScopeSpans where
  scope : Option OtlpScope
  spans : List OtlpSpan

structure ResourceSpans where
  resource : Option (List KeyValue)
  scopeSpans : List ScopeSpans

structure ExportTraceServiceRequest where
  resourceSpans : List ResourceSpans

/-! ## Texts -/

def pushStr (a b : Str) : Str := ⟨a.val ++ b.val, validUtf8_append a.property b.property⟩

def asciiStr (l : Bytes) (h : ∀ b ∈ l, b ≤ 0x7F) : Str := ⟨l, validUtf8_ascii h⟩

theorem digitChar_ascii (n : Nat) : UInt8.ofNat (Nat.digitChar n).toNat ≤ 0x7F := by
  by_cases hn : n < 16
  · revert n
    decide
  · have hstar : Nat.digitChar n = '*' := by
      unfold Nat.digitChar
      repeat' rw [if_neg (by omega)]
    rw [hstar]
    decide

theorem toDigits_ascii (n : Nat) : ∀ c ∈ Nat.toDigits 10 n, UInt8.ofNat c.toNat ≤ 0x7F := by
  induction n using Nat.strong_induction_on with
  | _ n ih =>
    rw [Nat.toDigits_eq_if (by omega)]
    split
    · simpa using digitChar_ascii n
    · rename_i hlarge
      simp only [mem_append, mem_singleton]
      rintro c (hc | rfl)
      · exact ih (n / 10) (by omega) c hc
      · exact digitChar_ascii (n % 10)

theorem decimal_ascii (value : Int) : ∀ b ∈ decimal value, b ≤ 0x7F := by
  intro b hb
  rcases mem_append.mp hb with hb | hb
  · split at hb
    · exact (by decide +kernel : ∀ b ∈ ascii "-", b ≤ 0x7F) b hb
    · cases hb
  · obtain ⟨c, hc, rfl⟩ := mem_map.mp hb
    exact toDigits_ascii value.natAbs c hc

theorem hexDigit_ascii {n : Nat} (h : n < 16) : Proto.hexDigit n ≤ 0x7F := by
  unfold Proto.hexDigit
  split <;> simp [UInt8.le_iff_toNat_le] <;> omega

def hexLower (bytes : Bytes) : Str :=
  asciiStr (bytes.flatMap Proto.hexByte) fun b hb => by
    obtain ⟨x, -, hx⟩ := mem_flatMap.mp hb
    have hlt := x.toNat_lt
    simp only [Proto.hexByte, mem_cons, not_mem_nil, or_false] at hx
    rcases hx with rfl | rfl
    · exact hexDigit_ascii (by omega)
    · exact hexDigit_ascii (by omega)

def boolText : Bool → Str
  | true => asciiStr (ascii "true") (by decide +kernel)
  | false => asciiStr (ascii "false") (by decide +kernel)

def comma : Str := asciiStr (ascii ",") (by decide +kernel)

def commaText : List Str → Str
  | [] => noText
  | [s] => s
  | s :: rest => pushStr s (pushStr comma (commaText rest))
where
  noText : Str := ⟨[], validUtf8_nil⟩

def between (opening closing : Str) (s : Str) : Str := pushStr opening (pushStr s closing)

section Text

-- `{v}` of an `f64`.
variable (displayDouble : Binary64 → Str)

mutual

def anyvalueToString : AnyValue → Str
  | .empty => ⟨[], validUtf8_nil⟩
  | .stringValue s => s
  | .boolValue v => boolText v
  | .intValue v => asciiStr (decimal v.toInt) (decimal_ascii v.toInt)
  | .doubleValue v => displayDouble v
  | .bytesValue v => hexLower v
  | .arrayValue values =>
    between (asciiStr (ascii "[") (by decide +kernel)) (asciiStr (ascii "]") (by decide +kernel))
      (commaText (itemTexts values))
  | .kvlistValue values =>
    between (asciiStr [0x7B] (by decide +kernel)) (asciiStr [0x7D] (by decide +kernel)) (commaText (entryTexts values))

def itemTexts : List AnyValue → List Str
  | [] => []
  | v :: rest => anyvalueToString v :: itemTexts rest

def entryTexts : List (Str × Option AnyValue) → List Str
  | [] => []
  | (key, none) :: rest => pushStr key (asciiStr (ascii "=") (by decide +kernel)) :: entryTexts rest
  | (key, some v) :: rest =>
    pushStr key (pushStr (asciiStr (ascii "=") (by decide +kernel)) (anyvalueToString v)) :: entryTexts rest

end

def kvToLabels (attrs : List KeyValue) : List LabelPair :=
  attrs.map fun kv => ⟨kv.1, match kv.2 with
    | some v => anyvalueToString displayDouble v
    | none => ⟨[], validUtf8_nil⟩⟩

/-! ## The mapping -/

def mapEvent (e : OtlpEvent) : Generated.SpanEvent := ⟨e.timeUnixNano, e.name, kvToLabels displayDouble e.attributes⟩

def mapLink (l : OtlpLink) : Generated.SpanLink := ⟨l.traceId, l.spanId, kvToLabels displayDouble l.attributes⟩

/-- `as u8` keeps the low byte of a kind and of a status code. -/
def mapSpan (resourceIdx scopeIdx : UInt16) (sp : OtlpSpan) : Generated.Span where
  resourceIdx := resourceIdx
  scopeIdx := scopeIdx
  traceId := sp.traceId
  spanId := sp.spanId
  parentSpanId := if sp.parentSpanId = [] then none else some sp.parentSpanId
  name := sp.name
  kind := sp.kind.toUInt32.toUInt8
  startUnixNano := sp.startTimeUnixNano
  endUnixNano := sp.endTimeUnixNano
  statusCode := match sp.status with
    | some s => s.code.toUInt32.toUInt8
    | none => 0
  statusMessage := match sp.status with
    | some s => s.message
    | none => ⟨[], validUtf8_nil⟩
  attributes := kvToLabels displayDouble sp.attributes
  events := sp.events.map (mapEvent displayDouble)
  links := sp.links.map (mapLink displayDouble)

def scopeEntry (scope : Option OtlpScope) : Generated.ScopeEntry :=
  match scope with
  | some s => ⟨s.name, s.version⟩
  | none => ⟨⟨[], validUtf8_nil⟩, []⟩

def mapScopeSpans (resourceIdx : UInt16) (b : Generated.TracesBatch) (ss : ScopeSpans) : Generated.TracesBatch :=
  { b with
    scopes := b.scopes ++ [scopeEntry ss.scope]
    spans := b.spans ++ ss.spans.map (mapSpan displayDouble resourceIdx (UInt16.ofNat b.scopes.length)) }

def mapResourceSpans (b : Generated.TracesBatch) (rs : ResourceSpans) : Generated.TracesBatch :=
  rs.scopeSpans.foldl (mapScopeSpans displayDouble (UInt16.ofNat b.resources.length))
    { b with resources := b.resources ++ [kvToLabels displayDouble (rs.resource.getD [])] }

variable (req : ExportTraceServiceRequest)

def mapTraces : Generated.TracesBatch :=
  req.resourceSpans.foldl (mapResourceSpans displayDouble) ⟨[], [], []⟩

/-! ## References -/

/-- Where the resource and the scope of each span stand in the request. -/
def scopeOrigins (i : Nat) : Nat → List ScopeSpans → List (Nat × Nat)
  | _, [] => []
  | j, ss :: rest => ss.spans.map (fun _ => (i, j)) ++ scopeOrigins i (j + 1) rest

def originsFrom : Nat → Nat → List ResourceSpans → List (Nat × Nat)
  | _, _, [] => []
  | i, j, rs :: rest =>
    scopeOrigins i j rs.scopeSpans ++ originsFrom (i + 1) (j + rs.scopeSpans.length) rest

def origins : List (Nat × Nat) := originsFrom 0 0 req.resourceSpans

def references (b : Generated.TracesBatch) : List (Nat × Nat) :=
  b.spans.map fun s => (s.resourceIdx.toNat, s.scopeIdx.toNat)

theorem mapScopeSpans_counts (i : UInt16) (sss : List ScopeSpans) (b : Generated.TracesBatch) :
    (sss.foldl (mapScopeSpans displayDouble i) b).resources = b.resources ∧
      (sss.foldl (mapScopeSpans displayDouble i) b).scopes.length = b.scopes.length + sss.length := by
  induction sss generalizing b with
  | nil => exact ⟨rfl, rfl⟩
  | cons ss sss ih =>
    obtain ⟨hress, hscopes⟩ := ih (mapScopeSpans displayDouble i b ss)
    have hlen : (mapScopeSpans displayDouble i b ss).scopes.length = b.scopes.length + 1 := by
      simp [mapScopeSpans]
    rw [length_cons]
    exact ⟨hress, hscopes.trans (by omega)⟩

theorem mapResourceSpans_counts (b : Generated.TracesBatch) (rs : ResourceSpans) :
    (mapResourceSpans displayDouble b rs).resources.length = b.resources.length + 1 ∧
      (mapResourceSpans displayDouble b rs).scopes.length = b.scopes.length + rs.scopeSpans.length := by
  unfold mapResourceSpans
  rw [(mapScopeSpans_counts displayDouble _ rs.scopeSpans _).1,
    (mapScopeSpans_counts displayDouble _ rs.scopeSpans _).2]
  simp

theorem foldl_mapResourceSpans_le (rss : List ResourceSpans) (b : Generated.TracesBatch) :
    b.resources.length ≤ (rss.foldl (mapResourceSpans displayDouble) b).resources.length ∧
      b.scopes.length ≤ (rss.foldl (mapResourceSpans displayDouble) b).scopes.length := by
  induction rss generalizing b with
  | nil => exact ⟨Nat.le_refl _, Nat.le_refl _⟩
  | cons rs rss ih =>
    have hrest := ih (mapResourceSpans displayDouble b rs)
    have hcounts := mapResourceSpans_counts displayDouble b rs
    rw [foldl_cons]
    omega

variable {displayDouble} {b : Generated.TracesBatch}

theorem toNat_ofNat_u16 {n : Nat} (h : n < 2 ^ 16) : (UInt16.ofNat n).toNat = n :=
  UInt16.toNat_ofNat_of_lt' h

theorem references_mapScopeSpans {i : Nat} (hi : i < 2 ^ 16) {sss : List ScopeSpans}
    (hscopes : b.scopes.length + sss.length ≤ 2 ^ 16) : references (sss.foldl
    (mapScopeSpans displayDouble (UInt16.ofNat i)) b) = references b ++ scopeOrigins i b.scopes.length sss := by
  induction sss generalizing b with
  | nil => simp [scopeOrigins]
  | cons ss sss ih =>
    rw [length_cons] at hscopes
    have hlen : (mapScopeSpans displayDouble (UInt16.ofNat i) b ss).scopes.length = b.scopes.length + 1 := by
      simp [mapScopeSpans]
    have hspans : references (mapScopeSpans displayDouble (UInt16.ofNat i) b ss) =
        references b ++ ss.spans.map fun _ => (i, b.scopes.length) := by
      simp only [references, mapScopeSpans, map_append, map_map]
      congr 1
      refine map_congr_left fun sp _ => ?_
      simp only [Function.comp, mapSpan, toNat_ofNat_u16 hi, toNat_ofNat_u16 (show b.scopes.length < 2 ^ 16 by omega)]
    rw [foldl_cons, ih (by omega), hspans, hlen, scopeOrigins, append_assoc]

theorem references_foldl {rss : List ResourceSpans}
    (hress : (rss.foldl (mapResourceSpans displayDouble) b).resources.length ≤ 2 ^ 16)
    (hscopes : (rss.foldl (mapResourceSpans displayDouble) b).scopes.length ≤ 2 ^ 16) :
    references (rss.foldl (mapResourceSpans displayDouble) b) =
      references b ++ originsFrom b.resources.length b.scopes.length rss := by
  induction rss generalizing b with
  | nil => simp [originsFrom]
  | cons rs rss ih =>
    rw [foldl_cons] at hress hscopes ⊢
    have hle := foldl_mapResourceSpans_le displayDouble rss (mapResourceSpans displayDouble b rs)
    have hcounts := mapResourceSpans_counts displayDouble b rs
    have hown : references (mapResourceSpans displayDouble b rs) =
        references b ++ scopeOrigins b.resources.length b.scopes.length rs.scopeSpans :=
      references_mapScopeSpans (by omega) (by simp only; omega)
    rw [ih hress hscopes, hown, hcounts.1, hcounts.2, originsFrom, append_assoc]

end Text

end Scry.Gateway
