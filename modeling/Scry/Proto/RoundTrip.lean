import Mathlib.Data.List.Forall2
import Scry.Proto.Encoder

/-! # Encoder and decoder agree

The encoder writes the wire form of a record's tree. Encoder and decoder keep their budgets apart and charge the
same.
-/

open Scry.Lib

namespace Scry.Proto

open List AnyValueInput

/-! ## What the encoder writes -/

namespace AnyValueInput

/-- The tree with the doubles that are written for it. -/
def canonical : AnyValueInput → AnyValueInput
  | null => null
  | string s => string s
  | bool b => bool b
  | int64 n => int64 n
  | double bits => double (RecordWriter.canonicalBits bits)
  | bytes b => bytes b
  | array vs => array (vs.map canonical)
  | map es => map (es.map fun e => (e.1, canonical e.2))
termination_by t => sizeOf t
decreasing_by
  · exact sizeOf_item ‹_›
  · exact sizeOf_entry ‹_›

end AnyValueInput

def canonicalEntries (es : List KeyValueInput) : List KeyValueInput :=
  es.map fun e => (e.1, e.2.canonical)

def ScopeInput.canonical (s : ScopeInput) : ScopeInput :=
  { s with attributes := canonicalEntries s.attributes }

def LogRecordInput.tree (r : LogRecordInput) : RecordTree where
  resourceSchemaUrl := r.resourceSchemaUrl
  resourceDroppedAttributesCount := r.resourceDroppedAttributesCount
  resourceAttributes := canonicalEntries r.resourceAttributes
  scope := r.scope.map ScopeInput.canonical
  scopeSchemaUrl := r.scopeSchemaUrl
  timeUnixNano := r.timeUnixNano
  observedTimeUnixNano := r.observedTimeUnixNano
  receivedTimeUnixNano := none
  severityNumber := r.severity.toUInt32.toInt32
  severityText := r.severityText
  eventName := r.eventName
  body := r.body.canonical
  droppedAttributesCount := r.droppedAttributesCount
  attributes := canonicalEntries r.attributes
  traceFlags := r.traceFlags.toUInt32
  traceId := r.traceId
  spanId := r.spanId

/-- Bytes written after `start`, and what is charged for them. -/
def writing (limits : DecodeLimits) (start : Nat) : Effects RecordOut (Bytes × RecordBudget) where
  one := ([], 0)
  mul m n := (m.1 ++ n.1, m.2 + n.2)
  Good w := start ≤ w.out.length ∧ w.out.length - start ≤ limits.maxRecordBytes ∧
    w.budget.Within limits
  Moves w m w' := w'.out = w.out ++ m.1 ∧ w'.budget = w.budget + m.2 ∧
    start ≤ w'.out.length ∧ w'.out.length - start ≤ limits.maxRecordBytes ∧ w'.budget.Within limits
  moves_one {w w'} hw := by
    obtain ⟨out, budget⟩ := w
    obtain ⟨out', budget'⟩ := w'
    simp only [append_nil, add_zero, RecordOut.mk.injEq]
    constructor
    · rintro ⟨rfl, rfl, -⟩
      exact ⟨rfl, rfl⟩
    · rintro ⟨rfl, rfl⟩
      exact ⟨rfl, rfl, hw⟩
  moves_mul {w w' m n} hw := by
    constructor
    · rintro ⟨hout, hbudget, hstart, hlen, hwithin⟩
      refine ⟨⟨w.out ++ m.1, w.budget + m.2⟩, ⟨rfl, rfl, ?_, ?_, ?_⟩, ?_, ?_, hstart, hlen, hwithin⟩
      · simp only [length_append]
        omega
      · rw [hout] at hlen
        simp only [length_append] at hlen ⊢
        omega
      · rw [hbudget, ← add_assoc] at hwithin
        exact hwithin.left
      · rw [hout, append_assoc]
      · rw [hbudget, add_assoc]
    · rintro ⟨t, ⟨hout, hbudget, -⟩, hout', hbudget', hgood⟩
      exact ⟨by rw [hout', hout, append_assoc], by rw [hbudget', hbudget, add_assoc], hgood⟩
  good _ h := h.2.2

namespace RecordWriter

open Writer AnyValueInput

variable {limits : DecodeLimits} {start : Nat}

@[simp] theorem writing_one : (writing limits start).one = ([], 0) := rfl

@[simp] theorem writing_mul (m n : Bytes × RecordBudget) :
    (writing limits start).mul m n = (m.1 ++ n.1, m.2 + n.2) := rfl

theorem writing_product {ξ : Type} (wire : ξ → Bytes) (cost : ξ → RecordBudget) (xs : List ξ) :
    (writing limits start).product (xs.map fun x => (wire x, cost x)) = (xs.flatMap wire, (xs.map cost).sum) := by
  induction xs with
  | nil => rfl
  | cons x xs ih =>
    rw [map_cons, Effects.product_cons, ih]
    rfl

theorem bytes_writes (b : Bytes) : Writes (writing limits start) (bytes limits start b) True (b, 0) := by
  refine ⟨fun {w w' u} hw => ?_⟩
  obtain ⟨out, budget⟩ := w
  obtain ⟨out', budget'⟩ := w'
  obtain ⟨hstart, hlen, hwithin⟩ := hw
  simp only [bytes, writing, add_zero, true_and]
  simp only at hstart hlen hwithin
  split
  · rename_i hover
    simp only [reduceCtorEq, false_iff]
    rintro ⟨rfl, rfl, -, h, -⟩
    simp only [length_append] at h
    omega
  · rename_i hfits
    simp only [Except.ok.injEq, Prod.mk.injEq, true_and, RecordOut.mk.injEq]
    constructor
    · rintro ⟨rfl, rfl⟩
      refine ⟨rfl, rfl, ?_, ?_, hwithin⟩
      · simp only [length_append]
        omega
      · simp only [length_append]
        omega
    · rintro ⟨rfl, rfl, -⟩
      exact ⟨rfl, rfl⟩

theorem charge_writes {k : RecordBudget} {used : RecordBudget → Nat} {max : Nat} {e : EncodeError}
    (hused : ∀ b : RecordBudget, b.Within limits → (used (b + k) ≤ max ↔ (b + k).Within limits)) :
    Writes (writing limits start) (charge k used max e) True ([], k) := by
  refine ⟨fun {w w' u} hw => ?_⟩
  obtain ⟨out, budget⟩ := w
  obtain ⟨out', budget'⟩ := w'
  obtain ⟨hstart, hlen, hwithin⟩ := hw
  have hused := hused budget hwithin
  simp only [charge, writing, append_nil, true_and]
  split
  · rename_i hover
    simp only [reduceCtorEq, false_iff]
    rintro ⟨rfl, rfl, -, -, h⟩
    exact absurd (hused.mpr h) (by simpa using hover)
  · rename_i hfits
    simp only [Except.ok.injEq, Prod.mk.injEq, true_and, RecordOut.mk.injEq]
    constructor
    · rintro ⟨rfl, rfl⟩
      exact ⟨rfl, rfl, hstart, hlen, hused.mp (by simpa using hfits)⟩
    · rintro ⟨rfl, rfl, -⟩
      exact ⟨rfl, rfl⟩

theorem budgetVariable_writes (len : Nat) :
    Writes (writing limits start) (budgetVariable limits len) True ([], ⟨len, 0, 0⟩) :=
  charge_writes fun _ hb => ⟨fun h => ⟨h, hb.nodes, hb.keyValues⟩, fun h => h.1⟩

theorem node_writes : Writes (writing limits start) (node limits) True ([], ⟨0, 1, 0⟩) :=
  charge_writes fun _ hb => ⟨fun h => ⟨hb.variableBytes, h, hb.keyValues⟩, fun h => h.2⟩

theorem pairs_writes (count : Nat) : Writes (writing limits start) (pairs limits count) True ([], ⟨0, 0, count⟩) :=
  charge_writes fun _ hb => ⟨fun h => ⟨hb.variableBytes, hb.nodes, h⟩, fun h => h.3⟩

theorem string_writes (s : Str) (key : Bool) :
    Writes (writing limits start) (string limits start s key)
      (s.1.length < 256 ^ 4 ∧ s.1.length ≤ if key then limits.maxKeyBytes else limits.maxStringBytes)
      (withLength s.1, ⟨s.1.length, 0, 0⟩) := by
  have hwrite : Writes (writing limits start) (string limits start s key) _ _ :=
    .check fun _ => .check fun _ => (budgetVariable_writes _).seq fun _ =>
      (bytes_writes _).seq fun _ => bytes_writes _
  refine hwrite.congr ?_ fun _ => by simp [withLength]
  constructor
  · rintro ⟨hmax, hlen, -⟩
    exact ⟨hlen, hmax⟩
  · rintro ⟨hlen, hmax⟩
    exact ⟨hmax, hlen, trivial, trivial, trivial⟩

/-- The part of `KeysFit` that does not depend on the limits. -/
def KeysAscend : Option Bytes → List KeyValueInput → Prop
  | _, [] => True
  | previous, (key, _) :: es =>
    key.1 ≠ [] ∧ (∀ old ∈ previous, old < key.1) ∧ KeysAscend (some key.1) es

variable {es : List KeyValueInput} {previous : Option Bytes}

theorem keysFit_iff : KeysFit limits previous es ↔ KeysAscend
    previous es ∧ ∀ e ∈ es, e.1.1.length < 256 ^ 4 ∧ e.1.1.length ≤ limits.maxKeyBytes := by
  induction es generalizing previous with
  | nil => simp [KeysFit, KeysAscend]
  | cons e es ih =>
    simp only [KeysFit, KeysAscend, ih, mem_cons, forall_eq_or_imp]
    constructor
    · rintro ⟨⟨hlen, hmax, hne, hold⟩, hascend, hes⟩
      exact ⟨⟨hne, hold, hascend⟩, ⟨hlen, hmax⟩, hes⟩
    · rintro ⟨⟨hne, hold, hascend⟩, ⟨hlen, hmax⟩, hes⟩
      exact ⟨⟨hlen, hmax, hne, hold⟩, hascend, hes⟩

theorem keysFit_canonicalEntries :
    KeysFit limits previous (canonicalEntries es) ↔ KeysFit limits previous es := by
  induction es generalizing previous with
  | nil => rfl
  | cons e es ih => exact and_congr_right fun _ => ih

theorem checkKeys_writes (previous : Option Bytes) (es : List KeyValueInput) :
    Writes (writing limits start) (checkKeys previous es) (KeysAscend previous es) ([], 0) := by
  induction es generalizing previous with
  | nil => exact writes_pure
  | cons e es ih => exact .check fun _ => .check fun _ => ih _

section Values

variable {room : Nat} {value : AnyValueInput → RecordWriter}
  (hvalue : ∀ t, Writes (writing limits start) (value t) (t.canonical.Fits limits room)
    (t.canonical.wire, t.canonical.cost))
include hvalue

theorem map_writes (es : List KeyValueInput) : Writes (writing limits start) (map limits start room value es)
    ((AnyValueInput.map (canonicalEntries es)).Fits limits (room + 1))
    ((AnyValueInput.map (canonicalEntries es)).wire, (AnyValueInput.map (canonicalEntries es)).contentCost) := by
  have hentry (e : KeyValueInput) :
      Writes (writing limits start) (do string limits start e.1 true; value e.2) _ _ :=
    (string_writes e.1 true).seq fun _ => hvalue e.2
  have hwrite : Writes (writing limits start) (map limits start room value es) _ _ :=
    .check fun _ => .check fun _ => .check fun _ => (pairs_writes _).seq fun _ =>
      (checkKeys_writes none es).seq fun _ => (bytes_writes _).seq fun _ => (bytes_writes _).seq fun _ =>
        .forEach fun e _ => hentry e
  have hlen : (canonicalEntries es).length = es.length := length_map _
  refine hwrite.congr ?_ fun _ => ?_
  · rw [AnyValueInput.Fits, keysFit_canonicalEntries, keysFit_iff, hlen]
    constructor
    · rintro ⟨hroom, hcnt, hmax, -, hascend, -, -, hes⟩
      refine ⟨hroom, hcnt, hmax, ⟨hascend, fun e he => (hes e he).1⟩, ?_⟩
      exact forall_mem_map.mpr fun e he => (hes e he).2
    · rintro ⟨hroom, hcnt, hmax, ⟨hascend, hkeys⟩, hvalues⟩
      have hvalues := forall_mem_map.mp hvalues
      exact ⟨hroom, hcnt, hmax, trivial, hascend, trivial, trivial, fun e he => ⟨hkeys e he, hvalues e he⟩⟩
  · rw [wire_eq]
    simp [writing_product, content, contentCost, tag, canonicalEntries, flatMap_map,
      toBe, Function.comp_def, entryCost]

end Values

theorem canonicalDouble_canonicalBits (bits : UInt64) :
    RecordReader.canonicalDouble (canonicalBits bits).toNat = true := by
  unfold canonicalBits
  split
  · decide
  split
  · decide
  · rename_i hnan hzero
    have hne : bits.toNat ≠ 9223372036854775808 := by
      intro h
      apply hzero
      right
      apply UInt64.toNat_inj.mp
      rw [h]
      rfl
    simp [RecordReader.canonicalDouble, hnan, hne]

theorem node_content_writes {w : RecordWriter} {t : AnyValueInput} {p : Prop}
    (h : Writes (writing limits start) w p (t.wire, t.contentCost)) :
    Writes (writing limits start) (node limits >>= fun _ => w) p (t.wire, t.cost) :=
  (node_writes.seq fun _ => h).congr (by simp) fun _ => by simp [cost_eq]

theorem value_writes (room : Nat) (t : AnyValueInput) : Writes (writing limits start) (value limits start room t)
    (t.canonical.Fits limits room) (t.canonical.wire, t.canonical.cost) := by
  induction room generalizing t with
  | zero => exact (writes_fail _ (t.canonical.wire, t.canonical.cost)).congr Iff.rfl fun _ => rfl
  | succ room ih =>
    apply node_content_writes
    cases t with
    | null =>
      rw [canonical, wire]
      exact bytes_writes [0]
    | string s =>
      rw [canonical, wire]
      have hwrite : Writes (writing limits start) (do u8 limits start 1; string limits start s false) _ _ :=
        (bytes_writes [1]).seq fun _ => string_writes s false
      exact hwrite.congr (by simp [Fits]) fun _ => by simp [contentCost]
    | bool b =>
      rw [canonical, wire]
      exact ((bytes_writes [2]).seq fun _ => bytes_writes _).congr (by simp [Fits]) fun _ => rfl
    | int64 n =>
      rw [canonical, wire]
      exact ((bytes_writes [3]).seq fun _ => bytes_writes _).congr (by simp [Fits]) fun _ => rfl
    | double bits =>
      rw [canonical, wire]
      exact ((bytes_writes [4]).seq fun _ => bytes_writes _).congr
        (by simp [Fits, canonicalDouble_canonicalBits]) fun _ => rfl
    | bytes b =>
      rw [canonical, wire]
      have hwrite : Writes (writing limits start) (do
          check (b.length ≤ limits.maxBytesValue) .bytesLimit
          check (b.length < 2 ^ 32) .lengthOverflow
          budgetVariable limits b.length
          u8 limits start 5
          u32 limits start b.length
          bytes limits start b) _ _ :=
        .check fun _ => .check fun _ => (budgetVariable_writes _).seq fun _ =>
          (bytes_writes [5]).seq fun _ => (bytes_writes _).seq fun _ => bytes_writes b
      refine hwrite.congr ?_ fun _ => by simp [contentCost, withLength]
      constructor
      · rintro ⟨hmax, hlen, -⟩
        exact ⟨hlen, hmax⟩
      · rintro ⟨hlen, hmax⟩
        exact ⟨hmax, hlen, trivial, trivial, trivial, trivial⟩
    | array vs =>
      rw [canonical, wire]
      have hwrite : Writes (writing limits start) (do
          check (0 < room) .depthLimit
          check (vs.length < 2 ^ 32) .lengthOverflow
          check (vs.length ≤ limits.maxContainerElements) .containerLimit
          u8 limits start 6
          u32 limits start vs.length
          forEach (value limits start room) vs) _ _ :=
        .check fun _ => .check fun _ => .check fun _ => (bytes_writes [6]).seq fun _ =>
          (bytes_writes _).seq fun _ => .forEach fun v _ => ih v
      refine hwrite.congr ?_ fun _ => ?_
      · simp [Fits]
      · simp [writing_product, contentCost, flatMap_map, Function.comp_def]
    | map es =>
      rw [canonical]
      exact map_writes ih es

theorem topMap_writes (es : List KeyValueInput) : Writes (writing limits start) (topMap limits start es)
    (MapFits limits (canonicalEntries es)) (mapWire (canonicalEntries es), mapCost (canonicalEntries es)) :=
  node_content_writes (map_writes (value_writes limits.maxDepth) es)

variable (s : Option ScopeInput) (r : LogRecordInput)

theorem scope_writes : Writes (writing limits start) (scope limits start s)
    (∀ x ∈ s.map ScopeInput.canonical, x.Fits limits) (scopeWire ((s.map ScopeInput.canonical).map ScopeInput.view),
    (s.map ScopeInput.canonical).elim 0 ScopeInput.cost) := by
  cases s with
  | none => exact (bytes_writes [0]).congr (by simp) fun _ => rfl
  | some s =>
    have hwrite : Writes (writing limits start) (scope limits start (some s)) _ _ :=
      (bytes_writes [1]).seq fun _ => (string_writes s.name false).seq fun _ =>
        (string_writes s.version false).seq fun _ => (bytes_writes _).seq fun _ =>
          topMap_writes s.attributes
    refine hwrite.congr ?_ fun _ => ?_
    · simp only [Option.map_some, Option.mem_some_iff, forall_eq', true_and]
      constructor
      · rintro ⟨hname, hver, hattrs⟩
        exact ⟨hname, hver, hattrs⟩
      · rintro ⟨hname, hver, hattrs⟩
        exact ⟨hname, hver, hattrs⟩
    · simp [scopeWire, ScopeInput.view, ScopeInput.cost, ScopeInput.canonical, stringCost]

theorem idOf_writes {width : Nat} (id : Option (Fixed width)) :
    Writes (writing limits start) (idOf limits start id) True (idWire (id.map Subtype.val), 0) := by
  cases id with
  | none => exact bytes_writes [0]
  | some id =>
    have hwrite : Writes (writing limits start) (idOf limits start (some id)) _ _ :=
      (bytes_writes [UInt8.ofNat width]).seq fun _ => bytes_writes id.1
    have hwidth : UInt8.ofNat (width % 256) = UInt8.ofNat width := UInt8.ofNat_mod_size
    exact hwrite.congr (by simp) fun _ => by simp [idWire, toBe, id.2, hwidth]

theorem fields_writes (htrace : Nonzero r.traceId) (hspan : Nonzero r.spanId)
    (horphan : r.spanId = none ∨ r.traceId ≠ none) : Writes (writing limits start) (fields limits start r)
    (r.tree.Fits limits logsRawVersionV1) (r.tree.wire, r.tree.cost) := by
  have hwrite : Writes (writing limits start) (fields limits start r) _ _ :=
    (bytes_writes _).seq fun _ => (string_writes _ false).seq fun _ => (bytes_writes _).seq fun _ =>
      (topMap_writes _).seq fun _ => (scope_writes _).seq fun _ => (string_writes _ false).seq fun _ =>
      (bytes_writes _).seq fun _ => (bytes_writes _).seq fun _ => (bytes_writes _).seq fun _ =>
      (string_writes _ false).seq fun _ => (string_writes _ false).seq fun _ =>
      (value_writes _ _).seq fun _ => (bytes_writes _).seq fun _ => (topMap_writes _).seq fun _ =>
      (bytes_writes _).seq fun _ => (idOf_writes _).seq fun _ => idOf_writes _
  refine hwrite.congr ?_ fun _ => ?_
  · constructor
    · rintro ⟨-, hurl, -, hrattrs, hscope, hsurl, -, -, -, hstext, hename, hbody, -, hattrs, -⟩
      exact ⟨hurl, hrattrs, hscope, hsurl, by simp [LogRecordInput.tree, logsRawVersionV1, logsRawVersionV2],
        by simp [LogRecordInput.tree], hstext, hename, hbody, hattrs, htrace, hspan, horphan⟩
    · intro h
      exact ⟨trivial, h.resourceSchemaUrl, trivial, h.resourceAttributes, h.scope, h.scopeSchemaUrl, trivial, trivial,
        trivial, h.severityText, h.eventName, h.body, trivial, h.attributes, trivial, trivial, trivial⟩
  · simp [RecordTree.wire, recordWire, RecordTree.view, RecordTree.cost, LogRecordInput.tree,
      RecordReader.ofSigned_int32, receivedWire, stringCost]

/-! ### What is left behind -/

def Extends (w w' : RecordOut) : Prop := w.out <+: w'.out

theorem Extends.refl (w : RecordOut) : Extends w w := prefix_rfl

theorem Extends.trans {a b c : RecordOut} (h : Extends a b) (h' : Extends b c) : Extends a c :=
  List.IsPrefix.trans h h'

theorem keeps_seq {w w' : RecordWriter} (h : Keeps Extends w) (h' : Keeps Extends w') :
    Keeps Extends (w >>= fun _ => w') :=
  h.seq Extends.trans h'

theorem check_keeps (p : Prop) [Decidable p] (e : EncodeError) : Keeps Extends (check p e : RecordWriter) :=
  keeps_check Extends.refl p e

theorem bytes_keeps (b : Bytes) : Keeps Extends (bytes limits start b) := by
  unfold bytes
  constructor
  · intro w w' u h
    split at h
    · cases h
    · cases h
      exact prefix_append _ _
  · intro w w' e h
    split at h
    · cases h
      exact Extends.refl w
    · cases h

theorem charge_keeps {k : RecordBudget} {used : RecordBudget → Nat} {max : Nat} {e : EncodeError} :
    Keeps Extends (charge k used max e) := by
  unfold charge
  constructor
  · intro w w' u h
    simp only at h
    split at h
    · cases h
    · cases h
      exact prefix_rfl
  · intro w w' e h
    simp only at h
    split at h
    · cases h
      exact prefix_rfl
    · cases h

theorem forEach_keeps {α : Type} {w : α → RecordWriter} {xs : List α}
    (h : ∀ x ∈ xs, Keeps Extends (w x)) : Keeps Extends (forEach w xs) :=
  keeps_forEach Extends.refl Extends.trans h

theorem string_keeps (s : Str) (key : Bool) : Keeps Extends (string limits start s key) :=
  keeps_seq (check_keeps _ _) <| keeps_seq (check_keeps _ _) <| keeps_seq charge_keeps <|
    keeps_seq (bytes_keeps _) (bytes_keeps _)

theorem checkKeys_keeps (previous : Option Bytes) (es : List KeyValueInput) :
    Keeps Extends (checkKeys previous es) := by
  induction es generalizing previous with
  | nil => exact keeps_pure Extends.refl
  | cons e es ih => exact keeps_seq (check_keeps _ _) <| keeps_seq (check_keeps _ _) (ih _)

theorem map_keeps {room : Nat} {value : AnyValueInput → RecordWriter} (hvalue : ∀ t, Keeps Extends (value t))
    (es : List KeyValueInput) : Keeps Extends (map limits start room value es) :=
  keeps_seq (check_keeps _ _) <| keeps_seq (check_keeps _ _) <| keeps_seq (check_keeps _ _) <|
    keeps_seq charge_keeps <| keeps_seq (checkKeys_keeps _ _) <| keeps_seq (bytes_keeps _) <|
    keeps_seq (bytes_keeps _) <| forEach_keeps fun e _ => keeps_seq (string_keeps _ _) (hvalue e.2)

theorem value_keeps (room : Nat) (t : AnyValueInput) : Keeps Extends (value limits start room t) := by
  induction room generalizing t with
  | zero =>
    constructor
    · intro w w' u h
      cases h
    · intro w w' e h
      cases h
      exact Extends.refl w
  | succ room ih =>
    apply keeps_seq charge_keeps
    cases t with
    | null => exact bytes_keeps _
    | string s => exact keeps_seq (bytes_keeps _) (string_keeps _ _)
    | bool | int64 | double => exact keeps_seq (bytes_keeps _) (bytes_keeps _)
    | bytes b =>
      exact keeps_seq (check_keeps _ _) <| keeps_seq (check_keeps _ _) <| keeps_seq charge_keeps <|
        keeps_seq (bytes_keeps _) <| keeps_seq (bytes_keeps _) (bytes_keeps _)
    | array vs =>
      exact keeps_seq (check_keeps _ _) <| keeps_seq (check_keeps _ _) <| keeps_seq (check_keeps _ _) <|
        keeps_seq (bytes_keeps _) <| keeps_seq (bytes_keeps _) <| forEach_keeps fun v _ => ih v
    | map es => exact map_keeps ih es

theorem topMap_keeps (es : List KeyValueInput) : Keeps Extends (topMap limits start es) :=
  keeps_seq charge_keeps (map_keeps (value_keeps _) es)

theorem scope_keeps : Keeps Extends (scope limits start s) := by
  cases s with
  | none => exact bytes_keeps _
  | some s =>
    exact keeps_seq (bytes_keeps _) <| keeps_seq (string_keeps _ _) <| keeps_seq (string_keeps _ _) <|
      keeps_seq (bytes_keeps _) (topMap_keeps _)

theorem idOf_keeps {width : Nat} (id : Option (Fixed width)) : Keeps Extends (idOf limits start id) := by
  cases id with
  | none => exact bytes_keeps _
  | some id => exact keeps_seq (bytes_keeps _) (bytes_keeps _)

theorem fields_keeps : Keeps Extends (fields limits start r) :=
  keeps_seq (bytes_keeps _) <| keeps_seq (string_keeps _ _) <| keeps_seq (bytes_keeps _) <|
    keeps_seq (topMap_keeps _) <| keeps_seq (scope_keeps _) <| keeps_seq (string_keeps _ _) <|
    keeps_seq (bytes_keeps _) <| keeps_seq (bytes_keeps _) <| keeps_seq (bytes_keeps _) <|
    keeps_seq (string_keeps _ _) <| keeps_seq (string_keeps _ _) <| keeps_seq (value_keeps _ _) <|
    keeps_seq (bytes_keeps _) <| keeps_seq (topMap_keeps _) <| keeps_seq (bytes_keeps _) <|
    keeps_seq (idOf_keeps _) (idOf_keeps _)

end RecordWriter

/-! ### Batches -/

structure LogRecordInput.Encodes (limits : DecodeLimits) (r : LogRecordInput) : Prop where
  timestamp : r.timeUnixNano ≠ 0 ∨ r.observedTimeUnixNano ≠ 0
  fits : r.tree.Fits limits logsRawVersionV1
  cost : r.tree.cost.Within limits
  recordBytes : r.tree.wire.length ≤ limits.maxRecordBytes

/-- Bytes appended after `start`. -/
def appending (limits : DecodeLimits) (start : Nat) : Effects Bytes Bytes where
  one := []
  mul a b := a ++ b
  Good out := start ≤ out.length ∧ out.length - start ≤ limits.maxPayloadBytes
  Moves out b out' := out' = out ++ b ∧ start ≤ out'.length ∧
    out'.length - start ≤ limits.maxPayloadBytes
  moves_one {out out'} h := by
    simp only [append_nil]
    constructor
    · rintro ⟨rfl, -⟩
      rfl
    · rintro rfl
      exact ⟨rfl, h⟩
  moves_mul {out out' a b} h := by
    constructor
    · rintro ⟨rfl, hstart, hlen⟩
      refine ⟨out ++ a, ⟨rfl, ?_, ?_⟩, by rw [append_assoc], hstart, hlen⟩
      · simp only [length_append]
        omega
      · simp only [length_append] at hlen ⊢
        omega
    · rintro ⟨t, ⟨rfl, -⟩, hout, hgood⟩
      exact ⟨by rw [hout, append_assoc], hgood⟩
  good _ h := h.2

section Batches

open Writer

variable {limits : DecodeLimits} {start : Nat}

theorem appending_product (xs : List Bytes) : (appending limits start).product xs = xs.flatten := by
  induction xs with
  | nil => rfl
  | cons x xs ih =>
    rw [Effects.product_cons, ih]
    rfl

variable (r : LogRecordInput) (b : Bytes)

theorem appendPayload_writes : Writes (appending limits start) (appendPayload limits start b) True b := by
  refine ⟨fun {out out' u} hout => ?_⟩
  obtain ⟨_, _⟩ := hout
  simp only [appendPayload, appending, true_and]
  split
  · rename_i hover
    simp only [reduceCtorEq, false_iff]
    rintro ⟨rfl, -, h⟩
    simp only [length_append] at h
    omega
  · rename_i hfits
    simp only [Except.ok.injEq, Prod.mk.injEq, true_and]
    constructor
    · rintro rfl
      refine ⟨rfl, ?_, ?_⟩
      · simp only [length_append]
        omega
      · simp only [length_append]
        omega
    · rintro ⟨rfl, -⟩
      rfl

theorem encodeRecord_ok {r : LogRecordInput} {out out' : Bytes} {u : Unit} :
    encodeRecord limits r out = .ok (u, out') ↔ r.Encodes limits ∧ out' = out ++ r.tree.wire := by
  have hgood : (writing limits out.length).Good ⟨out, 0⟩ :=
    ⟨Nat.le_refl _, by simp, spending_start limits []⟩
  have hrun (htrace : Nonzero r.traceId) (hspan : Nonzero r.spanId)
      (horphan : r.spanId = none ∨ r.traceId ≠ none) (w : RecordOut) :
      RecordWriter.fields limits out.length r ⟨out, 0⟩ = .ok ((), w) ↔
        r.tree.Fits limits logsRawVersionV1 ∧ w = ⟨out ++ r.tree.wire, r.tree.cost⟩ ∧
          r.tree.wire.length ≤ limits.maxRecordBytes ∧ r.tree.cost.Within limits := by
    rw [(RecordWriter.fields_writes r htrace hspan horphan).ok hgood]
    obtain ⟨out', budget'⟩ := w
    simp only [writing, zero_add, RecordOut.mk.injEq]
    constructor
    · rintro ⟨hfits, rfl, rfl, -, hlen, hwithin⟩
      simp only [length_append, Nat.add_sub_cancel_left] at hlen
      exact ⟨hfits, ⟨rfl, rfl⟩, hlen, hwithin⟩
    · rintro ⟨hfits, ⟨rfl, rfl⟩, hlen, hwithin⟩
      exact ⟨hfits, rfl, rfl, by simp, by simpa using hlen, hwithin⟩
  simp only [encodeRecord, Reader.bind_ok, check_ok]
  constructor
  · rintro ⟨_, _, ⟨htime, rfl⟩, _, _, ⟨htrace, rfl⟩, _, _, ⟨hspan, rfl⟩, _, _, ⟨horphan, rfl⟩, h⟩
    unfold writeFields at h
    split at h
    · rename_i w hw
      cases h
      obtain ⟨hfits, rfl, hlen, hwithin⟩ := (hrun htrace hspan horphan.symm w).mp hw
      exact ⟨⟨htime, hfits, hwithin, hlen⟩, rfl⟩
    · cases h
  · rintro ⟨hr, rfl⟩
    refine ⟨(), out, ⟨hr.timestamp, rfl⟩, (), out, ⟨hr.fits.traceId, rfl⟩, (), out,
      ⟨hr.fits.spanId, rfl⟩, (), out, ⟨hr.fits.orphan.symm, rfl⟩, ?_⟩
    have hw := (hrun hr.fits.traceId hr.fits.spanId hr.fits.orphan _).mpr
      ⟨hr.fits, rfl, hr.recordBytes, hr.cost⟩
    rw [writeFields, hw]

theorem patch_append (out placeholder b w : Bytes) (h : placeholder.length = b.length) :
    patch out.length b (out ++ (placeholder ++ w)) = out ++ (b ++ w) := by
  simp [patch, ← h]

theorem closeRecord_eq (out w : Bytes) :
    closeRecord limits start out.length (out ++ ([0, 0, 0, 0] ++ w)) =
      if 2 ^ 32 ≤ w.length then .error (.lengthOverflow, out ++ ([0, 0, 0, 0] ++ w))
      else if limits.maxPayloadBytes < (out ++ withLength w).length - start then
        .error (.payloadLimit, out ++ withLength w)
      else .ok ((), out ++ withLength w) := by
  have hlen : (out ++ ([0, 0, 0, 0] ++ w)).length - (out.length + 4) = w.length := by
    simp only [length_append, length_cons, length_nil]
    omega
  have hpatch := patch_append out [0, 0, 0, 0] (toBe 4 w.length) w (by simp)
  simp only [closeRecord, hlen, hpatch, withLength]
  rfl

theorem encodeDelimited_writes : Writes (appending limits start) (encodeDelimited limits start r)
    (r.Encodes limits ∧ r.tree.wire.length < 256 ^ 4) (withLength r.tree.wire) := by
  refine ⟨fun {out out' u} hout => ?_⟩
  simp only [encodeDelimited, Reader.bind_ok, (appendPayload_writes _).ok hout, encodeRecord_ok, true_and]
  obtain ⟨_, _⟩ := hout
  constructor
  · rintro ⟨_, _, ⟨rfl, -, -⟩, _, _, ⟨hr, rfl⟩, h⟩
    rw [append_assoc, closeRecord_eq] at h
    split at h
    · cases h
    split at h
    · cases h
    rename_i hlong hfits
    cases h
    refine ⟨⟨hr, by omega⟩, rfl, ?_, by omega⟩
    simp only [length_append]
    omega
  · rintro ⟨⟨hr, hlong⟩, rfl, -, hfits⟩
    have hplace : (appending limits start).Moves out [0, 0, 0, 0] (out ++ [0, 0, 0, 0]) := by
      refine ⟨rfl, ?_, ?_⟩
      · simp only [length_append]
        omega
      · simp only [withLength, length_append, toBe_length, length_cons, length_nil] at hfits ⊢
        omega
    refine ⟨(), _, hplace, (), _, ⟨hr, rfl⟩, ?_⟩
    rw [append_assoc, closeRecord_eq, if_neg (by omega), if_neg (by omega)]

theorem encodeBatch_writes (records : List LogRecordInput) : Writes (appending limits start)
    (encodeBatch limits start records) (BatchAccepted limits logsRawVersionV1 (records.map LogRecordInput.tree) ∧ ∀ r
    ∈ records, r.timeUnixNano ≠ 0 ∨ r.observedTimeUnixNano ≠ 0) (batchV2Wire logsRawVersionV1
    (records.map LogRecordInput.tree)) := by
  have hwrite : Writes (appending limits start) (encodeBatch limits start records) _ _ :=
    .check fun _ => .check fun _ => (appendPayload_writes _).seq fun _ =>
      (appendPayload_writes _).seq fun _ => (appendPayload_writes _).seq fun _ =>
        .forEach fun r _ => encodeDelimited_writes r
  refine hwrite.congr ?_ fun _ => ?_
  · constructor
    · rintro ⟨hcnt, hmax, -, -, -, hrecs⟩
      refine ⟨⟨.inl rfl, by simpa using hcnt, by simpa using hmax, ?_⟩, fun r hr => (hrecs r hr).1.timestamp⟩
      refine forall_mem_map.mpr fun r hr => ?_
      obtain ⟨hr, hlen⟩ := hrecs r hr
      exact ⟨hr.fits, hr.cost, hlen, hr.recordBytes⟩
    · rintro ⟨hbatch, htime⟩
      have hrecs := forall_mem_map.mp hbatch.records
      refine ⟨by simpa using hbatch.count, by simpa using hbatch.maxRecords, trivial, trivial, trivial, ?_⟩
      intro r hr
      have h := hrecs r hr
      exact ⟨⟨htime r hr, h.fits, h.cost, h.recordBytes⟩, h.length⟩
  · rw [appending_product]
    simp [appending, batchV2Wire, envelopeWire, flatMap_def, Function.comp_def]

theorem appendPayload_keeps : Keeps (· <+: ·) (appendPayload limits start b) := by
  unfold appendPayload
  constructor
  · intro out out' u h
    split at h
    · cases h
    · cases h
      exact prefix_append _ _
  · intro out out' e h
    split at h
    · cases h
      exact prefix_rfl
    · cases h

theorem encodeRecord_keeps : Keeps (· <+: ·) (encodeRecord limits r) := by
  have hfields : Keeps (· <+: ·) (writeFields limits r) := by
    unfold writeFields
    constructor
    · intro out out' u h
      split at h
      · rename_i w hw
        cases h
        exact (RecordWriter.fields_keeps r).ok hw
      · cases h
    · intro out out' e h
      split at h
      · cases h
      · rename_i e w hw
        cases h
        exact (RecordWriter.fields_keeps r).error hw
  have hcheck (p : Prop) [Decidable p] (e : EncodeError) :
      Keeps (· <+: ·) (check p e : BatchWriter) :=
    keeps_check (fun _ => prefix_rfl) p e
  exact (hcheck _ _).seq List.IsPrefix.trans <| (hcheck _ _).seq List.IsPrefix.trans <|
    (hcheck _ _).seq List.IsPrefix.trans <| (hcheck _ _).seq List.IsPrefix.trans hfields

theorem encodeDelimited_keeps : Keeps (· <+: ·) (encodeDelimited limits start r) := by
  have hplace {out out₁ : Bytes} {u : Unit}
      (h : appendPayload limits start [0, 0, 0, 0] out = .ok (u, out₁)) : out₁ = out ++ [0, 0, 0, 0] := by
    unfold appendPayload at h
    split at h
    · cases h
    · cases h
      rfl
  constructor
  · intro out out' u h
    simp only [encodeDelimited, Reader.bind_ok, encodeRecord_ok] at h
    obtain ⟨_, _, h₁, _, _, ⟨-, rfl⟩, h⟩ := h
    rw [hplace h₁, append_assoc, closeRecord_eq] at h
    split at h
    · cases h
    split at h
    · cases h
    · cases h
      exact prefix_append _ _
  · intro out out' e h
    simp only [encodeDelimited, Reader.bind_error] at h
    obtain h | ⟨_, _, h₁, h | ⟨_, _, h₂, h⟩⟩ := h
    · exact (appendPayload_keeps _).error h
    · exact ((appendPayload_keeps _).ok h₁).trans ((encodeRecord_keeps r).error h)
    · obtain ⟨-, rfl⟩ := encodeRecord_ok.mp h₂
      rw [hplace h₁, append_assoc, closeRecord_eq] at h
      split at h
      · cases h
        exact prefix_append _ _
      split at h
      · cases h
        exact prefix_append _ _
      · cases h

theorem encodeBatch_keeps (records : List LogRecordInput) : Keeps (· <+: ·) (encodeBatch limits start records) := by
  have hrefl : ∀ out : Bytes, out <+: out := fun _ => prefix_rfl
  exact (keeps_check hrefl _ _).seq List.IsPrefix.trans <|
    (keeps_check hrefl _ _).seq List.IsPrefix.trans <|
    (appendPayload_keeps _).seq List.IsPrefix.trans <|
    (appendPayload_keeps _).seq List.IsPrefix.trans <|
    (appendPayload_keeps _).seq List.IsPrefix.trans <|
    keeps_forEach hrefl List.IsPrefix.trans fun r _ => encodeDelimited_keeps r

variable {output output' : Bytes} {records : List LogRecordInput}

theorem encodeLogsBatchV2Into_ok
    (h : encodeLogsBatchV2Into records limits output = (.ok (), output')) : BatchAccepted limits logsRawVersionV1
    (records.map LogRecordInput.tree) ∧ output' = output ++ batchV2Wire logsRawVersionV1
    (records.map LogRecordInput.tree) ∧ (batchV2Wire logsRawVersionV1 (records.map LogRecordInput.tree)).length ≤
    limits.maxPayloadBytes := by
  unfold encodeLogsBatchV2Into at h
  split at h
  · rename_i out hrun
    cases h
    have hgood : (appending limits output.length).Good output := ⟨Nat.le_refl _, by simp⟩
    obtain ⟨⟨hbatch, -⟩, rfl, -, hlen⟩ := ((encodeBatch_writes records).ok hgood).mp hrun
    exact ⟨hbatch, rfl, by simpa using hlen⟩
  · cases h

theorem encodeLogsBatchV2Into_error {e : EncodeError}
    (h : encodeLogsBatchV2Into records limits output = (.error e, output')) : output' = output := by
  unfold encodeLogsBatchV2Into at h
  split at h
  · cases h
  · rename_i e' out hrun
    cases h
    exact (prefix_iff_eq_take.mp ((encodeBatch_keeps records).error hrun)).symm

end Batches

/-! ## What the decoder delivers -/

def DeliversScope : Option ScopeInput → Option Scope → Prop
  | none, none => True
  | some i, some s =>
    s.name = i.name ∧ s.version = i.version ∧
      s.droppedAttributesCount = i.droppedAttributesCount.toNat ∧
      viewTree s.attributes = some (AnyValueInput.map i.attributes).canonical
  | _, _ => False

/-- Values are compared as trees, with the input's doubles made canonical. -/
structure Delivers (i : LogRecordInput) (r : CanonicalLogRecord) : Prop where
  rawVersion : r.rawVersion = logsRawVersionV1
  resourceSchemaUrl : r.resourceSchemaUrl = i.resourceSchemaUrl
  resourceDropped : r.resourceDroppedAttributesCount = i.resourceDroppedAttributesCount.toNat
  resourceAttributes :
    viewTree r.resourceAttributes = some (AnyValueInput.map i.resourceAttributes).canonical
  scope : DeliversScope i.scope r.scope
  scopeSchemaUrl : r.scopeSchemaUrl = i.scopeSchemaUrl
  time : r.timeUnixNano = i.timeUnixNano.toNat
  observed : r.observedTimeUnixNano = i.observedTimeUnixNano.toNat
  received : r.receivedTimeUnixNano = none
  severity : r.severityNumber = i.severity.toNat
  severityText : r.severityText = i.severityText
  eventName : r.eventName = i.eventName
  body : viewTree r.body = some i.body.canonical
  dropped : r.droppedAttributesCount = i.droppedAttributesCount.toNat
  attributes : viewTree r.attributes = some (AnyValueInput.map i.attributes).canonical
  traceFlags : r.traceFlags = i.traceFlags.toNat
  traceId : r.traceId = i.traceId.map Subtype.val
  spanId : r.spanId = i.spanId.map Subtype.val

theorem MapFits.viewTree_canonical {limits : DecodeLimits} {es : List KeyValueInput}
    (h : MapFits limits (canonicalEntries es)) :
    viewTree (mapWire (canonicalEntries es)) = some (AnyValueInput.map es).canonical := by
  rw [canonical]
  exact AnyValueInput.Fits.viewTree h

theorem LogRecordInput.tree_delivers {limits : DecodeLimits} {i : LogRecordInput} {encoded : Bytes}
    (h : i.tree.Fits limits logsRawVersionV1) : Delivers i (i.tree.view logsRawVersionV1 encoded) := by
  have hsev : i.severity.toUInt32.toInt32.toInt = i.severity.toNat := by
    have hlt := i.severity.toNat_lt
    rw [← RecordReader.toSigned_int32, UInt32.toUInt32_toInt32, UInt8.toNat_toUInt32, toSigned, if_pos (by omega)]
  have hscope : DeliversScope i.scope ((i.scope.map ScopeInput.canonical).map ScopeInput.view) := by
    have hfits := h.scope
    cases hi : i.scope with
    | none => trivial
    | some s =>
      simp only [tree, hi, Option.map_some, Option.mem_some_iff, forall_eq'] at hfits
      exact ⟨rfl, rfl, rfl, hfits.attributes.viewTree_canonical⟩
  exact ⟨rfl, rfl, rfl, h.resourceAttributes.viewTree_canonical, hscope, rfl, rfl, rfl, rfl, hsev,
    rfl, rfl, h.body.viewTree, rfl, h.attributes.viewTree_canonical, by simp [RecordTree.view, tree], rfl, rfl⟩

/-- **Round trip.** The decoder delivers the records that the encoder took, in order. When the encoder fails,
the output is as it was. -/
theorem encode_decode_roundtrip (records : List LogRecordInput) (limits : DecodeLimits) (output : Bytes) :
    (∀ output', encodeLogsBatchV2Into records limits output = (.ok (), output') → ∃ appended delivered, output' =
    output ++ appended ∧ decodeLogsBatchV2Into appended limits collecting [] = .ok delivered ∧ List.Forall₂ Delivers
    records delivered) ∧ ∀ e output', encodeLogsBatchV2Into records limits output = (.error e, output') → output' =
    output := by
  refine ⟨fun output' h => ?_, fun e output' h => encodeLogsBatchV2Into_error h⟩
  obtain ⟨hbatch, hout, hlen⟩ := encodeLogsBatchV2Into_ok h
  have haccept := validateEnvelope_iff.mpr ⟨hlen, _, hbatch, rfl, rfl⟩
  refine ⟨_, _, hout, decode_collecting.mpr ⟨_, haccept⟩, ?_⟩
  rw [map_map, forall₂_map_right_iff, forall₂_same]
  intro i hi
  exact LogRecordInput.tree_delivers (hbatch.records i.tree (mem_map_of_mem hi)).fits

def nestedRecord : LogRecordInput where
  resourceSchemaUrl := ⟨[], validUtf8_nil⟩
  resourceDroppedAttributesCount := 1
  resourceAttributes := [(⟨ascii "host", validUtf8_host⟩, .string ⟨ascii "a", by decide +kernel⟩)]
  scope := none
  scopeSchemaUrl := ⟨[], validUtf8_nil⟩
  timeUnixNano := 5
  observedTimeUnixNano := 0
  severity := 9
  severityText := ⟨ascii "INFO", validUtf8_info⟩
  eventName := ⟨[], validUtf8_nil⟩
  body := .array [.double 0x8000000000000000, .double 0xfff0000000000001, .map [], .bytes [0xff]]
  droppedAttributesCount := 0
  attributes := []
  traceFlags := 1
  traceId := none
  spanId := none

theorem encode_decode_roundtrip_nested : ∃ appended delivered, encodeLogsBatchV2Into [nestedRecord] .default [7] =
    (.ok (), [7] ++ appended) ∧ decodeLogsBatchV2Into appended .default collecting [] = .ok delivered ∧ List.Forall₂
    Delivers [nestedRecord] delivered := by
  have hrun : encodeLogsBatchV2Into [nestedRecord] .default [7] =
      (.ok (), (encodeLogsBatchV2Into [nestedRecord] .default [7]).2) := by decide +kernel
  obtain ⟨appended, delivered, hout, hrest⟩ :=
    (encode_decode_roundtrip [nestedRecord] .default [7]).1 _ hrun
  exact ⟨appended, delivered, by rw [hrun, hout], hrest⟩

end Scry.Proto
