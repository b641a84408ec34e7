import Mathlib.Data.List.Forall2
import Scry.Proto.Stamp

/-! # Redaction of trees

A record is written again as its redacted tree, and comes out as it was exactly when nothing was replaced.
-/

open Scry.Lib

namespace Scry.Proto

open List AnyValueInput

/-! ## Redacted trees -/

def marker : Str := ⟨redacted, by decide +kernel⟩

namespace AnyValueInput

/-- The tree with every value under a sensitive key replaced by the marker. -/
def redact : AnyValueInput → AnyValueInput
  | null => null
  | string s => string s
  | bool b => bool b
  | int64 n => int64 n
  | double bits => double bits
  | bytes b => bytes b
  | array vs => array (vs.map redact)
  | map es => map (es.map fun e => (e.1, if isSensitiveKey e.1 then string marker else redact e.2))
termination_by t => sizeOf t
decreasing_by
  · exact sizeOf_item ‹_›
  · exact sizeOf_entry ‹_›

def isMarker : AnyValueInput → Bool
  | string s => s.1 == redacted
  | _ => false

def dirty : AnyValueInput → Bool
  | null | string _ | bool _ | int64 _ | double _ | bytes _ => false
  | array vs => (vs.map dirty).any id
  | map es => (es.map fun e => if isSensitiveKey e.1 then !e.2.isMarker else dirty e.2).any id
termination_by t => sizeOf t
decreasing_by
  · exact sizeOf_item ‹_›
  · exact sizeOf_entry ‹_›

end AnyValueInput

def redactKeyValue (e : KeyValueInput) : KeyValueInput :=
  (e.1, if isSensitiveKey e.1 then .string marker else e.2.redact)

def redactEntries (es : List KeyValueInput) : List KeyValueInput := es.map redactKeyValue

def keyValueDirty (e : KeyValueInput) : Bool :=
  if isSensitiveKey e.1 then !e.2.isMarker else e.2.dirty

namespace AnyValueInput

variable {limits : DecodeLimits} {room : Nat}

variable (es : List KeyValueInput)

theorem redact_map : (map es).redact = map (redactEntries es) := by
  rw [redact]
  rfl

theorem dirty_map : (map es).dirty = es.any keyValueDirty := by
  rw [dirty, any_map]
  rfl

variable {t : AnyValueInput}

theorem Fits.decodeValue_isMarker (h : t.Fits limits room) :
    ∃ a, decodeValue t.wire = some a ∧ (a != .string redacted) = !t.isMarker := by
  cases room with
  | zero => exact h.elim
  | succ room =>
    cases t with
    | null | bool =>
      rw [wire]
      exact ⟨_, rfl, rfl⟩
    | int64 n =>
      rw [wire]
      exact ⟨_, decodeValue_int64 (toBe_length 8 _), rfl⟩
    | double bits =>
      rw [wire]
      exact ⟨_, decodeValue_double (toBe_length 8 _), rfl⟩
    | string s =>
      rw [wire]
      refine ⟨_, decodeValue_string ⟨h.1, s.2⟩, ?_⟩
      simp [isMarker, bne]
    | bytes b =>
      rw [wire]
      exact ⟨_, decodeValue_bytes h.1, rfl⟩
    | array vs =>
      rw [wire]
      exact ⟨_, decodeValue_array h.2.1 _, rfl⟩
    | map es =>
      rw [wire]
      exact ⟨_, decodeValue_map h.2.1 _, rfl⟩

theorem Fits.redactEntry {e : KeyValueInput} (h : e.2.Fits limits room) {fuel : Nat}
    (hvalue : redactValueAux fuel e.2.wire = some (e.2.redact.wire, e.2.dirty)) : redactEntry (redactValueAux fuel)
    (e.1.1, e.2.wire) = some (withLength e.1 ++ (redactKeyValue e).2.wire, keyValueDirty e) := by
  obtain ⟨a, ha, hmarker⟩ := h.decodeValue_isMarker
  unfold Proto.redactEntry redactKeyValue keyValueDirty
  by_cases hs : isSensitiveKey e.1
  · simp only [hs, if_true, ha, wire, Option.bind_eq_bind, Option.bind_some, hmarker]
    rfl
  · simp [hs, hvalue]

theorem Fits.redactValueAux (h : t.Fits limits room) {fuel : Nat} (hfuel : t.wire.length ≤ fuel) :
    redactValueAux fuel t.wire = some (t.redact.wire, t.dirty) := by
  refine h.wire_induction
    (motive := fun fuel t => Proto.redactValueAux fuel t.wire = some (t.redact.wire, t.dirty))
    (fun fuel room t h ih => ?_) hfuel
  rw [Proto.redactValueAux, h.decodeValue_wire]
  cases t with
  | null | bool | int64 | double | string | bytes =>
    rw [redact, dirty]
    rfl
  | array vs =>
    rw [items] at ih
    simp only [view, Option.bind_eq_bind, Option.bind_some, h.arrayItems_wire]
    rw [mapM_map_of_forall ih, redact, dirty, wire]
    simp [flatMap_map, Function.comp_def]
  | map es =>
    have hitems : ∀ e ∈ es, Proto.redactEntry (Proto.redactValueAux fuel) (e.1.1, e.2.wire) =
        some (withLength e.1 ++ (redactKeyValue e).2.wire, keyValueDirty e) := by
      intro e he
      have hitem : e.2 ∈ (map es).items := mem_map_of_mem he
      exact (h.item e.2 hitem).redactEntry (ih e.2 hitem)
    simp only [view, Option.bind_eq_bind, Option.bind_some, h.mapItems_wire]
    rw [encodedEntries, mapM_map_of_forall hitems, redact_map, dirty_map, wire]
    simp [flatMap_map, Function.comp_def, redactEntries, redactKeyValue]

theorem Fits.redactValue (h : t.Fits limits room) : redactValue t.wire = some (t.redact.wire, t.dirty) :=
  h.redactValueAux (Nat.le_refl _)

/-! ### Redacting twice, and redacting nothing -/

theorem eq_marker (h : t.isMarker = true) : t = string marker := by
  cases t with
  | string s =>
    have hs : s.1 = redacted := by simpa [isMarker] using h
    rw [show s = marker from Subtype.ext hs]
  | _ => cases h

theorem redact_of_clean (h : t.dirty = false) : t.redact = t := by
  induction t with
  | null | string | bool | int64 | double | bytes => rw [redact]
  | array vs ih =>
    rw [dirty, any_map] at h
    rw [redact]
    congr 1
    have hvs : ∀ v ∈ vs, v.redact = v := by
      intro v hv
      apply ih v hv
      simpa using any_eq_false.mp h v hv
    simpa using map_congr_left hvs
  | map es ih =>
    rw [dirty_map] at h
    rw [redact_map]
    congr 1
    have hes : ∀ e ∈ es, redactKeyValue e = e := by
      intro e he
      have hclean : keyValueDirty e = false := by simpa using any_eq_false.mp h e he
      unfold keyValueDirty at hclean
      unfold redactKeyValue
      split at hclean
      · rename_i hs
        rw [if_pos hs, ← eq_marker (by simpa using hclean)]
      · rename_i hs
        rw [if_neg hs, ih e he hclean]
    simpa [redactEntries] using map_congr_left hes

theorem dirty_redact (t : AnyValueInput) : t.redact.dirty = false := by
  induction t with
  | null | string | bool | int64 | double | bytes => rw [redact, dirty]
  | array vs ih =>
    rw [redact, dirty]
    simpa using ih
  | map es ih =>
    rw [redact_map, dirty_map, redactEntries, any_map]
    simp only [any_eq_false, Function.comp_apply]
    intro e he
    unfold keyValueDirty redactKeyValue
    by_cases hs : isSensitiveKey e.1
    · simp [hs, isMarker, marker]
    · simp [hs, ih e he]

/-! ### Limits and cost -/

theorem keysFit_redactEntries {previous : Option Bytes} {es : List KeyValueInput} :
    KeysFit limits previous (redactEntries es) ↔ KeysFit limits previous es := by
  induction es generalizing previous with
  | nil => rfl
  | cons e es ih => exact and_congr_right fun _ => ih

theorem Fits.redact (hmarker : redacted.length ≤ limits.maxStringBytes) (h : t.Fits limits room) :
    t.redact.Fits limits room := by
  induction t generalizing room with
  | null | string | bool | int64 | double | bytes =>
    rw [AnyValueInput.redact]
    exact h
  | array vs ih =>
    rw [AnyValueInput.redact]
    cases room with
    | zero => exact h.elim
    | succ room =>
      obtain ⟨hroom, hlen, hmax, hvs⟩ := h
      exact ⟨hroom, by simpa using hlen, by simpa using hmax, forall_mem_map.mpr fun v hv => ih v hv (hvs v hv)⟩
  | map es ih =>
    rw [redact_map]
    cases room with
    | zero => exact h.elim
    | succ room =>
      obtain ⟨hroom, hlen, hmax, hkeys, hes⟩ := h
      refine ⟨hroom, by simpa [redactEntries] using hlen, by simpa [redactEntries] using hmax,
        keysFit_redactEntries.mpr hkeys, forall_mem_map.mpr fun e he => ?_⟩
      unfold redactKeyValue
      split
      · obtain ⟨room, rfl⟩ : ∃ n, room = n + 1 := ⟨room - 1, by omega⟩
        exact ⟨by decide +kernel, hmarker⟩
      · exact ih e he (hes e he)

end AnyValueInput

variable {es : List KeyValueInput}

theorem redactEntries_of_clean (h : es.any keyValueDirty = false) :
    redactEntries es = es := by
  rw [← dirty_map] at h
  have hmap := AnyValueInput.redact_of_clean h
  rw [redact_map] at hmap
  exact map.inj hmap

theorem dirty_redactEntries (es : List KeyValueInput) : (redactEntries es).any keyValueDirty = false := by
  rw [← dirty_map, ← redact_map]
  exact AnyValueInput.dirty_redact _

variable {limits : DecodeLimits}

theorem MapFits.redactValue (h : MapFits limits es) :
    redactValue (mapWire es) = some (mapWire (redactEntries es), es.any keyValueDirty) := by
  rw [mapWire, AnyValueInput.Fits.redactValue h, redact_map, dirty_map]
  rfl

/-! ## Redacted records -/

namespace ScopeInput

def redact (s : ScopeInput) : ScopeInput := { s with attributes := redactEntries s.attributes }

def dirty (s : ScopeInput) : Bool := s.attributes.any keyValueDirty

end ScopeInput

namespace RecordTree

def redact (r : RecordTree) : RecordTree :=
  { r with
    resourceAttributes := redactEntries r.resourceAttributes
    scope := r.scope.map ScopeInput.redact
    body := r.body.redact
    attributes := redactEntries r.attributes }

def dirty (r : RecordTree) : Bool :=
  r.resourceAttributes.any keyValueDirty || r.scope.any ScopeInput.dirty || r.body.dirty ||
    r.attributes.any keyValueDirty

theorem redact_of_clean {r : RecordTree} (h : r.dirty = false) : r.redact = r := by
  simp only [dirty, Bool.or_eq_false_iff] at h
  obtain ⟨⟨⟨hres, hscope⟩, hbody⟩, hattrs⟩ := h
  have hscope' : r.scope.map ScopeInput.redact = r.scope := by
    cases hs : r.scope with
    | none => rfl
    | some s =>
      rw [hs] at hscope
      simp [ScopeInput.redact, redactEntries_of_clean hscope]
  simp [redact, redactEntries_of_clean hres, hscope', AnyValueInput.redact_of_clean hbody,
    redactEntries_of_clean hattrs]

theorem dirty_redact (r : RecordTree) : r.redact.dirty = false := by
  have hscope : (r.scope.map ScopeInput.redact).any ScopeInput.dirty = false := by
    cases r.scope with
    | none => rfl
    | some s => exact dirty_redactEntries s.attributes
  simp only [redact, dirty, dirty_redactEntries, AnyValueInput.dirty_redact, hscope, Bool.or_false]

end RecordTree

@[simp] theorem RecordTree.view_encoded (r : RecordTree) (rawVersion : Nat) (encoded : Bytes) :
    (r.view rawVersion encoded).encoded = encoded :=
  rfl

def Mode.rewrite (mode : Mode) (r : RecordTree) : RecordTree :=
  match mode with
  | .stamp receivedNs => { r.redact with receivedTimeUnixNano := some receivedNs }
  | .preserve => r.redact

theorem redactScope_view {s : Option ScopeInput} (h : ∀ x ∈ s, x.Fits limits) : redactScope (s.map ScopeInput.view) =
    some ((s.map ScopeInput.redact).map ScopeInput.view, s.any ScopeInput.dirty) := by
  cases s with
  | none => rfl
  | some s =>
    simp only [Option.map_some, redactScope, ScopeInput.view, (h s rfl).attributes.redactValue]
    rfl

/-- **A record is written again as its redacted tree.** -/
theorem RecordTree.Fits.reencodeRecord {rawVersion : Nat} {r : RecordTree} (h : r.Fits limits rawVersion)
    (mode : Mode) (encoded : Bytes) : reencodeRecord mode (r.view rawVersion encoded) = some
    ((mode.rewrite r).wire, r.dirty || mode.isStamp) := by
  have hrecv : (mode.rewrite r).receivedTimeUnixNano.map UInt64.toNat =
      mode.received (r.receivedTimeUnixNano.map UInt64.toNat) := by
    cases mode <;> rfl
  simp only [Proto.reencodeRecord, RecordTree.view, h.resourceAttributes.redactValue, redactScope_view h.scope,
    h.body.redactValue, h.attributes.redactValue, Option.bind_eq_bind, Option.bind_some, ← hrecv]
  cases mode <;> rfl

/-! ## Limits of redacted records -/

namespace RecordBudget

/-- No more nodes and pairs. The bytes of strings may well be more. -/
structure Fewer (a b : RecordBudget) : Prop where
  nodes : a.nodes ≤ b.nodes
  keyValues : a.keyValues ≤ b.keyValues

theorem Fewer.refl (a : RecordBudget) : a.Fewer a := ⟨Nat.le_refl _, Nat.le_refl _⟩

theorem Fewer.add {a b c d : RecordBudget} (h : a.Fewer b) (h' : c.Fewer d) : (a + c).Fewer (b + d) :=
  ⟨Nat.add_le_add h.nodes h'.nodes, Nat.add_le_add h.keyValues h'.keyValues⟩

theorem Fewer.sum {α : Type} {f g : α → RecordBudget} {xs : List α}
    (h : ∀ x ∈ xs, (f x).Fewer (g x)) : (xs.map f).sum.Fewer (xs.map g).sum := by
  induction xs with
  | nil => exact .refl _
  | cons x xs ih =>
    simp only [mem_cons, forall_eq_or_imp] at h
    simp only [map_cons, sum_cons]
    exact h.1.add (ih h.2)

theorem sum_variableBytes_le {α : Type} {f : α → RecordBudget} {w : α → Bytes} {xs : List α}
    (h : ∀ x ∈ xs, (f x).variableBytes ≤ (w x).length) : (xs.map f).sum.variableBytes ≤ (xs.flatMap w).length := by
  induction xs with
  | nil => simp
  | cons x xs ih =>
    simp only [mem_cons, forall_eq_or_imp] at h
    have hrest := ih h.2
    simp only [map_cons, sum_cons, add_variableBytes, flatMap_cons, length_append]
    omega

end RecordBudget

namespace AnyValueInput

open RecordBudget

variable (t : AnyValueInput)

theorem cost_node : (⟨0, 1, 0⟩ : RecordBudget).Fewer t.cost := by
  rw [cost_eq]
  exact ⟨by simp, by simp⟩

theorem redact_cost : t.redact.cost.Fewer t.cost := by
  induction t with
  | null | string | bool | int64 | double | bytes =>
    rw [redact]
    exact .refl _
  | array vs ih =>
    rw [redact, cost, cost, map_map]
    exact (Fewer.refl _).add (.sum ih)
  | map es ih =>
    rw [redact_map, cost, cost, redactEntries, map_map, length_map]
    refine (Fewer.refl _).add ((Fewer.refl _).add (.sum fun e he => ?_))
    refine (Fewer.refl _).add ?_
    unfold redactKeyValue
    split
    · rw [cost]
      exact ⟨(cost_node e.2).nodes, Nat.zero_le _⟩
    · exact ih e he

theorem variableBytes_le : t.cost.variableBytes ≤ t.wire.length := by
  induction t with
  | null | bool | int64 | double =>
    rw [cost]
    exact Nat.zero_le _
  | string | bytes =>
    rw [cost, wire]
    simp [withLength]
    omega
  | array vs ih =>
    have hsum := sum_variableBytes_le ih
    rw [cost, wire]
    simp only [add_variableBytes, length_cons, length_append]
    omega
  | map es ih =>
    have hsum : (es.map entryCost).sum.variableBytes ≤
        (es.flatMap fun e => withLength e.1 ++ wire e.2).length := by
      refine sum_variableBytes_le fun e he => ?_
      have hvalue := ih e he
      simp only [entryCost, add_variableBytes, withLength, length_append, toBe_length]
      omega
    rw [cost_eq, wire]
    simp only [contentCost, add_variableBytes, length_cons, length_append, Nat.zero_add]
    exact Nat.le_succ_of_le (Nat.le_add_left_of_le hsum)

end AnyValueInput

theorem MapFits.redact {es : List KeyValueInput} (hmarker : redacted.length ≤ limits.maxStringBytes)
    (h : MapFits limits es) : MapFits limits (redactEntries es) := by
  have hmap := AnyValueInput.Fits.redact hmarker h
  rwa [redact_map] at hmap

theorem mapCost_redact (es : List KeyValueInput) : (mapCost (redactEntries es)).Fewer (mapCost es) := by
  have hmap := AnyValueInput.redact_cost (.map es)
  rwa [redact_map] at hmap

namespace RecordTree

theorem redact_cost (r : RecordTree) : r.redact.cost.Fewer r.cost := by
  have hscope : ((r.scope.map ScopeInput.redact).elim 0 ScopeInput.cost).Fewer
      (r.scope.elim 0 ScopeInput.cost) := by
    cases r.scope with
    | none => exact .refl _
    | some s => exact (RecordBudget.Fewer.refl _).add ((RecordBudget.Fewer.refl _).add (mapCost_redact _))
  have hrefl := RecordBudget.Fewer.refl
  exact (hrefl _).add ((mapCost_redact _).add (hscope.add ((hrefl _).add ((hrefl _).add ((hrefl _).add
    ((AnyValueInput.redact_cost _).add (mapCost_redact _)))))))

theorem variableBytes_le (r : RecordTree) : r.cost.variableBytes ≤ r.wire.length := by
  have hmap (es : List KeyValueInput) : (mapCost es).variableBytes ≤ (mapWire es).length :=
    AnyValueInput.variableBytes_le _
  have hscope : (r.scope.elim 0 ScopeInput.cost).variableBytes ≤
      (scopeWire (r.scope.map ScopeInput.view)).length := by
    cases r.scope with
    | none => simp
    | some s =>
      have hattrs := hmap s.attributes
      simp only [Option.elim_some, Option.map_some, ScopeInput.cost, ScopeInput.view, scopeWire, stringCost,
        RecordBudget.add_variableBytes, withLength, length_cons, length_append]
      omega
  have hres := hmap r.resourceAttributes
  have hbody := r.body.variableBytes_le
  have hattrs := hmap r.attributes
  simp only [cost, wire, recordWire, view, stringCost, RecordBudget.add_variableBytes, withLength, length_append]
  omega

theorem Fits.redact {limits : DecodeLimits} {rawVersion : Nat} {r : RecordTree}
    (hmarker : redacted.length ≤ limits.maxStringBytes) (h : r.Fits limits rawVersion) :
    r.redact.Fits limits rawVersion := by
  refine { h with
    resourceAttributes := h.resourceAttributes.redact hmarker
    scope := ?_
    body := h.body.redact hmarker
    attributes := h.attributes.redact hmarker }
  intro s hs
  obtain ⟨s, hmem, rfl⟩ := Option.map_eq_some_iff.mp hs
  have hfits := h.scope s hmem
  exact { hfits with attributes := hfits.attributes.redact hmarker }

end RecordTree

/-! ## Records that agree but for their values -/

variable (V : AnyValueInput → AnyValueInput → Prop)

def ViewsRelated (a b : Bytes) : Prop :=
  ∃ t t', viewTree a = some t ∧ viewTree b = some t' ∧ V t t'

def ScopesRelated : Option Scope → Option Scope → Prop
  | none, none => True
  | some s, some s' =>
    s.name = s'.name ∧ s.version = s'.version ∧
      s.droppedAttributesCount = s'.droppedAttributesCount ∧ ViewsRelated V s.attributes s'.attributes
  | _, _ => False

/-- Equal in every field but the receipt time, values up to `V`. -/
structure SameBut (V : AnyValueInput → AnyValueInput → Prop) (r r' : CanonicalLogRecord) : Prop where
  resourceSchemaUrl : r.resourceSchemaUrl = r'.resourceSchemaUrl
  resourceDropped : r.resourceDroppedAttributesCount = r'.resourceDroppedAttributesCount
  resourceAttributes : ViewsRelated V r.resourceAttributes r'.resourceAttributes
  scope : ScopesRelated V r.scope r'.scope
  scopeSchemaUrl : r.scopeSchemaUrl = r'.scopeSchemaUrl
  time : r.timeUnixNano = r'.timeUnixNano
  observed : r.observedTimeUnixNano = r'.observedTimeUnixNano
  severity : r.severityNumber = r'.severityNumber
  severityText : r.severityText = r'.severityText
  eventName : r.eventName = r'.eventName
  body : ViewsRelated V r.body r'.body
  dropped : r.droppedAttributesCount = r'.droppedAttributesCount
  attributes : ViewsRelated V r.attributes r'.attributes
  traceFlags : r.traceFlags = r'.traceFlags
  traceId : r.traceId = r'.traceId
  spanId : r.spanId = r'.spanId

/-- Exactly the values under sensitive keys are replaced by the marker. -/
def Redacts (t t' : AnyValueInput) : Prop := t' = t.redact

/-- A record over the trees `f` and `g` make of its values and its maps. -/
def RecordTree.mapValues (f : AnyValueInput → AnyValueInput)
    (g : List KeyValueInput → List KeyValueInput) (r : RecordTree) : RecordTree :=
  { r with
    resourceAttributes := g r.resourceAttributes
    scope := r.scope.map fun s => { s with attributes := g s.attributes }
    body := f r.body
    attributes := g r.attributes }

section SameBut

variable {limits limits' : DecodeLimits} {rawVersion rawVersion' : Nat} {r r' : RecordTree}
  {encoded encoded' : Bytes} {V : AnyValueInput → AnyValueInput → Prop}

theorem viewsRelated_wire {room room' : Nat} {t t' : AnyValueInput} (h : t.Fits limits room)
    (h' : t'.Fits limits' room') : ViewsRelated V t.wire t'.wire ↔ V t t' := by
  simp only [ViewsRelated, h.viewTree, h'.viewTree, Option.some.injEq, exists_and_left, exists_eq_left']

theorem MapFits.viewsRelated {es es' : List KeyValueInput} (h : MapFits limits es) (h' : MapFits limits' es') :
    ViewsRelated V (mapWire es) (mapWire es') ↔ V (.map es) (.map es') :=
  viewsRelated_wire h h'

theorem SameBut.mapValues_eq {f : AnyValueInput → AnyValueInput} {g : List KeyValueInput → List KeyValueInput}
    (hmap : ∀ es, f (.map es) = .map (g es)) (hV : ∀ t t', V t t' → f t = f t') (h : r.Fits limits rawVersion)
    (h' : r'.Fits limits' rawVersion') (hsame : SameBut V (r.view rawVersion encoded) (r'.view rawVersion' encoded'))
    (hrecv : r.receivedTimeUnixNano = r'.receivedTimeUnixNano) : r.mapValues f g = r'.mapValues f g := by
  have hents {es es' : List KeyValueInput} (hes : V (.map es) (.map es')) : g es = g es' := by
    have heq := hV _ _ hes
    rw [hmap, hmap] at heq
    exact map.inj heq
  have hres := hents ((h.resourceAttributes.viewsRelated h'.resourceAttributes).mp hsame.resourceAttributes)
  have hattributes := hents ((h.attributes.viewsRelated h'.attributes).mp hsame.attributes)
  have hbody := hV _ _ ((viewsRelated_wire h.body h'.body).mp hsame.body)
  have hscope : (r.scope.map fun s => { s with attributes := g s.attributes }) =
      r'.scope.map fun s => { s with attributes := g s.attributes } := by
    have hs := hsame.scope
    have hfits := h.scope
    have hfits' := h'.scope
    simp only [RecordTree.view] at hs
    cases hr : r.scope with
    | none =>
      cases hr' : r'.scope with
      | none => rfl
      | some s' =>
        rw [hr, hr'] at hs
        exact hs.elim
    | some s =>
      cases hr' : r'.scope with
      | none =>
        rw [hr, hr'] at hs
        exact hs.elim
      | some s' =>
        rw [hr, hr'] at hs
        obtain ⟨hname, hver, hdropped, hattrs⟩ := hs
        have hg := hents (((hfits s hr).attributes.viewsRelated (hfits' s' hr').attributes).mp hattrs)
        cases s
        cases s'
        simp only [Option.map_some, Option.some.injEq, ScopeInput.mk.injEq]
        exact ⟨Subtype.ext hname, Subtype.ext hver, UInt32.toNat_inj.mp hdropped, hg⟩
  have hids {n : Nat} {a b : Option (Fixed n)} (hab : a.map Subtype.val = b.map Subtype.val) : a = b :=
    Option.map_injective Subtype.val_injective hab
  simp only [RecordTree.mapValues, hres, hattributes, hbody, hscope, hrecv, Subtype.ext
    hsame.resourceSchemaUrl, UInt32.toNat_inj.mp hsame.resourceDropped, Subtype.ext hsame.scopeSchemaUrl,
    UInt64.toNat_inj.mp hsame.time, UInt64.toNat_inj.mp hsame.observed, Int32.toInt_inj.mp hsame.severity, Subtype.ext
    hsame.severityText, Subtype.ext hsame.eventName, UInt32.toNat_inj.mp hsame.dropped, UInt32.toNat_inj.mp
    hsame.traceFlags, hids hsame.traceId, hids hsame.spanId]

theorem RecordTree.Fits.sameBut_redact (h : r.Fits limits rawVersion) (h' : r.redact.Fits limits' rawVersion')
    {version : Nat} (received : Option UInt64) : SameBut Redacts (r.view rawVersion encoded)
    ({ r.redact with receivedTimeUnixNano := received }.view version encoded') := by
  have hmap {es : List KeyValueInput} (hes : MapFits limits es) (hes' : MapFits limits' (redactEntries es)) :
      ViewsRelated Redacts (mapWire es) (mapWire (redactEntries es)) :=
    (hes.viewsRelated hes').mpr (redact_map es).symm
  have hscope : ScopesRelated Redacts (r.scope.map ScopeInput.view)
      ((r.scope.map ScopeInput.redact).map ScopeInput.view) := by
    have hs := h.scope
    have hs' := h'.scope
    simp only [RecordTree.redact] at hs'
    cases hr : r.scope with
    | none => trivial
    | some s =>
      have hfits' := hs' s.redact (by rw [hr]; rfl)
      exact ⟨rfl, rfl, rfl, hmap (hs s hr).attributes hfits'.attributes⟩
  exact ⟨rfl, rfl, hmap h.resourceAttributes h'.resourceAttributes, hscope, rfl, rfl, rfl, rfl, rfl, rfl,
    (viewsRelated_wire h.body h'.body).mpr rfl, rfl, hmap h.attributes h'.attributes, rfl, rfl, rfl⟩

theorem RecordTree.Fits.clean_iff (h : r.Fits limits rawVersion) :
    r.dirty = false ↔ SameBut Redacts (r.view rawVersion encoded) (r.view rawVersion encoded) := by
  constructor
  · intro hclean
    have heq := redact_of_clean hclean
    have hfits : r.redact.Fits limits rawVersion := heq.symm ▸ h
    have hsame : SameBut Redacts (r.view rawVersion encoded)
        ({ r.redact with receivedTimeUnixNano := r.receivedTimeUnixNano }.view rawVersion encoded) :=
      h.sameBut_redact hfits _
    rwa [heq] at hsame
  · intro hsame
    have hmap {es : List KeyValueInput} (hes : Redacts (.map es) (.map es)) :
        es.any keyValueDirty = false := by
      rw [← dirty_map, hes]
      exact AnyValueInput.dirty_redact _
    have hscope : r.scope.any ScopeInput.dirty = false := by
      have hs := hsame.scope
      have hfits := h.scope
      simp only [RecordTree.view] at hs
      cases hr : r.scope with
      | none => rfl
      | some s =>
        rw [hr] at hs
        have hattrs := (hfits s hr).attributes
        exact hmap ((hattrs.viewsRelated hattrs).mp hs.2.2.2)
    have hbody : r.body.dirty = false := by
      have hb : r.body = r.body.redact := (viewsRelated_wire h.body h.body).mp hsame.body
      rw [hb]
      exact AnyValueInput.dirty_redact _
    simp only [dirty, hscope, hbody, Bool.or_false, Bool.or_eq_false_iff]
    exact ⟨hmap ((h.resourceAttributes.viewsRelated h.resourceAttributes).mp hsame.resourceAttributes),
      hmap ((h.attributes.viewsRelated h.attributes).mp hsame.attributes)⟩

end SameBut

end Scry.Proto
