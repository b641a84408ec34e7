import Scry.Errors.Occ1
import Scry.Proto.RedactTree

/-! # Canonical bytes round trip

The encoder writes the redacted tree of a value, each level behind its length, and the decoder finds the tree
again, whatever stands behind it.
-/

open Scry.Lib Scry.Proto

namespace Scry.Errors

open List

open AnyValueInput

open Cursor

/-! ## The form of a value -/

def payload : AnyValueInput → Bytes
  | .null => [0]
  | .string s => 1 :: withLength s
  | .bool b => [2, if b then 1 else 0]
  | .int64 n => 3 :: toBe 8 n.toUInt64.toNat
  | .double bits => 4 :: toBe 8 bits.toNat
  | .bytes b => 5 :: withLength b
  | .array vs => 6 :: (toBe 4 vs.length ++ vs.flatMap fun v => withLength (payload v))
  | .map es => 7 :: (toBe 4 es.length ++ es.flatMap fun e => withLength e.1 ++ withLength (payload e.2))
termination_by t => sizeOf t
decreasing_by
  · exact sizeOf_item ‹_›
  · exact sizeOf_entry ‹_›

variable (t : AnyValueInput)

def valueWire : Bytes := withLength (payload t)

def Sizable : Prop := (payload t).length < 256 ^ 4

theorem length_le_flatMap {α : Type} {f : α → Bytes} {a : α} {l : List α} (h : a ∈ l) :
    (f a).length ≤ (l.flatMap f).length := by
  rw [flatMap_def]
  exact (sublist_flatten_of_mem (mem_map_of_mem h)).length_le

theorem length_le_length_flatMap {α : Type} {f : α → Bytes} (hf : ∀ a, 0 < (f a).length) (l : List α) :
    l.length ≤ (l.flatMap f).length := by
  induction l with
  | nil => exact Nat.zero_le _
  | cons a l ih =>
    have hpos := hf a
    rw [flatMap_cons, length_append, length_cons]
    omega

def entryBytes (e : KeyValueInput) : Bytes := withLength e.1 ++ valueWire e.2

theorem payload_array (vs : List AnyValueInput) :
    payload (.array vs) = 6 :: (toBe 4 vs.length ++ vs.flatMap valueWire) := by
  rw [payload]
  rfl

theorem payload_map (es : List KeyValueInput) :
    payload (.map es) = 7 :: (toBe 4 es.length ++ es.flatMap entryBytes) := by
  rw [payload]
  rfl

theorem length_valueWire : (valueWire t).length = 4 + (payload t).length := by
  simp [valueWire, withLength]

variable {vs : List AnyValueInput} {es : List KeyValueInput} {v : AnyValueInput}

theorem length_valueWire_lt_array (h : v ∈ vs) :
    (valueWire v).length < (payload (.array vs)).length := by
  have hle : (valueWire v).length ≤ (vs.flatMap valueWire).length := length_le_flatMap h
  rw [payload_array]
  simp only [length_cons, length_append]
  omega

variable {e : KeyValueInput}

theorem length_entryBytes_lt_map (h : e ∈ es) :
    (entryBytes e).length < (payload (.map es)).length := by
  have hle : (entryBytes e).length ≤ (es.flatMap entryBytes).length := length_le_flatMap h
  rw [payload_map]
  simp only [length_cons, length_append]
  omega

theorem Sizable.item (h : Sizable (.array vs)) (hv : v ∈ vs) : Sizable v := by
  have hlt := length_valueWire_lt_array hv
  have hlen := length_valueWire v
  unfold Sizable at h ⊢
  omega

theorem Sizable.entry (h : Sizable (.map es)) (he : e ∈ es) :
    e.1.1.length < 256 ^ 4 ∧ Sizable e.2 := by
  have hlt := length_entryBytes_lt_map he
  have hlen := length_valueWire e.2
  unfold Sizable at h ⊢
  simp only [entryBytes, withLength, length_append, toBe_length] at hlt
  omega

theorem Sizable.length_array (h : Sizable (.array vs)) : vs.length < 256 ^ 4 := by
  have hle := length_le_length_flatMap (f := valueWire) (fun v => by rw [length_valueWire]; omega) vs
  rw [Sizable, payload_array] at h
  simp only [length_cons, length_append] at h
  omega

theorem Sizable.length_map (h : Sizable (.map es)) : es.length < 256 ^ 4 := by
  have hpos (e : KeyValueInput) : 0 < (entryBytes e).length := by
    rw [entryBytes, length_append, length_valueWire]
    omega
  have hle := length_le_length_flatMap hpos es
  rw [Sizable, payload_map] at h
  simp only [length_cons, length_append] at h
  omega

/-! ## What is written -/

section Encoder

open Writer

variable {limits : Limits}

def putting (limits : Limits) : Effects Bytes Bytes where
  one := []
  mul a b := a ++ b
  Good out := out.length ≤ limits.maxCanonicalBytes
  Moves out b out' := out' = out ++ b ∧ out'.length ≤ limits.maxCanonicalBytes
  moves_one {out out'} hout := by
    rw [append_nil]
    constructor
    · rintro ⟨rfl, -⟩
      rfl
    · rintro rfl
      exact ⟨rfl, hout⟩
  moves_mul {out out' a b} hout := by
    constructor
    · rintro ⟨rfl, hlen⟩
      refine ⟨out ++ a, ⟨rfl, ?_⟩, (append_assoc _ _ _).symm, hlen⟩
      simp only [length_append] at hlen ⊢
      omega
    · rintro ⟨_, ⟨rfl, -⟩, rfl, hlen⟩
      exact ⟨append_assoc _ _ _, hlen⟩
  good _ h := h.2

@[simp] theorem putting_mul (a b : Bytes) : (putting limits).mul a b = a ++ b := rfl

theorem putting_product {α : Type} (wire : α → Bytes) (l : List α) :
    (putting limits).product (l.map wire) = l.flatMap wire := by
  induction l with
  | nil => rfl
  | cons a l ih =>
    rw [map_cons, Effects.product_cons, ih]
    rfl

theorem put_writes (b : Bytes) : Writes (putting limits) (put limits b) True b := by
  refine ⟨fun {out out' u} hout => ?_⟩
  simp only [put, putting, true_and]
  split
  next hover =>
    simp only [reduceCtorEq, false_iff]
    rintro ⟨rfl, hlen⟩
    rw [length_append] at hlen
    omega
  next hfits =>
    simp only [Except.ok.injEq, Prod.mk.injEq, true_and]
    constructor
    · rintro rfl
      rw [length_append]
      exact ⟨rfl, by omega⟩
    · rintro ⟨rfl, -⟩
      rfl

theorem putBytes_writes (b : Bytes) :
    Writes (putting limits) (putBytes limits b) (b.length < 256 ^ 4) (withLength b) := by
  have hwrite : Writes (putting limits) (putBytes limits b) _ _ :=
    .check fun _ => (put_writes _).seq fun _ => put_writes b
  exact hwrite.congr (by simp) fun _ => rfl

theorem sized_writes {body : Put} {p : Prop} {b : Bytes} (h : Writes (putting limits) body p b) :
    Writes (putting limits) (sized limits body) (p ∧ b.length < 256 ^ 4) (withLength b) := by
  refine ⟨fun {out out' u} hout => ?_⟩
  have hopen {mid : Bytes} {u : Unit} : (putU32 limits 0 >>= fun _ => body) out = .ok (u, mid) ↔
      (True ∧ p) ∧ (putting limits).Moves out (toBe 4 0 ++ b) mid :=
    ((put_writes (toBe 4 0)).seq fun _ => h).ok hout
  have hpatch : patch out.length (toBe 4 b.length) (out ++ (toBe 4 0 ++ b)) = out ++ withLength b := by
    simp [patch, withLength, drop_append]
  have hlen : (out ++ (toBe 4 0 ++ b)).length - out.length - 4 = b.length := by
    simp
  have heq : sized limits body out = ((putU32 limits 0 >>= fun _ => body) >>= fun _ =>
      closeValue out.length) out := by
    simp only [sized, bind]
    cases putU32 limits 0 out <;> rfl
  rw [heq, Reader.bind_ok]
  constructor
  · rintro ⟨_, mid, hmid, hclose⟩
    obtain ⟨⟨-, hp⟩, rfl, hfits⟩ := hopen.mp hmid
    simp only [closeValue, hlen, hpatch] at hclose hfits
    split at hclose
    next hb =>
      cases hclose
      refine ⟨⟨hp, hb⟩, rfl, ?_⟩
      simpa [withLength] using hfits
    next => cases hclose
  · rintro ⟨⟨hp, hb⟩, rfl, hfits⟩
    refine ⟨(), _, hopen.mpr ⟨⟨trivial, hp⟩, rfl, ?_⟩, ?_⟩
    · simpa [withLength] using hfits
    · simp only [closeValue, hlen, hpatch]
      exact if_pos hb

@[simp] theorem demand_some_bind {α β : Type} (a : α) (k : α → Writer (Fault Error) Bytes β) :
    (demand (some a) >>= k) = k a := rfl

section Values

variable {decodeLimits : DecodeLimits} {room fuel : Nat} {t : AnyValueInput}

theorem putValueAux_succ_writes {p : Prop} (h : t.Fits decodeLimits (room + 1))
    (hbody : Writes (putting limits) (putBody limits (putValueAux limits fuel) t.view) p (payload t.redact))
    (hp : Sizable t.redact → p) :
    Writes (putting limits) (putValueAux limits (fuel + 1) t.wire) (Sizable t.redact)
      (valueWire t.redact) := by
  rw [putValueAux, h.decodeValue_wire, demand_some_bind]
  exact (sized_writes hbody).congr ⟨And.right, fun h => ⟨hp h, h⟩⟩ fun _ => rfl

theorem putRedactedValue_writes :
    Writes (putting limits) (putRedactedValue limits) True (valueWire (.string marker)) := by
  have hwrite : Writes (putting limits) (putRedactedValue limits) _ _ :=
    (put_writes _).seq fun _ => (put_writes _).seq fun _ => putBytes_writes _
  refine hwrite.congr ?_ fun _ => ?_
  · simp only [true_and, iff_true]
    decide +kernel
  · rw [valueWire, payload]
    rfl

theorem putEntry_writes {value : Bytes → Put} {e : KeyValueInput}
    (h : Writes (putting limits) (value e.2.wire) (Sizable e.2.redact) (valueWire e.2.redact)) :
    Writes (putting limits) (do
        putStr limits e.1.1
        if isSensitiveKey e.1 then putRedactedValue limits else value e.2.wire)
      (e.1.1.length < 256 ^ 4 ∧ Sizable (redactKeyValue e).2) (entryBytes (redactKeyValue e)) := by
  refine (putBytes_writes e.1.1).seq fun _ => ?_
  unfold redactKeyValue
  split
  · exact putRedactedValue_writes.congr (iff_of_true trivial (by unfold Sizable; rw [payload]; decide +kernel))
      fun _ => rfl
  · exact h

theorem container_writes {α : Type} {w : α → Put} {P : α → Prop} {wire : α → Bytes} {xs : List α}
    (tag : UInt8) (n : Nat) (h : ∀ x ∈ xs, Writes (putting limits) (w x) (P x) (wire x)) :
    Writes (putting limits) (do
        putU8 limits tag
        putU32 limits n
        forEach w xs)
      (∀ x ∈ xs, P x) (tag :: (toBe 4 n ++ xs.flatMap wire)) := by
  have htag : Writes (putting limits) (putU8 limits tag) True [tag] := put_writes _
  refine (htag.seq fun _ => (put_writes (toBe 4 n)).seq fun _ => .forEach h).congr (by simp) fun _ => ?_
  rw [putting_product]
  rfl

theorem putValueAux_writes (h : t.Fits decodeLimits room) (hfuel : t.wire.length ≤ fuel) :
    Writes (putting limits) (putValueAux limits fuel t.wire) (Sizable t.redact) (valueWire t.redact) := by
  refine h.wire_induction
    (motive := fun fuel t =>
      Writes (putting limits) (putValueAux limits fuel t.wire) (Sizable t.redact) (valueWire t.redact))
    (fun fuel room t h ih => ?_) hfuel
  cases t with
  | null =>
    refine putValueAux_succ_writes h (p := True) ?_ fun _ => trivial
    rw [redact, payload]
    exact put_writes _
  | bool b =>
    refine putValueAux_succ_writes h (p := True ∧ True) ?_ fun _ => ⟨trivial, trivial⟩
    rw [redact, payload]
    exact (put_writes _).seq fun _ => put_writes _
  | int64 n =>
    have hint : toSigned 64 n.toUInt64.toNat = n.toInt := toSigned_toNat n.toBitVec
    refine putValueAux_succ_writes h (p := True ∧ True) ?_ fun _ => ⟨trivial, trivial⟩
    rw [redact, payload, view, putBody, ← hint, ofSigned_toSigned n.toUInt64.toNat_lt]
    exact (put_writes _).seq fun _ => put_writes _
  | double bits =>
    refine putValueAux_succ_writes h (p := True ∧ True) ?_ fun _ => ⟨trivial, trivial⟩
    rw [redact, payload]
    exact (put_writes _).seq fun _ => put_writes _
  | string s =>
    refine putValueAux_succ_writes h (p := True ∧ s.1.length < 256 ^ 4) ?_ fun _ => ⟨trivial, h.1⟩
    rw [redact, payload]
    exact (put_writes _).seq fun _ => putBytes_writes _
  | bytes b =>
    refine putValueAux_succ_writes h (p := True ∧ b.length < 256 ^ 4) ?_ fun _ => ⟨trivial, h.1⟩
    rw [redact, payload]
    exact (put_writes _).seq fun _ => putBytes_writes _
  | array vs =>
    refine putValueAux_succ_writes h (p := ∀ v ∈ vs, Sizable v.redact) ?_ fun hsize v hv => ?_
    · simp only [view, putBody, h.arrayItems_wire, demand_some_bind, forEach_map]
      rw [redact, payload_array, flatMap_map, length_map]
      exact container_writes 6 vs.length ih
    · rw [redact] at hsize
      exact hsize.item (mem_map_of_mem hv)
  | map es =>
    refine putValueAux_succ_writes h
      (p := ∀ e ∈ es, e.1.1.length < 256 ^ 4 ∧ Sizable (redactKeyValue e).2) ?_ fun hsize e he => ?_
    · simp only [view, putBody, h.mapItems_wire, demand_some_bind]
      rw [encodedEntries, forEach_map, redact_map, payload_map, redactEntries,
        flatMap_map, length_map]
      exact container_writes 7 es.length fun e he => putEntry_writes (ih e.2 (mem_map_of_mem he))
    · rw [redact_map] at hsize
      exact hsize.entry (mem_map_of_mem he)

theorem putValue_writes (h : t.Fits decodeLimits room) :
    Writes (putting limits) (putValue limits t.wire) (Sizable t.redact) (valueWire t.redact) :=
  putValueAux_writes h (Nat.le_refl _)

end Values

def optionWire {α : Type} (wire : α → Bytes) : Option α → Bytes
  | none => [0]
  | some a => 1 :: wire a

theorem putOption_writes {α β : Type} {w : β → Put} {f : α → β} {P : α → Prop} {wire : α → Bytes}
    {o : Option α} (h : ∀ a ∈ o, Writes (putting limits) (w (f a)) (P a) (wire a)) :
    Writes (putting limits) (putOption limits w (o.map f)) (∀ a ∈ o, P a) (optionWire wire o) := by
  cases o with
  | none => exact (put_writes [0]).congr (by simp) fun _ => rfl
  | some a => exact ((put_writes [1]).seq fun _ => h a rfl).congr (by simp) fun _ => rfl

end Encoder

/-! ## The form of an occurrence -/

def identityWire (identity : Identity) : Bytes :=
  occMagic ++ (toBe 2 canonicalVersion ++ (toBe 2 scrubPolicyVersion ++ (identity.deploymentId.1 ++
  (identity.appDigest.1 ++ identity.eventId.1))))

def scrubbedWire (t : AnyValueInput) : Bytes := valueWire t.redact

def fieldsWire (r : RecordTree) : Bytes :=
  withLength r.resourceSchemaUrl ++ (toBe 4 r.resourceDroppedAttributesCount.toNat ++
  (scrubbedWire (.map r.resourceAttributes) ++ (optionWire (fun s => withLength s.name) r.scope ++
  (optionWire (fun s => withLength s.version) r.scope ++
  (optionWire (fun s => toBe 4 s.droppedAttributesCount.toNat) r.scope ++
  (optionWire (fun s => scrubbedWire (.map s.attributes)) r.scope ++ (withLength r.scopeSchemaUrl ++
  (toBe 8 r.timeUnixNano.toNat ++ (toBe 8 r.observedTimeUnixNano.toNat ++
  (toBe 4 r.severityNumber.toUInt32.toNat ++ (withLength r.severityText ++ (withLength r.eventName ++
  (scrubbedWire r.body ++ (toBe 4 r.droppedAttributesCount.toNat ++ (scrubbedWire (.map r.attributes) ++
  (toBe 4 r.traceFlags.toNat ++ (optionWire Subtype.val r.traceId ++
  optionWire Subtype.val r.spanId)))))))))))))))))

structure SizableFields (r : RecordTree) : Prop where
  resourceAttributes : Sizable (map r.resourceAttributes).redact
  scope : ∀ s ∈ r.scope, Sizable (map s.attributes).redact
  body : Sizable r.body.redact
  attributes : Sizable (map r.attributes).redact

theorem encodeOccurrence_ok {decodeLimits : DecodeLimits} {rawVersion : Nat} {encoded out : Bytes}
    {r : RecordTree} (h : r.Fits decodeLimits rawVersion) {limits : Limits} {identity : Identity}
    (henc : encodeOccurrence limits (r.view rawVersion encoded) identity [] = .ok ((), out)) :
    SizableFields r ∧ out = identityWire identity ++ fieldsWire r := by
  have hscope {α : Type} {w : α → Put} {f : Scope → α} {P : ScopeInput → Prop} {wire : ScopeInput → Bytes}
      (hs : ∀ s ∈ r.scope, Writer.Writes (putting limits) (w (f s.view)) (P s) (wire s)) :
      Writer.Writes (putting limits) (putOption limits w ((r.scope.map ScopeInput.view).map f))
        (∀ s ∈ r.scope, P s) (optionWire wire r.scope) := by
    rw [Option.map_map]
    exact putOption_writes hs
  have hid {n : Nat} (id : Option (Fixed n)) : Writer.Writes (putting limits)
      (putOptionFixed limits (id.map Subtype.val)) (∀ b ∈ id, True) (optionWire Subtype.val id) :=
    putOption_writes fun b _ => put_writes b.1
  have hwrite : Writer.Writes (putting limits)
      (encodeOccurrence limits (r.view rawVersion encoded) identity) _ _ :=
    (put_writes _).seq fun _ => (put_writes _).seq fun _ => (put_writes _).seq fun _ =>
      (put_writes _).seq fun _ => (put_writes _).seq fun _ => (put_writes _).seq fun _ =>
      (putBytes_writes _).seq fun _ => (put_writes _).seq fun _ =>
      (putValue_writes h.resourceAttributes).seq fun _ =>
      (hscope fun s _ => putBytes_writes s.name.1).seq fun _ =>
      (hscope fun s _ => putBytes_writes s.version.1).seq fun _ =>
      (hscope fun s _ => put_writes (toBe 4 s.droppedAttributesCount.toNat)).seq fun _ =>
      (hscope fun s hs => putValue_writes (h.scope s hs).attributes).seq fun _ =>
      (putBytes_writes _).seq fun _ =>
      (put_writes _).seq fun _ => (put_writes _).seq fun _ => (put_writes _).seq fun _ =>
      (putBytes_writes _).seq fun _ => (putBytes_writes _).seq fun _ =>
      (putValue_writes h.body).seq fun _ => (put_writes _).seq fun _ =>
      (putValue_writes h.attributes).seq fun _ => (put_writes _).seq fun _ =>
      (hid r.traceId).seq fun _ => hid r.spanId
  obtain ⟨⟨-, -, -, -, -, -, -, -, hres, -, -, -, hattributes, -, -, -, -, -, -, hbody, -, hattrs, -⟩,
    rfl, -⟩ := (hwrite.ok (Nat.zero_le _)).mp henc
  refine ⟨⟨hres, hattributes, hbody, hattrs⟩, ?_⟩
  simp only [putting_mul, identityWire, fieldsWire, RecordTree.view, RecordReader.ofSigned_int32,
    append_assoc, nil_append]
  rfl

/-! ## What is read -/

namespace Occ1

theorem decodes_nat {k n : Nat} (h : n < 256 ^ k) :
    Decodes (Cursor.uint .tooShort k : Occ1Reader Nat) (toBe k n) n := decodes_uint _ h

theorem decodes_skip (b : Bytes) : Decodes (skip b.length) b () := (decodes_take _ b).map fun _ => ()

theorem decodes_skip_toBe (k n : Nat) : Decodes (skip k) (toBe k n) () := by
  have hskip := decodes_skip (toBe k n)
  rwa [toBe_length] at hskip

variable {b : Bytes}

theorem decodes_bytes (h : b.length < 256 ^ 4) : Decodes bytes (withLength b) b :=
  (decodes_uint _ h).bind (decodes_take _ b)

theorem decodes_skipStr (h : b.length < 256 ^ 4) : Decodes skipStr (withLength b) () :=
  (decodes_uint _ h).bind (decodes_skip b)

theorem decodes_str {s : Str} (h : s.1.length < 256 ^ 4) : Decodes str (withLength s.1) s := by
  intro c
  refine Reader.bind_ok.mpr ⟨s.1, c, decodes_bytes h c, ?_⟩
  rw [dif_pos s.2]
  rfl

variable {α : Type}

theorem decodes_skipOption {skipSome : Occ1Reader Unit} {wire : α → Bytes} {o : Option α}
    (h : ∀ a ∈ o, Decodes skipSome (wire a) ()) : Decodes (skipOption skipSome) (optionWire wire o) () := by
  have htag {n : Nat} (hn : n < 256 ^ 1) : Decodes optionTag (toBe 1 n) (n != 0) :=
    (decodes_uint _ hn).map fun n => n != 0
  cases o with
  | none => exact (htag (n := 0) (by decide)).bind (decodes_pure ())
  | some a => exact (htag (n := 1) (by decide)).bind (h a rfl)

theorem decodes_within {r : Occ1Reader α} {a : α} (h : Decodes r b a) :
    Decodes (within b.length r) b a := by
  intro c
  have hread := h c
  have hlen : ¬ (c.unread b).rest.length < b.length := by
    simp [unread]
  have hdrop : ({ c.unread b with rest := (c.unread b).rest.drop b.length } : Cursor Unit) = c := by
    simp [unread]
  rw [within, if_neg hlen, hread, hdrop]

theorem decodes_sized {r : Occ1Reader α} {a : α} (hb : b.length < 256 ^ 4)
    (h : Decodes r b a) :
    Decodes (do
      let payloadLen ← u32Val
      within payloadLen r) (withLength b) a :=
  (decodes_uint _ hb).bind (decodes_within h)

theorem decodes_skipValue {t : AnyValueInput} (h : Sizable t) : Decodes skipValue (valueWire t) () :=
  (decodes_uint _ h).bind (decodes_skip (payload t))

section Values

variable {t : DecodedValue}

theorem decodes_valueAux {fuel : Nat} (h : Sizable t) (hfuel : (valueWire t).length ≤ fuel) :
    Decodes (valueAux fuel) (valueWire t) t := by
  induction fuel generalizing t with
  | zero =>
    rw [length_valueWire] at hfuel
    omega
  | succ fuel ih =>
    refine decodes_sized h ?_
    have htag {n : Nat} (hn : n < 256 ^ 1) : Decodes (Cursor.uint .tooShort 1 : Occ1Reader Nat) (toBe 1 n) n :=
      decodes_nat hn
    cases t with
    | null =>
      rw [payload]
      exact (htag (n := 0) (by decide)).bind (decodes_pure _)
    | string s =>
      have hlen : s.1.length < 256 ^ 4 := by
        rw [Sizable, payload] at h
        simp only [withLength, length_cons, length_append] at h
        omega
      rw [payload]
      exact (htag (n := 1) (by decide)).bind ((decodes_str hlen).map _)
    | bool b =>
      rw [payload]
      cases b with
      | false => exact (htag (n := 2) (by decide)).bind ((htag (n := 0) (by decide)).map _)
      | true => exact (htag (n := 2) (by decide)).bind ((htag (n := 1) (by decide)).map _)
    | int64 n =>
      have hlt : n.toUInt64.toNat < 256 ^ 8 := n.toUInt64.toNat_lt
      have hvalue := (decodes_nat hlt).map fun m => int64 (UInt64.ofNat m).toInt64
      rw [UInt64.ofNat_toNat] at hvalue
      rw [payload]
      exact (htag (n := 3) (by decide)).bind hvalue
    | double bits =>
      have hlt : bits.toNat < 256 ^ 8 := bits.toNat_lt
      have hvalue := (decodes_nat hlt).map fun m => double (UInt64.ofNat m)
      rw [UInt64.ofNat_toNat] at hvalue
      rw [payload]
      exact (htag (n := 4) (by decide)).bind hvalue
    | bytes b =>
      have hlen : b.length < 256 ^ 4 := by
        rw [Sizable, payload] at h
        simp only [withLength, length_cons, length_append] at h
        omega
      rw [payload]
      exact (htag (n := 5) (by decide)).bind ((decodes_bytes hlen).map _)
    | array vs =>
      have hitem : ∀ v ∈ vs, Decodes (valueAux fuel) (valueWire v) v := by
        intro v hv
        have hlt := length_valueWire_lt_array hv
        rw [length_valueWire] at hfuel
        exact ih (h.item hv) (by omega)
      have hitems := Decodes.times hitem
      rw [map_id'] at hitems
      rw [payload_array]
      exact (htag (n := 6) (by decide)).bind ((decodes_nat h.length_array).bind (hitems.map _))
    | map es =>
      have hentry : ∀ e ∈ es, Decodes (do
          let key ← str
          let val ← valueAux fuel
          return (key, val)) (entryBytes e) e := by
        intro e he
        obtain ⟨hkey, hvalue⟩ := h.entry he
        have hlt := length_entryBytes_lt_map he
        rw [entryBytes, length_append] at hlt
        rw [length_valueWire] at hfuel
        exact (decodes_str hkey).bind ((ih hvalue (by omega)).map _)
      have hents := Decodes.times hentry
      rw [map_id'] at hents
      rw [payload_map]
      exact (htag (n := 7) (by decide)).bind ((decodes_nat h.length_map).bind (hents.map _))

theorem decodes_value (h : Sizable t) : Decodes value (valueWire t) t := by
  intro c
  refine decodes_valueAux h ?_ c
  simp [unread]

end Values

theorem decodes_fixed {n : Nat} (b : Fixed n) : Decodes (take n) b.1 b.1 := by
  have htake : Decodes (take b.1.length) b.1 b.1 := decodes_take _ b.1
  rwa [b.2] at htake

theorem decodes_i32 (n : Int32) : Decodes i32 (toBe 4 n.toUInt32.toNat) n.toInt := by
  have hlt : n.toUInt32.toNat < 256 ^ 4 := n.toUInt32.toNat_lt
  have hread := (decodes_nat hlt).map (toSigned 32)
  rwa [RecordReader.toSigned_int32] at hread

variable {decodeLimits : DecodeLimits} {rawVersion : Nat} {r : RecordTree}

theorem decode_wire (h : r.Fits decodeLimits rawVersion) (hsize : SizableFields r) (identity : Identity) :
    decode (identityWire identity ++ fieldsWire r) =
      .ok ⟨canonicalVersion, scrubPolicyVersion, identity.deploymentId.1, identity.appDigest.1,
        identity.eventId.1, r.severityNumber.toInt, r.severityText, r.eventName, r.body.redact,
        redactEntries r.attributes⟩ := by
  have hread : Decodes decodeFields _ _ :=
    (decodes_fixed ⟨occMagic, rfl⟩).bind <| (decodes_require rfl _).bind <|
      (decodes_nat (n := canonicalVersion) (by decide)).bind <| (decodes_require rfl _).bind <|
      (decodes_nat (n := scrubPolicyVersion) (by decide)).bind <|
      (decodes_fixed identity.deploymentId).bind <| (decodes_fixed identity.appDigest).bind <|
      (decodes_fixed identity.eventId).bind <| (decodes_skipStr h.resourceSchemaUrl.1).bind <|
      (decodes_skip_toBe 4 r.resourceDroppedAttributesCount.toNat).bind <|
      (decodes_skipValue hsize.resourceAttributes).bind <|
      (decodes_skipOption fun s hs => decodes_skipStr (h.scope s hs).name.1).bind <|
      (decodes_skipOption fun s hs => decodes_skipStr (h.scope s hs).version.1).bind <|
      (decodes_skipOption fun (s : ScopeInput) (_ : s ∈ r.scope) =>
        decodes_skip_toBe 4 s.droppedAttributesCount.toNat).bind <|
      (decodes_skipOption fun s hs => decodes_skipValue (hsize.scope s hs)).bind <|
      (decodes_skipStr h.scopeSchemaUrl.1).bind <| (decodes_skip_toBe 8 r.timeUnixNano.toNat).bind <|
      (decodes_skip_toBe 8 r.observedTimeUnixNano.toNat).bind <| (decodes_i32 r.severityNumber).bind <|
      (decodes_str h.severityText.1).bind <| (decodes_str h.eventName.1).bind <|
      (decodes_value hsize.body).bind <| (decodes_skip_toBe 4 r.droppedAttributesCount.toNat).bind <|
      (decodes_value hsize.attributes).map _
  have hrest := hread ⟨toBe 4 r.traceFlags.toNat ++ (optionWire Subtype.val r.traceId ++
    optionWire Subtype.val r.spanId), ()⟩
  simp only [unread, append_assoc, nil_append] at hrest
  simp only [decode, identityWire, fieldsWire, scrubbedWire, append_assoc]
  rw [hrest, redact_map]
  rfl

end Occ1

/-! ## Records with the same bytes -/

section Injective

variable {decodeLimits decodeLimits' : DecodeLimits} {rawVersion rawVersion' : Nat} {r r' : RecordTree}
  {s s' : Bytes}

theorem valueWire_append_inj {t t' : AnyValueInput} (ht : Sizable t) (ht' : Sizable t')
    (h : valueWire t ++ s = valueWire t' ++ s') : t = t' ∧ s = s' :=
  (Occ1.decodes_value ht).append_inj (Occ1.decodes_value ht') h

theorem optionWire_append_inj {α β : Type} {wire : α → Bytes} {f : α → β} {o o' : Option α}
    (hinj : ∀ a ∈ o, ∀ a' ∈ o', wire a ++ s = wire a' ++ s' → f a = f a' ∧ s = s')
    (h : optionWire wire o ++ s = optionWire wire o' ++ s') : o.map f = o'.map f ∧ s = s' := by
  cases o with
  | none =>
    cases o' with
    | none => exact ⟨rfl, (cons.inj h).2⟩
    | some a' => exact absurd (cons.inj h).1 (by decide)
  | some a =>
    cases o' with
    | none => exact absurd (cons.inj h).1 (by decide)
    | some a' =>
      obtain ⟨hf, hs⟩ := hinj a rfl a' rfl (cons.inj h).2
      exact ⟨congrArg some hf, hs⟩

theorem optionFixed_append_inj {n : Nat} {o o' : Option (Fixed n)}
    (h : optionWire Subtype.val o ++ s = optionWire Subtype.val o' ++ s') :
    o.map Subtype.val = o'.map Subtype.val ∧ s = s' :=
  optionWire_append_inj (fun b _ b' _ hb => append_inj hb (b.2.trans b'.2.symm)) h

def SameRedacted (t t' : AnyValueInput) : Prop := t.redact = t'.redact

section

variable (h : r.Fits decodeLimits rawVersion) (h' : r'.Fits decodeLimits' rawVersion')
include h h'

theorem scopesRelated_of_maps
    (hname : r.scope.map (·.name) = r'.scope.map (·.name))
    (hver : r.scope.map (·.version) = r'.scope.map (·.version))
    (hdropped : r.scope.map (·.droppedAttributesCount) = r'.scope.map (·.droppedAttributesCount))
    (hattrs : r.scope.map (fun s => (map s.attributes).redact) =
      r'.scope.map fun s => (map s.attributes).redact) :
    ScopesRelated SameRedacted (r.scope.map ScopeInput.view) (r'.scope.map ScopeInput.view) := by
  have hfits := h.scope
  have hfits' := h'.scope
  cases hr : r.scope with
  | none =>
    cases hr' : r'.scope with
    | none => trivial
    | some s' => simp [hr, hr'] at hname
  | some s =>
    cases hr' : r'.scope with
    | none => simp [hr, hr'] at hname
    | some s' =>
      simp only [hr, hr', Option.map_some, Option.some.injEq] at hname hver hdropped hattrs
      refine ⟨congrArg Subtype.val hname, congrArg Subtype.val hver, congrArg UInt32.toNat hdropped, ?_⟩
      exact ((hfits s hr).attributes.viewsRelated (hfits' s' hr').attributes).mpr hattrs

theorem sameBut_of_fieldsWire
    (hsize : SizableFields r) (hsize' : SizableFields r') (heq : fieldsWire r = fieldsWire r')
    (encoded encoded' : Bytes) :
    SameBut SameRedacted (r.view rawVersion encoded) (r'.view rawVersion' encoded') := by
  have hu32 {n n' : UInt32} {s s' : Bytes} (h : toBe 4 n.toNat ++ s = toBe 4 n'.toNat ++ s') :
      n = n' ∧ s = s' := by
    obtain ⟨hn, hs⟩ := toBe_append_inj n.toNat_lt n'.toNat_lt h
    exact ⟨UInt32.toNat_inj.mp hn, hs⟩
  have hu64 {n n' : UInt64} {s s' : Bytes} (h : toBe 8 n.toNat ++ s = toBe 8 n'.toNat ++ s') :
      n = n' ∧ s = s' := by
    obtain ⟨hn, hs⟩ := toBe_append_inj n.toNat_lt n'.toNat_lt h
    exact ⟨UInt64.toNat_inj.mp hn, hs⟩
  have hstr {t t' : Str} {s s' : Bytes} (ht : StringFits decodeLimits t) (ht' : StringFits decodeLimits' t')
      (h : withLength t ++ s = withLength t' ++ s') : t = t' ∧ s = s' := by
    obtain ⟨hb, hs⟩ := (Occ1.decodes_bytes ht.1).append_inj (Occ1.decodes_bytes ht'.1) h
    exact ⟨Subtype.ext hb, hs⟩
  unfold fieldsWire at heq
  obtain ⟨hresourceUrl, heq⟩ := hstr h.resourceSchemaUrl h'.resourceSchemaUrl heq
  obtain ⟨hresourceDropped, heq⟩ := hu32 heq
  obtain ⟨hres, heq⟩ := valueWire_append_inj hsize.resourceAttributes hsize'.resourceAttributes heq
  obtain ⟨hname, heq⟩ := optionWire_append_inj (f := fun s : ScopeInput => s.name)
    (fun s hs s' hs' => hstr (h.scope s hs).name (h'.scope s' hs').name) heq
  obtain ⟨hver, heq⟩ := optionWire_append_inj (f := fun s : ScopeInput => s.version)
    (fun s hs s' hs' => hstr (h.scope s hs).version (h'.scope s' hs').version) heq
  obtain ⟨hdropped, heq⟩ := optionWire_append_inj (f := fun s : ScopeInput => s.droppedAttributesCount)
    (fun _ _ _ _ => hu32) heq
  obtain ⟨hattributes, heq⟩ := optionWire_append_inj
    (f := fun s : ScopeInput => (map s.attributes).redact)
    (fun s hs s' hs' => valueWire_append_inj (hsize.scope s hs) (hsize'.scope s' hs')) heq
  obtain ⟨hscopeUrl, heq⟩ := hstr h.scopeSchemaUrl h'.scopeSchemaUrl heq
  obtain ⟨htime, heq⟩ := hu64 heq
  obtain ⟨hobs, heq⟩ := hu64 heq
  obtain ⟨hsev, heq⟩ := hu32 heq
  obtain ⟨htext, heq⟩ := hstr h.severityText h'.severityText heq
  obtain ⟨hevent, heq⟩ := hstr h.eventName h'.eventName heq
  obtain ⟨hbody, heq⟩ := valueWire_append_inj hsize.body hsize'.body heq
  obtain ⟨hcnt, heq⟩ := hu32 heq
  obtain ⟨hattrs, heq⟩ := valueWire_append_inj hsize.attributes hsize'.attributes heq
  obtain ⟨hflags, heq⟩ := hu32 heq
  obtain ⟨htrace, heq⟩ := optionFixed_append_inj heq
  have hend := congrArg (· ++ []) heq
  have hscope := scopesRelated_of_maps h h' hname hver hdropped hattributes
  exact ⟨congrArg Subtype.val hresourceUrl, congrArg UInt32.toNat hresourceDropped,
    (h.resourceAttributes.viewsRelated h'.resourceAttributes).mpr hres, hscope,
    congrArg Subtype.val hscopeUrl, congrArg UInt64.toNat htime, congrArg UInt64.toNat hobs,
    congrArg (fun n => n.toInt32.toInt) hsev, congrArg Subtype.val htext, congrArg Subtype.val hevent,
    (viewsRelated_wire h.body h'.body).mpr hbody, congrArg UInt32.toNat hcnt,
    (h.attributes.viewsRelated h'.attributes).mpr hattrs, congrArg UInt32.toNat hflags, htrace,
    (optionFixed_append_inj hend).1⟩

end

end Injective

/-! ## Records -/

/-- Values under sensitive keys are replaced by the marker. -/
structure Represents (identity : Identity) (r : CanonicalLogRecord) (d : Occ1.DecodedOcc1) : Prop where
  deploymentId : d.deploymentId = identity.deploymentId.1
  appDigest : d.appIdentityDigest = identity.appDigest.1
  eventId : d.eventId = identity.eventId.1
  severityNumber : d.severityNumber = r.severityNumber
  severityText : d.severityText.1 = r.severityText
  eventName : d.eventName.1 = r.eventName
  body : ∃ t, viewTree r.body = some t ∧ d.body = t.redact
  attributes : ∃ es, viewTree r.attributes = some (.map es) ∧ d.attributes = redactEntries es

/-- The bytes are decoded to the record, and no other record has them, but for values under sensitive keys. -/
theorem occurrence_bytes_faithful {decodeLimits : DecodeLimits} {rawVersion : Nat} {encoded out : Bytes}
    {r : CanonicalLogRecord} {limits : Limits} {identity : Identity}
    (hr : parseRecord decodeLimits rawVersion encoded = .ok r)
    (hencode : encodeOccurrence limits r identity [] = .ok ((), out)) :
    (∃ d, Occ1.decode out = .ok d ∧ Represents identity r d) ∧
      ∀ decodeLimits' rawVersion' encoded' r' limits',
        parseRecord decodeLimits' rawVersion' encoded' = .ok r' →
          encodeOccurrence limits' r' identity [] = .ok ((), out) → SameBut SameRedacted r r' := by
  obtain ⟨t, hfits, -, -, rfl⟩ := parseRecord_iff.mp hr
  obtain ⟨hsize, rfl⟩ := encodeOccurrence_ok hfits hencode
  refine ⟨⟨_, Occ1.decode_wire hfits hsize identity, rfl, rfl, rfl, rfl, rfl, rfl,
    ⟨t.body, hfits.body.viewTree, rfl⟩, t.attributes, hfits.attributes.viewTree, rfl⟩, ?_⟩
  intro decodeLimits' rawVersion' encoded' r' limits' hr' hencode'
  obtain ⟨t', hfits', -, -, rfl⟩ := parseRecord_iff.mp hr'
  obtain ⟨hsize', heq⟩ := encodeOccurrence_ok hfits' hencode'
  exact sameBut_of_fieldsWire hfits hfits' hsize hsize' (append_cancel_left heq) _ _

theorem occurrence_bytes_faithful_password :
    let identity : Identity := ⟨⟨replicate 16 1, rfl⟩, ⟨replicate 32 2, rfl⟩,
      ⟨replicate 16 3, rfl⟩⟩
    let encoded : Bytes := toBe 2 0 ++ withLength [] ++ toBe 4 0 ++ [7, 0, 0, 0, 0] ++ [0] ++ withLength [] ++
      toBe 8 1 ++ toBe 8 1 ++ toBe 4 17 ++ withLength [] ++ withLength (ascii "exception") ++ [0] ++ toBe 4 0 ++
      [7, 0, 0, 0, 1] ++ withLength (ascii "password") ++ 1 :: withLength (ascii "secret") ++ toBe 4 0 ++ [0, 0]
    ∃ r out d, parseRecord .default 1 encoded = .ok r ∧
      encodeOccurrence ⟨1024 * 1024⟩ r identity [] = .ok ((), out) ∧ Occ1.decode out = .ok d ∧
      Represents identity r d := by
  intro identity encoded
  have hrun : (do
      let r ← (parseRecord .default 1 encoded).toOption
      (encodeOccurrence ⟨1024 * 1024⟩ r identity []).toOption).isSome = true := by decide +kernel
  obtain ⟨⟨_, out⟩, hout⟩ := Option.isSome_iff_exists.mp hrun
  obtain ⟨r, hr, hencode⟩ := Option.bind_eq_some_iff.mp hout
  rw [toOption_eq_some] at hr hencode
  obtain ⟨d, hd, hrepresents⟩ := (occurrence_bytes_faithful hr hencode).1
  exact ⟨r, out, d, hr, hencode, hd, hrepresents⟩

end Scry.Errors
