import Mathlib.Algebra.Group.Defs
import Scry.Lib.Effects
import Scry.Proto.AnyValue

/-! # Values as trees

A tree has a wire form, a cost, and limits that it may or may not keep. The validator accepts the wire forms of
the trees inside the limits, charges each of them its cost, and accepts nothing else.
-/

open Scry.Lib

namespace Scry.Proto

/-- A `&str`. -/
abbrev Str := { s : Bytes // validUtf8 s = true }

theorem validUtf8_password : validUtf8 (ascii "password") = true := by decide

theorem validUtf8_apiKey : validUtf8 (ascii "api_key") = true := by decide

theorem validUtf8_host : validUtf8 (ascii "host") = true := by decide

theorem validUtf8_info : validUtf8 (ascii "INFO") = true := by decide

theorem validUtf8_lib : validUtf8 (ascii "lib") = true := by decide

theorem validUtf8_up : validUtf8 (ascii "up") = true := by decide

/-- A double is its bits. A `KeyValueInput` is a pair. -/
inductive AnyValueInput where
  | null
  | string (value : Str)
  | bool (value : Bool)
  | int64 (value : Int64)
  | double (bits : UInt64)
  | bytes (value : Bytes)
  | array (values : List AnyValueInput)
  | map (entries : List (Str × AnyValueInput))

abbrev KeyValueInput := Str × AnyValueInput

/-! ## Budgets -/

instance : Zero RecordBudget := ⟨⟨0, 0, 0⟩⟩

instance : Add RecordBudget :=
  ⟨fun a b => ⟨a.variableBytes + b.variableBytes, a.nodes + b.nodes, a.keyValues + b.keyValues⟩⟩

namespace RecordBudget

@[simp] theorem zero_variableBytes : (0 : RecordBudget).variableBytes = 0 := rfl

@[simp] theorem zero_nodes : (0 : RecordBudget).nodes = 0 := rfl

@[simp] theorem zero_keyValues : (0 : RecordBudget).keyValues = 0 := rfl

@[simp] theorem add_variableBytes (a b : RecordBudget) :
    (a + b).variableBytes = a.variableBytes + b.variableBytes := rfl

@[simp] theorem add_nodes (a b : RecordBudget) : (a + b).nodes = a.nodes + b.nodes := rfl

@[simp] theorem add_keyValues (a b : RecordBudget) :
    (a + b).keyValues = a.keyValues + b.keyValues := rfl

variable {a b : RecordBudget}

@[ext] theorem ext' (hv : a.variableBytes = b.variableBytes)
    (hn : a.nodes = b.nodes) (hk : a.keyValues = b.keyValues) : a = b := by
  cases a
  cases b
  simp_all

instance : AddCommMonoid RecordBudget where
  zero := 0
  add := (· + ·)
  zero_add a := by ext <;> simp
  add_zero a := by ext <;> simp
  add_assoc a b c := by ext <;> simp [Nat.add_assoc]
  add_comm a b := by ext <;> simp [Nat.add_comm]
  nsmul := nsmulRec

structure Within (limits : DecodeLimits) (b : RecordBudget) : Prop where
  variableBytes : b.variableBytes ≤ limits.maxVariableBytesPerRecord
  nodes : b.nodes ≤ limits.maxNodesPerRecord
  keyValues : b.keyValues ≤ limits.maxKeyValuePairsPerRecord

theorem Within.left {limits : DecodeLimits} (h : (a + b).Within limits) : a.Within limits := by
  obtain ⟨hv, hn, hk⟩ := h
  simp only [add_variableBytes, add_nodes, add_keyValues] at hv hn hk
  exact ⟨by omega, by omega, by omega⟩

end RecordBudget

/-! ## Trees -/

namespace AnyValueInput

theorem sizeOf_item {v : AnyValueInput} {vs : List AnyValueInput} (h : v ∈ vs) : sizeOf v < sizeOf (array vs) := by
  have := List.sizeOf_lt_of_mem h
  simp only [array.sizeOf_spec]
  omega

theorem sizeOf_entry {e : KeyValueInput} {es : List KeyValueInput} (h : e ∈ es) : sizeOf e.2 < sizeOf (map es) := by
  have := List.sizeOf_lt_of_mem h
  have : sizeOf e = 1 + sizeOf e.1 + sizeOf e.2 := by cases e; rfl
  simp only [map.sizeOf_spec]
  omega

/-- Induction over a tree: a container from the values in it. -/
@[elab_as_elim, induction_eliminator]
theorem induct {P : AnyValueInput → Prop} (null : P null) (string : ∀ s, P (string s))
    (bool : ∀ b, P (bool b)) (int64 : ∀ n, P (int64 n)) (double : ∀ bits, P (double bits))
    (bytes : ∀ b, P (bytes b)) (array : ∀ vs, (∀ v ∈ vs, P v) → P (array vs))
    (map : ∀ es : List KeyValueInput, (∀ e ∈ es, P e.2) → P (map es)) (t : AnyValueInput) : P t :=
  match t with
  | .null => null
  | .string s => string s
  | .bool b => bool b
  | .int64 n => int64 n
  | .double bits => double bits
  | .bytes b => bytes b
  | .array vs => array vs fun v _ => induct null string bool int64 double bytes array map v
  | .map es => map es fun e _ => induct null string bool int64 double bytes array map e.2
termination_by sizeOf t
decreasing_by
  · exact sizeOf_item ‹_›
  · exact sizeOf_entry ‹_›

def wire : AnyValueInput → Bytes
  | null => [0]
  | string s => 1 :: withLength s
  | bool b => [2, if b then 1 else 0]
  | int64 n => 3 :: toBe 8 n.toUInt64.toNat
  | double bits => 4 :: toBe 8 bits.toNat
  | bytes b => 5 :: withLength b
  | array vs => 6 :: (toBe 4 vs.length ++ vs.flatMap wire)
  | map es => 7 :: (toBe 4 es.length ++ es.flatMap fun e => withLength e.1 ++ wire e.2)
termination_by t => sizeOf t
decreasing_by
  · exact sizeOf_item ‹_›
  · exact sizeOf_entry ‹_›

def tag : AnyValueInput → Nat
  | null => 0
  | string _ => 1
  | bool _ => 2
  | int64 _ => 3
  | double _ => 4
  | bytes _ => 5
  | array _ => 6
  | map _ => 7

def content : AnyValueInput → Bytes
  | null => []
  | string s => withLength s
  | bool b => [if b then 1 else 0]
  | int64 n => toBe 8 n.toUInt64.toNat
  | double bits => toBe 8 bits.toNat
  | bytes b => withLength b
  | array vs => toBe 4 vs.length ++ vs.flatMap wire
  | map es => toBe 4 es.length ++ es.flatMap fun e => withLength e.1 ++ wire e.2

theorem wire_eq (t : AnyValueInput) : t.wire = toBe 1 t.tag ++ t.content := by
  cases t <;> rw [wire] <;> rfl

def cost : AnyValueInput → RecordBudget
  | null | bool _ | int64 _ | double _ => ⟨0, 1, 0⟩
  | string s => ⟨s.1.length, 1, 0⟩
  | bytes b => ⟨b.length, 1, 0⟩
  | array vs => ⟨0, 1, 0⟩ + (vs.map cost).sum
  | map es =>
    ⟨0, 1, 0⟩ + (⟨0, 0, es.length⟩ + (es.map fun e => ⟨e.1.1.length, 0, 0⟩ + cost e.2).sum)
termination_by t => sizeOf t
decreasing_by
  · exact sizeOf_item ‹_›
  · exact sizeOf_entry ‹_›

def entryCost (e : KeyValueInput) : RecordBudget := ⟨e.1.1.length, 0, 0⟩ + e.2.cost

def contentCost : AnyValueInput → RecordBudget
  | null | bool _ | int64 _ | double _ => 0
  | string s => ⟨s.1.length, 0, 0⟩
  | bytes b => ⟨b.length, 0, 0⟩
  | array vs => (vs.map cost).sum
  | map es => ⟨0, 0, es.length⟩ + (es.map entryCost).sum

theorem cost_eq (t : AnyValueInput) : t.cost = ⟨0, 1, 0⟩ + t.contentCost := by
  cases t with
  | null | bool | int64 | double => rw [cost]; rfl
  | string s | bytes b => rw [cost, contentCost]; ext <;> simp
  | array vs | map es => rw [cost]; rfl

/-- Strictly ascending after `previous`, each within its limit. -/
def KeysFit (limits : DecodeLimits) : Option Bytes → List KeyValueInput → Prop
  | _, [] => True
  | previous, (key, _) :: es =>
    (key.1.length < 256 ^ 4 ∧ key.1.length ≤ limits.maxKeyBytes ∧ key.1 ≠ [] ∧
      ∀ old ∈ previous, old < key.1) ∧ KeysFit limits (some key.1) es

/-- The tree keeps the limits, with `room` levels left for it. -/
def Fits (limits : DecodeLimits) : Nat → AnyValueInput → Prop
  | 0, _ => False
  | _ + 1, null | _ + 1, bool _ | _ + 1, int64 _ => True
  | _ + 1, string s => s.1.length < 256 ^ 4 ∧ s.1.length ≤ limits.maxStringBytes
  | _ + 1, double bits => RecordReader.canonicalDouble bits.toNat = true
  | _ + 1, bytes b => b.length < 256 ^ 4 ∧ b.length ≤ limits.maxBytesValue
  | room + 1, array vs =>
    0 < room ∧ vs.length < 256 ^ 4 ∧ vs.length ≤ limits.maxContainerElements ∧
      ∀ v ∈ vs, Fits limits room v
  | room + 1, map es =>
    0 < room ∧ es.length < 256 ^ 4 ∧ es.length ≤ limits.maxContainerElements ∧
      KeysFit limits none es ∧ ∀ e ∈ es, Fits limits room e.2

instance decidableKeysFit (limits : DecodeLimits) :
    ∀ (previous : Option Bytes) (es : List KeyValueInput), Decidable (KeysFit limits previous es)
  | _, [] => isTrue trivial
  | previous, (key, _) :: es =>
    have := decidableKeysFit limits (some key.1) es
    inferInstanceAs (Decidable ((key.1.length < 256 ^ 4 ∧ key.1.length ≤ limits.maxKeyBytes ∧ key.1 ≠ [] ∧
      ∀ old ∈ previous, old < key.1) ∧ KeysFit limits (some key.1) es))

instance decidableFits (limits : DecodeLimits) :
    ∀ (room : Nat) (t : AnyValueInput), Decidable (Fits limits room t)
  | 0, _ => isFalse id
  | _ + 1, null | _ + 1, bool _ | _ + 1, int64 _ => isTrue trivial
  | _ + 1, string s =>
    inferInstanceAs (Decidable (s.1.length < 256 ^ 4 ∧ s.1.length ≤ limits.maxStringBytes))
  | _ + 1, double bits => inferInstanceAs (Decidable (RecordReader.canonicalDouble bits.toNat = true))
  | _ + 1, bytes b => inferInstanceAs (Decidable (b.length < 256 ^ 4 ∧ b.length ≤ limits.maxBytesValue))
  | room + 1, array vs =>
    have := decidableFits limits room
    inferInstanceAs (Decidable (0 < room ∧ vs.length < 256 ^ 4 ∧ vs.length ≤ limits.maxContainerElements ∧
      ∀ v ∈ vs, Fits limits room v))
  | room + 1, map es =>
    have := decidableFits limits room
    inferInstanceAs (Decidable (0 < room ∧ es.length < 256 ^ 4 ∧ es.length ≤ limits.maxContainerElements ∧
      KeysFit limits none es ∧ ∀ e ∈ es, Fits limits room e.2))

end AnyValueInput

/-! ## The validator reads trees -/

/-- Bytes taken, and what is charged for them. -/
def spending (limits : DecodeLimits) : Effects (Cursor RecordBudget) (Bytes × RecordBudget) where
  one := ([], 0)
  mul m n := (m.1 ++ n.1, m.2 + n.2)
  Good c := c.extra.Within limits
  Moves c m c' := c.rest = m.1 ++ c'.rest ∧ c'.extra = c.extra + m.2 ∧ c'.extra.Within limits
  moves_one {c c'} hc := by
    obtain ⟨rest, extra⟩ := c
    obtain ⟨rest', extra'⟩ := c'
    simp only [List.nil_append, add_zero, Cursor.mk.injEq]
    constructor
    · rintro ⟨rfl, rfl, -⟩
      exact ⟨rfl, rfl⟩
    · rintro ⟨rfl, rfl⟩
      exact ⟨rfl, rfl, hc⟩
  moves_mul {c c' m n} _ := by
    constructor
    · rintro ⟨hrest, hextra, hwithin⟩
      refine ⟨⟨n.1 ++ c'.rest, c.extra + m.2⟩, ⟨by rw [hrest, List.append_assoc], rfl, ?_⟩, rfl, ?_, hwithin⟩
      · rw [hextra, ← add_assoc] at hwithin
        exact hwithin.left
      · rw [hextra, add_assoc]
    · rintro ⟨t, ⟨hrest, hextra, -⟩, hrest', hextra', hwithin⟩
      exact ⟨by rw [hrest, hrest', List.append_assoc], by rw [hextra', hextra, add_assoc], hwithin⟩
  good _ h := h.2.2

variable {limits : DecodeLimits}

@[simp] theorem spending_one : (spending limits).one = ([], 0) := rfl

@[simp] theorem spending_mul (m n : Bytes × RecordBudget) :
    (spending limits).mul m n = (m.1 ++ n.1, m.2 + n.2) := rfl

theorem spending_product {ξ : Type} (wire : ξ → Bytes) (cost : ξ → RecordBudget) (xs : List ξ) :
    (spending limits).product (xs.map fun x => (wire x, cost x)) = (xs.flatMap wire, (xs.map cost).sum) := by
  induction xs with
  | nil => rfl
  | cons x xs ih =>
    rw [List.map_cons, Effects.product_cons, ih]
    rfl

theorem spending_product_free {ξ : Type} (wire : ξ → Bytes) (xs : List ξ) :
    (spending limits).product (xs.map fun x => (wire x, 0)) = (xs.flatMap wire, 0) := by
  induction xs with
  | nil => rfl
  | cons x xs ih =>
    rw [List.map_cons, Effects.product_cons, ih]
    rfl

theorem spending_start (limits : DecodeLimits) (input : Bytes) : (spending limits).Good ⟨input, ⟨0, 0, 0⟩⟩ :=
  ⟨Nat.zero_le _, Nat.zero_le _, Nat.zero_le _⟩

namespace RecordReader

open AnyValueInput

variable {limits : DecodeLimits}

theorem moves_unread {c c' : Cursor RecordBudget} {w : Bytes} (hc : c.extra.Within limits) :
    (spending limits).Moves c (w, 0) c' ↔ c = c'.unread w := by
  obtain ⟨rest, extra⟩ := c
  obtain ⟨rest', extra'⟩ := c'
  simp only [spending, add_zero, Cursor.unread, Cursor.mk.injEq]
  constructor
  · rintro ⟨hrest, hextra, -⟩
    exact ⟨hrest, hextra.symm⟩
  · rintro ⟨rfl, rfl⟩
    exact ⟨rfl, rfl, hc⟩

theorem uint_reads (k : Nat) : (spending limits).Reads (uint k) (fun n : Nat => n < 256 ^ k) (fun n => n)
    (fun n => (toBe k n, 0)) := by
  refine ⟨fun {c c' n} hc => ?_⟩
  simp only [uint, Cursor.uint_ok, moves_unread hc, and_true]
  constructor
  · rintro ⟨hn, hread⟩
    exact ⟨n, hn, rfl, hread⟩
  · rintro ⟨_, hn, rfl, hread⟩
    exact ⟨hn, hread⟩

theorem take_reads (n : Nat) : (spending limits).Reads (take n) (fun b : Bytes => b.length = n) (fun b => b)
    (fun b => (b, 0)) := by
  refine ⟨fun {c c' b} hc => ?_⟩
  simp only [take, Cursor.take_ok, moves_unread hc, and_true]
  constructor
  · rintro ⟨hb, hread⟩
    exact ⟨b, hb, rfl, hread⟩
  · rintro ⟨_, hb, rfl, hread⟩
    exact ⟨hb, hread⟩

theorem charge_reads {spend : RecordBudget → RecordBudget} {used : RecordBudget → Nat} {max : Nat} {e : DecodeError}
    {k : RecordBudget} (hspend : ∀ b, spend b = b + k) (hused : ∀ b : RecordBudget, b.Within limits →
    (used (b + k) ≤ max ↔ (b + k).Within limits)) : (spending limits).Reads (charge spend used max e)
    (fun _ : Unit => True) (fun _ => ()) (fun _ => ([], k)) := by
  refine ⟨fun {c c' u} hc => ?_⟩
  obtain ⟨rest, extra⟩ := c
  obtain ⟨rest', extra'⟩ := c'
  simp only [charge, hspend]
  by_cases hwithin : (extra + k).Within limits
  · rw [if_neg (Nat.not_lt.mpr ((hused extra hc).mpr hwithin))]
    constructor
    · intro h
      cases h
      exact ⟨(), trivial, trivial, ⟨rfl, rfl, hwithin⟩, trivial⟩
    · rintro ⟨_, -, -, ⟨hrest, hextra, -⟩, -⟩
      obtain rfl : rest = rest' := hrest
      obtain rfl : extra' = extra + k := hextra
      rfl
  · rw [if_pos (Nat.not_le.mp fun h => hwithin ((hused extra hc).mp h))]
    constructor
    · intro h
      cases h
    · rintro ⟨_, -, -, ⟨-, rfl, h⟩, -⟩
      exact (hwithin h).elim

theorem budgetVariable_reads (len : Nat) : (spending limits).Reads (budgetVariable limits len) (fun _ : Unit => True)
    (fun _ => ()) (fun _ => ([], ⟨len, 0, 0⟩)) := by
  refine charge_reads (fun b => by ext <;> simp) fun b hb => ⟨fun h => ⟨h, ?_, ?_⟩, fun h => h.1⟩
  · exact hb.nodes
  · exact hb.keyValues

theorem budgetNode_reads : (spending limits).Reads (budgetNode limits) (fun _ : Unit => True) (fun _ => ())
    (fun _ => ([], ⟨0, 1, 0⟩)) := by
  refine charge_reads (fun b => by ext <;> simp) fun b hb => ⟨fun h => ⟨?_, h, ?_⟩, fun h => h.2⟩
  · exact hb.variableBytes
  · exact hb.keyValues

theorem budgetKeyValues_reads (count : Nat) : (spending limits).Reads (budgetKeyValues limits count)
    (fun _ : Unit => True) (fun _ => ()) (fun _ => ([], ⟨0, 0, count⟩)) := by
  refine charge_reads (fun b => by ext <;> simp) fun b hb => ⟨fun h => ⟨?_, ?_, h⟩, fun h => h.3⟩
  · exact hb.variableBytes
  · exact hb.nodes

theorem rawString_reads (max : Nat) (e : DecodeError) : (spending limits).Reads (rawString limits max e)
    (fun s : Str => s.1.length < 256 ^ 4 ∧ s.1.length ≤ max) Subtype.val
    (fun s => (withLength s.1, ⟨s.1.length, 0, 0⟩)) := by
  have hread : (spending limits).Reads (rawString limits max e) _ _ _ :=
    (uint_reads 4).bind fun len _ => .require fun _ => (take_reads len).bind fun b _ =>
      .require fun _ => (budgetVariable_reads len).map fun _ => b
  refine hread.congr ?_ ?_
  · rintro ⟨n, b, _⟩ ⟨hn, hmax, hb, hutf8, -⟩
    obtain rfl : b.length = n := hb
    refine ⟨⟨b, hutf8⟩, ⟨hn, hmax⟩, rfl, ?_⟩
    simp [withLength]
  · rintro ⟨b, hutf8⟩ ⟨hn, hmax⟩
    refine ⟨⟨b.length, b, ()⟩, ⟨hn, hmax, rfl, hutf8, trivial⟩, rfl, ?_⟩
    simp [withLength]

theorem rawBytes_reads (max : Nat) (e : DecodeError) :
    (spending limits).Reads (do
        let len ← uint 4
        Reader.require (len ≤ max) e
        let _ ← take len
        budgetVariable limits len)
      (fun b : Bytes => b.length < 256 ^ 4 ∧ b.length ≤ max) (fun _ => ())
      (fun b => (withLength b, ⟨b.length, 0, 0⟩)) := by
  have hcont (len : Nat) :
      (spending limits).Reads (take len >>= fun _ => budgetVariable limits len) _ _ _ :=
    (take_reads len).bind fun _ _ => budgetVariable_reads len
  refine ((uint_reads 4).bind fun len _ =>
    Effects.ReadsTo.require (e := e) fun _ : len ≤ max => hcont len).congr ?_ ?_
  · rintro ⟨n, b, _⟩ ⟨hn, hmax, hb, -⟩
    obtain rfl : b.length = n := hb
    exact ⟨b, ⟨hn, hmax⟩, rfl, by simp [withLength]⟩
  · rintro b ⟨hn, hmax⟩
    exact ⟨(b.length, b, ()), ⟨hn, hmax, rfl, trivial⟩, rfl, by simp [withLength]⟩

theorem captured_reads {α ξ : Type} {r : RecordReader α} {P : ξ → Prop} {f : ξ → α}
    {l : ξ → Bytes × RecordBudget} (hr : (spending limits).Reads r P f l) :
    (spending limits).Reads (Cursor.captured r) P (fun x => (f x, (l x).1)) l := by
  refine ⟨fun {c c' a} hc => ?_⟩
  obtain ⟨a, b⟩ := a
  have hrest : ∀ a, r c = .ok (a, c') → ∃ w, c.rest = w ++ c'.rest := by
    intro a ha
    obtain ⟨x, -, -, hmove, -⟩ := (hr.ok hc).mp ha
    exact ⟨_, hmove.1⟩
  rw [Cursor.captured_ok hrest, hr.ok hc]
  constructor
  · rintro ⟨⟨x, hx, rfl, hmove, -⟩, hb⟩
    have heq := List.append_cancel_right (hb.symm.trans hmove.1)
    exact ⟨x, hx, by rw [heq], hmove, trivial⟩
  · rintro ⟨x, hx, hab, hmove, -⟩
    cases hab
    exact ⟨⟨x, hx, rfl, hmove, trivial⟩, hmove.1⟩

section Values

/-! What the element reader says of an element, the container readers say of the container. -/

variable {room : Nat} {value : RecordReader Bytes}
  (hvalue : (spending limits).Reads value (Fits limits room) wire fun t => (t.wire, t.cost))
include hvalue

theorem array_reads : (spending limits).Reads (array limits room value)
    (fun vs : List AnyValueInput => 0 < room ∧ vs.length < 256 ^ 4 ∧ vs.length ≤ limits.maxContainerElements ∧ ∀ v ∈
    vs, v.Fits limits room) (fun _ => ()) (fun vs => (toBe 4 vs.length ++ vs.flatMap wire, (vs.map cost).sum)) := by
  have hread : (spending limits).Reads (array limits room value) _ _ _ :=
    .require fun _ => (uint_reads 4).bind fun n _ => .require fun _ => (hvalue.times n).map fun _ => ()
  refine hread.congr ?_ ?_
  · rintro ⟨n, vs⟩ ⟨hroom, hn, hmax, hlen, hvs⟩
    obtain rfl : vs.length = n := hlen
    refine ⟨vs, ⟨hroom, hn, hmax, hvs⟩, rfl, ?_⟩
    simp [spending_product]
  · rintro vs ⟨hroom, hn, hmax, hvs⟩
    refine ⟨(vs.length, vs), ⟨hroom, hn, hmax, rfl, hvs⟩, rfl, ?_⟩
    simp [spending_product]

theorem mapEntries_reads (n : Nat) (previous : Option Bytes) : (spending limits).Reads
    (mapEntries limits value n previous) (fun es : List KeyValueInput => es.length = n ∧ KeysFit limits previous es ∧
    ∀ e ∈ es, e.2.Fits limits room) (fun _ => ()) (fun es => (es.flatMap fun e => withLength e.1 ++ e.2.wire,
    (es.map entryCost).sum)) := by
  induction n generalizing previous with
  | zero =>
    refine (Effects.reads_pure ()).congr ?_ ?_
    · intro _ _
      exact ⟨[], ⟨rfl, trivial, by simp⟩, rfl, rfl⟩
    · rintro es ⟨hlen, -⟩
      obtain rfl := List.length_eq_zero_iff.mp hlen
      exact ⟨(), trivial, rfl, rfl⟩
  | succ n ih =>
    have hread : (spending limits).Reads (mapEntries limits value (n + 1) previous) _ _ _ :=
      (rawString_reads limits.maxKeyBytes .keyLimit).bind fun key _ => .require fun _ =>
        .require fun _ => hvalue.bind fun _ _ => ih (some key.1)
    refine hread.congr ?_ ?_
    · rintro ⟨key, t, es⟩ ⟨⟨hlen, hmax⟩, hne, hold, ht, hn, hkeys, hes⟩
      refine ⟨(key, t) :: es, ⟨by simpa using hn, ⟨⟨hlen, hmax, hne, hold⟩, hkeys⟩, ?_⟩, rfl, ?_⟩
      · simpa [ht] using hes
      · simp [entryCost, add_assoc]
    · rintro es ⟨hn, hkeys, hes⟩
      cases es with
      | nil => simp at hn
      | cons e es =>
        obtain ⟨⟨hlen, hmax, hne, hold⟩, hkeys⟩ := hkeys
        simp only [List.mem_cons, forall_eq_or_imp] at hes
        refine ⟨(e.1, e.2, es), ⟨⟨hlen, hmax⟩, hne, hold, hes.1, by simpa using hn, hkeys, hes.2⟩, rfl, ?_⟩
        simp [entryCost, add_assoc]

theorem map_reads : (spending limits).Reads (map limits room value)
    (fun es : List KeyValueInput => 0 < room ∧ es.length < 256 ^ 4 ∧ es.length ≤ limits.maxContainerElements ∧ KeysFit
    limits none es ∧ ∀ e ∈ es, e.2.Fits limits room) (fun _ => ()) (fun es => (toBe 4 es.length ++ es.flatMap
    fun e => withLength e.1 ++ e.2.wire, ⟨0, 0, es.length⟩ + (es.map entryCost).sum)) := by
  have hread : (spending limits).Reads (map limits room value) _ _ _ :=
    .require fun _ => (uint_reads 4).bind fun n _ => .require fun _ =>
      (budgetKeyValues_reads n).bind fun _ _ => mapEntries_reads hvalue n none
  refine hread.congr ?_ ?_
  · rintro ⟨n, _, es⟩ ⟨hroom, hn, hmax, -, hlen, hkeys, hes⟩
    obtain rfl : es.length = n := hlen
    refine ⟨es, ⟨hroom, hn, hmax, hkeys, hes⟩, rfl, ?_⟩
    simp
  · rintro es ⟨hroom, hn, hmax, hkeys, hes⟩
    refine ⟨(es.length, (), es), ⟨hroom, hn, hmax, trivial, rfl, hkeys, hes⟩, rfl, ?_⟩
    simp

omit hvalue in
theorem branch_reads {ξ : Type} {n : Nat} {r : RecordReader Unit} {P : ξ → Prop} {l : ξ → Bytes × RecordBudget}
    (hr : (spending limits).Reads r P (fun _ => ()) l) (φ : ξ → AnyValueInput)
    (hto : ∀ x, P x → (φ x).tag = n ∧ (φ x).Fits limits (room + 1) ∧ ((φ x).content, (φ x).contentCost) = l x)
    (hfrom : ∀ t : AnyValueInput, t.tag = n → t.Fits limits (room + 1) → ∃ x, P x ∧ φ x = t) : (spending limits).Reads
    r (fun t : AnyValueInput => t.tag = n ∧ t.Fits limits (room + 1)) (fun _ => ())
    (fun t => (t.content, t.contentCost)) := by
  refine hr.congr ?_ ?_
  · intro x hx
    obtain ⟨htag, hfits, hl⟩ := hto x hx
    exact ⟨φ x, ⟨htag, hfits⟩, rfl, hl⟩
  · rintro t ⟨htag, hfits⟩
    obtain ⟨x, hx, rfl⟩ := hfrom t htag hfits
    exact ⟨x, hx, rfl, (hto x hx).2.2.symm⟩

theorem anyContent_reads : (spending limits).Reads (anyContent limits room value) (Fits limits (room + 1))
    (fun _ => ()) (fun t => (t.wire, t.contentCost)) := by
  refine ((uint_reads 1).bind
    (Q := fun n (t : AnyValueInput) => t.tag = n ∧ t.Fits limits (room + 1)) (g := fun _ _ => ())
    (m := fun _ t => (t.content, t.contentCost)) fun n _ => ?_).congr ?_ ?_
  · split
    · -- null
      refine branch_reads (Effects.reads_pure ()) (fun _ => null) (fun _ _ => ⟨rfl, trivial, rfl⟩) ?_
      intro t htag _
      cases t with
      | null => exact ⟨(), trivial, rfl⟩
      | _ => cases htag
    · -- string
      refine branch_reads ((rawString_reads _ _).map fun _ => ()) string
        (fun s hs => ⟨rfl, hs, rfl⟩) ?_
      intro t htag ht
      cases t with
      | string s => exact ⟨s, ht, rfl⟩
      | _ => cases htag
    · -- bool
      refine branch_reads ((uint_reads 1).bind fun b _ => Effects.reads_require (b ≤ 1) _)
        (fun p => bool (p.1 = 1)) ?_ ?_
      · rintro ⟨b, _⟩ ⟨-, hb⟩
        have hb : b = 0 ∨ b = 1 := Nat.le_one_iff_eq_zero_or_eq_one.mp hb
        obtain rfl | rfl := hb <;> exact ⟨rfl, trivial, rfl⟩
      · intro t htag _
        cases t with
        | bool b => cases b <;> first | exact ⟨(0, ()), by decide, rfl⟩ | exact ⟨(1, ()), by decide, rfl⟩
        | _ => cases htag
    · -- int64
      refine branch_reads ((take_reads 8).map fun _ => ())
        (fun b => int64 (UInt64.ofNat (ofBe b)).toInt64) ?_ ?_
      · intro b hb
        refine ⟨rfl, trivial, ?_⟩
        have hlt : ofBe b < 18446744073709551616 := by simpa [hb] using ofBe_lt b
        have hwire : toBe 8 (ofBe b) = b := by simpa [hb] using toBe_ofBe b
        simp [content, contentCost, Nat.mod_eq_of_lt hlt, hwire]
      · intro t htag _
        cases t with
        | int64 n => exact ⟨toBe 8 n.toUInt64.toNat, toBe_length 8 _, by simp [ofBe_toBe_of_lt, n.toUInt64.toNat_lt]⟩
        | _ => cases htag
    · -- double
      refine branch_reads ((uint_reads 8).bind fun bits _ => Effects.reads_require _ _)
        (fun p => double (UInt64.ofNat p.1)) ?_ ?_
      · rintro ⟨bits, _⟩ ⟨hlt, hbits⟩
        have hnat : (UInt64.ofNat bits).toNat = bits := UInt64.toNat_ofNat_of_lt' hlt
        refine ⟨rfl, ?_, ?_⟩
        · simp only [Fits, hnat]
          exact hbits
        · simp [content, contentCost, hnat]
      · intro t htag ht
        cases t with
        | double bits => exact ⟨(bits.toNat, ()), ⟨bits.toNat_lt, ht⟩, by simp⟩
        | _ => cases htag
    · -- bytes
      refine branch_reads (rawBytes_reads _ _) bytes (fun b hb => ⟨rfl, hb, rfl⟩) ?_
      intro t htag ht
      cases t with
      | bytes b => exact ⟨b, ht, rfl⟩
      | _ => cases htag
    · -- array
      refine branch_reads (array_reads hvalue) AnyValueInput.array (fun vs hvs => ⟨rfl, hvs, rfl⟩) ?_
      intro t htag ht
      cases t with
      | array vs => exact ⟨vs, ht, rfl⟩
      | _ => cases htag
    · -- map
      refine branch_reads (map_reads hvalue) AnyValueInput.map (fun es hes => ⟨rfl, hes, rfl⟩) ?_
      intro t htag ht
      cases t with
      | map es => exact ⟨es, ht, rfl⟩
      | _ => cases htag
    · -- Every tree has one of these tags.
      refine branch_reads (Effects.reads_fail _ _ fun _ : Unit => ([], 0)) (fun _ => null)
        (fun _ h => h.elim) ?_
      intro t htag _
      subst htag
      cases t <;> simp_all [tag]
  · rintro ⟨n, t⟩ ⟨-, htag, ht⟩
    obtain rfl : t.tag = n := htag
    exact ⟨t, ht, rfl, by simp [wire_eq]⟩
  · intro t ht
    have htag : t.tag < 256 ^ 1 := by cases t <;> simp [tag]
    exact ⟨(t.tag, t), ⟨htag, rfl, ht⟩, rfl, by simp [wire_eq]⟩

theorem mapContent_reads : (spending limits).Reads (mapContent limits room value)
    (fun es : List KeyValueInput => (AnyValueInput.map es).Fits limits (room + 1)) (fun _ => ())
    (fun es => ((AnyValueInput.map es).wire, (AnyValueInput.map es).contentCost)) := by
  have hread : (spending limits).Reads (mapContent limits room value) _ _ _ :=
    (uint_reads 1).bind fun _ _ => .require fun _ => map_reads hvalue
  refine hread.congr ?_ ?_
  · rintro ⟨n, es⟩ ⟨-, hn, hes⟩
    obtain rfl : n = 7 := hn
    exact ⟨es, hes, rfl, by rw [wire_eq]; simp [tag, content, contentCost]⟩
  · intro es hes
    exact ⟨(7, es), ⟨by simp, rfl, hes⟩, rfl, by rw [wire_eq]; simp [tag, content, contentCost]⟩

end Values

/-- **The validator accepts a value exactly when it is a tree inside the limits**, and charges its cost. -/
theorem anyValue_reads (room : Nat) : (spending limits).Reads (anyValue limits room) (Fits limits room) wire
    (fun t => (t.wire, t.cost)) := by
  induction room with
  | zero =>
    refine (Effects.reads_fail _ wire fun t => (t.wire, t.cost)).congr ?_ ?_
    · intro t h
      exact h.elim
    · intro t h
      exact h.elim
  | succ room ih =>
    have hread : (spending limits).Reads (anyValue limits (room + 1)) _ _ _ :=
      budgetNode_reads.bind fun _ _ => (captured_reads (anyContent_reads ih)).map fun p => p.2
    refine hread.congr ?_ ?_
    · rintro ⟨_, t⟩ ⟨-, ht⟩
      exact ⟨t, ht, rfl, by simp [cost_eq]⟩
    · intro t ht
      exact ⟨((), t), ⟨trivial, ht⟩, rfl, by simp [cost_eq]⟩

theorem mapValue_reads (room : Nat) : (spending limits).Reads (mapValue limits room)
    (fun es : List KeyValueInput => (AnyValueInput.map es).Fits limits room) (fun es => (AnyValueInput.map es).wire)
    (fun es => ((AnyValueInput.map es).wire, (AnyValueInput.map es).cost)) := by
  cases room with
  | zero =>
    refine (Effects.reads_fail _ (fun es : List KeyValueInput => (AnyValueInput.map es).wire)
      fun _ => ([], 0)).congr ?_ ?_
    · intro es h
      exact h.elim
    · intro es h
      exact h.elim
  | succ room =>
    have hread : (spending limits).Reads (mapValue limits (room + 1)) _ _ _ :=
      budgetNode_reads.bind fun _ _ =>
        (captured_reads (mapContent_reads (anyValue_reads room))).map fun p => p.2
    refine hread.congr ?_ ?_
    · rintro ⟨_, es⟩ ⟨-, hes⟩
      exact ⟨es, hes, rfl, by simp [cost_eq]⟩
    · intro es hes
      exact ⟨((), es), ⟨trivial, hes⟩, rfl, by simp [cost_eq]⟩

end RecordReader

/-! ## The views of a tree -/

/-- The tree that a consumer finds behind the views, level by level. -/
def viewTreeAux : Nat → Bytes → Option AnyValueInput
  | 0, _ => none
  | fuel + 1, encoded => do
    match ← decodeValue encoded with
    | .null => some .null
    | .string s => if h : validUtf8 s = true then some (.string ⟨s, h⟩) else none
    | .bool b => some (.bool b)
    | .int64 n => some (.int64 (Int64.ofInt n))
    | .double bits => some (.double (UInt64.ofNat bits))
    | .bytes b => some (.bytes b)
    | .array encodedValues len => do
      let items ← arrayItems len encodedValues
      let values ← items.mapM (viewTreeAux fuel)
      return .array values
    | .map encodedEntries len => do
      let items ← mapItems len encodedEntries
      let entries ← items.mapM fun e => do
        let value ← viewTreeAux fuel e.2
        if h : validUtf8 e.1 = true then some (⟨e.1, h⟩, value) else none
      return .map entries

/-- Each level takes a byte or more, so the length is enough fuel. -/
def viewTree (encoded : Bytes) : Option AnyValueInput := viewTreeAux encoded.length encoded

namespace AnyValueInput

variable {limits : DecodeLimits} {room : Nat} {es : List KeyValueInput}

theorem KeysFit.stringValid {previous : Option Bytes}
    (h : KeysFit limits previous es) : ∀ e ∈ es, StringValid e.1.1 := by
  induction es generalizing previous with
  | nil => simp
  | cons e es ih =>
    obtain ⟨hkey, hrest⟩ := h
    simp only [List.mem_cons, forall_eq_or_imp]
    exact ⟨⟨hkey.1, e.1.2⟩, ih hrest⟩

def encodedEntries (es : List KeyValueInput) : List (Bytes × Bytes) :=
  es.map fun e => (e.1.1, e.2.wire)

theorem wire_array (vs : List AnyValueInput) :
    (array vs).wire = 6 :: (toBe 4 (vs.map wire).length ++ (vs.map wire).flatten) := by
  rw [wire, List.length_map, List.flatMap_def]

theorem wire_map (es : List KeyValueInput) : (map es).wire = 7 ::
    (toBe 4 (encodedEntries es).length ++ (encodedEntries es).flatMap entryWire) := by
  rw [wire, encodedEntries, List.length_map, List.flatMap_map]
  rfl

variable {t : AnyValueInput}

theorem Fits.isValue (h : t.Fits limits room) : IsValue t.wire := by
  induction room generalizing t with
  | zero => exact h.elim
  | succ room ih =>
    cases t with
    | null | bool | int64 | double =>
      rw [wire]
      first | exact .null | exact .bool | exact .int64 (toBe_length 8 _) | exact .double (toBe_length 8 _)
    | string s =>
      rw [wire]
      exact .string ⟨h.1, s.2⟩
    | bytes b =>
      rw [wire]
      exact .bytes h.1
    | array vs =>
      obtain ⟨-, hlen, -, hvs⟩ := h
      rw [wire_array]
      exact .array (by simpa using hlen) (List.forall_mem_map.mpr fun v hv => ih (hvs v hv))
    | map es =>
      obtain ⟨-, hlen, -, hkeys, hes⟩ := h
      rw [wire_map]
      exact .map (by simpa [encodedEntries] using hlen)
        (List.forall_mem_map.mpr fun e he => hkeys.stringValid e he)
        (List.forall_mem_map.mpr fun e he => ih (hes e he))

theorem toSigned_toNat {w : Nat} (x : BitVec (w + 1)) : toSigned (w + 1) x.toNat = x.toInt := by
  rw [BitVec.toInt_eq_toNat_cond, toSigned]
  have hpow : 2 ^ (w + 1) = 2 * 2 ^ w := Nat.pow_succ'
  have hhalf : x.toNat < 2 ^ w ↔ 2 * x.toNat < 2 ^ (w + 1) := by omega
  simp only [Nat.add_sub_cancel, hhalf]
  split
  · rfl
  · push_cast
    rfl

/-- What the first level of views shows of a tree. -/
def view : AnyValueInput → AnyValue
  | null => .null
  | string s => .string s.1
  | bool b => .bool b
  | int64 n => .int64 n.toInt
  | double bits => .double bits.toNat
  | bytes b => .bytes b
  | array vs => .array (vs.map wire).flatten vs.length
  | map es => .map ((encodedEntries es).flatMap entryWire) es.length

theorem Fits.decodeValue_wire (h : t.Fits limits (room + 1)) : decodeValue t.wire = some t.view := by
  cases t with
  | null =>
    rw [wire]
    rfl
  | bool b =>
    rw [wire]
    cases b <;> rfl
  | int64 n =>
    have hint : toSigned 64 n.toUInt64.toNat = n.toInt := toSigned_toNat n.toBitVec
    rw [wire, decodeValue_int64 (toBe_length 8 _), ofBe_toBe_of_lt _ _ n.toUInt64.toNat_lt, hint, view]
  | double bits => rw [wire, decodeValue_double (toBe_length 8 _), ofBe_toBe_of_lt _ _ bits.toNat_lt, view]
  | string s => rw [wire, decodeValue_string ⟨h.1, s.2⟩, view]
  | bytes b => rw [wire, decodeValue_bytes h.1, view]
  | array vs =>
    obtain ⟨-, hlen, -, -⟩ := h
    rw [wire_array, decodeValue_array (by simpa using hlen), view, List.length_map]
  | map es =>
    obtain ⟨-, hlen, -, -, -⟩ := h
    rw [wire_map, decodeValue_map (by simpa [encodedEntries] using hlen), view, encodedEntries, List.length_map]

theorem Fits.arrayItems_wire {vs : List AnyValueInput} (h : (array vs).Fits limits (room + 1)) :
    arrayItems vs.length (vs.map wire).flatten = some (vs.map wire) := by
  obtain ⟨-, -, -, hvs⟩ := h
  rw [← arrayItems_flatten (List.forall_mem_map.mpr fun v hv => (hvs v hv).isValue), List.length_map]

theorem Fits.mapItems_wire (h : (map es).Fits limits (room + 1)) :
    mapItems es.length ((encodedEntries es).flatMap entryWire) = some (encodedEntries es) := by
  obtain ⟨-, -, -, hkeys, hes⟩ := h
  rw [encodedEntries, ← mapItems_flatMap (List.forall_mem_map.mpr fun e he => hkeys.stringValid e he)
    (List.forall_mem_map.mpr fun e he => (hes e he).isValue), List.length_map]

def items : AnyValueInput → List AnyValueInput
  | array vs => vs
  | map es => es.map Prod.snd
  | _ => []

theorem Fits.item (h : t.Fits limits (room + 1)) : ∀ v ∈ t.items, v.Fits limits room := by
  cases t with
  | array vs => exact h.2.2.2
  | map es => exact List.forall_mem_map.mpr h.2.2.2.2
  | _ => simp [items]

theorem length_wire_lt {v : AnyValueInput} (h : v ∈ t.items) : v.wire.length < t.wire.length := by
  cases t with
  | array vs =>
    rw [wire_array]
    exact length_lt_array (List.mem_map_of_mem h) _
  | map es =>
    obtain ⟨e, he, rfl⟩ := List.mem_map.mp h
    have hmem : (e.1.1, e.2.wire) ∈ encodedEntries es := List.mem_map_of_mem he
    rw [wire_map]
    exact length_lt_map hmem _
  | _ => simp [items] at h

theorem Fits.wire_induction {motive : Nat → AnyValueInput → Prop}
    (step : ∀ fuel room t, t.Fits limits (room + 1) → (∀ v ∈ t.items, motive fuel v) → motive (fuel + 1) t)
    (h : t.Fits limits room) {fuel : Nat} (hfuel : t.wire.length ≤ fuel) : motive fuel t := by
  induction fuel generalizing t room with
  | zero =>
    have := h.isValue.length_pos
    omega
  | succ fuel ih =>
    cases room with
    | zero => exact h.elim
    | succ room =>
      refine step fuel room t h fun v hv => ih (h.item v hv) ?_
      have := length_wire_lt hv
      omega

theorem Fits.viewTreeAux (h : t.Fits limits room) {fuel : Nat} (hfuel : t.wire.length ≤ fuel) :
    viewTreeAux fuel t.wire = some t := by
  refine h.wire_induction (motive := fun fuel t => Proto.viewTreeAux fuel t.wire = some t)
    (fun fuel room t h ih => ?_) hfuel
  rw [Proto.viewTreeAux, h.decodeValue_wire]
  cases t with
  | null | bool | int64 | double | bytes => simp [view]
  | string s => simp [view, s.2]
  | array vs =>
    rw [items] at ih
    simp only [view, Option.bind_eq_bind, Option.bind_some, h.arrayItems_wire]
    rw [mapM_map_of_forall ih, List.map_id']
    rfl
  | map es =>
    have hitems : ∀ e ∈ es, (do
        let value ← Proto.viewTreeAux fuel e.2.wire
        if h : validUtf8 e.1.1 = true then some ((⟨e.1.1, h⟩ : Str), value) else none) = some e := by
      intro e he
      simp [ih e.2 (List.mem_map_of_mem he), e.1.2]
    simp only [view, Option.bind_eq_bind, Option.bind_some, h.mapItems_wire]
    rw [encodedEntries, mapM_map_of_forall hitems, List.map_id']
    rfl

theorem Fits.viewTree (h : t.Fits limits room) : viewTree t.wire = some t :=
  h.viewTreeAux (Nat.le_refl _)

end AnyValueInput

end Scry.Proto
