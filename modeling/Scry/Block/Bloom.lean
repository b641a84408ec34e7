import Scry.Lib.BigEndian
import Scry.Lib.Bitset

/-! # Body bloom

The bit filter over the byte n-grams of the bodies of a block. The two seeded hashes of a gram are
any functions of it, and the size and the number of hashes any values of at least one.
-/

open Scry.Lib

namespace Scry.Block

open List

abbrev HashPair := Bytes → UInt64 × UInt64

structure BloomParams where
  mBits : UInt64
  k : UInt32
  mBits_pos : 0 < mBits
  k_pos : 0 < k

def windows (n : Nat) (bytes : Bytes) : List Bytes :=
  (range (bytes.length + 1 - n)).map fun i => (bytes.drop i).take n

structure BodyBloom where
  ngram : UInt8
  k : UInt32
  mBits : UInt64
  bits : List UInt8
  length_bits : bits.length = (mBits.toNat + 7) / 8

namespace BodyBloom

variable (b : BodyBloom) (h : UInt64 × UInt64)

def positions : List Nat :=
  (range b.k.toNat).map fun i => ((h.1 + UInt64.ofNat i * h.2) % b.mBits).toNat

theorem length_foldl_setBit (bits : List UInt8) (ps : List Nat) : (ps.foldl setBit bits).length = bits.length := by
  induction ps generalizing bits with
  | nil => rfl
  | cons p ps ih => rw [foldl_cons, ih, length_setBit]

def setGram : BodyBloom :=
  { b with
    bits := (b.positions h).foldl setBit b.bits
    length_bits := (length_foldl_setBit _ _).trans b.length_bits }

def testGram : Bool := (b.positions h).all (testBit b.bits)

def containsPattern (hash : HashPair) (b : BodyBloom) (pattern : Bytes) : Bool :=
  if pattern.length < b.ngram.toNat then true
  else (windows b.ngram.toNat pattern).all fun window => b.testGram (hash window)

def magic : Bytes := [0x53, 0x42, 0x4c, 0x4d]

def formatVersion : UInt8 := 1

def headerLen : Nat := 4 + 1 + 1 + 4 + 8

def toBytes : Bytes :=
  magic ++ [formatVersion] ++ [b.ngram] ++ toBe 4 b.k.toNat ++ toBe 8 b.mBits.toNat ++ b.bits

def fromBytes (buf : Bytes) : Option BodyBloom :=
  if buf.length < headerLen ∨ buf.take 4 ≠ magic ∨ buf.getD 4 0 ≠ formatVersion then none
  else
    let ngram := buf.getD 5 0
    let k := UInt32.ofNat (ofBe ((buf.drop 6).take 4))
    let mBits := UInt64.ofNat (ofBe ((buf.drop 10).take 8))
    let expectedBytes := (mBits.toNat + 7) / 8
    if h : expectedBytes ≤ (buf.drop headerLen).length then
      some
        { ngram
          k
          mBits
          bits := (buf.drop headerLen).take expectedBytes
          length_bits := by rw [length_take, Nat.min_eq_left h] }
    else none

end BodyBloom

/-! ## Building -/

/-- `seen` has the first hashes of the grams. -/
structure BodyBloomBuilder where
  ngram : Nat
  seen : List UInt64
  grams : List (UInt64 × UInt64)

namespace BodyBloomBuilder

def new (cfgNgram : Nat) : BodyBloomBuilder := ⟨min (max cfgNgram 1) 255, [], []⟩

def bytesPerDistinctGram : Nat := 40

def usizeMax : Nat := 2 ^ 64 - 1

/-- `saturating_mul` by the bytes of a gram. -/
def gramBytes (grams : Nat) : Nat := min (grams * bytesPerDistinctGram) usizeMax

def addWindows (hash : HashPair) (maxBytes : Nat) :
    BodyBloomBuilder → List Bytes → BodyBloomBuilder × Bool
  | b, [] => (b, true)
  | b, window :: rest =>
    if (hash window).1 ∈ b.seen then addWindows hash maxBytes b rest
    else if maxBytes < gramBytes (b.grams.length + 1) then (b, false)
    else
      addWindows hash maxBytes
        { b with seen := (hash window).1 :: b.seen, grams := b.grams ++ [hash window] } rest

variable (optimalParams : Nat → BloomParams) (b : BodyBloomBuilder) (hash : HashPair)

def addBodyBounded (b : BodyBloomBuilder) (body : Bytes) (maxBytes : Nat) :
    BodyBloomBuilder × Bool :=
  if body.length < b.ngram then (b, true) else addWindows hash maxBytes b (windows b.ngram body)

def addBody (b : BodyBloomBuilder) (body : Bytes) : BodyBloomBuilder :=
  (b.addBodyBounded hash body usizeMax).1

def emptyBloom (params : BloomParams) : BodyBloom where
  ngram := UInt8.ofNat b.ngram
  k := params.k
  mBits := params.mBits
  bits := replicate ((params.mBits.toNat + 7) / 8) 0
  length_bits := length_replicate

def finishBounded (maxBytes : Nat) : Option BodyBloom :=
  let params := optimalParams b.grams.length
  let bitBytes := (params.mBits.toNat + 7) / 8
  if maxBytes < min (gramBytes b.grams.length + bitBytes) usizeMax then none
  else some (b.grams.foldl BodyBloom.setGram (b.emptyBloom params))

theorem finishBounded_usizeMax : b.finishBounded
    optimalParams usizeMax = some (b.grams.foldl BodyBloom.setGram (b.emptyBloom (optimalParams b.grams.length))) :=
  if_neg (Nat.not_lt.mpr (Nat.min_le_right _ _))

/-- `expect` cannot fail: nothing exceeds the largest `usize`. -/
def finish : BodyBloom :=
  (b.finishBounded optimalParams usizeMax).get (by rw [finishBounded_usizeMax, Option.isSome_some])

end BodyBloomBuilder

def BodyBloom.buildFromBodies (hash : HashPair) (optimalParams : Nat → BloomParams)
    (bodies : List Bytes) (cfgNgram : Nat) : BodyBloom :=
  (bodies.foldl (BodyBloomBuilder.addBody hash) (.new cfgNgram)).finish optimalParams

/-! ## Windows -/

theorem mem_windows {n : Nat} {bytes w : Bytes} : w ∈ windows n bytes ↔ w.length = n ∧ w <:+: bytes := by
  constructor
  · intro h
    obtain ⟨i, hi, rfl⟩ := mem_map.mp h
    rw [mem_range] at hi
    refine ⟨by rw [length_take, length_drop]; omega, ?_⟩
    exact (List.take_prefix n _).isInfix.trans (drop_suffix i bytes).isInfix
  · rintro ⟨hlen, before, after, rfl⟩
    refine mem_map.mpr ⟨before.length, ?_, ?_⟩
    · rw [mem_range, length_append, length_append]
      omega
    · rw [append_assoc, drop_left, ← hlen, take_left]

/-! ## Bits -/

namespace BodyBloom

theorem testBit_foldl_setBit {bits : List UInt8} {ps : List Nat} (h : ∀ p ∈ ps, p / 8 < bits.length) (q : Nat) :
    testBit (ps.foldl setBit bits) q = true ↔ q ∈ ps ∨ testBit bits q = true := by
  induction ps generalizing bits with
  | nil => simp
  | cons p ps ih =>
    have hp := h p mem_cons_self
    rw [foldl_cons, ih (fun p' hp' => by rw [length_setBit]; exact h p' (mem_cons_of_mem _ hp')),
      testBit_setBit hp]
    simp only [Bool.or_eq_true, decide_eq_true_eq, mem_cons]
    tauto

theorem div_lt_of_mem_positions {b : BodyBloom} (hm : 0 < b.mBits) {h : UInt64 × UInt64} {p : Nat}
    (hp : p ∈ b.positions h) : p / 8 < b.bits.length := by
  obtain ⟨i, -, rfl⟩ := mem_map.mp hp
  rw [b.length_bits, UInt64.toNat_mod]
  have hpos : 0 < b.mBits.toNat := hm
  have := Nat.mod_lt (h.1 + UInt64.ofNat i * h.2).toNat hpos
  omega

variable (grams : List (UInt64 × UInt64)) (b : BodyBloom)

theorem positions_foldl_setGram
    (h : UInt64 × UInt64) : (grams.foldl setGram b).positions h = b.positions h := by
  induction grams generalizing b with
  | nil => rfl
  | cons g grams ih =>
    rw [foldl_cons, ih]
    rfl

theorem testBit_foldl_setGram (hm : 0 < b.mBits) (q : Nat) : testBit
    (grams.foldl setGram b).bits q = true ↔ (∃ g ∈ grams, q ∈ b.positions g) ∨ testBit b.bits q = true := by
  induction grams generalizing b with
  | nil => simp
  | cons g grams ih =>
    have hset : testBit (b.setGram g).bits q = true ↔ q ∈ b.positions g ∨ testBit b.bits q = true :=
      testBit_foldl_setBit (fun p hp => div_lt_of_mem_positions hm hp) q
    rw [foldl_cons, ih (b.setGram g) hm, hset]
    simp only [mem_cons, exists_eq_or_imp]
    exact or_left_comm.trans or_assoc.symm

/-! ## The file -/

theorem fromBytes_toBytes : fromBytes b.toBytes = some b := by
  obtain ⟨ngram, k, mBits, bits, hlen⟩ := b
  have hk : ofBe (toBe 4 k.toNat) = k.toNat := ofBe_toBe_of_lt 4 _ k.toNat_lt
  have hm := ofBe_toBe_of_lt 8 _ mBits.toNat_lt
  have hheader : (toBytes ⟨ngram, k, mBits, bits, hlen⟩).drop headerLen = bits := by
    unfold toBytes
    exact drop_left' (by simp [magic, headerLen])
  have hkField : ((toBytes ⟨ngram, k, mBits, bits, hlen⟩).drop 6).take 4 = toBe 4 k.toNat := by
    simp only [toBytes, append_assoc]
    exact take_left' (toBe_length 4 _)
  have hmField : ((toBytes ⟨ngram, k, mBits, bits, hlen⟩).drop 10).take 8 =
      toBe 8 mBits.toNat := by
    have hsplit : toBytes ⟨ngram, k, mBits, bits, hlen⟩ =
        (magic ++ [formatVersion] ++ [ngram] ++ toBe 4 k.toNat) ++ (toBe 8 mBits.toNat ++ bits) := by
      simp only [toBytes, append_assoc]
    rw [hsplit, drop_left' (by simp [magic])]
    exact take_left' (toBe_length 8 _)
  have hlong : ¬ (toBytes ⟨ngram, k, mBits, bits, hlen⟩).length < headerLen := by
    simp [toBytes, magic, headerLen]
    omega
  unfold fromBytes
  rw [if_neg (by rintro (h | h | h); exacts [hlong h, h rfl, h rfl])]
  simp only [hkField, hmField, hheader, hk, hm, UInt32.ofNat_toNat, UInt64.ofNat_toNat]
  rw [dif_pos (Nat.le_of_eq hlen.symm)]
  simp only [← hlen, take_length]
  rfl

end BodyBloom

/-! ## Kept grams -/

def FirstOf (hash : HashPair) (grams : List Bytes) (g : Bytes) : Prop :=
  ∃ before after, grams = before ++ g :: after ∧ ∀ g' ∈ before, (hash g').1 ≠ (hash g).1

theorem firstOf_snoc {hash : HashPair} {grams : List Bytes} {w g : Bytes} : FirstOf hash (grams ++ [w]) g ↔ FirstOf
    hash grams g ∨ g = w ∧ ∀ g' ∈ grams, (hash g').1 ≠ (hash w).1 := by
  constructor
  · rintro ⟨before, after, heq, hfirst⟩
    rcases eq_nil_or_concat after with rfl | ⟨after', x, rfl⟩
    · obtain ⟨rfl, hlast⟩ := append_inj' heq rfl
      obtain rfl : w = g := singleton_inj.mp hlast
      exact .inr ⟨rfl, hfirst⟩
    · rw [concat_eq_append, ← cons_append, ← append_assoc] at heq
      exact .inl ⟨before, after', (append_inj' heq rfl).1, hfirst⟩
  · rintro (⟨before, after, rfl, hfirst⟩ | ⟨rfl, hfirst⟩)
    · exact ⟨before, after ++ [w], by simp, hfirst⟩
    · exact ⟨grams, [], rfl, hfirst⟩

namespace BodyBloomBuilder

structure Collected (hash : HashPair) (ws : List Bytes) (b : BodyBloomBuilder) : Prop where
  seen : ∀ x, x ∈ b.seen ↔ ∃ w ∈ ws, (hash w).1 = x
  grams : ∀ g, g ∈ b.grams ↔ ∃ w, FirstOf hash ws w ∧ hash w = g

variable {b : BodyBloomBuilder} {ws : List Bytes} {hash : HashPair}

theorem addWindows_collected (h : Collected hash ws b)
    (more : List Bytes) : Collected hash (ws ++ more) (addWindows hash usizeMax b more).1 ∧
    (addWindows hash usizeMax b more).1.ngram = b.ngram := by
  induction more generalizing ws b with
  | nil => exact ⟨by rw [append_nil]; exact h, rfl⟩
  | cons w more ih =>
    rw [← singleton_append, ← append_assoc, singleton_append]
    unfold addWindows
    by_cases hseen : (hash w).1 ∈ b.seen
    · -- A gram with this first hash came before, so this one is not the first.
      obtain ⟨w', hw', heq⟩ := (h.seen _).mp hseen
      rw [if_pos hseen]
      refine ih ⟨fun x => ?_, fun g => ?_⟩
      · rw [h.seen]
        constructor
        · rintro ⟨v, hv, hx⟩
          exact ⟨v, mem_append_left _ hv, hx⟩
        · rintro ⟨v, hv, hx⟩
          rcases mem_append.mp hv with hv | hv
          · exact ⟨v, hv, hx⟩
          · obtain rfl := mem_singleton.mp hv
            exact ⟨w', hw', heq.trans hx⟩
      · rw [h.grams]
        refine exists_congr fun v => and_congr_left fun _ => ?_
        rw [firstOf_snoc]
        exact ⟨.inl, fun h => h.resolve_right fun ⟨_, hfirst⟩ => hfirst w' hw' heq⟩
    · have hbytes : ¬ usizeMax < gramBytes (b.grams.length + 1) :=
        Nat.not_lt.mpr (Nat.min_le_right _ _)
      rw [if_neg hseen, if_neg hbytes]
      have hfirst : ∀ g' ∈ ws, (hash g').1 ≠ (hash w).1 := by
        intro g' hg' heq
        exact hseen ((h.seen _).mpr ⟨g', hg', heq⟩)
      refine ih ⟨fun x => ?_, fun g => ?_⟩
      · simp only [mem_cons, h.seen, mem_append]
        constructor
        · rintro (rfl | ⟨v, hv, hx⟩)
          · exact ⟨w, .inr (.inl rfl), rfl⟩
          · exact ⟨v, .inl hv, hx⟩
        · rintro ⟨v, hv | rfl | hv, hx⟩
          · exact .inr ⟨v, hv, hx⟩
          · exact .inl hx.symm
          · cases hv
      · simp only [mem_append, mem_singleton, h.grams]
        constructor
        · rintro (⟨v, hv, hg⟩ | rfl)
          · exact ⟨v, firstOf_snoc.mpr (.inl hv), hg⟩
          · exact ⟨w, firstOf_snoc.mpr (.inr ⟨rfl, hfirst⟩), rfl⟩
        · rintro ⟨v, hv, hg⟩
          rcases firstOf_snoc.mp hv with hv | ⟨rfl, -⟩
          · exact .inl ⟨v, hv, hg⟩
          · exact .inr hg.symm

def allGrams (n : Nat) (bodies : List Bytes) : List Bytes := bodies.flatMap (windows n)

theorem windows_of_short {n : Nat} {body : Bytes} (h : body.length < n) : windows n body = [] := by
  rw [windows, Nat.sub_eq_zero_of_le h, range_zero, map_nil]

theorem addBody_collected (h : Collected hash ws b)
    (body : Bytes) : Collected hash (ws ++ windows b.ngram body) (b.addBody hash body) ∧ (b.addBody hash body).ngram =
    b.ngram := by
  unfold addBody addBodyBounded
  by_cases hshort : body.length < b.ngram
  · rw [if_pos hshort, windows_of_short hshort, append_nil]
    exact ⟨h, rfl⟩
  · rw [if_neg hshort]
    exact addWindows_collected h _

theorem addBodies_collected (h : Collected hash ws b)
    (bodies : List Bytes) : Collected hash (ws ++ allGrams b.ngram bodies) (bodies.foldl (addBody hash) b) ∧
    (bodies.foldl (addBody hash) b).ngram = b.ngram := by
  induction bodies generalizing ws b with
  | nil => exact ⟨by rw [allGrams, flatMap_nil, append_nil]; exact h, rfl⟩
  | cons body bodies ih =>
    obtain ⟨hone, hngram⟩ := addBody_collected h body
    obtain ⟨hrest, hngram'⟩ := ih hone
    rw [hngram, append_assoc] at hrest
    exact ⟨hrest, hngram'.trans hngram⟩

theorem new_collected (hash : HashPair) (cfgNgram : Nat) : Collected hash [] (new cfgNgram) := by
  refine ⟨fun x => ⟨nofun, fun ⟨_, h, _⟩ => by cases h⟩, fun g => ⟨nofun, ?_⟩⟩
  rintro ⟨w, ⟨before, after, heq, -⟩, -⟩
  simp at heq

variable (optimalParams : Nat → BloomParams)

theorem finish_eq (b : BodyBloomBuilder) : b.finish optimalParams = b.grams.foldl
    BodyBloom.setGram (b.emptyBloom (optimalParams b.grams.length)) := by
  simp only [finish, finishBounded_usizeMax, Option.get_some]

theorem testBit_finish (b : BodyBloomBuilder) (q : Nat) : testBit
    (b.finish optimalParams).bits q = true ↔ ∃ g ∈ b.grams, q ∈ (b.finish optimalParams).positions g := by
  have hempty : testBit (b.emptyBloom (optimalParams b.grams.length)).bits q = false :=
    testBit_replicate _ q
  rw [finish_eq, BodyBloom.testBit_foldl_setGram _ _ (optimalParams b.grams.length).mBits_pos, hempty]
  simp only [BodyBloom.positions_foldl_setGram, Bool.false_eq_true, or_false]

theorem ngram_finish (b : BodyBloomBuilder) :
    (b.finish optimalParams).ngram = UInt8.ofNat b.ngram := by
  have hfold : ∀ (grams : List (UInt64 × UInt64)) (e : BodyBloom),
      (grams.foldl BodyBloom.setGram e).ngram = e.ngram := by
    intro grams
    induction grams with
    | nil => exact fun e => rfl
    | cons g grams ih => exact fun e => ih (e.setGram g)
  rw [finish_eq, hfold]
  rfl

end BodyBloomBuilder

namespace BodyBloom

section
variable (hash : HashPair) (optimalParams : Nat → BloomParams) (bodies : List Bytes) (cfgNgram : Nat)

def gramWidth (cfgNgram : Nat) : Nat := min (max cfgNgram 1) 255

/-- Every position of every gram is one of a kept gram's. -/
def Covered : Prop :=
  ∀ g ∈ BodyBloomBuilder.allGrams (gramWidth cfgNgram) bodies,
    ∀ pos ∈ (buildFromBodies hash optimalParams bodies cfgNgram).positions (hash g),
      ∃ g', FirstOf hash (BodyBloomBuilder.allGrams (gramWidth cfgNgram) bodies) g' ∧
        pos ∈ (buildFromBodies hash optimalParams bodies cfgNgram).positions (hash g')

variable {hash optimalParams bodies cfgNgram}

theorem ngram_build : (buildFromBodies hash optimalParams bodies cfgNgram).ngram.toNat = gramWidth cfgNgram := by
  obtain ⟨-, hngram⟩ :=
    BodyBloomBuilder.addBodies_collected (BodyBloomBuilder.new_collected hash cfgNgram) bodies
  rw [buildFromBodies, BodyBloomBuilder.ngram_finish, hngram]
  change (UInt8.ofNat (gramWidth cfgNgram)).toNat = _
  rw [UInt8.toNat_ofNat', Nat.mod_eq_of_lt]
  exact Nat.lt_succ_of_le (Nat.min_le_right _ _)

theorem testGram_build (h : UInt64 × UInt64) : (buildFromBodies hash optimalParams bodies cfgNgram).testGram h = true
    ↔ ∀ pos ∈ (buildFromBodies hash optimalParams bodies cfgNgram).positions h, ∃ g, FirstOf hash
    (BodyBloomBuilder.allGrams (gramWidth cfgNgram) bodies) g ∧ pos ∈
    (buildFromBodies hash optimalParams bodies cfgNgram).positions (hash g) := by
  obtain ⟨hcoll, -⟩ :=
    BodyBloomBuilder.addBodies_collected (BodyBloomBuilder.new_collected hash cfgNgram) bodies
  rw [testGram, all_eq_true]
  refine forall₂_congr fun pos _ => ?_
  rw [buildFromBodies, BodyBloomBuilder.testBit_finish]
  constructor
  · rintro ⟨g, hg, hpos⟩
    obtain ⟨w, hfirst, rfl⟩ := (hcoll.grams g).mp hg
    exact ⟨w, hfirst, hpos⟩
  · rintro ⟨w, hfirst, hpos⟩
    exact ⟨hash w, (hcoll.grams _).mpr ⟨w, hfirst, rfl⟩, hpos⟩

theorem containsPattern_eq_true {b : BodyBloom} {pattern : Bytes} : b.containsPattern hash pattern = true ↔ ∀ w ∈
    windows b.ngram.toNat pattern, b.testGram (hash w) = true := by
  unfold containsPattern
  by_cases hshort : pattern.length < b.ngram.toNat
  · rw [if_pos hshort, BodyBloomBuilder.windows_of_short hshort]
    simp
  · rw [if_neg hshort, all_eq_true]

end

end BodyBloom

end Scry.Block
