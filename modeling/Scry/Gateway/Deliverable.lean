import Scry.Gateway.PromWrite

/-! # Which remote writes are delivered

The gateway answers a remote write as soon as it is mapped; the sink drops a batch that `metrics_v2::validate`
does not accept.
-/

open Scry.Lib Scry.Proto Scry.Proto.MetricsV2

namespace Scry.Gateway

open List MetricKind

/-! ## Outcomes -/

section Outcomes
variable {α β : Type}

def NoPanic (x : Mapped α) : Prop := x ≠ .error .panic

theorem noPanic_ok (a : α) : NoPanic (.ok a) := nofun

theorem noPanic_err (message : String) : NoPanic (err message : Mapped α) := nofun

variable {f : α → Mapped β}

theorem NoPanic.bind {x : Mapped α} (hx : NoPanic x) (hf : ∀ a, NoPanic (f a)) : NoPanic (x >>= f) := by
  intro h
  rcases except_bind_error.mp h with h | ⟨a, -, h⟩
  · exact hx h
  · exact hf a h

theorem NoPanic.ite {p : Prop} [Decidable p] {x y : Mapped α} (hx : NoPanic x) (hy : NoPanic y) :
    NoPanic (if p then x else y) := by
  split
  · exact hx
  · exact hy

theorem err_ne_ok {message : String} {a : α} : (err message : Mapped α) ≠ .ok a := nofun

theorem pure_ok {a b : α} : (pure a : Mapped α) = .ok b ↔ a = b := by
  simp [pure, Except.pure]

variable {xs : List α}

theorem noPanic_collect (h : ∀ x ∈ xs, NoPanic (f x)) : NoPanic (collect f xs) := by
  induction xs with
  | nil => exact noPanic_ok []
  | cons x xs ih =>
    simp only [mem_cons, forall_eq_or_imp] at h
    exact h.1.bind fun y => (ih h.2).bind fun ys => noPanic_ok (y :: ys)

variable {ys : List β}

theorem collect_length (h : collect f xs = .ok ys) : ys.length = xs.length := by
  induction xs generalizing ys with
  | nil =>
    cases h
    rfl
  | cons x xs ih =>
    simp only [collect, except_bind_ok, pure_ok] at h
    obtain ⟨y, -, ys', hys, rfl⟩ := h
    simp [ih hys]

theorem collect_forall {P : β → Prop} {Q : α → Prop} (h : collect f xs = .ok ys)
    (hf : ∀ x y, f x = .ok y → (P y ↔ Q x)) : (∀ y ∈ ys, P y) ↔ ∀ x ∈ xs, Q x := by
  induction xs generalizing ys with
  | nil =>
    cases h
    simp
  | cons x xs ih =>
    simp only [collect, except_bind_ok, pure_ok] at h
    obtain ⟨y, hy, ys', hys, rfl⟩ := h
    simp only [mem_cons, forall_eq_or_imp, hf x y hy, ih hys]

end Outcomes

/-! ## Times -/

variable {t : UInt64} {v : Int64}

theorem ms_ok (h : ms v = .ok t) : t.toNat = v.toInt.toNat * 1000000 := by
  unfold ms at h
  split at h
  · exact absurd h err_ne_ok
  split at h
  next hneg hfits =>
    cases h
    rw [UInt64.toNat_ofNat', Nat.mod_eq_of_lt (by omega)]
  · exact absurd h err_ne_ok

theorem ms_nonneg (h : ms v = .ok t) : 0 ≤ v.toInt := by
  unfold ms at h
  split at h
  · exact absurd h err_ne_ok
  · omega

theorem ms_eq_zero (h : ms v = .ok t) : t = 0 ↔ v = 0 := by
  have ht := ms_ok h
  have hv := ms_nonneg h
  rw [← UInt64.toNat_inj, ← Int64.toInt_inj, ht]
  simp only [UInt64.toNat_zero, Int64.toInt_zero]
  omega

theorem startNano_fits {start ts : Int64} {start' ts' : UInt64} (hs : startNano start = .ok start')
    (ht : ms ts = .ok ts') : (start' = 0 ∨ ¬ ts' < start') ↔ (start = 0 ∨ start ≤ ts) := by
  unfold startNano at hs
  split at hs
  next hzero =>
    cases hs
    simp [hzero]
  next hzero =>
    have hnonneg := ms_nonneg ht
    rw [ms_eq_zero hs, UInt64.lt_iff_toNat_lt, ms_ok hs, ms_ok ht, Int64.le_iff_toInt_le]
    have := ms_nonneg hs
    constructor
    · rintro (h | h)
      · exact .inl h
      · right; omega
    · rintro (h | h)
      · exact .inl h
      · right; omega

theorem noPanic_ms (v : Int64) : NoPanic (ms v) :=
  .ite (noPanic_err _) (.ite (noPanic_ok _) (noPanic_err _))

theorem noPanic_startNano (v : Int64) : NoPanic (startNano v) := .ite (noPanic_ok _) (noPanic_ms v)

/-! ## Sparse buckets -/

theorem noPanic_i32 (n : Int) (message : String) : NoPanic (i32 n message) :=
  .ite (noPanic_ok _) (noPanic_err _)

theorem noPanic_spanIndices (start : Int) (j count : Nat) : NoPanic (spanIndices start j count) := by
  induction count generalizing j with
  | zero => exact noPanic_ok []
  | succ count ih =>
    exact (noPanic_i32 _ _).bind fun _ => (noPanic_i32 _ _).bind fun _ =>
      (ih (j + 1)).bind fun _ => noPanic_ok _

theorem noPanic_spanStart (previousEnd : Option Int) (s : BucketSpan) : NoPanic (spanStart previousEnd s) := by
  cases previousEnd with
  | none => exact noPanic_ok _
  | some e => exact noPanic_i32 _ _

theorem noPanic_bucketIndices (previousEnd : Option Int) (spans : List BucketSpan) :
    NoPanic (bucketIndices previousEnd spans) := by
  induction spans generalizing previousEnd with
  | nil => exact noPanic_ok []
  | cons s rest ih =>
    exact (noPanic_spanStart _ _).bind fun _ => (noPanic_spanIndices _ _ _).bind fun _ =>
      (noPanic_i32 _ _).bind fun _ => (noPanic_i32 _ _).bind fun _ => (ih _).bind fun _ => noPanic_ok _

theorem noPanic_bucketGaps (indices : List Int) : NoPanic (bucketGaps indices) := by
  fun_induction bucketGaps indices with
  | case1 a b rest ih => exact (noPanic_i32 _ _).bind fun _ => ih.bind fun _ => noPanic_ok _
  | case2 => exact noPanic_ok []

theorem noPanic_deltaCounts (current : Int) (deltas : List Int64) : NoPanic (deltaCounts current deltas) := by
  induction deltas generalizing current with
  | nil => exact noPanic_ok []
  | cons d rest ih =>
    exact .ite (noPanic_err _) (.ite (noPanic_err _) ((ih _).bind fun _ => noPanic_ok _))

theorem noPanic_sparse (spans : List BucketSpan) (deltas : List Int64) (counts : List Binary64)
    (integer : Bool) : NoPanic (sparse spans deltas counts integer) := by
  refine .ite (noPanic_err _) (.ite (noPanic_err _) (.ite (noPanic_err _) ?_))
  have hvalues : NoPanic (bucketValues deltas counts integer) :=
    .ite (noPanic_deltaCounts 0 deltas) (noPanic_ok _)
  exact (noPanic_bucketIndices _ _).bind fun _ => (noPanic_bucketGaps _).bind fun _ =>
    hvalues.bind fun _ => noPanic_ok _

def runningSums (c : Int) : List Int → List Int
  | [] => []
  | d :: rest => (c + d) :: runningSums (c + d) rest

@[simp] theorem length_runningSums (c : Int) (ds : List Int) : (runningSums c ds).length = ds.length := by
  induction ds generalizing c with
  | nil => rfl
  | cons d rest ih => simp [runningSums, ih]

/-- Where the buckets stand: each span counts from the end of the one before. -/
def spanBuckets (stop : Int) : List BucketSpan → List Int
  | [] => []
  | s :: rest => (range s.length.toNat).map (fun j : Nat => stop + s.offset.toInt + j) ++
      spanBuckets (stop + s.offset.toInt + s.length.toNat) rest

def integerCount (n : Int) : MetricCountV2 := .integerCountV2 1 (UInt64.ofNat n.toNat)

variable {indices : List Int} {spans : List BucketSpan} {deltas : List Int64} {ds : List MetricDescriptorV2}

theorem i32_ok {n m : Int} {message : String} (h : i32 n message = .ok m) : n = m ∧ -2 ^ 31 ≤ m ∧ m < 2 ^ 31 := by
  unfold i32 at h
  split at h
  · cases h
    exact ⟨rfl, ‹_›⟩
  · exact absurd h err_ne_ok

theorem spanIndices_ok {start : Int} {j count : Nat} (h : spanIndices start j count = .ok indices) :
    indices = (range count).map (fun k => start + (j + k : Nat)) ∧ ∀ i ∈ indices, -2 ^ 31 ≤ i ∧ i < 2 ^ 31 := by
  induction count generalizing j indices with
  | zero =>
    cases h
    simp
  | succ count ih =>
    simp only [spanIndices, except_bind_ok, pure_ok] at h
    obtain ⟨j', hj, index, hindex, rest, hrest, rfl⟩ := h
    obtain ⟨rfl, -⟩ := i32_ok hj
    obtain ⟨rfl, hbound⟩ := i32_ok hindex
    obtain ⟨hrest, hbounds⟩ := ih hrest
    refine ⟨?_, forall_mem_cons.mpr ⟨hbound, hbounds⟩⟩
    simp [hrest, range_succ_eq_map, Function.comp_def, Nat.add_assoc, Nat.add_comm 1]

theorem bucketIndices_ok {previousEnd : Option Int} (h : bucketIndices previousEnd spans = .ok indices) :
    indices = spanBuckets (previousEnd.getD 0) spans ∧ ∀ i ∈ indices, -2 ^ 31 ≤ i ∧ i < 2 ^ 31 := by
  induction spans generalizing previousEnd indices with
  | nil =>
    cases h
    exact ⟨rfl, forall_mem_nil _⟩
  | cons s rest ih =>
    simp only [bucketIndices, except_bind_ok, pure_ok] at h
    obtain ⟨start, hstart, own, hown, length, hlen, stop, hstop, later, hlater, rfl⟩ := h
    have hstart : previousEnd.getD 0 + s.offset.toInt = start := by
      cases previousEnd with
      | none => simpa [spanStart] using hstart
      | some e => exact (i32_ok hstart).1
    obtain ⟨rfl, -⟩ := i32_ok hlen
    obtain ⟨rfl, -⟩ := i32_ok hstop
    obtain ⟨rfl, hown⟩ := spanIndices_ok hown
    obtain ⟨rfl, hlater⟩ := ih hlater
    refine ⟨?_, forall_mem_append.mpr ⟨hown, hlater⟩⟩
    simp [spanBuckets, hstart]

theorem length_spanBuckets (stop : Int) (spans : List BucketSpan) :
    (spanBuckets stop spans).length = (spans.map fun s => s.length.toNat).sum := by
  induction spans generalizing stop with
  | nil => rfl
  | cons s rest ih => simp [spanBuckets, ih]

theorem bucketGaps_ok {gaps : List Int32} (h : bucketGaps indices = .ok gaps) :
    runningSums (indices.head?.getD 0) (gaps.map Int32.toInt) = indices.tail := by
  fun_induction bucketGaps indices generalizing gaps with
  | case1 a b rest ih =>
    simp only [except_bind_ok, pure_ok] at h
    obtain ⟨gap, hgap, gaps', hgaps, rfl⟩ := h
    obtain ⟨rfl, hlow, hhigh⟩ := i32_ok hgap
    have hsum : a + (Int32.ofInt (b - a)).toInt = b := by
      rw [Int32.toInt_ofInt_of_le hlow hhigh]
      omega
    have hrest := ih hgaps
    simp only [head?_cons, Option.getD_some, tail_cons, map_cons, runningSums, hsum] at hrest ⊢
    rw [hrest]
  | case2 indices hshort =>
    cases h
    cases indices with
    | nil => rfl
    | cons a rest => cases rest with
      | nil => rfl
      | cons b rest => exact absurd rfl (hshort a b rest)

theorem deltaCounts_ok {current : Int} {counts : List MetricCountV2} (h : deltaCounts current deltas = .ok counts) :
    counts = (runningSums current (deltas.map Int64.toInt)).map integerCount ∧
      ∀ n ∈ runningSums current (deltas.map Int64.toInt), 0 ≤ n ∧ n < 2 ^ 64 := by
  induction deltas generalizing current counts with
  | nil =>
    cases h
    exact ⟨rfl, forall_mem_nil _⟩
  | cons d rest ih =>
    simp only [deltaCounts] at h
    split at h
    · exact absurd h err_ne_ok
    split at h
    · exact absurd h err_ne_ok
    simp only [except_bind_ok, pure_ok] at h
    obtain ⟨counts', hcounts, rfl⟩ := h
    obtain ⟨rfl, hrange⟩ := ih hcounts
    exact ⟨rfl, forall_mem_cons.mpr ⟨by omega, hrange⟩⟩

variable {counts : List Binary64} {integer : Bool} {b : SparseBucketsV2}

theorem sparse_ok
    (h : sparse spans deltas counts integer = .ok b) : ∃ indices, bucketIndices none spans = .ok indices ∧
      bucketGaps indices = .ok b.deltas ∧ bucketValues deltas counts integer = .ok b.counts ∧
      b.offset = Int32.ofInt (indices.head?.getD 0) ∧ indices.length = b.counts.length ∧
      b.counts.length = deltas.length + counts.length := by
  simp only [sparse] at h
  split at h
  · exact absurd h err_ne_ok
  split at h
  · exact absurd h err_ne_ok
  split at h
  · exact absurd h err_ne_ok
  next hlens hmixed =>
    simp only [except_bind_ok, pure_ok] at h
    obtain ⟨indices, hindices, gaps, hgaps, values, hvalues, rfl⟩ := h
    have hlen : indices.length = (spans.map fun s => s.length.toNat).sum := by
      rw [(bucketIndices_ok hindices).1, length_spanBuckets]
    refine ⟨indices, hindices, hgaps, hvalues, rfl, ?_⟩
    cases integer with
    | true =>
      simp at hlens hmixed
      simp [(deltaCounts_ok hvalues).1, hlen, hlens, hmixed]
    | false =>
      cases hvalues
      simp at hlens hmixed
      simp [hlen, hlens, hmixed]

theorem sparse_lengths
    (h : sparse spans deltas counts integer = .ok b) :
    b.counts.length = deltas.length + counts.length ∧ b.deltas.length = b.counts.length - 1 := by
  obtain ⟨indices, -, hgaps, -, -, hlen, hcounts⟩ := sparse_ok h
  have hgap := congrArg length (bucketGaps_ok hgaps)
  simp only [length_runningSums, length_map, length_tail, hlen] at hgap
  exact ⟨hcounts, hgap⟩

/-- The `(index, count)` list of the Prometheus encoding. -/
def prometheusBuckets (spans : List BucketSpan) (deltas : List Int64) : List (Int × Int) :=
  (spanBuckets 0 spans).zip (runningSums 0 (deltas.map Int64.toInt))

/-- `b` has these buckets, if `indices` is what its offset and its deltas are read as. -/
structure Describes (b : SparseBucketsV2) (indices : List Int) (buckets : List (Int × Int)) : Prop where
  indices : buckets.map Prod.fst = indices
  counts : b.counts = buckets.map fun p => integerCount p.2
  range : ∀ p ∈ buckets, 0 ≤ p.2 ∧ p.2 < 2 ^ 64

/-- As `addBuckets` counts: each delta leads to the bucket of its count. -/
def validatorIndices (b : SparseBucketsV2) : List Int := runningSums b.offset.toInt (b.deltas.map Int32.toInt)

/-- Right but for the rule: the offset is the first bucket, and each delta leads to the next one. -/
theorem sparse_describes_iff {counts : List Binary64} {b : SparseBucketsV2}
    (h : sparse spans deltas counts true = .ok b) :
    (Describes b (validatorIndices b) (prometheusBuckets spans deltas) ↔ deltas = []) ∧
    Describes b ((b.offset.toInt :: validatorIndices b).take b.counts.length) (prometheusBuckets spans deltas) := by
  obtain ⟨hcounts, hdeltas⟩ := sparse_lengths h
  obtain ⟨indices, hindices, hgaps, hvalues, hoffset, hlen, -⟩ := sparse_ok h
  obtain ⟨hspans, hbounds⟩ := bucketIndices_ok hindices
  obtain ⟨hvalues, hrange⟩ := deltaCounts_ok hvalues
  have hsame : (spanBuckets 0 spans).length = (runningSums 0 (deltas.map Int64.toInt)).length := by
    have hvalues := congrArg length hvalues
    rw [hspans, hvalues, length_map] at hlen
    exact hlen
  have hfst : (prometheusBuckets spans deltas).map Prod.fst = indices :=
    (map_fst_zip hsame.le).trans hspans.symm
  have hsnd : (prometheusBuckets spans deltas).map Prod.snd = runningSums 0 (deltas.map Int64.toInt) :=
    map_snd_zip hsame.ge
  have hread : (b.offset.toInt :: validatorIndices b).take b.counts.length = indices := by
    rw [← hlen]
    cases indices with
    | nil => rfl
    | cons i rest =>
      have hi := hbounds i mem_cons_self
      have hrest := bucketGaps_ok hgaps
      rw [head?_cons, Option.getD_some] at hoffset hrest
      rw [validatorIndices, hoffset, Int32.toInt_ofInt_of_le hi.1 hi.2, hrest, tail_cons, take_length]
  have hright : Describes b ((b.offset.toInt :: validatorIndices b).take b.counts.length)
      (prometheusBuckets spans deltas) := by
    refine ⟨hfst.trans hread.symm, ?_, fun p hp => hrange p.2 (hsnd ▸ mem_map_of_mem hp)⟩
    rw [hvalues, ← hsnd, map_map]
    rfl
  refine ⟨⟨fun hd => ?_, fun hnone => ⟨?_, hright.counts, hright.range⟩⟩, hright⟩
  · have hread := congrArg length (hfst.symm.trans hd.indices)
    simp only [validatorIndices, length_runningSums, length_map] at hread
    apply length_eq_zero_iff.mp
    omega
  · subst hnone
    have hzero : b.counts.length = 0 := by
      rw [hvalues]
      rfl
    have hgap : b.deltas = [] := length_eq_zero_iff.mp (by omega)
    have hindex : indices = [] := length_eq_zero_iff.mp (by omega)
    rw [hfst, hindex, validatorIndices, hgap]
    rfl

theorem sparse_describes_iff_empty : sparse [] [] [] true = .ok ⟨0, [], []⟩ ∧
    Describes ⟨0, [], []⟩ (validatorIndices ⟨0, [], []⟩) (prometheusBuckets [] []) :=
  ⟨rfl, (sparse_describes_iff (rfl : sparse [] [] [] true = .ok ⟨0, [], []⟩)).1.mpr rfl⟩

/-- One span of one bucket with the count 1. -/
theorem sparse_bucket_misread : sparse [⟨3, 1⟩] [1] [] true = .ok ⟨3, [], [integerCount 1]⟩ ∧
    prometheusBuckets [⟨3, 1⟩] [1] = [(3, 1)] ∧
    ¬ Describes ⟨3, [], [integerCount 1]⟩ (validatorIndices ⟨3, [], [integerCount 1]⟩) [(3, 1)] :=
  ⟨by decide, by decide, fun h => absurd h.indices (by decide)⟩

theorem addSide_sparse
    {total total' : CountValue} (h : sparse spans deltas counts integer = .ok b) :
    addSide total b = .ok total' ↔ (deltas = [] ∧ counts = []) ∧ total = total' := by
  obtain ⟨hcounts, hdeltas⟩ := sparse_lengths h
  by_cases hempty : deltas = [] ∧ counts = []
  · obtain ⟨rfl, rfl⟩ := hempty
    have hnone : b.counts = [] := length_eq_zero_iff.mp (by simpa using hcounts)
    have hgaps : b.deltas = [] := length_eq_zero_iff.mp (by simpa [hnone] using hdeltas)
    simp [addSide, hnone, hgaps, addBuckets]
  · have hsome : b.deltas.length ≠ b.counts.length := by
      have : deltas.length + counts.length ≠ 0 := by simpa using hempty
      omega
    refine iff_of_false ?_ fun h => hempty h.1
    rw [addSide, if_pos hsome]
    nofun

/-! ## Points -/

structure ExemplarDeliverable (timestamp : Int64) (e : MetricExemplarV2) : Prop where
  lengths : ¬ LabelsTooLong e.filteredAttrs
  timed : e.tsUnixNano ≠ 0
  before : e.tsUnixNano.toNat ≤ timestamp.toInt.toNat * 1000000
  ids : e.traceId.any (· ≠ 0) = e.spanId.any (· ≠ 0)

structure PointDeliverable (exemplars : List MetricExemplarV2) (start timestamp : Int64) : Prop where
  timed : timestamp ≠ 0
  start : start = 0 ∨ start ≤ timestamp
  exemplarCount : exemplars.length ≤ 65535
  exemplars : ∀ e ∈ exemplars, ExemplarDeliverable timestamp e

/-- No buckets: with one or more, the gaps are one less than the counts. -/
structure HistogramDeliverable (h : Histogram) : Prop where
  sum : h.sum.isFinite = true
  zeroThreshold : h.zeroThreshold.isFinite = true ∧ h.zeroThreshold.lt .zero = false
  counts : ∃ count zero expected total, h.count = some count ∧ h.zeroCount = some zero ∧
    countValue count.metric = .ok expected ∧ countValue zero.metric = .ok total ∧
      total.matchesCount expected = true
  noPositive : h.positiveDeltas = [] ∧ h.positiveCounts = []
  noNegative : h.negativeDeltas = [] ∧ h.negativeCounts = []
  customValues : increasing h.customValues = .ok ()

namespace Series

structure Deliverable (r : Series) : Prop where
  name : r.name.val.length ≤ 65535
  help : r.help.val.length ≤ 65535
  unit : r.unit.val.length ≤ 65535
  attrs : ¬ LabelsTooLong r.attrs
  samples : ∀ s ∈ r.samples, (kindOf r.type).1 ≠ exponentialHistogram ∧
    PointDeliverable r.exemplars s.startTimestamp s.timestamp
  histograms : ∀ h ∈ r.histograms, (kindOf r.type).1 = exponentialHistogram ∧
    HistogramDeliverable h ∧ PointDeliverable r.exemplars h.startTimestamp h.timestamp

end Series

section Points
variable {ds : List MetricDescriptorV2} {id : UInt32} {exemplars : List MetricExemplarV2}
  {p : MetricPointV2}

theorem validateExemplar_ok {timestamp : Int64} {ts : UInt64} {e : MetricExemplarV2} (hts : ms timestamp = .ok ts) :
    ¬ LabelsTooLong e.filteredAttrs ∧ validateExemplar ts e = .ok () ↔ ExemplarDeliverable timestamp e := by
  simp only [validateExemplar, except_unit_bind_ok, refuse_ok, not_or, not_not, UInt64.lt_iff_toNat_lt,
    ms_ok hts, Nat.not_lt]
  exact ⟨fun ⟨hlens, ⟨htimed, hbefore⟩, hids⟩ => ⟨hlens, htimed, hbefore, hids⟩,
    fun ⟨hlens, htimed, hbefore, hids⟩ => ⟨hlens, ⟨htimed, hbefore⟩, hids⟩⟩

variable {d : MetricDescriptorV2}

theorem point_ok {tag : UInt8} {start timestamp : Int64} {start' ts : UInt64}
    (hfields : fields p = ⟨tag, id, start', ts, 0, [], exemplars⟩) (hts : ms timestamp = .ok ts)
    (hstart : startNano start = .ok start') (hd : getDescriptor ds id = some d) : pointLengths p = .ok () ∧
    validatePoint ds p = .ok () ↔ (∃ kind, validateKind p = .ok kind ∧ KindFits d kind) ∧ PointDeliverable exemplars
    start timestamp := by
  have hnone : ¬ LabelsTooLong [] := by decide
  have hlook : getDescriptor ds (fields p).descriptorId = some d := by rw [hfields, hd]
  rw [pointLengths_ok, validatePoint_ok hlook, hfields]
  simp only [startNano_fits hstart hts, Ne, ms_eq_zero hts]
  constructor
  · rintro ⟨⟨-, hcnt, hlens⟩, hkind, htime, hbefore, hexs⟩
    exact ⟨hkind, htime, hbefore, hcnt, fun e he => (validateExemplar_ok hts).mp ⟨hlens e he, hexs e he⟩⟩
  · rintro ⟨hkind, hpoint⟩
    have hexs := fun e he => (validateExemplar_ok hts).mpr (hpoint.exemplars e he)
    exact ⟨⟨hnone, hpoint.exemplarCount, fun e he => (hexs e he).1⟩, hkind, hpoint.timed,
      hpoint.start, fun e he => (hexs e he).2⟩

theorem samplePoint_ok {s : Sample} (h : samplePoint id exemplars s = .ok p)
    (hd : getDescriptor ds id = some d) : pointLengths p = .ok () ∧ validatePoint ds p = .ok () ↔
    (d.metricKind = gauge ∨ d.metricKind = sum) ∧ PointDeliverable exemplars s.startTimestamp
    s.timestamp := by
  simp only [samplePoint, except_bind_ok, pure_ok] at h
  obtain ⟨start, hstart, ts, hts, rfl⟩ := h
  rw [point_ok rfl hts hstart hd]
  simp [validateKind, KindFits]

variable {h : Histogram}

section

variable (hp : histogramPoint id exemplars h = .ok p)
include hp

theorem histogramPoint_inv : ∃ count zero negative
    positive start ts, h.count = some count ∧ h.zeroCount = some zero ∧ sparse h.negativeSpans h.negativeDeltas
    h.negativeCounts count.isInt = .ok negative ∧ sparse h.positiveSpans h.positiveDeltas h.positiveCounts count.isInt
    = .ok positive ∧ startNano h.startTimestamp = .ok start ∧ ms h.timestamp = .ok ts ∧
    (0 ≤ h.resetHint.toInt ∧ h.resetHint.toInt ≤ 3) ∧ p = .exponentialHistogramPointV2
    (exponentialPoint id exemplars h count zero negative positive start ts) := by
  unfold histogramPoint at hp
  split at hp
  · exact absurd hp err_ne_ok
  · exact absurd hp err_ne_ok
  next count zero hcnt hzero =>
  split at hp
  · exact absurd hp err_ne_ok
  obtain ⟨negative, hneg, hp⟩ := except_bind_ok.mp hp
  obtain ⟨positive, hpos, hp⟩ := except_bind_ok.mp hp
  obtain ⟨start, hstart, hp⟩ := except_bind_ok.mp hp
  obtain ⟨ts, hts, hp⟩ := except_bind_ok.mp hp
  split at hp
  next hreset =>
    exact ⟨count, zero, negative, positive, start, ts, hcnt, hzero, hneg, hpos, hstart,
      hts, hreset, (pure_ok.mp hp).symm⟩
  · exact absurd hp err_ne_ok

theorem validateKind_histogram {kind : UInt8} :
    validateKind p = .ok kind ↔ HistogramDeliverable h ∧ kind = exponentialHistogram := by
  obtain ⟨count, zero, negative, positive, start, ts, hcnt, hzero, hnegative, hpositive, -, -,
    hreset, rfl⟩ := histogramPoint_inv hp
  have hhint : ¬ 3 < UInt8.ofNat h.resetHint.toInt.toNat := by
    rw [UInt8.lt_iff_toNat_lt, UInt8.toNat_ofNat', Nat.mod_eq_of_lt (by omega)]
    have : (3 : UInt8).toNat = 3 := rfl
    omega
  simp only [validateKind, exponentialPoint, except_unit_bind_ok, presence_one, presence_zero, refuse_ok,
    hhint, false_or, true_and]
  simp only [except_bind_ok, addSide_sparse hpositive, addSide_sparse hnegative]
  constructor
  · rintro ⟨hsum, hthreshold, expected, hexp, total, htotal, _, ⟨hpos, rfl⟩, _, ⟨hneg, rfl⟩,
      _, hmatches, _, hcustom, hkind⟩
    rw [not_or, Bool.not_eq_false, Bool.not_eq_true] at hthreshold
    rw [refuse_ok, Bool.not_eq_false] at hmatches
    cases hkind
    exact ⟨⟨hsum, hthreshold, ⟨count, zero, expected, total, hcnt, hzero, hexp, htotal, hmatches⟩, hpos, hneg,
      hcustom⟩, rfl⟩
  · rintro ⟨hh, rfl⟩
    obtain ⟨_, _, expected, total, hcnt', hzero', hexp, htotal, hmatches⟩ := hh.counts
    cases hcnt.symm.trans hcnt'
    cases hzero.symm.trans hzero'
    refine ⟨hh.sum, ?_, expected, hexp, total, htotal, total, ⟨hh.noPositive, rfl⟩, total,
      ⟨hh.noNegative, rfl⟩, (), ?_, (), hh.customValues, rfl⟩
    · rw [not_or, Bool.not_eq_false, Bool.not_eq_true]
      exact hh.zeroThreshold
    · rw [refuse_ok, Bool.not_eq_false]
      exact hmatches

theorem histogramPoint_ok
    (hd : getDescriptor ds id = some d) : pointLengths p = .ok () ∧ validatePoint ds p = .ok () ↔ d.metricKind =
    exponentialHistogram ∧ HistogramDeliverable h ∧ PointDeliverable exemplars h.startTimestamp
    h.timestamp := by
  obtain ⟨_, _, _, _, start, ts, -, -, -, -, hstart, hts, -, rfl⟩ := histogramPoint_inv hp
  rw [point_ok rfl hts hstart hd]
  simp only [validateKind_histogram hp]
  constructor
  · rintro ⟨⟨_, ⟨hh, rfl⟩, hkind⟩, hpoint⟩
    exact ⟨hkind, hh, hpoint⟩
  · rintro ⟨hkind, hh, hpoint⟩
    exact ⟨⟨_, ⟨hh, rfl⟩, hkind⟩, hpoint⟩

end

theorem samplePoint_descriptorId {s : Sample} (h : samplePoint id exemplars s = .ok p) :
    (fields p).descriptorId = id := by
  simp only [samplePoint, except_bind_ok, pure_ok] at h
  obtain ⟨start, -, ts, -, rfl⟩ := h
  rfl

theorem histogramPoint_descriptorId (hp : histogramPoint id exemplars h = .ok p) :
    (fields p).descriptorId = id := by
  obtain ⟨_, _, _, _, _, _, -, -, -, -, -, -, -, rfl⟩ := histogramPoint_inv hp
  rfl

theorem noPanic_samplePoint (s : Sample) : NoPanic (samplePoint id exemplars s) :=
  (noPanic_startNano _).bind fun _ => (noPanic_ms _).bind fun _ => noPanic_ok _

theorem noPanic_histogramPoint (h : Histogram) : NoPanic (histogramPoint id exemplars h) := by
  unfold histogramPoint
  split
  · exact noPanic_err _
  · exact noPanic_err _
  · refine .ite (noPanic_err _) ?_
    exact (noPanic_sparse _ _ _ _).bind fun _ => (noPanic_sparse _ _ _ _).bind fun _ =>
      (noPanic_startNano _).bind fun _ => (noPanic_ms _).bind fun _ =>
        .ite (noPanic_ok _) (noPanic_err _)

end Points

/-! ## Series -/

section Series
variable {r : Series} {ds : List MetricDescriptorV2} {id : UInt32} {points : List MetricPointV2}

namespace Series

theorem noPanic_points (r : Series) (id : UInt32) : NoPanic (r.points id) :=
  (noPanic_collect fun s _ => noPanic_samplePoint s).bind fun _ =>
    (noPanic_collect fun h _ => noPanic_histogramPoint h).bind fun _ => noPanic_ok _

theorem points_length (h : r.points id = .ok points) : points.length = r.samples.length + r.histograms.length := by
  simp only [Series.points, except_bind_ok, pure_ok] at h
  obtain ⟨samples, hsamples, histograms, hhists, rfl⟩ := h
  rw [length_append, collect_length hsamples, collect_length hhists]

theorem points_descriptorId (h : r.points id = .ok points) : ∀ p ∈ points, (fields p).descriptorId = id := by
  simp only [Series.points, except_bind_ok, pure_ok] at h
  obtain ⟨samples, hsamples, _, hhists, rfl⟩ := h
  rw [forall_mem_append]
  constructor
  · exact (collect_forall hsamples fun _ _ hp => iff_true_intro (samplePoint_descriptorId hp)).mpr
      fun _ _ => trivial
  · exact (collect_forall hhists fun _ _ hp =>
      iff_true_intro (histogramPoint_descriptorId hp)).mpr fun _ _ => trivial

theorem validateDescriptor_descriptor (r : Series) (id : UInt32) : validateDescriptor (r.descriptor id) = .ok () := by
  rw [validateDescriptor, refuse_ok]
  simp only [descriptor, kindOf]
  split <;> decide

theorem descriptorLengths_ok : descriptorLengths (r.descriptor id) = .ok () ↔ r.name.val.length ≤ 65535 ∧
    r.help.val.length ≤ 65535 ∧ r.unit.val.length ≤ 65535 ∧ ¬ LabelsTooLong r.attrs := by
  have hnone : ¬ LabelsTooLong [] := by decide
  have htext : noText.val.length = 0 := rfl
  simp only [descriptorLengths, labelLengths, except_unit_bind_ok, refuse_ok]
  simp only [descriptor, htext]
  constructor
  · rintro ⟨h, hattrs, -⟩
    exact ⟨by omega, by omega, by omega, hattrs⟩
  · rintro ⟨_, _, _, hattrs⟩
    exact ⟨by omega, hattrs, hnone⟩

theorem kind_scalar : ((kindOf r.type).1 = gauge ∨ (kindOf r.type).1 = sum) ↔
    (kindOf r.type).1 ≠ exponentialHistogram := by
  unfold kindOf
  split <;> decide

theorem deliverable_iff (h : r.points id = .ok points) (hd : getDescriptor ds id = some (r.descriptor id)) :
    (descriptorLengths (r.descriptor id) = .ok () ∧ ∀ p ∈ points, pointLengths p = .ok () ∧ validatePoint ds p = .ok
    ()) ↔ r.Deliverable := by
  simp only [Series.points, except_bind_ok, pure_ok] at h
  obtain ⟨samples, hsamples, _, hhists, rfl⟩ := h
  rw [descriptorLengths_ok, forall_mem_append, collect_forall hsamples fun _ _ hp => samplePoint_ok hp hd,
    collect_forall hhists fun _ _ hp => histogramPoint_ok hp hd]
  simp only [descriptor, kind_scalar]
  exact ⟨fun ⟨⟨hname, hhelp, hunit, hattrs⟩, hs, hh⟩ => ⟨hname, hhelp, hunit, hattrs, hs, hh⟩,
    fun ⟨hname, hhelp, hunit, hattrs, hs, hh⟩ => ⟨⟨hname, hhelp, hunit, hattrs⟩, hs, hh⟩⟩

end Series

end Series

/-! ## Batches -/

variable {es : List MetricDescriptorV2}

theorem getDescriptor_append_left {id : UInt32} (h : ∃ d ∈ ds, d.id = id) :
    getDescriptor (ds ++ es) id = getDescriptor ds id := by
  unfold getDescriptor
  rw [find?_append, Option.or_eq_left_of_isSome]
  obtain ⟨d, hd, hid⟩ := h
  exact find?_isSome.mpr ⟨d, hd, by simp [hid]⟩

def Series.pointCount (r : Series) : Nat := r.samples.length + r.histograms.length

def build (rs : List Series) : Mapped MetricsBatchV2 := rs.foldlM appendSeries emptyBatch

/-- Fewer than `2 ^ 32` descriptors, so each point finds its own. -/
structure Built (rs : List Series) (b : MetricsBatchV2) : Prop where
  magic : b.magic = metricsBatchV2Magic
  ids : b.descriptors.map (fun d => d.id.toNat) = range' 1 rs.length
  pointCount : b.points.length = (rs.map Series.pointCount).sum
  known : ∀ p ∈ b.points, ∃ d ∈ b.descriptors, d.id = (fields p).descriptorId
  descriptors : ∀ d ∈ b.descriptors, validateDescriptor d = .ok ()
  valid : ((∀ d ∈ b.descriptors, descriptorLengths d = .ok ()) ∧
      ∀ p ∈ b.points, pointLengths p = .ok () ∧ validatePoint b.descriptors p = .ok ()) ↔
    ∀ r ∈ rs, r.Deliverable

namespace Built
variable {rs : List Series} {r : Series} {b b' : MetricsBatchV2}

theorem nil : Built [] emptyBatch where
  magic := rfl
  ids := rfl
  pointCount := rfl
  known := nofun
  descriptors := nofun
  valid := by simp [emptyBatch]

theorem length (h : Built rs b) : b.descriptors.length = rs.length := by
  have := congrArg List.length h.ids
  simpa using this

theorem fresh (h : Built rs b) (hcnt : rs.length + 1 < 2 ^ 32) : (UInt32.ofNat b.descriptors.length + 1).toNat =
    rs.length + 1 ∧ ∀ d ∈ b.descriptors, d.id ≠ UInt32.ofNat b.descriptors.length + 1 := by
  have hnext : (UInt32.ofNat b.descriptors.length + 1).toNat = rs.length + 1 := by
    rw [h.length, UInt32.toNat_add, UInt32.toNat_ofNat', UInt32.toNat_one,
      Nat.mod_eq_of_lt (by omega : rs.length < _), Nat.mod_eq_of_lt hcnt]
  refine ⟨hnext, fun d hd heq => ?_⟩
  have hmem : d.id.toNat ∈ range' 1 rs.length := h.ids ▸ mem_map_of_mem hd
  rw [heq, hnext, mem_range'_1] at hmem
  omega

theorem snoc (h : Built rs b) (hcnt : rs.length + 1 < 2 ^ 32)
    (happ : appendSeries b r = .ok b') : Built (rs ++ [r]) b' := by
  simp only [appendSeries, except_bind_ok, pure_ok] at happ
  obtain ⟨points, hpoints, rfl⟩ := happ
  obtain ⟨hnext, hfresh⟩ := h.fresh hcnt
  generalize UInt32.ofNat b.descriptors.length + 1 = id at hpoints hnext hfresh
  have hown := Series.points_descriptorId hpoints
  have hd : getDescriptor (b.descriptors ++ [r.descriptor id]) id = some (r.descriptor id) := by
    rw [getDescriptor, find?_append, find?_eq_none.mpr (by simpa using hfresh)]
    simp [Series.descriptor]
  have hold : ∀ p ∈ b.points,
      validatePoint (b.descriptors ++ [r.descriptor id]) p = validatePoint b.descriptors p :=
    fun p hp => by simp only [validatePoint, getDescriptor_append_left (h.known p hp)]
  refine ⟨h.magic, ?_, ?_, ?_, ?_, ?_⟩
  · simp [h.ids, range'_concat, Series.descriptor, hnext]
    omega
  · simp [h.pointCount, Series.points_length hpoints, Series.pointCount]
  · intro p hp
    rcases mem_append.mp hp with hp | hp
    · obtain ⟨d, hd, hid⟩ := h.known p hp
      exact ⟨d, mem_append_left _ hd, hid⟩
    · exact ⟨r.descriptor id, by simp, (hown p hp).symm⟩
  · simp only [forall_mem_append, forall_mem_singleton]
    exact ⟨h.descriptors, r.validateDescriptor_descriptor id⟩
  · have hseries := Series.deliverable_iff hpoints hd
    simp only [forall_mem_append, forall_mem_singleton, ← h.valid, ← hseries]
    have hpts : (∀ p ∈ b.points, pointLengths p = .ok () ∧
        validatePoint (b.descriptors ++ [r.descriptor id]) p = .ok ()) ↔
        ∀ p ∈ b.points, pointLengths p = .ok () ∧ validatePoint b.descriptors p = .ok () :=
      forall₂_congr fun p hp => by rw [hold p hp]
    rw [hpts]
    tauto

theorem of_build (hcnt : rs.length < 2 ^ 32) (h : build rs = .ok b) : Built rs b := by
  induction rs using reverseRecOn generalizing b with
  | nil =>
    cases h
    exact nil
  | append_singleton rs r ih =>
    rw [length_append, length_singleton] at hcnt
    rw [build, foldlM_append, except_bind_ok] at h
    obtain ⟨b₀, hb₀, h⟩ := h
    rw [foldlM_cons, except_bind_ok] at h
    obtain ⟨b₁, happ, h⟩ := h
    cases h
    exact (ih (by omega) hb₀).snoc hcnt happ

theorem validates_iff (h : Built rs b) (hcnt : rs.length < 2 ^ 32) :
    validate b = .ok () ↔ (rs.map Series.pointCount).sum < 2 ^ 32 ∧ ∀ r ∈ rs, r.Deliverable := by
  rw [validate_ok, ← h.pointCount, ← h.valid]
  have hnodup : (b.descriptors.map MetricDescriptorV2.id).Nodup := by
    have hids : (b.descriptors.map fun d => d.id.toNat).Nodup := h.ids ▸ nodup_range'
    rw [show (fun d : MetricDescriptorV2 => d.id.toNat) = UInt32.toNat ∘ MetricDescriptorV2.id from rfl,
      ← map_map] at hids
    exact List.Nodup.of_map _ hids
  constructor
  · intro hvalid
    exact ⟨hvalid.pointCount, hvalid.descriptorLengths, fun p hp => ⟨hvalid.pointLengths p hp, hvalid.points p hp⟩⟩
  · rintro ⟨hpoints, hlens, hall⟩
    exact ⟨h.magic, h.length ▸ hcnt, hpoints, hlens, fun p hp => (hall p hp).1, hnodup,
      h.descriptors, fun p hp => (hall p hp).2⟩

end Built

theorem foldlM_appendSeries_length {rs : List Series} {b₀ b : MetricsBatchV2} (h : rs.foldlM appendSeries b₀ = .ok b)
    : b.descriptors.length = b₀.descriptors.length + rs.length := by
  induction rs generalizing b₀ with
  | nil =>
    cases h
    rfl
  | cons r rs ih =>
    rw [foldlM_cons, except_bind_ok] at h
    obtain ⟨b₁, happ, h⟩ := h
    simp only [appendSeries, except_bind_ok, pure_ok] at happ
    obtain ⟨points, -, rfl⟩ := happ
    rw [ih h, length_append, length_singleton, length_cons]
    omega

/-! ## Requests -/

def resolved (series : List RawSeries) : List Series :=
  series.filterMap fun s => s.resolve.toOption.join

/-- No identifier is cut inside a character, and all series are valid. -/
structure Deliverable (series : List RawSeries) : Prop where
  noPanic : ∀ s ∈ series, NoPanic s.resolve
  seriesCount : (resolved series).length < 2 ^ 32
  pointCount : ((resolved series).map Series.pointCount).sum < 2 ^ 32
  all : ∀ r ∈ resolved series, r.Deliverable

section Requests
variable {series : List RawSeries} {b₀ b : MetricsBatchV2}

theorem foldlM_mapSeries_ok (h : series.foldlM mapSeries b₀ = .ok b) :
    (∀ s ∈ series, NoPanic s.resolve) ∧ (resolved series).foldlM appendSeries b₀ = .ok b := by
  induction series generalizing b₀ with
  | nil => exact ⟨nofun, h⟩
  | cons s series ih =>
    rw [foldlM_cons, except_bind_ok] at h
    obtain ⟨b₁, hmap, h⟩ := h
    obtain ⟨hnoPanic, hrest⟩ := ih h
    rw [mapSeries, except_bind_ok] at hmap
    obtain ⟨result, hresolve, hmap⟩ := hmap
    simp only [forall_mem_cons, resolved, filterMap_cons, hresolve]
    cases result with
    | none =>
      cases hmap
      exact ⟨⟨noPanic_ok _, hnoPanic⟩, hrest⟩
    | some r =>
      refine ⟨⟨noPanic_ok _, hnoPanic⟩, ?_⟩
      exact except_bind_ok.mpr ⟨b₁, hmap, hrest⟩

theorem foldlM_mapSeries_panic (h : series.foldlM mapSeries b₀ = .error .panic) :
    ∃ s ∈ series, ¬ NoPanic s.resolve := by
  induction series generalizing b₀ with
  | nil => cases h
  | cons s series ih =>
    rw [foldlM_cons, except_bind_error] at h
    rcases h with h | ⟨b₁, -, h⟩
    · rw [mapSeries, except_bind_error] at h
      rcases h with h | ⟨result, -, h⟩
      · exact ⟨s, mem_cons_self, fun hno => hno h⟩
      · cases result with
        | none => cases h
        | some r =>
          have hno : NoPanic (appendSeries b₀ r) := (r.noPanic_points _).bind fun _ => noPanic_ok _
          exact absurd h hno
    · obtain ⟨s', hs', hpanic⟩ := ih h
      exact ⟨s', mem_cons_of_mem _ hs', hpanic⟩

end Requests

/-- Refused, or a batch that the sink does not drop. -/
def Handled : Mapped MetricsBatchV2 → Prop
  | .ok b => validate b = .ok ()
  | .error (.refused _) => True
  | .error .panic => False

def Refused (r : Mapped MetricsBatchV2) : Prop := ∃ message, r = .error (.refused message)

theorem mapAll_handled_iff (series : List RawSeries) :
    Handled (mapAll series) ↔ Refused (mapAll series) ∨ Deliverable series := by
  cases h : mapAll series with
  | error fault =>
    cases fault with
    | refused message => exact iff_of_true trivial (.inl ⟨message, rfl⟩)
    | panic =>
      obtain ⟨s, hs, hpanic⟩ := foldlM_mapSeries_panic h
      refine iff_of_false id ?_
      rintro (⟨_, href⟩ | hdeliv)
      · cases href
      · exact hpanic (hdeliv.noPanic s hs)
  | ok b =>
    obtain ⟨hnoPanic, hbuild⟩ := foldlM_mapSeries_ok h
    have hlen : b.descriptors.length = (resolved series).length := by
      simpa [emptyBatch] using foldlM_appendSeries_length hbuild
    constructor
    · intro hvalid
      have hcnt : (resolved series).length < 2 ^ 32 :=
        hlen ▸ (validate_ok.mp hvalid).descriptorCount
      obtain ⟨hpoints, hall⟩ := ((Built.of_build hcnt hbuild).validates_iff hcnt).mp hvalid
      exact .inr ⟨hnoPanic, hcnt, hpoints, hall⟩
    · rintro (⟨_, href⟩ | hdeliv)
      · cases href
      · have hcnt := hdeliv.seriesCount
        exact ((Built.of_build hcnt hbuild).validates_iff hcnt).mpr
          ⟨hdeliv.pointCount, hdeliv.all⟩

def upSeries (exemplars : List V1.Exemplar) (samples : List V1.Sample) (histograms : List Histogram) :
    V1.WriteRequest :=
  ⟨[⟨[⟨⟨ascii "__name__", by decide⟩, ⟨ascii "up", validUtf8_up⟩⟩], samples, exemplars, histograms⟩], []⟩

def oneBucket : Histogram where
  count := some (.int 1)
  sum := .one
  schema := 0
  zeroThreshold := .zero
  zeroCount := some (.int 0)
  negativeSpans := []
  negativeDeltas := []
  negativeCounts := []
  positiveSpans := [⟨0, 1⟩]
  positiveDeltas := [1]
  positiveCounts := []
  resetHint := 0
  timestamp := 1000
  startTimestamp := 0
  customValues := []

/-- Four bytes, the second and third of which are one character. -/
def cutExemplar : V1.Exemplar :=
  ⟨[⟨⟨ascii "trace_id", by decide⟩, ⟨[0x61, 0xC3, 0xA9, 0x61], by decide⟩⟩], .one, 1000⟩

end Scry.Gateway
