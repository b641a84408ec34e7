import Scry.Wal.Replay

/-! # Segment numbers

A process takes its first number from the files that the last one left.
-/

open Scry.Lib

namespace Scry.Wal

open Option Table

/-- `releasing` has the ranges that `prepare_release` let through; files are removed without the lock. -/
inductive Process
  | down (dir : Dir)
  | up (wal : Wal) (releasing : List (Nat × Nat))

def Process.dir : Process → Dir
  | down dir => dir
  | up wal _ => wal.dir

/-- A directory with the numbers of all files created in it so far. -/
structure History where
  process : Process
  created : List Nat

inductive Event
  | open (maxSegmentBytes : Nat)
  | append (payload : Bytes)
  | rotate
  | prepareRelease (lo hi : Nat)
  | prepareRecoveryRelease
  | unlink (range seq : Nat)
  | stop
  deriving DecidableEq

namespace Process

/-- `prepare_release`, with the range that is released if it returns `Ok`. -/
def prepare (wal : Wal) (releasing : List (Nat × Nat)) (lo hi : Nat) : Process :=
  match wal.prepareRelease hi with
  | .ok () => up wal (releasing ++ [(lo, hi)])
  | .error _ => up wal releasing

/-- A call that fails leaves the process as it was. -/
def step (crc32 : Bytes → UInt32) (p : Process) (e : Event) : Option Process :=
  match p, e with
  | down dir, .open maxSegmentBytes => some (up (openWal dir maxSegmentBytes) [])
  | up wal releasing, .append payload =>
    match wal.append crc32 payload with
    | .ok wal' => some (up wal' releasing)
    | .error _ => some (up wal releasing)
  | up wal releasing, .rotate =>
    match wal.rotate with
    | .ok (wal', _) => some (up wal' releasing)
    | .error _ => some (up wal releasing)
  | up wal releasing, .prepareRelease lo hi => some (prepare wal releasing lo hi)
  -- The end of `Pipeline::open`: everything below the active segment was replayed.
  | up wal releasing, .prepareRecoveryRelease =>
    if wal.currentSeq = 0 then some (up wal releasing)
    else some (prepare wal releasing 0 (wal.currentSeq - 1))
  | up wal releasing, .unlink range seq =>
    match releasing[range]? with
    | some (lo, hi) =>
      if lo ≤ seq ∧ seq ≤ hi then some (up { wal with dir := wal.dir.unlink seq } releasing) else none
    | none => none
  | up wal _, .stop => some (down wal.dir)
  | _, _ => none

end Process

def newFiles (before after : Dir) : List Nat :=
  (after.rows.map Segment.seq).filter fun seq => !before.contains seq

def History.step (crc32 : Bytes → UInt32) (h : History) (e : Event) : Option History :=
  (h.process.step crc32 e).map fun p => ⟨p, h.created ++ newFiles h.process.dir p.dir⟩

/-! ## Created files -/

variable {d : Dir}

theorem newFiles_create {seq : Nat} (h : d.contains seq = false) : newFiles d (d.create seq) = [seq] := by
  have hold : (d.rows.map Segment.seq).filter (fun seq => !d.contains seq) = [] := by
    refine List.filter_eq_nil_iff.mpr fun k hk => ?_
    obtain ⟨s, hs, rfl⟩ := List.mem_map.mp hk
    have hlook : d.lookup s.seq = some s := lookup_of_mem hs
    simp [contains, hlook]
  rw [newFiles, Dir.rows_create h, List.map_append, List.filter_append, hold]
  simp [h]

theorem newFiles_of_subset {d d' : Dir} (h : ∀ k, d'.contains k = true → d.contains k = true) :
    newFiles d d' = [] := by
  refine List.filter_eq_nil_iff.mpr fun k hk => ?_
  obtain ⟨s, hs, rfl⟩ := List.mem_map.mp hk
  have hlook : d'.lookup s.seq = some s := lookup_of_mem hs
  simp [h s.seq (by simp [contains, hlook])]

theorem append_ok {crc32 : Bytes → UInt32} {w w' : Wal} {payload : Bytes} (h : w.append crc32 payload = .ok w') :
    (∀ k, w'.dir.contains k = w.dir.contains k) ∧ w'.currentSeq = w.currentSeq ∨ ∃ w₁ : Wal,
    (∀ k, w₁.dir.contains k = w.dir.contains k) ∧ w₁.currentSeq = w.currentSeq ∧ w₁.dir.contains (w.currentSeq + 1) =
    false ∧ w' = rotated w₁ := by
  have hsame := fun k => Dir.contains_write w.dir w.currentSeq k (frame crc32 payload)
  unfold append at h
  split at h
  · cases h
  · obtain rfl | ⟨habs, rfl⟩ := rotateIfFull_ok h
    · exact .inl ⟨hsame, rfl⟩
    · refine .inr ⟨w.writeFrame crc32 payload, hsame, rfl, ?_, rfl⟩
      rw [contains, show (w.writeFrame crc32 payload).dir.lookup (w.currentSeq + 1) = none from
        habs, isSome_none]

/-- Nothing is numbered above the newest file, and that file is there. -/
structure Top (d : Dir) (newest : Nat) (created : List Nat) : Prop where
  exists_newest : d.contains newest = true
  le_newest : ∀ k, d.contains k = true → k ≤ newest
  created_le : ∀ k ∈ created, k ≤ newest

/-- No released range reaches the newest file. A directory without a process has had no file, or still has its
newest one. -/
def Sound (h : History) : Prop :=
  h.created.Pairwise (· < ·) ∧
    match h.process with
    | .down dir => (h.created = [] ∧ dir.rows = []) ∨ ∃ newest, Top dir newest h.created
    | .up wal releasing => Top wal.dir wal.currentSeq h.created ∧
        ∀ range ∈ releasing, range.2 < wal.currentSeq

variable {created : List Nat}

theorem Top.congr {d d' : Dir} {newest : Nat} (h : Top d newest created)
    (hd : ∀ k, d'.contains k = d.contains k) : Top d' newest created :=
  ⟨(hd newest).trans h.exists_newest, fun k hk => h.le_newest k ((hd k).symm.trans hk), h.created_le⟩

variable {newest seq : Nat}

theorem Top.create (h : Top d newest created)
    (hlt : newest < seq) : Top (d.create seq) seq (created ++ [seq]) := by
  refine ⟨(Dir.contains_create ..).mpr (.inr rfl), fun k hk => ?_, fun k hk => ?_⟩
  · rcases (Dir.contains_create ..).mp hk with hk | rfl
    · exact (h.le_newest k hk).trans (Nat.le_of_lt hlt)
    · exact Nat.le_refl _
  · exact forall_mem_snoc (fun k hk => (h.created_le k hk).trans (Nat.le_of_lt hlt)) (Nat.le_refl _) k hk

theorem Top.unlink (h : Top d newest created)
    (hlt : seq < newest) : Top (d.unlink seq) newest created := by
  have hkept : ∀ k, (d.unlink seq).contains k = true ↔ k ≠ seq ∧ d.contains k = true := by
    intro k
    rw [contains, Dir.lookup_unlink]
    by_cases hk : k = seq <;> simp [hk, contains]
  exact ⟨(hkept newest).mpr ⟨Nat.ne_of_gt hlt, h.exists_newest⟩,
    fun k hk => h.le_newest k ((hkept k).mp hk).2, h.created_le⟩

section Steps

variable {crc32 : Bytes → UInt32} {wal wal' : Wal} {releasing : List (Nat × Nat)}
  {created : List Nat}

theorem Sound.same (h : Sound ⟨.up wal releasing, created⟩) (hdir : ∀ k, wal'.dir.contains k = wal.dir.contains k)
    (hseq : wal'.currentSeq = wal.currentSeq) : Sound ⟨.up wal' releasing, created ++ newFiles wal.dir wal'.dir⟩ := by
  obtain ⟨hsort, htop, hrel⟩ := h
  rw [newFiles_of_subset fun k hk => (hdir k).symm.trans hk, List.append_nil]
  refine ⟨hsort, ?_, ?_⟩
  · rw [hseq]
    exact htop.congr hdir
  · rw [hseq]
    exact hrel

theorem newFiles_congr {d d' e : Dir} (h : ∀ k, d.contains k = d'.contains k) : newFiles d e = newFiles d' e := by
  simp only [newFiles, h]

theorem Sound.rotated (h : Sound ⟨.up wal releasing, created⟩) {w₁ : Wal}
    (hdir : ∀ k, w₁.dir.contains k = wal.dir.contains k) (hseq : w₁.currentSeq = wal.currentSeq)
    (habs : w₁.dir.contains (wal.currentSeq + 1) = false) :
    Sound ⟨.up (rotated w₁) releasing, created ++ newFiles wal.dir (rotated w₁).dir⟩ := by
  obtain ⟨hsort, htop, hrel⟩ := h
  have hnew : newFiles wal.dir (Wal.rotated w₁).dir = [wal.currentSeq + 1] := by
    rw [newFiles_congr fun k => (hdir k).symm]
    simp only [Wal.rotated, hseq]
    exact newFiles_create habs
  rw [hnew]
  refine ⟨pairwise_snoc hsort fun k hk => Nat.lt_succ_of_le (htop.created_le k hk), ?_, ?_⟩
  · simp only [Wal.rotated, hseq]
    exact (htop.congr hdir).create (Nat.lt_succ_self _)
  · simp only [Wal.rotated, hseq]
    exact fun range hrange => Nat.lt_succ_of_lt (hrel range hrange)

theorem Sound.prepare (h : Sound ⟨.up wal releasing, created⟩) (lo hi : Nat) : Sound
    ⟨Process.prepare wal releasing lo hi, created ++ newFiles wal.dir (Process.prepare wal releasing lo hi).dir⟩ := by
  unfold Process.prepare prepareRelease
  by_cases hhi : wal.currentSeq ≤ hi
  · rw [if_pos hhi]
    exact h.same (fun _ => rfl) rfl
  · rw [if_neg hhi]
    have hsame := h.same (fun _ => rfl) rfl
    obtain ⟨hsort, htop, hrel⟩ := hsame
    exact ⟨hsort, htop, forall_mem_snoc hrel (Nat.lt_of_not_le hhi)⟩

theorem Sound.unlink (h : Sound ⟨.up wal releasing, created⟩) {lo hi seq : Nat} (hrange : (lo, hi) ∈ releasing)
    (hseq : seq ≤ hi) : Sound ⟨.up { wal with dir := wal.dir.unlink seq } releasing, created ++ newFiles wal.dir
    (wal.dir.unlink seq)⟩ := by
  obtain ⟨hsort, htop, hrel⟩ := h
  have hhi : hi < wal.currentSeq := hrel (lo, hi) hrange
  have hsub : ∀ k, (wal.dir.unlink seq).contains k = true → wal.dir.contains k = true := by
    intro k hk
    rw [contains, Dir.lookup_unlink] at hk
    split at hk
    · cases hk
    · exact hk
  rw [newFiles_of_subset hsub, List.append_nil]
  exact ⟨hsort, htop.unlink (by omega), hrel⟩

theorem Sound.open {dir : Dir} (h : Sound ⟨.down dir, created⟩) (maxSegmentBytes : Nat) : Sound
    ⟨.up (openWal dir maxSegmentBytes) [], created ++ newFiles dir (openWal dir maxSegmentBytes).dir⟩ := by
  have habs : dir.contains dir.nextSeq = false := by
    rw [contains, Dir.lookup_nextSeq, isSome_none]
  have hnew : newFiles dir (openWal dir maxSegmentBytes).dir = [dir.nextSeq] :=
    newFiles_create habs
  obtain ⟨hsort, hdown⟩ := h
  rw [hnew]
  rcases hdown with ⟨rfl, hrows⟩ | ⟨newest, htop⟩
  · refine ⟨List.pairwise_singleton _ _, ⟨(Dir.contains_create ..).mpr (.inr rfl), ?_, ?_⟩, List.forall_mem_nil _⟩
    · intro k hk
      rcases (Dir.contains_create ..).mp hk with hk | rfl
      · rw [contains, lookup, hrows] at hk
        cases hk
      · exact Nat.le_refl _
    · exact fun k hk => Nat.le_of_eq (List.mem_singleton.mp hk)
  · obtain ⟨s, hs⟩ := isSome_iff_exists.mp htop.exists_newest
    have hlt := dir.lt_nextSeq hs
    exact ⟨pairwise_snoc hsort fun k hk => Nat.lt_of_le_of_lt (htop.created_le k hk) hlt, htop.create hlt,
      List.forall_mem_nil _⟩

end Steps

theorem sound_step {crc32 : Bytes → UInt32} {h h' : History} {e : Event} (hs : Sound h)
    (hstep : h.step crc32 e = some h') : Sound h' := by
  obtain ⟨p, hp, rfl⟩ := map_eq_some_iff.mp hstep
  obtain ⟨process, created⟩ := h
  cases process with
  | down dir =>
    cases e with
    | «open» maxSegmentBytes =>
      obtain rfl := some.inj hp
      exact hs.open maxSegmentBytes
    | _ => cases hp
  | up wal releasing =>
    cases e with
    | «open» maxSegmentBytes => cases hp
    | append payload =>
      simp only [Process.step] at hp
      split at hp
      next wal' happ =>
        obtain rfl := some.inj hp
        obtain ⟨hdir, hseq⟩ | ⟨w₁, hdir, hseq, habs, rfl⟩ := append_ok happ
        · exact hs.same hdir hseq
        · exact hs.rotated hdir hseq habs
      next =>
        obtain rfl := some.inj hp
        exact hs.same (fun _ => rfl) rfl
    | rotate =>
      simp only [Process.step] at hp
      split at hp
      next wal' sealedSeq hrot =>
        obtain rfl := some.inj hp
        obtain ⟨hnone, -, rfl⟩ := rotate_ok hrot
        exact hs.rotated (fun _ => rfl) rfl (by rw [contains, hnone, isSome_none])
      next =>
        obtain rfl := some.inj hp
        exact hs.same (fun _ => rfl) rfl
    | prepareRelease lo hi =>
      obtain rfl := some.inj hp
      exact hs.prepare lo hi
    | prepareRecoveryRelease =>
      simp only [Process.step] at hp
      split at hp
      · obtain rfl := some.inj hp
        exact hs.same (fun _ => rfl) rfl
      · obtain rfl := some.inj hp
        exact hs.prepare 0 _
    | unlink range seq =>
      simp only [Process.step] at hp
      split at hp
      next lo hi hrange =>
        split at hp
        next hseq =>
          obtain rfl := some.inj hp
          exact hs.unlink (List.mem_of_getElem? hrange) hseq.2
        next => cases hp
      next => cases hp
    | stop =>
      obtain rfl := some.inj hp
      have hsame := hs.same (fun _ => rfl) rfl
      obtain ⟨hsort, htop, -⟩ := hsame
      exact ⟨hsort, .inr ⟨wal.currentSeq, htop⟩⟩

/-- Every segment file has a number above all that were created before. -/
theorem created_increasing (crc32 : Bytes → UInt32) (events : List Event) (h : History)
    (hrun : run (History.step crc32) ⟨.down .empty, []⟩ events = some h) : h.created.Pairwise (· < ·) := by
  have hsound : Sound h := by
    refine run_invariant (fun h e h' hs hstep => sound_step hs hstep) ?_ hrun
    exact ⟨.nil, .inl ⟨rfl, rfl⟩⟩
  exact hsound.1

def restartEvents : List Event :=
  [.open 100, .append [7], .rotate, .prepareRelease 0 0, .unlink 0 0, .stop, .open 100,
    .prepareRecoveryRelease, .unlink 0 1]

theorem created_increasing_restart : ((run (History.step crc32Ieee) ⟨.down .empty, []⟩ restartEvents).get
    (by decide +kernel)).created.Pairwise (· < ·) :=
  created_increasing crc32Ieee restartEvents _ (some_get _).symm

end Scry.Wal
