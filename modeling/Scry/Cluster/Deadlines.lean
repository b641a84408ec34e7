import Scry.Cluster.Consume

/-! # Reap deadlines

The clock plus the grace, computed in four places: the compaction itself, a `Superseded` event, the full walk
and the reconciliation of a partition.
-/

open Scry.Lib Scry.Block Scry.Catalog

namespace Scry.Cluster

open Option

structure Duration where
  secs : Nat
  nanos : Nat
  secs_lt : secs < 2 ^ 64
  nanos_lt : nanos < 1000000000

namespace Duration

def asNanos (d : Duration) : Nat := d.secs * 1000000000 + d.nanos

/-- `+`, which panics when the seconds overflow. -/
def add (a b : Duration) : Option Duration :=
  if h : a.secs + b.secs + (a.nanos + b.nanos) / 1000000000 < 2 ^ 64 then
    some ⟨_, (a.nanos + b.nanos) % 1000000000, h, Nat.mod_lt _ (by decide)⟩
  else none

theorem asNanos_add {a b sum : Duration} (h : a.add b = some sum) : sum.asNanos = a.asNanos + b.asNanos := by
  unfold add at h
  split at h
  · cases h
    simp only [asNanos]
    omega
  · cases h

theorem add_isSome_iff (a b : Duration) : (a.add b).isSome ↔ a.asNanos + b.asNanos < 2 ^ 64 * 1000000000 := by
  unfold add asNanos
  have ha := a.nanos_lt
  have hb := b.nanos_lt
  split
  · rw [isSome_some, iff_true_left rfl]
    omega
  · rw [isSome_none, iff_false_left Bool.false_ne_true]
    omega

end Duration

/-- The cast keeps 64 bits of what `duration_since(UNIX_EPOCH)` gives. -/
def nowUnixNano (now : Duration) : Nat := now.asNanos % 2 ^ 64

def compactPartitionDeadline (now grace : Duration) : Nat :=
  saturatingAdd (nowUnixNano now) (grace.asNanos % 2 ^ 64)

/-- The deadline of both walks. `none` is a panic. -/
def walkDeadline (now reapGrace : Duration) : Option Nat :=
  (now.add reapGrace).map fun sum => sum.asNanos % 2 ^ 64

def fullWalkStage (c : Catalog) (now reapGrace : Duration) : Option Catalog :=
  (walkDeadline now reapGrace).map c.stageUnstagedSuperseded

def reconcilePartitionStage (c : Catalog) (now reapGrace : Duration) : Option Catalog :=
  (walkDeadline now reapGrace).map c.stageUnstagedSuperseded

inductive Site where
  | compactPartition
  | applyEvent (reapEligibleAt : Nat)
  | fullWalk
  | reconcilePartition

namespace Site

variable (now grace : Duration) (c : Catalog) (output : BlockMeta) (inputs : List Uuid)

def run (now grace : Duration) : Site → Option Catalog
  | compactPartition => some (c.applyCompaction output inputs (compactPartitionDeadline now grace))
  | applyEvent reapEligibleAt =>
    some (applyEventWithGrace c grace.asNanos (nowUnixNano now) (.superseded inputs output reapEligibleAt)).1
  | fullWalk => fullWalkStage c now grace
  | reconcilePartition => reconcilePartitionStage c now grace

def Stages (u : Uuid) : Site → Prop
  | compactPartition | applyEvent _ => u ∈ inputs ∧ u ≠ output.uuid
  | fullWalk | reconcilePartition => ∃ r, c.blocks.lookup u = some r ∧ r.unstaged = true

/-- No panic, and no deadline before `now + grace`, as far as an `i64` goes. -/
def Saturates (site : Site) : Prop :=
  ∀ (c : Catalog) (output : BlockMeta) (inputs : List Uuid),
    ∃ c', site.run c output inputs now grace = some c' ∧
      ∀ u r, site.Stages c output inputs u → c'.blocks.lookup u = some r →
        ∃ d, r.reapEligibleAt = some d ∧ min (now.asNanos + grace.asNanos) i64Max ≤ d

/-- The casts lose nothing, or leave more than the largest deadline. -/
def CastsFit : Prop :=
  now.asNanos < 2 ^ 64 ∧ grace.asNanos < 2 ^ 64 ∨
    i64Max ≤ now.asNanos % 2 ^ 64 + grace.asNanos % 2 ^ 64

def Fits : Site → Prop
  | compactPartition => CastsFit now grace
  -- With no local grace the deadline of the event counts alone, if it has one.
  | applyEvent reapEligibleAt =>
    (reapEligibleAt = 0 ∨ grace.asNanos ≠ 0) ∧ CastsFit now grace ∨
      reapEligibleAt ≠ 0 ∧ min (now.asNanos + grace.asNanos) i64Max ≤ reapEligibleAt
  | fullWalk | reconcilePartition =>
    now.asNanos + grace.asNanos < 2 ^ 64 ∨
      now.asNanos + grace.asNanos < 2 ^ 64 * 1000000000 ∧ i64Max ≤ (now.asNanos + grace.asNanos) % 2 ^ 64

/-! ## What is stored -/

section Stored

variable {now grace : Duration}

theorem stored_applyCompaction (n : Nat) (d : Nat) : (∀ (c : Catalog) (output : BlockMeta) (inputs : List Uuid)
    (u : Uuid) (r : Row), u ∈ inputs ∧ u ≠ output.uuid → (c.applyCompaction output inputs d).blocks.lookup u = some r
    → ∃ e, r.reapEligibleAt = some e ∧ min n i64Max ≤ e) ↔ min n i64Max ≤ d := by
  constructor
  · intro h
    let block (u : Uuid) : BlockMeta := ⟨u, .logs, 9, 0, 0, 1, 1, 1, 0, [], none, none⟩
    have hrow : (empty.insertBlock (block 1) |>.insertBlock (block 2)).blocks.lookup 1 =
        some (Row.ofMeta (block 1) false) := by decide
    have hstored : ((empty.insertBlock (block 1)).applyCompaction (block 2) [1] d).blocks.lookup 1 =
        some ((Row.ofMeta (block 1) false).stage 2 (min d i64Max)) := by
      rw [applyCompaction, lookup_stageSuperseded, hrow]
      rfl
    obtain ⟨e, he, hle⟩ := h _ (block 2) [1] 1 _ ⟨List.mem_singleton_self _, by decide⟩ hstored
    have heq : e = min d i64Max := by
      rw [← some_inj, ← he]
      simp [Row.stage, Row.ofMeta]
    omega
  · intro hle c output inputs u r hu hlook
    rw [applyCompaction, lookup_stageSuperseded] at hlook
    obtain ⟨old, hold, rfl⟩ := map_eq_some_iff.mp hlook
    have hkey : old.uuid = u := Table.key_of_lookup hold
    rw [if_pos (hkey.symm ▸ hu)]
    refine ⟨_, rfl, ?_⟩
    have hmax := Nat.le_max_right (old.reapEligibleAt.getD (min d i64Max)) (min d i64Max)
    omega

theorem stored_stageUnstagedSuperseded (n : Nat) (d : Nat) : (∀ (c : Catalog) (u : Uuid) (r : Row),
    (∃ old, c.blocks.lookup u = some old ∧ old.unstaged = true) → (c.stageUnstagedSuperseded d).blocks.lookup u = some
    r → ∃ e, r.reapEligibleAt = some e ∧ min n i64Max ≤ e) ↔ min n i64Max ≤ d := by
  constructor
  · intro h
    let block : BlockMeta := ⟨1, .logs, 9, 0, 0, 1, 1, 1, 0, [], none, none⟩
    let row : Row := (Row.ofMeta block false).claim 2
    let c : Catalog := { empty with blocks := ⟨[row], List.nodup_singleton _⟩ }
    have hrow : c.blocks.lookup 1 = some row := rfl
    have hunst : row.unstaged = true := rfl
    obtain ⟨e, he, hle⟩ := h c 1 (row.fillStage (min d i64Max)) ⟨row, hrow, hunst⟩
      (by rw [lookup_stageUnstagedSuperseded, hrow, map_some, if_pos hunst])
    have heq : e = min d i64Max := (some.inj he).symm
    omega
  · rintro hle c u r ⟨old, hold, hunst⟩ hlook
    rw [lookup_stageUnstagedSuperseded, hold, map_some, if_pos hunst] at hlook
    cases hlook
    have hnone : old.reapEligibleAt = none := by
      simpa [Row.unstaged] using (Bool.and_eq_true_iff.mp hunst).2
    refine ⟨min d i64Max, ?_, by omega⟩
    rw [Row.fillStage, hnone]
    rfl

theorem saturates_merge_iff {site : Site} {d : Nat} (hrun : ∀ c output inputs, ∃ c', site.run c output inputs now
    grace = some c' ∧ c'.blocks = (c.applyCompaction output inputs d).blocks)
    (hstages : ∀ c output inputs u, site.Stages c output inputs u ↔ u ∈ inputs ∧ u ≠ output.uuid) : site.Saturates now
    grace ↔ min (now.asNanos + grace.asNanos) i64Max ≤ d := by
  rw [← stored_applyCompaction]
  unfold Saturates
  simp only [hstages]
  constructor
  · intro h c output inputs u r hu hlook
    obtain ⟨c', hc', hblocks⟩ := hrun c output inputs
    obtain ⟨c'', hc'', hall⟩ := h c output inputs
    cases hc'.symm.trans hc''
    exact hall u r hu (hblocks ▸ hlook)
  · intro h c output inputs
    obtain ⟨c', hc', hblocks⟩ := hrun c output inputs
    exact ⟨c', hc', fun u r hu hlook => h c output inputs u r hu (hblocks ▸ hlook)⟩

theorem saturates_walk_iff {site : Site} (hrun : ∀ c output inputs, site.run c output inputs now grace =
    (walkDeadline now grace).map c.stageUnstagedSuperseded) (hstages : ∀ c output inputs u, site.Stages c output
    inputs u ↔ ∃ r, c.blocks.lookup u = some r ∧ r.unstaged = true) : site.Saturates now grace ↔ ∃ d, walkDeadline now
    grace = some d ∧ min (now.asNanos + grace.asNanos) i64Max ≤ d := by
  let anyOutput : BlockMeta := ⟨0, .logs, 0, 0, 0, 0, 0, 0, 0, [], none, none⟩
  unfold Saturates
  simp only [hrun, hstages]
  constructor
  · intro h
    cases hd : walkDeadline now grace with
    | none =>
      obtain ⟨c', hc', -⟩ := h empty anyOutput []
      rw [hd] at hc'
      cases hc'
    | some d =>
      refine ⟨d, rfl, (stored_stageUnstagedSuperseded _ d).mp fun c u r hu hlook => ?_⟩
      obtain ⟨c', hc', hall⟩ := h c anyOutput []
      rw [hd] at hc'
      cases hc'
      exact hall u r hu hlook
  · rintro ⟨d, hd, hle⟩ c _ _
    rw [hd]
    exact ⟨_, rfl, (stored_stageUnstagedSuperseded _ d).mpr hle c⟩

end Stored

/-! ## Exactly when -/

variable (now grace : Duration)

theorem le_saturatingAdd_iff :
    min (now.asNanos + grace.asNanos) i64Max ≤ compactPartitionDeadline now grace ↔ CastsFit now grace := by
  unfold compactPartitionDeadline nowUnixNano saturatingAdd CastsFit u64Max i64Max
  omega

theorem le_localReapDeadline_iff (reapEligibleAt : Nat) : min (now.asNanos + grace.asNanos)
    i64Max ≤ localReapDeadline (nowUnixNano now) grace.asNanos reapEligibleAt ↔ (applyEvent reapEligibleAt).Fits now
    grace := by
  have hlocal := le_saturatingAdd_iff now grace
  unfold compactPartitionDeadline at hlocal
  unfold localReapDeadline Fits
  rw [← hlocal]
  dsimp only
  by_cases hevent : reapEligibleAt = 0
  · simp [hevent]
  · by_cases hgrace : grace.asNanos = 0
    · simp [hevent, hgrace]
    · simp only [hevent, hgrace, if_false, le_max_iff, false_or, ne_eq, not_false_eq_true, true_and]
      exact or_comm

theorem le_walkDeadline_iff : (∃ d, walkDeadline now grace = some d ∧ min
    (now.asNanos + grace.asNanos) i64Max ≤ d) ↔ fullWalk.Fits now grace := by
  have hsome := now.add_isSome_iff grace
  unfold walkDeadline Fits
  cases hadd : now.add grace with
  | none =>
    rw [hadd] at hsome
    have hover : ¬ now.asNanos + grace.asNanos < 2 ^ 64 * 1000000000 := fun h => by simpa using hsome.mpr h
    refine iff_of_false (by simp) ?_
    omega
  | some sum =>
    rw [hadd] at hsome
    have hbound := hsome.mp rfl
    simp only [map_some, some_inj, exists_eq_left', Duration.asNanos_add hadd]
    unfold i64Max
    omega

theorem grace_deadline_saturates_iff (site : Site) (now grace : Duration) :
    site.Saturates now grace ↔ site.Fits now grace := by
  cases site with
  | compactPartition =>
    exact (saturates_merge_iff (fun _ _ _ => ⟨_, rfl, rfl⟩) fun _ _ _ _ => Iff.rfl).trans
      (le_saturatingAdd_iff now grace)
  | applyEvent e =>
    have hrun (c : Catalog) (output : BlockMeta) (inputs : List Uuid) :
        ∃ c', (applyEvent e).run c output inputs now grace = some c' ∧ c'.blocks = (c.applyCompaction output inputs
          (localReapDeadline (nowUnixNano now) grace.asNanos e)).blocks :=
      ⟨(applyEventWithGrace c grace.asNanos (nowUnixNano now) (.superseded inputs output e)).1, rfl,
        blocks_advanceMetaCursor _ output⟩
    exact (saturates_merge_iff hrun fun _ _ _ _ => Iff.rfl).trans (le_localReapDeadline_iff now grace e)
  | fullWalk =>
    exact (saturates_walk_iff (fun _ _ _ => rfl) fun _ _ _ _ => Iff.rfl).trans (le_walkDeadline_iff now grace)
  | reconcilePartition =>
    exact (saturates_walk_iff (fun _ _ _ => rfl) fun _ _ _ _ => Iff.rfl).trans (le_walkDeadline_iff now grace)

/-- A grace of 18446744074 s gives a deadline 0.3 s away; with the largest one the walks panic. -/
theorem long_grace_is_cut :
    let now : Duration := ⟨1700000000, 0, by decide, by decide⟩
    let second : Duration := ⟨1, 0, by decide, by decide⟩
    let long : Duration := ⟨18446744074, 0, by decide, by decide⟩
    let longest : Duration := ⟨2 ^ 64 - 1, 999999999, by decide, by decide⟩
    compactPartitionDeadline now long < compactPartitionDeadline now second ∧
      localReapDeadline (nowUnixNano now) long.asNanos 0 < localReapDeadline (nowUnixNano now) second.asNanos 0 ∧
      walkDeadline now long = some 1700000000290448384 ∧ walkDeadline now second = some 1700000001000000000 ∧
      walkDeadline now longest = none := by
  decide

end Site

end Scry.Cluster
