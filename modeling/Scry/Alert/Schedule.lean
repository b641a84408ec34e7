import Mathlib.Order.Bounds.Basic
import Scry.Alert.Records

/-! # Evaluation slots

The jitter of a slot is shorter than the interval, so that one of the last two slots that ended in time is
the newest due one. A 64-bit number is a natural number, and an operation on two of them gives nothing where
the result does not fit.
-/

namespace Scry.Alert

open Option

def checkedAdd (a b : Nat) : Option Nat := if a + b < 2 ^ 64 then some (a + b) else none

def checkedMul (a b : Nat) : Option Nat := if a * b < 2 ^ 64 then some (a * b) else none

def checkedSub (a b : Nat) : Option Nat := if b ≤ a then some (a - b) else none

theorem checkedSub_one (n : Nat) : checkedSub (n + 1) 1 = some n := if_pos (Nat.le_add_left 1 n)

def nanosPerSecond : Nat := 1000000000

structure EvaluationSlot where
  id : Nat
  startUnixNano : Nat
  endUnixNano : Nat
  executeAtUnixNano : Nat
  deriving DecidableEq

/-- What `slot` and `latest_due_slot` are given alike. `hash` stands for the first eight bytes of the digest. -/
structure Timing where
  hash : MonitorId → Nat → Nat
  monitorId : MonitorId
  everySeconds : Nat
  jitterSeconds : Nat
  evaluationDelayNanos : Nat

namespace Timing

def deterministicJitter (t : Timing) (slotId cap : Nat) : Nat :=
  if cap = 0 then 0 else t.hash t.monitorId slotId % (cap + 1)

def slot (t : Timing) (slotId : Nat) : Option EvaluationSlot := do
  let every ← checkedMul t.everySeconds nanosPerSecond
  if every = 0 then none
  else
    let start ← checkedMul slotId every
    let stop ← checkedAdd start every
    let jitterNanos ← checkedMul t.jitterSeconds nanosPerSecond
    let jitter := t.deterministicJitter slotId (min jitterNanos (every - 1))
    let delayed ← checkedAdd stop t.evaluationDelayNanos
    let executeAt ← checkedAdd delayed jitter
    some ⟨slotId, start, stop, executeAt⟩

def latestDueSlot (t : Timing) (nowUnixNano : Nat) : Option EvaluationSlot := do
  let every ← checkedMul t.everySeconds nanosPerSecond
  if every = 0 then none
  else
    let horizon ← checkedSub nowUnixNano t.evaluationDelayNanos
    let newest ← checkedSub (horizon / every) 1
    let candidate ← t.slot newest
    if candidate.executeAtUnixNano ≤ nowUnixNano then some candidate
    else
      let before ← checkedSub newest 1
      let previous ← t.slot before
      if previous.executeAtUnixNano ≤ nowUnixNano then some previous else none

def every (t : Timing) : Nat := t.everySeconds * nanosPerSecond

def jitter (t : Timing) (slotId : Nat) : Nat :=
  t.deterministicJitter slotId (min (t.jitterSeconds * nanosPerSecond) (t.every - 1))

/-- The interval and the jitter fit, and the interval is not empty. -/
def Runs (t : Timing) : Prop := 0 < t.every ∧ t.every < 2 ^ 64 ∧ t.jitterSeconds * nanosPerSecond < 2 ^ 64

def executeAt (t : Timing) (slotId : Nat) : Nat := (slotId + 1) * t.every + t.evaluationDelayNanos + t.jitter slotId

def slotAt (t : Timing) (slotId : Nat) : EvaluationSlot :=
  ⟨slotId, slotId * t.every, (slotId + 1) * t.every, t.executeAt slotId⟩

def dueSlots (t : Timing) (now : Nat) : Set Nat := { id | ∃ s, t.slot id = some s ∧ s.executeAtUnixNano ≤ now }

def ended (t : Timing) (now : Nat) : Nat := (now - t.evaluationDelayNanos) / t.every

variable {t : Timing} {now now' id k : Nat} {s : EvaluationSlot}

theorem jitter_lt (h : 0 < t.every) (id : Nat) : t.jitter id < t.every := by
  unfold jitter deterministicJitter
  split
  · exact h
  · have hlt := Nat.mod_lt (t.hash t.monitorId id) (min (t.jitterSeconds * nanosPerSecond) (t.every - 1)).succ_pos
    rw [Nat.succ_eq_add_one] at hlt
    omega

theorem slot_eq_some : t.slot id = some s ↔ t.Runs ∧ t.executeAt id < 2 ^ 64 ∧ s = t.slotAt id := by
  unfold slot checkedMul checkedAdd Runs slotAt executeAt jitter every
  rw [Nat.succ_mul]
  simp only [bind_eq_bind, bind_eq_some_iff, ite_none_right_eq_some, ite_none_left_eq_some, some.injEq]
  constructor
  · rintro ⟨_, ⟨hevery, rfl⟩, hpos, _, ⟨-, rfl⟩, _, ⟨-, rfl⟩, _, ⟨hjitter, rfl⟩, _, ⟨-, rfl⟩, _, ⟨hfits, rfl⟩, rfl⟩
    exact ⟨⟨Nat.pos_of_ne_zero hpos, hevery, hjitter⟩, hfits, rfl⟩
  · rintro ⟨⟨hpos, hevery, hjitter⟩, hfits, rfl⟩
    exact ⟨_, ⟨hevery, rfl⟩, Nat.ne_of_gt hpos, _, ⟨by omega, rfl⟩, _, ⟨by omega, rfl⟩, _, ⟨hjitter, rfl⟩, _,
      ⟨by omega, rfl⟩, _, ⟨hfits, rfl⟩, rfl⟩

theorem mem_dueSlots (hnow : now < 2 ^ 64) : id ∈ t.dueSlots now ↔ t.Runs ∧ t.executeAt id ≤ now := by
  simp only [dueSlots, Set.mem_ofPred_eq, slot_eq_some]
  constructor
  · rintro ⟨_, ⟨hruns, -, rfl⟩, hle⟩
    exact ⟨hruns, hle⟩
  · rintro ⟨hruns, hle⟩
    exact ⟨_, ⟨hruns, Nat.lt_of_le_of_lt hle hnow, rfl⟩, hle⟩

theorem lt_executeAt (hpos : 0 < t.every) (hle : t.ended now ≤ id) : now < t.executeAt id := by
  have hlt := (Nat.div_lt_iff_lt_mul hpos).mp (Nat.lt_succ_of_le hle)
  rw [Nat.succ_eq_add_one] at hlt
  unfold executeAt
  omega

/-- A slot that ended `k` intervals earlier is executed within an interval less those. -/
theorem executeAt_lt (hpos : 0 < t.every) (hdelay : t.evaluationDelayNanos ≤ now) (hle : id + 1 + k ≤ t.ended now) :
    t.executeAt id + k * t.every < now + t.every := by
  have hjitter := jitter_lt hpos id
  have hmul := (Nat.le_div_iff_mul_le hpos).mp hle
  rw [Nat.add_mul] at hmul
  unfold executeAt
  omega

theorem latestDueSlot_eq (hruns : t.Runs) (hfits : now + t.every < 2 ^ 64) (hdelay : t.evaluationDelayNanos ≤ now) :
    t.latestDueSlot now =
      match t.ended now with
      | 0 => none
      | newest + 1 =>
        if t.executeAt newest ≤ now then some (t.slotAt newest)
        else
          match newest with
          | 0 => none
          | before + 1 => some (t.slotAt before) := by
  obtain ⟨hpos, hevery, -⟩ := id hruns
  have hslot (k : Nat) {id : Nat} (hid : id + 1 + k = t.ended now) : t.slot id = some (t.slotAt id) := by
    have hlt := executeAt_lt hpos hdelay (Nat.le_of_eq hid)
    exact slot_eq_some.mpr ⟨hruns, by omega, rfl⟩
  have hmul : checkedMul t.everySeconds nanosPerSecond = some t.every := if_pos hevery
  have hsub : checkedSub now t.evaluationDelayNanos = some (now - t.evaluationDelayNanos) := if_pos hdelay
  unfold latestDueSlot
  rw [hmul, bind_eq_bind, bind_some, if_neg (Nat.ne_of_gt hpos), hsub, bind_eq_bind, bind_some, ← ended]
  cases hended : t.ended now with
  | zero => rfl
  | succ newest =>
    rw [checkedSub_one, bind_some, hslot 0 hended.symm, bind_some, slotAt]
    congr 1
    cases newest with
    | zero => rfl
    | succ before =>
      have hlt := executeAt_lt hpos hdelay (Nat.le_of_eq hended.symm)
      rw [checkedSub_one, bind_some, hslot 1 hended.symm, bind_some, slotAt]
      exact if_pos (by dsimp only; omega)

theorem lt_ended_of_mem (hnow : now < 2 ^ 64) (h : id ∈ t.dueSlots now) : id < t.ended now := by
  obtain ⟨hruns, hle⟩ := (mem_dueSlots hnow).mp h
  exact Nat.lt_of_not_le fun hended => absurd (lt_executeAt hruns.1 hended) (Nat.not_lt.mpr hle)

theorem latestDueSlot_runs (h : t.latestDueSlot now = some s) : t.Runs ∧ t.evaluationDelayNanos ≤ now := by
  obtain ⟨_, -, h⟩ := bind_eq_some_iff.mp h
  obtain ⟨_, hsub, h⟩ := bind_eq_some_iff.mp (ite_none_left_eq_some.mp h).2
  obtain ⟨_, -, h⟩ := bind_eq_some_iff.mp h
  obtain ⟨_, hslot, -⟩ := bind_eq_some_iff.mp h
  exact ⟨(slot_eq_some.mp hslot).1, (ite_none_right_eq_some.mp hsub).1⟩

theorem latestDueSlot_spec (hfits : now + t.every < 2 ^ 64) : (∃ s, t.latestDueSlot now = some s ∧ t.slot s.id = some
    s ∧ IsGreatest (t.dueSlots now) s.id) ∨ t.latestDueSlot now = none ∧ t.dueSlots now = ∅ := by
  have hnow : now < 2 ^ 64 := by omega
  by_cases hopen : t.Runs ∧ t.evaluationDelayNanos ≤ now
  · obtain ⟨hruns, hdelay⟩ := hopen
    have hgiven {id : Nat} (hdue : t.executeAt id ≤ now) (hall : ∀ i ∈ t.dueSlots now, i ≤ id) :
        t.slot id = some (t.slotAt id) ∧ IsGreatest (t.dueSlots now) id :=
      ⟨slot_eq_some.mpr ⟨hruns, by omega, rfl⟩, (mem_dueSlots hnow).mpr ⟨hruns, hdue⟩, hall⟩
    have hlt {i : Nat} (hi : i ∈ t.dueSlots now) := lt_ended_of_mem hnow hi
    have heq := latestDueSlot_eq hruns hfits hdelay
    cases hended : t.ended now with
    | zero =>
      rw [hended] at heq hlt
      exact .inr ⟨heq, Set.eq_empty_of_forall_notMem fun i hi => absurd (hlt hi) i.not_lt_zero⟩
    | succ newest =>
      rw [hended] at heq hlt
      by_cases hdue : t.executeAt newest ≤ now
      · exact .inl ⟨_, heq.trans (if_pos hdue), hgiven hdue fun i hi => Nat.le_of_lt_succ (hlt hi)⟩
      · have hne {i : Nat} (hi : i ∈ t.dueSlots now) : i < newest :=
          Nat.lt_of_le_of_ne (Nat.le_of_lt_succ (hlt hi)) fun h => hdue (h ▸ ((mem_dueSlots hnow).mp hi).2)
        have heq := heq.trans (if_neg hdue)
        cases newest with
        | zero => exact .inr ⟨heq, Set.eq_empty_of_forall_notMem fun i hi => absurd (hne hi) i.not_lt_zero⟩
        | succ before =>
          have hbefore := executeAt_lt hruns.1 hdelay (Nat.le_of_eq hended.symm)
          have hdue : t.executeAt before ≤ now := by omega
          exact .inl ⟨_, heq, hgiven hdue fun i hi => Nat.le_of_lt_succ (hne hi)⟩
  · refine .inr ⟨eq_none_iff_forall_ne_some.mpr fun s h => hopen (latestDueSlot_runs h), ?_⟩
    refine Set.eq_empty_of_forall_notMem fun i hi => hopen ?_
    obtain ⟨hruns, hle⟩ := (mem_dueSlots hnow).mp hi
    unfold executeAt at hle
    exact ⟨hruns, by omega⟩

theorem dueSlots_mono (hle : now ≤ now') : t.dueSlots now ⊆ t.dueSlots now' :=
  fun _ ⟨s, hslot, hdue⟩ => ⟨s, hslot, hdue.trans hle⟩

theorem latestDueSlot_isGreatest (hfits : now' + t.everySeconds * nanosPerSecond < 2 ^ 64) (hle : now ≤ now') :
    (t.latestDueSlot now = some s ↔ t.slot s.id = some s ∧ IsGreatest (t.dueSlots now) s.id) ∧
    ((t.latestDueSlot now).isSome ↔ (t.dueSlots now).Nonempty) ∧
    ∀ r ∈ t.latestDueSlot now, ∃ r' ∈ t.latestDueSlot now', r.id ≤ r'.id := by
  have hnow : now + t.every < 2 ^ 64 := Nat.lt_of_le_of_lt (Nat.add_le_add_right hle _) hfits
  obtain ⟨r, hr, hslot, hgreatest⟩ | ⟨hnone, hempty⟩ := latestDueSlot_spec hnow
  · refine ⟨⟨?_, ?_⟩, by simp [hr, Set.nonempty_of_mem hgreatest.1], ?_⟩
    · intro hs
      obtain rfl := some.inj (hr.symm.trans hs)
      exact ⟨hslot, hgreatest⟩
    · rintro ⟨hs, hother⟩
      rw [hother.unique hgreatest, hslot] at hs
      exact hr.trans hs
    · intro _ hmem
      obtain rfl := some.inj (hr.symm.trans hmem)
      have hdue := dueSlots_mono hle hgreatest.1
      obtain ⟨r', hr', -, hgreatest'⟩ | ⟨-, hempty⟩ := latestDueSlot_spec hfits
      · exact ⟨r', hr', hgreatest'.2 hdue⟩
      · rw [hempty] at hdue
        exact hdue.elim
  · refine ⟨⟨fun hs => ?_, fun ⟨_, hother⟩ => ?_⟩, by simp [hnone, hempty], by simp [hnone]⟩
    · rw [hnone] at hs
      cases hs
    · rw [hempty] at hother
      exact hother.1.elim

theorem latestDueSlot_isGreatest_minute : IsGreatest (dueSlots ⟨fun _ _ => 0, 0, 60, 0, 0⟩ 180000000000) 2 :=
  ((latestDueSlot_isGreatest (by decide) (Nat.le_refl 180000000000)).1.mp (by decide :
    latestDueSlot ⟨fun _ _ => 0, 0, 60, 0, 0⟩ 180000000000 =
      some ⟨2, 120000000000, 180000000000, 180000000000⟩)).2

end Timing

end Scry.Alert
