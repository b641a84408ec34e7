import Scry.Alert.Runs

/-! # Recovery holds over a run

A Recovering status, its own or one that an outage interrupted, carries the time its hold started.
An outage keeps that time even when the rule was edited in between.
-/

namespace Scry.Alert

open Option AlertState

namespace AlertState

variable {s : AlertState} {since : UInt64}

theorem active_of_outage (h : s.status.isOutage) : s.active = s.interrupted := by
  unfold active
  cases hs : s.status <;> simp_all [AlertStatus.isOutage]

def recoveringSince (s : AlertState) : Option UInt64 :=
  (s.active.filter (·.status == .recovering)).map InterruptedStatus.sinceUnixNano

theorem recoveringSince_eq_some : s.recoveringSince = some since ↔ s.active = some ⟨.recovering, since⟩ := by
  rw [recoveringSince, map_eq_some_iff]
  constructor
  · rintro ⟨⟨status, _⟩, ha, rfl⟩
    obtain ⟨ha, hstatus⟩ := filter_eq_some_iff.mp ha
    obtain rfl : status = .recovering := by simpa using hstatus
    exact ha
  · intro h
    exact ⟨⟨.recovering, since⟩, by rw [h]; rfl, rfl⟩

theorem status_of_recoveringSince (h : s.recoveringSince = some since) :
    s.status = .recovering ∧ s.sinceUnixNano = since ∨ s.status.isOutage := by
  rw [recoveringSince_eq_some, active] at h
  cases hs : s.status <;> simp_all [AlertStatus.isOutage]

theorem ne_firing_of_recoveringSince (h : s.recoveringSince = some since) : s.status ≠ .firing := by
  intro hf
  rcases status_of_recoveringSince h with ⟨hr, -⟩ | hout
  · rw [hf] at hr
    cases hr
  · rw [hf] at hout
    cases hout

end AlertState

/-- The first call of its revision is an outage that takes over a Recovering hold. -/
def Call.CarriesHold (c : Call) (prior : Option AlertState) : Prop :=
  ∃ s ∈ prior, s.recoveringSince.isSome ∧
    (c.evaluate prior).1.monitorRevision ≠ s.monitorRevision ∧
    (c.evaluate prior).1.status.isOutage

instance (c : Call) (prior : Option AlertState) : Decidable (c.CarriesHold prior) :=
  inferInstanceAs (Decidable (∃ _ ∈ prior, _))

/-! ## What one evaluation does to a hold -/

section Evaluate

variable {monitor : Monitor} {prior : Option AlertState} {observation : Observation}
  {slotId now : UInt64}

theorem mem_sameRevision {s : AlertState} {revision : UInt64} (hs : s ∈ prior)
    (h : (prior.filter (·.monitorRevision == revision)).isSome) : s.monitorRevision = revision := by
  obtain ⟨t, ht⟩ := isSome_iff_exists.mp h
  obtain ⟨htp, hrev⟩ := filter_eq_some_iff.mp ht
  cases (mem_def.mp hs).symm.trans htp
  simpa using hrev

theorem since_evaluateSlot_recovering (h : (evaluateSlot monitor prior observation slotId now).1.status = .recovering)
    : (evaluateSlot monitor prior observation slotId now).1.sinceUnixNano = now ∨ ∃ s ∈ prior, s.monitorRevision =
    monitor.revision ∧ s.recoveringSince = some (evaluateSlot monitor prior observation slotId
    now).1.sinceUnixNano := by
  simp only [evaluateSlot] at h ⊢
  rw [h]
  unfold nextSince
  dsimp only
  split
  next active hresum =>
    obtain ⟨hresum, hkeeps⟩ := filter_eq_some_iff.mp hresum
    obtain ⟨hstatus, s, hs, hout, hint⟩ := mem_of_mem_resumedStatus hresum
    have hrev := mem_sameRevision hs (by simpa [AlertStatus.isHold] using hkeeps)
    refine .inr ⟨s, hs, hrev, ?_⟩
    rw [recoveringSince_eq_some, active_of_outage hout, ← hstatus]
    exact hint
  next s _ hkept =>
    obtain ⟨hs, hcond⟩ := filter_eq_some_iff.mp hkept
    simp only [AlertStatus.isHold, Bool.not_true, Bool.or_false, Bool.and_eq_true, beq_iff_eq] at hcond
    exact .inr ⟨s, hs, mem_sameRevision hs hcond.2, by rw [recoveringSince_eq_some, active, hcond.1]⟩
  next => exact .inl rfl

theorem recoveringSince_evaluateSlot {since : UInt64} (h : (evaluateSlot monitor prior observation slotId
    now).1.recoveringSince = some since) : (evaluateSlot monitor prior observation slotId now).1.status = .recovering
    ∧ since = now ∨ ∃ s ∈ prior, s.recoveringSince = some since ∧ (s.monitorRevision = monitor.revision ∨
    (evaluateSlot monitor prior observation slotId now).1.status.isOutage) := by
  rcases status_of_recoveringSince h with ⟨hstatus, rfl⟩ | hout
  · rcases since_evaluateSlot_recovering hstatus with hnow | ⟨s, hs, hrev, hsince⟩
    · exact .inl ⟨hstatus, hnow⟩
    · exact .inr ⟨s, hs, hsince, .inl hrev⟩
  · have hact := recoveringSince_eq_some.mp h
    rw [active_of_outage hout] at hact
    simp only [evaluateSlot] at hact hout
    rw [if_pos hout] at hact
    obtain ⟨s, hs, hact⟩ := bind_eq_some_iff.mp hact
    exact .inr ⟨s, hs, recoveringSince_eq_some.mpr hact, .inr hout⟩

theorem clearStatus_inactive (hrecover : 0 < monitor.recoverForSeconds)
    (hact : (prior.bind active).isSome) (h : clearStatus monitor prior
    (prior.filter (·.monitorRevision == monitor.revision)) now = .inactive) : ∃ s ∈ prior, s.monitorRevision =
    monitor.revision ∧ ∃ since, s.recoveringSince = some since ∧ heldFor since now monitor.recoverForSeconds := by
  obtain ⟨a, ha⟩ := isSome_iff_exists.mp hact
  obtain ⟨s, hs, hsa⟩ := bind_eq_some_iff.mp ha
  simp only [clearStatus, ha, beq_zero_of_pos hrecover, Bool.false_eq_true, if_false] at h
  cases hsame : (prior.filter (·.monitorRevision == monitor.revision)).isSome with
  | false =>
    simp only [hsame, Bool.false_eq_true, if_false, filter_none, map_none, getD_none, heldFor_self hrecover] at h
    cases h
  | true =>
    by_cases hstatus : a.status = .recovering
    · simp only [hsame, hstatus, if_true, filter_some, beq_iff_eq, map_some, getD_some] at h
      split at h
      next hheld =>
        refine ⟨s, hs, mem_sameRevision hs hsame, a.sinceUnixNano, ?_, hheld⟩
        rw [recoveringSince_eq_some, hsa, ← hstatus]
      next => cases h
    · simp only [hsame, hstatus, if_true, if_false, filter_some, beq_iff_eq, map_none,
        getD_none, heldFor_self hrecover, Bool.false_eq_true] at h
      cases h

end Evaluate

/-! ## Runs -/

/-- State `j` started the hold `since`, and the states from there to `i` carry it under one revision. -/
structure RecoveringFrom (calls : List Call) (revision since : UInt64) (j i : Nat) : Prop where
  pos : 0 < j
  le : j ≤ i
  entered : ∃ hj : j - 1 < calls.length, calls[j - 1].now = since ∧
    calls[j - 1].monitor.revision = revision ∧ ¬ calls[j - 1].Covered (stateAt calls (j - 1))
  recovering : statusAt calls j = some .recovering
  carried : ∀ k, j ≤ k → k ≤ i →
    ∃ s ∈ stateAt calls k, s.recoveringSince = some since ∧ s.monitorRevision = revision

variable {calls : List Call}

theorem RecoveringFrom.extend {revision since : UInt64} {j i : Nat}
    (h : RecoveringFrom calls revision since j i) {s : AlertState} (hs : stateAt calls (i + 1) = some s)
    (hsince : s.recoveringSince = some since) (hrev : s.monitorRevision = revision) : RecoveringFrom calls
    revision since j (i + 1) where
  pos := h.pos
  le := Nat.le_succ_of_le h.le
  entered := h.entered
  recovering := h.recovering
  carried k hk hki := by
    rcases Nat.lt_or_ge i k with hik | hik
    · obtain rfl : k = i + 1 := by omega
      exact ⟨s, hs, hsince, hrev⟩
    · exact h.carried k hk hik

theorem recoveringFrom_stateAt (hno : ∀ k (hk : k < calls.length), ¬ calls[k].CarriesHold
    (stateAt calls k)) (i : Nat) : ∀ s ∈ stateAt calls i, ∀ since, s.recoveringSince = some since → ∃ j,
    RecoveringFrom calls s.monitorRevision since j i := by
  induction i with
  | zero =>
    intro s hs
    cases hs
  | succ i ih =>
    intro s hs since hsince
    rcases stateAt_succ_cases hs with ⟨hsame, -⟩ | ⟨hi, hnew, hslot⟩
    · obtain ⟨j, hj⟩ := ih s hsame since hsince
      exact ⟨j, hj.extend hs hsince rfl⟩
    · have hstep := some.inj ((stateAt_succ hi).symm.trans hs)
      have hrev : calls[i].monitor.revision = s.monitorRevision := by
        rw [← hslot]
        rfl
      rcases recoveringSince_evaluateSlot (hslot ▸ hsince) with ⟨hstatus, rfl⟩ | ⟨t, ht, htsince, hkept⟩
      · rw [hslot] at hstatus
        refine ⟨i + 1, Nat.succ_pos i, le_rfl, ⟨hi, rfl, hrev, hnew⟩, ?_, fun k hk hki => ?_⟩
        · rw [statusAt, mem_def.mp hs, map_some, hstatus]
        · obtain rfl : k = i + 1 := by omega
          exact ⟨s, hs, hsince, rfl⟩
      · -- An outage of another revision would carry the hold over.
        have htrevision : t.monitorRevision = s.monitorRevision := by
          rcases hkept with hsame | _
          · rw [hsame, hrev]
          · by_contra hne
            refine hno i hi ⟨t, ht, by rw [htsince]; rfl, ?_, ?_⟩
            · rw [hstep]
              exact fun h => hne h.symm
            · rwa [hstep, ← hslot]
        obtain ⟨j, hj⟩ := ih t ht since htsince
        rw [htrevision] at hj
        exact ⟨j, hj.extend hs hsince rfl⟩

/-- A state under the call's revision was Recovering, none since is Firing or of another revision, and
`recover_for_seconds` have passed. -/
structure RecoveredUnder (calls : List Call) (i : Nat) (hi : i < calls.length) (j : Nat) : Prop where
  pos : 0 < j
  le : j ≤ i
  recovering : statusAt calls j = some .recovering
  between : ∀ k, j ≤ k → k ≤ i → ∃ s ∈ stateAt calls k,
    s.status ≠ .firing ∧ s.monitorRevision = calls[i].monitor.revision
  held : ∃ hj : j - 1 < calls.length, ¬ calls[j - 1].Covered (stateAt calls (j - 1)) ∧
    calls[j - 1].monitor.revision = calls[i].monitor.revision ∧
    calls[i].monitor.recoverForSeconds.toNat * 1000000000 ≤
      calls[i].now.toNat - calls[j - 1].now.toNat

/-- **Recovery time of one revision.** Where no outage carries a hold over to another revision, a clear value
resolves an alert only after a hold of its own revision. -/
theorem inactive_after_recovery (calls : List Call) (hno : ∀ k (hk : k < calls.length), ¬ calls[k].CarriesHold
    (stateAt calls k)) (i : Nat) (hi : i < calls.length) (s s' : AlertState) (hs : stateAt calls i = some s)
    (hs' : stateAt calls (i + 1) = some s') (henabled : calls[i].monitor.enabled) (v : F64)
    (hvalue : calls[i].observation = .value v) (hclear : calls[i].monitor.breaching v = false)
    (hrecover : 0 < calls[i].monitor.recoverForSeconds) (hfits : calls[i].monitor.recoverForSeconds.toNat * 1000000000
    ≤ u64Max) (hactive : s.active.isSome) (hinactive : s'.status = .inactive) : ∃ j, RecoveredUnder calls i hi j := by
  rcases stateAt_succ_cases hs' with ⟨hsame, -⟩ | ⟨_, -, hse⟩
  · -- A covered call leaves the state, and an inactive one carries no active status.
    obtain rfl : s = s' := some.inj (hs.symm.trans hsame)
    rw [active, hinactive] at hactive
    cases hactive
  · have hstatus : clearStatus calls[i].monitor (stateAt calls i)
        ((stateAt calls i).filter (·.monitorRevision == calls[i].monitor.revision)) calls[i].now =
          .inactive := by
      subst hse
      simpa [evaluateSlot, nextStatus, henabled, hvalue, hclear] using hinactive
    obtain ⟨t, ht, hrevision, since, hsince, hheld⟩ :=
      clearStatus_inactive hrecover (by rwa [hs, bind_some]) hstatus
    obtain ⟨j, hj⟩ := recoveringFrom_stateAt hno i t ht since hsince
    rw [hrevision] at hj
    obtain ⟨hlen, rfl, hjrev, hcovered⟩ := hj.entered
    refine ⟨j, hj.pos, hj.le, hj.recovering, fun k hk hki => ?_, hlen, hcovered, hjrev, ?_⟩
    · obtain ⟨u, hu, hcarried, hurev⟩ := hj.carried k hk hki
      exact ⟨u, hu, ne_firing_of_recoveringSince hcarried, hurev⟩
    · have hheld : min (calls[i].monitor.recoverForSeconds.toNat * 1000000000) u64Max ≤
          calls[i].now.toNat - calls[j - 1].now.toNat := by simpa [heldFor] using hheld
      rwa [Nat.min_eq_left hfits] at hheld

def recoveryRule (revision : UInt64) : Monitor :=
  ⟨revision, true, ⟨.gt, ⟨0⟩⟩, 0, 10, .noData, .error⟩

def recoveryRun (revision : UInt64) : List Call :=
  [⟨recoveryRule 1, .value ⟨0x3ff0000000000000⟩, 1, 0⟩, ⟨recoveryRule 1, .value ⟨0⟩, 2, 5000000000⟩,
    ⟨recoveryRule revision, .noData, 3, 10000000000⟩, ⟨recoveryRule revision, .value ⟨0⟩, 4, 15000000000⟩]

theorem inactive_after_recovery_same_revision : statusAt (recoveryRun 1) 4 = some .inactive ∧ ∃ j, RecoveredUnder
    (recoveryRun 1) 3 (by decide) j := by
  refine ⟨by decide, ?_⟩
  obtain ⟨s, hs⟩ : ∃ s, stateAt (recoveryRun 1) 3 = some s := ⟨_, rfl⟩
  obtain ⟨s', hs'⟩ : ∃ s', stateAt (recoveryRun 1) 4 = some s' := ⟨_, rfl⟩
  have hactive : s.active.isSome := by
    cases hs
    decide
  have hinactive : s'.status = .inactive := by
    cases hs'
    decide
  exact inactive_after_recovery (recoveryRun 1) (by decide) 3 (by decide) s s' hs hs' rfl ⟨0⟩
    rfl (by decide) (by decide) (by decide) hactive hinactive

/-- Five of the ten seconds were held under revision 1. -/
theorem outage_carries_hold_over : ((recoveryRun 2).Pairwise fun a b => a.now ≤ b.now) ∧
    ((stateAt (recoveryRun 2) 3).bind active).isSome ∧ (recoveryRule 2).breaching ⟨0⟩ = false ∧ statusAt
    (recoveryRun 2) 4 = some .inactive ∧ ¬ ∃ j, RecoveredUnder (recoveryRun 2) 3 (by decide) j := by
  refine ⟨by decide, by decide, by decide, by decide, ?_⟩
  rintro ⟨j, hj⟩
  obtain ⟨s, hs, -, hrevision⟩ := hj.between j le_rfl hj.le
  -- The one Recovering state is of revision 1.
  have hone : ∀ k, k ≤ 3 → statusAt (recoveryRun 2) k = some .recovering →
      (stateAt (recoveryRun 2) k).map monitorRevision = some 1 := by decide
  have h := hone j hj.le hj.recovering
  rw [mem_def.mp hs, map_some, hrevision] at h
  exact absurd h (by decide)

end Scry.Alert
