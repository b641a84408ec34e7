import Mathlib.Tactic.IntervalCases
import Scry.Alert.State

/-! # Runs of the alert evaluator

A run folds calls of `evaluate` over the stored state, from no state on. Monitors, observations and
slots are arbitrary from call to call.
-/

namespace Scry.Alert

open Option AlertState List

structure Call where
  monitor : Monitor
  observation : Observation
  slotId : UInt64
  now : UInt64
  deriving DecidableEq

namespace Call

def evaluate (c : Call) (prior : Option AlertState) : AlertState × StateChange :=
  Alert.evaluate c.monitor prior c.observation c.slotId c.now

/-- The stored state reflects the call's revision and slot. -/
def Covered (c : Call) (prior : Option AlertState) : Prop :=
  ∃ s ∈ prior, s.covers c.monitor.revision c.slotId

def sustains (c : Call) : Bool := c.monitor.sustains c.observation

end Call

variable (calls : List Call) (i : Nat)

def stateAt : Option AlertState :=
  (calls.take i).foldl (fun prior c => some (c.evaluate prior).1) none

def statusAt : Option AlertStatus :=
  (stateAt calls i).map status

/-- Status changes over the first `i` calls; the first state counts as one. -/
def statusChanges : Nat :=
  (range i).countP fun k => statusAt calls k ≠ statusAt calls (k + 1)

section Run

variable {calls : List Call} {i : Nat}

theorem stateAt_succ (h : i < calls.length) :
    stateAt calls (i + 1) = some (calls[i].evaluate (stateAt calls i)).1 := by
  rw [stateAt, take_add_one, getElem?_eq_getElem h, foldl_append]
  rfl

theorem stateAt_succ_of_le (h : calls.length ≤ i) : stateAt calls (i + 1) = stateAt calls i := by
  simp [stateAt, take_of_length_le h, take_of_length_le (Nat.le_succ_of_le h)]

theorem stateAt_succ_cases {s : AlertState} (hs : stateAt calls (i + 1) = some s) :
    (stateAt calls i = some s ∧ ∀ hi : i < calls.length, calls[i].Covered (stateAt calls i)) ∨ ∃ hi : i <
    calls.length, ¬ calls[i].Covered (stateAt calls i) ∧ (evaluateSlot calls[i].monitor (stateAt calls i)
    calls[i].observation calls[i].slotId calls[i].now).1 = s := by
  rcases Nat.lt_or_ge i calls.length with hi | hi
  · rw [stateAt_succ hi] at hs
    rcases evaluate_cases calls[i].monitor (stateAt calls i) calls[i].observation calls[i].slotId
      calls[i].now with ⟨t, ht, hcov, he⟩ | ⟨hu, he⟩
    · rw [Call.evaluate, he] at hs
      obtain rfl : t = s := some.inj hs
      exact .inl ⟨ht, fun _ => ⟨t, ht, hcov⟩⟩
    · rw [Call.evaluate, he] at hs
      refine .inr ⟨hi, ?_, some.inj hs⟩
      rintro ⟨t, ht, hcov⟩
      exact Bool.false_ne_true ((hu t ht).symm.trans hcov)
  · rw [stateAt_succ_of_le hi] at hs
    exact .inl ⟨hs, fun h => absurd h (by omega)⟩

theorem forall_stateAt {P : Nat → AlertState → Prop} (step : ∀ i (h : i < calls.length),
    (∀ s ∈ stateAt calls i, P i s) → P (i + 1) (calls[i].evaluate (stateAt calls i)).1)
    (stay : ∀ i s, calls.length ≤ i → P i s → P (i + 1) s) (i : Nat) : ∀ s ∈ stateAt calls i, P i s := by
  induction i with
  | zero =>
    intro s hs
    cases hs
  | succ i ih =>
    rcases Nat.lt_or_ge i calls.length with h | h
    · intro s hs
      rw [stateAt_succ h] at hs
      cases hs
      exact step i h ih
    · intro s hs
      rw [stateAt_succ_of_le h] at hs
      exact stay i s h (ih s hs)

/-! ## Run invariants -/

theorem wellFormed_stateAt (calls : List Call) (i : Nat) : ∀ s ∈ stateAt calls i, s.WellFormed :=
  forall_stateAt (fun _ _ ih => evaluate_wellFormed ih) (fun _ _ _ h => h) i

theorem timed_stateAt (h : calls.Pairwise fun a b => a.now ≤ b.now) (i : Nat) : ∀ s ∈ stateAt calls i, s.Timed := by
  -- The last evaluation is no later than any call still to come.
  have hinv : ∀ s ∈ stateAt calls i, s.Timed ∧
      ∀ k (hk : k < calls.length), i ≤ k → s.lastEvaluatedAtUnixNano ≤ calls[k].now := by
    refine forall_stateAt (P := fun i s => s.Timed ∧
      ∀ k (hk : k < calls.length), i ≤ k → s.lastEvaluatedAtUnixNano ≤ calls[k].now)
      (fun i hi ih => ?_) (fun i s _ hs => ?_) i
    · have hnext : (calls[i].evaluate (stateAt calls i)).1.Timed ∧
          (calls[i].evaluate (stateAt calls i)).1.lastEvaluatedAtUnixNano ≤ calls[i].now :=
        evaluate_timed fun s hs => ⟨(ih s hs).1, (ih s hs).2 i hi le_rfl⟩
      obtain ⟨htimed, hlast⟩ := hnext
      refine ⟨htimed, fun k hk hik => UInt64.le_trans hlast ?_⟩
      exact pairwise_iff_getElem.mp h i k hi hk hik
    · exact ⟨hs.1, fun k hk hik => hs.2 k hk (by omega)⟩
  exact fun s hs => (hinv s hs).1

variable {a : AlertState}

theorem slot_stateAt_succ (ha : a ∈ stateAt calls i) :
    ∃ b ∈ stateAt calls (i + 1), a.slot ≤ b.slot := by
  rcases Nat.lt_or_ge i calls.length with h | h
  · exact ⟨_, stateAt_succ h, slot_le_evaluate ha⟩
  · exact ⟨a, (stateAt_succ_of_le h).trans ha, le_rfl⟩

theorem slot_stateAt_le {j : Nat} (hij : i ≤ j) (ha : a ∈ stateAt calls i) :
    ∃ b ∈ stateAt calls j, a.slot ≤ b.slot := by
  induction j, hij using Nat.le_induction with
  | base => exact ⟨a, ha, le_rfl⟩
  | succ j _ ih =>
    obtain ⟨b, hb, hab⟩ := ih
    obtain ⟨c, hc, hbc⟩ := slot_stateAt_succ hb
    exact ⟨c, hc, hab.trans hbc⟩

theorem transitioned_iff (h : i < calls.length) : (calls[i].evaluate (stateAt calls i)).2.transitioned = true ↔
    statusAt calls i ≠ statusAt calls (i + 1) := by
  rw [statusAt, statusAt, stateAt_succ h, map_some]
  exact evaluate_transitioned

theorem statusChanges_succ :
    statusChanges calls (i + 1) =
      statusChanges calls i + if statusAt calls i ≠ statusAt calls (i + 1) then 1 else 0 := by
  rw [statusChanges, range_succ, countP_append]
  simp [statusChanges, countP_cons]

theorem transitionSequence_stateAt (calls : List Call) (i : Nat) :
    ((stateAt calls i).map transitionSequence).getD 0 = UInt64.ofNat (statusChanges calls i) := by
  induction i with
  | zero => rfl
  | succ i ih =>
    rw [statusChanges_succ, UInt64.ofNat_add, ← ih]
    rcases Nat.lt_or_ge i calls.length with h | h
    · rw [stateAt_succ h, map_some, getD_some, Call.evaluate, evaluate_transitionSequence]
      by_cases hc : statusAt calls i ≠ statusAt calls (i + 1)
      · have ht := (transitioned_iff h).mpr hc
        rw [Call.evaluate] at ht
        rw [if_pos ht, if_pos hc]
        rfl
      · have ht := mt (transitioned_iff h).mp hc
        rw [Call.evaluate] at ht
        rw [if_neg ht, if_neg hc]
        rfl
    · simp [statusAt, stateAt_succ_of_le h]

end Run

/-- **Every run.** The newest slot never goes back, a covered call changes nothing, the counter counts status
changes in 64 bits, and under a monotone clock no timestamp passes the last evaluation. -/
theorem evaluate_run (calls : List Call) : (∀ i j, i ≤ j → ∀ a ∈ stateAt calls i, ∃ b ∈ stateAt calls j, a.slot ≤
    b.slot) ∧ (∀ i (h : i < calls.length), ∀ a ∈ stateAt calls i, a.covers calls[i].monitor.revision calls[i].slotId →
    (calls[i].evaluate (stateAt calls i)).1 = a) ∧ (∀ i, ∀ s ∈ stateAt calls i, s.transitionSequence.toNat =
    statusChanges calls i % 2 ^ 64) ∧ (∀ i (h : i < calls.length), (calls[i].evaluate
    (stateAt calls i)).2.transitioned = true ↔ statusAt calls i ≠ statusAt calls (i + 1)) ∧
    (∀ i, ∀ s ∈ stateAt calls i, ∀ a ∈ s.interrupted, (s.status = .noData ∨ s.status = .error) ∧
    (a.status = .firing ∨ a.status = .recovering)) ∧ ((calls.Pairwise fun a b => a.now ≤ b.now) → ∀ i, ∀ s ∈ stateAt
    calls i, s.sinceUnixNano ≤ s.lastEvaluatedAtUnixNano ∧ ∀ a ∈ s.interrupted, a.sinceUnixNano ≤
    s.lastEvaluatedAtUnixNano) := by
  refine ⟨fun i j hij a ha => slot_stateAt_le hij ha, fun i h a ha hc => ?_, fun i s hs => ?_,
    fun i h => transitioned_iff h, fun i s hs a ha => ?_, fun h i s hs => ?_⟩
  · rw [mem_def.mp ha, Call.evaluate, evaluate_of_covers hc]
  · have hseq := transitionSequence_stateAt calls i
    rw [mem_def.mp hs, map_some, getD_some] at hseq
    rw [hseq, UInt64.toNat_ofNat']
  · obtain ⟨_, _⟩ := wellFormed_stateAt calls i s hs a ha
    constructor
    · cases hst : s.status <;> simp_all [AlertStatus.isOutage]
    · cases hst : a.status <;> simp_all [AlertStatus.isActive]
  · exact ⟨(timed_stateAt h i s hs).since, (timed_stateAt h i s hs).interrupted⟩

theorem evaluate_run_resumed :
    let alert : Monitor := ⟨1, true, ⟨.gt, ⟨0⟩⟩, 0, 60, .noData, .error⟩
    let calls : List Call :=
      [⟨alert, .value ⟨0x3ff0000000000000⟩, 1, 10⟩, ⟨alert, .error "timeout", 2, 20⟩,
        ⟨alert, .error "timeout", 1, 25⟩, ⟨alert, .value ⟨0x3ff0000000000000⟩, 3, 30⟩]
    (statusAt calls 4 = some .firing ∧ statusChanges calls 4 = 3) ∧
      ∀ s ∈ stateAt calls 4, s.transitionSequence.toNat = 3 % 2 ^ 64 ∧
        s.sinceUnixNano ≤ s.lastEvaluatedAtUnixNano := by
  intro alert calls
  have hchanges : statusChanges calls 4 = 3 := by decide
  refine ⟨⟨by decide, hchanges⟩, fun s hs => ?_⟩
  obtain ⟨-, -, hseq, -, -, htimed⟩ := evaluate_run calls
  refine ⟨hchanges ▸ hseq 4 s hs, (htimed ?_ 4 s hs).1⟩
  decide

/-- A monitor without a hold, switched on and off, that only ever sees no data. -/
def flip (k : Nat) : Call where
  monitor :=
    { revision := 0
      enabled := k % 2 == 0
      condition := ⟨.gt, ⟨0⟩⟩
      forSeconds := 0
      recoverForSeconds := 0
      noData := .noData
      executionError := .error }
  observation := .noData
  slotId := UInt64.ofNat k
  now := UInt64.ofNat k

def flips (n : Nat) : List Call := (range n).map flip

def flipStatus (k : Nat) : AlertStatus := if k % 2 = 0 then .noData else .disabled

def Call.slot (c : Call) : ℕ ×ₗ ℕ := slotOf c.monitor.revision c.slotId

theorem Call.slot_le_evaluate (c : Call) (prior : Option AlertState) : c.slot ≤ (c.evaluate prior).1.slot := by
  unfold Call.evaluate
  rcases evaluate_cases c.monitor prior c.observation c.slotId c.now with ⟨s, -, hcov, he⟩ | ⟨-, he⟩
  · exact he ▸ of_decide_eq_true hcov
  · exact he ▸ le_rfl

/-- **A call delivered again changes nothing**, nor does one that comes after a newer one. -/
theorem stateAt_redelivered (calls : List Call) {i j : Nat} (hij : i < j) (hj : j < calls.length)
    (hold : calls[j].slot ≤ calls[i].slot) : stateAt calls (j + 1) = stateAt calls j := by
  obtain ⟨s, hs, hslot⟩ := slot_stateAt_le hij (stateAt_succ (hij.trans hj))
  have hcov := hold.trans ((calls[i].slot_le_evaluate _).trans hslot)
  rw [stateAt_succ hj, mem_def.mp hs, Call.evaluate, evaluate_of_covers (decide_eq_true hcov)]

theorem stateAt_redelivered_flip : stateAt [flip 1, flip 2, flip 1] 3 = stateAt [flip 1, flip 2, flip 1] 2 :=
  stateAt_redelivered _ (i := 0) (by decide) (by decide) le_rfl

theorem flipStatus_succ (k : Nat) : flipStatus (k + 1) ≠ flipStatus k := by
  unfold flipStatus
  rcases Nat.mod_two_eq_zero_or_one k with h | h
  · rw [if_pos h, if_neg (by omega)]
    simp
  · rw [if_pos (by omega), if_neg (by omega)]
    simp

theorem status_evaluate_flip {k : Nat} {prior : Option AlertState}
    (h : Uncovered prior 0 (UInt64.ofNat k)) : ((flip k).evaluate prior).1.status = flipStatus k := by
  rw [Call.evaluate, evaluate_of_uncovered h, flipStatus]
  rcases Nat.mod_two_eq_zero_or_one k with hk | hk <;>
    simp [evaluateSlot, nextStatus, flip, hk]

theorem stateAt_flips {n : Nat} (hn : n ≤ 2 ^ 64) {i : Nat} (hi : i < n) : ∃ s ∈ stateAt (flips n) (i + 1), s.status =
    flipStatus i ∧ s.slot = slotOf 0 (UInt64.ofNat i) := by
  have hget : ∀ k (hk : k < (flips n).length), (flips n)[k] = flip k := by simp [flips]
  have hlen : (flips n).length = n := by simp [flips]
  have hu : Uncovered (stateAt (flips n) i) 0 (UInt64.ofNat i) := by
    cases i with
    | zero =>
      intro s hs
      cases hs
    | succ i =>
      obtain ⟨s, hs, -, hslot⟩ := stateAt_flips hn (by omega : i < n)
      intro t ht
      cases (mem_def.mp hs).symm.trans ht
      rw [covers, hslot, decide_eq_false_iff_not, not_le, slotOf,
        slotOf, Prod.Lex.toLex_lt_toLex]
      refine .inr ⟨rfl, ?_⟩
      simp only [UInt64.toNat_ofNat']
      omega
  refine ⟨_, stateAt_succ (by omega), ?_, ?_⟩
  · rw [hget]
    exact status_evaluate_flip hu
  · rw [hget, Call.evaluate, evaluate_of_uncovered hu]
    rfl

theorem statusChanges_flips {n : Nat} (hn : n ≤ 2 ^ 64) {i : Nat} (hi : i ≤ n) : statusChanges (flips n) i = i := by
  induction i with
  | zero => rfl
  | succ i ih =>
    obtain ⟨s, hs, hstatus, -⟩ := stateAt_flips hn (by omega : i < n)
    have hafter : statusAt (flips n) (i + 1) = some (flipStatus i) := by
      rw [statusAt, mem_def.mp hs, map_some, hstatus]
    have hch : statusAt (flips n) i ≠ statusAt (flips n) (i + 1) := by
      rw [hafter]
      cases i with
      | zero => simp [statusAt, stateAt]
      | succ i =>
        obtain ⟨t, ht, htstatus, -⟩ := stateAt_flips hn (by omega : i < n)
        rw [statusAt, mem_def.mp ht, map_some, htstatus]
        exact fun h => flipStatus_succ i (some.inj h).symm
    rw [statusChanges_succ, if_pos hch, ih (by omega)]

/-- After 2^64 status changes the counter is back at 0. -/
theorem transitionSequence_wraps : statusChanges (flips (2 ^ 64)) (2 ^ 64) = 2 ^ 64 ∧
    ((stateAt (flips (2 ^ 64)) (2 ^ 64)).map transitionSequence).getD 0 = 0 := by
  have hchanges := statusChanges_flips le_rfl (le_refl (2 ^ 64))
  refine ⟨hchanges, ?_⟩
  rw [transitionSequence_stateAt, hchanges]
  rfl

/-! ## Holds -/

/-- From `j` to `i` the alert is Pending under one revision, sustained by each call that was not covered. -/
structure PendingSince (calls : List Call) (revision : UInt64) (j i : Nat) : Prop where
  pos : 0 < j
  le : j ≤ i
  pending : ∀ k, j ≤ k → k ≤ i →
    ∃ s ∈ stateAt calls k, s.status = .pending ∧ s.monitorRevision = revision
  sustained : ∀ k (hk : k < calls.length), j ≤ k + 1 → k < i →
    calls[k].sustains ∨ calls[k].Covered (stateAt calls k)

section Hold

variable {calls : List Call} {i : Nat} {s : AlertState}

theorem PendingSince.of_state (hs : stateAt calls (i + 1) = some s) (hpend : s.status = .pending)
    (hcall : ∀ hi : i < calls.length, calls[i].sustains) : PendingSince calls s.monitorRevision (i + 1) (i + 1) where
  pos := by omega
  le := le_rfl
  pending k hk hki := by
    obtain rfl : k = i + 1 := by omega
    exact ⟨s, hs, hpend, rfl⟩
  sustained k hk hjk hki := by
    obtain rfl : k = i := by omega
    exact .inl (hcall hk)

theorem PendingSince.extend {revision : UInt64} {j : Nat} (h : PendingSince calls revision j i)
    (hs : stateAt calls (i + 1) = some s) (hpend : s.status = .pending) (hrev : s.monitorRevision = revision)
    (hcall : ∀ hi : i < calls.length, calls[i].sustains ∨ calls[i].Covered (stateAt calls i)) : PendingSince calls
    revision j (i + 1) where
  pos := h.pos
  le := Nat.le_succ_of_le h.le
  pending k hk hki := by
    rcases Nat.lt_or_ge i k with hik | hik
    · obtain rfl : k = i + 1 := by omega
      exact ⟨s, hs, hpend, hrev⟩
    · exact h.pending k hk hik
  sustained k hk hjk hki := by
    rcases Nat.lt_or_ge k i with hik | hik
    · exact h.sustained k hk hjk hik
    · obtain rfl : k = i := by omega
      exact hcall hk

theorem since_evaluateSlot_pending {monitor : Monitor} {prior : Option AlertState}
    {observation : Observation} {slotId now : UInt64} (hprior : ∀ s ∈ prior, s.WellFormed)
    (h : (evaluateSlot monitor prior observation slotId now).1.status = .pending) :
    (evaluateSlot monitor prior observation slotId now).1.sinceUnixNano = now ∨
      ∃ s ∈ prior, s.status = .pending ∧ s.monitorRevision = monitor.revision ∧
        (evaluateSlot monitor prior observation slotId now).1.sinceUnixNano = s.sinceUnixNano := by
  -- An outage interrupts Firing and Recovering only, so nothing resumes Pending.
  have hresum : resumedStatus prior .pending = none := by
    rw [eq_none_iff_forall_not_mem]
    intro a ha
    obtain ⟨hstatus, s, hs, -, hint⟩ := mem_of_mem_resumedStatus ha
    have hact := (hprior s hs a hint).2
    rw [hstatus] at hact
    cases hact
  simp only [evaluateSlot] at h ⊢
  rw [h, hresum]
  unfold nextSince
  dsimp only
  split
  next active hnone => cases hnone
  next s _ hfilter =>
    obtain ⟨hs, hcond⟩ := filter_eq_some_iff.mp hfilter
    simp only [AlertStatus.isHold, Bool.not_true, Bool.or_false, Bool.and_eq_true, beq_iff_eq] at hcond
    obtain ⟨t, ht⟩ := isSome_iff_exists.mp hcond.2
    obtain ⟨htp, hrev⟩ := filter_eq_some_iff.mp ht
    cases hs.symm.trans htp
    exact .inr ⟨s, hs, hcond.1, by simpa using hrev, rfl⟩
  next => exact .inl rfl

theorem pendingSince_stateAt (calls : List Call) (i : Nat) : ∀ s ∈ stateAt calls i, s.status = .pending → ∃ j,
    PendingSince calls s.monitorRevision j i ∧ ∃ hj : j - 1 < calls.length, calls[j - 1].now = s.sinceUnixNano ∧
    ¬ calls[j - 1].Covered (stateAt calls (j - 1)) := by
  induction i with
  | zero =>
    intro s hs
    cases hs
  | succ i ih =>
    intro s hs hpend
    rcases stateAt_succ_cases hs with ⟨hsame, hcov⟩ | ⟨hi, hnew, hse⟩
    · obtain ⟨j, hj, hentered⟩ := ih s hsame hpend
      exact ⟨j, hj.extend hs hpend rfl fun hi => .inr (hcov hi), hentered⟩
    · subst hse
      have hsust : calls[i].sustains := (nextStatus_sustains (h := hpend) (.inr rfl)).1
      rcases since_evaluateSlot_pending (wellFormed_stateAt calls i) hpend with
        hsince | ⟨t, ht, htp, htrev, hsince⟩
      · exact ⟨i + 1, .of_state hs hpend fun _ => hsust, hi, hsince.symm, hnew⟩
      · obtain ⟨j, hj, hlen, hnow, hentered⟩ := ih t ht htp
        refine ⟨j, ?_, hlen, hnow.trans hsince.symm, hentered⟩
        rw [htrev] at hj
        exact hj.extend hs hpend rfl fun _ => .inl hsust

end Hold

def holdRun : List Call :=
  let monitor : Monitor := ⟨1, true, ⟨.gt, ⟨0⟩⟩, 1, 0, .noData, .error⟩
  [⟨monitor, .value ⟨0x3ff0000000000000⟩, 1, 0⟩, ⟨monitor, .value ⟨0⟩, 1, 1000000000⟩,
    ⟨monitor, .value ⟨0x3ff0000000000000⟩, 2, 1000000000⟩]

end Scry.Alert
