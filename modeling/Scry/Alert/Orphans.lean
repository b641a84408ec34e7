import Scry.Alert.Evaluator
import Scry.Alert.Heads

/-! # Evaluations over what others left behind

An evaluation with a valid fence, in a store that works and that nobody else writes. Transitions that
were published without a head may be in its way.
-/

namespace Scry.Alert

open Scry.Lib ObjectStore Program Record Option AlertState

variable (observed : Observation) (P : Platform) (w : Store)

/-- The fence holds, the query gives `observed`, the database takes what it is given. -/
def undisturbed : (x : Outside) → OutsideAnswer x → Prop
  | .fence, holds => holds = true
  | .execute _ _ _, observation => observation = observed
  | .fold _, taken => taken = true

abbrev Undisturbed : Answers (Reply (K := String) (V := Version) (B := Document)
    OutsideAnswer) Store :=
  answering (works OutsideAnswer) (undisturbed observed)

theorem exists_undisturbed (x : Outside) : ∃ r, undisturbed observed x r := by
  cases x with
  | fence => exact ⟨true, rfl⟩
  | execute rule slotId slotEnd => exact ⟨observed, rfl⟩
  | fold record => exact ⟨true, rfl⟩

def CurrentRule (rule : Rule) : Prop :=
  ∃ head : Versioned RuleHead, Readable P w (ruleHeadKey rule.id) head ∧
    head.value.schemaVersion = alertRecordSchemaVersion ∧ head.value.id = rule.id ∧
    head.value.deleted = false ∧ head.value.revision = rule.revision

def PriorHead (id : MonitorId) (deploymentId : String) :
    Option (Versioned StateHead) → Prop
  | none => w (stateHeadKey id) = []
  | some head => Readable P w (stateHeadKey id) head ∧
      head.value.validate deploymentId id = .ok ()

/-! ## The steps of the evaluation -/

section Steps

variable {P : Platform} {context : EvaluationContext} {rule : Rule} {slotId slotEnd : UInt64}
  {prior : Option (Versioned StateHead)} {observed : Observation} {w : Store}

theorem liftStore_alone {α : Type} {x : StoreM OutsideAnswer α} {a : α} {post : Store → Prop}
    (h : x.run.Alone (works OutsideAnswer) (fun r w' => r = .ok a ∧ post w') w) :
    (liftStore x).run.Alone (Undisturbed observed) (fun r w' => r = .ok a ∧ post w') w := by
  refine Alone.bind_attempt (h.answers_mono base_of_answering) ?_
  intro w' hw'
  exact .done ⟨rfl, hw'⟩

theorem checkFence_alone (message : String) :
    (checkFence message).run.Alone (Undisturbed observed) (fun r w' => r = .ok () ∧ w' = w) w := by
  refine Alone.bind_query fun x w' hx => ?_
  obtain ⟨rfl, hx⟩ := hx
  obtain rfl : x = true := hx
  exact .done ⟨rfl, rfl⟩

theorem fold_alone (record : Fold) :
    (fold record).run.Alone (Undisturbed observed) (fun r w' => r = .ok () ∧ w' = w) w := by
  refine Alone.bind_query fun x w' hx => ?_
  obtain ⟨rfl, hx⟩ := hx
  obtain rfl : x = true := hx
  exact .done ⟨rfl, rfl⟩

theorem ruleIsCurrent_alone (h : CurrentRule P w rule) : (ruleIsCurrent P context rule).run.Alone
    (Undisturbed observed) (fun r w' => r = .ok true ∧ w' = w) w := by
  obtain ⟨head, hread, hschema, hid, hlive, hrev⟩ := h
  have hhead : (readRuleHead P rule.id : StoreM OutsideAnswer _).run.Alone
      (works OutsideAnswer) (fun r w' => r = .ok head ∧ w' = w) w := by
    refine Alone.bind_ok hread.alone ?_
    rintro w' rfl
    simp only [hschema, hid, bne_self_eq_false, Bool.or_self, Bool.false_eq_true, if_false]
    exact .done ⟨rfl, rfl⟩
  refine Alone.bind_attempt (hhead.answers_mono base_of_answering) ?_
  rintro w' rfl
  simp only [hlive, Bool.false_eq_true, if_false, hrev, if_true]
  exact .done ⟨rfl, rfl⟩

theorem readStateHead_alone (h : PriorHead P w rule.id context.deploymentId prior) :
    (readStateHead P rule.id context.deploymentId : StoreM OutsideAnswer _).run.Alone
      (works OutsideAnswer) (fun r w' => r = .ok prior ∧ w' = w) w := by
  cases prior with
  | none =>
    refine Alone.bind_attempt (readVersioned_absent h) ?_
    rintro w' rfl
    exact .done ⟨rfl, rfl⟩
  | some head =>
    obtain ⟨hread, hvalid⟩ := h
    refine Alone.bind_attempt hread.alone ?_
    rintro w' rfl
    simp only [hvalid]
    exact .done ⟨rfl, rfl⟩

def observationOf (rule : Rule) (observed : Observation) : Observation :=
  if rule.enabled then observed else .noData

theorem observe_alone (h : rule.enabled → rule.targetId ∈ context.queryTargets) :
    (observe context rule slotId slotEnd).run.Alone (Undisturbed observed)
      (fun r w' => r = .ok (observationOf rule observed) ∧ w' = w) w := by
  unfold observe observationOf
  by_cases henabled : rule.enabled
  · rw [if_pos henabled, if_pos (h henabled), if_pos henabled]
    rintro w₁ rfl - x w' hx
    obtain ⟨rfl, hx⟩ := hx
    obtain rfl : x = observed := hx
    exact ⟨trivial, trivial, Alone.done ⟨rfl, rfl⟩⟩
  · rw [if_neg henabled, if_neg henabled]
    exact .done ⟨rfl, rfl⟩

end Steps

/-! ## The commit -/

section Commit

variable (P : Platform) (context : EvaluationContext) (rule : Rule) (slotId slotEnd : UInt64)
  (prior : Option (Versioned StateHead)) (observation : Observation)

/-- There is one unless a first state is no transition. -/
def committedHead : Option StateHead :=
  (latestTransition P (transitionOf context rule slotId slotEnd prior observation) prior).map
    (nextHead context rule slotEnd (evaluation rule slotId slotEnd prior observation).1)

/-- No other record is under the transition's key, and what is written is not too large. -/
def HasRoom (w : Store) : Prop :=
  (∀ record ∈ transitionOf context rule slotId slotEnd prior observation, record.state.transitionSequence ≠ 0 ∧ Fits P
    (toDocument record) ∧ ∀ e ∈ (w ((record.reference P).key rule.id)).head?, e.2 = toDocument record) ∧
  ∀ head ∈ committedHead P context rule slotId slotEnd prior observation,
    Fits P (toDocument head)

variable {P context rule slotId slotEnd prior observation} {w : Store} {observed : Observation}

variable {record : TransitionRecord}

theorem transitionOf_eq_some (h : transitionOf context rule slotId slotEnd prior
    observation = some record) : (evaluation rule slotId slotEnd prior observation).2.transitioned = true ∧ record =
    transitionRecord context rule slotId slotEnd prior observation := by
  unfold transitionOf at h
  split at h
  next htr => exact ⟨htr, (some.inj h).symm⟩
  next => cases h

section

variable (h : transitionOf context rule slotId slotEnd prior observation = none)
include h

theorem transitionOf_eq_none :
    (evaluation rule slotId slotEnd prior observation).2.transitioned = false := by
  unfold transitionOf at h
  split at h
  next => cases h
  next htr => exact Bool.eq_false_iff.mpr htr

theorem transitionOf_first :
    ∃ head, prior = some head := by
  cases prior with
  | some head => exact ⟨head, rfl⟩
  | none =>
    have hnot := transitionOf_eq_none h
    have hfirst : (evaluation rule slotId slotEnd none observation).2.transitioned = true :=
      evaluate_transitioned.mpr fun h => by cases h
    rw [hnot] at hfirst
    cases hfirst

end

theorem evaluation_of_uncovered (slotEnd : UInt64) (observation : Observation)
    (h : Uncovered (prior.map (·.value.state)) rule.revision slotId) :
    (evaluation rule slotId slotEnd prior observation).1.monitorRevision = rule.revision ∧
      (evaluation rule slotId slotEnd prior observation).1.lastSlotId = slotId := by
  unfold evaluation
  rw [evaluate_of_uncovered h]
  exact ⟨rfl, rfl⟩

theorem slot_evaluation (slotEnd : UInt64) (observation : Observation)
    (h : Uncovered (prior.map (·.value.state)) rule.revision slotId) :
    (evaluation rule slotId slotEnd prior observation).1.slot = slotOf rule.revision slotId := by
  obtain ⟨hrev, hslot⟩ := evaluation_of_uncovered slotEnd observation h
  rw [slot, hrev, hslot]

theorem verify_transition (h : Uncovered (prior.map (·.value.state)) rule.revision slotId)
    (hrec : transitionOf context rule slotId slotEnd prior observation = some record) (next : AlertState) :
    (nextHead context rule slotEnd next (record.reference P)).verifyTransition P record = .ok () := by
  obtain ⟨-, rfl⟩ := transitionOf_eq_some hrec
  obtain ⟨hrev, hslot⟩ := evaluation_of_uncovered slotEnd observation h
  exact StateHead.verifyTransition_eq_ok.mpr ⟨rfl, rfl, rfl, hrev.symm, hslot.symm, rfl⟩

theorem sequence_transition (hrec : transitionOf context rule slotId slotEnd prior
    observation = some record) : record.state.transitionSequence = (prior.map (·.value.state.transitionSequence)).getD
    0 + 1 := by
  obtain ⟨htr, rfl⟩ := transitionOf_eq_some hrec
  have hseq : (evaluation rule slotId slotEnd prior observation).1.transitionSequence = _ :=
    evaluate_transitionSequence
  rw [show (evaluate _ _ _ _ _).2.transitioned = true from htr, if_pos rfl, map_map] at hseq
  exact hseq

theorem validate_committedHead (hprior : ∀ p ∈ prior, p.value.validate context.deploymentId rule.id = .ok ())
    (h : Uncovered (prior.map (·.value.state)) rule.revision slotId) {head : StateHead}
    (hhead : committedHead P context rule slotId slotEnd prior observation = some head) : head.validate
    head.deploymentId head.monitorId = .ok () ↔ ∀ record ∈ transitionOf context rule slotId slotEnd prior observation,
    record.state.transitionSequence ≠ 0 := by
  obtain ⟨latest, hlatest, rfl⟩ := map_eq_some_iff.mp hhead
  have hnext := slot_evaluation slotEnd observation h
  rw [StateHead.validate_eq_ok]
  cases htr : transitionOf context rule slotId slotEnd prior observation with
  | some record =>
    obtain ⟨-, rfl⟩ := transitionOf_eq_some htr
    rw [htr] at hlatest
    obtain rfl := some.inj hlatest
    constructor
    · rintro hvalid record ⟨⟩
      exact hvalid.2.2.2.1
    · intro hsequence
      exact ⟨rfl, rfl, rfl, hsequence _ rfl, rfl, rfl, hnext.ge⟩
  | none =>
    obtain ⟨p, rfl⟩ := transitionOf_first htr
    rw [htr] at hlatest
    obtain rfl := some.inj hlatest
    obtain ⟨hstatus, hsequence⟩ :=
      evaluate_of_not_transitioned rfl (transitionOf_eq_none htr)
    obtain ⟨-, -, -, hpos, hseq, hst, hle⟩ := StateHead.validate_eq_ok.mp (hprior p rfl)
    have hlt := covers_eq_false.mp (h p.value.state rfl)
    refine ⟨fun _ _ => nofun, fun _ => ?_⟩
    exact ⟨rfl, rfl, rfl, hpos, hseq.trans hsequence.symm, hst.trans hstatus.symm, hnext.symm ▸ hle.trans hlt.le⟩

/-- The operation failed, not for a head that moved, and left the key alone. -/
def Refused (w : Store) (key : String) (r : Except AlertStoreError Unit) (w' : Store) : Prop :=
  (∃ e, r = .error e ∧ ∀ path, e ≠ .conflict path) ∧ w' key = w key

/-- The transition may stand where the head points. -/
def Open (P : Platform) (w : Store) (head : StateHead) (record : TransitionRecord) : Prop :=
  Fits P (toDocument record) ∧
    ∀ e ∈ (w (head.latestTransition.key head.monitorId)).head?, e.2 = toDocument record

/-- The operation put the head in place. -/
def Moved (head : StateHead) (w : Store) (r : Except AlertStoreError Unit) (w' : Store) : Prop :=
  r = .ok () ∧ ∃ v, w' (stateHeadKey head.monitorId) = (v, toDocument head) :: w (stateHeadKey head.monitorId)

section Store

variable {X : Type} {O : X → Type} {head : StateHead} {transition : Option TransitionRecord}
  {expected : Option Version}

theorem moveStateHead_alone (hfits : Fits P (toDocument head))
    (htop : (w (stateHeadKey head.monitorId)).head?.map Prod.fst = expected) :
    (moveStateHead P head expected : StoreM O _).run.Alone (works O) (Moved head w) w := by
  cases hw : w (stateHeadKey head.monitorId) with
  | nil =>
    rw [hw] at htop
    subst htop
    refine (createHead_new hw hfits).mono fun r w' _ hr => ?_
    obtain ⟨rfl, v, rfl⟩ := hr
    exact ⟨rfl, v, by rw [write_same, hw]⟩
  | cons e rest =>
    rw [hw] at htop
    subst htop
    refine (update_alone hw hfits).mono fun r w' _ hr => ?_
    obtain ⟨rfl, v, -, rfl⟩ := hr
    exact ⟨rfl, v, by rw [write_same, hw]⟩

theorem moveStateHead_oversized (hfits : ¬ Fits P (toDocument head)) :
    (moveStateHead P head expected : StoreM O _).run.Alone (works O)
      (fun r w' => (∃ e, r = .error e ∧ ∀ path, e ≠ .conflict path) ∧ w' = w) w := by
  cases expected with
  | none => exact createHead_oversized hfits
  | some version => exact update_oversized hfits

variable (hverif : ∀ record ∈ transition, head.verifyTransition P record = .ok ())
include hverif

theorem publishTransition_alone (hopen : ∀ record ∈ transition, Open P w head record) :
    (publishTransition P head transition : StoreM O _).run.Alone (works O) (fun r w' => r = .ok () ∧ w' (stateHeadKey head.monitorId) = w (stateHeadKey head.monitorId)) w := by
  cases transition with
  | none => exact .done ⟨rfl, rfl⟩
  | some record =>
    obtain ⟨hfits, hroom⟩ := hopen record rfl
    unfold publishTransition
    simp only [hverif record rfl]
    refine (createIdentical_alone hfits fun e he => (hroom e he).symm ▸ hfits).mono
      fun r w' _ hr => ?_
    cases hw : (w (head.latestTransition.key head.monitorId)).head? with
    | none =>
      rw [hw] at hr
      obtain ⟨rfl, v, rfl⟩ := hr
      have hne := transitionKey_ne_stateHeadKey head.monitorId head.monitorId
        head.latestTransition.sequence head.latestTransition.monitorRevision
        head.latestTransition.slotId head.latestTransition.status
      exact ⟨rfl, write_other hne.symm v _⟩
    | some e =>
      rw [hw] at hr
      obtain ⟨rfl, rfl⟩ := hr
      exact ⟨if_pos (hroom e hw), rfl⟩

theorem commitState_alone (hopen : ∀ record ∈ transition, Open P w head record)
    (hvalid : head.validate head.deploymentId head.monitorId = .ok ()) (hfits : Fits P (toDocument head))
    (htop : (w (stateHeadKey head.monitorId)).head?.map Prod.fst = expected) :
    (commitState P head transition expected : StoreM O _).run.Alone (works O) (Moved head w) w := by
  unfold commitState
  simp only [hvalid]
  refine Alone.bind_ok (publishTransition_alone hverif hopen) fun w₁ hw₁ => ?_
  unfold Moved
  rw [← hw₁] at htop ⊢
  exact moveStateHead_alone hfits htop

theorem commitState_refused (h : head.validate head.deploymentId head.monitorId ≠ .ok () ∨
    (∃ record ∈ transition, ¬ Open P w head record) ∨ ¬ Fits P (toDocument head)) :
    (commitState P head transition expected : StoreM O _).run.Alone (works O)
      (Refused w (stateHeadKey head.monitorId)) w := by
  unfold commitState
  cases hvalid : head.validate head.deploymentId head.monitorId with
  | error message => exact .done ⟨⟨_, rfl, nofun⟩, rfl⟩
  | ok u =>
    dsimp only
    by_cases hblocked : ∃ record ∈ transition, ¬ Open P w head record
    · obtain ⟨record, rfl, hblocked⟩ := hblocked
      unfold publishTransition
      simp only [hverif record rfl]
      rw [Open, not_and_or] at hblocked
      push Not at hblocked
      refine Safe.bind_except trivial
        ((createIdentical_refused hblocked).mono fun r w' _ hr => ?_)
      obtain ⟨⟨e, rfl, he⟩, rfl⟩ := hr
      exact ⟨⟨e, rfl, he⟩, rfl⟩
    · have hfits := (h.resolve_left (not_not.mpr hvalid)).resolve_left hblocked
      push Not at hblocked
      refine Alone.bind_ok (publishTransition_alone hverif hblocked) fun w₁ hw₁ => ?_
      refine (moveStateHead_oversized hfits).mono fun r w' _ hr => ?_
      exact ⟨hr.1, by rw [hr.2, hw₁]⟩

end Store

theorem exists_committedHead (P : Platform) (context : EvaluationContext) (rule : Rule)
    (slotId slotEnd : UInt64) (prior : Option (Versioned StateHead)) (observation : Observation) :
    ∃ head, committedHead P context rule slotId slotEnd prior observation = some head := by
  unfold committedHead
  cases h : transitionOf context rule slotId slotEnd prior observation with
  | some record => exact ⟨_, rfl⟩
  | none =>
    obtain ⟨head, rfl⟩ := transitionOf_first h
    exact ⟨_, rfl⟩

variable {deploymentId : String} {id : MonitorId}

theorem PriorHead.top (h : PriorHead P w id deploymentId prior) :
    (w (stateHeadKey id)).head?.map Prod.fst = prior.map (·.version) := by
  cases prior with
  | none => rw [show w (stateHeadKey id) = [] from h]; rfl
  | some head =>
    obtain ⟨⟨document, rest, htop, -⟩, -⟩ := h
    rw [htop]
    rfl

theorem PriorHead.valid (h : PriorHead P w id deploymentId prior) : ∀ p ∈
    prior, p.value.validate deploymentId id = .ok () := by
  rintro p rfl
  exact h.2

def Committed (P : Platform) (context : EvaluationContext) (rule : Rule) (slotId slotEnd : UInt64)
    (prior : Option (Versioned StateHead)) (observation : Observation) (w : Store)
    (r : Except EvaluationError SlotOutcome) (w' : Store) : Prop :=
  r = .ok (.committed (evaluation rule slotId slotEnd prior observation).1) ∧
    ∃ head ∈ committedHead P context rule slotId slotEnd prior observation, ∃ version,
      w' (stateHeadKey rule.id) = (version, toDocument head) :: w (stateHeadKey rule.id)

def Failed (rule : Rule) (w : Store) (r : Except EvaluationError SlotOutcome) (w' : Store) : Prop :=
  (∃ e, r = .error e) ∧ w' (stateHeadKey rule.id) = w (stateHeadKey rule.id)

theorem transition_committedHead (huncovered : Uncovered (prior.map (·.value.state)) rule.revision slotId)
    {head : StateHead} (hhead : committedHead P context rule slotId slotEnd prior observation = some head) : ∀ record
    ∈ transitionOf context rule slotId slotEnd prior observation, head.verifyTransition P record = .ok () ∧
    head.latestTransition.key head.monitorId = (record.reference P).key rule.id := by
  intro record hrec
  obtain ⟨latest, hlatest, rfl⟩ := map_eq_some_iff.mp hhead
  rw [hrec] at hlatest
  obtain rfl := some.inj hlatest
  exact ⟨verify_transition huncovered hrec _, rfl⟩

variable (hprior : PriorHead P w rule.id context.deploymentId prior)
  (huncovered : Uncovered (prior.map (·.value.state)) rule.revision slotId)
include hprior huncovered

theorem commitSlot_alone (hroom : HasRoom P context rule slotId slotEnd prior observation w) :
    (commitSlot P context rule slotId slotEnd prior observation).run.Alone (Undisturbed observed)
      (Committed P context rule slotId slotEnd prior observation w) w := by
  obtain ⟨head, hhead⟩ := exists_committedHead P context rule slotId slotEnd prior observation
  have hvalid := (validate_committedHead hprior.valid huncovered hhead).mpr
    fun record hrec => (hroom.1 record hrec).1
  have htr := transition_committedHead huncovered hhead
  have hopen : ∀ record ∈ transitionOf context rule slotId slotEnd prior observation, Open P w head record := by
    intro record hrec
    rw [Open, (htr record hrec).2]
    exact (hroom.1 record hrec).2
  obtain ⟨latest, hlatest, hnext⟩ := map_eq_some_iff.mp hhead
  have hid : head.monitorId = rule.id := by rw [← hnext]; rfl
  have hcomm := commitState_alone (O := OutsideAnswer) (fun record h => (htr record h).1) hopen hvalid
    (hroom.2 head hhead) (hid.symm ▸ hprior.top)
  unfold commitSlot
  simp only [hlatest, hnext]
  refine Alone.bind_attempt (hcomm.answers_mono base_of_answering) ?_
  rintro w₁ ⟨v, hv⟩
  refine Alone.bind_ok (fold_alone _) ?_
  rintro w' rfl
  rw [hid] at hv
  exact .done ⟨rfl, head, hhead, v, hv⟩

theorem commitSlot_refused (hroom : ¬ HasRoom P context rule slotId slotEnd prior observation w) :
    (commitSlot P context rule slotId slotEnd prior observation).run.Alone (Undisturbed observed)
      (Failed rule w) w := by
  obtain ⟨head, hhead⟩ := exists_committedHead P context rule slotId slotEnd prior observation
  have hvalid := validate_committedHead hprior.valid huncovered hhead
  have htr := transition_committedHead huncovered hhead
  obtain ⟨latest, hlatest, hnext⟩ := map_eq_some_iff.mp hhead
  have hid : head.monitorId = rule.id := by rw [← hnext]; rfl
  have href : head.validate head.deploymentId head.monitorId ≠ .ok () ∨
      (∃ record ∈ transitionOf context rule slotId slotEnd prior observation, ¬ Open P w head record) ∨
      ¬ Fits P (toDocument head) := by
    by_contra hall
    push Not at hall
    obtain ⟨hok, hrecs, hfits⟩ := hall
    refine hroom ⟨fun record hrec => ?_, fun head' hhead' => ?_⟩
    · rw [← (htr record hrec).2]
      exact ⟨hvalid.mp hok record hrec, hrecs record hrec⟩
    · cases hhead.symm.trans hhead'
      exact hfits
  have hcomm : (commitState P head (transitionOf context rule slotId slotEnd prior observation)
      (prior.map (·.version)) : StoreM OutsideAnswer _).run.Alone
      (works OutsideAnswer) (Refused w (stateHeadKey head.monitorId)) w :=
    commitState_refused (fun record h => (htr record h).1) href
  unfold commitSlot
  simp only [hlatest, hnext]
  refine Safe.bind_attempt trivial
    ((hcomm.answers_mono base_of_answering).mono fun r w' _ hr => ?_)
  obtain ⟨⟨e, rfl, he⟩, hw'⟩ := hr
  rw [hid] at hw'
  cases e with
  | conflict path => exact absurd rfl (he path)
  | _ => exact Alone.done ⟨⟨_, rfl⟩, hw'⟩

end Commit

/-! ## The whole evaluation -/

section Evaluation

variable {P : Platform} {context : EvaluationContext} {rule : Rule} {slotId slotEnd : UInt64}
  {prior : Option (Versioned StateHead)} {observed : Observation} {w : Store}
  {post : Except EvaluationError SlotOutcome → Store → Prop}

variable (hrule : CurrentRule P w rule) (hprior : PriorHead P w rule.id context.deploymentId prior)
  (huncovered : Uncovered (prior.map (·.value.state)) rule.revision slotId)
include huncovered

theorem decided_of_uncovered : (prior.bind fun head => (decided rule slotId head.value.state).map
    fun outcome => (head.value.state, outcome)) = none := by
  cases prior with
  | none => rfl
  | some head =>
    have hcov := huncovered _ rfl
    have hrev : ¬ rule.revision < head.value.state.monitorRevision :=
      UInt64.not_lt.mpr (revision_le_of_slot_lt (covers_eq_false.mp hcov))
    simp [decided, hrev, hcov]

include hrule hprior

theorem evaluateUnderGuard_alone (htarget : rule.enabled → rule.targetId ∈ context.queryTargets)
    (hcomm : (commitSlot P context rule slotId slotEnd prior
      (observationOf rule observed)).run.Alone (Undisturbed observed) post w) :
    (evaluateUnderGuard P context rule slotId slotEnd).run.Alone (Undisturbed observed) post w := by
  refine Alone.bind_ok (checkFence_alone _) ?_
  rintro w₁ rfl
  refine Alone.bind_ok (ruleIsCurrent_alone hrule) ?_
  rintro w₂ rfl
  refine Alone.bind_ok (liftStore_alone (readStateHead_alone hprior)) ?_
  rintro w₃ rfl
  simp only [decided_of_uncovered huncovered]
  refine Alone.bind_ok (observe_alone htarget) ?_
  rintro w₄ rfl
  refine Alone.bind_ok (checkFence_alone _) ?_
  rintro w₅ rfl
  refine Alone.bind_ok (ruleIsCurrent_alone hrule) ?_
  rintro w₆ rfl
  exact hcomm

theorem evaluateUnderGuard_unknown_target (htarget : ¬ (rule.enabled → rule.targetId ∈ context.queryTargets)) :
    (evaluateUnderGuard P context rule slotId slotEnd).run.Alone (Undisturbed observed) (Failed rule w) w := by
  push Not at htarget
  refine Alone.bind_ok (checkFence_alone _) ?_
  rintro w₁ rfl
  refine Alone.bind_ok (ruleIsCurrent_alone hrule) ?_
  rintro w₂ rfl
  refine Alone.bind_ok (liftStore_alone (readStateHead_alone hprior)) ?_
  rintro w₃ rfl
  simp only [decided_of_uncovered huncovered, observe, htarget.1, if_true, if_neg htarget.2]
  exact .done ⟨⟨_, rfl⟩, rfl⟩

end Evaluation

/-! ## A retry with another value -/

def plainContext : EvaluationContext where
  deploymentId := "d"
  queryTargets := ["local"]
  validMonitor _ := true

def ruleStore : Store :=
  emptyStore.write (ruleHeadKey 7) 0 (toDocument (ruleHead plainPlatform plainRule "a"))

theorem currentRule_ruleStore {P : Platform} (hfits : ∀ d, Fits P d) : CurrentRule P ruleStore plainRule :=
  ⟨⟨ruleHead plainPlatform plainRule "a", 0⟩,
    ⟨_, [], write_same .., hfits _, ofDocument_toDocument_head _ _⟩, rfl, rfl, rfl, rfl⟩

theorem priorHead_ruleStore (P : Platform) : PriorHead P ruleStore plainRule.id plainContext.deploymentId none :=
  write_other (stateHeadKey_ne_headKey .rule 7 7) 0 _

theorem hasRoom_ruleStore {P : Platform} (hfits : ∀ d, Fits P d) (observation : Observation) :
    HasRoom P plainContext plainRule 1 60 none observation ruleStore := by
  refine ⟨fun record hrec => ⟨?_, hfits _, fun e he => ?_⟩, fun head _ => hfits _⟩
  · rw [sequence_transition hrec]
    decide
  · have habs : ruleStore ((record.reference P).key plainRule.id) = [] :=
      write_other (transitionKey_ne_headKey .rule _ _ _ _ _ _) 0 _
    rw [habs] at he
    cases he

def one : F64 := ⟨0x3ff0000000000000⟩

def two : F64 := ⟨0x4000000000000000⟩

def firstRecord (v : F64) : TransitionRecord :=
  transitionRecord plainContext plainRule 1 60 none (.value v)

def firstKey : String := ((firstRecord one).reference plainPlatform).key 7

theorem stops_after_transition : (evaluateUnderGuard plainPlatform plainContext plainRule 1 60).run.Stops
    (Undisturbed (.value one)) ruleStore (ruleStore.write firstKey 0 (toDocument (firstRecord one))) := by
  have hrule : Undisturbed (.value one) ruleStore (.get (ruleHeadKey 7))
      (.ok (toDocument (ruleHead plainPlatform plainRule "a"), 0)) ruleStore := by
    refine ⟨rfl, ?_⟩
    rw [show ruleStore (ruleHeadKey 7) = _ from write_same ..]
    rfl
  have hstate : Undisturbed (.value one) ruleStore (.get (stateHeadKey 7)) (.error .notFound)
      ruleStore := by
    refine ⟨rfl, ?_⟩
    rw [show ruleStore (stateHeadKey 7) = [] from priorHead_ruleStore plainPlatform]
    rfl
  -- The fence and the rule, the state, the query, the fence and the rule again.
  refine .ask (x := true) ⟨rfl, rfl⟩ (.ask hrule ?_)
  refine .ask hstate ?_
  refine .ask (x := .value one) ⟨rfl, rfl⟩ ?_
  refine .ask (x := true) ⟨rfl, rfl⟩ (.ask hrule ?_)
  refine .ask (x := .ok ()) (.inl ⟨?_, .inl rfl, 0, rfl⟩) (.here _ _)
  exact write_other (by decide +kernel : firstKey ≠ ruleHeadKey 7) 0 _

end Scry.Alert
