import Mathlib.Algebra.BigOperators.Group.List.Basic
import Mathlib.Data.List.Dedup
import Scry.Distributed.Schedule

/-! # Schedules are safe and do not depend on the order of the input

What the checks let through has no repeated block, worker or offer, so everything the loop looks at is sorted
or looked up by a key that tells it apart.
-/

open Scry.Lib

namespace Scry.Distributed

open List

/-! ## What is accepted -/

section Accepted

variable (requirements : EligibilityRequirements) (policy : EligibilityPolicy)

def Eligible (w : WorkerSnapshot) : Prop := w.eligibility requirements policy = .ok ()

instance (w : WorkerSnapshot) : Decidable (Eligible requirements policy w) :=
  inferInstanceAs (Decidable (_ = _))

def exclusionOf (w : WorkerSnapshot) : Option WorkerExclusion :=
  match w.eligibility requirements policy with
  | .ok () => none
  | .error reason => some ⟨w.workerId, reason⟩

def eligibleWorkers (workers : List WorkerSnapshot) : List WorkerSnapshot :=
  workers.filter (Eligible requirements policy ·)

def excludedWorkers (workers : List WorkerSnapshot) : List WorkerExclusion :=
  workers.filterMap (exclusionOf requirements policy)

variable {requirements policy}

theorem exclusionOf_workerId {w : WorkerSnapshot} {e : WorkerExclusion}
    (h : exclusionOf requirements policy w = some e) : e.workerId = w.workerId := by
  unfold exclusionOf at h
  split at h
  · cases h
  · cases h
    rfl

theorem admitWorkers_eq (workers eligible : List WorkerSnapshot) (exclusions : List WorkerExclusion) : admitWorkers
    requirements policy workers eligible exclusions = (scanDistinct (fun _ => .ok ()) (·.workerId)
    (fun w => .duplicateWorker w.workerId) (eligible.map (·.workerId) ++ exclusions.map (·.workerId)) workers).map
    fun _ => (eligible ++ eligibleWorkers requirements policy workers, exclusions ++ excludedWorkers requirements
    policy workers) := by
  induction workers generalizing eligible exclusions with
  | nil => simp [admitWorkers, scanDistinct, Except.map, eligibleWorkers, excludedWorkers]
  | cons w workers ih =>
    have hseen : (eligible.any (·.workerId = w.workerId) || exclusions.any (·.workerId = w.workerId)) = true ↔
        w.workerId ∈ eligible.map (·.workerId) ++ exclusions.map (·.workerId) := by
      simp
    simp only [admitWorkers, scanDistinct, bind, Except.bind, hseen]
    split
    · rfl
    cases helig : w.eligibility requirements policy with
    | ok u =>
      have hfilter : eligibleWorkers requirements policy (w :: workers) =
          w :: eligibleWorkers requirements policy workers :=
        filter_cons_of_pos (decide_eq_true helig)
      have hexcl : excludedWorkers requirements policy (w :: workers) =
          excludedWorkers requirements policy workers :=
        filterMap_cons_none (by rw [exclusionOf, helig])
      simp only [ih, hfilter, hexcl, append_assoc, singleton_append]
      refine congrArg _ (scanDistinct_congr (fun k => ?_) workers)
      rw [map_append, append_assoc]
      exact perm_middle.mem_iff
    | error reason =>
      have hfilter : eligibleWorkers requirements policy (w :: workers) =
          eligibleWorkers requirements policy workers :=
        filter_cons_of_neg (by simp [Eligible, helig])
      have hexcl : excludedWorkers requirements policy (w :: workers) =
          ⟨w.workerId, reason⟩ :: excludedWorkers requirements policy workers :=
        filterMap_cons_some (by rw [exclusionOf, helig])
      simp only [ih, hfilter, hexcl, append_assoc, singleton_append]
      refine congrArg _ (scanDistinct_congr (fun k => ?_) workers)
      rw [map_append, ← append_assoc]
      exact (perm_append_singleton _ _).mem_iff

theorem admitWorkers_ok {workers : List WorkerSnapshot} {r : List WorkerSnapshot × List WorkerExclusion} :
    admitWorkers requirements policy workers [] [] = .ok r ↔ (workers.map (·.workerId)).Nodup ∧ r =
    (eligibleWorkers requirements policy workers, excludedWorkers requirements policy workers) := by
  have heq : admitWorkers requirements policy workers [] [] =
      (scanDistinct (fun _ => .ok ()) (·.workerId) (fun w => .duplicateWorker w.workerId) [] workers).map
        fun _ => (eligibleWorkers requirements policy workers, excludedWorkers requirements policy workers) :=
    admitWorkers_eq workers [] []
  rw [heq]
  constructor
  · intro h
    cases hscan : scanDistinct (fun _ => .ok ()) (·.workerId)
        (fun w : WorkerSnapshot => ScheduleError.duplicateWorker w.workerId) [] workers with
    | error e =>
      rw [hscan] at h
      cases h
    | ok u =>
      rw [hscan] at h
      cases h
      exact ⟨(scanDistinct_ok.mp hscan).2.1, rfl⟩
  · rintro ⟨hnodup, rfl⟩
    rw [scanDistinct_ok.mpr ⟨fun _ _ => rfl, hnodup, fun _ _ => not_mem_nil⟩]
    rfl

theorem checkOffer_ok {blocks : List SchedulableBlock} {eligible : List WorkerSnapshot} {o : BlockOffer} : checkOffer
    blocks eligible o = .ok () ↔ (∃ b ∈ blocks, b.blockId = o.blockId) ∧ ∃ w ∈ eligible, w.workerId = o.workerId := by
  simp only [checkOffer, except_unit_bind_ok, refuseIf_ok]
  push Not
  rfl

variable (requirements policy)

structure Accepted (deployment coordinatorId : String) (config : SchedulerConfig)
    (blocks : List SchedulableBlock) (workers : List WorkerSnapshot) (offers : List BlockOffer) : Prop where
  validPolicy : policy.validate = .ok ()
  validConfig : config.validate = .ok ()
  coordinator : coordinatorId ≠ ""
  deployment : deployment = requirements.deployment
  workerCount : workers.length ≤ maxWorkerSnapshots
  offerCount : offers.length ≤ saturatingMul blocks.length maxOffersPerBlock
  blockCount : blocks.length ≤ config.maximumBlocksPerQuery
  blockIds : ∀ b ∈ blocks, b.blockId ≠ ""
  distinctBlocks : (blocks.map (·.blockId)).Nodup
  distinctWorkers : (workers.map (·.workerId)).Nodup
  knownOffers : ∀ o ∈ offers, (∃ b ∈ blocks, b.blockId = o.blockId) ∧
    ∃ w ∈ eligibleWorkers requirements policy workers, w.workerId = o.workerId
  distinctOffers : (offers.map offerKey).Nodup

def scheduleOf (deployment signal coordinatorId : String) (config : SchedulerConfig)
    (blocks : List SchedulableBlock) (workers : List WorkerSnapshot) (offers : List BlockOffer) : Schedule :=
  let eligible := sortBy (·.workerId) (eligibleWorkers requirements policy workers)
  let affinityWorkers := (eligible.map (·.workerId)).filter (· ≠ coordinatorId)
  let assignments := assignBlocks coordinatorId config eligible offers
    (fun blockId => rendezvousWorker deployment signal blockId affinityWorkers)
    (sortBy (blockKey eligible offers) blocks) noLoads []
  ⟨sortBy (·.blockId) assignments, sortBy (·.workerId) (excludedWorkers requirements policy workers)⟩

variable {requirements policy}

theorem scheduleBlocks_ok {deployment signal coordinatorId : String} {config : SchedulerConfig}
    {blocks : List SchedulableBlock} {workers : List WorkerSnapshot} {offers : List BlockOffer} {schedule : Schedule}
    : scheduleBlocks deployment signal coordinatorId blocks workers offers requirements policy config = .ok schedule ↔
    Accepted requirements policy deployment coordinatorId config blocks workers offers ∧ schedule = scheduleOf
    requirements policy deployment signal coordinatorId config blocks workers offers := by
  unfold scheduleBlocks
  simp only [↓except_unit_bind_ok, except_bind_ok, mapError_ok, refuseIf_ok, checkBlocks, checkOffers,
    scanDistinct_ok, admitWorkers_ok, checkOffer_ok, checkBlock, pure, Except.pure, Except.ok.injEq]
  constructor
  · rintro ⟨hpolicy, hconfig, hcoord, hdep, hworkers, hoffers, hblocks, ⟨hids, hdist, -⟩,
      _, ⟨hnodup, rfl⟩, ⟨hknown, hkeys, -⟩, rfl⟩
    exact ⟨⟨hpolicy, hconfig, hcoord, not_not.mp hdep, not_lt.mp hworkers, not_lt.mp hoffers,
      not_lt.mp hblocks, hids, hdist, hnodup, hknown, hkeys⟩, rfl⟩
  · rintro ⟨h, rfl⟩
    exact ⟨h.validPolicy, h.validConfig, h.coordinator, not_not.mpr h.deployment, not_lt.mpr h.workerCount, not_lt.mpr
      h.offerCount, not_lt.mpr h.blockCount, ⟨h.blockIds, h.distinctBlocks, fun _ _ => not_mem_nil⟩, _,
      ⟨h.distinctWorkers, rfl⟩, ⟨h.knownOffers, h.distinctOffers, fun _ _ => not_mem_nil⟩, rfl⟩

/-! ## Order of the input -/

variable {deployment signal coordinatorId : String} {config : SchedulerConfig}
  {blocks blocks' : List SchedulableBlock} {workers workers' : List WorkerSnapshot}
  {offers offers' : List BlockOffer}

theorem Accepted.perm (h : Accepted requirements policy deployment coordinatorId config blocks workers offers)
    (hblocks : blocks.Perm blocks') (hworkers : workers.Perm workers') (hoffers : offers.Perm offers') :
    Accepted requirements policy deployment coordinatorId config blocks' workers' offers' where
  validPolicy := h.validPolicy
  validConfig := h.validConfig
  coordinator := h.coordinator
  deployment := h.deployment
  workerCount := hworkers.length_eq ▸ h.workerCount
  offerCount := hoffers.length_eq ▸ hblocks.length_eq ▸ h.offerCount
  blockCount := hblocks.length_eq ▸ h.blockCount
  blockIds b hb := h.blockIds b (hblocks.mem_iff.mpr hb)
  distinctBlocks := (hblocks.map _).nodup_iff.mp h.distinctBlocks
  distinctWorkers := (hworkers.map _).nodup_iff.mp h.distinctWorkers
  knownOffers o ho := by
    obtain ⟨⟨b, hb, hblock⟩, w, hw, hworker⟩ := h.knownOffers o (hoffers.mem_iff.mpr ho)
    exact ⟨⟨b, hblocks.mem_iff.mp hb, hblock⟩, w, (hworkers.filter _).mem_iff.mp hw, hworker⟩
  distinctOffers := (hoffers.map _).nodup_iff.mp h.distinctOffers

theorem assignBlocks_congr (h : offerFor offers = offerFor offers') (eligible : List WorkerSnapshot)
    (affinityOf : String → Option String) (blocks : List SchedulableBlock) (loads : Loads)
    (assignments : List BlockAssignment) : assignBlocks coordinatorId config eligible offers affinityOf blocks loads
    assignments = assignBlocks coordinatorId config eligible offers' affinityOf blocks loads assignments := by
  have hcand : candidate coordinatorId config offers = candidate coordinatorId config offers' := by
    funext loads affinity b w
    rw [candidate, candidate, h]
  have hreason : assignmentReason offers = assignmentReason offers' := by
    funext affinity b candidates chosen
    rw [assignmentReason, assignmentReason, h]
  induction blocks generalizing loads assignments with
  | nil => rfl
  | cons b blocks ih =>
    have hblock : assignBlock coordinatorId config eligible offers affinityOf loads b =
        assignBlock coordinatorId config eligible offers' affinityOf loads b := by
      rw [assignBlock, assignBlock, hcand, hreason]
    rw [assignBlocks, assignBlocks, hblock]
    exact ih _ _

theorem scheduleOf_perm (h : Accepted requirements policy deployment coordinatorId config blocks workers offers)
    (hblocks : blocks.Perm blocks') (hworkers : workers.Perm workers') (hoffers : offers.Perm offers') : scheduleOf
    requirements policy deployment signal coordinatorId config blocks workers offers = scheduleOf requirements policy
    deployment signal coordinatorId config blocks' workers' offers' := by
  have helig : sortBy (·.workerId) (eligibleWorkers requirements policy workers) =
      sortBy (·.workerId) (eligibleWorkers requirements policy workers') := by
    refine sortBy_eq_of_perm _ (hworkers.filter _) fun a ha b hb hab => ?_
    exact inj_on_of_nodup_map h.distinctWorkers (mem_of_mem_filter ha)
      (mem_of_mem_filter hb) hab
  have hexcl : sortBy (·.workerId) (excludedWorkers requirements policy workers) =
      sortBy (·.workerId) (excludedWorkers requirements policy workers') := by
    refine sortBy_eq_of_perm _ (hworkers.filterMap _) fun a ha b hb hab => ?_
    obtain ⟨v, hv, hva⟩ := mem_filterMap.mp ha
    obtain ⟨w, hw, hwb⟩ := mem_filterMap.mp hb
    rw [exclusionOf_workerId hva, exclusionOf_workerId hwb] at hab
    obtain rfl := inj_on_of_nodup_map h.distinctWorkers hv hw hab
    exact Option.some.inj (hva.symm.trans hwb)
  have hoffer : offerFor offers = offerFor offers' := by
    funext blockId workerId
    exact find?_key_perm hoffers h.distinctOffers (blockId, workerId)
  have hkey (eligible : List WorkerSnapshot) : blockKey eligible offers = blockKey eligible offers' := by
    funext b
    rw [blockKey, blockKey, bestLocality, bestLocality, hoffer]
  have horder (eligible : List WorkerSnapshot) :
      sortBy (blockKey eligible offers) blocks = sortBy (blockKey eligible offers') blocks' := by
    rw [← hkey]
    refine sortBy_eq_of_perm _ hblocks fun a ha b hb hab => ?_
    have hid : a.blockId = b.blockId := congrArg (fun k => (ofLex (ofLex k).2).2) hab
    exact inj_on_of_nodup_map h.distinctBlocks ha hb hid
  simp only [scheduleOf, helig, hexcl, horder, assignBlocks_congr hoffer]

end Accepted

/-! ## One block -/

section Loop

variable {coordinatorId : String} {config : SchedulerConfig} {eligible : List WorkerSnapshot}
  {offers : List BlockOffer} {affinityOf : String → Option String}

def Offered (eligible : List WorkerSnapshot) (offers : List BlockOffer) (blockId workerId : String) : Prop :=
  (∃ w ∈ eligible, w.workerId = workerId) ∧
    ∃ o ∈ offers, o.blockId = blockId ∧ o.workerId = workerId ∧ o.admitted = true

variable {loads : Loads} {assignments : List BlockAssignment} {b : SchedulableBlock}

theorem candidate_some {affinity : Option String} {w : WorkerSnapshot} {c : Candidate}
    (hw : w ∈ eligible) (h : candidate coordinatorId config offers loads affinity b w = some c) : Offered eligible
    offers b.blockId c.workerId ∧ c.isLocal = decide (c.workerId = coordinatorId) ∧
    (c.workerId = coordinatorId ∨ ¬ atCapacity config loads c.workerId b) := by
  unfold candidate at h
  split at h
  · cases h
  next o hoffer =>
    split at h
    · cases h
    split at h
    · cases h
    next hadmitted hroom =>
      cases h
      have hkey : offerKey o = (b.blockId, w.workerId) := by simpa using find?_some hoffer
      refine ⟨⟨⟨w, hw, rfl⟩, o, mem_of_find?_eq_some hoffer, congrArg Prod.fst hkey,
        congrArg Prod.snd hkey, not_not.mp hadmitted⟩, rfl, ?_⟩
      by_cases hlocal : w.workerId = coordinatorId
      · exact .inl hlocal
      · exact .inr fun hfull => hroom ⟨hlocal, hfull⟩

variable (coordinatorId config eligible offers affinityOf) in
theorem assignBlock_cases (loads : Loads) (b : SchedulableBlock) :
    (∃ chosen : Candidate, Offered eligible offers b.blockId chosen.workerId ∧ chosen.isLocal = decide
    (chosen.workerId = coordinatorId) ∧ (chosen.workerId = coordinatorId ∨ ¬ atCapacity config loads chosen.workerId
    b) ∧ ∃ reason, assignBlock coordinatorId config eligible offers affinityOf loads b =
    (loads.add chosen b, ⟨b.blockId, chosen.workerId, b.estimatedBytes, chosen.locality, reason⟩)) ∨ assignBlock
    coordinatorId config eligible offers affinityOf loads b = (loads,
    ⟨b.blockId, coordinatorId, b.estimatedBytes, .cold, .localFallback⟩) := by
  rw [assignBlock]
  split
  next chosen hhead =>
    have hmem := (mem_sortBy candidateKey).mp (mem_of_mem_head? hhead)
    obtain ⟨w, hw, hcand⟩ := mem_filterMap.mp hmem
    obtain ⟨hoffered, hlocal, hroom⟩ := candidate_some hw hcand
    exact .inl ⟨chosen, hoffered, hlocal, hroom, _, rfl⟩
  next => exact .inr rfl

theorem assignBlocks_keeps {I : Loads → List BlockAssignment → Prop}
    (hstep : ∀ loads assignments b, I loads assignments → I (assignBlock coordinatorId config eligible offers
    affinityOf loads b).1 (assignments ++ [(assignBlock coordinatorId config eligible offers affinityOf loads b).2]))
    (blocks : List SchedulableBlock) (h : I loads assignments) : ∃ final, I final
    (assignBlocks coordinatorId config eligible offers affinityOf blocks loads assignments) := by
  induction blocks generalizing loads assignments with
  | nil => exact ⟨loads, h⟩
  | cons b blocks ih => exact ih (hstep loads assignments b h)

def BlockAssignment.block (a : BlockAssignment) : SchedulableBlock := ⟨a.blockId, a.estimatedBytes⟩

theorem assignBlocks_block (blocks : List SchedulableBlock) (loads : Loads) (assignments : List BlockAssignment) :
    (assignBlocks coordinatorId config eligible offers affinityOf blocks loads assignments).map (·.block) =
    assignments.map (·.block) ++ blocks := by
  induction blocks generalizing loads assignments with
  | nil => exact (append_nil _).symm
  | cons b blocks ih =>
    have hblock : (assignBlock coordinatorId config eligible offers affinityOf loads b).2.block = b := by
      obtain ⟨chosen, -, -, -, reason, heq⟩ | heq :=
        assignBlock_cases coordinatorId config eligible offers affinityOf loads b
      · rw [heq]
        rfl
      · rw [heq]
        rfl
    rw [assignBlocks, ih, map_append, map_singleton, hblock, append_assoc, singleton_append]

/-! ## The limits -/

variable (workerId : String)

def assignedTo (assignments : List BlockAssignment) : List BlockAssignment :=
  assignments.filter (·.workerId = workerId)

def assignedBytes (assignments : List BlockAssignment) : Nat :=
  ((assignedTo workerId assignments).map (·.estimatedBytes.toNat)).sum

def remoteWorkers (coordinatorId : String) (assignments : List BlockAssignment) : List String :=
  ((assignments.map (·.workerId)).filter (· ≠ coordinatorId)).dedup

@[simp] theorem assignedTo_append (assignments : List BlockAssignment)
    (a : BlockAssignment) : assignedTo workerId (assignments ++ [a]) =
      assignedTo workerId assignments ++ if a.workerId = workerId then [a] else [] := by
  simp [assignedTo, filter_singleton]

@[simp] theorem assignedBytes_append (assignments : List BlockAssignment)
    (a : BlockAssignment) : assignedBytes workerId (assignments ++ [a]) =
      assignedBytes workerId assignments + if a.workerId = workerId then a.estimatedBytes.toNat else 0 := by
  unfold assignedBytes
  rw [assignedTo_append]
  split <;> simp

variable (coordinatorId config eligible offers) in
structure Kept (loads : Loads) (assignments : List BlockAssignment) : Prop where
  placed : ∀ a ∈ assignments,
    a.workerId = coordinatorId ∨ Offered eligible offers a.blockId a.workerId
  counted : ∀ id ≠ coordinatorId,
    loads.states id = ⟨(assignedTo id assignments).length, assignedBytes id assignments⟩
  blocksFit : ∀ id ≠ coordinatorId, (assignedTo id assignments).length ≤ config.maximumBlocksPerWorker
  bytesFit : ∀ id ≠ coordinatorId, assignedBytes id assignments ≤ config.maximumBytesPerWorker.toNat
  active : ∀ a ∈ assignments, a.workerId ≠ coordinatorId → a.workerId ∈ loads.activeRemote
  workersFit : loads.activeRemote.length ≤ config.maximumWorkersPerQuery

theorem Kept.empty : Kept coordinatorId config eligible offers noLoads [] where
  placed := forall_mem_nil _
  counted _ _ := rfl
  blocksFit _ _ := Nat.zero_le _
  bytesFit _ _ := Nat.zero_le _
  active := forall_mem_nil _
  workersFit := Nat.zero_le _

theorem Kept.local_ {loads' : Loads} {a : BlockAssignment} (h : Kept coordinatorId config eligible offers loads
    assignments) (ha : a.workerId = coordinatorId) (hstates : ∀ id ≠ coordinatorId, loads'.states id = loads.states
    id) (hact : loads'.activeRemote = loads.activeRemote) : Kept coordinatorId config eligible offers loads'
    (assignments ++ [a]) := by
  have hto (id : String) (hid : id ≠ coordinatorId) :
      assignedTo id (assignments ++ [a]) = assignedTo id assignments := by
    rw [assignedTo_append, if_neg (ha ▸ hid.symm), append_nil]
  have hbytes (id : String) (hid : id ≠ coordinatorId) :
      assignedBytes id (assignments ++ [a]) = assignedBytes id assignments := by
    rw [assignedBytes, hto id hid, assignedBytes]
  refine ⟨fun c hc => ?_, fun id hid => ?_, fun id hid => ?_, fun id hid => ?_, fun c hc hrem => ?_, ?_⟩
  · rcases mem_append.mp hc with hc | hc
    · exact h.placed c hc
    · exact .inl (mem_singleton.mp hc ▸ ha)
  · rw [hstates id hid, hto id hid, hbytes id hid, h.counted id hid]
  · exact hto id hid ▸ h.blocksFit id hid
  · exact hbytes id hid ▸ h.bytesFit id hid
  · rcases mem_append.mp hc with hc | hc
    · exact hact ▸ h.active c hc hrem
    · exact absurd (mem_singleton.mp hc ▸ ha) hrem
  · exact hact ▸ h.workersFit

theorem Kept.remote {chosen : Candidate} {reason : AssignmentReason}
    (h : Kept coordinatorId config eligible offers loads assignments)
    (hlimit : config.maximumBytesPerWorker.toNat < u64Max) (hoffered : Offered eligible offers b.blockId
    chosen.workerId) (hlocal : chosen.isLocal = decide (chosen.workerId = coordinatorId))
    (hrem : chosen.workerId ≠ coordinatorId) (hroom : ¬ atCapacity config loads chosen.workerId b) : Kept
    coordinatorId config eligible offers (loads.add chosen b) (assignments ++
    [⟨b.blockId, chosen.workerId, b.estimatedBytes, chosen.locality, reason⟩]) := by
  have hstate := h.counted chosen.workerId hrem
  simp only [atCapacity, not_or, not_le, not_lt, not_and, hstate] at hroom
  obtain ⟨hblocks, hbytes, hworkers⟩ := hroom
  have hsum : saturatingAdd (assignedBytes chosen.workerId assignments) b.estimatedBytes.toNat =
      assignedBytes chosen.workerId assignments + b.estimatedBytes.toNat := by
    unfold saturatingAdd at hbytes ⊢
    omega
  have hisLocal : ¬ chosen.isLocal = true := by simpa [hlocal] using hrem
  refine ⟨fun c hc => ?_, fun id hid => ?_, fun id hid => ?_, fun id hid => ?_, fun c hc hne => ?_, ?_⟩
  · rcases mem_append.mp hc with hc | hc
    · exact h.placed c hc
    · exact .inr (mem_singleton.mp hc ▸ hoffered)
  · by_cases hchosen : chosen.workerId = id
    · subst hchosen
      simp [Loads.add, hstate, hsum]
    · simp [Loads.add, Function.update_of_ne (Ne.symm hchosen), hchosen, h.counted id hid]
  · have hfit := h.blocksFit id hid
    rw [assignedTo_append]
    split
    next hchosen =>
      obtain rfl : chosen.workerId = id := hchosen
      simpa [Nat.succ_le_iff] using hblocks
    next => simpa using hfit
  · have hfit := h.bytesFit id hid
    rw [assignedBytes_append]
    split
    next hchosen =>
      obtain rfl : chosen.workerId = id := hchosen
      exact hsum ▸ hbytes
    next => exact hfit
  · simp only [Loads.add, hisLocal, Bool.false_eq_true, false_or]
    rcases mem_append.mp hc with hc | hc
    · split
      · exact h.active c hc hne
      · exact mem_append_left _ (h.active c hc hne)
    · rw [mem_singleton.mp hc]
      split
      · assumption
      · exact mem_append_right _ (mem_singleton_self _)
  · simp only [Loads.add, hisLocal, Bool.false_eq_true, false_or]
    split
    next => exact h.workersFit
    next hnew => simpa [Nat.succ_le_iff] using hworkers hnew

theorem Kept.assignBlock (h : Kept coordinatorId config eligible offers loads assignments)
    (hlimit : config.maximumBytesPerWorker.toNat < u64Max) (b : SchedulableBlock) : Kept coordinatorId config eligible
    offers (assignBlock coordinatorId config eligible offers affinityOf loads b).1
    (assignments ++ [(assignBlock coordinatorId config eligible offers affinityOf loads b).2]) := by
  obtain ⟨chosen, hoffered, hlocal, hroom, reason, heq⟩ | heq :=
    assignBlock_cases coordinatorId config eligible offers affinityOf loads b
  · rw [heq]
    by_cases hcoord : chosen.workerId = coordinatorId
    · refine h.local_ hcoord (fun id hid => ?_) ?_
      · exact Function.update_of_ne (hcoord ▸ hid) _ _
      · exact if_pos (.inl (by simpa [hlocal] using hcoord))
    · exact h.remote hlimit hoffered hlocal hcoord (hroom.resolve_left hcoord)
  · rw [heq]
    exact h.local_ rfl (fun _ _ => rfl) rfl

end Loop

/-! ## Schedules -/

section Schedules

variable {requirements : EligibilityRequirements} {policy : EligibilityPolicy}
  {deployment signal coordinatorId : String} {config : SchedulerConfig} {blocks : List SchedulableBlock}
  {workers : List WorkerSnapshot} {offers : List BlockOffer} {assignments : List BlockAssignment}
  {schedule : Schedule}

variable (requirements policy coordinatorId config blocks workers offers) in
/-- Every block once, to the coordinator or an allowed worker, within all limits. -/
structure SafeAssignments (assignments : List BlockAssignment) : Prop where
  everyBlock : (assignments.map (·.block)).Perm blocks
  once : (assignments.map (·.blockId)).Nodup
  placed : ∀ a ∈ assignments, a.workerId = coordinatorId ∨
    Offered (eligibleWorkers requirements policy workers) offers a.blockId a.workerId
  blocksFit : ∀ id ≠ coordinatorId, (assignedTo id assignments).length ≤ config.maximumBlocksPerWorker
  bytesFit : ∀ id ≠ coordinatorId, assignedBytes id assignments ≤ config.maximumBytesPerWorker.toNat
  workersFit : (remoteWorkers coordinatorId assignments).length ≤ config.maximumWorkersPerQuery

theorem SafeAssignments.perm {assignments' : List BlockAssignment}
    (h : SafeAssignments requirements policy coordinatorId config blocks workers offers assignments)
    (hperm : assignments.Perm assignments') :
    SafeAssignments requirements policy coordinatorId config blocks workers offers assignments' where
  everyBlock := (hperm.map _).symm.trans h.everyBlock
  once := (hperm.map _).nodup_iff.mp h.once
  placed a ha := h.placed a (hperm.mem_iff.mpr ha)
  blocksFit id hid := (hperm.filter _).length_eq ▸ h.blocksFit id hid
  bytesFit id hid := by
    have hbytes : assignedBytes id assignments = assignedBytes id assignments' :=
      ((hperm.filter _).map _).sum_eq
    exact hbytes ▸ h.bytesFit id hid
  workersFit := by
    have hrem : (remoteWorkers coordinatorId assignments).Perm (remoteWorkers coordinatorId assignments') :=
      ((hperm.map _).filter _).dedup
    exact hrem.length_eq ▸ h.workersFit

theorem maximumBytes_lt (h : config.validate = .ok ()) : config.maximumBytesPerWorker.toNat < u64Max := by
  have hbound : config.maximumBytesPerWorker.toNat ≤ maxBytesPerWorker := by
    unfold SchedulerConfig.validate at h
    split at h
    · cases h
    split at h
    · cases h
    split at h
    · cases h
    split at h
    · cases h
    next hbytes => exact (not_not.mp hbytes).2
  exact hbound.trans_lt (by decide)

theorem Kept.remoteWorkers_le {eligible : List WorkerSnapshot} {loads : Loads}
    (h : Kept coordinatorId config eligible offers loads assignments) :
    (remoteWorkers coordinatorId assignments).length ≤ config.maximumWorkersPerQuery := by
  have hsub : remoteWorkers coordinatorId assignments ⊆ loads.activeRemote := by
    intro id hid
    obtain ⟨hmem, hrem⟩ := mem_filter.mp (mem_dedup.mp hid)
    obtain ⟨a, ha, rfl⟩ := mem_map.mp hmem
    exact h.active a ha (of_decide_eq_true hrem)
  exact (subperm_of_subset (nodup_dedup _) hsub).length_le.trans h.workersFit

theorem scheduleOf_safe (h : Accepted requirements policy deployment coordinatorId config blocks workers offers) :
    SafeAssignments requirements policy coordinatorId config blocks workers offers
    (scheduleOf requirements policy deployment signal coordinatorId config blocks workers offers).assignments := by
  unfold scheduleOf
  set eligible := sortBy (·.workerId) (eligibleWorkers requirements policy workers)
  set affinityOf := fun blockId => rendezvousWorker deployment signal blockId
    ((eligible.map (·.workerId)).filter (· ≠ coordinatorId))
  set order := sortBy (blockKey eligible offers) blocks
  have hstep (loads : Loads) (assignments : List BlockAssignment) (b : SchedulableBlock)
      (hkept : Kept coordinatorId config eligible offers loads assignments) :
      Kept coordinatorId config eligible offers
        (assignBlock coordinatorId config eligible offers affinityOf loads b).1
        (assignments ++ [(assignBlock coordinatorId config eligible offers affinityOf loads b).2]) :=
    hkept.assignBlock (maximumBytes_lt h.validConfig) b
  obtain ⟨loads, hkept⟩ := assignBlocks_keeps hstep order Kept.empty
  have hblock : (assignBlocks coordinatorId config eligible offers affinityOf order noLoads []).map
      (·.block) = order := assignBlocks_block order noLoads []
  have hblocks : order.Perm blocks := sortBy_perm _ _
  refine SafeAssignments.perm ?_ (sortBy_perm _ _).symm
  refine ⟨hblock ▸ hblocks, ?_, fun a ha => ?_, hkept.blocksFit, hkept.bytesFit, hkept.remoteWorkers_le⟩
  · have hids : (order.map (·.blockId)).Nodup := (hblocks.map _).nodup_iff.mpr h.distinctBlocks
    rw [← hblock, map_map] at hids
    exact hids
  · refine (hkept.placed a ha).imp_right fun hoffered => ?_
    obtain ⟨⟨w, hw, hid⟩, hoffer⟩ := hoffered
    exact ⟨⟨w, (mem_sortBy _).mp hw, hid⟩, hoffer⟩

/-- Safe, and independent of the order of blocks, workers and offers. -/
theorem scheduleBlocks_safe_order_free (h : scheduleBlocks deployment signal coordinatorId blocks workers offers
    requirements policy config = .ok schedule) : SafeAssignments requirements policy coordinatorId config blocks
    workers offers schedule.assignments ∧ ∀ blocks' workers' offers', blocks'.Perm blocks → workers'.Perm workers →
    offers'.Perm offers → scheduleBlocks deployment signal coordinatorId blocks' workers' offers' requirements policy
    config = .ok schedule := by
  obtain ⟨haccepted, rfl⟩ := scheduleBlocks_ok.mp h
  refine ⟨scheduleOf_safe haccepted, fun blocks' workers' offers' hblocks hworkers hoffers => ?_⟩
  exact scheduleBlocks_ok.mpr ⟨haccepted.perm hblocks.symm hworkers.symm hoffers.symm,
    scheduleOf_perm haccepted hblocks.symm hworkers.symm hoffers.symm⟩

end Schedules

theorem scheduleBlocks_safe_order_free_one_worker :
    let blocks : List SchedulableBlock := [⟨"small", 1⟩, ⟨"large", 2⟩]
    let worker : WorkerSnapshot := ⟨"worker", .query, "prod", 1, [1], 1000, false, 4, 0, 0, false, 0, 0, 0⟩
    let offers : List BlockOffer := [⟨"worker", "small", .cold, true, 0⟩, ⟨"worker", "large", .cold, true, 0⟩]
    let requirements : EligibilityRequirements := ⟨"prod", 1, 1, 1000, 1000⟩
    let policy : EligibilityPolicy := ⟨1000, 1000, 900⟩
    let config : SchedulerConfig := ⟨1, 10, 1, 100, 1, 1, 1⟩
    let schedule : Schedule := ⟨[⟨"large", "worker", 2, .cold, .rendezvousAffinity⟩,
      ⟨"small", "coordinator", 1, .cold, .localFallback⟩], []⟩
    scheduleBlocks "prod" "logs" "coordinator" blocks [worker] offers requirements policy config =
        .ok schedule ∧
      SafeAssignments requirements policy "coordinator" config blocks [worker] offers schedule.assignments := by
  intro blocks worker offers requirements policy config schedule
  have hschedule : scheduleBlocks "prod" "logs" "coordinator" blocks [worker] offers requirements policy
      config = .ok schedule := by decide +kernel
  exact ⟨hschedule, (scheduleBlocks_safe_order_free hschedule).1⟩

end Scry.Distributed
