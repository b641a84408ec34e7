import Scry.Alert.Orphans

/-! # Histories of state heads

Each head is evaluated from the head it replaces and names the latest transition, and each transition names
the one before it.
-/

namespace Scry.Alert

open Scry.Lib ObjectStore Program Option Record AlertState StateHead DurableObservation

/-! ## Chains -/

variable (P : Platform) (observable : Observation → Prop) (id : MonitorId) (w : Store) (h : StateHead)
   (r : TransitionRecord) (c : SlotCall) (k : String)

def StateHead.stored : AlertState := h.state.written.read P

def HeadChain (evaluated : Option StateHead → StateHead → Prop) : List StateHead → Prop
  | [] => True
  | h :: older => evaluated older.head? h ∧ (∀ p ∈ older.head?, p.state.slot < h.state.slot) ∧
      HeadChain evaluated older

/-- Sequence numbers `n` to 1, each but the last followed by the transition of an older head. -/
inductive TransitionWalk (names : StateHead → TransitionRecord → Prop) (heads : List StateHead) :
    StateHead → Nat → Prop
  | last {h : StateHead} {r : TransitionRecord} (hnames : names h r)
      (hsequence : r.state.transitionSequence.toNat = 1) (hlast : r.previousTransitionKey = none) :
      TransitionWalk names heads h 1
  | next {h h' : StateHead} {r : TransitionRecord} {n : Nat} (hnames : names h r)
      (hsequence : r.state.transitionSequence.toNat = n + 1) (hmem : h' ∈ heads)
      (hkey : r.previousTransitionKey = some (h'.latestTransition.key h'.monitorId))
      (rest : TransitionWalk names heads h' n) : TransitionWalk names heads h (n + 1)

theorem TransitionWalk.mono {names names' : StateHead → TransitionRecord → Prop} {heads heads' : List StateHead}
    {h : StateHead} {n : Nat} (hnames : ∀ h r, names h r → names' h r) (hheads : heads ⊆ heads')
    (hw : TransitionWalk names heads h n) : TransitionWalk names' heads' h n := by
  induction hw with
  | last hn hseq hlast => exact .last (hnames _ _ hn) hseq hlast
  | next hn hseq hmem hkey _ ih => exact .next (hnames _ _ hn) hseq (hheads hmem) hkey ih

theorem TransitionWalk.of_head {names : StateHead → TransitionRecord → Prop} {heads : List StateHead}
    {h h' : StateHead} {n : Nat} (hnames : ∀ r, names h r → names h' r)
    (hw : TransitionWalk names heads h n) : TransitionWalk names heads h' n := by
  cases hw with
  | last hn hseq hlast => exact .last (hnames _ hn) hseq hlast
  | next hn hseq hmem hkey rest => exact .next (hnames _ hn) hseq hmem hkey rest

def Names : Prop :=
  (w (h.latestTransition.key h.monitorId)).map Prod.snd = [toDocument r] ∧
    h.verifyTransition P r = .ok ()

def DigestVerified : Prop :=
  ∃ document, (w (h.latestTransition.key h.monitorId)).map Prod.snd = [document] ∧
    ofDocument P document = some r ∧ h.verifyTransition P r = .ok ()

/-! ## Executions -/

structure SlotCall where
  context : EvaluationContext
  rule : Rule
  slotId : UInt64
  slotEnd : UInt64

abbrev EvalProgram :=
  Program (Reply (K := String) (V := Version) (B := Document) OutsideAnswer)
    (Except EvaluationError SlotOutcome)

def SlotCall.program : EvalProgram :=
  (evaluateUnderGuard P c.context c.rule c.slotId c.slotEnd).run

def observing : (x : Outside) → OutsideAnswer x → Prop
  | .fence, _ => True
  | .execute _ _ _, observation => observable observation
  | .fold _, _ => True

abbrev Observing : Answers (Reply (K := String) (V := Version) (B := Document)
    OutsideAnswer) Store :=
  answering (answers OutsideAnswer) (observing observable)

def SlotCall.MayObserve (observation : Observation) : Prop :=
  if c.rule.enabled then observable observation else observation = .noData

def EvaluatedBy (calls : List SlotCall)
    (prior : Option StateHead) (h : StateHead) : Prop :=
  ∃ c ∈ calls, ∃ observation, c.MayObserve observable observation ∧
    h.state = (evaluate c.rule.toMonitor (prior.map (·.stored P)) observation c.slotId c.slotEnd).1

def IsTransitionKey : Prop :=
  ∃ sequence revision slotId status, k = transitionKey id sequence revision slotId status

def IsStateKey : Prop := k = stateHeadKey id ∨ IsTransitionKey id k

def NoState : Prop := w.Distinct ∧ ∀ k, IsStateKey id k → w k = []

def OthersWrite (w w' : Store) : Prop :=
  w.Extends w' ∧ w'.Distinct ∧ ∀ k, IsStateKey id k → w' k = w k

abbrev SlotPool :=
  Pool (Reply (K := String) (V := Version) (B := Document) OutsideAnswer) Store SlotCall
    (Except EvaluationError SlotOutcome)

abbrev Evaluations (observable : Observation → Prop) (w₀ : Store) : SlotPool → Prop :=
  Pool.Reachable (Observing observable) (SlotCall.program P) (fun _ c => c.rule.id = id)
    (OthersWrite id) w₀

/-! ## What the evaluations keep -/

/-- Observed values are read back from their texts as they were. -/
def Exact : Prop :=
  ∀ v, observable (.value v) → v.read P = some v

section Invariant

variable (P : Platform) (id : MonitorId) (observable : Observation → Prop) (calls : List SlotCall)

structure RecordOf (w : Store) (h : StateHead) (r : TransitionRecord) : Prop where
  monitor : h.monitorId = id
  names : Names P w h r
  exact : Exact P observable → ofDocument P (toDocument r) = some r

structure SoundHead (w : Store) (heads : List StateHead) (h : StateHead) : Prop where
  monitor : h.monitorId = id
  walk : TransitionWalk (RecordOf P id observable w) heads h h.latestTransition.sequence.toNat
  exact : Exact P observable → ∀ v ∈ h.state.lastValue, v.read P = some v

structure ChainInv (w : Store) : Prop where
  distinct : w.Distinct
  once : ∀ k, IsTransitionKey id k → (w k).length ≤ 1
  chain : ∃ heads : List StateHead, (w (stateHeadKey id)).map Prod.snd = heads.map toDocument ∧
    HeadChain (EvaluatedBy P observable calls) heads ∧
    ∀ h ∈ heads, SoundHead P id observable w heads h

def chainSharing : Sharing Store where
  inv := ChainInv P id observable calls
  rely := Extends
  guarantee := Extends
  stutter := Extends.refl
  refl := Extends.refl
  trans _ _ _ := Extends.trans

variable {P id observable calls} {w w' : Store}

theorem IsTransitionKey.ne_stateHeadKey {k : String} (h : IsTransitionKey id k) : k ≠ stateHeadKey id := by
  obtain ⟨sequence, revision, slotId, status, rfl⟩ := h
  exact transitionKey_ne_stateHeadKey id id sequence revision slotId status

theorem isTransitionKey_key (t : TransitionRef) : IsTransitionKey id (t.key id) :=
  ⟨t.sequence, t.monitorRevision, t.slotId, t.status, rfl⟩

variable {h : StateHead} {r : TransitionRecord}

theorem RecordOf.key (hr : RecordOf P id observable w h r) :
    IsTransitionKey id (h.latestTransition.key h.monitorId) := by
  rw [hr.monitor]
  exact isTransitionKey_key h.latestTransition

theorem RecordOf.of_eq (hr : RecordOf P id observable w h r)
    (heq : w' (h.latestTransition.key h.monitorId) = w (h.latestTransition.key h.monitorId)) :
    RecordOf P id observable w' h r where
  monitor := hr.monitor
  names := ⟨by rw [heq]; exact hr.names.1, hr.names.2⟩
  exact := hr.exact

theorem SoundHead.mono {heads heads' : List StateHead} (hs : SoundHead P id observable w heads h)
    (hheads : heads ⊆ heads') (hrecs : ∀ h r, RecordOf P id observable w h r → RecordOf P id observable w' h r) :
    SoundHead P id observable w' heads' h where
  monitor := hs.monitor
  walk := hs.walk.mono hrecs hheads
  exact := hs.exact

theorem ChainInv.of_eq (h : ChainInv P id observable calls w) (hdist : w'.Distinct)
    (heq : ∀ k, IsStateKey id k → w' k = w k) : ChainInv P id observable calls w' where
  distinct := hdist
  once k hk := by
    rw [heq k (.inr hk)]
    exact h.once k hk
  chain := by
    obtain ⟨heads, _, hchain, hsound⟩ := h.chain
    refine ⟨heads, by rwa [heq _ (.inl rfl)], hchain, fun a ha => ?_⟩
    exact (hsound a ha).mono (List.Subset.refl heads) fun h r hr => hr.of_eq (heq _ (.inr hr.key))

theorem ChainInv.transition (h : ChainInv P id observable calls w) {key : String}
    (hkey : IsTransitionKey id key) (habs : w key = []) (version : Version) (d : Document) :
    ChainInv P id observable calls (w.write key version d) where
  distinct := h.distinct.write (by rw [habs]; exact List.not_mem_nil)
  once k hk := by
    by_cases hkk : k = key
    · rw [hkk, write_same, habs]
      exact le_rfl
    · rw [write_other hkk]
      exact h.once k hk
  chain := by
    obtain ⟨heads, _, hchain, hsound⟩ := h.chain
    refine ⟨heads, by rwa [write_other hkey.ne_stateHeadKey.symm], hchain,
      fun a ha => (hsound a ha).mono (List.Subset.refl heads) fun h r hr => hr.of_eq ?_⟩
    refine write_other (fun hk => ?_) version d
    -- What a head names is there already.
    have hobj := hr.names.1
    rw [hk, habs] at hobj
    cases hobj

theorem ChainInv.publish (h : ChainInv P id observable calls w) {fresh : Version}
    (hfresh : fresh ∉ (w (stateHeadKey id)).map Prod.fst) {next : StateHead}
    (hnext : ∀ heads : List StateHead, (w (stateHeadKey id)).map Prod.snd = heads.map toDocument →
    (∀ h ∈ heads, SoundHead P id observable w heads h) → EvaluatedBy P observable calls heads.head? next ∧
    (∀ p ∈ heads.head?, p.state.slot < next.state.slot) ∧ SoundHead P id observable w heads next) : ChainInv P id
    observable calls (w.write (stateHeadKey id) fresh (toDocument next)) where
  distinct := h.distinct.write hfresh
  once k hk := by
    rw [write_other hk.ne_stateHeadKey]
    exact h.once k hk
  chain := by
    obtain ⟨heads, hheads, hchain, hsound⟩ := h.chain
    obtain ⟨hevaluated, hslot, hnew⟩ := hnext heads hheads hsound
    have hrecs : ∀ h r, RecordOf P id observable w h r → RecordOf P id observable
        (w.write (stateHeadKey id) fresh (toDocument next)) h r :=
      fun h r hr => hr.of_eq (write_other hr.key.ne_stateHeadKey fresh _)
    refine ⟨next :: heads, by rw [write_same, List.map_cons, hheads]; rfl,
      ⟨hevaluated, hslot, hchain⟩, fun a ha => ?_⟩
    rcases List.mem_cons.mp ha with rfl | ha
    · exact hnew.mono (List.subset_cons_self a heads) hrecs
    · exact (hsound a ha).mono (List.subset_cons_self next heads) hrecs

end Invariant

/-! ## The next head -/

section Exact

variable {P : Platform} {observable : Observation → Prop}

theorem F64.isFinite_of_read {v u : F64} (h : v.read P = some u) : v.isFinite = true := by
  unfold F64.read at h
  split at h
  next hfin => exact hfin
  next => cases h

theorem AlertState.written_read {s : AlertState} (h : ∀ v ∈ s.lastValue, v.read P = some v) :
    s.written.read P = s := by
  have hvalue : (s.lastValue.filter F64.isFinite).bind (F64.read P) = s.lastValue := by
    cases hs : s.lastValue with
    | none => rfl
    | some v =>
      have hv := h v hs
      rw [filter_some, if_pos (F64.isFinite_of_read hv), bind_some, hv]
  unfold written read
  rw [hvalue]

theorem mem_lastValue_stored {h : StateHead} (hexact : ∀ v ∈ h.state.lastValue, v.read P = some v)
    {v : F64} (hv : v ∈ (h.stored P).lastValue) : v.read P = some v := by
  rw [stored, written_read hexact] at hv
  exact hexact v hv

theorem DurableObservation.written_read {o : Observation} (h : ∀ v, o = .value v → v.read P = some v) :
    (ofObservation o).written.read P = some (ofObservation o) := by
  cases o with
  | value v =>
    have hv := h v rfl
    have hwritten : v.written = v := if_pos (F64.isFinite_of_read hv)
    change (v.written.read P).map value = _
    rw [hwritten, hv]
    rfl
  | noData => rfl
  | error e => rfl

theorem mayObserve_exact {c : SlotCall} {observation : Observation} (hexact : Exact P observable)
    (h : c.MayObserve observable observation) (v : F64) (hv : observation = .value v) : v.read P = some v := by
  subst hv
  unfold SlotCall.MayObserve at h
  split at h
  · exact hexact v h
  · cases h

end Exact

section Next

variable {P : Platform} {id : MonitorId} {observable : Observation → Prop} {calls : List SlotCall}
  {c : SlotCall} {observation : Observation} {prior : Option (Versioned StateHead)}
  {heads : List StateHead} {next : StateHead} {w : Store}

def StateHead.asRead (P : Platform) (h : StateHead) : StateHead := { h with state := h.stored P }

def ReadNewest (P : Platform) (prior : Option (Versioned StateHead)) (heads : List StateHead) : Prop :=
  prior.map (·.value) = heads.head?.map (asRead P)

theorem ReadNewest.state (h : ReadNewest P prior heads) :
    prior.map (·.value.state) = heads.head?.map (·.stored P) := by
  have hstate := congrArg (Option.map StateHead.state) h
  rwa [map_map, map_map] at hstate

theorem ReadNewest.some {p : Versioned StateHead} (h : ReadNewest P (some p) heads) :
    ∃ top, heads.head? = some top ∧ p.value = top.asRead P := by
  obtain ⟨top, htop, heq⟩ := map_eq_some_iff.mp h.symm
  exact ⟨top, htop, heq.symm⟩

theorem state_committedHead (hnext : committedHead P c.context c.rule c.slotId c.slotEnd prior observation = some
    next) : next.state = (evaluation c.rule c.slotId c.slotEnd prior observation).1 ∧ next.monitorId = c.rule.id ∧
    next.deploymentId = c.context.deploymentId := by
  obtain ⟨latest, -, rfl⟩ := map_eq_some_iff.mp hnext
  exact ⟨rfl, rfl, rfl⟩

theorem exact_committedHead (hobs : c.MayObserve observable observation) (hread : ReadNewest P prior heads)
    (hsound : ∀ h ∈ heads, SoundHead P id observable w heads h) (hfree : Uncovered (prior.map (·.value.state))
    c.rule.revision c.slotId) (hexact : Exact P observable) : ∀ v ∈
    (evaluation c.rule c.slotId c.slotEnd prior observation).1.lastValue, v.read P = some v := by
  intro v hv
  unfold evaluation at hv
  rw [evaluate_of_uncovered hfree] at hv
  rcases mem_lastValue_evaluateSlot hv with hvalue | ⟨s, hs, hv⟩
  · exact mayObserve_exact hexact hobs v hvalue
  · rw [hread.state] at hs
    obtain ⟨top, htop, rfl⟩ := map_eq_some_iff.mp hs
    exact mem_lastValue_stored ((hsound top (List.mem_of_mem_head? htop)).exact hexact) hv

/-- One of the calls evaluates its slot, over the head `prior`, to `next`. -/
structure EvaluatesTo (P : Platform) (id : MonitorId) (observable : Observation → Prop) (calls : List SlotCall)
    (c : SlotCall) (prior : Option (Versioned StateHead)) (observation : Observation) (next : StateHead) : Prop where
  call : c ∈ calls
  rule : c.rule.id = id
  observe : c.MayObserve observable observation
  uncovered : Uncovered (prior.map (·.value.state)) c.rule.revision c.slotId
  committed : committedHead P c.context c.rule c.slotId c.slotEnd prior observation = some next

def TransitionWritten (c : SlotCall) (prior : Option (Versioned StateHead)) (observation : Observation)
    (next : StateHead) (w : Store) : Prop :=
  ∀ record ∈ transitionOf c.context c.rule c.slotId c.slotEnd prior observation,
    Written (next.latestTransition.key next.monitorId) record w

variable (he : EvaluatesTo P id observable calls c prior observation next)
include he

theorem EvaluatesTo.monitor : next.monitorId = id :=
  (state_committedHead he.committed).2.1.trans he.rule

theorem EvaluatesTo.recordOf_transition (honce : ∀ k, IsTransitionKey id k → (w k).length ≤ 1)
    (hread : ReadNewest P prior heads) (hsound : ∀ h ∈ heads, SoundHead P id observable w heads h)
    {record : TransitionRecord} (hrec : transitionOf c.context c.rule c.slotId c.slotEnd prior observation = some
    record) (hwritten : Written (next.latestTransition.key next.monitorId) record w) : RecordOf P id observable w next
    record := by
  refine ⟨he.monitor, ⟨?_, (transition_committedHead he.uncovered he.committed record hrec).1⟩, fun hexact => ?_⟩
  · obtain ⟨version, hmem⟩ := hwritten
    exact object_of_once (honce _ (he.monitor ▸ isTransitionKey_key next.latestTransition)) hmem
  · obtain ⟨-, rfl⟩ := transitionOf_eq_some hrec
    have hstate := written_read
      (exact_committedHead he.observe hread hsound he.uncovered hexact)
    have hobservation := written_read (mayObserve_exact hexact he.observe)
    change Option.map _ ((ofObservation observation).written.read P) = _
    rw [hobservation, map_some, transitionRecord]
    dsimp only
    rw [hstate]

omit he in
theorem toNat_add_one {a : UInt64} (h : a + 1 ≠ 0) : (a + 1).toNat = a.toNat + 1 := by
  have hne : (a + 1).toNat ≠ 0 := fun h' => h (UInt64.toNat_inj.mp h')
  rw [UInt64.toNat_add] at hne ⊢
  have hlt := a.toNat_lt
  have hone : (1 : UInt64).toNat = 1 := rfl
  omega

theorem EvaluatesTo.walk_next (hread : ReadNewest P prior heads) (hrecs : ∀ record, transitionOf c.context c.rule
    c.slotId c.slotEnd prior observation = some record → RecordOf P id observable w next record)
    (hprior : ∀ p ∈ prior, p.value.validate c.context.deploymentId id = .ok ())
    (hsound : ∀ h ∈ heads, SoundHead P id observable w heads h) (hvalid : next.validate next.deploymentId
    next.monitorId = .ok ()) : TransitionWalk (RecordOf P id observable w) heads next
    next.latestTransition.sequence.toNat := by
  obtain ⟨-, -, -, hpos, _, -⟩ := validate_eq_ok.mp hvalid
  obtain ⟨latest, hlatest, hhead⟩ := map_eq_some_iff.mp he.committed
  cases htr : transitionOf c.context c.rule c.slotId c.slotEnd prior observation with
  | some record =>
    have hrecord := hrecs record htr
    have hseq := sequence_transition htr
    rw [htr] at hlatest
    obtain rfl := some.inj hlatest
    obtain ⟨-, hrec⟩ := transitionOf_eq_some htr
    have hlast : next.latestTransition.sequence = record.state.transitionSequence := by
      rw [← hhead]
      rfl
    rw [hlast] at hpos ⊢
    cases prior with
    | none =>
      have hone : record.state.transitionSequence.toNat = 1 := by
        rw [hseq]
        rfl
      rw [hone]
      exact .last hrecord hone (by rw [hrec]; rfl)
    | some p =>
      obtain ⟨top, htop, hp⟩ := hread.some
      obtain ⟨-, -, -, -, hpseq, -⟩ := validate_eq_ok.mp (hprior p rfl)
      have hmem := List.mem_of_mem_head? htop
      have hstep : record.state.transitionSequence.toNat =
          top.latestTransition.sequence.toNat + 1 := by
        rw [hseq] at hpos ⊢
        rw [show top.latestTransition.sequence = p.value.state.transitionSequence by
          rw [← hpseq, hp]; rfl]
        exact toNat_add_one hpos
      rw [hstep]
      refine .next hrecord hstep hmem ?_ (hsound top hmem).walk
      rw [hrec, (hsound top hmem).monitor]
      change some (p.value.latestTransition.key c.rule.id) = _
      rw [hp, he.rule]
      rfl
  | none =>
    -- The transition stays that of the head before.
    obtain ⟨p, rfl⟩ := transitionOf_first htr
    obtain ⟨top, htop, hp⟩ := hread.some
    obtain ⟨-, hdep, -⟩ := validate_eq_ok.mp (hprior p rfl)
    rw [htr] at hlatest
    have hsame : next.latestTransition = top.latestTransition := by
      rw [← hhead, ← some.inj hlatest]
      change p.value.latestTransition = _
      rw [hp]
      rfl
    have hmem := List.mem_of_mem_head? htop
    rw [hsame]
    refine (hsound top hmem).walk.of_head fun r hr => ?_
    obtain ⟨-, -, howner⟩ := state_committedHead he.committed
    have hverif := verifyTransition_eq_ok.mp hr.names.2
    refine ⟨he.monitor, ⟨?_, verifyTransition_eq_ok.mpr ?_⟩, hr.exact⟩
    · rw [hsame, he.monitor, ← hr.monitor]
      exact hr.names.1
    · rw [hp] at hdep
      have hd := (show top.deploymentId = c.context.deploymentId from hdep).trans howner.symm
      have hm : top.monitorId = next.monitorId := hr.monitor.trans he.monitor.symm
      rw [hsame, ← hd, ← hm]
      exact hverif

theorem EvaluatesTo.continues (honce : ∀ k, IsTransitionKey id k → (w k).length ≤ 1)
    (hread : ReadNewest P prior heads) (hprior : ∀ p ∈ prior, p.value.validate c.context.deploymentId id = .ok ())
    (hvalid : next.validate next.deploymentId next.monitorId = .ok ())
    (hwritten : TransitionWritten c prior observation next w) (hsound : ∀ h ∈ heads, SoundHead P id observable w heads
    h) : EvaluatedBy P observable calls heads.head? next ∧ (∀ p ∈ heads.head?, p.state.slot < next.state.slot) ∧
    SoundHead P id observable w heads next := by
  obtain ⟨hstate, -⟩ := state_committedHead he.committed
  refine ⟨⟨c, he.call, observation, he.observe, ?_⟩, fun top htop => ?_, ?_⟩
  · rw [hstate, evaluation, hread.state]
  · rw [hstate, slot_evaluation c.slotEnd observation he.uncovered]
    refine covers_eq_false.mp (he.uncovered (top.stored P) ?_)
    rw [hread.state, mem_def.mp htop]
    rfl
  · refine ⟨he.monitor, he.walk_next hread (fun record hrec => ?_) hprior hsound hvalid, fun hexact => ?_⟩
    · exact he.recordOf_transition honce hread hsound hrec (hwritten record hrec)
    · rw [hstate]
      exact exact_committedHead he.observe hread hsound he.uncovered hexact

end Next

/-! ## Executions are safe -/

section Safe

variable {P : Platform} {id : MonitorId} {observable : Observation → Prop} {calls : List SlotCall}
  {S : Sharing Store} {w : Store}

theorem liftStore_safe {α : Type} {x : StoreM OutsideAnswer α} {post : α → Store → Prop} (hinv : S.inv w)
    (h : x.run.Safe (answers OutsideAnswer) S (onOk post) w) : (liftStore x).run.Safe (Observing observable) S
    (onOk post) w := by
  refine Safe.bind_attempt hinv
    ((h.answers_mono base_of_answering).stable.mono fun r w' _ hr => ?_)
  cases r with
  | ok a => exact .pure fun w'' hrely hinv' => hr w'' hrely hinv' a rfl
  | error e => exact .throw

theorem checkFence_safe (message : String) :
    (checkFence message).run.Safe (Observing observable) S (onOk fun _ _ => True) w := by
  refine Safe.bind_query fun w₁ _ hinv x w₂ hx => ?_
  obtain ⟨rfl, -⟩ := hx
  refine ⟨S.stutter _, hinv, ?_⟩
  cases x with
  | true => exact .pure fun _ _ _ => trivial
  | false => exact .throw

theorem fold_safe (record : Fold) : (fold record).run.Safe (Observing observable) S (onOk fun _ _ => True) w := by
  refine Safe.bind_query fun w₁ _ hinv x w₂ hx => ?_
  obtain ⟨rfl, -⟩ := hx
  refine ⟨S.stutter _, hinv, ?_⟩
  cases x with
  | true => exact .pure fun _ _ _ => trivial
  | false => exact .throw

theorem fold_pure_safe {α : Type} (record : Fold) (a : α) (hinv : S.inv w) :
    (do fold record; pure a : EvalM α).run.Safe (Observing observable) S (onOk fun _ _ => True) w :=
  Safe.bind_onOk hinv ((fold_safe record).mono fun _ _ _ _ _ _ =>
    .pure fun _ _ _ => trivial)

theorem observe_safe (c : SlotCall) : (observe c.context c.rule c.slotId c.slotEnd).run.Safe (Observing observable) S
    (onOk fun observation _ => c.MayObserve observable observation) w := by
  unfold observe SlotCall.MayObserve
  by_cases henabled : c.rule.enabled
  · simp only [henabled, if_true]
    split
    · intro w₁ _ hinv x w₂ hx
      obtain ⟨rfl, hx⟩ := hx
      refine ⟨S.stutter _, hinv, ?_⟩
      rintro w' - - observation ⟨⟩
      exact hx
    · exact .throw
  · simp only [henabled, Bool.false_eq_true, if_false]
    exact .pure fun _ _ _ => rfl

section

variable (hext : ∀ w w', S.rely w w' → w.Extends w') (hinv : S.inv w)
include hext hinv

theorem readRuleHead_safe :
    (readRuleHead P id : StoreM OutsideAnswer _).run.Safe (answers OutsideAnswer) S (onOk fun _ _ => True) w := by
  refine Safe.bind_onOk hinv ((readVersioned_safe hext hinv).mono fun r w' _ _ head _ => ?_)
  dsimp only
  split
  · exact .throw
  · exact .pure fun _ _ _ => trivial

theorem readRuleRevision_safe (head : RuleHead) :
    (readRuleRevision P head : StoreM OutsideAnswer _).run.Safe (answers OutsideAnswer) S (onOk fun _ _ => True)
    w := by
  unfold readRuleRevision
  split
  · exact .throw
  · refine Safe.bind_onOk hinv
      ((readVersioned_safe hext hinv).mono fun r w' _ _ rule _ => ?_)
    dsimp only
    split
    · exact .throw
    · exact .pure fun _ _ _ => trivial

theorem ruleIsCurrent_safe (context : EvaluationContext)
    (rule : Rule) : (ruleIsCurrent P context rule).run.Safe (Observing observable) S (onOk fun _ _ => True) w := by
  refine Safe.bind_attempt hinv (((readRuleHead_safe hext hinv).answers_mono
    base_of_answering).mono fun r w' hinv' _ => ?_)
  cases r with
  | error e =>
    cases e with
    | missing path => exact .pure fun _ _ _ => trivial
    | _ => exact .throw
  | ok head =>
    dsimp only
    split
    · exact fold_pure_safe _ _ hinv'
    · split
      · exact .pure fun _ _ _ => trivial
      · split
        · exact .throw
        · refine Safe.bind_onOk hinv' ((liftStore_safe hinv'
            (readRuleRevision_safe hext hinv' head.value)).mono fun _ w₁ hinv₁ _ newer _ => ?_)
          dsimp only
          split
          · exact fold_pure_safe _ _ hinv₁
          · exact .throw

end

def WasHead (P : Platform) (id : MonitorId) (deploymentId : String)
    (prior : Option (Versioned StateHead)) (w : Store) : Prop :=
  ∀ p ∈ prior, (∃ document, (p.version, document) ∈ w (stateHeadKey id) ∧
    ofDocument P document = some p.value) ∧ p.value.validate deploymentId id = .ok ()

theorem WasHead.extends {deploymentId : String} {prior : Option (Versioned StateHead)} {w w' : Store}
    (h : WasHead P id deploymentId prior w) (hw : w.Extends w') : WasHead P id deploymentId prior w' := by
  intro p hp
  obtain ⟨⟨document, hmem, hread⟩, hvalid⟩ := h p hp
  exact ⟨⟨document, hw.mem hmem, hread⟩, hvalid⟩

theorem readStateHead_safe (hext : ∀ w w', S.rely w w' → w.Extends w') (hinv : S.inv w) (deploymentId : String) :
    (readStateHead P id deploymentId : StoreM OutsideAnswer _).run.Safe (answers OutsideAnswer) S
    (onOk (WasHead P id deploymentId)) w := by
  refine Safe.bind_attempt hinv
    ((readVersioned_safe hext hinv).mono fun r w' hinv' hr => ?_)
  cases r with
  | error e =>
    cases e with
    | missing path => exact .pure fun _ _ _ p hp => by cases hp
    | _ => exact .throw
  | ok head =>
    obtain ⟨document, hread, hvalue⟩ := hr head rfl
    cases hvalid : head.value.validate deploymentId id with
    | error message =>
      simp only [hvalid]
      exact .throw
    | ok u =>
      simp only [hvalid]
      refine .pure fun w'' hrely _ => ?_
      rintro p ⟨⟩
      exact ⟨⟨document, (hext _ _ hrely).mem hread.mem, hvalue⟩, hvalid⟩

end Safe

section Commit

variable {P : Platform} {id : MonitorId} {observable : Observation → Prop} {calls : List SlotCall}
  {c : SlotCall} {observation : Observation} {prior : Option (Versioned StateHead)}
  {next : StateHead} {w : Store}

theorem readNewest_of_top (hdist : w.Distinct) {p : Versioned StateHead} {document old : Document}
    (hmem : (p.version, document) ∈ w (stateHeadKey id)) (hread : ofDocument P document = some p.value)
    {rest : List (Version × Document)} (htop : w (stateHeadKey id) = (p.version, old) :: rest)
    {heads : List StateHead} (hheads : (w (stateHeadKey id)).map Prod.snd = heads.map toDocument) : ReadNewest
    P (some p) heads := by
  obtain rfl : document = old := hdist.eq hmem (by rw [htop]; exact List.mem_cons_self ..)
  rw [htop, List.map_cons] at hheads
  cases heads with
  | nil => cases hheads
  | cons top older =>
    rw [show document = toDocument top from (List.cons.inj hheads).1] at hread
    exact congrArg some (some.inj hread).symm

theorem EvaluatesTo.moveStateHead_safe (he : EvaluatesTo P id observable calls c prior observation next)
    (hinv : ChainInv P id observable calls w) (hprior : WasHead P id c.context.deploymentId prior w)
    (hvalid : next.validate next.deploymentId next.monitorId = .ok ())
    (hwritten : TransitionWritten c prior observation next w) : (moveStateHead P next (prior.map (·.version)) : StoreM
    OutsideAnswer _).run.Safe (answers OutsideAnswer) (chainSharing P id observable calls) (onOk fun _ _ => True)
    w := by
  have hcontinues : ∀ w₁, w.Extends w₁ → ChainInv P id observable calls w₁ →
      ∀ heads, ReadNewest P prior heads → (∀ h ∈ heads, SoundHead P id observable w₁ heads h) →
      EvaluatedBy P observable calls heads.head? next ∧
        (∀ p ∈ heads.head?, p.state.slot < next.state.slot) ∧
        SoundHead P id observable w₁ heads next :=
    fun w₁ hw hinv₁ heads hread hsound =>
      he.continues hinv₁.once hread (fun p hp => (hprior p hp).2) hvalid
        (fun record hrec => (hwritten record hrec).extends hw) hsound
  unfold moveStateHead
  rw [he.monitor]
  cases prior with
  | none =>
    refine (createHead_safe (fun _ _ h => h) hinv fun w₁ fresh hw hinv₁ habs => ?_).mono
      fun _ _ _ _ _ _ => trivial
    refine ⟨extends_write w₁ _ fresh _, ChainInv.publish hinv₁ ?_ fun heads hheads => ?_⟩
    · rw [habs]
      exact List.not_mem_nil
    · rw [habs] at hheads
      obtain rfl : heads = [] := by simpa using hheads.symm
      exact hcontinues w₁ hw hinv₁ [] rfl
  | some p =>
    refine (update_safe (fun _ _ h => h) fun w₁ old rest fresh hw hinv₁ htop hfresh => ?_).mono
      fun _ _ _ _ _ _ => trivial
    obtain ⟨⟨document, hmem, hread⟩, -⟩ := hprior p rfl
    refine ⟨extends_write w₁ _ fresh _, ChainInv.publish hinv₁ hfresh
      fun heads hheads => hcontinues w₁ hw hinv₁ heads ?_⟩
    exact readNewest_of_top hinv₁.distinct (hw.mem hmem) hread htop hheads

theorem publishTransition_safe (hmon : next.monitorId = id) :
    (publishTransition P next (transitionOf c.context c.rule c.slotId c.slotEnd prior observation) : StoreM
    OutsideAnswer _).run.Safe (answers OutsideAnswer) (chainSharing P id observable calls)
    (onOk fun _ => TransitionWritten c prior observation next) w := by
  have hkey : IsTransitionKey id (next.latestTransition.key next.monitorId) :=
    hmon ▸ isTransitionKey_key next.latestTransition
  unfold TransitionWritten
  cases transitionOf c.context c.rule c.slotId c.slotEnd prior observation with
  | none => exact .pure fun _ _ _ record hrec => by cases hrec
  | some record =>
    have hcre : (createIdentical P (next.latestTransition.key next.monitorId) record :
        StoreM OutsideAnswer _).run.Safe (answers OutsideAnswer)
        (chainSharing P id observable calls)
        (onOk fun _ => Written (next.latestTransition.key next.monitorId) record) w :=
      createIdentical_safe (fun _ _ h => h) fun w₁ version _ hinv₁ habs =>
        ⟨extends_write w₁ _ version _, ChainInv.transition hinv₁ hkey habs version _⟩
    cases hverify : next.verifyTransition P record with
    | error message =>
      simp only [publishTransition, hverify]
      exact .throw
    | ok u =>
      simp only [publishTransition, hverify]
      refine hcre.mono fun r w' _ hr u hu => ?_
      rintro record ⟨⟩
      exact hr u hu

theorem EvaluatesTo.commitState_safe (he : EvaluatesTo P id observable calls c prior observation next)
    (hinv : ChainInv P id observable calls w) (hprior : WasHead P id c.context.deploymentId prior w) :
    (commitState P next (transitionOf c.context c.rule c.slotId c.slotEnd prior observation)
      (prior.map (·.version)) : StoreM OutsideAnswer _).run.Safe (answers OutsideAnswer)
      (chainSharing P id observable calls) (onOk fun _ _ => True) w := by
  unfold commitState
  cases hvalid : next.validate next.deploymentId next.monitorId with
  | error message => exact .throw
  | ok u =>
    have hkept : ∀ w w', Extends w w' → WasHead P id c.context.deploymentId prior w →
        WasHead P id c.context.deploymentId prior w' := fun w w' hw h => h.extends hw
    refine Safe.bind_onOk hinv (((publishTransition_safe he.monitor).frame hkept hkept
      hprior).mono fun r w' hinv' hr u hu => ?_)
    exact he.moveStateHead_safe hinv' hr.2 hvalid (hr.1 u hu)

theorem commitSlot_safe (hinv : ChainInv P id observable calls w) (hc : c ∈ calls) (hid : c.rule.id = id)
    (hobs : c.MayObserve observable observation) (hprior : WasHead P id c.context.deploymentId prior w)
    (hfree : Uncovered (prior.map (·.value.state)) c.rule.revision c.slotId) :
    (commitSlot P c.context c.rule c.slotId c.slotEnd prior observation).run.Safe (Observing observable)
    (chainSharing P id observable calls) (onOk fun _ _ => True) w := by
  obtain ⟨next, hnext⟩ :=
    exists_committedHead P c.context c.rule c.slotId c.slotEnd prior observation
  obtain ⟨latest, hlatest, hhead⟩ := map_eq_some_iff.mp hnext
  unfold commitSlot
  simp only [hlatest, hhead]
  refine Safe.bind_attempt hinv (((EvaluatesTo.commitState_safe ⟨hc, hid, hobs, hfree, hnext⟩
    hinv hprior).answers_mono base_of_answering).mono fun r w' hinv' _ => ?_)
  cases r with
  | ok u => exact fold_pure_safe _ _ hinv'
  | error e =>
    cases e with
    | conflict path =>
      refine Safe.bind_onOk hinv' ((liftStore_safe hinv' (readStateHead_safe
        (fun _ _ h => h) hinv' c.context.deploymentId)).mono fun _ w₁ hinv₁ _ winner _ => ?_)
      cases winner with
      | none => exact .pure fun _ _ _ => trivial
      | some head => exact fold_pure_safe _ _ hinv₁
    | _ => exact .throw

theorem uncovered_of_decided (h : (prior.bind fun head => (decided c.rule c.slotId head.value.state).map
    fun outcome => (head.value.state, outcome)) = none) : Uncovered (prior.map (·.value.state)) c.rule.revision
    c.slotId := by
  cases prior with
  | none => exact uncovered_none c.rule.revision c.slotId
  | some head =>
    rintro s ⟨⟩
    have hnone := map_eq_none_iff.mp h
    unfold decided at hnone
    split at hnone
    · cases hnone
    · split at hnone
      next => cases hnone
      next hcov => exact Bool.eq_false_iff.mpr hcov

theorem SlotCall.safe (hinv : ChainInv P id observable calls w) (hc : c ∈ calls) (hid : c.rule.id = id) :
    (c.program P).Safe (Observing observable) (chainSharing P id observable calls) (onOk fun _ _ => True) w := by
  subst hid
  have hext : ∀ w w', (chainSharing P c.rule.id observable calls).rely w w' → w.Extends w' :=
    fun _ _ h => h
  refine Safe.bind_onOk hinv ((checkFence_safe _).mono fun _ w₁ hinv₁ _ _ _ => ?_)
  refine Safe.bind_onOk hinv₁ ((ruleIsCurrent_safe hext hinv₁ c.context c.rule).mono fun _ w₂ hinv₂ _ current _ => ?_)
  cases current with
  | false => exact .pure fun _ _ _ => trivial
  | true =>
    refine Safe.bind_onOk hinv₂ ((liftStore_safe hinv₂ (readStateHead_safe hext hinv₂
      c.context.deploymentId)).mono fun _ w₃ hinv₃ hr prior hprior => ?_)
    have hhead := hr prior hprior
    -- The head stays one that was read through the query and the second look at the rule.
    have hkept : ∀ w w', Extends w w' →
        WasHead P c.rule.id c.context.deploymentId prior w →
        WasHead P c.rule.id c.context.deploymentId prior w' := fun w w' hw h => h.extends hw
    dsimp only
    split
    next state outcome _ => exact fold_pure_safe _ _ hinv₃
    next hdecided =>
      refine Safe.bind_onOk hinv₃ (((observe_safe c).frame hkept hkept hhead).mono
        fun _ w₄ hinv₄ hr observation ho => ?_)
      obtain ⟨hobs, hhead₄⟩ := hr
      refine Safe.bind_onOk hinv₄ (((checkFence_safe _).frame hkept hkept hhead₄).mono fun _ w₅ hinv₅ hr _ _ => ?_)
      refine Safe.bind_onOk hinv₅ (((ruleIsCurrent_safe hext hinv₅ c.context c.rule).frame
        hkept hkept hr.2).mono fun _ w₆ hinv₆ hr current _ => ?_)
      cases current with
      | false => exact .pure fun _ _ _ => trivial
      | true =>
        exact commitSlot_safe hinv₆ hc rfl (hobs observation ho) hr.2
          (uncovered_of_decided hdecided)

end Commit

/-! ## Runs -/

theorem chainInv_noState {P : Platform} {id : MonitorId} {observable : Observation → Prop}
    {calls : List SlotCall} {w : Store} (h : NoState id w) : ChainInv P id observable calls w where
  distinct := h.1
  once k hk := by
    rw [h.2 k (.inr hk)]
    exact Nat.zero_le 1
  chain := ⟨[], by rw [h.2 _ (.inl rfl)]; rfl, trivial, fun h hh => by cases hh⟩

/-- **One chain of state heads.** In any interleaving, each head evaluates the state of the head that it
replaces, slots increase, and the transitions lead down to the first; they pass their digests if observed
values are read back as they were. -/
theorem state_heads_chain (P : Platform) (id : MonitorId) (observable : Observation → Prop) (w₀ : Store)
    (h₀ : NoState id w₀) (s : SlotPool) (hs : Evaluations P id observable w₀ s) : ∃ heads : List StateHead,
    (s.world (stateHeadKey id)).map Prod.snd = heads.map toDocument ∧ HeadChain
    (EvaluatedBy P observable s.calls) heads ∧ (∀ h ∈ heads, TransitionWalk (Names P s.world) heads h
    h.latestTransition.sequence.toNat) ∧ ((∀ v, observable (.value v) → v.read P = some v) → ∀ h ∈ heads,
    TransitionWalk (DigestVerified P s.world) heads h h.latestTransition.sequence.toNat) := by
  obtain ⟨hinv, -⟩ := Pool.Reachable.safe (S := chainSharing P id observable s.calls)
    (fun _ _ h => h) (fun w c hinv hc => SlotCall.safe hinv hc.2 hc.1)
    (fun w w' hinv hw => ⟨hw.1, ChainInv.of_eq hinv hw.2.1 hw.2.2⟩) (chainInv_noState h₀) hs.of_calls
  obtain ⟨heads, hheads, hchain, hsound⟩ := hinv.chain
  refine ⟨heads, hheads, hchain, fun h hh => ?_, fun hexact h hh => ?_⟩
  · exact (hsound h hh).walk.mono (fun _ _ hr => hr.names) (List.Subset.refl heads)
  · refine (hsound h hh).walk.mono (fun _ r hr => ?_) (List.Subset.refl heads)
    exact ⟨toDocument r, hr.names.1, hr.exact hexact, hr.names.2⟩

/-! ## One evaluation -/

theorem observing_of_undisturbed (observed : Observation) (x : Outside) (r : OutsideAnswer x)
    (h : undisturbed observed x r) : observing (· = observed) x r := by
  cases x with
  | execute rule slotId slotEnd => exact h
  | fence | fold record => trivial

theorem noState_ruleStore : NoState 7 ruleStore := by
  have hempty : emptyStore.Distinct := fun _ => List.nodup_nil
  refine ⟨hempty.write List.not_mem_nil, fun k hk => ?_⟩
  refine write_other ?_ 0 _
  rcases hk with rfl | ⟨sequence, revision, slotId, status, rfl⟩
  · exact stateHeadKey_ne_headKey .rule 7 7
  · exact transitionKey_ne_headKey .rule 7 7 sequence revision slotId status

def firstCall : SlotCall := ⟨plainContext, plainRule, 1, 60⟩

theorem evaluations_first {P : Platform} (hfits : ∀ d, Fits P d) (observed : Observation) : ∃ s, Evaluations P 7
    (· = observed) ruleStore s ∧ s.calls = [firstCall] ∧ ∃ h ∈ committedHead P plainContext plainRule 1 60 none
    observed, (s.world (stateHeadKey 7)).map Prod.snd = [toDocument h] := by
  have hcommit : (commitSlot P plainContext plainRule 1 60 none (observationOf plainRule observed)).run.Alone
      (Undisturbed observed) (Committed P plainContext plainRule 1 60 none observed ruleStore) ruleStore :=
    commitSlot_alone (priorHead_ruleStore P) (uncovered_none 1 1) (hasRoom_ruleStore hfits observed)
  have halone := evaluateUnderGuard_alone (currentRule_ruleStore hfits) (priorHead_ruleStore P)
    (uncovered_none 1 1) (fun _ => by decide) hcommit
  obtain ⟨r, w', hr, hcomm⟩ := halone.exists_runs
    (exists_answering_works (exists_undisturbed observed))
  obtain ⟨rfl, h, hh, version, hw'⟩ := hcomm
  have hrun : (firstCall.program P).Runs (Observing (· = observed)) ruleStore _ w' :=
    hr.mono (answering_mono (fun _ _ _ _ => answers_of_works) (observing_of_undisturbed observed))
  have hstart : Evaluations P 7 (· = observed) ruleStore ⟨ruleStore, []⟩ := .refl
  refine ⟨_, hstart.run (c := firstCall) rfl hrun, rfl, h, hh, ?_⟩
  have hnone : ruleStore (stateHeadKey plainRule.id) = [] := priorHead_ruleStore P
  rw [hnone] at hw'
  exact congrArg (List.map Prod.snd) hw'

theorem state_heads_chain_first : ∃ s, Evaluations plainPlatform 7 (· = .value one) ruleStore s ∧ s.calls =
    [firstCall] ∧ ∃ h : StateHead, (s.world (stateHeadKey 7)).map Prod.snd = [toDocument h] ∧ ∃ heads : List
    StateHead, (s.world (stateHeadKey 7)).map Prod.snd = heads.map toDocument ∧ HeadChain
    (EvaluatedBy plainPlatform (· = .value one) s.calls) heads ∧ ∀ h ∈ heads, TransitionWalk
    (DigestVerified plainPlatform s.world) heads h h.latestTransition.sequence.toNat := by
  obtain ⟨s, hs, hcalls, h, -, hworld⟩ := evaluations_first fits_plain (.value one)
  obtain ⟨heads, hheads, hchain, -, hwalk⟩ :=
    state_heads_chain plainPlatform 7 (· = .value one) ruleStore noState_ruleStore s hs
  refine ⟨s, hs, hcalls, h, hworld, heads, hheads, hchain, hwalk ?_⟩
  rintro v ⟨⟩
  decide +kernel

/-! ## A value that is read back as another -/

/-- 1/11, whose shortest text is 0.09090909090909091. -/
def eleventh : F64 := ⟨0x3fb745d1745d1746⟩

/-- Reads the text of 1/11 back as the next larger number. -/
def roundingPlatform : Platform where
  json
    | .transition r => if r.observation = .value eleventh then [1] else [0]
    | _ => []
  parsed v := if v = eleventh then ⟨0x3fb745d1745d1747⟩ else v
  sha256 bytes := bytes

theorem fits_rounding (d : Document) : Fits roundingPlatform d := by
  have hjson : (roundingPlatform.json d).length ≤ 1 := by
    unfold roundingPlatform
    dsimp only
    split
    · split <;> exact le_rfl
    · exact Nat.zero_le 1
  exact hjson.trans (by decide)

theorem written_ne_of_read {d : Document} {r : TransitionRecord}
    (h : ofDocument roundingPlatform d = some r) : r.observation.written ≠ .value eleventh := by
  cases d with
  | transition stored =>
    obtain ⟨o, ho, rfl⟩ := map_eq_some_iff.mp h
    change o.written ≠ _
    cases hstored : stored.observation with
    | value v =>
      rw [hstored] at ho
      obtain ⟨u, hu, rfl⟩ := map_eq_some_iff.mp ho
      have hne : u ≠ eleventh := by
        unfold F64.read at hu
        split at hu
        · rw [← some.inj hu]
          simp only [roundingPlatform]
          split
          · decide
          · assumption
        · cases hu
      intro heq
      have hwritten : u.written = eleventh := value.inj heq
      unfold F64.written at hwritten
      split at hwritten
      · exact hne hwritten
      · exact absurd hwritten (by decide)
    | noData =>
      rw [hstored] at ho
      cases ho
      exact nofun
    | error e =>
      rw [hstored] at ho
      cases ho
      exact nofun
  | _ => cases h

theorem rounded_value_breaks_digest : ∃ s, Evaluations roundingPlatform 7 (· = .value eleventh) ruleStore s ∧ s.calls
    = [firstCall] ∧ eleventh.isFinite = true ∧ ∃ h, (s.world (stateHeadKey 7)).map Prod.snd = [toDocument h] ∧
    ∀ r, ¬ DigestVerified roundingPlatform s.world h r := by
  obtain ⟨s, hs, hcalls, h, hh, hworld⟩ := evaluations_first fits_rounding (.value eleventh)
  refine ⟨s, hs, hcalls, by decide +kernel, h, hworld, ?_⟩
  rintro r ⟨d, -, hread, hverified⟩
  have hreference := (verifyTransition_eq_ok.mp hverified).2.2.2.2.2
  obtain rfl := some.inj hh
  have hdigest : sha256Hex roundingPlatform (roundingPlatform.json (toDocument r)) =
      sha256Hex roundingPlatform [1] := congrArg TransitionRef.sha256 hreference
  have hjson : roundingPlatform.json (toDocument r) = [0] :=
    if_neg (written_ne_of_read hread)
  rw [hjson] at hdigest
  exact absurd hdigest (by decide)

end Scry.Alert
