import Scry.Retention.Passes

/-! # Retention neither deletes early nor forgets -/

open Scry.Lib Scry.Block Scry.Catalog

namespace Scry.Retention

open List

/-! ## Rows -/

/-- A hidden row has a deadline, and only a hidden row has one. -/
structure Deadlined (r : Row) : Prop where
  together : r.deletedAt.isSome = r.deleteEligibleAt.isSome
  bounded : ∀ d ∈ r.deleteEligibleAt, d ≤ i64Max

theorem Deadlined.of_alike {r r' : Row} (h : Deadlined r) (halike : Alike r r') : Deadlined r' where
  together := by rw [halike.deletedAt, halike.deleteEligibleAt, h.together]
  bounded d hd := h.bounded d (halike.deleteEligibleAt ▸ hd)

theorem Deadlined.ofMeta (m : BlockMeta) (superseded : Bool) : Deadlined (Row.ofMeta m superseded) where
  together := rfl
  bounded d hd := by cases hd

theorem Deadlined.markDeleted {r : Row} (h : Deadlined r) (t e : Nat) :
    Deadlined (r.markDeleted t (min e i64Max)) where
  together := by
    unfold Row.markDeleted
    cases r.deletedAt <;> rfl
  bounded d hd := by
    simp only [Row.markDeleted, Option.mem_def, Option.some.injEq] at hd
    cases hr : r.deleteEligibleAt with
    | none =>
      rw [hr, Option.getD_none] at hd
      omega
    | some x =>
      have := h.bounded x hr
      rw [hr, Option.getD_some] at hd
      omega

theorem Deadlined.adoptPeerDeletion (r : Row) (t e : Nat) : Deadlined (r.adoptPeerDeletion t (min e i64Max)) where
  together := rfl
  bounded d hd := by
    simp only [Row.adoptPeerDeletion, Option.mem_def, Option.some.injEq] at hd
    omega

theorem Deadlined.exists_deadline {r : Row} (h : Deadlined r) (hdel : r.deletedAt.isSome) :
    ∃ d, r.deleteEligibleAt = some d ∧ d ≤ i64Max := by
  rw [h.together] at hdel
  obtain ⟨d, hd⟩ := Option.isSome_iff_exists.mp hdel
  exact ⟨d, hd, h.bounded d hd⟩

structure RowOf (m : BlockMeta) (r : Row) : Prop where
  signal : r.signal = m.signal
  tsMax : r.tsMax = m.tsMaxUnixNano

structure EntryOf (m : BlockMeta) (e : CatalogEntry) : Prop where
  uuid : e.blockMeta.uuid = m.uuid
  signal : e.blockMeta.signal = m.signal
  tsMax : e.blockMeta.tsMaxUnixNano = m.tsMaxUnixNano

def Due (s : State) (now : Nat) (u : Uuid) : Prop :=
  ∃ r d, s.row u = some r ∧ r.deletedAt.isSome ∧ r.deleteEligibleAt = some d ∧ d ≤ now

/-! ## The invariant -/

structure Sound (s : State) : Prop where
  sidecar_unique : ∀ x ∈ s.sidecars, ∀ y ∈ s.sidecars, x.uuid = y.uuid → x = y
  deadlined : ∀ u r, s.row u = some r → Deadlined r
  sidecar : ∀ u r, s.row u = some r → ∃ m ∈ s.sidecars, m.uuid = u ∧ RowOf m r
  expired : ∀ p ∈ s.pass, ∀ e ∈ p.expired,
    p.cfg.expired p.now e ∧ ∃ m ∈ s.sidecars, EntryOf m e
  due : ∀ p ∈ s.pass, ∀ e ∈ p.phase.queue, Due s p.now e.blockMeta.uuid
  queue_nodup : ∀ p ∈ s.pass, (p.phase.queue.map fun e => e.blockMeta.uuid).Nodup
  gone : ∀ p ∈ s.pass, ∀ e queue own, p.phase = .dropping e queue own → e.blockMeta.uuid ∈ s.deleted

theorem sound_start : Sound .start := by
  constructor <;> simp [State.start, State.row, Catalog.empty]

section Step
variable {s s' : State} {a : Action}

theorem Sound.sidecars_subset (h : Steps s a s') : ∀ m ∈ s.sidecars, m ∈ s'.sidecars := by
  intro m hm
  cases h with
  | insert x hone => exact mem_cons_of_mem _ hm
  | adopt | dryRun | beginPass | listPending | deleteObjects | deleteFailed | dropRow | dropFailed
  | reapDone | acquired | stage | reapOwn | nothingExpired | refused | waiting | crash => exact hm

section

variable (hs : Sound s) (h : Steps s a s')
include hs h

theorem Sound.step_sidecar_unique :
    ∀ x ∈ s'.sidecars, ∀ y ∈ s'.sidecars, x.uuid = y.uuid → x = y := by
  cases h with
  | insert m hone =>
    intro x hx y hy hxy
    rcases mem_cons.mp hx with rfl | hx
    · rcases mem_cons.mp hy with rfl | hy
      · rfl
      · exact (hone y hy hxy.symm).symm
    · rcases mem_cons.mp hy with hym | hy
      · exact (hone x hx (hym ▸ hxy)).trans hym.symm
      · exact hs.sidecar_unique x hx y hy hxy
  | adopt | dryRun | beginPass | listPending | deleteObjects | deleteFailed | dropRow | dropFailed
  | reapDone | acquired | stage | reapOwn | nothingExpired | refused | waiting | crash => exact hs.sidecar_unique

theorem Sound.step_deadlined (u : Uuid) (r : Row)
    (hr : s'.row u = some r) : Deadlined r := by
  have hch := step_row h u
  rw [hr] at hch
  generalize hbefore : s.row u = before at hch
  cases hch with
  | kept halike => exact (hs.deadlined u _ hbefore).of_alike halike
  | inserted _ _ halike => exact (Deadlined.ofMeta _ false).of_alike halike
  | staged => exact (hs.deadlined u _ hbefore).markDeleted _ _
  | adopted => exact Deadlined.adoptPeerDeletion _ _ _

theorem Sound.step_sidecar (u : Uuid) (r : Row)
    (hr : s'.row u = some r) : ∃ m ∈ s'.sidecars, m.uuid = u ∧ RowOf m r := by
  have hch := step_row h u
  rw [hr] at hch
  generalize hbefore : s.row u = before at hch
  have hold : ∀ r₀, before = some r₀ → r.signal = r₀.signal → r.tsMax = r₀.tsMax →
      ∃ m ∈ s'.sidecars, m.uuid = u ∧ RowOf m r := by
    rintro r₀ rfl hsignal htsMax
    obtain ⟨m, hm, hu, hrow⟩ := hs.sidecar u r₀ hbefore
    exact ⟨m, Sound.sidecars_subset h m hm, hu, hsignal.trans hrow.signal, htsMax.trans hrow.tsMax⟩
  cases hch with
  | kept halike => exact hold _ rfl halike.signal halike.tsMax
  | inserted ha hm halike =>
    subst ha
    cases h
    exact ⟨_, mem_cons_self, hm, halike.signal, halike.tsMax⟩
  | staged => exact hold _ rfl rfl rfl
  | adopted => exact hold _ rfl rfl rfl

end

theorem Due.step (h : Steps s a s') {now : Nat} {u : Uuid} (hdue : Due s now u) (hstage : a ≠ .stage)
    (hdrop : ∀ p e queue own, a = .dropRow true → s.pass = some p → p.phase = .dropping e queue own → e.blockMeta.uuid
    ≠ u) : Due s' now u := by
  obtain ⟨r, d, hr, hdel, hd, hle⟩ := hdue
  have hch := step_row h u
  rw [hr] at hch
  generalize hafter : s'.row u = after at hch
  cases hch with
  | kept halike =>
    exact ⟨_, d, hafter, halike.deletedAt ▸ hdel, halike.deleteEligibleAt.trans hd, hle⟩
  | staged ha => exact absurd ha hstage
  | adopted ha hu hlive =>
    rw [hlive] at hdel
    cases hdel
  | dropped ha hp hphase hu => exact absurd hu (hdrop _ _ _ _ ha hp hphase)

theorem due_of_mem_listPendingDeletions {c : Catalog} {now : Nat} {e : CatalogEntry}
    (h : e ∈ c.listPendingDeletions now) : ∃ r d, c.blocks.lookup e.blockMeta.uuid = some r ∧ r.deletedAt.isSome ∧
    r.deleteEligibleAt = some d ∧ d ≤ now := by
  obtain ⟨r, hr, hdue, rfl⟩ := (mem_listPendingDeletions c now e).mp h
  rw [Row.deletionDue, Bool.and_eq_true, Option.any_eq_true] at hdue
  obtain ⟨hdel, d, hd, hle⟩ := hdue
  rw [decide_eq_true_eq] at hle
  exact ⟨r, d, hr, hdel, hd, by omega⟩

theorem nodup_listPendingDeletions (c : Catalog) (now : Nat) :
    ((c.listPendingDeletions now).map fun e => e.blockMeta.uuid).Nodup := by
  unfold listPendingDeletions
  rw [map_map]
  apply ((perm_insertionSort deletionOrder _).map _).nodup_iff.mpr
  exact c.blocks.nodup.sublist (filter_sublist.map _)

section

variable (hs : Sound s) (h : Steps s a s')
include hs h

theorem Sound.step_expired :
    ∀ p ∈ s'.pass, ∀ e ∈ p.expired, p.cfg.expired p.now e ∧ ∃ m ∈ s'.sidecars, EntryOf m e := by
  have hsub := Sound.sidecars_subset h
  have hkeep : ∀ p ∈ s.pass, ∀ e ∈ p.expired,
      p.cfg.expired p.now e ∧ ∃ m ∈ s'.sidecars, EntryOf m e := by
    intro p hp e he
    obtain ⟨hexp, m, hm, hof⟩ := hs.expired p hp e he
    exact ⟨hexp, m, hsub m hm, hof⟩
  intro q hq e he
  cases h with
  | insert | adopt | dryRun => exact hkeep q hq e he
  | beginPass cfg now =>
    cases hq
    rw [planReaping, mem_insertionSort] at he
    obtain ⟨hmem, hexp⟩ := mem_filter.mp he
    obtain ⟨r, hr, -, rfl⟩ := (mem_listBlocks s.catalog e).mp hmem
    obtain ⟨m, hm, hu, hrow⟩ := hs.sidecar r.uuid r hr
    exact ⟨hexp, m, hm, hu.symm, hrow.signal, hrow.tsMax⟩
  | listPending p hp | deleteObjects p e' queue own hp _ | deleteFailed p e' queue own hp _
  | dropRow p e' queue own hp _ | dropFailed p e' queue own hp _ | reapDone p hp | acquired p hp
  | stage p hp _ | reapOwn p held hp =>
    cases hq
    exact hkeep p hp e he
  | nothingExpired | refused | waiting | crash => cases hq

theorem Sound.step_queue : ∀ p ∈ s'.pass,
    (∀ e ∈ p.phase.queue, Due s' p.now e.blockMeta.uuid) ∧ (p.phase.queue.map fun e => e.blockMeta.uuid).Nodup := by
  have hdue := @Due.step s s' a h
  intro q hq
  cases h with
  | insert | adopt =>
    refine ⟨fun e he => ?_, hs.queue_nodup q hq⟩
    exact hdue (hs.due q hq e he) (by simp) (by simp)
  | dryRun => exact ⟨hs.due q hq, hs.queue_nodup q hq⟩
  | beginPass | reapDone | acquired | stage =>
    cases hq
    exact ⟨by simp [Phase.queue], by simp [Phase.queue]⟩
  | listPending p hp | reapOwn p held hp =>
    cases hq
    exact ⟨fun e he => due_of_mem_listPendingDeletions he, nodup_listPendingDeletions _ _⟩
  | deleteObjects p e queue own hp hphase =>
    cases hq
    have hq := hs.due p hp
    have hn := hs.queue_nodup p hp
    rw [hphase] at hq hn
    exact ⟨hq, hn⟩
  | deleteFailed p e queue own hp hphase | dropFailed p e queue own hp hphase =>
    cases hq
    have hq := hs.due p hp
    have hn := hs.queue_nodup p hp
    rw [hphase] at hq hn
    exact ⟨fun x hx => hq x (mem_cons_of_mem _ hx), (nodup_cons.mp hn).2⟩
  | dropRow p e queue own hp hphase =>
    cases hq
    have hq := hs.due p hp
    have hn := hs.queue_nodup p hp
    rw [hphase] at hq hn
    obtain ⟨hne, hn⟩ := nodup_cons.mp hn
    refine ⟨fun x hx => hdue (hq x (mem_cons_of_mem _ hx)) (by simp) ?_, hn⟩
    -- The other entries of the queue are other blocks.
    rintro p' e' queue' own' - hp' hphase' heq
    cases hp.symm.trans hp'
    cases hphase.symm.trans hphase'
    exact hne (mem_map.mpr ⟨x, hx, heq.symm⟩)
  | nothingExpired | refused | waiting | crash => cases hq

theorem Sound.step_gone : ∀ p ∈ s'.pass, ∀ e queue own, p.phase = .dropping e queue
    own → e.blockMeta.uuid ∈ s'.deleted := by
  intro q hq e queue own hphase
  cases h with
  | insert | adopt | dryRun => exact hs.gone q hq e queue own hphase
  | deleteObjects p e' queue' own' hp _ =>
    cases hq
    cases hphase
    exact mem_cons_self
  | beginPass | listPending | deleteFailed | dropRow | dropFailed | reapDone | acquired | stage
  | reapOwn =>
    cases hq
    cases hphase
  | nothingExpired | refused | waiting | crash => cases hq

end

theorem Sound.step (hs : Sound s) (h : step s a = some s') : Sound s' where
  sidecar_unique := hs.step_sidecar_unique (step_cases h)
  deadlined := hs.step_deadlined (step_cases h)
  sidecar := hs.step_sidecar (step_cases h)
  expired := hs.step_expired (step_cases h)
  due p hp := (hs.step_queue (step_cases h) p hp).1
  queue_nodup p hp := (hs.step_queue (step_cases h) p hp).2
  gone := hs.step_gone (step_cases h)

end Step

variable {actions : List Action} {s : State}

theorem sound_run (h : run step .start actions = some s) : Sound s :=
  run_invariant (fun _ _ _ hs hstep => hs.step hstep) sound_start h

/-! ## How a row was hidden -/

/-- It stages a block that its pass has selected, or adopts a peer's staging. -/
inductive Hides (s : State) (u : Uuid) : Action → Prop where
  | selected (p : Pass) (r : Row) (ttl : Nat) (hp : s.pass = some p) (hr : s.row u = some r)
      (httl : p.cfg.ttlFor r.signal = some ttl) (hold : r.tsMax < p.now - min ttl u64Max) :
      Hides s u .stage
  | adopted (uuids : List Uuid) (deletedAt eligibleAt : Nat) (hu : u ∈ uuids) :
      Hides s u (.adoptPeerDeletion uuids deletedAt eligibleAt)

theorem Sound.hides_of_staged (hs : Sound s) {p : Pass} {u : Uuid} {r : Row} (hp : s.pass = some p)
    (hr : s.row u = some r) (hu : u ∈ p.expiredUuids) : Hides s u .stage := by
  obtain ⟨e, he, rfl⟩ := mem_map.mp hu
  obtain ⟨hexp, m, hm, hof⟩ := hs.expired p hp e he
  obtain ⟨m', hm', hu', hrow⟩ := hs.sidecar _ r hr
  -- Entry and row are of one sidecar.
  obtain rfl : m' = m := hs.sidecar_unique m' hm' m hm (hu'.trans hof.uuid)
  unfold RetentionConfig.expired at hexp
  split at hexp
  next ttl httl =>
    rw [decide_eq_true_eq, hof.tsMax, ← hrow.tsMax] at hexp
    rw [hof.signal, ← hrow.signal] at httl
    exact .selected p r ttl hp hr httl hexp
  next => cases hexp

def HiddenIn (actions : List Action) (u : Uuid) : Prop :=
  ∃ pre a post s₁ s₂, actions = pre ++ a :: post ∧ run step .start pre = some s₁ ∧
    step s₁ a = some s₂ ∧ (∃ r, s₁.row u = some r ∧ r.deletedAt = none) ∧
    (∃ r, s₂.row u = some r ∧ r.deletedAt.isSome) ∧ Hides s₁ u a

theorem HiddenIn.snoc {u : Uuid} (h : HiddenIn actions u) (b : Action) : HiddenIn (actions ++ [b]) u := by
  obtain ⟨pre, a, post, s₁, s₂, rfl, hpre, hstep, hbefore, hafter, hhides⟩ := h
  exact ⟨pre, a, post ++ [b], s₁, s₂, by simp, hpre, hstep, hbefore, hafter, hhides⟩

theorem hiddenIn_of_deleted (h : run step .start actions = some s) {u : Uuid} {r : Row}
    (hr : s.row u = some r) (hdel : r.deletedAt.isSome) : HiddenIn actions u := by
  induction actions using reverseRecOn generalizing s r with
  | nil =>
    cases h
    cases hr
  | append_singleton actions a ih =>
    obtain ⟨s₁, hrun, hstep⟩ := run_snoc_some h
    have hch := step_row (step_cases hstep) u
    rw [hr] at hch
    generalize hbefore : s₁.row u = before at hch
    -- Hidden before: the earlier part of the run. Otherwise this step hides it.
    cases hch with
    | kept halike => exact (ih hrun hbefore (halike.deletedAt ▸ hdel)).snoc a
    | inserted _ _ halike =>
      rw [halike.deletedAt] at hdel
      cases hdel
    | @staged p r₀ ha hp hphase hu =>
      cases hold : r₀.deletedAt with
      | some t => exact (ih hrun hbefore (by rw [hold]; rfl)).snoc a
      | none =>
        have hhides := (sound_run hrun).hides_of_staged hp hbefore hu
        rw [← ha] at hhides
        exact ⟨actions, a, [], s₁, s, rfl, hrun, hstep, ⟨r₀, hbefore, hold⟩, ⟨_, hr, hdel⟩, hhides⟩
    | @adopted uuids deletedAt eligibleAt r₀ ha hu hlive =>
      subst ha
      exact ⟨actions, _, [], s₁, s, rfl, hrun, hstep, ⟨r₀, hbefore, hlive⟩, ⟨_, hr, hdel⟩, .adopted _ _ _ hu⟩

/-! ## Deadlines -/

theorem deadline_step {s' : State} {a : Action} (hs : Sound s) (h : step s a = some s') {u : Uuid} {r : Row} {d : Nat}
    (hr : s.row u = some r) (hdel : r.deletedAt.isSome) (hd : r.deleteEligibleAt = some d) :
    (∃ r' d', s'.row u = some r' ∧ r'.deletedAt = r.deletedAt ∧ r'.deleteEligibleAt = some d' ∧ d ≤ d' ∧
    (a ≠ .stage → d' = d)) ∨ s'.row u = none ∧ a = .dropRow true ∧ u ∈ s.deleted := by
  have hch := step_row (step_cases h) u
  rw [hr] at hch
  generalize hafter : s'.row u = after at hch
  cases hch with
  | kept halike =>
    exact .inl ⟨_, d, rfl, halike.deletedAt, halike.deleteEligibleAt.trans hd, le_rfl, fun _ => rfl⟩
  | @staged p _ ha hp hphase hu =>
    refine .inl ⟨_, max d (min p.eligibleAt i64Max), rfl, ?_, ?_, Nat.le_max_left _ _, fun hne => absurd ha hne⟩
    · obtain ⟨t, ht⟩ := Option.isSome_iff_exists.mp hdel
      simp [Row.markDeleted, ht]
    · simp [Row.markDeleted, hd]
  | adopted ha hu hlive =>
    rw [hlive] at hdel
    cases hdel
  | @dropped p e queue own _ ha hp hphase hu =>
    exact .inr ⟨rfl, ha, hu ▸ hs.gone p hp e queue own hphase⟩

theorem mem_listPendingDeletions_of_deleted (hs : Sound s) {u : Uuid} {r : Row} (hr : s.row u = some r)
    (hdel : r.deletedAt.isSome) : ∃ d, r.deleteEligibleAt = some d ∧ ∀ now, d ≤ now → r.toEntry ∈
    s.catalog.listPendingDeletions now := by
  obtain ⟨d, hd, _⟩ := (hs.deadlined u r hr).exists_deadline hdel
  refine ⟨d, hd, fun now hnow => ?_⟩
  rw [mem_listPendingDeletions]
  have hu : r.uuid = u := Table.key_of_lookup hr
  refine ⟨r, hu ▸ hr, ?_, rfl⟩
  rw [Row.deletionDue, hdel, hd, Option.any_some, Bool.true_and, decide_eq_true_eq]
  omega

theorem due_of_deleteObjects {s' : State} (hs : Sound s) {ok : Bool} (h : step s (.deleteObjects ok) = some s') : ∃ p
    e queue own, s.pass = some p ∧ p.phase = .reaping (e :: queue) own ∧ Due s p.now e.blockMeta.uuid := by
  cases step_cases h with
  | deleteObjects p e queue own hp hphase | deleteFailed p e queue own hp hphase =>
    refine ⟨p, e, queue, own, hp, hphase, hs.due p hp e ?_⟩
    rw [hphase]
    exact mem_cons_self

/-- **Retention never deletes early and never forgets.** Only a hidden block's objects are deleted, not before
its deadline; a hidden block was found expired or adopted; a deadline never moves back; and a hidden row stays
listed past its deadline until it is removed. -/
theorem retention_never_early_never_forgets (actions : List Action) (s : State) (h : run step .start actions = some s)
    : (∀ ok s', step s (.deleteObjects ok) = some s' → ∃ p e queue own, s.pass = some p ∧ p.phase = .reaping
    (e :: queue) own ∧ Due s p.now e.blockMeta.uuid) ∧ (∀ u r, s.row u = some r → r.deletedAt.isSome → HiddenIn
    actions u) ∧ (∀ a s', step s a = some s' → ∀ u r d, s.row u = some r → r.deletedAt.isSome → r.deleteEligibleAt =
    some d → (∃ r' d', s'.row u = some r' ∧ r'.deletedAt = r.deletedAt ∧ r'.deleteEligibleAt = some d' ∧ d ≤ d' ∧
    (a ≠ .stage → d' = d)) ∨ s'.row u = none ∧ a = .dropRow true ∧ u ∈ s.deleted) ∧
    (∀ u r, s.row u = some r → r.deletedAt.isSome → ∃ d, r.deleteEligibleAt = some d ∧ ∀ now, d ≤ now → r.toEntry ∈
    s.catalog.listPendingDeletions now) := by
  have hs := sound_run h
  exact ⟨fun ok s' hstep => due_of_deleteObjects hs hstep, fun u r hr hdel => hiddenIn_of_deleted h hr hdel, fun a s'
    hstep u r d hr hdel hd => deadline_step hs hstep hr hdel hd, fun u r hr
    hdel => mem_listPendingDeletions_of_deleted hs hr hdel⟩

def stagedThenReaped : List Action :=
  let cfg : RetentionConfig := ⟨some 100, [], 10, true⟩
  [.insert (sampleBlock 1 0 []), .beginPass cfg 1000, .listPending, .endReap, .acquire true, .stage,
    .crash, .beginPass cfg 1010, .listPending]

theorem retention_stagedThenReaped : ∃ s, run step .start stagedThenReaped = some s ∧
    (∃ s', step s (.deleteObjects true) = some s' ∧ s'.deleted = [1]) ∧ HiddenIn stagedThenReaped 1 := by
  obtain ⟨s, hs⟩ : ∃ s, run step .start stagedThenReaped = some s := by
    rw [← Option.isSome_iff_exists]
    decide +kernel
  have hnext : (run step .start (stagedThenReaped ++ [.deleteObjects true])).map State.deleted =
      some [1] := by decide +kernel
  rw [run_append, hs, Option.bind_some, Option.map_eq_some_iff] at hnext
  obtain ⟨s', hs', hdeleted⟩ := hnext
  obtain ⟨t, hstep, ht⟩ := run_cons_some hs'
  cases ht
  have hrow : ((run step .start stagedThenReaped).bind fun s => s.row 1).map
      (fun r => r.deletedAt.isSome) = some true := by decide +kernel
  rw [hs, Option.bind_some, Option.map_eq_some_iff] at hrow
  obtain ⟨r, hr, hdel⟩ := hrow
  exact ⟨s, hs, ⟨s', hstep, hdeleted⟩, (retention_never_early_never_forgets stagedThenReaped s hs).2.1 1 r hr hdel⟩

end Scry.Retention
