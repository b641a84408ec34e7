import Scry.Pipeline.Idempotent

/-! # Recoveries of different data

The UUID of a recovery block depends on the replayed payloads alone.
-/

open Scry.Lib Scry.Block Scry.Wal

namespace Scry.Pipeline

open Option List

variable {sig : Signal}

/-! ## Completed opens -/

/-- An `open` that returned `Ok`: what it replayed and published. -/
structure Opened where
  frames : List (Except ReplayError Bytes)
  uuids : List Uuid

/-- `base` and `frames` are those of the open under way. -/
structure Generations (sig : Signal) where
  shard : Shard sig
  base : List (StoredBlock sig)
  frames : List (Except ReplayError Bytes)
  completed : List Opened

namespace Generations

def after (env : Env) (g : Generations sig) (a : Action) (s : Shard sig) : Generations sig :=
  match a with
  | .open =>
    { g with
      shard := s
      base := g.shard.store.blocks
      frames := replay env.crc32 (openWal g.shard.process.dir env.maxSegmentBytes) }
  | .finishOpen =>
    { g with
      shard := s
      completed := g.completed ++
        [⟨g.frames, (s.store.blocks.drop g.base.length).map StoredBlock.uuid⟩] }
  | _ => { g with shard := s }

def step (env : Env) (g : Generations sig) (a : Action) : Option (Generations sig) :=
  (g.shard.step env a).map (g.after env a)

def down (dir : Dir) (st : Store sig) : Generations sig := ⟨⟨.down dir, st, [], 0⟩, [], [], []⟩

def SharesNoBlock (g : Generations sig) : Prop :=
  g.completed.Pairwise fun o o' => ∀ u ∈ o.uuids, u ∉ o'.uuids

def cutsOf (sig : Signal) (frames : List (Except ReplayError Bytes)) : List (Cut sig) :=
  (recoveryCuts sig frames).getD []

/-- No block was hashed over the bytes of a block of an earlier open. -/
def NewContent (g : Generations sig) (a : Action) : Prop :=
  a = .finishOpen → ∀ o ∈ g.completed, ∀ c ∈ cutsOf sig o.frames, ∀ c' ∈ cutsOf sig g.frames,
    hashInput c.hashed ≠ hashInput c'.hashed

instance (g : Generations sig) (a : Action) : Decidable (g.NewContent a) :=
  inferInstanceAs (Decidable (a = .finishOpen → ∀ o ∈ g.completed, ∀ c ∈ cutsOf sig o.frames,
    ∀ c' ∈ cutsOf sig g.frames, hashInput c.hashed ≠ hashInput c'.hashed))

/-! ## What an open leaves behind -/

def Unwritten (r : Recovery sig) : Prop :=
  (∀ seg ∈ r.wal.dir.rows, seg.seq < r.wal.currentSeq ∨ seg.bytes = []) ∧
    r.replayHigh = if r.wal.currentSeq = 0 then none else some (r.wal.currentSeq - 1)

structure Sound (env : Env) (g : Generations sig) : Prop where
  progress : ∀ r, g.shard.process = .opening r → Progress env g.frames g.base g.shard
  unwritten : ∀ r, g.shard.process = .opening r → Unwritten r
  completed : ∀ o ∈ g.completed, ∃ all, recoveryCuts sig o.frames = some all ∧
    o.uuids = all.map fun c => env.recoveryBlockUuid c.hashed

section
variable {env : Env} {g g' : Generations sig} {a : Action} {r r' : Recovery sig} {s : Shard sig}

theorem unwritten_start (env : Env) (sig : Signal) (d : Dir) : Unwritten (Recovery.start env sig d) := by
  refine ⟨?_, rfl⟩
  intro seg hseg
  have hrows : (d.create d.nextSeq).rows = d.rows ++ [⟨d.nextSeq, []⟩] :=
    Dir.rows_create (by rw [Table.contains, Dir.lookup_nextSeq, isSome_none])
  change seg ∈ (d.create d.nextSeq).rows at hseg
  rw [hrows] at hseg
  rcases mem_append.mp hseg with hseg | hseg
  · exact .inl (d.lt_nextSeq (Table.lookup_of_mem hseg))
  · obtain rfl := mem_singleton.mp hseg
    exact .inr rfl

theorem Unwritten.congr (h : Unwritten r) (hwal : r'.wal = r.wal) (hhigh : r'.replayHigh = r.replayHigh) :
    Unwritten r' := by
  unfold Unwritten
  rw [hwal, hhigh]
  exact h

theorem Unwritten.stepOpening (h : Unwritten r) {s' : Shard sig} (hs : s.stepOpening env r a = some s')
    (hp' : s'.process = .opening r') : Unwritten r' := by
  cases a with
  | replayFrame boundaryOk closeOk =>
    obtain ⟨out, hout, rfl⟩ := map_eq_some_iff.mp hs
    cases out with
    | failed st => cases hp'
    | continued r₁ st =>
      cases hp'
      obtain ⟨-, ⟨e, rest, -, hfail⟩ | ⟨w, rest, -, hturn⟩⟩ := replayFrame_some hout
      · cases hfail
      · exact h.congr (replayFrame_advances hout).1 (replayPayload_continued hturn.symm).2.1
  | uploadRest ok =>
    obtain ⟨out, hout, rfl⟩ := map_eq_some_iff.mp hs
    obtain ⟨-, -, ⟨-, rfl⟩ | ⟨-, -, rfl⟩ | ⟨st, -, rfl⟩⟩ := uploadRest_some hout <;> cases hp'
    · exact h
    · exact h
  | unlinkReplayed seq =>
    obtain ⟨r₁, hr₁, rfl⟩ := map_eq_some_iff.mp hs
    obtain ⟨_, -, -, -, rfl⟩ := unlinkReplayed_some hr₁
    cases hp'
    refine ⟨?_, h.2⟩
    intro seg hseg
    exact h.1 seg (mem_of_mem_filter hseg)
  | finishOpen =>
    obtain ⟨⟨l, st⟩, -, rfl⟩ := map_eq_some_iff.mp hs
    cases hp'
  | _ => cases hs

/-! ## Runs -/

theorem after_of_ne (env : Env) (g : Generations sig) (s : Shard sig) (hopen : a ≠ .open)
    (hfin : a ≠ .finishOpen) : g.after env a s = { g with shard := s } := by
  cases a <;> first | rfl | exact absurd rfl hopen | exact absurd rfl hfin

theorem sound_down (env : Env) (dir : Dir) (st : Store sig) : Sound env (down dir st) :=
  ⟨fun _ h => (by cases h), fun _ h => (by cases h), nofun⟩

theorem Sound.finishOpen (h : Sound env g) (hs : g.shard.step env .finishOpen = some s) : ∃ all, recoveryCuts sig
    g.frames = some all ∧ (s.store.blocks.drop g.base.length).map StoredBlock.uuid = all.map
    fun c => env.recoveryBlockUuid c.hashed := by
  obtain ⟨torn, dir, h0, -⟩ | ⟨dir, -, h0, -⟩ | ⟨r, hp, hs⟩ | ⟨l, -, hs⟩ := Pipeline.step_some hs
  · cases h0
  · cases h0
  · obtain ⟨done, hblocks, hdone⟩ := (h.progress r hp).stepOpening hp hs
    obtain ⟨⟨l, st⟩, -, rfl⟩ := map_eq_some_iff.mp hs
    refine ⟨done, hdone, ?_⟩
    rw [hblocks, List.drop_left, List.map_map]
    rfl
  · cases hs

theorem Sound.step (h : Sound env g) (hs : g.step env a = some g') : Sound env g' := by
  obtain ⟨s, hshard, rfl⟩ := map_eq_some_iff.mp hs
  by_cases hfin : a = .finishOpen
  · subst hfin
    obtain ⟨all, hall, huuids⟩ := h.finishOpen hshard
    have hlive : ∃ l, s.process = .live l := by
      obtain ⟨torn, dir, h0, -⟩ | ⟨dir, -, h0, -⟩ | ⟨r, -, hs⟩ | ⟨l, -, hs⟩ := Pipeline.step_some hshard
      · cases h0
      · cases h0
      · obtain ⟨⟨l, st⟩, -, rfl⟩ := map_eq_some_iff.mp hs
        exact ⟨l, rfl⟩
      · cases hs
    obtain ⟨l, hl⟩ := hlive
    refine ⟨?_, ?_, ?_⟩
    · intro r hr
      cases hl.symm.trans hr
    · intro r hr
      cases hl.symm.trans hr
    · exact forall_mem_snoc h.completed ⟨all, hall, huuids⟩
  · obtain ⟨torn, dir, rfl, -, rfl⟩ | ⟨dir, hp, rfl, rfl⟩ | ⟨r, hp, hs'⟩ | ⟨l, -, hs'⟩ := Pipeline.step_some hshard
    · exact ⟨fun _ h => (by cases h), fun _ h => (by cases h), h.completed⟩
    · refine ⟨?_, ?_, h.completed⟩
      · intro r _
        have hframes : replay env.crc32 (openWal dir env.maxSegmentBytes) =
            replay env.crc32 (openWal g.shard.process.dir env.maxSegmentBytes) := by
          rw [hp]
          rfl
        exact progress_open env g.shard.store.blocks hframes rfl
      · intro r hr
        cases hr
        exact unwritten_start env sig dir
    · have hopen : a ≠ .open := by
        rintro rfl
        cases hs'
      rw [after_of_ne env g s hopen hfin]
      exact ⟨fun r' _ => (h.progress r hp).stepOpening hp hs',
        fun r' hp' => (h.unwritten r hp).stepOpening hs' hp', h.completed⟩
    · have hopen : a ≠ .open := by
        rintro rfl
        cases hs'
      obtain ⟨⟨l', hl'⟩, -⟩ := stepLive_some hs'
      rw [after_of_ne env g s hopen hfin]
      exact ⟨fun r hr => (by cases hl'.symm.trans hr), fun r hr => (by cases hl'.symm.trans hr), h.completed⟩

theorem cutsOf_eq {frames : List (Except ReplayError Bytes)} {all : List (Cut sig)}
    (h : recoveryCuts sig frames = some all) : cutsOf sig frames = all := by
  rw [cutsOf, h, getD_some]

theorem sharesNoBlock_step_iff {h : Sha256} (henv : env.Hashes sig h) (hfree : h.CollisionFree) (hsound : Sound env g)
    (hg : g.SharesNoBlock) (hs : g.step env a = some g') : g'.SharesNoBlock ↔ g.NewContent a := by
  obtain ⟨s, hshard, rfl⟩ := map_eq_some_iff.mp hs
  by_cases hfin : a = .finishOpen
  · subst hfin
    obtain ⟨all, hall, huuids⟩ := hsound.finishOpen hshard
    have hnew : (g.after env .finishOpen s).SharesNoBlock ↔
        ∀ o ∈ g.completed, ∀ u ∈ o.uuids, u ∉ all.map fun c => env.recoveryBlockUuid c.hashed := by
      unfold SharesNoBlock after
      dsimp only
      rw [huuids, pairwise_append]
      simp only [pairwise_singleton, mem_singleton, forall_eq, true_and]
      exact and_iff_right hg
    rw [hnew]
    unfold NewContent
    rw [cutsOf_eq hall, forall_prop_of_true rfl]
    refine forall₂_congr fun o ho => ?_
    obtain ⟨cs, hcs, hous⟩ := hsound.completed o ho
    rw [cutsOf_eq hcs, hous, List.forall_mem_map]
    refine forall₂_congr fun c _ => ?_
    simp only [List.mem_map, not_exists, not_and]
    refine forall₂_congr fun c' _ => ?_
    rw [henv.uuid_eq_iff hfree]
    exact ne_comm
  · refine ⟨fun _ h0 => absurd h0 hfin, fun _ => ?_⟩
    by_cases hopen : a = .open
    · subst hopen
      exact hg
    · rw [after_of_ne env g s hopen hfin]
      exact hg

end

/-- **Recoveries share a block exactly when they replay the same bytes.** -/
theorem shares_no_block_iff (sig : Signal) (env : Env) (h : Sha256) (henv : env.Hashes sig h)
    (hfree : h.CollisionFree) (dir : Dir) (st : Store sig) (acts : List Action) (g : Generations sig)
    (hrun : run (step env) (down dir st) acts = some g) : (∀ before g', before <+: acts → run (step env) (down dir st)
    before = some g' → g'.SharesNoBlock) ↔ Meets (step env) NewContent (down dir st) acts := by
  refine forall_prefix_iff_meets (A := fun _ => True) ?_ ?_ (sound_down env dir st) .nil
    (fun _ _ => trivial) hrun
  · intro g a g' hg _ hs
    exact hg.step hs
  · intro g a g' hsound _ hg hs
    exact sharesNoBlock_step_iff henv hfree hsound hg hs

/-! ## The same batch twice, and two different ones -/

def ingestCrashRecover (p : Bytes) (segs : List Nat) : List Action :=
  ingestOne p ++ [.crash 0, .open, .replayFrame true true, .uploadRest true] ++
    segs.map .unlinkReplayed ++ [.finishOpen]

def laterBatch : Bytes := toBe 4 1 ++ toBe 8 5 ++ replicate 6 0

def differentBatches : List Action :=
  openFresh ++ ingestCrashRecover (sampleBatch 1) [0] ++ ingestCrashRecover laterBatch [1]

theorem shares_no_block_different_batches : ∃ g, run (step hashedEnv)
    (down .empty ⟨[], .empty⟩ : Generations sampleSignal) differentBatches = some g ∧ g.SharesNoBlock := by
  have hsome : (run (step hashedEnv) (down .empty ⟨[], .empty⟩ : Generations sampleSignal)
      differentBatches).isSome = true := by
    decide +kernel
  obtain ⟨g, hg⟩ := isSome_iff_exists.mp hsome
  have hmeets : Meets (step hashedEnv) NewContent (down .empty ⟨[], .empty⟩ : Generations sampleSignal)
      differentBatches := by
    decide +kernel
  exact ⟨g, hg, (shares_no_block_iff sampleSignal hashedEnv sampleHash hashedEnv_hashes
    sampleHash_collisionFree .empty ⟨[], .empty⟩ differentBatches g hg).mpr hmeets _ g prefix_rfl hg⟩

def sameBatch : List Action :=
  openFresh ++ ingestCrashRecover (sampleBatch 1) [0] ++ ingestCrashRecover (sampleBatch 1) [1]

theorem same_batch_shares_block : ∃ g, run (step hashedEnv) (down .empty ⟨[], .empty⟩ : Generations sampleSignal)
    sameBatch = some g ∧ g.shard.acked.map Ack.payload = [sampleBatch 1, sampleBatch 1] ∧ ¬ g.SharesNoBlock := by
  have houtline : (run (step hashedEnv) (down .empty ⟨[], .empty⟩ : Generations sampleSignal) sameBatch).map
      (fun g => (g.shard.acked.map Ack.payload, g.completed.map Opened.uuids)) =
      some ([sampleBatch 1, sampleBatch 1],
        [[], [hashedEnv.recoveryBlockUuid [sampleBatch 1]], [hashedEnv.recoveryBlockUuid [sampleBatch 1]]]) := by
    decide +kernel
  obtain ⟨g, hg, hout⟩ := map_eq_some_iff.mp houtline
  refine ⟨g, hg, congrArg Prod.fst hout, ?_⟩
  intro hshares
  have huuids := congrArg Prod.snd hout
  dsimp only at huuids
  have hpairs : (g.completed.map Opened.uuids).Pairwise fun us us' => ∀ u ∈ us, u ∉ us' :=
    pairwise_map.mpr hshares
  rw [huuids] at hpairs
  simp at hpairs

end Generations

end Scry.Pipeline
