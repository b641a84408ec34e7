import Scry.Pipeline.RecoveryBlocks

/-! # Recovery is idempotent

Attempts at `Pipeline::open` that a crash or an error ends, and one that completes. Together they
publish what one uninterrupted attempt publishes.
-/

open Scry.Lib Scry.Block Scry.Wal

namespace Scry.Pipeline

open Option Recovery

open List

variable {sig : Signal}

/-! ## Runs of attempts -/

def Action.isLoop : Action → Bool
  | .replayFrame _ _ => true
  | .uploadRest _ => true
  | _ => false

def Action.isAttempt : Action → Bool
  | .open => true
  | .crash _ => true
  | a => a.isLoop

def Action.isRelease : Action → Bool
  | .unlinkReplayed _ => true
  | _ => false

/-- Any number of attempts on the same segments, the last of which completes. -/
structure Completes (env : Env) (s : Shard sig) (attempts release : List Action) (s' : Shard sig) : Prop where
  opening : ∀ a ∈ attempts, a.isAttempt = true
  releasing : ∀ a ∈ release, a.isRelease = true
  completed : run (Shard.step env) s (attempts ++ (release ++ [.finishOpen])) = some s'

def CompletesAtOnce (env : Env) (s : Shard sig) (loop release : List Action) (s' : Shard sig) : Prop :=
  (∀ a ∈ loop, a.isLoop = true) ∧ Completes env s (.open :: loop) release s'

def publishedBlocks (s s' : Shard sig) : List (StoredBlock sig) :=
  s'.store.blocks.drop s.store.blocks.length

/-! ## What has been published -/

def Progress (env : Env) (frames : List (Except ReplayError Bytes)) (base : List (StoredBlock sig))
    (s : Shard sig) : Prop :=
  ∃ done : List (Cut sig), s.store.blocks = base ++ done.map (Cut.block env) ∧
    match s.process with
    | .down _ => ∀ all, recoveryCuts sig frames = some all → done <+: all
    | .opening r => recoveryCuts sig frames = r.todo.map (done ++ ·)
    | .live _ => recoveryCuts sig frames = some done

section Progress
variable {env : Env} {frames : List (Except ReplayError Bytes)} {base : List (StoredBlock sig)}
  {s s' : Shard sig} {a : Action} {r : Recovery sig}

theorem prefix_of_todo {done : List (Cut sig)} (h : recoveryCuts sig frames = r.todo.map (done ++ ·))
    (all : List (Cut sig)) (hall : recoveryCuts sig frames = some all) : done <+: all := by
  rw [h, map_eq_some_iff] at hall
  obtain ⟨later, -, rfl⟩ := hall
  exact prefix_append _ _

theorem progress_open {d : Dir} (env : Env) (base : List (StoredBlock sig))
    (hframes : replay env.crc32 (openWal d env.maxSegmentBytes) = frames) (hbase : s.store.blocks = base) : Progress
    env frames base { s with process := .opening (start env sig d) } := by
  refine ⟨[], by simpa using hbase, ?_⟩
  change recoveryCuts sig frames = (cuts (replay env.crc32 (openWal d env.maxSegmentBytes)) _ _).map _
  rw [hframes]
  exact map_id'.symm

section

variable (h : Progress env frames base s)
include h

theorem Progress.ofReplayed (hp : s.process = .opening r) {out : Replayed sig}
    (hout : Advances env r s.store out) : Progress env frames base (s.ofReplayed r out) := by
  obtain ⟨done, hblocks, hdone⟩ := h
  rw [hp] at hdone
  dsimp only at hdone
  cases out with
  | failed st =>
    obtain ⟨now, hpub, hfirst⟩ := hout
    refine ⟨done ++ now, ?_, ?_⟩
    · rw [map_append, ← append_assoc, ← hblocks]
      exact hpub
    · intro all hall
      rw [hdone, map_eq_some_iff] at hall
      obtain ⟨later, hlater, rfl⟩ := hall
      exact (prefix_append_right_inj done).mpr (hfirst later hlater)
  | continued r' st =>
    obtain ⟨-, now, hpub, htodo⟩ := hout
    refine ⟨done ++ now, ?_, ?_⟩
    · rw [map_append, ← append_assoc, ← hblocks]
      exact hpub
    · change recoveryCuts sig frames = r'.todo.map (done ++ now ++ ·)
      rw [hdone, htodo, Option.map_map]
      congr 1
      funext later
      simp

theorem Progress.stepOpening (hp : s.process = .opening r)
    (hs : s.stepOpening env r a = some s') : Progress env frames base s' := by
  cases a with
  | replayFrame boundaryOk closeOk =>
    obtain ⟨out, hout, rfl⟩ := map_eq_some_iff.mp hs
    exact h.ofReplayed hp (replayFrame_advances hout)
  | uploadRest ok =>
    obtain ⟨out, hout, rfl⟩ := map_eq_some_iff.mp hs
    exact h.ofReplayed hp (uploadRest_advances hout)
  | unlinkReplayed seq =>
    obtain ⟨r', hr', rfl⟩ := map_eq_some_iff.mp hs
    obtain ⟨_, -, -, -, rfl⟩ := unlinkReplayed_some hr'
    obtain ⟨done, hblocks, hdone⟩ := h
    rw [hp] at hdone
    exact ⟨done, hblocks, hdone⟩
  | finishOpen =>
    obtain ⟨⟨l, st⟩, hfin, rfl⟩ := map_eq_some_iff.mp hs
    obtain ⟨hrel, -, -, hst⟩ := finish_some hfin
    obtain ⟨done, hblocks, hdone⟩ := h
    rw [hp] at hdone
    refine ⟨done, hst.trans hblocks, ?_⟩
    dsimp only at hdone ⊢
    rw [hdone, todo, hrel]
    simp
  | _ => cases hs

theorem Progress.step (ha : a.isRecovery = true ∨ a = .finishOpen ∨ ∃ torn, a =
    .crash torn) (hs : s.step env a = some s') : Progress env frames base s' := by
  obtain ⟨torn, dir, rfl, -, rfl⟩ | ⟨dir, -, rfl, -⟩ | ⟨r, hp, hs⟩ | ⟨l, -, hs⟩ := step_some hs
  · obtain ⟨done, hblocks, hdone⟩ := h
    refine ⟨done, hblocks, ?_⟩
    cases hp : s.process with
    | down d =>
      rw [hp] at hdone
      exact hdone
    | opening r =>
      rw [hp] at hdone
      exact prefix_of_todo hdone
    | live l =>
      rw [hp] at hdone
      intro all hall
      rw [hdone] at hall
      cases hall
      exact prefix_rfl
  · simp [Action.isRecovery] at ha
  · exact h.stepOpening hp hs
  · obtain ha | rfl | ⟨torn, rfl⟩ := ha
    · cases a <;> first | cases hs | cases ha
    · cases hs
    · cases hs

end

/-- Blocks of the recovery of `frames` are all that was published. -/
structure Attempting (env : Env) (frames : List (Except ReplayError Bytes))
    (base : List (StoredBlock sig)) (s : Shard sig) : Prop where
  replays : replay env.crc32 (openWal s.process.dir env.maxSegmentBytes) = frames
  published : ∃ before, Progress env frames (base ++ before) s ∧
    ∀ all, recoveryCuts sig frames = some all → ∀ b ∈ before, b ∈ all.map (Cut.block env)
  not_live : ∀ l, s.process ≠ .live l

theorem Advances.wal {out : Replayed sig} {st : Store sig} (h : Advances env r st out) :
    ((s.ofReplayed r out).process.dir = r.wal.dir) ∧ ∀ l, (s.ofReplayed r out).process ≠ .live l := by
  cases out with
  | failed st' => exact ⟨rfl, nofun⟩
  | continued r' st' => exact ⟨congrArg Wal.dir h.1, nofun⟩

theorem Attempting.ofReplayed (h : Attempting env frames base s) (hp : s.process = .opening r) {out : Replayed sig}
    (hout : Advances env r s.store out) : Attempting env frames base (s.ofReplayed r out) := by
  obtain ⟨before, hprog, hbefore⟩ := h.published
  refine ⟨?_, ⟨before, hprog.ofReplayed hp hout, hbefore⟩, hout.wal.2⟩
  rw [hout.wal.1]
  have hrep := h.replays
  rw [hp] at hrep
  exact hrep

theorem Attempting.step (h : Attempting env frames base s) (ha : a.isAttempt = true)
    (hs : s.step env a = some s') : Attempting env frames base s' := by
  obtain ⟨before, hprog, hbefore⟩ := h.published
  have hrep := h.replays
  obtain ⟨torn, dir, rfl, hdir, rfl⟩ | ⟨dir, hp, rfl, rfl⟩ | ⟨r, hp, hs'⟩ | ⟨l, hp, -⟩ := step_some hs
  · refine ⟨?_, ⟨before, hprog.step (.inr (.inr ⟨torn, rfl⟩)) hs, hbefore⟩, nofun⟩
    obtain ⟨r, hp, rfl⟩ | ⟨l, hp, -⟩ | ⟨l, -, -, hp, -⟩ := crashDir_some hdir
    · rw [hp] at hrep
      exact hrep
    · exact absurd hp (h.not_live l)
    · exact absurd hp (h.not_live l)
  · -- What the attempt before this one published are blocks of the recovery too.
    obtain ⟨done, hblocks, hdone⟩ := hprog
    rw [hp] at hdone hrep
    refine ⟨?_, ⟨before ++ done.map (Cut.block env), ?_, ?_⟩, nofun⟩
    · exact (replay_reopen env.crc32 dir env.maxSegmentBytes env.maxSegmentBytes).trans hrep
    · exact progress_open env _ hrep (by rw [hblocks, append_assoc])
    · intro all hall b hb
      rcases mem_append.mp hb with hb | hb
      · exact hbefore all hall b hb
      · obtain ⟨c, hc, rfl⟩ := mem_map.mp hb
        exact mem_map_of_mem ((hdone all hall).subset hc)
  · cases a with
    | replayFrame boundaryOk closeOk =>
      obtain ⟨out, hout, rfl⟩ := map_eq_some_iff.mp hs'
      exact h.ofReplayed hp (replayFrame_advances hout)
    | uploadRest ok =>
      obtain ⟨out, hout, rfl⟩ := map_eq_some_iff.mp hs'
      exact h.ofReplayed hp (uploadRest_advances hout)
    | _ => first | cases hs' | cases ha
  · exact absurd hp (h.not_live l)

theorem Progress.completed {release : List Action} (h : Progress env frames base s)
    (hrel : ∀ a ∈ release, a.isRelease = true) (hrun : run (Shard.step env) s (release ++ [.finishOpen]) = some
    s') : ∃ all, recoveryCuts sig frames = some all ∧ s'.store.blocks = base ++ all.map (Cut.block env) := by
  obtain ⟨s₁, hrun, hfin⟩ := run_snoc_some hrun
  have hallowed : ∀ a ∈ release, a.isRecovery = true ∨ a = .finishOpen ∨ ∃ torn, a = .crash torn := by
    intro a ha
    have hunl := hrel a ha
    cases a <;> first | exact .inl rfl | cases hunl
  have hbefore : Progress env frames base s₁ :=
    run_invariant_of_meets (fun s a s' h ha hs => by exact h.step ha hs) h (meets_of_forall hallowed) hrun
  obtain ⟨done, hblocks, hdone⟩ := hbefore.step (.inr (.inl rfl)) hfin
  obtain ⟨torn, dir, h0, -⟩ | ⟨dir, -, h0, -⟩ | ⟨r, -, hs⟩ | ⟨l, -, hs⟩ := step_some hfin
  · cases h0
  · cases h0
  · obtain ⟨⟨l, st⟩, -, rfl⟩ := map_eq_some_iff.mp hs
    exact ⟨done, hdone, hblocks⟩
  · cases hs

end Progress

/-! ## An uninterrupted attempt -/

section AtOnce
variable {env : Env} {r : Recovery sig} {st : Store sig} {s : Shard sig}

theorem uploadReplayBlock_ok (env : Env) (st : Store sig) {b : sig.Builder} (high : Option Nat) (hashed : List Bytes)
    (hb : sig.isEmpty b = false) : ∃ st', uploadReplayBlock env st b high hashed true = some st' :=
  ⟨_, by rw [uploadReplayBlock, hb]; rfl⟩

theorem closeIfFull_continues {m : sig.Builder} {q : Bytes} {after : List (Cut sig) × sig.Builder} (env : Env)
    (st : Store sig) (rest : List (Except ReplayError Bytes)) (hafter : cutIfFull m (r.hashed ++ [q]) = some after) :
    ∃ r' st', r.closeIfFull env rest q m st true = .continued r' st' := by
  unfold closeIfFull
  unfold cutIfFull at hafter
  split at hafter
  next hclose =>
    split at hafter
    · cases hafter
    next hempty =>
      obtain ⟨st', hup⟩ := uploadReplayBlock_ok env st none (r.hashed ++ [q])
        (show sig.isEmpty m = false by simpa using hempty)
      simp [hclose, hup]
  next hclose => simp [hclose]

theorem replayFrame_continues {f : Except ReplayError Bytes} {rest : List (Except ReplayError Bytes)}
    {all : List (Cut sig)} (env : Env) (st : Store sig) (hrel : r.releasing = false) (hframes : r.frames = f :: rest)
    (htodo : r.todo = some all) : ∃ r' st', r.replayFrame env st true true = some (.continued r' st') := by
  have hcuts : cuts (f :: rest) r.builder r.hashed = some all := by
    rw [← htodo, todo, hrel, hframes]
    rfl
  cases f with
  | error e => cases hcuts
  | ok w =>
    obtain ⟨q, scratch, m, after, later, hred, hdec, hmerge, hafter, -, -⟩ := cuts_ok hcuts
    unfold replayFrame
    rw [hrel, hframes]
    simp only [Bool.false_eq_true, if_false, some.injEq, replayPayload, hred, hdec]
    unfold cutAtBoundary at hmerge
    split
    next hcut =>
      rw [if_pos hcut] at hmerge
      obtain ⟨st', hup⟩ := uploadReplayBlock_ok env st none r.hashed (isEmpty_of_schemaBoundary hcut)
      simp only [hup, hmerge]
      exact closeIfFull_continues env st' rest hafter
    next hcut =>
      rw [if_neg hcut] at hmerge
      simp only [hmerge]
      exact closeIfFull_continues env st rest hafter

theorem uploadRest_continues (env : Env) (st : Store sig) (hrel : r.releasing = false) (hframes : r.frames = []) :
    ∃ r' st', r.uploadRest env st true = some (.continued r' st') ∧ r'.releasing = true := by
  unfold uploadRest
  rw [hrel, hframes]
  cases hempty : sig.isEmpty r.builder with
  | true => exact ⟨_, _, rfl, rfl⟩
  | false =>
    obtain ⟨st', hup⟩ := uploadReplayBlock_ok env st r.replayHigh r.hashed hempty
    simp [hup]

theorem exists_loop (env : Env) (frames : List (Except ReplayError Bytes)) {all : List (Cut sig)}
    (hp : s.process = .opening r) (hframes : r.frames = frames) (hrel : r.releasing = false)
    (htodo : r.todo = some all) : ∃ loop s₁ r₁, (∀ a ∈ loop, a.isLoop = true) ∧ run (Shard.step env) s loop = some s₁
    ∧ s₁.process = .opening r₁ ∧ r₁.releasing = true ∧ r₁.wal = r.wal ∧ r₁.replayHigh = r.replayHigh := by
  induction frames generalizing s r all with
  | nil =>
    obtain ⟨r', st', hrest, hrel'⟩ := uploadRest_continues env s.store hrel hframes
    have hwal := (uploadRest_advances hrest).1
    have hhigh : r'.replayHigh = r.replayHigh := by
      obtain ⟨-, -, ⟨-, hout⟩ | ⟨-, -, hout⟩ | ⟨_, -, hout⟩⟩ := uploadRest_some hrest <;> cases hout <;> rfl
    refine ⟨[.uploadRest true], s.ofReplayed r (.continued r' st'), r', by simp [Action.isLoop], ?_, rfl,
      hrel', hwal, hhigh⟩
    simp [run_cons, Shard.step, hp, Shard.stepOpening, hrest]
  | cons f rest ih =>
    obtain ⟨r', st', hturn⟩ := replayFrame_continues env s.store hrel hframes htodo
    obtain ⟨hwal, now, -, htodo'⟩ := replayFrame_advances hturn
    rw [htodo, eq_comm, map_eq_some_iff] at htodo'
    obtain ⟨later, hlater, -⟩ := htodo'
    obtain ⟨-, ⟨e, rest', -, hout⟩ | ⟨w, rest', hr, hout⟩⟩ := replayFrame_some hturn
    · cases hout
    rw [hframes, cons.injEq] at hr
    obtain ⟨-, rfl⟩ := hr
    obtain ⟨hframes', hhigh, hrel'⟩ := replayPayload_continued hout.symm
    have hstep : Shard.step env s (.replayFrame true true) = some (s.ofReplayed r (.continued r' st')) := by
      simp [Shard.step, hp, Shard.stepOpening, hturn]
    obtain ⟨loop, s₁, r₁, hloop, hrun, hp₁, hrel₁, hwal₁, hhigh₁⟩ :=
      ih (s := s.ofReplayed r (.continued r' st')) rfl hframes' (hrel'.trans hrel) hlater
    refine ⟨.replayFrame true true :: loop, s₁, r₁, ?_, ?_, hp₁, hrel₁, hwal₁.trans hwal, hhigh₁.trans hhigh⟩
    · intro a ha
      rcases mem_cons.mp ha with rfl | ha
      · rfl
      · exact hloop a ha
    · rw [run_cons, hstep]
      exact hrun

def Recovery.unlinked (r : Recovery sig) (seqs : List Nat) : Recovery sig :=
  { r with wal := { r.wal with dir := seqs.foldl Dir.unlink r.wal.dir } }

theorem run_unlinks {high : Nat} (env : Env) (seqs : List Nat) (hp : s.process = .opening r)
    (hrel : r.releasing = true) (hhigh : r.replayHigh = some high) (hlt : high < r.wal.currentSeq)
    (hseqs : ∀ seq ∈ seqs, seq ≤ high) : run (Shard.step env) s (seqs.map .unlinkReplayed) = some
    { s with process := .opening (r.unlinked seqs) } := by
  induction seqs generalizing s r with
  | nil =>
    cases s
    cases hp
    rfl
  | cons seq seqs ih =>
    have hstep : Shard.step env s (.unlinkReplayed seq) =
        some { s with process := .opening (r.unlinked [seq]) } := by
      have hseq := hseqs seq mem_cons_self
      simp [Shard.step, hp, Shard.stepOpening, unlinkReplayed, hhigh, prepareRelease, hrel,
        hseq, Nat.not_le.mpr hlt, unlinked]
    rw [map_cons, run_cons, hstep, bind_some]
    exact ih (s := { s with process := .opening (r.unlinked [seq]) }) (r := r.unlinked [seq]) rfl hrel hhigh
      hlt fun k hk => hseqs k (mem_cons_of_mem _ hk)

theorem not_mem_of_unlinked (seqs : List Nat) (d : Dir) (seg : Segment)
    (h : seg ∈ (seqs.foldl Dir.unlink d).rows) : seg.seq ∉ seqs := by
  have hlook : ∀ (seqs : List Nat) (d : Dir) (k : Nat), k ∈ seqs ∨ d.lookup k = none →
      (seqs.foldl Dir.unlink d).lookup k = none := by
    intro seqs
    induction seqs with
    | nil =>
      rintro d k (hk | hk)
      · cases hk
      · exact hk
    | cons seq seqs ih =>
      intro d k hk
      apply ih
      rw [Dir.lookup_unlink, mem_cons] at *
      by_cases hseq : k = seq
      · exact .inr (if_pos hseq)
      · rw [if_neg hseq]
        exact hk.imp_left fun h => h.resolve_left hseq
  intro hmem
  have hnone := hlook seqs d seg.seq (.inl hmem)
  rw [Table.lookup_of_mem h] at hnone
  cases hnone

theorem exists_release (env : Env) (hp : s.process = .opening r) (hrel : r.releasing = true)
    (hhigh : ∀ high, r.replayHigh = some high → high < r.wal.currentSeq) : ∃ release s',
    (∀ a ∈ release, a.isRelease = true) ∧ run (Shard.step env) s (release ++ [.finishOpen]) = some s' := by
  have hfinish : ∀ seqs : List Nat, (r.unlinked seqs).finish env s.store ≠ none →
      ∃ s', Shard.step env { s with process := .opening (r.unlinked seqs) } .finishOpen = some s' := by
    intro seqs hfin
    obtain ⟨⟨l, st⟩, hl⟩ := ne_none_iff_exists'.mp hfin
    refine ⟨{ s with process := .live l, store := st }, ?_⟩
    simp only [Shard.step, Shard.stepOpening, hl, map_some]
  cases hnone : r.replayHigh with
  | none =>
    obtain ⟨s', hs'⟩ := hfinish [] (by simp [finish, unlinked, hnone, hrel])
    refine ⟨[], s', forall_mem_nil _, ?_⟩
    cases s
    cases hp
    rw [nil_append, run_cons]
    exact congrArg (bind · some) hs'
  | some high =>
    have hseqs : ∀ seq ∈ range (high + 1), seq ≤ high := by
      intro seq hseq
      rw [mem_range] at hseq
      omega
    have hgone : ∀ seg ∈ (r.unlinked (range (high + 1))).wal.dir.rows, high < seg.seq := by
      intro seg hseg
      have hnot := not_mem_of_unlinked _ _ seg hseg
      rw [mem_range] at hnot
      omega
    have hfin : (r.unlinked (range (high + 1))).finish env s.store ≠ none := by
      have hguard : (r.unlinked (range (high + 1))).releasing = true ∧
          ∀ seg ∈ (r.unlinked (range (high + 1))).wal.dir.rows, high < seg.seq := ⟨hrel, hgone⟩
      have hhigh' : (r.unlinked (range (high + 1))).replayHigh = some high := hnone
      simp only [finish, hhigh']
      rw [if_pos hguard]
      exact some_ne_none _
    obtain ⟨s', hs'⟩ := hfinish _ hfin
    refine ⟨(range (high + 1)).map .unlinkReplayed, s', ?_, ?_⟩
    · intro a ha
      obtain ⟨seq, -, rfl⟩ := mem_map.mp ha
      rfl
    · rw [run_append, run_unlinks env _ hp hrel hnone (hhigh high hnone) hseqs, bind_some, run_cons, hs']
      rfl

end AtOnce

/-! ## Idempotence -/

theorem CompletesAtOnce.published {env : Env} {dir : Dir} {s s₁ : Shard sig} {loop release : List Action}
    (hdown : s.process = .down dir) (h : CompletesAtOnce env s loop release s₁) :
    ∃ all, recoveryCuts sig (replay env.crc32 (openWal dir env.maxSegmentBytes)) = some all ∧
      s₁.store.blocks = s.store.blocks ++ all.map (Cut.block env) := by
  obtain ⟨hloop, hc⟩ := h
  have hrun := hc.completed
  rw [cons_append] at hrun
  obtain ⟨s₂, hopen, hrun⟩ := run_cons_some hrun
  rw [run_append, bind_eq_some_iff] at hrun
  obtain ⟨s₃, hattempt, hrel⟩ := hrun
  have hs₂ : s₂ = { s with process := .opening (start env sig dir) } := by
    simpa [Shard.step, hdown] using hopen.symm
  have hstart : Progress env (replay env.crc32 (openWal dir env.maxSegmentBytes)) s.store.blocks s₂ := by
    rw [hs₂]
    exact progress_open env _ rfl rfl
  have hallowed : ∀ a ∈ loop, a.isRecovery = true ∨ a = .finishOpen ∨ ∃ torn, a = .crash torn := by
    intro a ha
    have hturn := hloop a ha
    cases a <;> first | exact .inl rfl | cases hturn
  have hend := run_invariant_of_meets (fun s a s' h ha hs => by exact h.step ha hs) hstart (meets_of_forall hallowed) hattempt
  exact hend.completed hc.releasing hrel

theorem Completes.published {env : Env} {dir : Dir} {s s' : Shard sig} {attempts release : List Action}
    (hdown : s.process = .down dir) (h : Completes env s attempts release s') : ∃ all before, recoveryCuts sig
    (replay env.crc32 (openWal dir env.maxSegmentBytes)) = some all ∧ (∀ b ∈ before, b ∈ all.map (Cut.block env)) ∧
    s'.store.blocks = s.store.blocks ++ before ++ all.map (Cut.block env) := by
  have hrun := h.completed
  rw [run_append, bind_eq_some_iff] at hrun
  obtain ⟨s₁, hattempts, hrel⟩ := hrun
  have hstart : Attempting env (replay env.crc32 (openWal dir env.maxSegmentBytes)) s.store.blocks s := by
    refine ⟨by rw [hdown]; rfl, ⟨[], ⟨[], by simp, ?_⟩, fun all _ => nofun⟩, ?_⟩
    · rw [hdown]
      exact fun all _ => nil_prefix
    · rw [hdown]
      nofun
  have hend := run_invariant_of_meets (fun s a s' h ha hs => by exact h.step ha hs) hstart (meets_of_forall h.opening) hattempts
  obtain ⟨before, hprog, hbefore⟩ := hend.published
  obtain ⟨all, hall, hblocks⟩ := hprog.completed h.releasing hrel
  exact ⟨all, before, hall, hbefore all hall, hblocks⟩

theorem exists_completesAtOnce {env : Env} {dir : Dir} {s : Shard sig} {all : List (Cut sig)}
    (hdown : s.process = .down dir) (hall : recoveryCuts sig (replay env.crc32 (openWal dir env.maxSegmentBytes)) =
    some all) : ∃ loop release s₁, CompletesAtOnce env s loop release s₁ := by
  have hopen : Shard.step env s .open =
      some { s with process := .opening (start env sig dir) } := by
    simp [Shard.step, hdown]
  obtain ⟨loop, s₁, r₁, hloop, hrun, hp₁, hrel, hwal, hhigh⟩ := exists_loop env
    (s := { s with process := .opening (start env sig dir) }) _ rfl rfl rfl hall
  have hcur : ∀ high, r₁.replayHigh = some high → high < r₁.wal.currentSeq := by
    intro high heq
    rw [hhigh] at heq
    rw [hwal]
    unfold start at heq ⊢
    dsimp only at heq ⊢
    split at heq
    · cases heq
    · cases heq
      omega
  obtain ⟨release, s', hrelease, hend⟩ := exists_release env hp₁ hrel hcur
  refine ⟨loop, release, s', hloop, ?_, hrelease, ?_⟩
  · intro a ha
    rcases mem_cons.mp ha with rfl | ha
    · rfl
    · have hturn := hloop a ha
      cases a <;> first | exact hturn | cases hturn
  · rw [cons_append, run_cons, hopen, bind_some, run_append, hrun]
    exact hend

/-- **Recovery is idempotent.** Interrupted attempts and one that completes publish the blocks of one
uninterrupted attempt, with different UUIDs and the rows of the frames. -/
theorem recovery_idempotent (sig : Signal) (env : Env) (h : Sha256) (henv : env.Hashes sig h)
    (hfree : h.CollisionFree) (dir : Dir) (s s' : Shard sig) (hdown : s.process = .down dir)
    (attempts release : List Action) (hrun : Completes env s attempts release s') :
    (∃ loop release₁ s₁, CompletesAtOnce env s loop release₁ s₁) ∧ ∀ loop release₁ s₁, CompletesAtOnce env s loop
    release₁ s₁ → (∀ b, b ∈ publishedBlocks s s' ↔ b ∈ publishedBlocks s s₁) ∧
    ((publishedBlocks s s₁).map StoredBlock.uuid).Nodup ∧ (publishedBlocks s s₁).flatMap StoredBlock.records =
    (replay env.crc32 (openWal dir env.maxSegmentBytes)).flatMap (replayedRecords sig) := by
  obtain ⟨all, before, hall, hbefore, hblocks⟩ := hrun.published hdown
  refine ⟨exists_completesAtOnce hdown hall, ?_⟩
  intro loop release₁ s₁ honce
  obtain ⟨all₁, hall₁, hblocks₁⟩ := honce.published hdown
  rw [hall, some.injEq] at hall₁
  subst hall₁
  have hpublished : publishedBlocks s s' = before ++ all.map (Cut.block env) := by
    rw [publishedBlocks, hblocks, append_assoc, drop_left]
  have hpublished₁ : publishedBlocks s s₁ = all.map (Cut.block env) := by
    rw [publishedBlocks, hblocks₁, drop_left]
  rw [hpublished, hpublished₁]
  refine ⟨?_, cuts_nodup henv hfree hall, ?_⟩
  · intro b
    rw [mem_append]
    exact ⟨fun hb => hb.elim (hbefore b) id, .inr⟩
  · rw [flatMap_map]
    have hrecords := cuts_records hall
    rw [sig.new_records, nil_append] at hrecords
    exact hrecords

/-! ## A crash after the first upload -/

def sampleHash : Sha256 := ⟨id, fun b => ofBe (1 :: b)⟩

def hashedEnv : Env :=
  { sampleEnv with
    recoveryBlockUuid := fun payloads => recoveryBlockUuid sampleHash 7 .dummy 0 (hashInput payloads) }

theorem hashedEnv_hashes : hashedEnv.Hashes sampleSignal sampleHash := fun _ => rfl

theorem sampleHash_collisionFree : sampleHash.CollisionFree := ⟨Function.injective_id, ofBe_one_cons_inj⟩

def twoFrames : Dir :=
  oneSegment (frame crc32Ieee (sampleBatch 2) ++ frame crc32Ieee (sampleBatch 1))

def crashedAttempts : List Action :=
  [.open, .replayFrame true true, .crash 0, .open, .replayFrame true true, .replayFrame true true, .uploadRest true]

theorem recovery_idempotent_after_crash : ∃ s', Completes hashedEnv
    (⟨.down twoFrames, ⟨[], .empty⟩, [], 0⟩ : Shard sampleSignal) crashedAttempts
    [.unlinkReplayed 0, .unlinkReplayed 1] s' ∧ ∃ loop release₁ s₁, CompletesAtOnce hashedEnv
    (⟨.down twoFrames, ⟨[], .empty⟩, [], 0⟩ : Shard sampleSignal) loop release₁ s₁ := by
  have hsome : (run (Shard.step hashedEnv) (⟨.down twoFrames, ⟨[], .empty⟩, [], 0⟩ : Shard sampleSignal)
      (crashedAttempts ++ ([.unlinkReplayed 0, .unlinkReplayed 1] ++ [.finishOpen]))).isSome = true := by
    decide +kernel
  obtain ⟨s', hs'⟩ := isSome_iff_exists.mp hsome
  have hcompletes : Completes hashedEnv (⟨.down twoFrames, ⟨[], .empty⟩, [], 0⟩ : Shard sampleSignal)
      crashedAttempts [.unlinkReplayed 0, .unlinkReplayed 1] s' := by
    refine ⟨by decide, by decide, hs'⟩
  refine ⟨s', hcompletes, ?_⟩
  exact (recovery_idempotent sampleSignal hashedEnv sampleHash hashedEnv_hashes sampleHash_collisionFree
    twoFrames _ s' rfl crashedAttempts _ hcompletes).1

end Scry.Pipeline
