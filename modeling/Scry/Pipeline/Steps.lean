import Scry.Pipeline.Shard

/-! # What each step can do

One lemma for each function that takes a step; the invariants of a shard are proved from these.
-/

open Scry.Lib Scry.Block Scry.Wal

namespace Scry.Pipeline

open Shard

variable {sig : Signal} {env : Env}

/-! ## Rotation -/

def spawned (l : State sig) : State sig :=
  { wal := rotated l.wal
    current := newFilling sig
    blockLowSeg := l.wal.currentSeq + 1
    inFlight := l.inFlight ++ [⟨l.current, l.blockLowSeg, l.wal.currentSeq, none⟩] }

theorem mem_spawned {l : State sig} {t : UploadTask sig} (h : t ∈ (spawned l).inFlight) :
    t ∈ l.inFlight ∨ t = ⟨l.current, l.blockLowSeg, l.wal.currentSeq, none⟩ := by
  simpa [spawned] using h

theorem isEmpty_new : sig.isEmpty sig.new = true := (sig.isEmpty_iff _).mpr sig.new_records

theorem spawnUpload_ok {l l' : State sig} (h : l.spawnUpload = .ok l') :
    sig.isEmpty l'.current.builder = true ∧
      (l' = l ∨ (l.wal.dir.lookup (l.wal.currentSeq + 1) = none ∧ l' = spawned l)) := by
  unfold State.spawnUpload at h
  split at h
  · rename_i hempty
    cases h
    exact ⟨hempty, .inl rfl⟩
  · split at h
    · cases h
    · rename_i hr
      obtain ⟨hnone, rfl, rfl⟩ := rotate_ok hr
      cases h
      exact ⟨isEmpty_new, .inr ⟨hnone, rfl⟩⟩

variable {b scratch : sig.Builder}

theorem schemaBoundary_of_isEmpty (h : sig.isEmpty b = true) :
    sig.schemaBoundary b scratch = false := by
  simp [Signal.schemaBoundary, h]

theorem isEmpty_of_schemaBoundary (h : sig.schemaBoundary b scratch = true) :
    sig.isEmpty b = false := by
  simp only [Signal.schemaBoundary, Bool.and_eq_true, Bool.not_eq_true'] at h
  exact h.1.1

/-! ## Ingest -/

section Ingest
variable {s s' : Shard sig} {l l' : Live sig} {payload : Bytes}

theorem ingest_some (hs : s.stepLive env l (.ingest payload) = some s') :
    l.ingest = .idle ∧ ∃ scratch, sig.decode payload = some scratch ∧
      s' = s.setLive ⟨l.pipe, .received payload scratch⟩ := by
  simp only [stepLive] at hs
  split at hs
  · rename_i scratch hidle hdec
    cases hs
    exact ⟨hidle, scratch, hdec, rfl⟩
  · cases hs

theorem sealOnSchemaChange_some (hs : l.sealOnSchemaChange = some l') :
    ∃ payload scratch, l.ingest = .received payload scratch ∧
      (l' = ⟨l.pipe, .idle⟩ ∨ ∃ pipe, (l.pipe.spawnUpload = .ok pipe ∨ pipe = l.pipe) ∧
        sig.schemaBoundary pipe.current.builder scratch = false ∧ l' = ⟨pipe, .sealed payload scratch⟩) := by
  unfold Live.sealOnSchemaChange at hs
  split at hs
  · rename_i payload scratch hrecv
    refine ⟨payload, scratch, hrecv, ?_⟩
    split at hs
    · split at hs
      · rename_i pipe hspawn
        cases hs
        exact .inr ⟨pipe, .inl hspawn, schemaBoundary_of_isEmpty (spawnUpload_ok hspawn).1, rfl⟩
      · cases hs
        exact .inl rfl
    · rename_i hcut
      cases hs
      exact .inr ⟨l.pipe, .inr rfl, by simpa using hcut, rfl⟩
  · cases hs

theorem writeFrame_some (hs : l.writeFrame env = some l') :
    ∃ payload scratch, l.ingest = .sealed payload scratch ∧
      (l' = ⟨l.pipe, .idle⟩ ∨ payload.length ≤ maxReplayFrameBytes ∧
        l' = ⟨{ l.pipe with wal := l.pipe.wal.writeFrame env.crc32 payload },
          .written payload scratch l.pipe.wal.currentSeq⟩) := by
  unfold Live.writeFrame at hs
  split at hs
  · rename_i payload scratch hsealed
    refine ⟨payload, scratch, hsealed, ?_⟩
    split at hs
    · cases hs
      exact .inl rfl
    · rename_i hlen
      cases hs
      exact .inr ⟨Nat.not_lt.mp hlen, rfl⟩
  · cases hs

theorem rotateIfFull_some (hs : l.rotateIfFull = some l') :
    ∃ payload scratch seg, l.ingest = .written payload scratch seg ∧
      (l' = ⟨l.pipe, .idle⟩ ∨ ∃ wal, l.pipe.wal.rotateIfFull = .ok wal ∧
        l' = ⟨{ l.pipe with wal := wal }, .appended payload scratch seg⟩) := by
  unfold Live.rotateIfFull at hs
  split at hs
  · rename_i payload scratch seg hwritten
    refine ⟨payload, scratch, seg, hwritten, ?_⟩
    split at hs
    · rename_i wal hrot
      cases hs
      exact .inr ⟨wal, hrot, rfl⟩
    · cases hs
      exact .inl rfl
  · cases hs

/-- The two steps of an append together do to the WAL what `Wal::append` does. -/
theorem append_of_steps {scratch : sig.Builder} {wal : Wal}
    (hsealed : l.ingest = .sealed payload scratch) (happ : l.pipe.wal.append env.crc32 payload = .ok wal) :
    (l.writeFrame env).bind Live.rotateIfFull =
      some ⟨{ l.pipe with wal := wal }, .appended payload scratch l.pipe.wal.currentSeq⟩ := by
  unfold Wal.append at happ
  split at happ
  · cases happ
  · rename_i hlen
    simp only [Live.writeFrame, hsealed, if_neg hlen, Option.bind_some, Live.rotateIfFull, happ]

theorem mergeScratch_some (hs : s.mergeScratch l = some s') :
    ∃ payload scratch seg, l.ingest = .appended payload scratch seg ∧
      (sig.merge l.pipe.current.builder scratch = none ∧ s' = s.setLive ⟨l.pipe, .idle⟩ ∨
        ∃ m, sig.merge l.pipe.current.builder scratch = some m ∧
          s' = { s with
            process := .live ⟨{ l.pipe with current := ⟨m, l.pipe.current.batches ++ [s.merged]⟩ },
              .merged payload seg⟩
            merged := s.merged + 1 }) := by
  unfold mergeScratch at hs
  split at hs
  · rename_i payload scratch seg happended
    refine ⟨payload, scratch, seg, happended, ?_⟩
    split at hs
    · rename_i hnone
      cases hs
      exact .inl ⟨hnone, rfl⟩
    · rename_i m hm
      cases hs
      exact .inr ⟨m, hm, rfl⟩
  · cases hs

theorem finishIngest_some (hs : s.finishIngest l = some s') :
    ∃ payload seg, l.ingest = .merged payload seg ∧
      (s' = s.setLive ⟨l.pipe, .idle⟩ ∨ ∃ pipe, (l.pipe.spawnUpload = .ok pipe ∨ pipe = l.pipe) ∧
        s' = { s with
          process := .live ⟨pipe, .idle⟩, acked := s.acked ++ [⟨s.merged - 1, payload, seg⟩] }) := by
  unfold finishIngest at hs
  split at hs
  · rename_i payload seg hmerge
    refine ⟨payload, seg, hmerge, ?_⟩
    simp only at hs
    split at hs
    · split at hs
      · rename_i pipe hspawn
        cases hs
        exact .inr ⟨pipe, .inl hspawn, rfl⟩
      · cases hs
        exact .inl rfl
    · cases hs
      exact .inr ⟨l.pipe, .inr rfl, rfl⟩
  · cases hs

theorem flush_some (hs : s.flush l = some s') :
    l.ingest = .idle ∧ ∃ pipe, l.pipe.spawnUpload = .ok pipe ∧ s' = s.setLive ⟨pipe, .idle⟩ := by
  unfold flush at hs
  split at hs
  · rename_i pipe hidle hspawn
    cases hs
    exact ⟨hidle, pipe, hspawn, rfl⟩
  · cases hs

end Ingest

/-! ## Upload tasks -/

section Tasks
variable {s s' : Shard sig} {l : Live sig} {i : Nat}

theorem uploadOk_some {uuid : Uuid} (hs : s.uploadOk l i uuid = some s') :
    ∃ t, l.pipe.inFlight[i]? = some t ∧ t.uploaded = none ∧ ¬ s.store.catalog.hasBlock uuid ∧
      (∀ b ∈ s.store.blocks, b.uuid ≠ uuid) ∧
      s' = { s.setTasks l (l.pipe.inFlight.set i { t with uploaded := some uuid }) with
        store := { s.store with
          blocks := s.store.blocks ++ [⟨uuid, sig.records t.block.builder, t.block.batches⟩] } } := by
  unfold uploadOk at hs
  split at hs
  · rename_i t ht
    split at hs
    · rename_i hguard
      cases hs
      exact ⟨t, ht, hguard.1, hguard.2.1, hguard.2.2, rfl⟩
    · cases hs
  · cases hs

theorem uploadFailed_some (hs : s.uploadFailed l i = some s') :
    ∃ t, l.pipe.inFlight[i]? = some t ∧ t.uploaded = none ∧
      s' = s.setTasks l (l.pipe.inFlight.eraseIdx i) := by
  unfold uploadFailed at hs
  split at hs
  · rename_i t ht
    split at hs
    · rename_i hup
      cases hs
      exact ⟨t, ht, hup, rfl⟩
    · cases hs
  · cases hs

theorem unlink_some {seq : Nat} (hs : s.unlink l i seq = some s') :
    ∃ t, l.pipe.inFlight[i]? = some t ∧ t.uploaded ≠ none ∧ t.lowSeg ≤ seq ∧ seq ≤ t.sealedSeg ∧
      s' = s.setLive
        ⟨{ l.pipe with wal := { l.pipe.wal with dir := l.pipe.wal.dir.unlink seq } }, l.ingest⟩ := by
  unfold unlink at hs
  split at hs
  · rename_i t ht
    split at hs
    · split at hs
      · rename_i hguard
        cases hs
        exact ⟨t, ht, hguard.1, hguard.2.1, hguard.2.2, rfl⟩
      · cases hs
    · cases hs
  · cases hs

theorem endUpload_some {inserted : Bool} (hs : s.endUpload env l i inserted = some s') :
    ∃ t uuid, l.pipe.inFlight[i]? = some t ∧ t.uploaded = some uuid ∧
      s' = { s with
        process := .live ⟨{ l.pipe with inFlight := l.pipe.inFlight.eraseIdx i }, l.ingest⟩
        store := { s.store with
          catalog := if inserted then
              s.store.catalog.insertBlock (stampMeta env sig t.block.builder uuid (some t.sealedSeg))
            else s.store.catalog } } := by
  unfold endUpload at hs
  split at hs
  · rename_i t ht
    split at hs
    · rename_i uuid hup
      cases hs
      exact ⟨t, uuid, ht, hup, rfl⟩
    · cases hs
  · cases hs

end Tasks

/-! ## Recovery -/

section Recovery
variable {r : Recovery sig} {st : Store sig}

variable {b : sig.Builder} {hashed : List Bytes} {high : Option Nat} {ok : Bool} {st' : Store sig}

theorem uploadReplayBlock_some (h : uploadReplayBlock env st b high hashed ok = some st') :
    st'.blocks = st.blocks ++ [⟨env.recoveryBlockUuid hashed, sig.records b, []⟩] := by
  unfold uploadReplayBlock at h
  split at h
  · cases h
    rfl
  · cases h

theorem uploadReplayBlock_none
    (hb : sig.isEmpty b = false) (h : uploadReplayBlock env st b high hashed ok = none) : ok = false := by
  simpa [uploadReplayBlock, hb] using h

theorem closeIfFull_cases (env : Env) (r : Recovery sig) (rest : List (Except ReplayError Bytes)) (q : Bytes)
    (m : sig.Builder) (st : Store sig) (closeOk : Bool) :
    (sig.shouldClose m = true ∧ uploadReplayBlock env st m none (r.hashed ++ [q]) closeOk = none ∧
      r.closeIfFull env rest q m st closeOk = .failed st) ∨
    (∃ st', uploadReplayBlock env st m none (r.hashed ++ [q]) closeOk = some st' ∧
      r.closeIfFull env rest q m st closeOk =
        .continued { r with frames := rest, builder := sig.new, hashed := r.hashed ++ [q] } st') ∨
    r.closeIfFull env rest q m st closeOk =
      .continued { r with frames := rest, builder := m, hashed := r.hashed ++ [q] } st := by
  unfold Recovery.closeIfFull
  simp only
  split
  · rename_i hclose
    split
    · rename_i hnone
      exact .inl ⟨hclose, hnone, rfl⟩
    · rename_i st' hsome
      exact .inr (.inl ⟨st', hsome, rfl⟩)
  · exact .inr (.inr rfl)

variable {out : Replayed sig}

theorem replayFrame_some {boundaryOk closeOk : Bool}
    (hs : r.replayFrame env st boundaryOk closeOk = some out) :
    r.releasing = false ∧ ((∃ e rest, r.frames = .error e :: rest ∧ out = .failed st) ∨
      ∃ w rest, r.frames = .ok w :: rest ∧ out = r.replayPayload env rest w st boundaryOk closeOk) := by
  unfold Recovery.replayFrame at hs
  split at hs
  · cases hs
  rename_i hrel
  refine ⟨by simpa using hrel, ?_⟩
  split at hs
  · cases hs
  · rename_i e rest hframes
    cases hs
    exact .inl ⟨e, rest, hframes, rfl⟩
  · rename_i w rest hframes
    cases hs
    exact .inr ⟨w, rest, hframes, rfl⟩

theorem uploadRest_some (hs : r.uploadRest env st ok = some out) :
    r.releasing = false ∧ r.frames = [] ∧
      ((sig.isEmpty r.builder = true ∧ out = .continued { r with releasing := true } st) ∨
      (sig.isEmpty r.builder = false ∧ uploadReplayBlock env st r.builder r.replayHigh r.hashed ok = none ∧
        out = .failed st) ∨
      ∃ st', uploadReplayBlock env st r.builder r.replayHigh r.hashed ok = some st' ∧
        out = .continued { r with builder := sig.new, releasing := true } st') := by
  unfold Recovery.uploadRest at hs
  split at hs
  · cases hs
  rename_i hrel
  split at hs
  · cases hs
  rename_i hframes
  refine ⟨by simpa using hrel, hframes, ?_⟩
  split at hs
  · rename_i hempty
    cases hs
    exact .inl ⟨hempty, rfl⟩
  · rename_i hempty
    split at hs
    · rename_i hnone
      cases hs
      exact .inr (.inl ⟨by simpa using hempty, hnone, rfl⟩)
    · rename_i st' hsome
      cases hs
      exact .inr (.inr ⟨st', hsome, rfl⟩)

theorem unlinkReplayed_some {seq : Nat} {r' : Recovery sig} (hs : r.unlinkReplayed seq = some r') :
    ∃ high, r.replayHigh = some high ∧ r.releasing = true ∧ seq ≤ high ∧
      r' = { r with wal := { r.wal with dir := r.wal.dir.unlink seq } } := by
  unfold Recovery.unlinkReplayed at hs
  split at hs
  · rename_i high hhigh
    split at hs
    · split at hs
      · rename_i hguard
        cases hs
        exact ⟨high, hhigh, hguard.1, hguard.2, rfl⟩
      · cases hs
    · cases hs
  · cases hs

theorem finish_some {l : Live sig} (hs : r.finish env st = some (l, st')) :
    r.releasing = true ∧ (∀ high, r.replayHigh = some high → ∀ s ∈ r.wal.dir.rows, high < s.seq) ∧
      l = ⟨⟨r.wal, ⟨r.builder, []⟩, r.wal.currentSeq, []⟩, .idle⟩ ∧ st'.blocks = st.blocks := by
  unfold Recovery.finish at hs
  simp only at hs
  split at hs
  · rename_i hnone
    split at hs
    · rename_i hrel
      cases hs
      exact ⟨hrel, by simp [hnone], rfl, rfl⟩
    · cases hs
  · rename_i high hsome
    split at hs
    · rename_i hguard
      cases hs
      refine ⟨hguard.1, ?_, rfl, rfl⟩
      intro _ hhigh'
      rw [hsome] at hhigh'
      cases hhigh'
      exact hguard.2
    · cases hs

end Recovery

/-! ## The shard -/

section Shard
variable {s s' : Shard sig}

theorem stepLive_some {l : Live sig} {a : Action} (hs : s.stepLive env l a = some s') :
    (∃ l', s'.process = .live l') ∧ ((s'.store = s.store ∧ s'.acked = s.acked) ∨ a = .finishIngest ∨
      (∃ i uuid, a = .uploadOk i uuid) ∨ ∃ i, a = .insertBlock i) := by
  cases a with
  | ingest payload =>
    obtain ⟨-, scratch, -, rfl⟩ := ingest_some hs
    exact ⟨⟨_, rfl⟩, .inl ⟨rfl, rfl⟩⟩
  | sealOnSchemaChange | writeFrame | rotateIfFull =>
    obtain ⟨l', -, rfl⟩ := Option.map_eq_some_iff.mp hs
    exact ⟨⟨l', rfl⟩, .inl ⟨rfl, rfl⟩⟩
  | merge =>
    obtain ⟨payload, scratch, seg, -, ⟨-, rfl⟩ | ⟨m, -, rfl⟩⟩ := mergeScratch_some hs <;>
      exact ⟨⟨_, rfl⟩, .inl ⟨rfl, rfl⟩⟩
  | finishIngest =>
    obtain ⟨payload, seg, -, rfl | ⟨pipe, -, rfl⟩⟩ := finishIngest_some hs <;> exact ⟨⟨_, rfl⟩, by simp⟩
  | flush =>
    obtain ⟨-, pipe, -, rfl⟩ := flush_some hs
    exact ⟨⟨_, rfl⟩, .inl ⟨rfl, rfl⟩⟩
  | uploadOk i uuid =>
    obtain ⟨t, -, -, -, -, rfl⟩ := uploadOk_some hs
    exact ⟨⟨_, rfl⟩, by simp⟩
  | uploadFailed i =>
    obtain ⟨t, -, -, rfl⟩ := uploadFailed_some hs
    exact ⟨⟨_, rfl⟩, .inl ⟨rfl, rfl⟩⟩
  | unlink i seq =>
    obtain ⟨t, -, -, -, -, rfl⟩ := unlink_some hs
    exact ⟨⟨_, rfl⟩, .inl ⟨rfl, rfl⟩⟩
  | insertBlock i =>
    obtain ⟨t, uuid, -, -, rfl⟩ := endUpload_some hs
    exact ⟨⟨_, rfl⟩, by simp⟩
  | insertFailed i =>
    obtain ⟨t, uuid, -, -, rfl⟩ := endUpload_some hs
    exact ⟨⟨_, rfl⟩, .inl ⟨rfl, rfl⟩⟩
  | _ => cases hs

theorem crashDir_some {torn : Nat} {dir : Dir} (hs : crashDir env torn s.process = some dir) :
    (∃ r, s.process = .opening r ∧ dir = r.wal.dir) ∨
    (∃ l, s.process = .live l ∧ dir = l.pipe.wal.dir) ∨
    ∃ l payload scratch, s.process = .live l ∧ l.ingest = .sealed payload scratch ∧
      payload.length ≤ maxReplayFrameBytes ∧
      dir = l.pipe.wal.dir.write l.pipe.wal.currentSeq ((frame env.crc32 payload).take torn) := by
  cases hp : s.process with
  | down d =>
    rw [hp] at hs
    cases hs
  | opening r =>
    rw [hp] at hs
    cases hs
    exact .inl ⟨r, rfl, rfl⟩
  | live l =>
    rw [hp] at hs
    simp only [crashDir] at hs
    split at hs
    · rename_i payload scratch hsealed
      split at hs
      · cases hs
        exact .inr (.inl ⟨l, rfl, rfl⟩)
      · rename_i hlen
        cases hs
        exact .inr (.inr ⟨l, payload, scratch, rfl, hsealed, Nat.not_lt.mp hlen, rfl⟩)
    · cases hs
      exact .inr (.inl ⟨l, rfl, rfl⟩)

theorem step_some {a : Action} (hs : s.step env a = some s') :
    (∃ torn dir, a = .crash torn ∧ crashDir env torn s.process = some dir ∧
      s' = { s with process := .down dir }) ∨
    (∃ dir, s.process = .down dir ∧ a = .open ∧
      s' = { s with process := .opening (Recovery.start env sig dir) }) ∨
    (∃ r, s.process = .opening r ∧ s.stepOpening env r a = some s') ∨
    ∃ l, s.process = .live l ∧ s.stepLive env l a = some s' := by
  unfold step at hs
  split at hs
  · rename_i torn
    obtain ⟨dir, hdir, rfl⟩ := Option.map_eq_some_iff.mp hs
    exact .inl ⟨torn, dir, rfl, hdir, rfl⟩
  · split at hs
    · rename_i dir hp
      split at hs
      · cases hs
        exact .inr (.inl ⟨dir, hp, rfl, rfl⟩)
      · cases hs
    · rename_i r hp
      exact .inr (.inr (.inl ⟨r, hp, hs⟩))
    · rename_i l hp
      exact .inr (.inr (.inr ⟨l, hp, hs⟩))

end Shard

end Scry.Pipeline
