import Scry.Lib.Utf8
import Scry.Pipeline.FailClosed
import Scry.Wal.Replay

/-! # The blocks of a recovery

Which blocks `Pipeline::open` publishes for the frames it replays, and under which UUIDs. An attempt
that is cut short has published the first of them.
-/

open Scry.Lib Scry.Block Scry.Wal

namespace Scry.Pipeline

open List

variable {sig : Signal}

/-! ## UUIDs -/

/-- SHA-256, and its first 16 bytes as a version 4 UUID. -/
structure Sha256 where
  digest : Bytes → Bytes
  uuid : Bytes → Uuid

structure Sha256.CollisionFree (h : Sha256) : Prop where
  digest : Function.Injective h.digest
  uuid : Function.Injective h.uuid

variable (payloads : List Bytes) (env : Env)

def hashInput : Bytes := payloads.flatMap fun p => toBe 8 p.length ++ p

def signalBytes : SignalName → Bytes
  | .dummy => ascii "dummy"
  | .metrics => ascii "metrics"
  | .logs => ascii "logs"
  | .traces => ascii "traces"
  | .profiles => ascii "profiles"

def recoveryBlockUuid (h : Sha256) (writer : Uuid) (signal : SignalName) (shard : Nat)
    (prefixDigest : Bytes) : Uuid :=
  h.uuid (ascii "scry-wal-recovery-v2" ++ [0] ++ toBe 16 writer ++ signalBytes signal ++
    toBe 4 shard ++ prefixDigest)

/-- The UUIDs of `env` are those of the source for the signal `sig`. -/
def Env.Hashes (sig : Signal) (h : Sha256) : Prop :=
  ∀ payloads, env.recoveryBlockUuid payloads =
    Pipeline.recoveryBlockUuid h env.writerUuid sig.name env.shardIndex (h.digest (hashInput payloads))

theorem length_hashInput_snoc (p : Bytes) :
    (hashInput payloads).length < (hashInput (payloads ++ [p])).length := by
  simp only [hashInput, flatMap_append, flatMap_singleton, length_append, toBe_length]
  omega

theorem Env.Hashes.uuid_eq_iff {env : Env} {h : Sha256} (henv : env.Hashes sig h) (hfree : h.CollisionFree)
    (ps qs : List Bytes) : env.recoveryBlockUuid ps = env.recoveryBlockUuid qs ↔ hashInput ps = hashInput qs := by
  rw [henv, henv]
  constructor
  · intro heq
    exact hfree.digest (append_cancel_left (hfree.uuid heq))
  · intro heq
    rw [heq]

/-! ## Cutting the replayed frames into blocks -/

/-- What was hashed up to the boundary, and the rows. -/
structure Cut (sig : Signal) where
  hashed : List Bytes
  records : List sig.Record

def Cut.block (c : Cut sig) : StoredBlock sig :=
  ⟨env.recoveryBlockUuid c.hashed, c.records, []⟩

/-- The block of another schema goes before the merge. -/
def cutAtBoundary (b scratch : sig.Builder) (hashed : List Bytes) : List (Cut sig) × sig.Builder :=
  if sig.schemaBoundary b scratch then ([⟨hashed, sig.records b⟩], sig.new) else ([], b)

/-- A full block goes after it. There is no block without rows. -/
def cutIfFull (b : sig.Builder) (hashed : List Bytes) : Option (List (Cut sig) × sig.Builder) :=
  if sig.shouldClose b then
    if sig.isEmpty b then none else some ([⟨hashed, sig.records b⟩], sig.new)
  else some ([], b)

def cuts : List (Except ReplayError Bytes) → sig.Builder → List Bytes → Option (List (Cut sig))
  | [], b, hashed => some (if sig.isEmpty b then [] else [⟨hashed, sig.records b⟩])
  | .error _ :: _, _, _ => none
  | .ok walPayload :: rest, b, hashed => do
    let payload ← sig.redactReplayed walPayload
    let scratch ← sig.decode payload
    let before := cutAtBoundary b scratch hashed
    let merged ← sig.merge before.2 scratch
    let after ← cutIfFull merged (hashed ++ [payload])
    let later ← cuts rest after.2 (hashed ++ [payload])
    return before.1 ++ after.1 ++ later

def recoveryCuts (sig : Signal) (frames : List (Except ReplayError Bytes)) : Option (List (Cut sig)) :=
  cuts frames sig.new []

def replayedRecords (sig : Signal) : Except ReplayError Bytes → List sig.Record
  | .error _ => []
  | .ok walPayload => (((sig.redactReplayed walPayload).bind sig.decode).map sig.records).getD []

section Cuts
variable {rest : List (Except ReplayError Bytes)} {walPayload : Bytes} {b scratch m b' : sig.Builder}
  {hashed : List Bytes} {all now : List (Cut sig)}

theorem cuts_ok (h : cuts (.ok walPayload :: rest) b hashed = some all) : ∃ payload scratch merged after later,
    sig.redactReplayed walPayload = some payload ∧ sig.decode payload = some scratch ∧ sig.merge
    (cutAtBoundary b scratch hashed).2 scratch = some merged ∧ cutIfFull merged (hashed ++ [payload]) = some after ∧
    cuts rest after.2 (hashed ++ [payload]) = some later ∧ all = (cutAtBoundary b scratch hashed).1 ++ after.1 ++
    later := by
  simp only [cuts, Option.bind_eq_bind, Option.bind_eq_some_iff, Option.pure_def, Option.some.injEq] at h
  obtain ⟨payload, hred, scratch, hdec, merged, hmerge, after, hafter, later, hlater, rfl⟩ := h
  exact ⟨payload, scratch, merged, after, later, hred, hdec, hmerge, hafter, hlater, rfl⟩

theorem cutAtBoundary_records (b scratch : sig.Builder) (hashed : List Bytes) :
    (cutAtBoundary b scratch hashed).1.flatMap Cut.records ++
      sig.records (cutAtBoundary b scratch hashed).2 = sig.records b := by
  unfold cutAtBoundary
  split
  · simp [sig.new_records]
  · simp

variable {after : List (Cut sig) × sig.Builder}

theorem cutIfFull_records (h : cutIfFull m hashed = some after) :
    after.1.flatMap Cut.records ++ sig.records after.2 = sig.records m := by
  unfold cutIfFull at h
  split at h
  · split at h
    · cases h
    · cases h
      simp [sig.new_records]
  · cases h
    simp

variable {frames : List (Except ReplayError Bytes)}

/-- **Every replayed record is in one place.** -/
theorem cuts_records (h : cuts frames b hashed = some all) :
    all.flatMap Cut.records = sig.records b ++ frames.flatMap (replayedRecords sig) := by
  induction frames generalizing b hashed all with
  | nil =>
    cases h
    split
    next hempty => simp [(sig.isEmpty_iff b).mp hempty]
    next => simp
  | cons frame rest ih =>
    cases frame with
    | error e => cases h
    | ok walPayload =>
      obtain ⟨payload, scratch, merged, after, later, hred, hdec, hmerge, hafter, hlater, rfl⟩ :=
        cuts_ok h
      have hframe : replayedRecords sig (.ok walPayload) = sig.records scratch := by
        simp [replayedRecords, hred, hdec]
      rw [flatMap_append, flatMap_append, ih hlater, append_assoc, ← append_assoc (after.1.flatMap _),
        cutIfFull_records hafter, sig.merge_records _ _ _ hmerge, flatMap_cons, hframe, ← append_assoc,
        ← append_assoc, cutAtBoundary_records, append_assoc]

/-- Every block is hashed over more than the one before it. -/
structure Growing (b : sig.Builder) (hashed : List Bytes) (all : List (Cut sig)) : Prop where
  ordered : all.Pairwise fun c c' => (hashInput c.hashed).length < (hashInput c'.hashed).length
  least : ∀ c ∈ all, (hashInput hashed).length ≤ (hashInput c.hashed).length
  above : sig.isEmpty b = true → ∀ c ∈ all, (hashInput hashed).length < (hashInput c.hashed).length

theorem Growing.cons {records : List sig.Record} (hb : sig.isEmpty b = false)
    (hordered : all.Pairwise fun c c' => (hashInput c.hashed).length < (hashInput c'.hashed).length)
    (habove : ∀ c ∈ all, (hashInput hashed).length < (hashInput c.hashed).length) :
    Growing b hashed (⟨hashed, records⟩ :: all) where
  ordered := pairwise_cons.mpr ⟨habove, hordered⟩
  least := by
    intro c hc
    rcases mem_cons.mp hc with rfl | hc
    · exact Nat.le_refl _
    · exact Nat.le_of_lt (habove c hc)
  above := by
    intro hempty
    rw [hb] at hempty
    cases hempty

theorem Growing.cutIfFull (hafter : cutIfFull m hashed = some after)
    (h : Growing after.2 hashed all) : Growing m hashed (after.1 ++ all) := by
  unfold Pipeline.cutIfFull at hafter
  split at hafter
  · split at hafter
    · cases hafter
    next hempty =>
      cases hafter
      exact .cons (by simpa using hempty) h.ordered (h.above isEmpty_new)
  · cases hafter
    exact h

theorem Growing.cutAtBoundary (hordered : all.Pairwise fun c c' => (hashInput c.hashed).length <
    (hashInput c'.hashed).length) (habove : ∀ c ∈ all, (hashInput hashed).length < (hashInput c.hashed).length) :
    Growing b hashed ((cutAtBoundary b scratch hashed).1 ++ all) := by
  unfold Pipeline.cutAtBoundary
  split
  next hcut => exact .cons (isEmpty_of_schemaBoundary hcut) hordered habove
  next => exact ⟨hordered, fun c hc => Nat.le_of_lt (habove c hc), fun _ => habove⟩

theorem cuts_growing (h : cuts frames b hashed = some all) :
    Growing b hashed all := by
  induction frames generalizing b hashed all with
  | nil =>
    cases h
    split
    next => exact ⟨.nil, nofun, fun _ => nofun⟩
    next hempty => exact .cons (by simpa using hempty) .nil nofun
  | cons frame rest ih =>
    cases frame with
    | error e => cases h
    | ok walPayload =>
      obtain ⟨payload, scratch, merged, after, later, -, -, -, hafter, hlater, rfl⟩ := cuts_ok h
      have hnext := (ih hlater).cutIfFull hafter
      rw [append_assoc]
      refine .cutAtBoundary hnext.ordered ?_
      intro c hc
      have hlonger := length_hashInput_snoc hashed payload
      exact Nat.lt_of_lt_of_le hlonger (hnext.least c hc)

end Cuts

theorem cuts_nodup {env : Env} {h : Sha256} (henv : env.Hashes sig h) (hfree : h.CollisionFree)
    {frames : List (Except ReplayError Bytes)} {all : List (Cut sig)} (hcuts : recoveryCuts sig frames = some all) :
    ((all.map (Cut.block env)).map StoredBlock.uuid).Nodup := by
  rw [map_map, nodup_iff_pairwise_ne, pairwise_map]
  refine (cuts_growing hcuts).ordered.imp ?_
  intro c c' hlt heq
  rw [(henv.uuid_eq_iff hfree _ _).mp heq] at hlt
  exact Nat.lt_irrefl _ hlt

/-! ## The loop publishes the cuts -/

def Recovery.todo (r : Recovery sig) : Option (List (Cut sig)) :=
  if r.releasing then some [] else cuts r.frames r.builder r.hashed

def Published (env : Env) (st : Store sig) (now : List (Cut sig)) (st' : Store sig) : Prop :=
  st'.blocks = st.blocks ++ now.map (Cut.block env)

def Advances (env : Env) (r : Recovery sig) (st : Store sig) : Replayed sig → Prop
  | .failed st' => ∃ now, Published env st now st' ∧ ∀ all, r.todo = some all → now <+: all
  | .continued r' st' =>
    r'.wal = r.wal ∧ ∃ now, Published env st now st' ∧ r.todo = r'.todo.map (now ++ ·)

section Loop
variable {env : Env} {r : Recovery sig} {st st' st₁ : Store sig}

theorem Published.refl (env : Env) (st : Store sig) : Published env st [] st := by
  simp [Published]

theorem Published.trans {now later : List (Cut sig)} (h : Published env st now st')
    (h' : Published env st' later st₁) : Published env st (now ++ later) st₁ := by
  unfold Published at h h' ⊢
  rw [h', h, map_append, append_assoc]

theorem published_upload {b : sig.Builder} {high : Option Nat} {hashed : List Bytes} {ok : Bool}
    (h : uploadReplayBlock env st b high hashed ok = some st') :
    sig.isEmpty b = false ∧ Published env st [⟨hashed, sig.records b⟩] st' := by
  refine ⟨?_, uploadReplayBlock_some h⟩
  unfold uploadReplayBlock at h
  split at h
  next hok =>
    rw [Bool.and_eq_true, Bool.not_eq_true'] at hok
    exact hok.2
  next => cases h

theorem closeIfFull_advances (env : Env) (rest : List (Except ReplayError Bytes)) (q : Bytes) (m : sig.Builder)
    (st : Store sig) (closeOk : Bool) (hrel : r.releasing = false) :
    match r.closeIfFull env rest q m st closeOk with
    | .failed st' => st' = st
    | .continued r' st' => r'.wal = r.wal ∧ r'.releasing = false ∧
        ∃ after, cutIfFull m (r.hashed ++ [q]) = some after ∧ Published env st after.1 st' ∧
          r'.frames = rest ∧ r'.builder = after.2 ∧ r'.hashed = r.hashed ++ [q] := by
  unfold Recovery.closeIfFull
  by_cases hclose : sig.shouldClose m = true
  · simp only [hclose, if_true]
    cases hup : uploadReplayBlock env st m none (r.hashed ++ [q]) closeOk with
    | none => rfl
    | some st' =>
      obtain ⟨hempty, hpub⟩ := published_upload hup
      refine ⟨rfl, hrel, ([⟨r.hashed ++ [q], sig.records m⟩], sig.new), ?_, hpub, rfl, rfl, rfl⟩
      simp [cutIfFull, hclose, hempty]
  · simp only [hclose]
    refine ⟨rfl, hrel, ([], m), ?_, Published.refl env st, rfl, rfl, rfl⟩
    simp [cutIfFull, hclose]

theorem advances_of_fails {st' : Store sig} {now : List (Cut sig)} (hpub : Published env st now st')
    (h : ∀ all, r.todo = some all → now <+: all) : Advances env r st (.failed st') := ⟨now, hpub, h⟩

variable {rest : List (Except ReplayError Bytes)}

theorem merge_advances {w q : Bytes} {scratch : sig.Builder}
    (closeOk : Bool) (hrel : r.releasing = false) (hframes : r.frames = .ok w :: rest)
    (hred : sig.redactReplayed w = some q) (hdec : sig.decode q = some scratch)
    (hpub : Published env st (cutAtBoundary r.builder scratch r.hashed).1 st') :
    Advances env r st (match sig.merge (cutAtBoundary r.builder scratch r.hashed).2 scratch with
      | none => .failed st'
      | some m => r.closeIfFull env rest q m st' closeOk) := by
  have htodo : r.todo = cuts (.ok w :: rest) r.builder r.hashed := by
    rw [Recovery.todo, hrel, hframes]
    rfl
  -- Whatever happens next, the block before the boundary is the first of the recovery.
  have hfirst : ∀ all, r.todo = some all → (cutAtBoundary r.builder scratch r.hashed).1 <+: all := by
    intro all hall
    rw [htodo] at hall
    obtain ⟨q', scratch', m, after, later, hq, hscratch, -, -, -, rfl⟩ := cuts_ok hall
    rw [hred] at hq
    cases hq
    rw [hdec] at hscratch
    cases hscratch
    rw [append_assoc]
    exact prefix_append _ _
  cases hmerge : sig.merge (cutAtBoundary r.builder scratch r.hashed).2 scratch with
  | none => exact advances_of_fails hpub hfirst
  | some m =>
    have hclose := closeIfFull_advances env rest q m st' closeOk hrel
    dsimp only
    cases hout : r.closeIfFull env rest q m st' closeOk with
    | failed st'' =>
      rw [hout] at hclose
      dsimp only at hclose
      subst hclose
      exact advances_of_fails hpub hfirst
    | continued r' st'' =>
      rw [hout] at hclose
      obtain ⟨hwal, hrel', after, hafter, hpub', hframes', hb, hhashed⟩ := hclose
      refine ⟨hwal, _, hpub.trans hpub', ?_⟩
      rw [htodo, Recovery.todo, hrel', hframes', hb, hhashed]
      simp only [cuts, hred, hdec, hmerge, hafter, Option.bind_eq_bind, Option.bind_some,
        Option.pure_def, Bool.false_eq_true, if_false]
      cases cuts rest after.2 (r.hashed ++ [q]) <;> rfl

theorem replayPayload_advances {w : Bytes}
    (boundaryOk closeOk : Bool) (hrel : r.releasing = false) (hframes : r.frames = .ok w :: rest) :
    Advances env r st (r.replayPayload env rest w st boundaryOk closeOk) := by
  have hnothing : Advances env r st (.failed st) :=
    advances_of_fails (Published.refl env st) fun all _ => nil_prefix
  unfold Recovery.replayPayload
  cases hred : sig.redactReplayed w with
  | none => exact hnothing
  | some q =>
    dsimp only
    cases hdec : sig.decode q with
    | none => exact hnothing
    | some scratch =>
      dsimp only
      split
      next hboundary =>
        have hcut : cutAtBoundary r.builder scratch r.hashed =
            ([⟨r.hashed, sig.records r.builder⟩], sig.new) := if_pos hboundary
        cases hup : uploadReplayBlock env st r.builder none r.hashed boundaryOk with
        | none => exact hnothing
        | some st' =>
          have hpub := (published_upload hup).2
          have hadv := merge_advances closeOk hrel hframes hred hdec
            (by rw [hcut]; exact hpub)
          rw [hcut] at hadv
          exact hadv
      next hboundary =>
        have hcut : cutAtBoundary r.builder scratch r.hashed = ([], r.builder) := if_neg hboundary
        have hadv := merge_advances closeOk hrel hframes hred hdec
          (by rw [hcut]; exact Published.refl env st)
        rw [hcut] at hadv
        exact hadv

variable {out : Replayed sig}

theorem replayFrame_advances {boundaryOk closeOk : Bool}
    (hs : r.replayFrame env st boundaryOk closeOk = some out) : Advances env r st out := by
  obtain ⟨hrel, ⟨e, rest, hframes, rfl⟩ | ⟨w, rest, hframes, rfl⟩⟩ := replayFrame_some hs
  · exact advances_of_fails (Published.refl env st) fun all _ => nil_prefix
  · exact replayPayload_advances boundaryOk closeOk hrel hframes

theorem uploadRest_advances {ok : Bool} (hs : r.uploadRest env st ok = some out) :
    Advances env r st out := by
  obtain ⟨hrel, hframes, hcase⟩ := uploadRest_some hs
  have htodo : r.todo = some (if sig.isEmpty r.builder then [] else
      [⟨r.hashed, sig.records r.builder⟩]) := by
    rw [Recovery.todo, hrel, hframes]
    rfl
  obtain ⟨hempty, rfl⟩ | ⟨-, -, rfl⟩ | ⟨st', hup, rfl⟩ := hcase
  · refine ⟨rfl, [], Published.refl env st, ?_⟩
    rw [htodo, hempty]
    rfl
  · exact advances_of_fails (Published.refl env st) fun all _ => nil_prefix
  · obtain ⟨hempty, hpub⟩ := published_upload hup
    refine ⟨rfl, _, hpub, ?_⟩
    rw [htodo, hempty]
    rfl

end Loop

end Scry.Pipeline
