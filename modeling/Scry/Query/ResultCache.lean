import Mathlib.Data.String.Basic
import Scry.Block.Meta
import Scry.Block.Postings
import Scry.Lib.BigEndian
import Scry.Lib.Sorting
import Scry.Lib.Unambiguous

/-! # The cache of query results

Sixteen bytes, a trace id or a block's UUID, are the number they are written as.
-/

open Scry.Lib Scry.Block

namespace Scry.Query

open List

/-- `request_id` does not go into the key. -/
structure QueryRequest where
  matchers : List LabelPair
  tsMin : Option UInt64
  tsMax : Option UInt64
  sql : Option String
  limit : Option UInt64
  traceId : Option (BitVec 128)
  bodyContains : Option String
  withLabels : Bool
  live : Bool

/-! ## The key -/

def signalByte : SignalName → UInt8
  | .metrics => 1
  | .logs => 2
  | .traces => 3
  | .profiles => 4
  | .dummy => 0xFE

def utf8 (s : String) : Bytes := s.toByteArray.data.toList

def pushStr (s : String) : Bytes := toBe 4 (utf8 s).length ++ utf8 s

def pushOpt {α : Type} (push : α → Bytes) : Option α → Bytes
  | some a => 1 :: push a
  | none => [0]

/-- The bytes that `data_query_cache_key` hashes. -/
def dataQueryCacheKey (signal : SignalName) (req : QueryRequest) (candidates : List (BitVec 128)) : Bytes :=
  let matchers := sortBy id req.matchers
  let uuids := sortBy BitVec.toNat candidates
  [0x01, signalByte signal] ++
    toBe 4 matchers.length ++ matchers.flatMap (fun l => pushStr (ofLex l).1 ++ pushStr (ofLex l).2) ++
    pushOpt (fun ts => toBe 8 ts.toNat) req.tsMin ++ pushOpt (fun ts => toBe 8 ts.toNat) req.tsMax ++
    pushOpt pushStr req.sql ++ pushOpt (fun n => toBe 8 n.toNat) req.limit ++
    pushOpt (fun t => toBe 16 t.toNat) req.traceId ++ pushOpt pushStr req.bodyContains ++
    [if req.withLabels then 1 else 0] ++
    toBe 4 uuids.length ++ uuids.flatMap fun u => toBe 16 u.toNat

/-! ## The key says what was asked -/

abbrev Short (s : String) : Prop := (utf8 s).length < 2 ^ 32

structure QueryRequest.Short (req : QueryRequest) : Prop where
  matchers : ∀ l ∈ req.matchers, Query.Short (ofLex l).1 ∧ Query.Short (ofLex l).2
  sql : ∀ s ∈ req.sql, Query.Short s
  bodyContains : ∀ s ∈ req.bodyContains, Query.Short s

/-- The same answer is due: lists count as multisets. -/
structure SameQuery (signal signal' : SignalName) (req req' : QueryRequest) (candidates candidates' : List (BitVec 128)) :
    Prop where
  signal : signal = signal'
  matchers : req.matchers.Perm req'.matchers
  tsMin : req.tsMin = req'.tsMin
  tsMax : req.tsMax = req'.tsMax
  sql : req.sql = req'.sql
  limit : req.limit = req'.limit
  traceId : req.traceId = req'.traceId
  bodyContains : req.bodyContains = req'.bodyContains
  withLabels : req.withLabels = req'.withLabels
  candidates : candidates.Perm candidates'

theorem utf8_inj {s s' : String} (h : utf8 s = utf8 s') : s = s' :=
  String.toByteArray_inj.mp (ByteArray.ext (Array.toList_inj.mp h))

theorem selfDelimiting_pushStr : SelfDelimiting Short pushStr := by
  intro s s' r r' hs hs' h
  simp only [pushStr, append_assoc] at h
  obtain ⟨hlen, h⟩ := toBe_append_inj hs hs' h
  obtain ⟨htext, hrest⟩ := append_inj h hlen
  exact ⟨utf8_inj htext, hrest⟩

theorem selfDelimiting_label : SelfDelimiting (fun l : LabelPair => Short (ofLex l).1 ∧ Short (ofLex l).2)
    (fun l => pushStr (ofLex l).1 ++ pushStr (ofLex l).2) := by
  intro l l' r r' hl hl' h
  simp only [append_assoc] at h
  obtain ⟨hkey, h⟩ := selfDelimiting_pushStr _ _ _ _ hl.1 hl'.1 h
  obtain ⟨hvalue, hrest⟩ := selfDelimiting_pushStr _ _ _ _ hl.2 hl'.2 h
  exact ⟨Prod.ext hkey hvalue, hrest⟩

theorem selfDelimiting_pushOpt {α : Type} {P : α → Prop} {push : α → Bytes} (hpush : SelfDelimiting P push) :
    SelfDelimiting (fun o => ∀ a ∈ o, P a) (pushOpt push) := by
  rintro (_ | a) (_ | b) r r' ha hb h
  · exact ⟨rfl, (cons.inj h).2⟩
  · exact absurd (cons.inj h).1 (by decide)
  · exact absurd (cons.inj h).1 (by decide)
  · obtain ⟨rfl, hrest⟩ := hpush a b r r' (ha a rfl) (hb b rfl) (cons.inj h).2
    exact ⟨rfl, hrest⟩

theorem selfDelimiting_u64 : SelfDelimiting (fun _ => True) fun n : UInt64 => toBe 8 n.toNat := by
  intro n m r r' _ _ h
  obtain ⟨hn, hrest⟩ := toBe_append_inj n.toNat_lt m.toNat_lt h
  exact ⟨UInt64.toNat_inj.mp hn, hrest⟩

theorem selfDelimiting_u128 : SelfDelimiting (fun _ => True) fun n : BitVec 128 => toBe 16 n.toNat := by
  intro n m r r' _ _ h
  obtain ⟨hn, hrest⟩ := toBe_append_inj n.isLt m.isLt h
  exact ⟨BitVec.eq_of_toNat_eq hn, hrest⟩

theorem sorted_inj {α κ : Type} [LinearOrder κ] {key : α → κ} {P : α → Prop} {code : α → Bytes}
    (hcode : SelfDelimiting P code) {xs ys : List α} (hxs : ∀ x ∈ xs, P x) (hys : ∀ y ∈ ys, P y)
    (hlen : xs.length < 2 ^ 32) (hlen' : ys.length < 2 ^ 32) {r r' : Bytes}
    (h : toBe 4 (sortBy key xs).length ++ ((sortBy key xs).flatMap code ++ r) =
      toBe 4 (sortBy key ys).length ++ ((sortBy key ys).flatMap code ++ r')) : xs.Perm ys ∧ r = r' := by
  have hperm := sortBy_perm key xs
  have hperm' := sortBy_perm key ys
  rw [← hperm.length_eq] at hlen
  rw [← hperm'.length_eq] at hlen'
  obtain ⟨hcnt, h⟩ := toBe_append_inj hlen hlen' h
  obtain ⟨hsort, hrest⟩ := hcode.flatMap (fun x hx => hxs x (hperm.mem_iff.mp hx))
    (fun y hy => hys y (hperm'.mem_iff.mp hy)) hcnt h
  exact ⟨hperm.symm.trans (hsort ▸ hperm'), hrest⟩

section Key

variable {signal signal' : SignalName} {req req' : QueryRequest} {candidates candidates' : List (BitVec 128)}

theorem SameQuery.key_eq (h : SameQuery signal signal' req req' candidates candidates') :
    dataQueryCacheKey signal req candidates = dataQueryCacheKey signal' req' candidates' := by
  have hmats := sortBy_eq_of_perm id h.matchers fun _ _ _ _ heq => heq
  have hcands := sortBy_eq_of_perm BitVec.toNat h.candidates fun _ _ _ _ heq => BitVec.eq_of_toNat_eq heq
  simp only [dataQueryCacheKey, hmats, hcands, h.signal, h.tsMin, h.tsMax, h.sql, h.limit, h.traceId,
    h.bodyContains, h.withLabels]

theorem sameQuery_of_key_eq (hreq : req.Short) (hreq' : req'.Short) (hmats : req.matchers.length < 2 ^ 32)
    (hmats' : req'.matchers.length < 2 ^ 32) (hcands : candidates.length < 2 ^ 32)
    (hcands' : candidates'.length < 2 ^ 32) (h : dataQueryCacheKey signal req candidates = dataQueryCacheKey
    signal' req' candidates') : SameQuery signal signal' req req' candidates candidates' := by
  rw [← append_nil (dataQueryCacheKey signal req candidates),
    ← append_nil (dataQueryCacheKey signal' req' candidates')] at h
  simp only [dataQueryCacheKey, append_assoc, cons_append, nil_append] at h
  have hu64 := selfDelimiting_pushOpt selfDelimiting_u64
  have htext := selfDelimiting_pushOpt selfDelimiting_pushStr
  obtain ⟨hsignal, h⟩ := cons.inj (cons.inj h).2
  obtain ⟨hperm, h⟩ := sorted_inj selfDelimiting_label hreq.matchers hreq'.matchers hmats hmats' h
  obtain ⟨htsMin, h⟩ := hu64 _ _ _ _ (fun _ _ => trivial) (fun _ _ => trivial) h
  obtain ⟨htsMax, h⟩ := hu64 _ _ _ _ (fun _ _ => trivial) (fun _ _ => trivial) h
  obtain ⟨hsql, h⟩ := htext _ _ _ _ hreq.sql hreq'.sql h
  obtain ⟨hlimit, h⟩ := hu64 _ _ _ _ (fun _ _ => trivial) (fun _ _ => trivial) h
  obtain ⟨htrace, h⟩ := selfDelimiting_pushOpt selfDelimiting_u128 _ _ _ _ (fun _ _ => trivial) (fun _ _ => trivial) h
  obtain ⟨hbody, h⟩ := htext _ _ _ _ hreq.bodyContains hreq'.bodyContains h
  obtain ⟨hlabs, h⟩ := cons.inj h
  obtain ⟨hblocks, -⟩ := sorted_inj selfDelimiting_u128 (fun _ _ => trivial) (fun _ _ => trivial) hcands
    hcands' h
  refine ⟨?_, hperm, htsMin, htsMax, hsql, hlimit, htrace, hbody, ?_, hblocks⟩
  · revert hsignal
    cases signal <;> cases signal' <;> decide
  · revert hlabs
    cases req.withLabels <;> cases req'.withLabels <;> decide

end Key

/-! ## What is put under a key -/

structure ResponseTee where
  buf : Option Bytes
  cap : Nat

namespace ResponseTee

def new (cap : Nat) : ResponseTee := ⟨some [], cap⟩

def disabled : ResponseTee := ⟨none, 0⟩

def push (tee : ResponseTee) (bytes : Bytes) : ResponseTee :=
  { tee with buf := tee.buf.bind fun b => if b.length + bytes.length > tee.cap then none else some (b ++ bytes) }

end ResponseTee

/-- A frame comes with whether the socket took it. -/
inductive StreamEvent where
  | batch (frames : List (Bytes × Bool))
  -- a block was missing, the catalog is repaired and the reset reached the client
  | superseded
  -- any other error of the scan or of the repair, or the memory guard
  | failed
  -- the stream is at its end; whether the statistics and the terminator were flushed
  | ended (flushed : Bool)

inductive AttemptEnd where
  | completed (tee : ResponseTee)
  | superseded
  | returned

def writeAndTee (tee : ResponseTee) : List (Bytes × Bool) → Option ResponseTee
  | [] => some tee
  | (wire, written) :: frames => if written then writeAndTee (tee.push wire) frames else none

/-- Without a further event the call was dropped. -/
def streamBatches (tee : ResponseTee) : List StreamEvent → AttemptEnd
  | [] => .returned
  | .batch frames :: events =>
    match writeAndTee tee frames with
    | none => .returned
    | some tee => streamBatches tee events
  | .superseded :: _ => .superseded
  | .failed :: _ => .returned
  | .ended flushed :: _ => if flushed then .completed tee else .returned

/-- One attempt at a response. The schema goes out like a batch. -/
structure Attempt where
  candidates : List (BitVec 128)
  schema : List (Bytes × Bool)
  events : List StreamEvent

/-- What a query that missed the cache inserts, if anything. -/
def runQuery (enabled : Bool) (cap : Nat) (signal : SignalName) (req : QueryRequest) (activeAttempt : Nat) :
    List Attempt → Option (Bytes × Bytes)
  | [] => none
  | a :: rest =>
    let tee := if enabled && !req.live then ResponseTee.new cap else ResponseTee.disabled
    match streamBatches tee (.batch a.schema :: a.events) with
    | .returned => none
    | .superseded => if activeAttempt < 2 then runQuery enabled cap signal req (activeAttempt + 1) rest else none
    | .completed tee => tee.buf.map fun bytes => (dataQueryCacheKey signal req a.candidates, bytes)

/-- Every frame arrived, the terminator too; `body` is what came before it. -/
def Delivered (events : List StreamEvent) (body : Bytes) : Prop :=
  ∃ (batches : List (List (Bytes × Bool))) (rest : List StreamEvent),
    events = batches.map .batch ++ .ended true :: rest ∧ (∀ f ∈ batches.flatten, f.2 = true) ∧
    body = batches.flatten.flatMap Prod.fst

variable {body : Bytes} {tee tee' : ResponseTee}

theorem writeAndTee_some {frames : List (Bytes × Bool)}
    (h : writeAndTee tee frames = some tee') (hbuf : tee'.buf = some body) :
    (∀ f ∈ frames, f.2 = true) ∧ ∃ b, tee.buf = some b ∧ body = b ++ frames.flatMap Prod.fst := by
  induction frames generalizing tee with
  | nil =>
    cases h
    exact ⟨nofun, body, hbuf, (append_nil _).symm⟩
  | cons f frames ih =>
    obtain ⟨wire, written⟩ := f
    rw [writeAndTee, Option.ite_none_right_eq_some] at h
    obtain ⟨hall, b, hb, rfl⟩ := ih h.2
    obtain ⟨b₀, hb₀, hpush⟩ := Option.bind_eq_some_iff.mp hb
    obtain ⟨-, hkept⟩ := Option.ite_none_left_eq_some.mp hpush
    cases hkept
    exact ⟨forall_mem_cons.mpr ⟨h.1, hall⟩, b₀, hb₀, by simp⟩

theorem streamBatches_completed {events : List StreamEvent}
    (h : streamBatches tee events = .completed tee') (hbuf : tee'.buf = some body) :
    ∃ b tail, tee.buf = some b ∧ Delivered events tail ∧ body = b ++ tail := by
  induction events generalizing tee with
  | nil => cases h
  | cons event events ih =>
    cases event with
    | batch frames =>
      simp only [streamBatches] at h
      split at h
      · cases h
      · rename_i tee₁ hwrite
        obtain ⟨b, tail, hb, ⟨batches, rest, rfl, hall, rfl⟩, rfl⟩ := ih h
        obtain ⟨hwritten, b₀, hb₀, rfl⟩ := writeAndTee_some hwrite hb
        refine ⟨b₀, _, hb₀, ⟨frames :: batches, rest, rfl, ?_, rfl⟩, by simp⟩
        rw [flatten_cons, forall_mem_append]
        exact ⟨hwritten, hall⟩
    | superseded => cases h
    | failed => cases h
    | ended flushed =>
      cases flushed with
      | false => cases h
      | true =>
        cases h
        exact ⟨body, [], hbuf, ⟨[], events, rfl, nofun, rfl⟩, (append_nil _).symm⟩

theorem runQuery_some {enabled : Bool} {cap : Nat} {signal : SignalName} {req : QueryRequest} {activeAttempt : Nat}
    {attempts : List Attempt} {key body : Bytes} (h : runQuery enabled cap signal req activeAttempt attempts = some
    (key, body)) : req.live = false ∧ ∃ a ∈ attempts, key = dataQueryCacheKey signal req a.candidates ∧ Delivered
    (.batch a.schema :: a.events) body := by
  induction attempts generalizing activeAttempt with
  | nil => cases h
  | cons a attempts ih =>
    simp only [runQuery] at h
    split at h
    · cases h
    · obtain ⟨-, h⟩ := Option.ite_none_right_eq_some.mp h
      obtain ⟨hlive, a', ha', hdone⟩ := ih h
      exact ⟨hlive, a', mem_cons_of_mem _ ha', hdone⟩
    · rename_i hstr
      obtain ⟨_, hbuf, hpair⟩ := Option.map_eq_some_iff.mp h
      cases hpair
      obtain ⟨b, tail, hb, hdone, rfl⟩ := streamBatches_completed hstr hbuf
      split at hb
      · rename_i hnew
        cases hb
        exact ⟨by simp_all, a, mem_cons_self, rfl, hdone⟩
      · cases hb

theorem data_query_cache_sound (signal signal' : SignalName) (req req' : QueryRequest)
    (candidates candidates' : List (BitVec 128)) (hreq : req.Short) (hreq' : req'.Short)
    (hmatchers : req.matchers.length < 2 ^ 32) (hmatchers' : req'.matchers.length < 2 ^ 32)
    (hcandidates : candidates.length < 2 ^ 32) (hcandidates' : candidates'.length < 2 ^ 32) :
    (dataQueryCacheKey signal req candidates = dataQueryCacheKey signal' req' candidates' ↔ SameQuery signal signal'
    req req' candidates candidates') ∧ ∀ enabled cap attempts key body, runQuery enabled cap signal req 0 attempts =
    some (key, body) → req.live = false ∧ ∃ a ∈ attempts, key = dataQueryCacheKey signal req a.candidates ∧ Delivered
    (.batch a.schema :: a.events) body :=
  ⟨⟨sameQuery_of_key_eq hreq hreq' hmatchers hmatchers' hcandidates hcandidates', SameQuery.key_eq⟩,
    fun _ _ _ _ _ h => runQuery_some h⟩

def plainRequest (matchers : List LabelPair) : QueryRequest :=
  ⟨matchers, none, none, none, none, none, none, false, false⟩

theorem data_query_cache_sound_empty :
    dataQueryCacheKey .metrics (plainRequest []) [] ≠ dataQueryCacheKey .logs (plainRequest []) [] := by
  have hshort : (plainRequest []).Short := ⟨nofun, nofun, nofun⟩
  intro h
  have hsame := (data_query_cache_sound _ _ _ _ _ _ hshort hshort (by decide) (by decide) (by decide) (by decide)).1.mp h
  exact absurd hsame.signal (by decide)

/-! ## Counts that wrap -/

theorem flatMap_replicate_zeros {α : Type} {code : α → Bytes} {a : α} {k : Nat} (h : code a = replicate k 0)
    (n : Nat) : (replicate n a).flatMap code = replicate (n * k) 0 := by
  induction n with
  | zero => simp
  | succ n ih => rw [replicate_succ, flatMap_cons, h, ih, ← replicate_add, Nat.succ_mul, Nat.add_comm]

theorem sortBy_replicate {α κ : Type} [LinearOrder κ] (key : α → κ) (n : Nat) (a : α) :
    sortBy key (replicate n a) = replicate n a :=
  perm_replicate.mp (sortBy_perm key _)

theorem toBe_eq_zeros {n : Nat} (h : 2 ^ 32 ∣ n) : toBe 4 n = replicate 4 0 := by
  have hcut := toBe_ofBe (toBe 4 n)
  have hzero : n % 256 ^ 4 = 0 := Nat.mod_eq_zero_of_dvd h
  rw [toBe_length, ofBe_toBe, hzero] at hcut
  rw [← hcut]
  decide

/-- Counted as none, empty matchers and nil UUIDs are zero bytes all alike. -/
theorem dataQueryCacheKey_zeros {n m : Nat} (hn : 2 ^ 32 ∣ n) (hm : 2 ^ 32 ∣ m) :
    dataQueryCacheKey .logs (plainRequest (replicate n (toLex ("", "")))) (replicate m 0) =
      [0x01, 2] ++ replicate (15 + 8 * n + 16 * m) 0 := by
  have hlabs : (replicate n (toLex ("", ""))).flatMap
      (fun l : LabelPair => pushStr (ofLex l).1 ++ pushStr (ofLex l).2) = replicate (n * 8) 0 :=
    flatMap_replicate_zeros (by decide) n
  have huuids : (replicate m (0 : BitVec 128)).flatMap (fun u => toBe 16 u.toNat) = replicate (m * 16) 0 :=
    flatMap_replicate_zeros (by decide) m
  simp only [dataQueryCacheKey, plainRequest, sortBy_replicate, length_replicate, toBe_eq_zeros hn,
    toBe_eq_zeros hm, hlabs, huuids, append_assoc]
  refine congrArg ([0x01, 2] ++ ·) (eq_replicate_iff.mpr ⟨?_, ?_⟩)
  · simp [pushOpt]
    omega
  · simp [pushOpt, or_imp]

theorem wrapped_counts_confused : ∃ req req' : QueryRequest, ∃ candidates candidates', req.Short ∧ req'.Short ∧
    dataQueryCacheKey .logs req candidates = dataQueryCacheKey .logs req' candidates' ∧ ¬ req.matchers.Perm
    req'.matchers := by
  refine ⟨plainRequest (replicate (2 ^ 33) (toLex ("", ""))), plainRequest (replicate 0 (toLex ("", ""))),
    replicate 0 0, replicate (2 ^ 32) 0, ?_, ?_, ?_, ?_⟩
  · refine ⟨fun l hl => ?_, nofun, nofun⟩
    rw [eq_of_mem_replicate hl]
    decide
  · exact ⟨nofun, nofun, nofun⟩
  · have htwice : 2 ^ 32 ∣ 2 ^ 33 := ⟨2, by decide⟩
    have hlength : 15 + 8 * 2 ^ 33 + 16 * 0 = 15 + 8 * 0 + 16 * 2 ^ 32 := by decide
    rw [dataQueryCacheKey_zeros htwice (Nat.dvd_zero _), dataQueryCacheKey_zeros (Nat.dvd_zero _) (Nat.dvd_refl _),
      hlength]
  · intro h
    have hlength := h.length_eq
    simp only [plainRequest, length_replicate] at hlength
    omega

end Scry.Query
