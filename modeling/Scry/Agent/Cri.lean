import Mathlib.Data.List.DropRight
import Scry.Lib.Utf8

/-! # Tailing a CRI log file

A tailer reads what a growing file has gained in chunks, keeps the unfinished line, and joins the partial lines
of each stream. What it has emitted depends only on how far it has read.
-/

namespace Scry.Agent

open List Lib

inductive Stream
  | stdout
  | stderr
  deriving DecidableEq

def Stream.parse (s : Bytes) : Option Stream :=
  if s = ascii "stdout" then some .stdout else if s = ascii "stderr" then some .stderr else none

structure RawLog (Pod : Type) where
  pod : Pod
  stream : Stream
  tsUnixNano : UInt64
  body : Bytes

/-- A field and what stands behind its space, as `splitn` cuts it. -/
def field (s : Bytes) : Bytes × Option Bytes := (s.takeWhile (· ≠ 32), (s.dropWhile (· ≠ 32)).tail?)

/-- `timestamp` is `parse_from_rfc3339` followed by `timestamp_nanos_opt`. -/
def parseLine (timestamp : Bytes → Option UInt64) (line : Bytes) : Option (UInt64 × Stream × Bool × Bytes) := do
  let (tsStr, rest) := field line
  let (name, rest) := field (← rest)
  let stream ← Stream.parse name
  let (tag, msg) := field (← rest)
  let isFull ← if tag = ascii "F" then some true else if tag = ascii "P" then some false else none
  let nanos ← timestamp tsStr
  some (nanos, stream, isFull, msg.getD [])

structure PartialBufs where
  stdout : Bytes
  stderr : Bytes

namespace PartialBufs

def buf (p : PartialBufs) : Stream → Bytes
  | .stdout => p.stdout
  | .stderr => p.stderr

def set (p : PartialBufs) (b : Bytes) : Stream → PartialBufs
  | .stdout => { p with stdout := b }
  | .stderr => { p with stderr := b }

end PartialBufs

structure Emission (Pod : Type) where
  partials : PartialBufs
  logs : List (RawLog Pod)

structure Tailer (Pod : Type) extends Emission Pod where
  offset : Nat
  leftover : Bytes

def completed (l : Bytes) : Bytes := l.rdropWhile (· ≠ 10)

def unfinished (l : Bytes) : Bytes := l.rtakeWhile (· ≠ 10)

structure Source (Pod : Type) where
  timestamp : Bytes → Option UInt64
  pod : Pod
  readChunk : Nat

namespace Source

variable {Pod : Type} (c : Source Pod)

def processRaw (e : Emission Pod) (raw : Bytes) : Emission Pod :=
  if raw = [] then e
  else if validUtf8 raw = false then e
  else
    match parseLine c.timestamp raw with
    | none => e
    | some (ts, stream, isFull, msg) =>
      let buf := e.partials.buf stream
      let body := if buf = [] then msg else buf ++ msg
      if isFull then ⟨e.partials.set [] stream, e.logs ++ [⟨c.pod, stream, ts, body⟩]⟩
      else ⟨e.partials.set body stream, e.logs⟩

/-- The receiver stays open. -/
def processChunk (bytes : Bytes) (e : Emission Pod) : Emission Pod :=
  (bytes.splitOn 10).foldl (c.processRaw) e

/-- `file` is what the file holds at the time. -/
def readNew (file : Bytes) (t : Tailer Pod) : Option Bytes × Tailer Pod :=
  let t := if file.length < t.offset then { t with offset := 0, leftover := [], partials := ⟨[], []⟩ } else t
  if file.length = t.offset then (none, t)
  else
    let toRead := min (file.length - t.offset) c.readChunk
    let combined := t.leftover ++ (file.drop t.offset).take toRead
    (some (completed combined), { t with offset := t.offset + toRead, leftover := unfinished combined })

/-- One read of the loop. It sleeps now and then between two of them. -/
def poll (t : Tailer Pod) (file : Bytes) : Tailer Pod :=
  match c.readNew file t with
  | (some bytes, t) => if bytes = [] then t else { t with toEmission := c.processChunk bytes t.toEmission }
  | (none, t) => t

/-- From the start of a file that grows to `content`, with the lengths that the reads find. -/
def tail (content : Bytes) (lens : List Nat) : Tailer Pod :=
  lens.foldl (fun t len => c.poll t (content.take len)) ⟨⟨⟨[], []⟩, []⟩, 0, []⟩

def emission (content : Bytes) : Emission Pod := c.processChunk (completed content) ⟨⟨[], []⟩, []⟩

end Source

/-! ## Complete lines -/

theorem completed_append_unfinished (l : Bytes) : completed l ++ unfinished l = l := rdropWhile_append_rtakeWhile

theorem completed_snoc (l : Bytes) (b : UInt8) : completed (l ++ [b]) = (if b = 10 then l ++ [b] else completed l) ∧
    unfinished (l ++ [b]) = if b = 10 then [] else unfinished l ++ [b] := by
  unfold completed unfinished
  rw [rdropWhile_concat, rtakeWhile_concat]
  by_cases h : b = 10 <;> simp [h]

theorem completed_eq (l : Bytes) : completed l = [] ∨ ∃ a, completed l = a ++ [10] := by
  induction l using reverseRecOn with
  | nil => exact .inl rfl
  | append_singleton l b ih =>
    rw [(completed_snoc l b).1]
    split
    next h => exact .inr ⟨l, by rw [h]⟩
    next => exact ih

theorem split_completed (a b : Bytes) :
    completed (completed a ++ b) = completed a ++ completed b ∧ unfinished (completed a ++ b) = unfinished b := by
  induction b using reverseRecOn with
  | nil =>
    rcases completed_eq a with h | ⟨c, h⟩
    · rw [h]
      exact ⟨rfl, rfl⟩
    · rw [h, append_nil, (completed_snoc c 10).1, (completed_snoc c 10).2]
      exact ⟨(append_nil _).symm, rfl⟩
  | append_singleton b x ih =>
    rw [← append_assoc, (completed_snoc _ x).1, (completed_snoc _ x).2, (completed_snoc b x).1, (completed_snoc b x).2,
      ih.1, ih.2, append_assoc]
    exact ⟨(apply_ite (completed a ++ ·) _ _ _).symm, rfl⟩

namespace Source

variable {Pod : Type} {c : Source Pod} {content : Bytes} {t : Tailer Pod}

theorem processChunk_append (a b : Bytes) (e : Emission Pod) : c.processChunk (completed a ++ b) e =
    c.processChunk b (c.processChunk (completed a) e) := by
  unfold processChunk
  rcases completed_eq a with h | ⟨c, h⟩
  · rw [h]
    rfl
  · rw [h, append_assoc, singleton_append, splitOn_append_cons_self, splitOn_append_cons_self, splitOn_nil,
      foldl_append, foldl_append]
    rfl

/-- What a tailer that has read so far holds and has emitted. -/
structure HasRead (c : Source Pod) (content : Bytes) (t : Tailer Pod) : Prop where
  le : t.offset ≤ content.length
  leftover : t.leftover = unfinished (content.take t.offset)
  emission : t.toEmission = c.emission (content.take t.offset)

theorem HasRead.read (h : c.HasRead content t) (len : Nat) {n : Nat} (hlen : t.offset + n ≤ len)
    (hn : t.offset + n ≤ content.length) {combined : Bytes} (hcombined : combined = t.leftover ++
    ((content.take len).drop t.offset).take n) : c.HasRead content ⟨c.processChunk (completed combined) t.toEmission,
    t.offset + n, unfinished combined⟩ := by
  have htake : content.take (t.offset + n) = completed (content.take t.offset) ++ combined := by
    rw [hcombined, h.leftover, ← append_assoc, completed_append_unfinished, drop_take, take_take, Nat.min_eq_left (by omega),
      take_add]
  obtain ⟨hcompleted, hunfin⟩ := split_completed (content.take t.offset) combined
  refine ⟨hn, ?_, ?_⟩
  · rw [htake, hunfin]
  · rw [htake, Source.emission, hcompleted, processChunk_append, h.emission]
    rfl

theorem HasRead.poll (h : c.HasRead content t) {len : Nat} (hle : t.offset ≤ len) : c.HasRead content
    (c.poll t (content.take len)) ∧ (c.poll t (content.take len)).offset = t.offset + min
    (min len content.length - t.offset) c.readChunk := by
  have hlen : (content.take len).length = min len content.length := length_take
  have hoffset := h.le
  unfold Source.poll readNew
  rw [if_neg (by omega : ¬ (content.take len).length < t.offset), hlen]
  by_cases heq : min len content.length = t.offset
  · rw [if_pos heq]
    refine ⟨h, ?_⟩
    dsimp only
    omega
  · rw [if_neg heq]
    dsimp only
    have hread := h.read len (n := min (min len content.length - t.offset) c.readChunk) (by omega) (by omega) rfl
    split
    next hnil =>
      rw [hnil] at hread
      exact ⟨hread, rfl⟩
    next => exact ⟨hread, rfl⟩

theorem tail_snoc (lens : List Nat) (len : Nat) : c.tail content (lens ++ [len]) =
    c.poll (c.tail content lens) (content.take len) := by
  rw [tail, foldl_append]
  rfl

variable {lens : List Nat}

variable (c content) in
theorem tail_hasRead (hlens : lens.Pairwise (· ≤ ·)) : c.HasRead content (c.tail content lens) ∧
    ∀ len, (∀ l ∈ lens, l ≤ len) → (c.tail content lens).offset ≤ len := by
  induction lens using reverseRecOn with
  | nil => exact ⟨⟨Nat.zero_le _, rfl, rfl⟩, fun len _ => Nat.zero_le len⟩
  | append_singleton lens n ih =>
    obtain ⟨hlens, -, hle⟩ := pairwise_append.mp hlens
    obtain ⟨h, hoffset⟩ := ih hlens
    have hpoll := h.poll (hoffset n fun l hl => hle l hl n (mem_singleton.mpr rfl))
    rw [tail_snoc]
    refine ⟨hpoll.1, fun len hall => ?_⟩
    have hn := hall n (mem_append_right _ (mem_singleton.mpr rfl))
    have hbefore := hoffset len fun l hl => hall l (mem_append_left _ hl)
    rw [hpoll.2]
    omega

theorem tail_progress (hchunk : 0 < c.readChunk) (hlens : lens.Pairwise (· ≤ ·))
    (hle : ∀ l ∈ lens, l ≤ content.length) :
    ∃ n, (c.tail content (lens ++ replicate n content.length)).offset = content.length := by
  induction hm : content.length - (c.tail content lens).offset using Nat.strong_induction_on
    generalizing lens with
  | _ m ih =>
    obtain ⟨h, hoffset⟩ := tail_hasRead c content hlens
    have hoffset := hoffset _ hle
    have hpoll := (h.poll hoffset).2
    rw [← tail_snoc] at hpoll
    cases m with
    | zero => exact ⟨0, by rw [replicate_zero, append_nil]; omega⟩
    | succ m =>
      obtain ⟨n, hn⟩ := ih _ (by rw [hpoll]; omega) (pairwise_append.mpr ⟨hlens, pairwise_singleton _ _, by simpa using hle⟩)
        (by simpa using fun l hl => hl.elim (hle l) Nat.le_of_eq) rfl
      exact ⟨n + 1, by rwa [append_assoc] at hn⟩

theorem tail_logs_eq (hchunk : 0 < c.readChunk) {lens : List Nat} (hlens : lens.Pairwise (· ≤ ·))
    (hle : ∀ l ∈ lens, l ≤ content.length) : (∃ n, (c.tail content (lens ++ replicate n content.length)).offset =
    content.length) ∧ ((c.tail content lens).offset = content.length → (c.tail content lens).logs =
    (c.emission content).logs) := by
  refine ⟨tail_progress hchunk hlens hle, fun h => ?_⟩
  rw [(tail_hasRead c content hlens).1.emission, h, take_length]

/-- A partial and a full line of one stream, in a file that is read while they are written. -/
theorem tail_logs_eq_partial :
    let c : Source Unit := ⟨fun _ => some 7, (), 20⟩
    let content := ascii "t stdout P a\nt stdout F b\n"
    (c.tail content [5, 17, 26]).logs = (c.emission content).logs :=
  (tail_logs_eq (c := ⟨fun _ => some 7, (), 20⟩) (by decide) (by decide) (by decide)).2 (by decide +kernel)

example : ((⟨fun _ => some 7, (), 20⟩ : Source Unit).emission (ascii "t stdout P a\nt stdout F b\n")).logs.map (·.body) =
    [ascii "ab"] := by decide +kernel

end Source

end Scry.Agent
