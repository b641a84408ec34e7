import Scry.Cluster.Consume

/-! # Incremental polling

`poll_once` on one prefix with a cursor, in steps between which events are applied.
-/

open Scry.Lib Scry.Block Scry.Catalog

namespace Scry.Cluster

open List

/-! ## Cursors -/

/-- A partition `<signal>/<yyyy>/<mm>/<dd>/<writer_id>/`. -/
structure Prefix where
  signal : SignalName
  writerId : Uuid
  date : Nat
  deriving DecidableEq

def prefixOf (m : BlockMeta) : Prefix := ⟨m.signal, m.writerId, formatDate m.tsMinUnixNano⟩

def getCursor (c : Catalog) (p : Prefix) : Option Uuid :=
  (c.pollCursors.lookup (p.signal, p.writerId, p.date)).map Cursor.highestUuid

def advancePrefix (c : Catalog) (p : Prefix) (u : Uuid) : Catalog :=
  c.advanceCursor p.signal p.writerId p.date u

/-- The time of a version 7 UUID: the 48 bits above the other 80. -/
def uuidMillis (u : Uuid) : Nat := u / 2 ^ 80

def raised (h u : Uuid) : Uuid :=
  if uuidVersion u = 7 ∧ (h < u ∨ uuidVersion h ≠ 7) then u else h

/-- The smallest UUID of the millisecond that the listing starts from. -/
def lookbackOffset (cursor : Uuid) (windowStartMs : Nat) : Option Uuid :=
  if uuidVersion cursor ≠ 7 then none else some (min (uuidMillis cursor) windowStartMs * 2 ^ 80)

/-- A key is longer than the bare UUID in `offset`. -/
def metaLocationsAfter (keys : List Uuid) : Option Uuid → List Uuid
  | none => keys
  | some offset => keys.filter fun u => offset ≤ u

/-! ## A pass -/

/-- What became of a GET. A sidecar that parses agrees with its key. -/
inductive Fetched where
  | notFound
  | failed
  | unparseable
  | parsed (m : BlockMeta)
  deriving DecidableEq

/-- `keys`, what the bucket held, and `mark`, the length of `since` at the start, are not in the source. -/
inductive Pass where
  | started (head : Uuid) (windowStartMs : Nat) (mark : Nat)
  | listed (keys locations : List Uuid)
  | fetching (toFetch : List Uuid) (high : Option Uuid) (poisoned : Bool) (skipping : List Uuid)
  deriving DecidableEq

/-- `skipped` is what the last pass listed and did not insert; `since` has its first cursor and the events
after it. -/
structure Poller where
  catalog : Catalog
  pass : Option Pass
  skipped : List Uuid
  since : List Uuid

inductive PollAction where
  | event (e : BlockEvent) (now : Nat)
  | start (nowMs lookbackMs : Nat)
  | list (keys : List Uuid)
  | probe
  | respond (u : Uuid) (f : Fetched)
  | finish
  | abort
  deriving DecidableEq

def bumpHigh (high : Option Uuid) (u : Uuid) : Option Uuid :=
  if uuidVersion u ≠ 7 then high
  else
    match high with
    | none => some u
    | some h => if h < u then some u else some h

namespace Poller

variable (p : Prefix) (s : Poller) (e : BlockEvent) (u : Uuid)

def named : List Uuid :=
  match e.sidecar with
  | some m => if prefixOf m = p then [m.uuid] else []
  | none => []

def applyEvent (now : Nat) : Poller :=
  { s with
    catalog := (applyEventWithGrace s.catalog 0 now e).1
    since := s.since ++ named p e }

def start (nowMs lookbackMs : Nat) : Option Poller :=
  match s.pass, getCursor s.catalog p with
  | none, some head => some { s with pass := some (.started head (nowMs - lookbackMs) s.since.length) }
  | _, _ => none

def list (keys : List Uuid) : Option Poller :=
  match s.pass with
  | some (.started head windowStartMs mark) =>
    some { s with
      pass := some (.listed keys (metaLocationsAfter keys (lookbackOffset head windowStartMs)))
      since := head :: s.since.drop mark }
  | _ => none

def probe : Option Poller :=
  match s.pass with
  | some (.listed _ locations) =>
    let known := locations.filter s.catalog.hasBlock
    let toFetch := locations.filter fun u => !s.catalog.hasBlock u
    some { s with pass := some (.fetching toFetch (known.foldl bumpHigh none) false []) }
  | _ => none

/-- Only version 7 UUIDs are recorded as skipped. -/
def skip (skipping : List Uuid) : List Uuid :=
  if uuidVersion u = 7 then u :: skipping else skipping

def respond (f : Fetched) : Option Poller :=
  match s.pass with
  | some (.fetching toFetch high poisoned skipping) =>
    if u ∈ toFetch then
      let toFetch := toFetch.erase u
      match f with
      | .notFound => some { s with pass := some (.fetching toFetch high poisoned skipping) }
      | .failed => some { s with pass := some (.fetching toFetch high true (skip u skipping)) }
      | .unparseable => some { s with pass := some (.fetching toFetch high true (skip u skipping)) }
      | .parsed m =>
        if m.uuid = u ∧ prefixOf m = p then
          some { s with
            catalog := s.catalog.insertBlock m
            pass := some (.fetching toFetch (bumpHigh high m.uuid) poisoned skipping) }
        else none
    else none
  | _ => none

/-- The end of `fetch_and_apply`: a poisoned prefix keeps its cursor. -/
def finish : Option Poller :=
  match s.pass with
  | some (.fetching [] high poisoned skipping) =>
    some { s with
      catalog := match poisoned, high with
        | false, some u => advancePrefix s.catalog p u
        | _, _ => s.catalog
      pass := none
      skipped := skipping }
  | _ => none

def abort : Option Poller :=
  match s.pass with
  | none => none
  | some (.started _ _ _) => some { s with pass := none }
  | some (.listed _ _) => some { s with pass := none, skipped := [] }
  | some (.fetching _ _ _ skipping) => some { s with pass := none, skipped := skipping }

def step : PollAction → Option Poller
  | .event e now => some (s.applyEvent p e now)
  | .start nowMs lookbackMs => s.start p nowMs lookbackMs
  | .list keys => s.list keys
  | .probe => s.probe
  | .respond u f => s.respond p u f
  | .finish => s.finish p
  | .abort => s.abort

def idle (c : Catalog) : Poller := ⟨c, none, [], []⟩

/-- Every sidecar that the last pass skipped and that is still there is listed again. -/
def Relists : Prop :=
  ∀ keys locations, s.pass = some (.listed keys locations) →
    ∀ u ∈ s.skipped, u ∈ keys → u ∈ locations

def started (s : Poller) : Option (Nat × Nat) :=
  match s.pass with
  | some (.started _ windowStartMs mark) => some (windowStartMs, mark)
  | _ => none

/-- For what was skipped and is there: nothing in `since` is later, or this window reaches it. -/
def InReach : PollAction → Prop
  | .list keys => ∀ w ∈ s.started, ∀ u ∈ s.skipped, u ∈ keys →
      (∀ v ∈ s.since.take w.2, uuidVersion v = 7 → uuidMillis v ≤ uuidMillis u) ∨ w.1 ≤ uuidMillis u
  | _ => True

instance (s : Poller) : ∀ a, Decidable (s.InReach a)
  | .list keys => inferInstanceAs (Decidable (∀ w ∈ s.started, ∀ u ∈ s.skipped, u ∈ keys →
      (∀ v ∈ s.since.take w.2, uuidVersion v = 7 → uuidMillis v ≤ uuidMillis u) ∨ w.1 ≤ uuidMillis u))
  | .event _ _ => isTrue trivial
  | .start _ _ => isTrue trivial
  | .probe => isTrue trivial
  | .respond _ _ => isTrue trivial
  | .finish => isTrue trivial
  | .abort => isTrue trivial

end Poller

/-! ## What moves a cursor -/

section Cursors
variable {c : Catalog} {p : Prefix} {h u : Uuid}

theorem getCursor_advance (hc : getCursor c p = some h) (q : Prefix) (u : Uuid) :
    getCursor (advancePrefix c q u) p = some (if q = p then raised h u else h) := by
  obtain ⟨row, hrow, rfl⟩ := Option.map_eq_some_iff.mp hc
  have hkey := Table.key_of_lookup hrow
  unfold advancePrefix advanceCursor
  by_cases hver : uuidVersion u = 7
  · rw [if_neg (not_not.mpr hver), getCursor, Table.lookup_updateWhere, Table.lookup_insertIgnore, hrow,
      Option.some_or, Option.map_some, Option.map_some, Option.some.injEq]
    by_cases hq : q = p
    · subst hq
      simp only [hkey, true_and, decide_eq_true_eq, if_true, raised, hver]
      split <;> rfl
    · have hother : row.key ≠ (q.signal, q.writerId, q.date) := by
        rw [hkey]
        rintro hsame
        apply hq
        cases q
        cases p
        cases hsame
        rfl
      simp [hother, hq]
  · rw [if_pos hver, hc]
    simp [raised, hver]

theorem pollCursors_insertBlock (c : Catalog) (m : BlockMeta) : (c.insertBlock m).pollCursors = c.pollCursors := by
  have hclaims : ∀ (l : List Uuid) (c : Catalog),
      (l.foldl (claimAncestor m) c).pollCursors = c.pollCursors := by
    intro l
    induction l with
    | nil => exact fun _ => rfl
    | cons a l ih => exact fun c => ih (claimAncestor m c a)
  rw [insertBlock, applyLineage, hclaims, advanceMetaWatermark]
  split <;> rfl

theorem getCursor_applyEvent (hc : getCursor c p = some h) (e : BlockEvent) (now : Nat) :
    getCursor (applyEventWithGrace c 0 now e).1 p = some ((Poller.named p e).foldl raised h) := by
  have hmeta : ∀ (c' : Catalog) (m : BlockMeta), c'.pollCursors = c.pollCursors →
      getCursor (advanceMetaCursor c' m) p =
        some ((if prefixOf m = p then [m.uuid] else []).foldl raised h) := by
    intro c' m hsame
    have hc' : getCursor c' p = some h := by rw [getCursor, hsame, ← hc, getCursor]
    have hmoved := getCursor_advance hc' (prefixOf m) m.uuid
    rw [show advanceMetaCursor c' m = advancePrefix c' (prefixOf m) m.uuid from rfl, hmoved]
    split <;> rfl
  cases e with
  | created m => exact hmeta _ m (pollCursors_insertBlock c m)
  | superseded inputs m eligible => exact hmeta _ m (pollCursors_insertBlock c m)
  | softDeleted uuids deletedAt eligible => exact hc
  | deleted uuids => exact hc

theorem mem_metaLocationsAfter {keys : List Uuid} {head windowStartMs : Nat} (hu : u ∈ keys) :
    u ∈ metaLocationsAfter keys (lookbackOffset head windowStartMs) ↔
      ¬ (uuidVersion head = 7 ∧ uuidMillis u < uuidMillis head) ∨ windowStartMs ≤ uuidMillis u := by
  unfold lookbackOffset
  by_cases hver : uuidVersion head = 7
  · rw [if_neg (not_not.mpr hver), metaLocationsAfter, mem_filter, decide_eq_true_eq,
      ← Nat.le_div_iff_mul_le (Nat.two_pow_pos 80), min_le_iff, hver]
    change u ∈ keys ∧ (uuidMillis head ≤ uuidMillis u ∨ windowStartMs ≤ uuidMillis u) ↔ _
    simp [hu]
  · rw [if_pos hver, metaLocationsAfter]
    simp [hu, hver]

end Cursors

/-! ## The highest time reached -/

def TracksListing (h : Uuid) (since : List Uuid) : Prop :=
  ∀ t, (uuidVersion h = 7 ∧ t < uuidMillis h) ↔ ∃ v ∈ since, uuidVersion v = 7 ∧ t < uuidMillis v

section TracksListing
variable {h head u : Uuid} {since later : List Uuid}

theorem uuidMillis_le (hle : u ≤ h) : uuidMillis u ≤ uuidMillis h := Nat.div_le_div_right hle

theorem TracksListing.raise (htracks : TracksListing h since) (u : Uuid) : TracksListing (raised h u) (since ++ [u]) := by
  intro t
  have hsince : (∃ v ∈ since ++ [u], uuidVersion v = 7 ∧ t < uuidMillis v) ↔
      (uuidVersion h = 7 ∧ t < uuidMillis h) ∨ (uuidVersion u = 7 ∧ t < uuidMillis u) := by
    simp only [mem_append, mem_singleton, or_and_right, exists_or, exists_eq_left, ← htracks t]
  rw [hsince]
  unfold raised
  by_cases hu : uuidVersion u = 7
  · by_cases hh : uuidVersion h = 7
    · by_cases hlt : h < u
      · have := uuidMillis_le (Nat.le_of_lt hlt)
        simp only [hu, hh, hlt, true_and, true_or, if_true]
        omega
      · have := uuidMillis_le (Nat.le_of_not_lt hlt)
        simp only [hu, hh, hlt, true_and, ne_eq, not_true_eq_false, or_self, if_false]
        omega
    · simp [hu, hh]
  · simp [hu]

theorem TracksListing.raise_all (htracks : TracksListing h since) (us : List Uuid) :
    TracksListing (us.foldl raised h) (since ++ us) := by
  induction us generalizing h since with
  | nil => simpa using htracks
  | cons u us ih =>
    have := ih (htracks.raise u)
    rwa [append_assoc] at this

theorem TracksListing.trans (hhead : TracksListing head since) (htracks : TracksListing h (head :: later)) :
    TracksListing h (since ++ later) := by
  intro t
  rw [htracks t]
  simp only [mem_cons, mem_append, or_and_right, exists_or, exists_eq_left, hhead t]

end TracksListing

namespace Poller

variable {p : Prefix} {s s' : Poller} {a : PollAction}

/-- While a sidecar is skipped, nothing but events has moved the cursor. -/
def Sound (p : Prefix) (s : Poller) : Prop :=
  ∃ h, getCursor s.catalog p = some h ∧
    match s.pass with
    | none => s.skipped ≠ [] → TracksListing h s.since
    | some (.started head _ mark) => mark ≤ s.since.length ∧
        (s.skipped ≠ [] → TracksListing head (s.since.take mark)) ∧ TracksListing h (head :: s.since.drop mark)
    | some (.listed _ _) => TracksListing h s.since
    | some (.fetching _ _ poisoned skipping) => TracksListing h s.since ∧ (skipping ≠ [] → poisoned = true)

theorem Sound.applyEvent (hs : Sound p s) (e : BlockEvent) (now : Nat) : Sound p (s.applyEvent p e now) := by
  obtain ⟨h, hcurs, hpass⟩ := hs
  refine ⟨_, getCursor_applyEvent hcurs e now, ?_⟩
  unfold Poller.applyEvent
  dsimp only
  cases hp : s.pass with
  | none =>
    rw [hp] at hpass
    exact fun hskip => (hpass hskip).raise_all _
  | some pass =>
    rw [hp] at hpass
    cases pass with
    | started head windowStartMs mark =>
      obtain ⟨hmark, hhead, htracks⟩ := hpass
      refine ⟨?_, ?_, ?_⟩
      · rw [length_append]
        omega
      · rw [take_append_of_le_length hmark]
        exact hhead
      · rw [drop_append_of_le_length hmark, ← cons_append]
        exact htracks.raise_all _
    | listed keys locations => exact hpass.raise_all _
    | fetching toFetch high poisoned skipping => exact ⟨hpass.1.raise_all _, hpass.2⟩

theorem Sound.step (hs : Sound p s) (hstep : s.step p a = some s') : Sound p s' := by
  cases a with
  | event e now =>
    cases hstep
    exact hs.applyEvent e now
  | start nowMs lookbackMs =>
    obtain ⟨h, hcurs, hpass⟩ := hs
    simp only [Poller.step, Poller.start] at hstep
    split at hstep
    next head hp hhead =>
      cases hstep
      rw [hp] at hpass
      rw [hcurs, Option.some.injEq] at hhead
      subst hhead
      refine ⟨h, hcurs, Nat.le_refl _, ?_, ?_⟩
      · rw [take_length]
        exact hpass
      · rw [drop_length]
        exact fun t => by simp
    next => cases hstep
  | list keys =>
    obtain ⟨h, hcurs, hpass⟩ := hs
    simp only [Poller.step, Poller.list] at hstep
    split at hstep
    next head windowStartMs mark hp =>
      cases hstep
      rw [hp] at hpass
      exact ⟨h, hcurs, hpass.2.2⟩
    next => cases hstep
  | probe =>
    obtain ⟨h, hcurs, hpass⟩ := hs
    simp only [Poller.step, Poller.probe] at hstep
    split at hstep
    next keys locations hp =>
      cases hstep
      rw [hp] at hpass
      exact ⟨h, hcurs, hpass, fun hne => absurd rfl hne⟩
    next => cases hstep
  | respond u f =>
    obtain ⟨h, hcurs, hpass⟩ := hs
    simp only [Poller.step, Poller.respond] at hstep
    split at hstep
    next toFetch high poisoned skipping hp =>
      rw [hp] at hpass
      split at hstep
      · cases f with
        | notFound =>
          cases hstep
          exact ⟨h, hcurs, hpass⟩
        | failed | unparseable =>
          cases hstep
          exact ⟨h, hcurs, hpass.1, fun _ => rfl⟩
        | parsed m =>
          dsimp only at hstep
          split at hstep
          · cases hstep
            exact ⟨h, by rwa [getCursor, pollCursors_insertBlock], hpass⟩
          · cases hstep
      · cases hstep
    next => cases hstep
  | finish =>
    obtain ⟨h, hcurs, hpass⟩ := hs
    simp only [Poller.step, Poller.finish] at hstep
    split at hstep
    next high poisoned skipping hp =>
      cases hstep
      rw [hp] at hpass
      -- The cursor of a poisoned prefix stays; otherwise nothing was skipped.
      cases poisoned with
      | true => exact ⟨h, hcurs, fun _ => hpass.1⟩
      | false =>
        have hnone : skipping = [] := by
          by_contra hne
          cases hpass.2 hne
        cases high with
        | none => exact ⟨h, hcurs, fun hne => absurd hnone hne⟩
        | some u => exact ⟨_, getCursor_advance hcurs p u, fun hne => absurd hnone hne⟩
    next => cases hstep
  | abort =>
    obtain ⟨h, hcurs, hpass⟩ := hs
    simp only [Poller.step, Poller.abort] at hstep
    split at hstep
    next => cases hstep
    next head windowStartMs mark hp =>
      cases hstep
      rw [hp] at hpass
      refine ⟨h, hcurs, ?_⟩
      intro hskip
      have htracks := (hpass.2.1 hskip).trans hpass.2.2
      rwa [take_append_drop] at htracks
    next keys locations hp =>
      cases hstep
      exact ⟨h, hcurs, fun hne => absurd rfl hne⟩
    next toFetch high poisoned skipping hp =>
      cases hstep
      rw [hp] at hpass
      exact ⟨h, hcurs, fun _ => hpass.1⟩

theorem not_listed_of_step (hstep : s.step p a = some s') (hevent : ∀ e now, a ≠ .event e now)
    (hlist : ∀ keys, a ≠ .list keys) (keys locations : List Uuid) : s'.pass ≠ some (.listed keys locations) := by
  cases a with
  | event e now => exact absurd rfl (hevent e now)
  | list keys => exact absurd rfl (hlist keys)
  | start | probe | respond | finish | abort =>
    simp only [Poller.step, Poller.start, Poller.probe, Poller.respond, Poller.finish, Poller.abort] at hstep
    grind

theorem relists_step_iff (hs : Sound p s) (hrelists : Relists s) (hstep : s.step p a = some s') :
    Relists s' ↔ s.InReach a := by
  cases a with
  | event e now =>
    cases hstep
    exact iff_of_true hrelists trivial
  | list keys =>
    simp only [Poller.step, Poller.list] at hstep
    split at hstep
    next head windowStartMs mark hp =>
      cases hstep
      obtain ⟨h, _, hpass⟩ := hs
      rw [hp] at hpass
      have hreach : s.InReach (.list keys) ↔ ∀ u ∈ s.skipped, u ∈ keys →
          (∀ v ∈ s.since.take mark, uuidVersion v = 7 → uuidMillis v ≤ uuidMillis u) ∨
            windowStartMs ≤ uuidMillis u := by
        simp [InReach, started, hp]
      have hlist : Relists { s with
          pass := some (.listed keys (metaLocationsAfter keys (lookbackOffset head windowStartMs)))
          since := head :: s.since.drop mark } ↔ ∀ u ∈ s.skipped, u ∈ keys →
            u ∈ metaLocationsAfter keys (lookbackOffset head windowStartMs) := by
        constructor
        · intro hall u hu
          exact hall _ _ rfl u hu
        · rintro hall _ _ ⟨⟩ u hu
          exact hall u hu
      rw [hreach, hlist]
      refine forall₂_congr fun u hu => forall_congr' fun hkey => ?_
      have htracks := hpass.2.1 (ne_nil_of_mem hu) (uuidMillis u)
      rw [mem_metaLocationsAfter hkey, htracks]
      simp only [not_exists, not_and, Nat.not_lt]
    next => cases hstep
  | start | probe | respond | finish | abort =>
    have hnot := not_listed_of_step hstep nofun nofun
    exact iff_of_true (fun keys locations hlisted => absurd hlisted (hnot keys locations)) trivial

/-- **Polling lists again what it skipped exactly while it stays in reach** of the window or of the cursor and
the events since. -/
theorem relists_iff (p : Prefix) (c : Catalog) (hcursor : (getCursor c p).isSome = true) (acts : List PollAction)
    (s : Poller) (hrun : run (step p) (idle c) acts = some s) : (∀ before s', before <+: acts → run (step p) (idle c)
    before = some s' → Relists s') ↔ Meets (step p) InReach (idle c) acts := by
  have hsound : Sound p (idle c) := by
    obtain ⟨h, hh⟩ := Option.isSome_iff_exists.mp hcursor
    exact ⟨h, hh, fun hne => absurd rfl hne⟩
  refine forall_prefix_iff_meets (A := fun _ => True) ?_ ?_ hsound nofun (fun _ _ => trivial) hrun
  · intro s a s' hs _ hstep
    exact hs.step hstep
  · intro s a s' hs _ hrelists hstep
    exact relists_step_iff hs hrelists hstep

/-! ## A failed GET -/

def v7 (ms n : Nat) : Uuid := ms * 2 ^ 80 + 7 * 2 ^ 76 + n

def samplePrefix : Prefix := ⟨.logs, 9, 0⟩

def cursorAt (ms : Nat) : Catalog := advancePrefix .empty samplePrefix (v7 ms 0)

def failedPass (nowMs : Nat) (u : Uuid) : List PollAction :=
  [.start nowMs 100, .list [u], .probe, .respond u .failed, .finish]

def nextListing (nowMs : Nat) (u : Uuid) : List PollAction := [.start nowMs 100, .list [u]]

theorem relists_within_window : ∃ s, run (step samplePrefix) (idle (cursorAt 100))
    (failedPass 120 (v7 50 1) ++ nextListing 130 (v7 50 1)) = some s ∧ Relists s := by
  have hsome : (run (step samplePrefix) (idle (cursorAt 100))
      (failedPass 120 (v7 50 1) ++ nextListing 130 (v7 50 1))).isSome = true := by
    decide +kernel
  obtain ⟨s, hs⟩ := Option.isSome_iff_exists.mp hsome
  have hmeets : Meets (step samplePrefix) InReach (idle (cursorAt 100))
      (failedPass 120 (v7 50 1) ++ nextListing 130 (v7 50 1)) := by
    decide +kernel
  exact ⟨s, hs, (relists_iff samplePrefix (cursorAt 100) (by decide +kernel) _ s hs).mpr hmeets _ s
    prefix_rfl hs⟩

def laterBlock : BlockMeta where
  uuid := v7 130 2
  signal := .logs
  writerId := 9
  tsMinUnixNano := 0
  tsMaxUnixNano := 0
  rowCount := 1
  byteSize := 64
  schemaVersion := 1
  level := 0
  compactedFrom := []
  walSegMax := none
  walShard := none

def outlook (s : Poller) (u : Uuid) : List Uuid × Option Bool :=
  (s.skipped, match s.pass with
    | some (.listed _ locations) => some (locations.contains u)
    | _ => none)

/-- The window moves past a late commit; an event moves the cursor past a skipped one. -/
theorem skipped_then_hidden : (run (step samplePrefix) (idle (cursorAt 100))
    (failedPass 120 (v7 50 1) ++ nextListing 200 (v7 50 1))).map (outlook · (v7 50 1)) = some ([v7 50 1], some false)
    ∧ (run (step samplePrefix) (idle (cursorAt 10)) (failedPass 120 (v7 15 1) ++ [.event (.created laterBlock) 0] ++
    nextListing 140 (v7 15 1))).map (outlook · (v7 15 1)) = some ([v7 15 1], some false) := by
  decide +kernel

end Poller

end Scry.Cluster
