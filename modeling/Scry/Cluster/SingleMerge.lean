import Scry.Cluster.Commits
import Scry.Cluster.Stale

/-! # No block is merged twice

As long as the block of an input is in the bucket and its row is live, a commit that used it has a descendant
among the sidecars that the task still has to read. It is lost only when its `GET` finds nothing.
-/

open Scry.Lib Scry.Block Scry.Catalog Scry.Compact

namespace Scry.Cluster

open Option Fleet

open List

def keyOf (m : BlockMeta) : LeaseKey := ⟨m.signal, formatDate m.tsMinUnixNano, m.level⟩

/-- Merged already, with its sidecar still there. -/
def Open (s : Fleet) (u : Uuid) : Prop := (∃ m ∈ s.bucket, m.uuid = u) ∧ Consumed s.log u

/-- For a merged input there is a sidecar that tells, and the task still waits for it. -/
def Unheard (s : Fleet) (t : Task) (waiting : BlockMeta → Prop) : Prop :=
  ∀ u ∈ t.inputUuids, Open s u → Live (s.catalogs t.node) u →
    ∃ m ∈ s.history, waiting m ∧ u ∈ m.compactedFrom ∧ flags (s.catalogs t.node) m.uuid = none

def OutputOf (U : List BlockMeta) (t : Task) (output : BlockMeta) : Prop :=
  ∃ metas ⊆ U, metas.map BlockMeta.uuid = t.inputUuids ∧
    compactedAncestorClosure output.uuid metas = .ok output.compactedFrom ∧
    ∀ i ∈ metas, SamePrefix i output

def PhaseShape (s : Fleet) (t : Task) : Phase → Prop
  | .fetching _ fetched => fetched ⊆ s.history
  | .loading _ toLoad inputMetas => inputMetas ⊆ s.history ∧
      inputMetas.map BlockMeta.uuid ++ (toLoad.map fun e => e.blockMeta.uuid) = t.inputUuids
  | .merged output => OutputOf s.history t output
  | .putting output => OutputOf s.history t output
  | .abandoned output => OutputOf s.history t output
  | .committed output => ⟨output, t.inputUuids⟩ ∈ s.log
  | _ => True

/-- Why inputs are not merged twice, while no other holder has listed. -/
def PhaseSafe (s : Fleet) (t : Task) : Phase → Prop
  | .listed locations => Unheard s t fun m => location m ∈ locations
  | .fetching toFetch fetched => Unheard s t fun m => location m ∈ toFetch ∨ m ∈ fetched
  | .reconciled => ∀ u ∈ t.inputUuids, Open s u → ¬ Live (s.catalogs t.node) u
  | .validated => ∀ u ∈ t.inputUuids, ¬ Open s u
  | .loading _ toLoad inputMetas => (∀ e ∈ toLoad, ¬ Open s e.blockMeta.uuid) ∧
      ∀ m ∈ inputMetas, ¬ Consumed s.log m.uuid
  | .merged _ => ∀ u ∈ t.inputUuids, ¬ Consumed s.log u
  | .putting _ => ∀ u ∈ t.inputUuids, ¬ Consumed s.log u
  | .abandoned _ => ∀ u ∈ t.inputUuids, ¬ Consumed s.log u
  | _ => True

def Preparing : Phase → Prop
  | .listed _ => True
  | .fetching _ _ => True
  | .reconciled => True
  | .validated => True
  | .loading _ _ _ => True
  | .merged _ => True
  | _ => False

structure TaskSound (s : Fleet) (token : Nat) (t : Task) : Prop where
  entries : ∀ e ∈ t.plan.inputs, ∃ m ∈ s.history, e = metaEntry m ∧ keyOf m = t.key
  known : ∀ u ∈ t.inputUuids, ∀ m ∈ s.bucket, m.uuid = u → flags (s.catalogs t.node) u ≠ none
  listing : Preparing t.phase → s.holder t.key = some token → s.lister t.key = some token
  shape : PhaseShape s t t.phase
  safe : s.lister t.key = some token → PhaseSafe s t t.phase

structure Sound (s : Fleet) : Prop where
  log : Wellformed s.log
  exclusive : Exclusive s.log
  bucket : s.bucket ⊆ s.history
  maximal : ∀ m, Maximal s.log m → m ∈ s.bucket
  catalogs : ∀ n, Tracks s.history (s.catalogs n)
  tasks : ∀ token t, s.tasks[token]? = some t → TaskSound s token t

theorem sound_init : Sound init where
  log := .nil
  exclusive := by simp [Exclusive, init]
  bucket := List.Subset.refl _
  maximal m hm := absurd hm.1 not_mem_nil
  catalogs _ := tracks_empty _
  tasks token t ht := by simp [init] at ht

variable {s s' : Fleet} {token : Nat} {t : Task}

/-! ## What a task does not see -/

theorem OutputOf.mono {U V : List BlockMeta} {output : BlockMeta} (h : OutputOf U t output)
    (hsub : U ⊆ V) : OutputOf V t output := by
  obtain ⟨metas, hmetas, hrest⟩ := h
  exact ⟨metas, fun m hm => hsub (hmetas hm), hrest⟩

variable {e : CatalogEntry}

variable {phase : Phase}

theorem PhaseShape.mono (h : PhaseShape s t phase) (hlog : s.log ⊆ s'.log) : PhaseShape s' t phase := by
  have hhist : s.history ⊆ s'.history := map_subset _ hlog
  cases phase with
  | fetching toFetch fetched => exact fun m hm => hhist (h hm)
  | loading token toLoad inputMetas => exact ⟨fun m hm => hhist (h.1 hm), h.2⟩
  | merged output => exact OutputOf.mono h hhist
  | putting output => exact OutputOf.mono h hhist
  | abandoned output => exact OutputOf.mono h hhist
  | committed output => exact hlog h
  | _ => trivial

theorem PhaseSafe.frame (h : PhaseSafe s t phase) (hshape : PhaseShape s t phase)
    (hopen : ∀ u ∈ t.inputUuids, Open s' u → Open s u) (hlive : ∀ u ∈ t.inputUuids, Open s u → Live
    (s'.catalogs t.node) u → Live (s.catalogs t.node) u) (hunheard : ∀ waiting, Unheard s t waiting → Unheard s' t
    waiting) (hcons : ∀ u ∈ t.inputUuids, Consumed s'.log u → Consumed s.log u) : PhaseSafe s' t phase := by
  cases phase with
  | listed locations => exact hunheard _ h
  | fetching toFetch fetched => exact hunheard _ h
  | reconciled =>
    intro u hu ho hlv
    have ho' := hopen u hu ho
    exact h u hu ho' (hlive u hu ho' hlv)
  | validated => exact fun u hu ho => h u hu (hopen u hu ho)
  | loading token toLoad inputMetas =>
    constructor
    · intro e he ho
      refine h.1 e he (hopen _ ?_ ho)
      rw [← hshape.2]
      exact mem_append_right _ (mem_map_of_mem he)
    · intro m hm hc
      refine h.2 m hm (hcons _ ?_ hc)
      rw [← hshape.2]
      exact mem_append_left _ (mem_map_of_mem hm)
  | merged output => exact fun u hu hc => h u hu (hcons u hu hc)
  | putting output => exact fun u hu hc => h u hu (hcons u hu hc)
  | abandoned output => exact fun u hu hc => h u hu (hcons u hu hc)
  | _ => trivial

section

variable (h : TaskSound s token t)
include h

theorem TaskSound.frame (hlog : s.log ⊆ s'.log)
    (hbucket : ∀ m ∈ s'.bucket, m.uuid ∈ t.inputUuids → m ∈ s.bucket)
    (hcat : Learns s.history s.bucket (s.catalogs t.node) (s'.catalogs t.node))
    (hlister : s'.lister t.key = some token → s.lister t.key = some token)
    (hholder : Preparing t.phase → s'.holder t.key = some token → s'.lister t.key = some token)
    (hcons : t.phase ≠ .finished → s'.lister t.key = some token → ∀ u ∈ t.inputUuids,
      Consumed s'.log u → Consumed s.log u) : TaskSound s' token t := by
  have hhist : s.history ⊆ s'.history := map_subset _ hlog
  -- A row of an input is there, so it is not listed later unless it is listed now.
  have hlive : ∀ u ∈ t.inputUuids, Open s u → Live (s'.catalogs t.node) u →
      Live (s.catalogs t.node) u := by
    rintro u hu ⟨⟨m, hm, hmu⟩, -⟩ hl
    exact hcat.hides u (h.known u hu m hm hmu) hl
  constructor
  case entries =>
    intro e he
    obtain ⟨m, hm, hem⟩ := h.entries e he
    exact ⟨m, hhist hm, hem⟩
  case known =>
    rintro u hu m hm rfl
    have hmb := hbucket m hm hu
    exact hcat.keeps m hmb (h.known m.uuid hu m hmb rfl)
  case listing => exact hholder
  case shape => exact h.shape.mono hlog
  case safe =>
    intro hl
    by_cases hf : t.phase = .finished
    · rw [hf]
      trivial
    have hopen : ∀ u ∈ t.inputUuids, Open s' u → Open s u := by
      rintro u hu ⟨⟨m, hm, rfl⟩, hc⟩
      exact ⟨⟨m, hbucket m hm hu, rfl⟩, hcons hf hl _ hu hc⟩
    refine (h.safe (hlister hl)).frame h.shape hopen hlive ?_ (hcons hf hl)
    intro waiting hun u hu ho hlv
    have ho' := hopen u hu ho
    obtain ⟨m, hm, hw, hmem, hnone⟩ := hun u hu ho' (hlive u hu ho' hlv)
    refine ⟨m, hhist hm, hw, hmem, ?_⟩
    by_contra hne
    obtain ⟨⟨b, hb, hbu⟩, -⟩ := ho'
    exact hcat.claims m hm hnone hne u hmem (h.known u hu b hb hbu) hlv

theorem TaskSound.quiet (hlog : s'.log = s.log) (hbucket : s'.bucket ⊆ s.bucket)
    (hlister : s'.lister = s.lister) (hholder : ∀ k, s'.holder k = some token → s.holder k = some token)
    (hcat : Learns s.history s.bucket (s.catalogs t.node) (s'.catalogs t.node)) : TaskSound s' token t := by
  refine h.frame ?_ ?_ hcat ?_ ?_ ?_
  · rw [hlog]
    exact List.Subset.refl _
  · intro m hm _
    exact hbucket hm
  · rw [hlister]
    exact id
  · intro hpast hh
    rw [hlister]
    exact h.listing hpast (hholder _ hh)
  · intro _ _ u _ hc
    rwa [hlog] at hc

theorem TaskSound.withTasks (tasks : List Task) :
    TaskSound { s with tasks := tasks } token t :=
  h.quiet rfl (List.Subset.refl _) rfl (fun _ hh => hh) (Learns.refl _ _ _)

theorem TaskSound.at_phase (hp : t.phase = phase) :
    (Preparing phase → s.holder t.key = some token → s.lister t.key = some token) ∧ PhaseShape s t phase ∧
      (s.lister t.key = some token → PhaseSafe s t phase) := by
  subst hp
  exact ⟨h.listing, h.shape, h.safe⟩

theorem TaskSound.setPhase (hlist : Preparing phase → s.holder t.key = some token →
    s.lister t.key = some token) (hshape : PhaseShape s t phase) (hsafe : s.lister t.key = some token → PhaseSafe s t
    phase) : TaskSound s token { t with phase := phase } :=
  ⟨h.entries, h.known, hlist, hshape, hsafe⟩

end

/-! ## Parts of steps -/

theorem Sound.setTask (h : Sound s) (ht : TaskSound s token t) : Sound { s with tasks := s.tasks.set token t } := by
  refine { h with tasks := fun token' t' ht' => ?_ }
  rw [List.getElem?_set] at ht'
  split at ht'
  next heq =>
    obtain ⟨-, ⟨⟩⟩ := ite_none_right_eq_some.mp ht'
    subst heq
    exact ht.withTasks _
  next => exact (h.tasks token' t' ht').withTasks _

theorem Sound.setPhase (h : Sound s) (ht : TaskSound s token t) (hlist : Preparing phase → s.holder t.key = some
    token → s.lister t.key = some token) (hshape : PhaseShape s t phase)
    (hsafe : s.lister t.key = some token → PhaseSafe s t phase) : Sound (s.setPhase token t phase) :=
  h.setTask (ht.setPhase hlist hshape hsafe)

variable {n : Nat}

theorem Sound.setCatalog (h : Sound s) {c : Catalog} (htr : Tracks s.history c)
    (hl : Learns s.history s.bucket (s.catalogs n) c) : Sound (s.setCatalog n c) := by
  refine { h with catalogs := fun k => ?_, tasks := fun token t ht => ?_ }
  · change Tracks s.history (Function.update s.catalogs n c k)
    by_cases hk : k = n
    · subst hk
      rwa [Function.update_self]
    · rw [Function.update_of_ne hk]
      exact h.catalogs k
  · refine (h.tasks token t ht).quiet rfl (List.Subset.refl _) rfl (fun _ hh => hh) ?_
    change Learns s.history s.bucket (s.catalogs t.node) (Function.update s.catalogs n c t.node)
    by_cases hk : t.node = n
    · subst hk
      rwa [Function.update_self]
    · rw [Function.update_of_ne hk]
      exact Learns.refl _ _ _

theorem Sound.setHolder (h : Sound s) {holder : LeaseKey → Option Nat}
    (hsub : ∀ k token, holder k = some token → s.holder k = some token) : Sound { s with holder := holder } :=
  { h with
    tasks := fun token t ht => (h.tasks token t ht).quiet rfl (List.Subset.refl _) rfl
      (fun k hh => hsub k token hh) (Learns.refl _ _ _) }

theorem of_update_none {α β : Type} [DecidableEq α] {f : α → Option β} {a k : α} {b : β}
    (h : Function.update f a none k = some b) : f k = some b := by
  by_cases hk : k = a
  · subst hk
    simp at h
  · simpa [hk] using h

theorem Sound.release (h : Sound s) (token : Nat) (key : LeaseKey) : Sound (s.release token key) := by
  refine h.setHolder ?_
  intro k token' hh
  split at hh
  · exact of_update_none hh
  · exact hh

theorem Sound.finish (h : Sound s) (ht : TaskSound s token t) : Sound (s.finish token t) := by
  have hset : Sound (s.setPhase token t .finished) :=
    h.setPhase ht (fun hprep => hprep.elim) trivial fun _ => trivial
  exact hset.release token t.key

variable {u : Uuid}

theorem Sound.deleteObjects (h : Sound s) {x : BlockMeta} (hx : x ∈ s.history)
    (hclaim : u ∈ x.compactedFrom) : Sound { s with bucket := s.bucket.filter fun m => m.uuid ≠ u } := by
  refine { h with
    bucket := fun m hm => h.bucket (mem_of_mem_filter hm)
    maximal := fun m hm => mem_filter.mpr ⟨h.maximal m hm, ?_⟩
    tasks := fun token t ht => (h.tasks token t ht).quiet rfl (filter_subset_self _) rfl
      (fun _ hh => hh) (Learns.refl _ _ _) }
  rw [decide_eq_true_eq]
  rintro rfl
  exact hm.2 x hx hclaim

theorem Sound.commit (h : Sound s) {x : Commit} (hw : Wellformed (x :: s.log)) (hfresh : s.UuidFresh x.block.uuid)
    (hex : ∀ u ∈ x.inputs, ¬ Consumed s.log u) (htasks : ∀ token t, s.tasks[token]? = some t → t.phase ≠ .finished →
    s.lister t.key = some token → ∀ u ∈ t.inputUuids, u ∉ x.inputs) : Sound (s.commit x) := by
  refine ⟨hw, ?_, ?_, ?_, ?_, ?_⟩
  · intro y hy z hz u huy huz
    rcases mem_cons.mp hy with rfl | hylog
    · rcases mem_cons.mp hz with rfl | hzlog
      · rfl
      · exact absurd ⟨z, hzlog, huz⟩ (hex u huy)
    · rcases mem_cons.mp hz with rfl | hzlog
      · exact absurd ⟨y, hylog, huy⟩ (hex u huz)
      · exact h.exclusive y hylog z hzlog u huy huz
  · intro m hm
    rcases mem_cons.mp hm with rfl | hm
    · exact mem_cons_self
    · exact mem_cons_of_mem _ (h.bucket hm)
  · rintro m ⟨hm, hmax⟩
    rcases mem_cons.mp hm with rfl | hmold
    · exact mem_cons_self
    · exact mem_cons_of_mem _
        (h.maximal m ⟨hmold, fun z hz => hmax z (mem_cons_of_mem _ hz)⟩)
  · intro n
    refine (h.catalogs n).mono (fun m hm => mem_cons_of_mem _ hm) ?_
    intro m hm hmold b hb
    rcases mem_cons.mp hm with rfl | hm
    · obtain ⟨y, hy, rfl⟩ := mem_map.mp hb
      exact hfresh y hy
    · exact absurd hm hmold
  · intro token t ht
    have hts := h.tasks token t ht
    refine hts.frame (fun y hy => mem_cons_of_mem _ hy) ?_ (Learns.refl _ _ _) id hts.listing ?_
    · intro m hm hu
      rcases mem_cons.mp hm with rfl | hm
      · obtain ⟨e, he, heu⟩ := mem_map.mp hu
        obtain ⟨b, hb, rfl, -⟩ := hts.entries e he
        obtain ⟨y, hy, rfl⟩ := mem_map.mp hb
        exact absurd heu (hfresh y hy)
      · exact hm
    · rintro hf hl u hu ⟨y, hy, huy⟩
      rcases mem_cons.mp hy with rfl | hylog
      · exact absurd huy (htasks token t ht hf hl u hu)
      · exact ⟨y, hylog, huy⟩

/-! ## Steps of the nodes -/

theorem superseded_of_pending {c : Catalog} {now : Nat}
    (h : u ∈ (c.listPendingReaps now).map fun p => p.entry.blockMeta.uuid) : flags c u ≠ none ∧ ¬ Live c u := by
  obtain ⟨p, hp, rfl⟩ := mem_map.mp h
  obtain ⟨r, hr, hpend⟩ := mem_filterMap.mp hp
  rw [mem_insertionSort] at hr
  have hlook := Table.lookup_of_mem hr
  have hsup : p.entry.blockMeta.uuid = r.uuid ∧ r.superseded = true := by
    unfold Row.pendingReap at hpend
    split at hpend
    · split at hpend
      · rename_i hdue
        cases hpend
        exact ⟨rfl, hdue.1⟩
      · cases hpend
    · cases hpend
  rw [hsup.1]
  unfold Live flags
  rw [hlook]
  simp [hsup.2]

variable {m : BlockMeta}

theorem Sound.write (h : Sound s) (hs : s.write m = some s') : Sound s' := by
  obtain ⟨hok, ⟨⟩⟩ := ite_none_right_eq_some.mp hs
  refine h.commit (.write h.log hok.2.2 hok.2.1) hok.2.2 ?_ ?_
  · intro u hu
    cases hu
  · intro token t _ _ _ u _
    exact not_mem_nil

theorem Sound.poll (h : Sound s) (hs : s.poll n m = some s') : Sound s' := by
  obtain ⟨hm, ⟨⟩⟩ := ite_none_right_eq_some.mp hs
  have hU := h.log.closedLineage
  exact h.setCatalog ((h.catalogs n).insertBlock hU (h.bucket hm)) (learns_insertBlock hU _ _ (h.bucket hm))

theorem Sound.deliver (h : Sound s) {n grace now : Nat} {e : BlockEvent}
    (hs : s.deliver n grace now e = some s') : Sound s' := by
  obtain ⟨he, ⟨⟩⟩ := ite_none_right_eq_some.mp hs
  have hU := h.log.closedLineage
  have hev : e.OfCompaction s.history s.bucket := by
    cases e with
    | created m => exact he
    | superseded inputs m k => exact ⟨mem_map_of_mem he, h.log.inputs_subset he⟩
    | softDeleted uuids a b => exact he
    | deleted uuids => exact he
  exact h.setCatalog ((h.catalogs n).applyEvent hU hev grace now) (learns_applyEvent hU _ hev grace now)

theorem Sound.reap (h : Sound s) {n now : Nat} (hs : s.reap n now u = some s') : Sound s' := by
  obtain ⟨hpend, ⟨⟩⟩ := ite_none_right_eq_some.mp hs
  obtain ⟨hknown, hdead⟩ := superseded_of_pending hpend
  obtain ⟨x, hx, hclaim⟩ := (h.catalogs n).hidden u hknown hdead
  exact h.deleteObjects hx hclaim

theorem Sound.expire (h : Sound s) (key : LeaseKey) : Sound { s with holder := Function.update s.holder key none } :=
  h.setHolder fun _ _ => of_update_none

theorem TaskSound.crashed (h : TaskSound s token t) (n : Nat) : TaskSound s token (Fleet.crashed n t) := by
  unfold Fleet.crashed
  split
  · split
    next o hp =>
      obtain ⟨-, hshape, hsafe⟩ := h.at_phase hp
      exact h.setPhase False.elim hshape hsafe
    next o hp =>
      obtain ⟨-, hshape, hsafe⟩ := h.at_phase hp
      exact h.setPhase False.elim hshape hsafe
    next => exact h.setPhase False.elim trivial fun _ => trivial
  · exact h

theorem Sound.crash (h : Sound s) (n : Nat) : Sound { s with tasks := s.tasks.map (Fleet.crashed n) } := by
  refine { h with tasks := fun token t ht => ?_ }
  rw [List.getElem?_map] at ht
  obtain ⟨t₀, ht₀, rfl⟩ := map_eq_some_iff.mp ht
  exact ((h.tasks token t₀ ht₀).crashed n).withTasks _

theorem Sound.plan (h : Sound s) {cfg : CompactConfig} {i : Nat}
    (hs : s.plan n cfg i = some s') : Sound s' := by
  unfold Fleet.plan at hs
  split at hs
  · obtain ⟨p, hp, rfl⟩ := map_eq_some_iff.mp hs
    have hrow : ∀ e ∈ p.inputs, ∃ m ∈ s.history, e = metaEntry m ∧ keyOf m = compactionLeaseKey p ∧
        flags (s.catalogs n) m.uuid ≠ none := by
      intro e he
      obtain ⟨hmem, hsig, hdate, hlevel⟩ := input_of_plan (mem_of_getElem? hp) he
      obtain ⟨r, hr, -, rfl⟩ := (mem_listBlocks _ e).mp hmem
      have hentry : entryOf (s.catalogs n) r.uuid = some r.toEntry := by
        unfold entryOf
        rw [hr]
        rfl
      obtain ⟨m, hm, hmu, hem⟩ := (h.catalogs n).entry r.uuid r.toEntry hentry
      rw [hem] at hsig hdate hlevel
      refine ⟨m, hm, hem, ?_, ?_⟩
      · unfold keyOf compactionLeaseKey
        rw [← hsig, ← hdate, ← hlevel]
        rfl
      · unfold flags
        rw [hmu, hr]
        simp
    refine { h with tasks := fun token t ht => ?_ }
    rw [List.getElem?_append] at ht
    split at ht
    · exact (h.tasks token t ht).withTasks _
    · have hnew := mem_singleton.mp (mem_of_getElem? ht)
      subst hnew
      refine ⟨?_, ?_, False.elim, trivial, fun _ => trivial⟩
      · intro e he
        obtain ⟨m, hm, hem, hkey, -⟩ := hrow e he
        exact ⟨m, hm, hem, hkey⟩
      · intro u hu m _ _
        obtain ⟨e, he, rfl⟩ := mem_map.mp hu
        obtain ⟨m, -, rfl, -, hknown⟩ := hrow e he
        exact hknown
  · cases hs

/-! ## Steps of a task -/

def Fleet.getMisses (s : Fleet) (t : Task) (i : Nat) : Bool :=
  match t.phase with
  | .fetching toFetch _ =>
    toFetch[i]?.any fun loc =>
      (getObject s.bucket loc).isNone && !(s.catalogs t.node).hasBlock loc.uuid
  | _ => false

theorem mem_eraseIdx_of_ne {α : Type} {l : List α} {i : Nat} {x y : α} (hi : l[i]? = some y)
    (hx : x ∈ l) (hne : x ≠ y) : x ∈ l.eraseIdx i := by
  rw [mem_eraseIdx_iff_getElem?]
  obtain ⟨j, hj⟩ := mem_iff_getElem?.mp hx
  refine ⟨j, ?_, hj⟩
  rintro rfl
  rw [hi] at hj
  exact hne (some.inj hj).symm

theorem loadInput_ok {bucket : List BlockMeta} {signal : SignalName}
    (h : loadInput bucket signal e = .ok m) : m ∈ bucket ∧ m.uuid = e.blockMeta.uuid := by
  unfold loadInput at h
  split at h
  · cases h
  · rename_i m' hf
    split at h
    · cases h
    · rename_i huuid
      split at h
      · cases h
      · split at h
        · cases h
        · cases h
          exact ⟨mem_of_find?_eq_some hf, not_not.mp huuid⟩

theorem TaskSound.date_mergedMeta (hts : TaskSound s token t) (hne : t.plan.inputs ≠ []) (outputUuid : Uuid)
    (cf : List Uuid) (rowCount byteSize : Nat) : formatDate (mergedMeta t.plan outputUuid cf rowCount
    byteSize).tsMinUnixNano = t.plan.date := by
  unfold mergedMeta
  simp only
  cases hmin : (t.plan.inputs.map fun e => e.blockMeta.tsMinUnixNano).min? with
  | none =>
    rw [min?_eq_none_iff, map_eq_nil_iff] at hmin
    exact absurd hmin hne
  | some x =>
    obtain ⟨e, he, rfl⟩ := mem_map.mp (min?_mem hmin)
    obtain ⟨m, -, rfl, hkey⟩ := hts.entries e he
    exact congrArg LeaseKey.date hkey

section Act

variable (h : Sound s) (ht : s.tasks[token]? = some t)
include h

/-- A merged block has a maximal descendant in the listing, unknown to the catalog. -/
theorem Sound.unheard_list (hts : TaskSound s token t) :
    Unheard s t fun m => location m ∈ collectMetaLocations s.bucket t.plan.signal t.plan.date := by
  rintro u hu ⟨-, x, hx, hux⟩ hlive
  obtain ⟨e, he, rfl⟩ := mem_map.mp hu
  obtain ⟨b, hb, rfl, hkey⟩ := hts.entries e he
  have hclosed := h.log.closedLineage
  obtain ⟨m, hm, hmem, hmax⟩ := hclosed.exists_top (List.Subset.refl _) (mem_map_of_mem hx)
    (h.log.inputs_subset hx hux)
  refine ⟨m, hm, ?_, hmem, ?_⟩
  · obtain ⟨y, hy, rfl⟩ := mem_map.mp hm
    obtain ⟨z, hz, rfl⟩ := mem_map.mp hb
    have hshared := h.log.samePrefix hy hz hmem
    unfold collectMetaLocations
    refine mem_filter.mpr ⟨mem_map_of_mem (h.maximal _ ⟨hm, hmax⟩), ?_⟩
    unfold Task.key compactionLeaseKey keyOf at hkey
    simp only [LeaseKey.mk.injEq] at hkey
    rw [decide_eq_true_eq]
    exact ⟨hshared.1.symm.trans hkey.1, hshared.2.symm.trans hkey.2.1⟩
  · by_contra hknown
    have hmlive : Live (s.catalogs t.node) m.uuid := by
      by_contra hdead
      obtain ⟨z, hz, hclaim⟩ := (h.catalogs t.node).hidden m.uuid hknown hdead
      exact hmax z hz hclaim
    exact (h.catalogs t.node).shadowed m hm hmlive _ hmem hlive

theorem Sound.input_eq (hts : TaskSound s token t) {i : BlockMeta} (hi : i ∈ s.history) (hu : i.uuid ∈ t.inputUuids) :
    metaEntry i ∈ t.plan.inputs ∧ keyOf i = t.key := by
  obtain ⟨e, he, heu⟩ := mem_map.mp hu
  obtain ⟨m, hm, rfl, hkey⟩ := hts.entries e he
  obtain rfl := h.log.closedLineage.eq_of_uuid hm hi heu
  exact ⟨he, hkey⟩

include ht

theorem Sound.acquire (hs : s.acquire token t = some s') : Sound s' := by
  have hts := h.tasks token t ht
  unfold Fleet.acquire at hs
  split at hs
  · split at hs
    · cases hs
      have hset : Sound (s.setPhase token t .acquired) :=
        h.setPhase hts False.elim trivial fun _ => trivial
      refine { hset with tasks := fun token' t' ht' => ?_ }
      have hts' := hset.tasks token' t' ht'
      refine hts'.frame (List.Subset.refl _) (fun _ hm _ => hm) (Learns.refl _ _ _) id ?_
        fun _ _ _ _ hc => hc
      intro hprep hh
      -- The new holder is not preparing yet, and nobody else holds this lease.
      by_cases hk : t'.key = t.key
      · simp only [hk, Function.update_self, some.injEq] at hh
        subst hh
        have hacq : t'.phase = .acquired := by
          obtain ⟨hlt, -⟩ := List.getElem?_eq_some_iff.mp ht
          unfold Fleet.setPhase at ht'
          rw [List.getElem?_set_self hlt] at ht'
          cases ht'
          rfl
        rw [hacq] at hprep
        exact hprep.elim
      · simp only [Function.update_of_ne hk] at hh
        exact hts'.listing hprep hh
    · cases hs
      exact h.finish hts
  · cases hs

theorem Sound.list (hs : s.list token t = some s') : Sound s' := by
  have hts := h.tasks token t ht
  have hun := h.unheard_list hts
  unfold Fleet.list at hs
  split at hs
  · rename_i hp
    simp only at hs
    split at hs
    · rename_i hholder
      cases hs
      have hlister : Sound { s with lister := Function.update s.lister t.key (some token) } := by
        refine { h with tasks := fun token' t' ht' => ?_ }
        have hts' := h.tasks token' t' ht'
        by_cases htok : token' = token
        · subst htok
          rw [ht] at ht'
          cases ht'
          refine ⟨hts.entries, hts.known, ?_, ?_, ?_⟩
          all_goals
            rw [hp]
            first | exact False.elim | exact trivial | exact fun _ => trivial
        · -- Another task under the same lease does not hold it.
          refine hts'.frame (List.Subset.refl _) (fun _ hm _ => hm) (Learns.refl _ _ _) ?_ ?_
            fun _ _ _ _ hc => hc
          · intro hl
            by_cases hk : t'.key = t.key
            · simp only [hk, Function.update_self, some.injEq] at hl
              exact absurd hl.symm htok
            · simpa only [Function.update_of_ne hk] using hl
          · intro hprep hh
            by_cases hk : t'.key = t.key
            · have hh : s.holder t'.key = some token' := hh
              rw [hk, hholder] at hh
              cases hh
              exact absurd rfl htok
            · simp only [Function.update_of_ne hk]
              exact hts'.listing hprep hh
      exact hlister.setPhase (hlister.tasks token t ht) (fun _ _ => Function.update_self ..) trivial
        fun _ => hun
    · rename_i hnot
      cases hs
      exact h.setPhase hts (fun _ hh => absurd hh hnot) trivial fun _ => hun
  · cases hs

theorem Sound.skipKnown (hs : s.skipKnown token t = some s') : Sound s' := by
  have hts := h.tasks token t ht
  unfold Fleet.skipKnown at hs
  split at hs
  · rename_i locations hp
    cases hs
    obtain ⟨hlist, -, hsafe⟩ := hts.at_phase hp
    refine h.setPhase hts (fun _ => hlist trivial) (nil_subset _) ?_
    intro hl u hu ho hlive
    obtain ⟨m, hm, hloc, hmem, hnone⟩ := hsafe hl u hu ho hlive
    refine ⟨m, hm, .inl (mem_filter.mpr ⟨hloc, ?_⟩), hmem, hnone⟩
    rw [decide_eq_true_eq]
    intro hknown
    rw [flags_eq_none_iff] at hnone
    obtain ⟨r, hr, hru⟩ := mem_map.mp hknown
    have hlook := Table.lookup_of_mem hr
    rw [show r.uuid = m.uuid from hru] at hlook
    simp [Catalog.hasBlock, Table.contains, hlook] at hnone
  · cases hs

theorem Sound.get {i : Nat} (hfinds : s.getMisses t i = false) (hs : s.get token t i = some s') : Sound s' := by
  have hts := h.tasks token t ht
  unfold getMisses at hfinds
  unfold Fleet.get at hs
  split at hs
  · rename_i toFetch fetched hp
    obtain ⟨hlist, hshape, hsafe⟩ := hts.at_phase hp
    simp only [hp] at hfinds
    obtain ⟨loc, hloc, hs⟩ := map_eq_some_iff.mp hs
    rw [hloc, any_some, Bool.and_eq_false_iff] at hfinds
    split at hs
    · rename_i m₀ hget
      have hm₀ := h.bucket (mem_of_find?_eq_some hget)
      have hm₀loc : location m₀ = loc := by simpa using find?_some hget
      cases hs
      refine h.setPhase hts (fun _ => hlist trivial) ?_ ?_
      · exact forall_mem_snoc (fun _ hm => hshape hm) hm₀
      · intro hl u hu ho hlive
        obtain ⟨m, hm, hwait, hmem, hnone⟩ := hsafe hl u hu ho hlive
        refine ⟨m, hm, ?_, hmem, hnone⟩
        rcases hwait with hwait | hwait
        · by_cases heq : location m = loc
          · right
            have huuid : m₀.uuid = m.uuid := congrArg Location.uuid (hm₀loc.trans heq.symm)
            rw [← h.log.closedLineage.eq_of_uuid hm₀ hm huuid]
            exact mem_append_right _ mem_cons_self
          · exact .inl (mem_eraseIdx_of_ne hloc hwait heq)
        · exact .inr (mem_append_left _ hwait)
    · rename_i hget
      cases hs
      refine h.setPhase hts (fun _ => hlist trivial) hshape ?_
      intro hl u hu ho hlive
      obtain ⟨m, hm, hwait, hmem, hnone⟩ := hsafe hl u hu ho hlive
      refine ⟨m, hm, ?_, hmem, hnone⟩
      rcases hwait with hwait | hwait
      · left
        refine mem_eraseIdx_of_ne hloc hwait ?_
        rintro rfl
        rcases hfinds with hsome | hknown
        · rw [hget] at hsome
          cases hsome
        · rw [flags_eq_none_iff] at hnone
          simp [location, hnone] at hknown
      · exact .inr hwait
  · cases hs

theorem Sound.insert {i : Nat} (hs : s.insert token t i = some s') : Sound s' := by
  have hts := h.tasks token t ht
  unfold Fleet.insert at hs
  split at hs
  · rename_i toFetch fetched hp
    obtain ⟨m₀, hm₀, rfl⟩ := map_eq_some_iff.mp hs
    have hshape := hts.shape
    rw [hp] at hshape
    have hm₀mem := hshape (mem_of_getElem? hm₀)
    have hU := h.log.closedLineage
    have hcat : Sound (s.setCatalog t.node ((s.catalogs t.node).insertBlock m₀)) :=
      h.setCatalog ((h.catalogs t.node).insertBlock hU hm₀mem) (learns_insertBlock hU _ _ hm₀mem)
    have hts' := hcat.tasks token t ht
    obtain ⟨hlist, -, hsafe⟩ := hts'.at_phase hp
    refine hcat.setPhase hts' (fun _ => hlist trivial) ?_ ?_
    · exact fun m hm => hshape (eraseIdx_subset hm)
    · intro hl u hu ho hlive
      obtain ⟨m, hm, hwait, hmem, hnone⟩ := hsafe hl u hu ho hlive
      refine ⟨m, hm, ?_, hmem, hnone⟩
      rcases hwait with hwait | hwait
      · exact .inl hwait
      · right
        refine mem_eraseIdx_of_ne hm₀ hwait ?_
        rintro rfl
        have hknown : flags ((s.catalogs t.node).insertBlock m) m.uuid ≠ none :=
          (known_insertBlock_iff (hU.acyclic m hm₀mem)).mpr (.inr rfl)
        refine hknown ?_
        unfold Fleet.setCatalog at hnone
        simpa using hnone
  · cases hs

variable {eligible : Nat}

theorem Sound.stage (hs : s.stage token t eligible = some s') : Sound s' := by
  unfold Fleet.stage at hs
  split at hs
  · rename_i hp
    cases hs
    have hcat := h.setCatalog ((h.catalogs t.node).stageUnstagedSuperseded eligible)
        (learns_stageUnstagedSuperseded _ _ _ _)
    have hts' := hcat.tasks token t ht
    obtain ⟨hlist, -, hsafe⟩ := hts'.at_phase hp
    refine hcat.setPhase hts' (fun _ => hlist trivial) trivial ?_
    intro hl u hu ho hlive
    obtain ⟨m, -, hwait, -⟩ := hsafe hl u hu ho hlive
    rcases hwait with hwait | hwait <;> cases hwait
  · cases hs

theorem Sound.revalidate (hs : s.revalidate token t = some s') : Sound s' := by
  have hts := h.tasks token t ht
  unfold Fleet.revalidate at hs
  split at hs
  · rename_i hp
    obtain ⟨hlist, -, hsafe⟩ := hts.at_phase hp
    simp only at hs
    split at hs
    · rename_i hlive
      cases hs
      refine h.setPhase hts (fun _ => hlist trivial) trivial ?_
      intro hl u hu ho
      exact hsafe hl u hu ho (lists_iff.mp (hlive u hu))
    · cases hs
      exact h.finish hts
  · cases hs

theorem Sound.start {outputUuid : Uuid} (hs : s.start token t outputUuid = some s') : Sound s' := by
  have hts := h.tasks token t ht
  unfold Fleet.start at hs
  split at hs
  · rename_i hp
    obtain ⟨hlist, -, hsafe⟩ := hts.at_phase hp
    split at hs
    · cases hs
      refine h.setPhase hts (fun _ => hlist trivial) ⟨nil_subset _, rfl⟩ ?_
      intro hl
      refine ⟨fun e he => hsafe hl _ (mem_map_of_mem he), ?_⟩
      intro m hm
      cases hm
    · cases hs
      exact h.finish hts
  · cases hs

theorem Sound.load (hs : s.load token t = some s') : Sound s' := by
  have hts := h.tasks token t ht
  unfold Fleet.load at hs
  split at hs
  · rename_i outputUuid e rest inputMetas hp
    obtain ⟨hlist, hshape, hsafe⟩ := hts.at_phase hp
    split at hs
    · rename_i m hload
      obtain ⟨hm, huuid⟩ := loadInput_ok hload
      cases hs
      refine h.setPhase hts (fun _ => hlist trivial) ⟨?_, ?_⟩ ?_
      · exact forall_mem_snoc (fun _ hx => hshape.1 hx) (h.bucket hm)
      · rw [← hshape.2]
        simp [huuid]
      · intro hl
        obtain ⟨hopen, hdone⟩ := hsafe hl
        refine ⟨fun e' he' => hopen e' (mem_cons_of_mem _ he'), forall_mem_snoc hdone ?_⟩
        intro hc
        rw [huuid] at hc
        exact hopen e mem_cons_self ⟨⟨_, hm, huuid⟩, hc⟩
    · cases hs
      exact h.finish hts
  · cases hs

theorem Sound.merge {rowCount byteSize : Nat} (hs : s.merge token t rowCount byteSize = some s') : Sound s' := by
  have hts := h.tasks token t ht
  unfold Fleet.merge at hs
  split at hs
  · rename_i outputUuid inputMetas hp
    obtain ⟨hlist, hshape, hsafe⟩ := hts.at_phase hp
    obtain ⟨hsub, huuids⟩ := hshape
    rw [map_nil, append_nil] at huuids
    split at hs
    · rename_i ancestors hcf
      cases hs
      have hmem : ∀ i ∈ inputMetas, i.uuid ∈ t.inputUuids := by
        intro i hi
        rw [← huuids]
        exact mem_map_of_mem hi
      refine h.setPhase hts (fun _ => hlist trivial) ?_ ?_
      · refine ⟨inputMetas, hsub, huuids, hcf, ?_⟩
        intro i hi
        obtain ⟨hin, hkey⟩ := h.input_eq hts (hsub hi) (hmem i hi)
        refine ⟨congrArg LeaseKey.signal hkey, ?_⟩
        rw [hts.date_mergedMeta (ne_nil_of_mem hin)]
        exact congrArg LeaseKey.date hkey
      · intro hl u hu
        rw [← huuids] at hu
        obtain ⟨m, hm, rfl⟩ := mem_map.mp hu
        exact (hsafe hl).2 m hm
    · cases hs
      exact h.finish hts
  · cases hs

theorem Sound.put (hs : s.put token t = some s') : Sound s' := by
  have hts := h.tasks token t ht
  unfold Fleet.put at hs
  split at hs
  · rename_i output hp
    obtain ⟨-, hshape, hsafe⟩ := hts.at_phase hp
    split at hs
    · cases hs
      exact h.setPhase hts False.elim hshape hsafe
    · cases hs
      exact h.finish hts
  · cases hs

theorem Sound.commitOutput {output : BlockMeta} (hout : OutputOf s.history t output)
    (hsafe : ∀ u ∈ t.inputUuids, ¬ Consumed s.log u) (hl : s.lister t.key = some token)
    (hfresh : s.UuidFresh output.uuid) (hprep : ¬ Preparing phase) (hshape : PhaseShape
    (s.commit ⟨output, t.inputUuids⟩) t phase) (hphase : PhaseSafe (s.commit ⟨output, t.inputUuids⟩) t phase) : Sound
    ((s.commit ⟨output, t.inputUuids⟩).setPhase token t phase) := by
  have hts := h.tasks token t ht
  obtain ⟨hlt, -⟩ := List.getElem?_eq_some_iff.mp ht
  have hdone : Sound (s.setPhase token t .finished) :=
    h.setPhase hts False.elim trivial fun _ => trivial
  have hcomm : Sound ((s.setPhase token t .finished).commit ⟨output, t.inputUuids⟩) := by
    refine hdone.commit ?_ hfresh hsafe ?_
    · obtain ⟨metas, hmetas, huuids, hcf, hshared⟩ := hout
      rw [← huuids]
      exact .merge h.log hfresh metas hmetas hcf hshared
    · -- A task with the same input has the same lease, and the last listing is not its own.
      intro token' t' ht' hunfin hl' u hu' hu
      have hts' := hdone.tasks token' t' ht'
      obtain ⟨e, he, rfl⟩ := mem_map.mp hu
      obtain ⟨m, hm, rfl, hkey⟩ := hts.entries e he
      obtain ⟨-, hkey'⟩ := hdone.input_eq hts' hm hu'
      rw [← hkey', hkey] at hl'
      have heq : some token = some token' := hl.symm.trans hl'
      cases heq
      unfold Fleet.setPhase at ht'
      rw [List.getElem?_set_self hlt] at ht'
      cases ht'
      exact hunfin rfl
  have hset : ((s.setPhase token t .finished).commit ⟨output, t.inputUuids⟩).tasks[token]? =
      some { t with phase := .finished } := List.getElem?_set_self hlt
  have hsame : (s.commit ⟨output, t.inputUuids⟩).setPhase token t phase =
      ((s.setPhase token t .finished).commit ⟨output, t.inputUuids⟩).setPhase token
        { t with phase := .finished } phase := by
    simp [Fleet.setPhase, Fleet.commit]
  rw [hsame]
  exact hcomm.setPhase (hcomm.tasks token _ hset) (fun hp => absurd hp hprep) hshape
    fun _ => hphase

theorem Sound.land (hs : s.land token t = some s') : Sound s' := by
  unfold Fleet.land at hs
  split at hs
  · rename_i output hp
    obtain ⟨-, hshape, hsafe⟩ := (h.tasks token t ht).at_phase hp
    obtain ⟨hok, ⟨⟩⟩ := ite_none_right_eq_some.mp hs
    exact h.commitOutput ht hshape (hsafe hok.1) hok.1 hok.2 id mem_cons_self trivial
  · rename_i output hp
    obtain ⟨-, hshape, hsafe⟩ := (h.tasks token t ht).at_phase hp
    obtain ⟨hok, ⟨⟩⟩ := ite_none_right_eq_some.mp hs
    exact h.commitOutput ht hshape (hsafe hok.1) hok.1 hok.2 id trivial trivial
  · cases hs

theorem Sound.publish (hs : s.publish token t eligible = some s') : Sound s' := by
  have hshape := (h.tasks token t ht).shape
  unfold Fleet.publish at hs
  split at hs
  · rename_i output hp
    rw [hp] at hshape
    cases hs
    have hU := h.log.closedLineage
    have hmem : output ∈ s.history := mem_map_of_mem hshape
    have hin := h.log.inputs_subset hshape
    have hcat := h.setCatalog ((h.catalogs t.node).applyCompaction hU hmem hin eligible)
      (learns_applyCompaction hU _ _ hmem hin eligible)
    exact hcat.finish (hcat.tasks token t ht)
  · cases hs

theorem Sound.giveUp (hs : s.giveUp token t = some s') : Sound s' := by
  have hts := h.tasks token t ht
  unfold Fleet.giveUp at hs
  split at hs
  · rename_i output hp
    obtain ⟨-, hshape, hsafe⟩ := hts.at_phase hp
    cases hs
    have hset : Sound (s.setPhase token t (.abandoned output)) :=
      h.setPhase hts False.elim hshape hsafe
    exact hset.release token t.key
  · cases hs
  · cases hs
    exact h.finish hts

end Act

/-! ## Whole runs -/

def FindsSidecar (s : Fleet) : Action → Prop
  | .task token (.get i) => ∀ t ∈ s.tasks[token]?, s.getMisses t i = false
  | _ => True

instance (s : Fleet) : ∀ a, Decidable (FindsSidecar s a)
  | .task token (.get i) =>
    inferInstanceAs (Decidable (∀ t ∈ s.tasks[token]?, s.getMisses t i = false))
  | .task _ .acquire | .task _ .list | .task _ .skipKnown | .task _ (.insert _) | .task _ (.stage _)
  | .task _ .revalidate | .task _ (.start _) | .task _ .load | .task _ (.merge _ _) | .task _ .put
  | .task _ .land | .task _ (.publish _) | .task _ .giveUp | .write _ | .poll _ _ | .deliver _ _ _ _
  | .stageAll _ _ | .reap _ _ _ | .expire _ | .crash _ | .plan _ _ _ =>
    inferInstanceAs (Decidable True)

theorem Sound.act (h : Sound s) (ht : s.tasks[token]? = some t) {a : Act}
    (hfinds : FindsSidecar s (.task token a)) (hs : s.act token t a = some s') : Sound s' := by
  cases a with
  | acquire => exact h.acquire ht hs
  | list => exact h.list ht hs
  | skipKnown => exact h.skipKnown ht hs
  | get i => exact h.get ht (hfinds t ht) hs
  | insert i => exact h.insert ht hs
  | stage eligible => exact h.stage ht hs
  | revalidate => exact h.revalidate ht hs
  | start outputUuid => exact h.start ht hs
  | load => exact h.load ht hs
  | merge rowCount byteSize => exact h.merge ht hs
  | put => exact h.put ht hs
  | land => exact h.land ht hs
  | publish eligible => exact h.publish ht hs
  | giveUp => exact h.giveUp ht hs

theorem Sound.step (h : Sound s) {a : Action} (hfinds : FindsSidecar s a) (hs : s.step a = some s') : Sound s' := by
  cases a with
  | write m => exact h.write hs
  | poll n m => exact h.poll hs
  | deliver n grace now e => exact h.deliver hs
  | stageAll n eligible =>
    cases hs
    exact h.setCatalog ((h.catalogs n).stageUnstagedSuperseded eligible)
      (learns_stageUnstagedSuperseded _ _ _ _)
  | reap n now u => exact h.reap hs
  | expire key =>
    cases hs
    exact h.expire key
  | crash n =>
    cases hs
    exact h.crash n
  | plan n cfg i => exact h.plan hs
  | task token a =>
    obtain ⟨t, ht, hact⟩ := bind_eq_some_iff.mp hs
    exact h.act ht hfinds hact

/-! ## A race -/

def smallConfig : CompactConfig := ⟨2, 2, none⟩

def partition (level : Nat) : LeaseKey := ⟨.logs, 0, level⟩

def acts (token : Nat) (as : List Act) : List Action := as.map (.task token)

def listing : List Act := [.acquire, .list, .skipKnown]

def mergeInto (outputUuid : Uuid) (n : Nat) : List Act :=
  replicate n (.get 0) ++ replicate n (.insert 0) ++
    [.stage 0, .revalidate, .start outputUuid, .load, .load, .merge 2 200, .put, .land]

/-- Nodes 0 and 2 plan to merge blocks 1 and 2; node 0 does and dies before it publishes block 5. -/
def orphanedOutput : List Action :=
  [.write (sampleBlock 1 0 []), .write (sampleBlock 2 0 []), .poll 0 (sampleBlock 1 0 []),
    .poll 0 (sampleBlock 2 0 []), .poll 2 (sampleBlock 1 0 []), .poll 2 (sampleBlock 2 0 []),
    .plan 2 smallConfig 0, .plan 0 smallConfig 0] ++ acts 1 listing ++ acts 1 (mergeInto 5 0) ++
  [.crash 0, .expire (partition 0)]

def secondOutput : List Action :=
  [.write (sampleBlock 3 0 []), .write (sampleBlock 4 0 []), .poll 1 (sampleBlock 3 0 []),
    .poll 1 (sampleBlock 4 0 []), .plan 1 smallConfig 0] ++ acts 2 listing ++
  acts 2 (mergeInto 6 3) ++ acts 2 [.publish 0] ++ [.plan 1 smallConfig 0]

def levelTwo : List Action := acts 3 listing ++ acts 3 (mergeInto 7 0) ++ acts 3 [.publish 0]

def outputBlock (uuid level : Nat) (compactedFrom : List Uuid) : BlockMeta :=
  { sampleBlock uuid level compactedFrom with rowCount := 2, byteSize := 200 }

def reapFive : List Action :=
  [.poll 3 (outputBlock 5 1 [1, 2]),
    .deliver 3 0 0 (.superseded [5, 6] (outputBlock 7 2 [1, 2, 3, 4, 5, 6]) 0), .reap 3 0 5]

def Fleet.outline (s : Fleet) : List (Uuid × List Uuid) := s.log.map fun x => (x.block.uuid, x.inputs)

def inTime : List Action :=
  orphanedOutput ++ secondOutput ++ acts 0 listing ++ levelTwo ++
    acts 0 [.get 3, .insert 0] ++ reapFive ++
    acts 0 [.get 0, .get 0, .get 0, .insert 0, .insert 0, .insert 0, .stage 0, .revalidate]

def tooLate : List Action :=
  orphanedOutput ++ secondOutput ++ acts 0 listing ++ levelTwo ++ reapFive ++ acts 0 [.get 3] ++
    acts 0 (mergeInto 8 3)

end Scry.Cluster
