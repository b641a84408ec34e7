import Mathlib.Data.List.Nodup
import Mathlib.Data.Set.Insert
import Scry.Lib.Utf8

/-! # The labels of scraped series

An exposed label whose key is taken gets the prefix `exported_`, which nothing keeps free.
-/

namespace Scry.Agent

open List Lib

abbrev LabelPair := Bytes × Bytes

def keys (labels : List LabelPair) : List Bytes := labels.map Prod.fst

structure ScrapedMetric where
  name : Bytes
  labels : List LabelPair
  value : UInt64
  timestampMs : Option Int64

/-- `metricType` is the method `metric_type`. -/
structure Scrape where
  metrics : List ScrapedMetric
  metricType : Bytes → UInt8

structure SeriesDictEntry where
  fingerprint : UInt64
  metricType : UInt8
  labels : List LabelPair

structure MetricSample where
  fingerprint : UInt64
  tsUnixNano : UInt64
  value : UInt64

variable (fingerprint : List LabelPair → UInt64) (targets : List LabelPair) (m : ScrapedMetric) (key : Bytes)

def nameKey : Bytes := ascii "__name__"

def exported : Bytes := ascii "exported_" ++ key

def Taken : Prop := key ∈ keys targets ∨ key = nameKey

instance : Decidable (Taken targets key) := inferInstanceAs (Decidable (_ ∨ _))

def seriesKey : Bytes := if Taken targets key then exported key else key

def seriesLabels : List LabelPair :=
  targets ++ (nameKey, m.name) :: m.labels.map fun l => (seriesKey targets l.1, l.2)

def sampleTime (now : UInt64) : UInt64 :=
  match m.timestampMs with
  | some ms => .ofNat (min (ms.toInt.toNat * 1000000) 0xFFFFFFFFFFFFFFFF)
  | none => now

def scrapeToSeries (scrape : Scrape) (now : UInt64) : List SeriesDictEntry × List MetricSample :=
  scrape.metrics.foldl (fun (series, samples) m =>
    let labels := seriesLabels targets m
    let fp := fingerprint labels
    (if series.any (·.fingerprint == fp) then series
      else series ++ [⟨fp, scrape.metricType m.name, labels⟩],
      samples ++ [⟨fp, sampleTime m now, m.value⟩])) ([], [])

/-- Every sample has distinct keys, all of them in `K`. -/
def Exposes (K : Set Bytes) (scrape : Scrape) : Prop :=
  ∀ m ∈ scrape.metrics, (keys m.labels).Nodup ∧ ∀ l ∈ m.labels, l.1 ∈ K

structure KeepsIdentity (scrape : Scrape) (now : UInt64) : Prop where
  nodup : ∀ e ∈ (scrapeToSeries fingerprint targets scrape now).1, (keys e.labels).Nodup
  separate : ∀ m ∈ scrape.metrics, ∀ m' ∈ scrape.metrics,
    (∀ p, p ∈ seriesLabels targets m ↔ p ∈ seriesLabels targets m') →
      m.name = m'.name ∧ ∀ p, p ∈ m.labels ↔ p ∈ m'.labels

/-- The prefixed keys are free. -/
structure Free (K : Set Bytes) : Prop where
  name : nameKey ∉ keys targets
  exposed : ∀ k ∈ K, Taken targets k → exported k ∉ K
  target : ∀ k ∈ K, Taken targets k → exported k ∉ keys targets

variable {fingerprint targets m} {m' : ScrapedMetric} {K : Set Bytes}

theorem exported_ne_nameKey (k : Bytes) : exported k ≠ nameKey := by
  intro h
  simpa [exported, nameKey, ascii] using congrArg head? h

theorem keys_seriesLabels :
    keys (seriesLabels targets m) = keys targets ++ nameKey :: (keys m.labels).map (seriesKey targets) := by
  simp [keys, seriesLabels, Function.comp_def]

theorem mem_seriesLabels {p : LabelPair} : p ∈ seriesLabels targets m ↔
    p ∈ targets ∨ p = (nameKey, m.name) ∨ ∃ l ∈ m.labels, (seriesKey targets l.1, l.2) = p := by
  simp [seriesLabels]

theorem labels_scrapeToSeries {scrape : Scrape} {now : UInt64} :
    ∀ e ∈ (scrapeToSeries fingerprint targets scrape now).1,
      ∃ m ∈ scrape.metrics, e.labels = seriesLabels targets m := by
  -- Along the loop, every series so far is that of a sample.
  refine foldlRecOn (motive := fun acc : List SeriesDictEntry × List MetricSample =>
    ∀ e ∈ acc.1, ∃ m ∈ scrape.metrics, e.labels = seriesLabels targets m) _ _ (by simp) ?_
  intro acc ih m hm e he
  dsimp only at he
  split at he
  · exact ih e he
  · obtain he | he := mem_append.mp he
    · exact ih e he
    · exact ⟨m, hm, by rw [mem_singleton.mp he]⟩

section

variable (h : Free targets K)
include h

theorem Free.not_taken {k : Bytes} (hk : k ∈ K) : ¬ Taken targets (seriesKey targets k) := by
  unfold seriesKey
  split
  · rename_i ht
    rintro (hmem | heq)
    · exact h.target k hk ht hmem
    · exact exported_ne_nameKey k heq
  · assumption

theorem Free.seriesKey_inj {k k' : Bytes} (hk : k ∈ K) (hk' : k' ∈ K)
    (heq : seriesKey targets k = seriesKey targets k') : k = k' := by
  unfold seriesKey at heq
  split at heq <;> split at heq
  · exact append_cancel_left heq
  · rename_i ht _
    exact absurd (heq ▸ hk') (h.exposed k hk ht)
  · rename_i ht
    exact absurd (heq ▸ hk) (h.exposed k' hk' ht)
  · exact heq

theorem Free.nodup_keys (ht : (keys targets).Nodup) (hm : (keys m.labels).Nodup) (hK : ∀ l ∈ m.labels, l.1 ∈ K) :
    (keys (seriesLabels targets m)).Nodup := by
  have hfree : ∀ k ∈ (keys m.labels).map (seriesKey targets), ¬ Taken targets k := by
    simp only [keys, map_map, mem_map]
    rintro _ ⟨l, hl, rfl⟩
    exact h.not_taken (hK l hl)
  have hK' : ∀ k ∈ keys m.labels, k ∈ K := by simpa [keys] using fun k v hl => hK (k, v) hl
  rw [keys_seriesLabels, nodup_append', nodup_cons]
  refine ⟨ht, ⟨fun hmem => hfree _ hmem (.inr rfl), ?_⟩, ?_⟩
  · exact hm.map_on fun k hk k' hk' heq => h.seriesKey_inj (hK' k hk) (hK' k' hk') heq
  · rintro k hk (_ | ⟨_, hmem⟩)
    · exact h.name hk
    · exact hfree k hmem (.inl hk)

theorem Free.label_of_mem {l : LabelPair} (hl : l.1 ∈ K) (hK : ∀ l ∈ m'.labels, l.1 ∈ K)
    (hmem : (seriesKey targets l.1, l.2) ∈ seriesLabels targets m') : l ∈ m'.labels := by
  have hfree := h.not_taken hl
  obtain htarget | hname | ⟨q, hq, heq⟩ := mem_seriesLabels.mp hmem
  · exact absurd (.inl (mem_map_of_mem htarget)) hfree
  · exact absurd (.inr (congrArg Prod.fst hname)) hfree
  · obtain ⟨hkey, hvalue⟩ := Prod.mk.inj heq
    exact (Prod.ext (h.seriesKey_inj (hK q hq) hl hkey) hvalue : q = l) ▸ hq

theorem Free.name_of_mem (hK : ∀ l ∈ m'.labels, l.1 ∈ K)
    (hmem : (nameKey, m.name) ∈ seriesLabels targets m') : m.name = m'.name := by
  obtain htarget | hname | ⟨q, hq, heq⟩ := mem_seriesLabels.mp hmem
  · exact absurd (mem_map_of_mem htarget) h.name
  · exact congrArg Prod.snd hname
  · exact absurd (.inr (congrArg Prod.fst heq)) (h.not_taken (hK q hq))

end

/-- Every scrape over the keys `K` keeps its series apart exactly where no `exported_` key is in use. -/
theorem keepsIdentity_iff (ht : (keys targets).Nodup) :
    (∀ scrape now, Exposes K scrape → KeepsIdentity fingerprint targets scrape now) ↔ Free targets K := by
  constructor
  · intro h
    have hone (labels : List LabelPair) (hn : (keys labels).Nodup) (hK : ∀ l ∈ labels, l.1 ∈ K) :
        Disjoint (keys targets) (nameKey :: (keys labels).map (seriesKey targets)) := by
      have hexp : Exposes K ⟨[⟨[], labels, 0, none⟩], fun _ => 0⟩ := by simpa [Exposes, hn] using fun k v => hK (k, v)
      have hdup := (h _ 0 hexp).nodup _ (mem_singleton_self _)
      rw [keys_seriesLabels, nodup_append'] at hdup
      exact hdup.2.2
    have htarget : ∀ k ∈ K, Taken targets k → exported k ∉ keys targets := by
      intro k hk htaken hmem
      have hdis := hone [(k, [])] (nodup_singleton _) (by simpa using hk)
      exact hdis hmem (by simp [keys, seriesKey, htaken])
    refine ⟨fun hmem => hone [] nodup_nil (by simp) hmem mem_cons_self, fun k hk htaken hexp => ?_, htarget⟩
    -- The key and its prefixed form, in two samples, give one series.
    have hfree : ¬ Taken targets (exported k) := fun h => h.elim (htarget k hk htaken) (exported_ne_nameKey k)
    have hsame := (h ⟨[⟨[], [(k, [])], 0, none⟩, ⟨[], [(exported k, [])], 0, none⟩], fun _ => 0⟩ 0
      (by simp [Exposes, keys, hk, hexp])).separate _ mem_cons_self _ (mem_cons_of_mem _ mem_cons_self)
      (by simp [seriesLabels, seriesKey, htaken, hfree])
    have hmem := (hsame.2 (k, [])).mp mem_cons_self
    have hlen : k.length = (exported k).length := congrArg (·.1.length) (mem_singleton.mp hmem)
    simp [exported, ascii] at hlen
    omega
  · intro h scrape now hexp
    refine ⟨fun e he => ?_, fun m hm m' hm' hsame => ?_⟩
    · obtain ⟨m, hm, heq⟩ := labels_scrapeToSeries e he
      rw [heq]
      exact h.nodup_keys ht (hexp m hm).1 (hexp m hm).2
    · have hK := (hexp m hm).2
      have hK' := (hexp m' hm').2
      refine ⟨h.name_of_mem hK' ((hsame _).mp (mem_seriesLabels.mpr (.inr (.inl rfl)))), fun l => ⟨?_, ?_⟩⟩ <;> intro hl
      · exact h.label_of_mem (hK l hl) hK' ((hsame _).mp (mem_seriesLabels.mpr (.inr (.inr ⟨l, hl, rfl⟩))))
      · exact h.label_of_mem (hK' l hl) hK ((hsame _).mpr (mem_seriesLabels.mpr (.inr (.inr ⟨l, hl, rfl⟩))))

theorem keepsIdentity_iff_path : KeepsIdentity (fun _ => 0) [(ascii "job", ascii "node")]
    ⟨[⟨ascii "up", [(ascii "path", ascii "x")], 0, none⟩], fun _ => 0⟩ 0 := by
  refine (@keepsIdentity_iff (fun _ => 0) [(ascii "job", ascii "node")] {ascii "path"} (by decide)).mpr
    ⟨by decide, ?_, ?_⟩ _ _ (by simp [Exposes, keys])
  all_goals
    rintro _ rfl htaken
    exact absurd htaken (by decide)

/-- A sample that exposes `a` and `exported_a` on a target labelled `a`. -/
theorem exported_key_twice : (scrapeToSeries (fun _ => 0) [(ascii "a", ascii "t")]
    ⟨[⟨ascii "up", [(ascii "a", ascii "x"), (ascii "exported_a", ascii "y")], 0, none⟩], fun _ => 0⟩ 0).1.map
      (fun e => keys e.labels) = [[ascii "a", ascii "__name__", ascii "exported_a", ascii "exported_a"]] := by
  decide

end Scry.Agent
