import Scry.Alert.Store

/-! # Histories of rule and target heads

A command first writes an object that only it names and then moves the head, from the head that it read.
-/

namespace Scry.Alert

open Scry.Lib ObjectStore Program List Record

section History

variable {kind : Kind}

/-- Newest first: revisions go up by one from 1, and nothing follows a deleted head. -/
def LinearHistory (published : Head kind → Prop) : List (Head kind) → Prop
  | [] => True
  | [h] => published h ∧ h.deleted = false ∧ h.revision = 1
  | h :: h' :: rest => h'.deleted = false ∧
      (h.deleted = true ∨ published h ∧ h.deleted = false ∧ h.revision.toNat = h'.revision.toNat + 1) ∧
      LinearHistory published (h' :: rest)

theorem LinearHistory.mono {published published' : Head kind → Prop} {heads : List (Head kind)}
    (himp : ∀ h, published h → published' h) (h : LinearHistory published heads) :
    LinearHistory published' heads := by
  induction heads with
  | nil => trivial
  | cons a rest ih =>
    cases rest with
    | nil => exact ⟨himp a h.1, h.2⟩
    | cons b rest =>
      obtain ⟨hlive, hnext, hrest⟩ := h
      refine ⟨hlive, ?_, ih hrest⟩
      rcases hnext with hdel | ⟨hpub, hrev⟩
      · exact .inl hdel
      · exact .inr ⟨himp a hpub, hrev⟩

/-- Some command writes the object and the head that names it. -/
abbrev Offers (kind : Kind) := Document → Head kind → Prop

def Published (offers : Offers kind) (w : Store) (h : Head kind) : Prop :=
  ∃ d, offers d h ∧ (w h.revisionKey).map Prod.snd = [d]

/-- Objects but the head are written once; the heads have a linear history. -/
structure HeadInv (id : Uuid) (offers : Offers kind) (w : Store) : Prop where
  distinct : w.Distinct
  once : ∀ k, k ≠ headKey kind id → (w k).length ≤ 1
  linear : ∃ heads : List (Head kind), (w (headKey kind id)).map Prod.snd =
    heads.map toDocument ∧ LinearHistory (Published offers w) heads

def headSharing (id : Uuid) (offers : Offers kind) : Sharing Store where
  inv := HeadInv id offers
  rely := Extends
  guarantee := Extends
  stutter := Extends.refl
  refl := Extends.refl
  trans _ _ _ := Extends.trans

variable {id : Uuid} {offers : Offers kind} {P : Platform} {w w' : Store}

variable {version : Version} {next : Head kind} {document : Document} {d : Document} {k : String}

theorem object_of_once (honce : (w k).length ≤ 1) (hmem : (version, d) ∈ w k) :
    (w k).map Prod.snd = [d] := by
  obtain ⟨e, he⟩ : ∃ e, w k = [e] :=
    length_eq_one_iff.mp (le_antisymm honce (length_pos_of_mem hmem))
  rw [he, mem_singleton] at hmem
  rw [he, ← hmem]
  rfl

theorem HeadInv.object (h : HeadInv id offers w) (hk : k ≠ headKey kind id)
    (hmem : (version, d) ∈ w k) : (w k).map Prod.snd = [d] :=
  object_of_once (h.once k hk) hmem

variable {h : Head kind} {key : String}

theorem Published.write (hp : Published offers w h)
    (hkey : h.revisionKey ≠ key) : Published offers (w.write key version d) h := by
  obtain ⟨d, ho, _⟩ := hp
  exact ⟨d, ho, by rwa [write_other hkey]⟩

theorem HeadInv.create (h : HeadInv id offers w) (hkey : key ≠ headKey kind id) (habs : w key = [])
    (version : Version) (d : Document) : HeadInv id offers (w.write key version d) where
  distinct := h.distinct.write (by rw [habs]; exact not_mem_nil)
  once k hk := by
    by_cases hkk : k = key
    · rw [hkk, write_same, habs]
      exact le_rfl
    · rw [write_other hkk]
      exact h.once k hk
  linear := by
    obtain ⟨heads, _, hlin⟩ := h.linear
    refine ⟨heads, by rwa [write_other (Ne.symm hkey)], hlin.mono fun a ha => ?_⟩
    refine ha.write fun hak => ?_
    -- What a head names is there already.
    obtain ⟨d, -, hd⟩ := ha
    rw [hak, habs] at hd
    cases hd

variable {fresh : Version}

theorem HeadInv.publish (h : HeadInv id offers w) (hoffers : ∀ d a, offers d a → a.revisionKey ≠ headKey kind id) (hfresh : fresh ∉ (w (headKey kind id)).map Prod.fst)
    (hnext : ∀ heads : List (Head kind), (w (headKey kind id)).map Prod.snd = heads.map toDocument →
    LinearHistory (Published offers w) heads → LinearHistory (Published offers w) (next :: heads)) : HeadInv id offers
    (w.write (headKey kind id) fresh (toDocument next)) where
  distinct := h.distinct.write hfresh
  once k hk := by
    rw [write_other hk]
    exact h.once k hk
  linear := by
    obtain ⟨heads, hheads, hlin⟩ := h.linear
    refine ⟨next :: heads, by rw [write_same, map_cons, hheads]; rfl, ?_⟩
    refine (hnext heads hheads hlin).mono fun a ha => ha.write ?_
    obtain ⟨d, ho, -⟩ := ha
    exact hoffers d a ho

/-! ## Requests -/

variable {X : Type} {O : X → Type}

theorem keeps_written {α : Type} {e : Version × Document} (he : e ∈ w k) {post : α → Store → Prop}
    {p : Program (Reply (K := String) (V := Version) (B := Document) O) α}
    (h : p.Safe (answers O) (headSharing id offers) post w) : p.Safe (answers O) (headSharing id offers)
    (fun a w' => post a w' ∧ e ∈ w' k) w :=
  h.frame (fun _ _ hw => Extends.mem hw) (fun _ _ hw => Extends.mem hw) he

theorem create_object_safe {α : Type} [Record α] {value : α} (hkey : key ≠ headKey kind id) :
    (createIdentical P key value : StoreM O _).run.Safe (answers O) (headSharing id offers)
    (onOk fun _ => Written key value) w :=
  createIdentical_safe (fun _ _ h => h) fun w₁ version _ hinv habs =>
    ⟨extends_write w₁ key version _, hinv.create hkey habs version _⟩

theorem create_head_safe (hoffers : ∀ d a, offers d a → a.revisionKey ≠ headKey kind id) (hinv : HeadInv id offers w) (ho : offers d next) (hlive : next.deleted = false) (hrev : next.revision = 1)
    (hobj : (version, d) ∈ w next.revisionKey) : (createHead P (headKey kind id) next : StoreM O _).run.Safe
    (answers O) (headSharing id offers) (onOk fun _ => Written (headKey kind id) next) w := by
  refine createHead_safe (fun _ _ h => h) hinv fun w₁ fresh hrely hinv₁ habs => ?_
  refine ⟨extends_write w₁ _ fresh _, HeadInv.publish hinv₁ hoffers ?_ ?_⟩
  · rw [habs]
    exact not_mem_nil
  · intro heads hheads _
    rw [habs] at hheads
    obtain rfl : heads = [] := by simpa using hheads.symm
    exact ⟨⟨d, ho, hinv₁.object (hoffers d next ho) (hrely.mem hobj)⟩, hlive, hrev⟩

variable {current : Head kind}

theorem HeadInv.replace (h : HeadInv id offers w) (hoffers : ∀ d a, offers d a → a.revisionKey ≠ headKey kind id) {old : Document} {rest : List (Version × Document)}
    (htop : w (headKey kind id) = (version, old) :: rest) (hfresh : fresh ∉ (w (headKey kind id)).map Prod.fst)
    (hmem : (version, document) ∈ w (headKey kind id)) (hdoc : ofDocument P document = some current)
    (hcur : current.deleted = false) (hnext : next.deleted = true ∨ next.deleted = false ∧ next.revision.toNat =
    current.revision.toNat + 1 ∧ ∃ d v, offers d next ∧ (v, d) ∈ w next.revisionKey) : HeadInv id offers
    (w.write (headKey kind id) fresh (toDocument next)) := by
  refine h.publish hoffers hfresh fun heads hheads hlin => ?_
  obtain rfl : document = old := h.distinct.eq hmem (by rw [htop]; simp)
  rw [htop, map_cons] at hheads
  cases heads with
  | nil => cases hheads
  | cons top rest' =>
    have htopdoc : document = toDocument top := (cons.inj hheads).1
    rw [htopdoc, ofDocument_toDocument_head] at hdoc
    obtain rfl : top = current := Option.some.inj hdoc
    refine ⟨hcur, ?_, hlin⟩
    rcases hnext with hdel | ⟨hlive, hrev, d, v, ho, hobj⟩
    · exact .inl hdel
    · exact .inr ⟨⟨d, ho, h.object (hoffers d next ho) hobj⟩, hlive, hrev⟩

theorem update_head_safe (hoffers : ∀ d a, offers d a → a.revisionKey ≠ headKey kind id)
    (hmem : (version, document) ∈ w (headKey kind id)) (hdoc : ofDocument P document = some current)
    (hcur : current.deleted = false) (hnext : next.deleted = true ∨ next.deleted = false ∧ next.revision.toNat =
    current.revision.toNat + 1 ∧ ∃ d v, offers d next ∧ (v, d) ∈ w next.revisionKey) :
    (update P (headKey kind id) next version : StoreM O _).run.Safe (answers O) (headSharing id offers)
    (onOk fun _ => Written (headKey kind id) next) w := by
  refine update_safe (fun _ _ h => h) fun w₁ old rest fresh hrely hinv₁ htop hfresh => ?_
  refine ⟨extends_write w₁ _ fresh _, HeadInv.replace hinv₁ hoffers htop hfresh
    (hrely.mem hmem) hdoc hcur (hnext.imp_right ?_)⟩
  rintro ⟨hlive, hrev, d, v, ho, hobj⟩
  exact ⟨hlive, hrev, d, v, ho, hrely.mem hobj⟩

section

variable (hinv : HeadInv id offers w) (hmem : (version, document) ∈ w (headKey kind id)) (hdoc : ofDocument P document = some h)
include hinv hmem hdoc

theorem HeadInv.written_of_read :
    Written (headKey kind id) h w := by
  obtain ⟨heads, hheads, -⟩ := hinv.linear
  have hd : document ∈ heads.map toDocument := by
    rw [← hheads]
    exact mem_map_of_mem hmem
  obtain ⟨a, -, rfl⟩ := mem_map.mp hd
  rw [ofDocument_toDocument_head] at hdoc
  cases hdoc
  exact ⟨version, hmem⟩

theorem current_head_safe :
    (pure () : StoreM O Unit).run.Safe (answers O) (headSharing id offers)
      (onOk fun _ => Written (headKey kind id) h) w :=
  .pure fun _ hrely _ => (hinv.written_of_read hmem hdoc).extends hrely

end

theorem tombstone_safe (hoffers : ∀ d a, offers d a → a.revisionKey ≠ headKey kind id) (hinv : HeadInv id offers w)
    {t : Tombstone kind} (hid : t.id = id) (hmem : (version, document) ∈ w (headKey kind id))
    (hdoc : ofDocument P document = some current) (hcur : current.deleted = false) :
    (tombstone P t version : StoreM O _).run.Safe (answers O) (headSharing id offers)
    (onOk fun _ => Written (headKey kind id) (deletedHead P t)) w := by
  subst hid
  refine Safe.bind_onOk hinv ((keeps_written hmem (create_object_safe
    (tombstoneKey_ne_headKey P kind t.id t.commandId))).mono fun r w' hinv' hr u hu => ?_)
  exact update_head_safe hoffers hr.2 hdoc hcur (.inl rfl)

end History

/-! ## Commands on one monitor or target -/

inductive RuleCall
  | create (rule : Rule) (commandId : String)
  | tombstone (tombstone : RuleTombstone) (expectedHead : Version)

inductive TargetCall
  | create (target : NotificationTarget) (commandId : String) (expectedHead : Option Version)
  | tombstone (tombstone : TargetTombstone) (expectedHead : Version)

abbrev NoAnswer : Empty → Type := fun _ => Empty

abbrev StoreProgram :=
  Program (Reply (K := String) (V := Version) (B := Document) NoAnswer)
    (Except AlertStoreError Unit)

namespace RuleCall

variable (P : Platform)

def program : RuleCall → StoreProgram
  | create rule commandId => (createRuleRevision P rule commandId).run
  | tombstone t expectedHead => (tombstoneRule P t expectedHead).run

def head : RuleCall → RuleHead
  | create rule commandId => ruleHead P rule commandId
  | tombstone t _ => deletedHead P t

def id : RuleCall → MonitorId
  | create rule _ => rule.id
  | tombstone t _ => t.id

end RuleCall

namespace TargetCall

variable (P : Platform)

def program : TargetCall → StoreProgram
  | create target commandId expectedHead => (createTargetRevision P target commandId expectedHead).run
  | tombstone t expectedHead => (tombstoneTarget P t expectedHead).run

def head : TargetCall → TargetHead
  | create target commandId _ => targetHead P target commandId
  | tombstone t _ => deletedHead P t

def id : TargetCall → NotificationTargetId
  | create target _ _ => target.id
  | tombstone t _ => t.id

end TargetCall

def Observed (key : String) (w : Store) (version : Version) : Prop :=
  version ∈ (w key).map Prod.fst

theorem observed_of_cons {key : String} {w : Store} {version : Version} {document : Document}
    {rest : List (Version × Document)} (h : w key = (version, document) :: rest) : Observed key w version := by
  rw [Observed, h]
  exact mem_cons_self ..

def ObservedLive (kind : Kind) (P : Platform) (id : Uuid) (w : Store) (version : Version) : Prop :=
  ∃ document, (version, document) ∈ w (headKey kind id) ∧
    ∃ h : Head kind, ofDocument P document = some h ∧ h.deleted = false

/-- A tombstone is for a live head, as `delete_monitor` checks. -/
def RuleCall.Starts (P : Platform) (id : MonitorId) (w : Store) (c : RuleCall) : Prop :=
  c.id = id ∧ match c with
    | .create _ _ => True
    | .tombstone _ expectedHead => ObservedLive .rule P id w expectedHead

/-- With a head version that was read; a tombstone is for a live head. -/
def TargetCall.Starts (P : Platform) (id : NotificationTargetId) (w : Store) (c : TargetCall) : Prop :=
  c.id = id ∧ match c with
    | .create _ _ expectedHead => ∀ version ∈ expectedHead, Observed (targetHeadKey id) w version
    | .tombstone _ expectedHead => ObservedLive .target P id w expectedHead

/-! ## What the commands keep -/

section Calls

variable {P : Platform} {w : Store}

def ruleOffers (P : Platform) (id : MonitorId) (calls : List RuleCall) : Offers .rule :=
  fun d h => ∃ rule commandId, rule.id = id ∧ RuleCall.create rule commandId ∈ calls ∧
    d = toDocument rule ∧ h = ruleHead P rule commandId

theorem ruleOffers_ne_head (id : MonitorId) (calls : List RuleCall) (d : Document) (h : RuleHead)
    (ho : ruleOffers P id calls d h) : h.revisionKey ≠ headKey .rule id := by
  obtain ⟨rule, commandId, rfl, -, -, rfl⟩ := ho
  exact revisionKey_ne_headKey P .rule rule.id rule.revision commandId

variable {commandId : String}

theorem createRuleRevision_safe {rule : Rule} {calls : List RuleCall}
    (hinv : HeadInv rule.id (ruleOffers P rule.id calls) w) (hmem : RuleCall.create rule commandId ∈ calls) :
    (createRuleRevision P rule commandId).run.Safe (answers NoAnswer)
    (headSharing rule.id (ruleOffers P rule.id calls)) (onOk fun _ => Written (headKey .rule rule.id)
    (ruleHead P rule commandId)) w := by
  have hoffers := ruleOffers_ne_head (P := P) rule.id calls
  have ho : ruleOffers P rule.id calls (toDocument rule) (ruleHead P rule commandId) :=
    ⟨rule, commandId, rfl, hmem, rfl, rfl⟩
  refine Safe.bind_onOk hinv ((create_object_safe
    (revisionKey_ne_headKey P .rule rule.id rule.revision commandId)).mono fun r w' hinv' hr u hu => ?_)
  obtain ⟨v, hobj⟩ := hr u hu
  refine Safe.bind_attempt hinv' ((keeps_written hobj
    (readVersioned_safe (fun _ _ h => h) hinv')).mono fun r w₁ hinv₁ hr => ?_)
  obtain ⟨hr, hobj⟩ := hr
  cases r with
  | ok current =>
    obtain ⟨document, hread, hcur⟩ := hr current rfl
    dsimp only
    split
    next heq =>
      rw [heq] at hcur
      exact current_head_safe hinv₁ hread.mem hcur
    next =>
      split
      next hnext =>
        simp only [Bool.and_eq_true, Bool.not_eq_true', beq_iff_eq] at hnext
        exact update_head_safe hoffers hread.mem hcur hnext.1
          (.inr ⟨rfl, hnext.2.symm, _, v, ho, hobj⟩)
      next => exact .throw
  | error e =>
    cases e with
    | missing path =>
      dsimp only
      split
      next hone => exact create_head_safe hoffers hinv₁ ho rfl hone hobj
      next => exact .throw
    | _ => exact .throw

theorem RuleCall.safe {id : MonitorId} {calls : List RuleCall} {c : RuleCall}
    (hinv : HeadInv id (ruleOffers P id calls) w) (hc : c.Starts P id w) (hmem : c ∈ calls) :
    (c.program P).Safe (answers NoAnswer) (headSharing id (ruleOffers P id calls))
      (onOk fun _ => Written (headKey .rule id) (c.head P)) w := by
  obtain ⟨rfl, hc⟩ := hc
  cases c with
  | create rule commandId => exact createRuleRevision_safe hinv hmem
  | tombstone t expectedHead =>
    obtain ⟨document, hdoc, current, hcur, hlive⟩ := hc
    exact tombstone_safe (ruleOffers_ne_head t.id calls) hinv rfl hdoc hcur hlive

def targetOffers (P : Platform) (id : NotificationTargetId) (calls : List TargetCall) : Offers .target :=
  fun d h => ∃ target commandId expectedHead, target.id = id ∧
    TargetCall.create target commandId expectedHead ∈ calls ∧ d = toDocument target ∧
    h = targetHead P target commandId

theorem targetOffers_ne_head (id : NotificationTargetId) (calls : List TargetCall) (d : Document)
    (h : TargetHead) (ho : targetOffers P id calls d h) : h.revisionKey ≠ headKey .target id := by
  obtain ⟨target, commandId, expectedHead, rfl, -, -, rfl⟩ := ho
  exact revisionKey_ne_headKey P .target target.id target.revision commandId

theorem version_of_read {w' : Store} (hdist : w'.Distinct) {key : String} {observed version : Version}
    {document old : Document} {rest : List (Version × Document)} (hobs : Observed key w observed)
    (hread : ReadSince w key version document w') (htop : w' key = (observed, old) :: rest) : observed = version := by
  obtain ⟨older, hsince, hsuffix⟩ := hread
  rw [htop] at hsuffix
  rcases suffix_cons_iff.mp hsuffix with heq | hrest
  · exact (Prod.mk.inj (cons.inj heq).1).1.symm
  · -- The observed version would be there twice.
    have hmem : observed ∈ rest.map Prod.fst :=
      ((hsince.trans hrest).map Prod.fst).subset hobs
    have hnodup := hdist key
    rw [htop, map_cons, nodup_cons] at hnodup
    exact absurd hmem hnodup.1

variable {calls : List TargetCall}

theorem createTargetRevision_safe {target : NotificationTarget} {expectedHead : Option Version} (hinv : HeadInv target.id (targetOffers P target.id calls) w)
    (hmem : TargetCall.create target commandId expectedHead ∈ calls)
    (hobs : ∀ version ∈ expectedHead, Observed (targetHeadKey target.id) w version) :
    (createTargetRevision P target commandId expectedHead).run.Safe (answers NoAnswer)
    (headSharing target.id (targetOffers P target.id calls)) (onOk fun _ => Written (headKey .target target.id)
    (targetHead P target commandId)) w := by
  have hoffers := targetOffers_ne_head (P := P) target.id calls
  have ho : targetOffers P target.id calls (toDocument target)
      (targetHead P target commandId) :=
    ⟨target, commandId, expectedHead, rfl, hmem, rfl, rfl⟩
  have hseen : ∀ w w', Extends w w' →
      (∀ version ∈ expectedHead, Observed (targetHeadKey target.id) w version) →
        ∀ version ∈ expectedHead, Observed (targetHeadKey target.id) w' version :=
    fun w w' hw h version hv => ((hw _).map Prod.fst).subset (h version hv)
  refine Safe.bind_onOk hinv (((create_object_safe (revisionKey_ne_headKey P .target target.id target.revision
    commandId)).frame hseen hseen hobs).mono fun r w' hinv' hr u hu => ?_)
  obtain ⟨v, hobj⟩ := hr.1 u hu
  have hobs := hr.2
  refine Safe.bind_attempt hinv' ((keeps_written hobj
    (readVersioned_safe (fun _ _ h => h) hinv')).mono fun r w₁ hinv₁ hr => ?_)
  obtain ⟨hr, hobj⟩ := hr
  cases r with
  | ok current =>
    obtain ⟨document, hread, hcur⟩ := hr current rfl
    dsimp only
    split
    next heq =>
      rw [heq] at hcur
      exact current_head_safe hinv₁ hread.mem hcur
    next =>
      split
      next hnext =>
        simp only [Bool.and_eq_true, Bool.not_eq_true', beq_iff_eq] at hnext
        cases expectedHead with
        | none => exact .throw
        | some version =>
          refine update_safe (fun _ _ h => h) fun w₂ old rest fresh hrely hinv₂ htop hfresh => ?_
          have hread₂ := hread.extends hrely
          obtain rfl : version = current.version :=
            version_of_read hinv₂.distinct (hobs version rfl) hread₂ htop
          refine ⟨extends_write w₂ _ fresh _, ?_⟩
          exact HeadInv.replace hinv₂ hoffers htop hfresh hread₂.mem hcur hnext.1
            (.inr ⟨rfl, hnext.2.symm, _, v, ho, hrely.mem hobj⟩)
      next => exact .throw
  | error e =>
    cases e with
    | missing path =>
      dsimp only
      split
      next hone =>
        simp only [Bool.and_eq_true, beq_iff_eq] at hone
        exact create_head_safe hoffers hinv₁ ho rfl hone.2 hobj
      next => exact .throw
    | _ => exact .throw

theorem TargetCall.safe {id : NotificationTargetId} {c : TargetCall}
    (hinv : HeadInv id (targetOffers P id calls) w) (hc : c.Starts P id w) (hmem : c ∈ calls) :
    (c.program P).Safe (answers NoAnswer) (headSharing id (targetOffers P id calls))
      (onOk fun _ => Written (headKey .target id) (c.head P)) w := by
  obtain ⟨rfl, hc⟩ := hc
  cases c with
  | create target commandId expectedHead => exact createTargetRevision_safe hinv hmem hc
  | tombstone t expectedHead =>
    obtain ⟨document, hdoc, current, hcur, hlive⟩ := hc
    exact tombstone_safe (targetOffers_ne_head t.id calls) hinv rfl hdoc hcur hlive

end Calls

/-! ## Runs -/

def emptyStore : Store := fun _ => []

theorem headInv_empty {kind : Kind} (id : Uuid) (offers : Offers kind) : HeadInv id offers emptyStore where
  distinct _ := nodup_nil
  once _ _ := Nat.zero_le 1
  linear := ⟨[], rfl, trivial⟩

abbrev HeadPool (C : Type) :=
  Pool (Reply (K := String) (V := Version) (B := Document) NoAnswer) Store C
    (Except AlertStoreError Unit)

abbrev Reached {C : Type} (program : C → StoreProgram) (starts : Store → C → Prop) : HeadPool C → Prop :=
  Pool.Reachable (answers NoAnswer) program starts (fun _ _ => False) emptyStore

theorem heads_of_reached (kind : Kind) {id : Uuid} {offers : Offers kind} {C : Type} (P : Platform)
    {program : C → StoreProgram} {head : C → Head kind} {starts : Store → C → Prop} {s : HeadPool C}
    (hsafe : ∀ w c, HeadInv id offers w → starts w c → (program c).Safe (answers NoAnswer) (headSharing id offers)
    (onOk fun _ => Written (headKey kind id) (head c)) w) (h : Reached program starts s) : ∃ heads : List (Head kind),
    (s.world (headKey kind id)).map Prod.snd = heads.map toDocument ∧ LinearHistory (Published offers s.world)
    heads ∧ ∀ c, (c, .done (.ok ())) ∈ s.threads → head c ∈ heads := by
  obtain ⟨hinv, hthreads⟩ := Pool.Reachable.safe (S := headSharing id offers) (fun _ _ h => h)
    hsafe (fun _ _ _ h => h.elim) (headInv_empty id offers) h
  obtain ⟨heads, hheads, hlin⟩ := hinv.linear
  refine ⟨heads, hheads, hlin, fun c hc => ?_⟩
  obtain ⟨version, hmem⟩ := hthreads _ hc s.world (.refl _) hinv () rfl
  have hdoc : toDocument (head c) ∈ heads.map toDocument := by
    rw [← hheads]
    exact mem_map_of_mem hmem
  obtain ⟨a, _, heq⟩ := mem_map.mp hdoc
  have hread := ofDocument_toDocument_head P a
  rw [heq, ofDocument_toDocument_head] at hread
  rwa [Option.some.inj hread]

/-- **Linear heads.** In any interleaving the heads go up from revision 1 by one, nothing follows a deleted
head, and a call ends well only where its head was current once. -/
theorem heads_linear (P : Platform) (id : Uuid) : (∀ s, Reached (RuleCall.program P) (RuleCall.Starts P id) s →
    ∃ heads : List RuleHead, (s.world (ruleHeadKey id)).map Prod.snd = heads.map toDocument ∧ LinearHistory
    (fun h => ∃ rule commandId, RuleCall.create rule commandId ∈ s.calls ∧ h = ruleHead P rule commandId ∧
    (s.world h.revisionKey).map Prod.snd = [toDocument rule]) heads ∧ ∀ c, (c, .done (.ok ())) ∈ s.threads →
    c.head P ∈ heads) ∧ (∀ s, Reached (TargetCall.program P) (TargetCall.Starts P id) s → ∃ heads : List TargetHead,
    (s.world (targetHeadKey id)).map Prod.snd = heads.map toDocument ∧ LinearHistory
    (fun h => ∃ target commandId expectedHead, TargetCall.create target commandId expectedHead ∈ s.calls ∧ h =
    targetHead P target commandId ∧ (s.world h.revisionKey).map Prod.snd = [toDocument target]) heads ∧ ∀ c,
    (c, .done (.ok ())) ∈ s.threads → c.head P ∈ heads) := by
  constructor
  · intro s hs
    obtain ⟨heads, hheads, hlinear, hok⟩ := heads_of_reached .rule P
      (fun w c hinv hc => RuleCall.safe hinv hc.1 hc.2) hs.of_calls
    refine ⟨heads, hheads, hlinear.mono ?_, hok⟩
    rintro h ⟨d, ⟨rule, commandId, -, hcall, rfl, rfl⟩, hobject⟩
    exact ⟨rule, commandId, hcall, rfl, hobject⟩
  · intro s hs
    obtain ⟨heads, hheads, hlinear, hok⟩ := heads_of_reached .target P
      (fun w c hinv hc => TargetCall.safe hinv hc.1 hc.2) hs.of_calls
    refine ⟨heads, hheads, hlinear.mono ?_, hok⟩
    rintro h ⟨d, ⟨target, commandId, expectedHead, -, hcall, rfl, rfl⟩, hobject⟩
    exact ⟨target, commandId, expectedHead, hcall, rfl, hobject⟩

/-! ## One call after the other -/

section Alone

variable {P : Platform} {w : Store} {X : Type} {O : X → Type}

def MovesHead {kind : Kind} (w : Store) (id : Uuid) (object : String) (h : Head kind)
    (r : Except AlertStoreError Unit) (w' : Store) : Prop :=
  r = .ok () ∧ (∃ v, w' (headKey kind id) = (v, toDocument h) :: w (headKey kind id)) ∧
    ∀ k, k ≠ object → k ≠ headKey kind id → w' k = w k

theorem movesHead_write {kind : Kind} {id : Uuid} {object : String} (hne : object ≠ headKey kind id) (v v' : Version)
    (d : Document) (h : Head kind) : MovesHead w id object h (.ok ())
    ((w.write object v d).write (headKey kind id) v' (toDocument h)) := by
  refine ⟨rfl, ⟨v', ?_⟩, fun k hobj hhead => ?_⟩
  · rw [write_same, write_other hne.symm]
  · rw [write_other hhead, write_other hobj]

theorem createRuleRevision_first {rule : Rule} {commandId : String} (hrev : rule.revision = 1)
    (hobj : w (ruleRevisionKey P rule.id rule.revision commandId) = []) (hhead : w (ruleHeadKey rule.id) = [])
    (hfits : ∀ d, Fits P d) : (createRuleRevision P rule commandId : StoreM O _).run.Alone (works O)
    (MovesHead w rule.id (ruleRevisionKey P rule.id rule.revision commandId) (ruleHead P rule commandId)) w := by
  have hne := revisionKey_ne_headKey P .rule rule.id rule.revision commandId
  refine Alone.bind_ok (createIdentical_new hobj (hfits _)) ?_
  rintro w₁ ⟨v, rfl⟩
  have hhead₁ : w.write (ruleRevisionKey P rule.id rule.revision commandId) v (toDocument rule)
      (ruleHeadKey rule.id) = [] :=
    (write_other hne.symm v _).trans hhead
  refine Alone.bind_attempt (readVersioned_absent hhead₁) ?_
  rintro w₂ rfl
  dsimp only
  rw [if_pos hrev]
  refine (createHead_new hhead₁ (hfits _)).mono fun r w' _ hr => ?_
  obtain ⟨rfl, v', rfl⟩ := hr
  exact movesHead_write hne v v' _ _

theorem tombstone_alone {kind : Kind} {t : Tombstone kind} {version : Version} {old : Document}
    {rest : List (Version × Document)} (hobj : w (tombstoneKey P kind t.id t.commandId) = [])
    (hhead : w (headKey kind t.id) = (version, old) :: rest) (hfits : ∀ d, Fits P d) :
    (tombstone P t version : StoreM O _).run.Alone (works O) (MovesHead w t.id (tombstoneKey P kind t.id t.commandId)
    (deletedHead P t)) w := by
  have hne := tombstoneKey_ne_headKey P kind t.id t.commandId
  refine Alone.bind_ok (createIdentical_new hobj (hfits _)) ?_
  rintro w₁ ⟨v, rfl⟩
  have hhead₁ : w.write (tombstoneKey P kind t.id t.commandId) v (toDocument t)
      (headKey kind t.id) = (version, old) :: rest :=
    (write_other hne.symm v _).trans hhead
  refine (update_alone hhead₁ (hfits _)).mono fun r w' _ hr => ?_
  obtain ⟨rfl, v', -, rfl⟩ := hr
  exact movesHead_write hne v v' _ _

end Alone

theorem Reached.call {C : Type} {program : C → StoreProgram} {starts : Store → C → Prop} {s : HeadPool C} {c : C}
    {post : Except AlertStoreError Unit → Store → Prop} (h : Reached program starts s) (hc : starts s.world c)
    (hrun : (program c).Alone (works NoAnswer) post s.world) : ∃ r w', post r w' ∧ Reached program starts
    ⟨w', s.threads ++ [(c, .done r)]⟩ := by
  obtain ⟨r, w', hr, hpost⟩ := Alone.exists_runs hrun
    (exists_works fun x => x.elim)
  exact ⟨r, w', hpost, h.run hc (hr.mono fun _ _ _ _ => answers_of_works)⟩

def plainPlatform : Platform where
  json _ := []
  parsed v := v
  sha256 bytes := bytes

theorem fits_plain (d : Document) : Fits plainPlatform d := Nat.zero_le _

def plainRule : Rule where
  revision := 1
  enabled := true
  condition := ⟨.gt, ⟨0⟩⟩
  forSeconds := 0
  recoverForSeconds := 0
  noData := .noData
  executionError := .error
  schemaVersion := 1
  id := 7
  targetId := "local"
  updatedAtUnixNano := 1
  rest := ""

def plainTombstone (commandId : String) : RuleTombstone := ⟨1, 7, 1, commandId, 2⟩

theorem heads_linear_create :
    ∃ s : HeadPool RuleCall, s.calls = [.create plainRule "a"] ∧
      (s.world (ruleHeadKey 7)).map Prod.snd =
        [toDocument (ruleHead plainPlatform plainRule "a")] ∧
      ∃ heads : List RuleHead,
        (s.world (ruleHeadKey 7)).map Prod.snd = heads.map toDocument ∧
        ∀ c, (c, .done (.ok ())) ∈ s.threads → c.head plainPlatform ∈ heads := by
  obtain ⟨r, w', ⟨rfl, ⟨v, hv⟩, -⟩, hs⟩ := Reached.call (c := .create plainRule "a")
    (.refl : Reached (RuleCall.program plainPlatform) (RuleCall.Starts plainPlatform 7) _)
    ⟨rfl, trivial⟩ (createRuleRevision_first rfl rfl rfl fits_plain)
  obtain ⟨heads, hheads, -, hok⟩ := (heads_linear plainPlatform 7).1 _ hs
  exact ⟨_, rfl, congrArg (map Prod.snd) hv, heads, hheads, hok⟩

/-- Nothing in `tombstone_rule` looks at the head. -/
theorem tombstone_follows_tombstone :
    ∃ (s : HeadPool RuleCall) (v₁ v₂ : Version),
      Reached (RuleCall.program plainPlatform)
        (fun w c => c.id = 7 ∧ ∀ t v, c = .tombstone t v → Observed (ruleHeadKey 7) w v) s ∧
      s.calls = [.create plainRule "a", .tombstone (plainTombstone "b") v₁,
        .tombstone (plainTombstone "c") v₂] ∧
      ∃ heads : List RuleHead,
        (s.world (ruleHeadKey 7)).map Prod.snd = heads.map toDocument ∧
        ∀ published, ¬ LinearHistory published heads := by
  have hkeys : tombstoneKey plainPlatform .rule 7 "b" ≠ ruleRevisionKey plainPlatform 7 1 "a" ∧
      tombstoneKey plainPlatform .rule 7 "c" ≠ ruleRevisionKey plainPlatform 7 1 "a" ∧
      tombstoneKey plainPlatform .rule 7 "c" ≠ tombstoneKey plainPlatform .rule 7 "b" := by
    decide +kernel
  have hhead := tombstoneKey_ne_headKey plainPlatform .rule 7
  obtain ⟨r, w₁, ⟨rfl, ⟨v₁, hv₁⟩, hrest₁⟩, hs₁⟩ := Reached.call (c := .create plainRule "a")
    (.refl : Reached (RuleCall.program plainPlatform)
      (fun w c => c.id = 7 ∧ ∀ t v, c = .tombstone t v → Observed (ruleHeadKey 7) w v) _)
    ⟨rfl, fun t v h => by cases h⟩ (createRuleRevision_first rfl rfl rfl fits_plain)
  obtain ⟨r, w₂, ⟨rfl, ⟨v₂, hv₂⟩, hrest₂⟩, hs₂⟩ :=
    hs₁.call (c := .tombstone (plainTombstone "b") v₁)
      ⟨rfl, fun t v h => by cases h; exact observed_of_cons hv₁⟩
      (tombstone_alone (t := plainTombstone "b") (hrest₁ _ hkeys.1 (hhead "b")) hv₁ fits_plain)
  obtain ⟨r, w₃, ⟨rfl, ⟨v₃, hv₃⟩, -⟩, hs₃⟩ :=
    hs₂.call (c := .tombstone (plainTombstone "c") v₂)
      ⟨rfl, fun t v h => by cases h; exact observed_of_cons hv₂⟩
      (tombstone_alone (t := plainTombstone "c") ((hrest₂ _ hkeys.2.2 (hhead "c")).trans (hrest₁ _ hkeys.2.1 (hhead "c")))
        hv₂ fits_plain)
  refine ⟨_, v₁, v₂, hs₃, rfl, [deletedHead plainPlatform (plainTombstone "c"),
    deletedHead plainPlatform (plainTombstone "b"), ruleHead plainPlatform plainRule "a"], ?_, ?_⟩
  · exact congrArg (map Prod.snd) (hv₃.trans (congrArg _ (hv₂.trans (congrArg _ hv₁))))
  · rintro published ⟨hlive, -⟩
    cases hlive

end Scry.Alert
