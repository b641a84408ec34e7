import Scry.Alert.Rotation

/-! # A rotation that is not interrupted

What earlier runs left is taken up: a run with the store to itself moves every referenced secret to its
current key, where a generation that is there already is the one it would have written.
-/

namespace Scry.Alert

open Scry.Lib ObjectStore Program List Record

section Uninterrupted

variable (C : Crypto) (P : Platform) (deploymentId : String) (keyring : SecretKeyring)

def Uninterrupted (ids : List NotificationTargetId) :
    Answers (Reply (K := String) (V := Version) (B := Document) RotateAnswer) Store :=
  answering (works RotateAnswer) fun
    | .listTargets, r => r = some ids
    | _, _ => True

structure HasSpace (name : SecretName) (plaintext : List UInt8) : Prop where
  record : ∀ old nonce now envelope,
    keyring.encrypt C ⟨deploymentId, name.1, name.2, old + 1⟩ plaintext nonce = .ok envelope →
      Fits P (toDocument (freshRecord deploymentId name old envelope now))
  head : ∀ generation record,
    Fits P (toDocument (nextSecretHead deploymentId name.1 name.2 generation record))

variable {C P deploymentId keyring} {slots : List SecretKeySlot} {w w₀ : Store} {name : SecretName}
  {plaintext : List UInt8} {generation : UInt64} {slot : SecretKeySlot} {ids : List NotificationTargetId}

variable {Q : Store → Prop} {α β : Type} {post : Except RotateError β → Store → Prop} {x : StoreM RotateAnswer α}

theorem alone_bind_fromStore
    {f : α → RotateM β} {a : α} (hx : x.run.Alone (works RotateAnswer)
    (fun r w' => r = .ok a ∧ Q w') w) (hf : ∀ w', Q w' → (f a).run.Alone (Uninterrupted ids) post w') :
    (fromStore x >>= f).run.Alone (Uninterrupted ids) post w := by
  refine safe_bind_fromStore trivial ((hx.answers_mono base_of_answering).mono fun r w' _ hr => ?_)
  obtain ⟨rfl, hw'⟩ := hr
  exact hf w' hw'

theorem alone_bind_attempt
    {f : Except AlertStoreError α → RotateM β} {r : Except AlertStoreError α}
    (hx : x.run.Alone (works RotateAnswer) (fun r' w' => r' = r ∧ Q w') w)
    (hf : ∀ w', Q w' → (f r).run.Alone (Uninterrupted ids) post w') : (attempt x >>= f).run.Alone (Uninterrupted ids)
    post w :=
  Alone.bind_attempt (hx.answers_mono base_of_answering) hf

theorem readSecretHead_alone {head : Versioned SecretHead} (h : Readable P w (secretHeadKey name.1 name.2) head) :
    (readSecretHead P name.1 name.2 : StoreM RotateAnswer _).run.Alone (works RotateAnswer)
    (fun r w' => r = .ok (some head) ∧ w' = w) w := by
  refine Alone.bind_attempt h.alone ?_
  rintro w' rfl
  exact .done ⟨rfl, rfl⟩

theorem resumed_of_rotated {old record : SecretGenerationRecord}
    (h : Rotated C deploymentId keyring.current name plaintext old.generation record) :
    resumed C deploymentId keyring name.1 name.2 old plaintext record = .ok record := by
  have hdec := h.envelope.decrypt (slot_current keyring)
  unfold resumed
  dsimp only
  rw [if_neg (by simp [h.deployment, h.targetId, h.logicalSecretId, h.generation, h.rotationOf,
    h.envelope.keyId]), hdec]
  simp

theorem nextRecord_alone (hC : C.Lawful) (hspace : HasSpace C P deploymentId keyring name plaintext)
    (hsec : isSecret plaintext = true) {old : SecretGenerationRecord}
    (h : w (secretGenerationKey name.1 name.2 (old.generation + 1)) = [] ∨ ∃ r : Versioned SecretGenerationRecord,
    Readable P w (secretGenerationKey name.1 name.2 (old.generation + 1)) r ∧ Rotated C deploymentId keyring.current
    name plaintext old.generation r.value) : (nextRecord C P deploymentId keyring name.1 name.2 old
    plaintext).run.Alone (Uninterrupted ids) (fun r w' => w' = w ∧ ∃ record, r = .ok record ∧ Fits P
    (toDocument record) ∧ Rotated C deploymentId keyring.current name plaintext old.generation record ∧ ∀ e ∈
    (w (secretGenerationKey name.1 name.2 (old.generation + 1))).head?, e.2 = toDocument record) w := by
  rcases h with habs | ⟨existing, hexisting, hrot⟩
  · refine alone_bind_attempt (readVersioned_absent habs) ?_
    rintro w' rfl
    refine Safe.bind_except trivial (Alone.bind_query fun nonce w hw => ?_)
    obtain ⟨rfl : w = w', -⟩ := hw
    obtain ⟨envelope, henc⟩ := exists_encrypt hC keyring
      ⟨deploymentId, name.1, name.2, old.generation + 1⟩ hsec nonce
    rw [henc]
    refine .done (Alone.bind_query fun now w' hw => ?_)
    obtain ⟨rfl : w' = w, -⟩ := hw
    refine .done ⟨rfl, freshRecord deploymentId name old.generation envelope now, rfl,
      hspace.record _ _ _ _ henc, rotated_freshRecord (encrypt_sealed hC henc), ?_⟩
    rw [habs]
    intro e he
    cases he
  · refine alone_bind_attempt hexisting.alone ?_
    rintro w' rfl
    obtain ⟨rest, htop, hfits⟩ := readable_generation hexisting
    dsimp only
    rw [resumed_of_rotated hrot]
    refine .done ⟨rfl, existing.value, rfl, hfits, hrot, ?_⟩
    rw [htop]
    rintro e ⟨⟩
    rfl

theorem commitSecretGeneration_alone (hcur : keyring.current ∈ slots)
    (h : Holds C P deploymentId slots w name plaintext generation slot) (hlt : generation.toNat + 1 < 2 ^ 64)
    (hne : keyring.current.id ≠ slot.id) {head : Versioned SecretHead}
    (hhead : Readable P w (secretHeadKey name.1 name.2) head) {record : SecretGenerationRecord}
    (hfits : Fits P (toDocument record)) (hrot : Rotated C deploymentId keyring.current name plaintext
    generation record) (hthere : ∀ e ∈ (w (secretGenerationKey name.1 name.2 (generation + 1))).head?, e.2 =
    toDocument record) (hfitsHead : Fits P (toDocument
    (nextSecretHead deploymentId name.1 name.2 (generation + 1) record))) :
    (commitSecretGeneration P record (nextSecretHead deploymentId name.1 name.2 (generation + 1) record)
    (some head.version) : StoreM RotateAnswer _).run.Alone (works RotateAnswer)
    (fun r w' => r = .ok () ∧ (∀ key, ¬ BelongsTo name key → w' key = w key) ∧ Holds C P deploymentId slots w' name
    plaintext (generation + 1) keyring.current) w := by
  rw [commitSecretGeneration_rotated hrot]
  have hcre : (createIdentical P (secretGenerationKey name.1 name.2 (generation + 1)) record :
      StoreM RotateAnswer _).run.Alone (works RotateAnswer)
      (fun r w₁ => r = .ok () ∧ (∀ key ≠ secretGenerationKey name.1 name.2 (generation + 1), w₁ key = w key) ∧
        Holds C P deploymentId slots w₁ name plaintext generation slot ∧
        ∃ version, Readable P w₁ (secretGenerationKey name.1 name.2 (generation + 1)) ⟨record, version⟩) w := by
    refine (createIdentical_alone hfits fun e he => hthere e he ▸ hfits).mono fun r w₁ _ hr => ?_
    cases htop : w (secretGenerationKey name.1 name.2 (generation + 1)) with
    | nil =>
      rw [htop] at hr
      obtain ⟨rfl, version, rfl⟩ := hr
      exact ⟨rfl, fun key hkey => write_other hkey _ _, h.create hlt hcur hne hrot hfits, version,
        readable_of_generation (write_same ..) hfits⟩
    | cons e rest =>
      obtain ⟨version, document⟩ := e
      rw [htop] at hr hthere
      obtain rfl : document = toDocument record := hthere _ rfl
      obtain ⟨rfl, rfl⟩ := hr
      exact ⟨if_pos rfl, fun _ _ => rfl, h, version, readable_of_generation htop hfits⟩
  refine Alone.bind_ok hcre fun w₁ hw₁ => ?_
  obtain ⟨hsame, hholds, version, hrec⟩ := hw₁
  obtain ⟨document, rest, htop, -⟩ :=
    hhead.congr (hsame _ (secretGenerationKey_ne_secretHeadKey _ _ _ _ _).symm)
  refine (update_alone htop hfitsHead).mono fun r w₂ _ hr => ?_
  obtain ⟨rfl, fresh, -, rfl⟩ := hr
  refine ⟨rfl, fun key hkey => ?_, hholds.move hlt hcur hrec hrot rfl hfitsHead⟩
  have hneHead : key ≠ secretHeadKey name.1 name.2 := fun heq => hkey (.inl heq)
  rw [write_other hneHead]
  exact hsame key fun heq => hkey (.inr ⟨_, heq⟩)

theorem rotateSecret_alone (hC : C.Lawful) (hkeys : ∀ s ∈ slots, keyring.slot s.id = some s)
    (hcur : keyring.current ∈ slots) (hspace : HasSpace C P deploymentId keyring name plaintext)
    (h : Holds C P deploymentId slots w name plaintext generation slot)
    (hlt : slot.id ≠ keyring.current.id → generation.toNat + 1 < 2 ^ 64) :
    (rotateSecret C P deploymentId keyring name.1 name.2 false).run.Alone (Uninterrupted ids)
    (fun r w' => (∃ moved, r = .ok moved) ∧ (w' = w ∧ slot = keyring.current ∨ slot.id ≠ keyring.current.id ∧
    (∀ key, ¬ BelongsTo name key → w' key = w key) ∧ Holds C P deploymentId slots w' name plaintext (generation + 1)
    keyring.current)) w := by
  obtain ⟨head, hhead, hnames⟩ := h.head
  obtain ⟨old, hold, hgen, hsealed⟩ := h.record
  refine alone_bind_fromStore (readSecretHead_alone hhead) ?_
  rintro w' rfl
  rw [← hnames] at hold
  refine alone_bind_fromStore hold.alone ?_
  rintro w rfl
  dsimp only
  rw [hsealed.keyId]
  split
  next hid =>
    have hslot := hkeys slot h.known
    rw [hid, slot_current] at hslot
    exact .done ⟨⟨_, rfl⟩, .inl ⟨rfl, (Option.some.inj hslot).symm⟩⟩
  next hid =>
    rw [hgen, hsealed.decrypt (hkeys slot h.known)]
    dsimp only
    rw [if_neg Bool.false_ne_true]
    have hnext : w (secretGenerationKey name.1 name.2 (generation + 1)) = [] ∨
        ∃ r : Versioned SecretGenerationRecord,
          Readable P w (secretGenerationKey name.1 name.2 (generation + 1)) r ∧
            Rotated C deploymentId keyring.current name plaintext generation r.value := by
      refine (h.behind (generation + 1) (by rw [Holds.toNat_succ (hlt hid)]; omega)).imp_right ?_
      rintro ⟨-, r, slot', hknown, hne, hr, hrot⟩
      rw [eq_current_of_ne (hkeys slot h.known) (hkeys slot' hknown) hid hne] at hrot
      exact ⟨r, hr, hrot⟩
    rw [← hgen] at hnext
    refine Safe.bind_except trivial
      ((nextRecord_alone hC hspace hsealed.isSecret hnext).mono fun r w' _ hr => ?_)
    obtain ⟨rfl, record, rfl, hfits, hrot, hthere⟩ := hr
    rw [hgen] at hrot hthere
    refine alone_bind_fromStore (commitSecretGeneration_alone hcur h (hlt hid) (Ne.symm hid) hhead hfits
      hrot hthere (hspace.head _ _)) fun w'' hw'' => ?_
    exact .done ⟨⟨_, rfl⟩, .inr ⟨hid, hw''⟩⟩

/-! ### The targets -/

variable (P) in
/-- No head, deleted, or live; none of the target's objects is damaged. -/
def TargetSound (w : Store) (id : NotificationTargetId) : Prop :=
  w (targetHeadKey id) = [] ∨
    (∃ head : Versioned TargetHead, Readable P w (targetHeadKey id) head ∧ head.value.schemaVersion =
      alertRecordSchemaVersion ∧ head.value.id = id ∧ head.value.deleted = true) ∨
    ∃ head target, LiveTarget P w id head target

variable {head : Versioned TargetHead} {id : NotificationTargetId} {report : RotationReport}

theorem LiveTarget.unique {head' : Versioned TargetHead} {target target' : Versioned NotificationTarget}
    (h : LiveTarget P w id head target) (h' : LiveTarget P w id head' target') : target = target' := by
  obtain rfl := h.readHead.unique h'.readHead
  exact h.readRevision.unique h'.readRevision

theorem readTargetHead_alone (h : Readable P w (targetHeadKey id) head)
    (hschema : head.value.schemaVersion = alertRecordSchemaVersion) (hid : head.value.id = id) :
    (readTargetHead P id : StoreM RotateAnswer _).run.Alone (works RotateAnswer)
      (fun r w' => r = .ok head ∧ w' = w) w := by
  refine Alone.bind_ok h.alone ?_
  rintro w' rfl
  rw [if_neg (by simp [hschema, hid])]
  exact .done ⟨rfl, rfl⟩

theorem readTargetHead_absent (h : w (targetHeadKey id) = []) : (readTargetHead P id : StoreM RotateAnswer
    _).run.Alone (works RotateAnswer) (fun r w' => r = .error (.missing (targetHeadKey id)) ∧ w' = w) w := by
  refine Safe.bind_except trivial ((readVersioned_absent h).mono fun r w' _ hr => ?_)
  obtain ⟨rfl, rfl⟩ := hr
  exact ⟨rfl, rfl⟩

theorem readTargetRevision_alone {target : Versioned NotificationTarget} (h : LiveTarget P w id head target) :
    (readTargetRevision P head.value : StoreM RotateAnswer _).run.Alone (works RotateAnswer)
      (fun r w' => r = .ok target ∧ w' = w) w := by
  unfold readTargetRevision
  rw [if_neg (by simp [h.live, h.revisionKey])]
  refine Alone.bind_ok h.readRevision.alone ?_
  rintro w' rfl
  rw [if_neg (by simp [h.targetId, h.targetRevision])]
  exact .done ⟨rfl, rfl⟩

theorem mem_insertName {name' : SecretName} {names : List SecretName} :
    name' ∈ insertName name names ↔ name' = name ∨ name' ∈ names := by
  unfold insertName
  split
  · rename_i hmem
    constructor
    · exact .inr
    · rintro (rfl | h)
      · exact hmem
      · exact h
  · exact mem_orderedInsert _

structure Found (P : Platform) (w : Store) (done : List NotificationTargetId)
    (found : RotationReport × List SecretName) : Prop where
  failed : found.1.failed = []
  sound : ∀ name ∈ found.2, Referenced P w name
  complete : ∀ name, name.1 ∈ done → Referenced P w name → name ∈ found.2

variable {done : List NotificationTargetId} {found : RotationReport × List SecretName}

theorem Found.skip
    (h : Found P w done found) (hskip : ∀ name, name.1 = id → ¬ Referenced P w name)
    (hreport : report.failed = found.1.failed) : Found P w (done ++ [id]) (report, found.2) := by
  refine ⟨hreport.trans h.failed, h.sound, fun name hname href => ?_⟩
  rcases mem_append.mp hname with hname | hname
  · exact h.complete name hname href
  · exact absurd href (hskip name (mem_singleton.mp hname))

theorem examineTarget_alone
    (h : Found P w done found) (hsound : TargetSound P w id) : (examineTarget P found id).run.Alone
    (Uninterrupted ids) (fun r w' => ∃ found', r = .ok found' ∧ w' = w ∧ Found P w (done ++ [id]) found') w := by
  rcases hsound with habs | ⟨head, hhead, hschema, hid, hdel⟩ | ⟨head, target, hlive⟩
  · refine alone_bind_attempt (readTargetHead_absent habs) ?_
    rintro w' rfl
    refine .done ⟨_, rfl, rfl, h.skip (fun name hname href => ?_) rfl⟩
    obtain ⟨head, target, hlive, -⟩ := href
    exact hlive.readHead.ne_nil (hname ▸ habs)
  · refine alone_bind_attempt (readTargetHead_alone hhead hschema hid) ?_
    rintro w' rfl
    dsimp only
    rw [if_pos hdel]
    refine .done ⟨_, rfl, rfl, h.skip (fun name hname href => ?_) rfl⟩
    obtain ⟨head', target, hlive, -⟩ := href
    obtain rfl := hhead.unique (hname ▸ hlive.readHead)
    rw [hlive.live] at hdel
    cases hdel
  · refine alone_bind_attempt (readTargetHead_alone hlive.readHead hlive.schemaVersion hlive.headId) ?_
    rintro w' rfl
    dsimp only
    rw [if_neg (by simp [hlive.live])]
    refine alone_bind_attempt (readTargetRevision_alone hlive) ?_
    rintro w rfl
    have hname : ∀ name, name.1 = id → (Referenced P w name ↔
        target.value.secretGeneration > 0 ∧ target.value.logicalSecretId = name.2) := by
      rintro name rfl
      constructor
      · rintro ⟨head', target', hlive', hrest⟩
        obtain rfl := hlive.unique hlive'
        exact hrest
      · exact fun hrest => ⟨head, target, hlive, hrest⟩
    have htarget : target.value.id = id := hlive.targetId.trans hlive.headId
    dsimp only
    split
    next hpos =>
      refine .done ⟨_, rfl, rfl, h.failed, fun name hmem => ?_, fun name hmem href => ?_⟩
      · rcases mem_insertName.mp hmem with rfl | hmem
        · exact (hname _ htarget).mpr ⟨hpos, rfl⟩
        · exact h.sound name hmem
      · apply mem_insertName.mpr
        rcases mem_append.mp hmem with hmem | hmem
        · exact .inr (h.complete name hmem href)
        · obtain rfl := mem_singleton.mp hmem
          exact .inl (Prod.ext htarget.symm ((hname name rfl).mp href).2.symm)
    next hzero =>
      refine .done ⟨_, rfl, rfl, h.skip (fun name hid href => ?_) rfl⟩
      exact hzero ((hname name hid).mp href).1

/-! ### The secrets -/

variable {original : SecretName → List UInt8} {bound : SecretName → Nat}

def AtCurrent (C : Crypto) (P : Platform) (deploymentId : String) (slots : List SecretKeySlot)
    (current : SecretKeySlot) (w : Store) (name : SecretName) (plaintext : List UInt8) : Prop :=
  ∃ generation, Holds C P deploymentId slots w name plaintext generation current

theorem rotateOne_alone (hC : C.Lawful) (hkeys : ∀ s ∈ slots, keyring.slot s.id = some s)
    (hcur : keyring.current ∈ slots) (hbound : ∀ name, Referenced P w₀ name → bound name + 1 < 2 ^ 64)
    (hspace : ∀ name, Referenced P w₀ name → HasSpace C P deploymentId keyring name (original name))
    (h : Rotating C P deploymentId slots original bound keyring.current w₀ w) {done : List SecretName}
    (hdone : ∀ name ∈ done, AtCurrent C P deploymentId slots keyring.current w name (original name))
    (hfailed : report.failed = []) (href : Referenced P w₀ name) : (rotateOne C P deploymentId keyring false report
    name).run.Alone (Uninterrupted ids) (fun r w' => ∃ report', r = .ok report' ∧ report'.failed = [] ∧ Rotating C P
    deploymentId slots original bound keyring.current w₀ w' ∧ ∀ name' ∈ done ++ [name], AtCurrent C P deploymentId
    slots keyring.current w' name' (original name')) w := by
  obtain ⟨generation, slot, hholds, hle⟩ := h.secrets name href
  have hlt : slot.id ≠ keyring.current.id → generation.toNat ≤ bound name := fun hid =>
    hle.resolve_right fun heq => hid (congrArg _ heq.1)
  have hbelow := hbound name href
  refine Safe.bind_attempt trivial ((rotateSecret_alone hC hkeys hcur (hspace name href) hholds
    fun hid => by have := hlt hid; omega).mono fun r w' _ hr => ?_)
  obtain ⟨⟨moved, rfl⟩, hw'⟩ := hr
  have hafter : Rotating C P deploymentId slots original bound keyring.current w₀ w' ∧
      ∀ name' ∈ done ++ [name],
        AtCurrent C P deploymentId slots keyring.current w' name' (original name') := by
    rcases hw' with ⟨rfl, rfl⟩ | ⟨hid, hframe, hmoved⟩
    · refine ⟨h, fun name' hname' => ?_⟩
      rcases mem_append.mp hname' with hname' | hname'
      · exact hdone name' hname'
      · obtain rfl := mem_singleton.mp hname'
        exact ⟨generation, hholds⟩
    · -- Another secret is as it was.
      have hother : ∀ name' ≠ name, ∀ key, BelongsTo name' key → w' key = w key :=
        fun name' hne key hkey => hframe key fun hown => hne (hkey.unique hown)
      refine ⟨⟨fun key hkey => ?_, fun name' href' => ?_⟩, fun name' hname' => ?_⟩
      · rw [hframe key fun hown => hkey hown.isSecretKey, h.others key hkey]
      · by_cases hsame : name' = name
        · subst hsame
          refine ⟨_, _, hmoved, .inr ⟨rfl, ?_⟩⟩
          have := hlt hid
          rw [Holds.toNat_succ (by omega)]
          omega
        · obtain ⟨generation', slot', hholds', hle'⟩ := h.secrets name' href'
          exact ⟨generation', slot', hholds'.frame (hother name' hsame), hle'⟩
      · by_cases hsame : name' = name
        · subst hsame
          exact ⟨_, hmoved⟩
        · obtain ⟨generation', hholds'⟩ :=
            hdone name' ((mem_append.mp hname').resolve_right fun h => hsame (mem_singleton.mp h))
          exact ⟨generation', hholds'.frame (hother name' hsame)⟩
  cases moved with
  | true => exact Alone.done ⟨_, rfl, hfailed, hafter⟩
  | false => exact Alone.done ⟨_, rfl, hfailed, hafter⟩

theorem verifyOne_alone (h : AtCurrent C P deploymentId slots keyring.current w name plaintext) :
    (verifyOne P keyring report name).run.Alone (Uninterrupted ids) (fun r w' => r = .ok report ∧ w' = w) w := by
  obtain ⟨generation, hholds⟩ := h
  obtain ⟨head, hhead, rfl⟩ := hholds.head
  obtain ⟨record, hrec, -, hsealed⟩ := hholds.record
  have hverify : (verifyCurrentKey P keyring name.1 name.2).run.Alone (Uninterrupted ids)
      (fun r w' => r = .ok () ∧ w' = w) w := by
    refine alone_bind_fromStore (readSecretHead_alone hhead) ?_
    rintro w' rfl
    refine alone_bind_fromStore hrec.alone ?_
    rintro w rfl
    rw [if_neg (by simp [hsealed.keyId])]
    exact .done ⟨rfl, rfl⟩
  refine Alone.bind_attempt hverify ?_
  rintro w' rfl
  exact .done ⟨rfl, rfl⟩

/-! ### The run -/

theorem TargetSound.congr (h : TargetSound P w₀ id) (hw : ∀ key, ¬ IsSecretKey key → w key = w₀ key) :
    TargetSound P w id := by
  have hkey := hw _ (not_isSecretKey_targetHeadKey id)
  rcases h with habs | ⟨head, hhead, hrest⟩ | ⟨head, target, hlive⟩
  · exact .inl (hkey.trans habs)
  · exact .inr (.inl ⟨head, hhead.congr hkey, hrest⟩)
  · exact .inr (.inr ⟨head, target, hlive.congr hw⟩)

theorem listTargetIds_alone (hcnt : ids.length ≤ maxListedTargets) :
    listTargetIds.run.Alone (Uninterrupted ids) (fun r w' => r = .ok ids ∧ w' = w) w := by
  refine Alone.bind_query fun r w' hw => ?_
  obtain ⟨rfl : w' = w, rfl : r = some ids⟩ := hw
  dsimp only
  rw [if_neg (Nat.not_lt.mpr hcnt)]
  exact .done ⟨rfl, rfl⟩

theorem rotate_alone (hC : C.Lawful) (hkeys : ∀ s ∈ slots, keyring.slot s.id = some s)
    (hcur : keyring.current ∈ slots) (hbound : ∀ name, Referenced P w₀ name → bound name + 1 < 2 ^ 64)
    (hspace : ∀ name, Referenced P w₀ name → HasSpace C P deploymentId keyring name (original name))
    (hcnt : ids.length ≤ maxListedTargets) (hsound : ∀ id ∈ ids, TargetSound P w₀ id)
    (hlisted : ∀ name, Referenced P w₀ name → name.1 ∈ ids) (h : Rotating C P deploymentId slots original bound
    keyring.current w₀ w) : (rotate C P deploymentId keyring false).run.Alone (Uninterrupted ids)
    (fun r w' => ∃ report, r = .ok report ∧ report.failed = [] ∧ ∀ name, Referenced P w₀ name → AtCurrent C P
    deploymentId slots keyring.current w' name (original name)) w := by
  have hback : ∀ key, ¬ IsSecretKey key → w₀ key = w key := fun key hkey => (h.others key hkey).symm
  refine Alone.bind_ok (listTargetIds_alone hcnt) ?_
  rintro w' rfl
  refine Safe.bind_except trivial ((Safe.foldlM
    (I := fun done found w'' => w'' = w' ∧ Found P w' done found) ?_ ?_ trivial
    ⟨rfl, rfl, forall_mem_nil _, fun _ hmem => absurd hmem not_mem_nil⟩).mono fun r w₁ _ hr => ?_)
  · rintro done found w₁ w₂ rfl hfound
    exact hfound
  · rintro done id rest found w₁ rfl - ⟨rfl, hfound⟩
    exact examineTarget_alone hfound ((hsound id (by simp)).congr h.others)
  obtain ⟨⟨report, referenced⟩, rfl, rfl, hfound⟩ := hr
  have hreferenced : ∀ name, Referenced P w₀ name ↔ name ∈ referenced := fun name =>
    ⟨fun href => hfound.complete name (hlisted name href) (href.congr h.others),
      fun hmem => (hfound.sound name hmem).congr hback⟩
  refine Safe.bind_except trivial (Alone.bind_query fun heads w₂ hw => ?_)
  obtain ⟨rfl : w₂ = w₁, -⟩ := hw
  refine .done ?_
  refine Safe.bind_except trivial ((Safe.foldlM
    (I := fun done report w => report.failed = [] ∧
      Rotating C P deploymentId slots original bound keyring.current w₀ w ∧
      ∀ name ∈ done, AtCurrent C P deploymentId slots keyring.current w name (original name))
    ?_ ?_ trivial ⟨hfound.failed, h, forall_mem_nil _⟩).mono fun r w₃ _ hr => ?_)
  · rintro done report w₁ w₂ rfl hdone
    exact hdone
  · rintro done name rest report w₁ rfl - ⟨hfailed, hrotating, hdone⟩
    exact rotateOne_alone hC hkeys hcur hbound hspace hrotating hdone hfailed
      ((hreferenced name).mpr (by simp))
  obtain ⟨report', rfl, hfailed, -, hdone⟩ := hr
  dsimp only
  rw [if_neg Bool.false_ne_true]
  refine (Safe.foldlM (I := fun _ report w => report = report' ∧ w = w₃) ?_ ?_ trivial
    ⟨rfl, rfl⟩).mono fun r w₄ _ hr => ?_
  · rintro done report w₁ w₂ rfl hsame
    exact hsame
  · rintro done name rest _ _ hlist - ⟨rfl, rfl⟩
    refine (verifyOne_alone (hdone name (hlist ▸ by simp))).mono fun r w' _ hr => ?_
    exact ⟨_, hr.1, rfl, hr.2⟩
  · obtain ⟨_, rfl, rfl, rfl⟩ := hr
    exact ⟨_, rfl, hfailed, fun name href => hdone name ((hreferenced name).mp href)⟩

def NamesSealed (C : Crypto) (P : Platform) (deploymentId : String) (slot : SecretKeySlot) (w : Store)
    (name : SecretName) (plaintext : List UInt8) : Prop :=
  ∃ (head : Versioned SecretHead) (record : Versioned SecretGenerationRecord),
    Readable P w (secretHeadKey name.1 name.2) head ∧
    Readable P w (secretGenerationKey name.1 name.2 head.value.generation) record ∧
    Sealed C slot ⟨deploymentId, name.1, name.2, head.value.generation⟩ plaintext record.value.envelope

theorem AtCurrent.namesSealed {current : SecretKeySlot} (h : AtCurrent C P deploymentId slots current w name
    plaintext) : NamesSealed C P deploymentId current w name plaintext := by
  obtain ⟨generation, hholds⟩ := h
  obtain ⟨head, hhead, rfl⟩ := hholds.head
  obtain ⟨record, hrec, -, hsealed⟩ := hholds.record
  exact ⟨head, record, hhead, hrec, hsealed⟩

/-- **Rotations resume.** After any number of stopped runs, each with a keyring that decrypts what was used so
far, an uninterrupted run leaves every referenced secret under its current key, the plaintext as it was. -/
theorem rotation_resumes (hC : C.Lawful) {n : Nat} {slots₀ : List SecretKeySlot}
    (hstart : ∀ name, Referenced P w₀ name → ∃ generation slot, Holds C P deploymentId slots₀ w₀ name (original name)
    generation slot ∧ generation.toNat + n + 1 < 2 ^ 64) (hsound : ∀ id ∈ ids, TargetSound P w₀ id)
    (hlisted : ∀ name, Referenced P w₀ name → name.1 ∈ ids) (hcount : ids.length ≤ maxListedTargets)
    (hbefore : RunsBefore C P deploymentId w₀ slots₀ n slots w) (hkeys : ∀ s ∈ slots, keyring.slot s.id = some s)
    (hspace : ∀ name, Referenced P w₀ name → HasSpace C P deploymentId keyring name (original name)) :
    (∃ r w', (rotate C P deploymentId keyring false).run.Runs (Uninterrupted ids) w r w') ∧ ∀ r w',
    (rotate C P deploymentId keyring false).run.Runs (Uninterrupted ids) w r w' → ∃ report, r = .ok report ∧
    report.failed = [] ∧ ∀ name, Referenced P w₀ name → NamesSealed C P deploymentId keyring.current w' name
    (original name) := by
  have hroom : ∀ name, Referenced P w₀ name → n + 1 < 2 ^ 64 := by
    intro name href
    obtain ⟨generation, slot, -, hlt⟩ := hstart name href
    omega
  have hrotating := RunsBefore.rotating hC (fun _ => 2 ^ 64 - 2 - n) (fun name href => by
      obtain ⟨generation, slot, hholds, hlt⟩ := hstart name href
      exact ⟨generation, slot, hholds, by omega⟩) hbefore
    (fun name href => by have := hroom name href; omega) keyring.current
  have halone := rotate_alone hC (slot_of_mem_cons hkeys) mem_cons_self
    (fun name href => by have := hroom name href; omega) hspace hcount hsound hlisted hrotating
  constructor
  · refine exists_runs (exists_answering_works fun x => ?_) _ w
    cases x with
    | listTargets => exact ⟨some ids, rfl⟩
    | listSecretHeads => exact ⟨none, trivial⟩
    | nonce => exact ⟨Vector.replicate 24 0, trivial⟩
    | now => exact ⟨0, trivial⟩
  · intro r w' hruns
    obtain ⟨report, hr, hfailed, hcurrent⟩ := halone.runs trivial hruns
    exact ⟨report, hr, hfailed, fun name href => (hcurrent name href).namesSealed⟩

end Uninterrupted

/-! ## One secret -/

section Example

/-- Not a cipher, but lawful. -/
def mirror : Crypto where
  aeadEncrypt _ _ message _ := some message
  aeadDecrypt _ _ ciphertext _ := some ciphertext
  encode bytes := String.ofList (bytes.map fun b => Char.ofNat b.toNat)
  decode text := some (text.toList.map fun c => UInt8.ofNat c.toNat)

theorem mirror_lawful : mirror.Lawful where
  decode_encode bytes := by
    have hbyte (b : UInt8) : UInt8.ofNat (Char.ofNat b.toNat).toNat = b := by
      have hlt : b.toNat < 256 := b.toNat_lt
      have hvalid : b.toNat.isValidChar := .inl (by omega)
      have htoNat : (Char.ofNat b.toNat).toNat = b.toNat := by
        rw [Char.ofNat, dif_pos hvalid]
        rfl
      rw [htoNat, UInt8.ofNat_toNat]
    simp only [mirror, String.toList_ofList, map_map]
    exact congrArg some (map_id'' hbyte bytes)
  encrypt_isSome _ _ _ _ _ := rfl
  decrypt_encrypt key nonce message aad ciphertext h := h.symm

def shortPlatform : Platform := ⟨fun _ => [], id, id⟩

theorem fits_shortPlatform (document : Document) : Fits shortPlatform document := Nat.zero_le _

def oldSlot : SecretKeySlot := ⟨"old", Vector.replicate 32 1⟩

def newSlot : SecretKeySlot := ⟨"new", Vector.replicate 32 2⟩

def rolledKeyring : SecretKeyring := ⟨newSlot, some oldSlot⟩

def onlyTarget : NotificationTarget := ⟨1, 1, 1, 2, 1, 0, ""⟩

def onlyRevisionKey : String := Kind.target.root ++ uuidText 1 ++ "/r.json"

def onlyHead : TargetHead := ⟨1, 1, 1, onlyRevisionKey, 0, false, none⟩

def onlyRecord : SecretGenerationRecord :=
  ⟨1, "d", 1, 2, 1, ⟨1, "old", mirror.encode (replicate 24 0), mirror.encode [7]⟩, none, 0⟩

def onlySecretHead : SecretHead := ⟨1, "d", 1, 2, 1, secretGenerationKey 1 2 1, 0⟩

def secretStore : Store := fun key =>
  if key = targetHeadKey 1 then [(0, toDocument onlyHead)]
  else if key = onlyRevisionKey then [(0, toDocument onlyTarget)]
  else if key = secretHeadKey 1 2 then [(0, toDocument onlySecretHead)]
  else if key = secretGenerationKey 1 2 1 then [(0, toDocument onlyRecord)]
  else []

theorem targetHeadKey_inj {id id' : NotificationTargetId} (h : targetHeadKey id = targetHeadKey id') : id = id' := by
  unfold targetHeadKey headKey at h
  simp only [← String.toList_inj, String.toList_append, append_assoc] at h
  obtain ⟨hid, -⟩ := append_inj (append_cancel_left h) (by simp)
  exact uuidText_inj (String.toList_inj.mp hid)

variable (id : NotificationTargetId)

theorem onlyRevisionKey_ne : onlyRevisionKey ≠ targetHeadKey id := by
  intro h
  unfold onlyRevisionKey targetHeadKey headKey at h
  have hlen := congrArg (fun s => s.toList.length) h
  simp at hlen

theorem isTargetRevisionKey_only : isTargetRevisionKey 1 onlyRevisionKey = true := by decide +kernel

theorem secretStore_secret {key : String} (h : IsSecretKey key) :
    secretStore key = if key = secretHeadKey 1 2 then [(0, toDocument onlySecretHead)]
      else if key = secretGenerationKey 1 2 1 then [(0, toDocument onlyRecord)] else [] := by
  have hhead : key ≠ targetHeadKey 1 := fun heq => not_isSecretKey_targetHeadKey 1 (heq ▸ h)
  have hrev : key ≠ onlyRevisionKey := fun heq =>
    not_isSecretKey_revision isTargetRevisionKey_only (heq ▸ h)
  rw [secretStore, if_neg hhead, if_neg hrev]

theorem secretStore_generation (g : UInt64) :
    secretStore (secretGenerationKey 1 2 g) =
      if g = 1 then [(0, toDocument onlyRecord)] else [] := by
  rw [secretStore_secret (isSecretKey_generation 1 2 g), if_neg (secretGenerationKey_ne_secretHeadKey _ _ _ _ _)]
  refine if_congr ⟨fun h => (secretGenerationKey_inj h).2.2, fun h => ?_⟩ rfl rfl
  rw [h]

theorem secretStore_targetHead :
    secretStore (targetHeadKey id) = if id = 1 then [(0, toDocument onlyHead)] else [] := by
  have hsec (key : String) (h : IsSecretKey key) : targetHeadKey id ≠ key := fun heq =>
    not_isSecretKey_targetHeadKey id (heq ▸ h)
  rw [secretStore, if_neg (onlyRevisionKey_ne id).symm, if_neg (hsec _ (isSecretKey_head 1 2)),
    if_neg (hsec _ (isSecretKey_generation 1 2 1))]
  refine if_congr ⟨targetHeadKey_inj, fun h => ?_⟩ rfl rfl
  rw [h]

theorem liveTarget_secretStore : LiveTarget shortPlatform secretStore 1 ⟨onlyHead, 0⟩ ⟨onlyTarget, 0⟩ where
  readHead := ⟨_, [], secretStore_targetHead 1, fits_shortPlatform _, ofDocument_toDocument_head _ _⟩
  schemaVersion := rfl
  headId := rfl
  live := rfl
  revisionKey := isTargetRevisionKey_only
  readRevision := by
    refine ⟨_, [], ?_, fits_shortPlatform (toDocument onlyTarget), rfl⟩
    show secretStore onlyRevisionKey = _
    rw [secretStore, if_neg (onlyRevisionKey_ne 1), if_pos rfl]
  targetId := rfl
  targetRevision := rfl

theorem referenced_secretStore {name : SecretName} : Referenced shortPlatform secretStore name ↔ name = (1, 2) := by
  constructor
  · rintro ⟨_, target, hlive, -, hlogical⟩
    have hid : name.1 = 1 := by
      by_contra hne
      exact hlive.readHead.ne_nil ((secretStore_targetHead name.1).trans (if_neg hne))
    rw [hid] at hlive
    obtain rfl := hlive.unique liveTarget_secretStore
    exact Prod.ext hid hlogical.symm
  · rintro rfl
    exact ⟨_, _, liveTarget_secretStore, by decide, rfl⟩

theorem holds_secretStore :
    Holds mirror shortPlatform "d" [oldSlot] secretStore (1, 2) [7] 1 oldSlot where
  known := mem_singleton_self _
  head := by
    refine ⟨⟨onlySecretHead, 0⟩, ⟨toDocument onlySecretHead, [], ?_, fits_shortPlatform _, rfl⟩, rfl⟩
    rw [secretStore_secret (isSecretKey_head 1 2), if_pos rfl]
  record := by
    refine ⟨⟨onlyRecord, 0⟩, readable_of_generation (secretStore_generation 1) (fits_shortPlatform _), rfl,
      rfl, rfl, ?_⟩
    simp only [SecretKeyring.decryptWith, onlyRecord, mirror_lawful.decode_encode]
    decide
  behind g hg := by
    refine .inl ((secretStore_generation g).trans (if_neg ?_))
    rintro rfl
    exact absurd hg (Nat.lt_irrefl _)

theorem targetSound_secretStore : TargetSound shortPlatform secretStore id := by
  by_cases hid : id = 1
  · exact hid ▸ .inr (.inr ⟨_, _, liveTarget_secretStore⟩)
  · exact .inl ((secretStore_targetHead id).trans (if_neg hid))

theorem rolledKeyring_slot : ∀ s ∈ [newSlot, oldSlot], rolledKeyring.slot s.id = some s := by decide

theorem rotation_resumes_once :
    ∃ report w', (rotate mirror shortPlatform "d" rolledKeyring false).run.Runs (Uninterrupted [1])
        secretStore (.ok report) w' ∧ report.failed = [] ∧
      NamesSealed mirror shortPlatform "d" newSlot w' (1, 2) [7] := by
  have hstart : ∀ name, Referenced shortPlatform secretStore name → ∃ generation slot,
      Holds mirror shortPlatform "d" [oldSlot] secretStore name [7] generation slot ∧
        generation.toNat + 1 + 1 < 2 ^ 64 := by
    intro name href
    obtain rfl := referenced_secretStore.mp href
    exact ⟨1, oldSlot, holds_secretStore, by decide⟩
  have hlisted : ∀ name, Referenced shortPlatform secretStore name → name.1 ∈ [1] := by
    intro name href
    obtain rfl := referenced_secretStore.mp href
    exact mem_singleton_self _
  have hbefore : RunsBefore mirror shortPlatform "d" secretStore [oldSlot] 1 [newSlot, oldSlot] secretStore :=
    .run .start (fun s hs => rolledKeyring_slot s (mem_cons_of_mem _ hs))
      (.here (rotate mirror shortPlatform "d" rolledKeyring false).run _)
  have hresumes := rotation_resumes mirror_lawful hstart (fun id _ => targetSound_secretStore id) hlisted
    (by decide) hbefore rolledKeyring_slot
    fun _ _ => ⟨fun _ _ _ _ _ => fits_shortPlatform _, fun _ _ => fits_shortPlatform _⟩
  obtain ⟨⟨r, w', hruns⟩, hall⟩ := hresumes
  obtain ⟨report, rfl, hfailed, hnames⟩ := hall r w' hruns
  exact ⟨report, w', hruns, hfailed, hnames (1, 2) (referenced_secretStore.mpr rfl)⟩

theorem long_listing_stops_rotation :
    ∃ ids : List NotificationTargetId, ids.Nodup ∧ 1 ∈ ids ∧
      (∀ id ∈ ids, TargetSound shortPlatform secretStore id) ∧
      Referenced shortPlatform secretStore (1, 2) ∧
      Holds mirror shortPlatform "d" [oldSlot] secretStore (1, 2) [7] 1 oldSlot ∧
      (∀ s ∈ [oldSlot], rolledKeyring.slot s.id = some s) ∧
      ∀ r w', (rotate mirror shortPlatform "d" rolledKeyring false).run.Runs (Uninterrupted ids)
        secretStore r w' → r = .error .tooManyTargets ∧ w' = secretStore := by
  refine ⟨(range (maxListedTargets + 1)).map (BitVec.ofNat 128), ?_, ?_, fun id _ =>
    targetSound_secretStore id, referenced_secretStore.mpr rfl, holds_secretStore,
    fun s hs => rolledKeyring_slot s (mem_cons_of_mem _ hs), ?_⟩
  · refine List.Nodup.map_on ?_ nodup_range
    intro a ha b hb hab
    have := congrArg BitVec.toNat hab
    simp only [mem_range, maxListedTargets, BitVec.toNat_ofNat] at ha hb this
    omega
  · exact mem_map.mpr ⟨1, mem_range.mpr (by decide), rfl⟩
  · intro r w' hruns
    have halone : (rotate mirror shortPlatform "d" rolledKeyring false).run.Alone
        (Uninterrupted ((range (maxListedTargets + 1)).map (BitVec.ofNat 128)))
        (fun r w' => r = .error .tooManyTargets ∧ w' = secretStore) secretStore := by
      refine Safe.bind_except trivial (Alone.bind_query fun r w' hw => ?_)
      obtain ⟨rfl : w' = secretStore, rfl⟩ := hw
      dsimp only
      rw [if_pos (by rw [length_map, length_range]; exact Nat.lt_succ_self _)]
      exact .done ⟨rfl, rfl⟩
    exact halone.runs trivial hruns

end Example

end Scry.Alert
