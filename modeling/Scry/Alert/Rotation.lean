import Scry.Alert.Secrets

/-! # Rotations resume

Runs of `rotate`, each stopped anywhere, leave every referenced secret with a head that names a readable
generation, and at most one generation behind it. A keyring that can decrypt what was used so far has no
third key, so that generation is under the current key or the head's is.
-/

namespace Scry.Alert

open Scry.Lib ObjectStore Program Record SecretKeyring

/-! ## Keys -/

def IsSecretKey (key : String) : Prop := "_scry/alerts/v1/target-secrets/".toList <+: key.toList

variable (id : NotificationTargetId) (logical : LogicalSecretId)

theorem isSecretKey_generation (generation : UInt64) :
    IsSecretKey (secretGenerationKey id logical generation) := by
  unfold IsSecretKey secretGenerationKey
  simp only [String.toList_append, List.append_assoc]
  exact List.prefix_append _ _

theorem isSecretKey_head :
    IsSecretKey (secretHeadKey id logical) := by
  unfold IsSecretKey secretHeadKey
  simp only [String.toList_append, List.append_assoc]
  exact List.prefix_append _ _

variable {key : String}

/-- The roots of secrets and of targets part at `target-` and `targets`. -/
theorem not_isSecretKey_of_root (h : Kind.target.root.toList <+: key.toList) : ¬ IsSecretKey key := by
  intro hsec
  have hcut : ∀ {root : List Char}, root <+: key.toList → 23 ≤ root.length →
      root.take 23 = key.toList.take 23 := by
    rintro root ⟨rest, hkey⟩ hlen
    rw [← hkey, List.take_append_of_le_length hlen]
  have hsame := (hcut h (by decide)).trans (hcut hsec (by decide)).symm
  revert hsame
  decide

theorem not_isSecretKey_targetHeadKey : ¬ IsSecretKey (targetHeadKey id) := by
  apply not_isSecretKey_of_root
  unfold targetHeadKey headKey
  simp only [String.toList_append, List.append_assoc]
  exact List.prefix_append _ _

theorem not_isSecretKey_revision {id : NotificationTargetId}
    (h : isTargetRevisionKey id key = true) : ¬ IsSecretKey key := by
  apply not_isSecretKey_of_root
  unfold isTargetRevisionKey isRevisionKey at h
  simp only [Bool.and_eq_true, List.isPrefixOf_iff_prefix] at h
  refine List.IsPrefix.trans ?_ h.1
  simp only [String.toList_append, List.append_assoc]
  exact List.prefix_append _ _

/-! ## Envelopes -/

structure Sealed (C : Crypto) (slot : SecretKeySlot) (binding : SecretBinding) (plaintext : List UInt8)
    (envelope : EncryptedSecretEnvelope) : Prop where
  version : envelope.version = secretEnvelopeVersion
  keyId : envelope.keyId = slot.id
  opens : decryptWith C binding slot.key envelope = .ok plaintext

section Keyring

variable {C : Crypto} {keyring : SecretKeyring} {slot slot' : SecretKeySlot} {binding : SecretBinding}
  {plaintext : List UInt8} {envelope : EncryptedSecretEnvelope}

theorem slot_current (keyring : SecretKeyring) :
    keyring.slot keyring.current.id = some keyring.current := if_pos rfl

theorem eq_current_of_ne (h : keyring.slot slot.id = some slot) (h' : keyring.slot slot'.id = some slot')
    (hslot : slot.id ≠ keyring.current.id) (hne : slot'.id ≠ slot.id) : slot' = keyring.current := by
  by_cases hcurrent : slot'.id = keyring.current.id
  · rw [hcurrent, slot_current] at h'
    exact (Option.some.inj h').symm
  · rw [SecretKeyring.slot, if_neg hslot, Option.filter_eq_some_iff] at h
    rw [SecretKeyring.slot, if_neg hcurrent, Option.filter_eq_some_iff] at h'
    rw [h.1] at h'
    exact absurd (congrArg SecretKeySlot.id (Option.some.inj h'.1)).symm hne

theorem Sealed.decrypt (h : Sealed C slot binding plaintext envelope)
    (hslot : keyring.slot slot.id = some slot) : keyring.decrypt C binding envelope = .ok plaintext := by
  unfold SecretKeyring.decrypt
  rw [h.version, bne_self_eq_false, if_neg Bool.false_ne_true, h.keyId, hslot]
  exact h.opens

theorem sealed_of_decrypt (h : keyring.decrypt C binding envelope = .ok plaintext)
    (hid : envelope.keyId = keyring.current.id) : Sealed C keyring.current binding plaintext envelope := by
  unfold SecretKeyring.decrypt at h
  rw [hid, slot_current] at h
  split at h
  · cases h
  · rename_i hver
    exact ⟨by simpa using hver, hid, h⟩

theorem Sealed.isSecret (h : Sealed C slot binding plaintext envelope) : isSecret plaintext = true := by
  have hopens := h.opens
  unfold decryptWith at hopens
  split at hopens
  · split at hopens
    · cases hopens
    split at hopens
    · cases hopens
    split at hopens
    next hsec =>
      cases hopens
      exact hsec
    next => cases hopens
  · cases hopens

theorem encrypt_sealed (hC : C.Lawful) {nonce : Vector UInt8 24} (h : keyring.encrypt C binding plaintext nonce = .ok
    envelope) : Sealed C keyring.current binding plaintext envelope := by
  unfold encrypt at h
  split at h
  · cases h
  rename_i hsec
  cases henc : C.aeadEncrypt keyring.current.key nonce plaintext binding.aad with
  | none =>
    rw [henc] at h
    cases h
  | some ciphertext =>
    rw [henc] at h
    cases h
    refine ⟨rfl, rfl, ?_⟩
    have hdec := hC.decrypt_encrypt _ _ _ _ _ henc
    simp only [decryptWith, hC.decode_encode, hdec]
    simp_all

theorem exists_encrypt (hC : C.Lawful) (keyring : SecretKeyring) (binding : SecretBinding)
    (hsec : isSecret plaintext = true) (nonce : Vector UInt8 24) :
    ∃ envelope, keyring.encrypt C binding plaintext nonce = .ok envelope := by
  have hlen : plaintext.length ≤ maxSecretBytes := by
    unfold Alert.isSecret at hsec
    simp only [Bool.not_eq_true', Bool.or_eq_false_iff, decide_eq_false_iff_not, not_lt] at hsec
    exact hsec.2
  obtain ⟨ciphertext, henc⟩ := Option.isSome_iff_exists.mp
    (hC.encrypt_isSome keyring.current.key nonce plaintext binding.aad hlen)
  simp only [encrypt, hsec, henc, Bool.not_true, Bool.false_eq_true, if_false]
  exact ⟨_, rfl⟩

end Keyring

/-! ## What is stored of a secret -/

section Stored

variable (C : Crypto) (P : Platform) (deploymentId : String)

structure Rotated (slot : SecretKeySlot) (name : SecretName) (plaintext : List UInt8) (old : UInt64)
    (r : SecretGenerationRecord) : Prop where
  deployment : r.deploymentId = deploymentId
  targetId : r.targetId = name.1
  logicalSecretId : r.logicalSecretId = name.2
  generation : r.generation = old + 1
  rotationOf : r.rotationOfGeneration = some old
  envelope : Sealed C slot ⟨deploymentId, name.1, name.2, old + 1⟩ plaintext r.envelope

/-- Behind the head's generation is nothing, or what a rotation under another key left there. -/
structure Holds (slots : List SecretKeySlot) (w : Store) (name : SecretName) (plaintext : List UInt8)
    (generation : UInt64) (slot : SecretKeySlot) : Prop where
  known : slot ∈ slots
  head : ∃ head : Versioned SecretHead, Readable P w (secretHeadKey name.1 name.2) head ∧
    head.value.generation = generation
  record : ∃ r : Versioned SecretGenerationRecord,
    Readable P w (secretGenerationKey name.1 name.2 generation) r ∧ r.value.generation = generation ∧
      Sealed C slot ⟨deploymentId, name.1, name.2, generation⟩ plaintext r.value.envelope
  behind : ∀ g : UInt64, generation.toNat < g.toNat →
    w (secretGenerationKey name.1 name.2 g) = [] ∨
      g = generation + 1 ∧ ∃ (r : Versioned SecretGenerationRecord) (slot' : SecretKeySlot),
        slot' ∈ slots ∧ slot'.id ≠ slot.id ∧ Readable P w (secretGenerationKey name.1 name.2 g) r ∧
          Rotated C deploymentId slot' name plaintext generation r.value

def BelongsTo (name : SecretName) (key : String) : Prop :=
  key = secretHeadKey name.1 name.2 ∨ ∃ g, key = secretGenerationKey name.1 name.2 g

variable {C P deploymentId} {slots : List SecretKeySlot} {w w' : Store} {name : SecretName}
  {plaintext : List UInt8} {generation : UInt64} {slot : SecretKeySlot}

variable {key : String}

theorem readable_generation {r : Versioned SecretGenerationRecord} (h : Readable P w key r) : ∃ rest, w
    key = (r.version, toDocument r.value) :: rest ∧ Fits P (toDocument r.value) := by
  obtain ⟨document, rest, htop, hfits, hvalue⟩ := h
  cases document with
  | secretGeneration r' =>
    cases hvalue
    exact ⟨rest, htop, hfits⟩
  | _ => cases hvalue

theorem readable_of_generation {version : Version} {r : SecretGenerationRecord}
    {rest : List (Version × Document)} (h : w key = (version, toDocument r) :: rest)
    (hfits : Fits P (toDocument r)) : Readable P w key ⟨r, version⟩ :=
  ⟨_, rest, h, hfits, rfl⟩

theorem BelongsTo.isSecretKey (h : BelongsTo name key) : IsSecretKey key := by
  obtain rfl | ⟨g, rfl⟩ := h
  · exact isSecretKey_head name.1 name.2
  · exact isSecretKey_generation name.1 name.2 g

theorem BelongsTo.unique {name' : SecretName} (h : BelongsTo name key)
    (h' : BelongsTo name' key) : name = name' := by
  obtain rfl | ⟨g, rfl⟩ := h
  · obtain hkey | ⟨g', hkey⟩ := h'
    · obtain ⟨h₁, h₂⟩ := secretHeadKey_inj hkey
      exact Prod.ext h₁ h₂
    · exact absurd hkey.symm (secretGenerationKey_ne_secretHeadKey _ _ _ _ _)
  · obtain hkey | ⟨g', hkey⟩ := h'
    · exact absurd hkey (secretGenerationKey_ne_secretHeadKey _ _ _ _ _)
    · obtain ⟨h₁, h₂, -⟩ := secretGenerationKey_inj hkey
      exact Prod.ext h₁ h₂

namespace Holds

section

variable (h : Holds C P deploymentId slots w name plaintext generation slot)
include h

theorem mono {slots' : List SecretKeySlot}
    (hsub : slots ⊆ slots') : Holds C P deploymentId slots' w name plaintext generation slot := by
  refine ⟨hsub h.known, h.head, h.record, fun g hg => ?_⟩
  refine (h.behind g hg).imp_right ?_
  rintro ⟨rfl, r, slot', hknown, hrest⟩
  exact ⟨rfl, r, slot', hsub hknown, hrest⟩

theorem frame
    (hw : ∀ key, BelongsTo name key → w' key = w key) :
    Holds C P deploymentId slots w' name plaintext generation slot := by
  have hgen (g : UInt64) := hw (secretGenerationKey name.1 name.2 g) (.inr ⟨g, rfl⟩)
  obtain ⟨head, hhead, hnames⟩ := h.head
  obtain ⟨r, hr, hrest⟩ := h.record
  refine ⟨h.known, ⟨head, hhead.congr (hw _ (.inl rfl)), hnames⟩, ⟨r, hr.congr (hgen _), hrest⟩,
    fun g hg => ?_⟩
  refine (h.behind g hg).imp (fun hnone => (hgen g).trans hnone) ?_
  rintro ⟨rfl, r, slot', hknown, hne, hr, hrot⟩
  exact ⟨rfl, r, slot', hknown, hne, hr.congr (hgen _), hrot⟩

theorem unique {head : Versioned SecretHead}
    {r : Versioned SecretGenerationRecord} (hhead : Readable P w (secretHeadKey name.1 name.2) head)
    (hr : Readable P w (secretGenerationKey name.1 name.2 head.value.generation) r) : head.value.generation =
    generation ∧ r.value.generation = generation ∧ Sealed C slot ⟨deploymentId, name.1, name.2, generation⟩ plaintext
    r.value.envelope := by
  obtain ⟨_, hhead', rfl⟩ := h.head
  obtain rfl := hhead.unique hhead'
  obtain ⟨r', hr', hsame, hsealed⟩ := h.record
  obtain rfl := hr.unique hr'
  exact ⟨rfl, hsame, hsealed⟩

end

variable {current : SecretKeySlot} {r : SecretGenerationRecord} {version : Version}

theorem toNat_succ (h : generation.toNat + 1 < 2 ^ 64) : (generation + 1).toNat = generation.toNat + 1 := by
  rw [UInt64.toNat_add]
  exact Nat.mod_eq_of_lt h

theorem succ_ne (h : generation.toNat + 1 < 2 ^ 64) : generation ≠ generation + 1 := by
  intro heq
  have := congrArg UInt64.toNat heq
  rw [toNat_succ h] at this
  omega

section

variable (h : Holds C P deploymentId slots w name plaintext generation slot) (hlt : generation.toNat + 1 < 2 ^ 64) (hcurrent : current ∈ slots)
include h hlt hcurrent

theorem create (hne : current.id ≠ slot.id)
    (hrot : Rotated C deploymentId current name plaintext generation r) (hfits : Fits P (toDocument r)) :
    Holds C P deploymentId slots (w.write (secretGenerationKey name.1 name.2 (generation + 1)) version
    (toDocument r)) name plaintext generation slot := by
  have hother {key : String} (hkey : key ≠ secretGenerationKey name.1 name.2 (generation + 1)) :
      w.write (secretGenerationKey name.1 name.2 (generation + 1)) version (toDocument r) key =
        w key := write_other hkey _ _
  have hgen {g : UInt64} (hg : g ≠ generation + 1) :
      secretGenerationKey name.1 name.2 g ≠ secretGenerationKey name.1 name.2 (generation + 1) :=
    fun hkey => hg (secretGenerationKey_inj hkey).2.2
  obtain ⟨head, hhead, hnames⟩ := h.head
  obtain ⟨old, hold, hrest⟩ := h.record
  refine ⟨h.known, ⟨head, hhead.congr (hother (secretGenerationKey_ne_secretHeadKey _ _ _ _ _).symm), hnames⟩,
    ⟨old, hold.congr (hother (hgen (succ_ne hlt))), hrest⟩, fun g hg => ?_⟩
  by_cases hnext : g = generation + 1
  · subst hnext
    exact .inr ⟨rfl, ⟨r, version⟩, current, hcurrent, hne, readable_of_generation (write_same ..) hfits, hrot⟩
  · rw [hother (hgen hnext)]
    exact .inl ((h.behind g hg).resolve_right fun hbehind => hnext hbehind.1)

theorem move {r : Versioned SecretGenerationRecord}
    (hr : Readable P w (secretGenerationKey name.1 name.2 (generation + 1)) r)
    (hrot : Rotated C deploymentId current name plaintext generation r.value) {head : SecretHead}
    (hnames : head.generation = generation + 1) (hfits : Fits P (toDocument head)) : Holds C P deploymentId
    slots (w.write (secretHeadKey name.1 name.2) version (toDocument head)) name plaintext (generation + 1)
    current := by
  have hother (g : UInt64) :
      w.write (secretHeadKey name.1 name.2) version (toDocument head)
        (secretGenerationKey name.1 name.2 g) = w (secretGenerationKey name.1 name.2 g) :=
    write_other (secretGenerationKey_ne_secretHeadKey _ _ _ _ _) _ _
  refine ⟨hcurrent, ⟨⟨head, version⟩, ⟨_, _, write_same .., hfits, rfl⟩, hnames⟩,
    ⟨r, hr.congr (hother _), hrot.generation, hrot.envelope⟩, fun g hg => .inl ?_⟩
  rw [toNat_succ hlt] at hg
  rw [hother]
  refine (h.behind g (by omega)).resolve_right fun hbehind => ?_
  have := congrArg UInt64.toNat hbehind.1
  rw [toNat_succ hlt] at this
  omega

end

end Holds

end Stored

/-! ## Referenced secrets -/

section Referenced

variable (P : Platform)

structure LiveTarget (w : Store) (id : NotificationTargetId) (head : Versioned TargetHead)
    (target : Versioned NotificationTarget) : Prop where
  readHead : Readable P w (targetHeadKey id) head
  schemaVersion : head.value.schemaVersion = alertRecordSchemaVersion
  headId : head.value.id = id
  live : head.value.deleted = false
  revisionKey : isTargetRevisionKey head.value.id head.value.revisionKey = true
  readRevision : Readable P w head.value.revisionKey target
  targetId : target.value.id = head.value.id
  targetRevision : target.value.revision = head.value.revision

def Referenced (w : Store) (name : SecretName) : Prop :=
  ∃ head target, LiveTarget P w name.1 head target ∧ target.value.secretGeneration > 0 ∧
    target.value.logicalSecretId = name.2

variable {P} {w w₀ : Store}

theorem LiveTarget.congr {id : NotificationTargetId} {head : Versioned TargetHead}
    {target : Versioned NotificationTarget} (h : LiveTarget P w₀ id head target)
    (hw : ∀ key, ¬ IsSecretKey key → w key = w₀ key) : LiveTarget P w id head target where
  readHead := h.readHead.congr (hw _ (not_isSecretKey_targetHeadKey id))
  schemaVersion := h.schemaVersion
  headId := h.headId
  live := h.live
  revisionKey := h.revisionKey
  readRevision := h.readRevision.congr (hw _ (not_isSecretKey_revision h.revisionKey))
  targetId := h.targetId
  targetRevision := h.targetRevision

theorem Referenced.congr {name : SecretName} (h : Referenced P w₀ name)
    (hw : ∀ key, ¬ IsSecretKey key → w key = w₀ key) : Referenced P w name := by
  obtain ⟨head, target, hlive, hrest⟩ := h
  exact ⟨head, target, hlive.congr hw, hrest⟩

end Referenced

/-! ## Interrupted runs -/

section Interrupted

variable (C : Crypto) (P : Platform) (deploymentId : String)

/-- Only secrets change, each at most once, to the key `current`. -/
structure Rotating (slots : List SecretKeySlot) (original : SecretName → List UInt8)
    (bound : SecretName → Nat) (current : SecretKeySlot) (w₀ w : Store) : Prop where
  others : ∀ key, ¬ IsSecretKey key → w key = w₀ key
  secrets : ∀ name, Referenced P w₀ name → ∃ generation slot,
    Holds C P deploymentId slots w name (original name) generation slot ∧
      (generation.toNat ≤ bound name ∨ slot = current ∧ generation.toNat ≤ bound name + 1)

variable {C P deploymentId} {slots : List SecretKeySlot} {original : SecretName → List UInt8}
  {bound : SecretName → Nat} {keyring : SecretKeyring} {w₀ w : Store} {name : SecretName}

theorem Rotating.write {current : SecretKeySlot} (h : Rotating C P deploymentId slots original bound current w₀ w)
    {key : String} (hkey : BelongsTo name key) {version : Version} {document : Document}
    (hname : Referenced P w₀ name → ∃ generation slot, Holds C P deploymentId slots (w.write key version document)
    name (original name) generation slot ∧ (generation.toNat ≤ bound name ∨ slot = current ∧ generation.toNat ≤ bound
    name + 1)) : Rotating C P deploymentId slots original bound current w₀ (w.write key version document) := by
  refine ⟨fun k hk => ?_, fun name' href => ?_⟩
  · have hne : k ≠ key := fun heq => hk (heq ▸ hkey.isSecretKey)
    rw [write_other hne, h.others k hk]
  · by_cases hsame : name' = name
    · subst hsame
      exact hname href
    · obtain ⟨generation, slot, hholds, hbound⟩ := h.secrets name' href
      refine ⟨generation, slot, hholds.frame fun k hk => ?_, hbound⟩
      have hne : k ≠ key := fun heq => hsame (hk.unique (heq ▸ hkey))
      exact write_other hne _ _

theorem Rotating.stale (h : Rotating C P deploymentId slots original bound keyring.current w₀ w)
    (hkeys : ∀ s ∈ slots, keyring.slot s.id = some s) (href : Referenced P w₀ name) {head : Versioned SecretHead}
    {old : Versioned SecretGenerationRecord} {plaintext : List UInt8}
    (hhead : Readable P w (secretHeadKey name.1 name.2) head) (hold : Readable P w
    (secretGenerationKey name.1 name.2 head.value.generation) old) (hid : old.value.envelope.keyId ≠
    keyring.current.id) (hplain : keyring.decrypt C ⟨deploymentId, name.1, name.2, old.value.generation⟩
    old.value.envelope = .ok plaintext) : plaintext = original name ∧ head.value.generation = old.value.generation ∧
    old.value.generation.toNat ≤ bound name ∧ ∃ slot, slot.id ≠ keyring.current.id ∧ Holds C P deploymentId slots w
    name plaintext old.value.generation slot := by
  obtain ⟨generation, slot, hholds, hbound⟩ := h.secrets name href
  obtain ⟨hgen, hsame, hsealed⟩ := hholds.unique hhead hold
  have hslot : slot.id ≠ keyring.current.id := hsealed.keyId ▸ hid
  rw [hsame, hsealed.decrypt (hkeys slot hholds.known)] at hplain
  cases hplain
  rw [hsame]
  refine ⟨rfl, hgen, hbound.resolve_right fun hcurrent => hslot (congrArg _ hcurrent.1), slot, hslot, hholds⟩

theorem safe_bind_fromStore {α β : Type}
    {answers : Answers (Reply (K := String) (V := Version) (B := Document) RotateAnswer) Store}
    {S : Sharing Store} {post : Except RotateError β → Store → Prop} {x : StoreM RotateAnswer α}
    {f : α → RotateM β} (hinv : S.inv w)
    (h : x.run.Safe answers S (fun r w => match r with
      | .ok a => (f a).run.Safe answers S post w
      | .error e => post (.error (.store e)) w) w) :
    (fromStore x >>= f).run.Safe answers S post w := by
  refine Safe.bind_except hinv (Safe.bind_attempt hinv (h.stable.mono fun r w' hinv' hr => ?_))
  cases r with
  | ok a => exact fun w'' hw hinv'' => hr w'' hw hinv''
  | error e => exact fun w'' hw hinv'' => hr w'' hw hinv''

section Reads

variable {inv : Store → Prop}

theorem readSecretHead_keeping (hinv : inv w) (id : NotificationTargetId) (logical : LogicalSecretId) :
    (readSecretHead P id logical : StoreM RotateAnswer _).run.Safe (answers RotateAnswer) (.keeping inv)
    (fun r w' => w' = w ∧ ∀ head, r = .ok (some head) → Readable P w (secretHeadKey id logical) head) w := by
  refine Safe.bind_attempt hinv ((readVersioned_keeping hinv).mono fun r w' _ hr => ?_)
  obtain ⟨rfl, hr⟩ := hr
  cases r with
  | ok head =>
    refine .keeping_done ⟨rfl, ?_⟩
    rintro _ ⟨⟩
    exact hr head rfl
  | error e => cases e <;> exact .keeping_done ⟨rfl, nofun⟩

theorem readTargetHead_keeping (hinv : inv w) (id : NotificationTargetId) :
    (readTargetHead P id : StoreM RotateAnswer _).run.Safe (answers RotateAnswer)
      (.keeping inv) (fun _ w' => w' = w) w := by
  refine Safe.bind_except hinv ((readVersioned_keeping hinv).mono fun r w' _ hr => ?_)
  cases r with
  | error e => exact hr.1
  | ok head =>
    obtain ⟨rfl, -⟩ := hr
    dsimp only
    split <;> exact .keeping_done rfl

theorem readTargetRevision_keeping (hinv : inv w) (head : TargetHead) :
    (readTargetRevision P head : StoreM RotateAnswer _).run.Safe (answers RotateAnswer)
      (.keeping inv) (fun _ w' => w' = w) w := by
  unfold readTargetRevision
  split
  · exact .keeping_done rfl
  · refine Safe.bind_except hinv ((readVersioned_keeping hinv).mono fun r w' _ hr => ?_)
    cases r with
    | error e => exact hr.1
    | ok target =>
      obtain ⟨rfl, -⟩ := hr
      dsimp only
      split <;> exact .keeping_done rfl

theorem examineTarget_keeping (hinv : inv w) (found : RotationReport × List SecretName) (id : NotificationTargetId) :
    (examineTarget P found id).run.Safe (answers RotateAnswer) (.keeping inv) (fun r _ => ∃ found', r = .ok found')
    w := by
  refine Safe.bind_attempt hinv ((readTargetHead_keeping hinv id).mono fun r w' _ hr => ?_)
  subst hr
  cases r with
  | error e => cases e <;> exact .keeping_done ⟨_, rfl⟩
  | ok head =>
    dsimp only
    split
    · exact .keeping_done ⟨_, rfl⟩
    refine Safe.bind_attempt hinv
      ((readTargetRevision_keeping hinv head.value).mono fun r w'' _ _ => ?_)
    cases r with
    | error e => exact .keeping_done ⟨_, rfl⟩
    | ok target =>
      dsimp only
      split <;> exact .keeping_done ⟨_, rfl⟩

variable {plaintext : List UInt8}

theorem rotated_of_resumed {old record r : SecretGenerationRecord}
    (h : resumed C deploymentId keyring name.1 name.2 old plaintext record = .ok r) :
    r = record ∧ Rotated C deploymentId keyring.current name plaintext old.generation r := by
  unfold resumed at h
  dsimp only at h
  split at h
  · cases h
  rename_i hsame
  simp only [Bool.or_eq_true, bne_iff_ne, ne_eq, not_or, not_not] at hsame
  obtain ⟨⟨⟨⟨⟨hdep, htarget⟩, hlogical⟩, hgen⟩, hrotation⟩, hid⟩ := hsame
  cases hdec : keyring.decrypt C ⟨deploymentId, name.1, name.2, old.generation + 1⟩ record.envelope with
  | error e =>
    rw [hdec] at h
    cases h
  | ok p =>
    rw [hdec] at h
    dsimp only at h
    split at h
    · cases h
    rename_i hplain
    cases h
    have hp : p = plaintext := by simpa using hplain
    exact ⟨rfl, hdep, htarget, hlogical, hgen, hrotation, sealed_of_decrypt (hp ▸ hdec) hid⟩

def freshRecord (deploymentId : String) (name : SecretName) (old : UInt64)
    (envelope : EncryptedSecretEnvelope) (now : UInt64) : SecretGenerationRecord where
  schemaVersion := alertRecordSchemaVersion
  deploymentId
  targetId := name.1
  logicalSecretId := name.2
  generation := old + 1
  envelope
  rotationOfGeneration := some old
  createdAtUnixNano := now

theorem rotated_freshRecord {old now : UInt64} {envelope : EncryptedSecretEnvelope}
    {slot : SecretKeySlot} (h : Sealed C slot ⟨deploymentId, name.1, name.2, old + 1⟩ plaintext envelope) : Rotated C
    deploymentId slot name plaintext old (freshRecord deploymentId name old envelope now) :=
  ⟨rfl, rfl, rfl, rfl, rfl, h⟩

theorem nextRecord_keeping (hC : C.Lawful) (hinv : inv w) (old : SecretGenerationRecord) (plaintext : List UInt8) :
    (nextRecord C P deploymentId keyring name.1 name.2 old plaintext).run.Safe (answers RotateAnswer) (.keeping inv)
    (fun r w' => w' = w ∧ ∀ record, r = .ok record → Rotated C deploymentId keyring.current name plaintext
    old.generation record) w := by
  refine Safe.bind_attempt hinv ((readVersioned_keeping hinv).mono fun r w' _ hr => ?_)
  obtain ⟨rfl, hr⟩ := hr
  cases r with
  | ok existing =>
    dsimp only
    cases hresum : resumed C deploymentId keyring name.1 name.2 old plaintext existing.value with
    | error e => exact .keeping_done ⟨rfl, nofun⟩
    | ok record =>
      refine .keeping_done ⟨rfl, ?_⟩
      rintro record' ⟨⟩
      exact (rotated_of_resumed hresum).2
  | error e =>
    cases e with
    | missing path =>
      refine Safe.bind_except hinv (Safe.keeping_query fun nonce w'' hw => ?_)
      obtain rfl : w'' = w' := hw
      refine ⟨hinv, ?_⟩
      cases henc : keyring.encrypt C ⟨deploymentId, name.1, name.2, old.generation + 1⟩ plaintext nonce with
      | error e => exact .keeping_done ⟨rfl, nofun⟩
      | ok envelope =>
        refine .keeping_done (Safe.keeping_query fun now w' hw => ?_)
        obtain rfl : w' = w'' := hw
        refine ⟨hinv, .keeping_done ⟨rfl, ?_⟩⟩
        rintro record ⟨⟩
        exact rotated_freshRecord (encrypt_sealed hC henc)
    | _ => exact .keeping_done ⟨rfl, nofun⟩

end Reads

theorem commitSecretGeneration_rotated {X : Type} {O : X → Type} {slot : SecretKeySlot} {old : UInt64}
    {record : SecretGenerationRecord} {plaintext : List UInt8} {version : Version}
    (h : Rotated C deploymentId slot name plaintext old record) : (commitSecretGeneration P record
    (nextSecretHead deploymentId name.1 name.2 (old + 1) record) (some version) : StoreM O Unit) =
    (createIdentical P (secretGenerationKey name.1 name.2 (old + 1)) record >>= fun _ => update P
    (secretHeadKey name.1 name.2) (nextSecretHead deploymentId name.1 name.2 (old + 1) record) version) := by
  unfold commitSecretGeneration
  dsimp only
  rw [if_neg (by simp [nextSecretHead, h.deployment, h.targetId, h.logicalSecretId, h.generation]),
    h.targetId, h.logicalSecretId, h.generation]

variable {inv : Store → Prop}

theorem verifyOne_keeping (hinv : inv w) (report : RotationReport) (name : SecretName) :
    (verifyOne P keyring report name).run.Safe (answers RotateAnswer) (.keeping inv)
      (fun r _ => ∃ report', r = .ok report') w := by
  have hverify : (verifyCurrentKey P keyring name.1 name.2).run.Safe (answers RotateAnswer)
      (.keeping inv) (fun _ _ => True) w := by
    refine safe_bind_fromStore hinv ((readSecretHead_keeping hinv name.1 name.2).mono fun r w' hinv' _ => ?_)
    cases r with
    | error e => trivial
    | ok head =>
      cases head with
      | none => exact .keeping_done trivial
      | some head =>
        refine safe_bind_fromStore hinv' ((readVersioned_keeping hinv').mono fun r w'' _ _ => ?_)
        cases r with
        | error e => trivial
        | ok record =>
          dsimp only
          split <;> exact .keeping_done trivial
  refine Safe.bind_attempt hinv (hverify.mono fun r w' _ _ => ?_)
  cases r <;> exact .keeping_done ⟨_, rfl⟩

theorem foldlM_keeping {α β : Type} {f : β → α → RotateM β}
    (hstep : ∀ b a w, inv w → (f b a).run.Safe (answers RotateAnswer) (.keeping inv) (fun r _ => ∃ b', r = .ok b') w)
    (hinv : inv w) (l : List α) (b : β) : (l.foldlM f b).run.Safe (answers RotateAnswer) (.keeping inv)
    (fun r _ => ∃ b', r = .ok b') w := by
  refine (Safe.foldlM (I := fun _ _ _ => True) (fun _ _ _ _ _ _ => trivial)
    (fun _ a _ b w _ hinv _ => (hstep b a w hinv).mono fun r _ _ hr => ?_) hinv trivial).mono
    fun r _ _ hr => ?_
  · obtain ⟨b', hb'⟩ := hr
    exact ⟨b', hb', trivial⟩
  · obtain ⟨b', hb', -⟩ := hr
    exact ⟨b', hb'⟩

section Rotate

variable (hC : C.Lawful) (hkeys : ∀ s ∈ slots, keyring.slot s.id = some s) (hcurrent : keyring.current ∈ slots)
  (hbound : ∀ name, Referenced P w₀ name → bound name + 1 < 2 ^ 64)
  (hinv : Rotating C P deploymentId slots original bound keyring.current w₀ w)
include hkeys hcurrent hbound hinv

theorem commitSecretGeneration_keeping {head : Versioned SecretHead} {old : Versioned SecretGenerationRecord}
    {record : SecretGenerationRecord} {plaintext : List UInt8} (hhead : Readable P w (secretHeadKey name.1 name.2)
    head) (hold : Readable P w (secretGenerationKey name.1 name.2 head.value.generation) old)
    (hid : old.value.envelope.keyId ≠ keyring.current.id) (hplain : keyring.decrypt C
    ⟨deploymentId, name.1, name.2, old.value.generation⟩ old.value.envelope = .ok plaintext)
    (hrot : Rotated C deploymentId keyring.current name plaintext old.value.generation record) :
    (commitSecretGeneration P record (nextSecretHead deploymentId name.1 name.2 (old.value.generation + 1) record)
    (some head.version) : StoreM RotateAnswer _).run.Safe (answers RotateAnswer)
    (.keeping (Rotating C P deploymentId slots original bound keyring.current w₀)) (fun _ _ => True) w := by
  rw [commitSecretGeneration_rotated hrot]
  refine Safe.bind_except hinv ((createIdentical_keeping hinv fun version _ hfits => ?_).mono fun r w₁ hinv₁ hr => ?_)
  · refine hinv.write (.inr ⟨_, rfl⟩) fun href => ?_
    obtain ⟨rfl, -, hle, slot, hslot, hholds⟩ := hinv.stale hkeys href hhead hold hid hplain
    have hlt := hbound name href
    exact ⟨_, slot, hholds.create (by omega) hcurrent hslot.symm hrot hfits, .inl hle⟩
  · obtain ⟨hsame, hdone⟩ := hr
    cases r with
    | error e => trivial
    | ok u =>
      obtain ⟨hfits, version, rest, htop⟩ := hdone rfl
      refine update_keeping hinv₁ fun _ _ fresh _ hfitsHead => ?_
      refine hinv₁.write (.inl rfl) fun href => ?_
      obtain ⟨rfl, hgen, hle, -⟩ := hinv.stale hkeys href hhead hold hid hplain
      have hlt := hbound name href
      have hbelow : old.value.generation.toNat + 1 < 2 ^ 64 := by omega
      -- The create left what was read of the secret alone.
      have hhead₁ := hhead.congr (hsame _ (secretGenerationKey_ne_secretHeadKey _ _ _ _ _).symm)
      have hold₁ := hold.congr (hsame _ fun heq =>
        Holds.succ_ne hbelow (hgen ▸ (secretGenerationKey_inj heq).2.2))
      obtain ⟨-, -, -, slot, -, hholds⟩ := hinv₁.stale hkeys href hhead₁ hold₁ hid hplain
      refine ⟨_, keyring.current, hholds.move hbelow hcurrent (readable_of_generation htop hfits) hrot
        rfl hfitsHead, .inr ⟨rfl, ?_⟩⟩
      rw [Holds.toNat_succ hbelow]
      omega

include hC

theorem rotateSecret_keeping (name : SecretName) (dryRun : Bool) :
    (rotateSecret C P deploymentId keyring name.1 name.2 dryRun).run.Safe (answers RotateAnswer)
    (.keeping (Rotating C P deploymentId slots original bound keyring.current w₀)) (fun _ _ => True) w := by
  refine safe_bind_fromStore hinv ((readSecretHead_keeping hinv name.1 name.2).mono fun r w' _ hr => ?_)
  obtain ⟨rfl, hr⟩ := hr
  cases r with
  | error e => trivial
  | ok head =>
    cases head with
    | none => exact .keeping_done trivial
    | some head =>
      refine safe_bind_fromStore hinv ((readVersioned_keeping hinv).mono fun r w'' _ hold => ?_)
      obtain ⟨rfl, hold⟩ := hold
      cases r with
      | error e => trivial
      | ok old =>
        dsimp only
        split
        · exact .keeping_done trivial
        rename_i hid
        cases hplain : keyring.decrypt C ⟨deploymentId, name.1, name.2, old.value.generation⟩
            old.value.envelope with
        | error e => exact .keeping_done trivial
        | ok plaintext =>
          dsimp only
          split
          · exact .keeping_done trivial
          refine Safe.bind_except hinv
            ((nextRecord_keeping hC hinv old.value plaintext).mono fun r w' _ hrec => ?_)
          obtain ⟨rfl, hrec⟩ := hrec
          cases r with
          | error e => trivial
          | ok record =>
            refine safe_bind_fromStore hinv ((commitSecretGeneration_keeping hkeys hcurrent hbound hinv
              (hr head rfl) (hold old rfl) hid hplain (hrec record rfl)).mono fun r w'' _ _ => ?_)
            cases r with
            | error e => trivial
            | ok u => exact .keeping_done trivial

theorem rotateOne_keeping (dryRun : Bool) (report : RotationReport) (name : SecretName) :
    (rotateOne C P deploymentId keyring dryRun report name).run.Safe (answers RotateAnswer)
      (.keeping (Rotating C P deploymentId slots original bound keyring.current w₀))
      (fun r _ => ∃ report', r = .ok report') w := by
  refine Safe.bind_attempt hinv
    ((rotateSecret_keeping hC hkeys hcurrent hbound hinv name dryRun).mono fun r w' _ _ => ?_)
  cases r with
  | error e => exact .keeping_done ⟨_, rfl⟩
  | ok moved => cases moved <;> exact .keeping_done ⟨_, rfl⟩

theorem rotate_keeping (dryRun : Bool) : (rotate C P deploymentId keyring dryRun).run.Safe (answers RotateAnswer)
    (.keeping (Rotating C P deploymentId slots original bound keyring.current w₀)) (fun _ _ => True) w := by
  have hlist : listTargetIds.run.Safe (answers RotateAnswer)
      (.keeping (Rotating C P deploymentId slots original bound keyring.current w₀)) (fun _ _ => True) w := by
    refine Safe.keeping_query fun ids w' hw => ?_
    obtain rfl : w' = w := hw
    refine ⟨hinv, ?_⟩
    cases ids with
    | none => exact .keeping_done trivial
    | some ids =>
      dsimp only
      split <;> exact .keeping_done trivial
  refine Safe.bind_except hinv (hlist.mono fun r w₁ hinv₁ _ => ?_)
  cases r with
  | error e => trivial
  | ok ids =>
    refine Safe.bind_except hinv₁ ((foldlM_keeping (fun b a w hinv => examineTarget_keeping hinv b a)
      hinv₁ ids _).mono fun r w₂ hinv₂ hr => ?_)
    obtain ⟨⟨report, referenced⟩, rfl⟩ := hr
    refine Safe.bind_except hinv₂ (Safe.keeping_query fun heads w₃ hw => ?_)
    obtain rfl : w₃ = w₂ := hw
    refine ⟨hinv₂, .keeping_done ?_⟩
    refine Safe.bind_except hinv₂ ((foldlM_keeping (fun b a w hinv =>
      rotateOne_keeping hC hkeys hcurrent hbound hinv dryRun b a) hinv₂ referenced _).mono
      fun r w₄ hinv₄ hr => ?_)
    obtain ⟨report', rfl⟩ := hr
    dsimp only
    split
    · exact .keeping_done trivial
    · exact (foldlM_keeping (fun b a w hinv => verifyOne_keeping hinv b a) hinv₄ referenced _).mono
        fun _ _ _ _ => trivial

end Rotate

variable (C P deploymentId) in
/-- Runs of `rotate`, each stopped anywhere, under any of the `slots` so far. -/
inductive RunsBefore (w₀ : Store) (slots₀ : List SecretKeySlot) : Nat → List SecretKeySlot → Store → Prop
  | start : RunsBefore w₀ slots₀ 0 slots₀ w₀
  | run {n : Nat} {slots : List SecretKeySlot} {w w' : Store} {keyring : SecretKeyring} {dryRun : Bool}
      (before : RunsBefore w₀ slots₀ n slots w) (hkeys : ∀ s ∈ slots, keyring.slot s.id = some s)
      (hstops : (rotate C P deploymentId keyring dryRun).run.Stops (answers RotateAnswer) w w') :
      RunsBefore w₀ slots₀ (n + 1) (keyring.current :: slots) w'

theorem slot_of_mem_cons (hkeys : ∀ s ∈ slots, keyring.slot s.id = some s) :
    ∀ s ∈ keyring.current :: slots, keyring.slot s.id = some s :=
  List.forall_mem_cons.mpr ⟨slot_current keyring, hkeys⟩

theorem RunsBefore.rotating (hC : C.Lawful) {slots₀ : List SecretKeySlot} (first : SecretName → Nat)
    (hstart : ∀ name, Referenced P w₀ name → ∃ generation slot, Holds C P deploymentId slots₀ w₀ name (original name)
    generation slot ∧ generation.toNat ≤ first name) {n : Nat} (h : RunsBefore C P deploymentId w₀ slots₀ n slots w)
    (hfirst : ∀ name, Referenced P w₀ name → first name + n < 2 ^ 64) (current : SecretKeySlot) : Rotating C P
    deploymentId (current :: slots) original (fun name => first name + n) current w₀ w := by
  induction h generalizing current with
  | start =>
    refine ⟨fun _ _ => rfl, fun name href => ?_⟩
    obtain ⟨generation, slot, hholds, hle⟩ := hstart name href
    exact ⟨generation, slot, hholds.mono (List.subset_cons_self _ _), .inl hle⟩
  | @run n slots w w' keyring dryRun _ hkeys hstops ih =>
    have hbefore := ih (fun name href => by have := hfirst name href; omega) keyring.current
    have hafter := (rotate_keeping hC (slot_of_mem_cons hkeys) List.mem_cons_self
      (fun name href => by have := hfirst name href; omega) hbefore dryRun).stops hbefore hstops
    refine ⟨hafter.others, fun name href => ?_⟩
    obtain ⟨generation, slot, hholds, hle⟩ := hafter.secrets name href
    exact ⟨generation, slot, hholds.mono (List.subset_cons_self _ _), .inl (by omega)⟩

end Interrupted

end Scry.Alert
