import Scry.Alert.Store

/-! # Secrets and their rotation

`rotate` encrypts every secret that a live target refers to under the current key of the keyring, as the
next generation of the secret, and then moves the secret's head to it.
-/

namespace Scry.Alert

open Scry.Lib

/-! ## Encryption -/

def secretEnvelopeVersion : UInt8 := 1

def maxSecretBytes : Nat := 64 * 1024

/-- XChaCha20-Poly1305 and unpadded base64url. -/
structure Crypto where
  aeadEncrypt (key : Vector UInt8 32) (nonce : Vector UInt8 24) (message aad : List UInt8) :
    Option (List UInt8)
  aeadDecrypt (key : Vector UInt8 32) (nonce : List UInt8) (ciphertext aad : List UInt8) :
    Option (List UInt8)
  encode : List UInt8 → String
  decode : String → Option (List UInt8)

/-- What was encrypted is decrypted with the same key, nonce and associated data. -/
structure Crypto.Lawful (C : Crypto) : Prop where
  decode_encode : ∀ bytes, C.decode (C.encode bytes) = some bytes
  encrypt_isSome : ∀ key nonce message aad, message.length ≤ maxSecretBytes →
    (C.aeadEncrypt key nonce message aad).isSome
  decrypt_encrypt : ∀ key nonce message aad ciphertext, C.aeadEncrypt key nonce message aad = some ciphertext →
    C.aeadDecrypt key nonce.toList ciphertext aad = some message

inductive SecretCryptoError
  | invalidSecret
  | invalidEnvelope
  | unknownKey (id : String)
  | authentication
  deriving DecidableEq

structure SecretKeySlot where
  id : String
  key : Vector UInt8 32
  deriving DecidableEq

structure SecretKeyring where
  current : SecretKeySlot
  previous : Option SecretKeySlot

structure SecretBinding where
  deploymentId : String
  targetId : NotificationTargetId
  logicalSecretId : LogicalSecretId
  generation : UInt64

def SecretBinding.aad (b : SecretBinding) : List UInt8 :=
  ("scry-alert-secret-v1\x00" ++ b.deploymentId ++ "\x00" ++ uuidText b.targetId ++ "\x00" ++
    uuidText b.logicalSecretId ++ "\x00" ++ toString b.generation.toNat).toUTF8.toList

def isSecret (plaintext : List UInt8) : Bool :=
  !(plaintext.isEmpty || decide (plaintext.length > maxSecretBytes))

namespace SecretKeyring

variable (C : Crypto) (keyring : SecretKeyring) (binding : SecretBinding)

/-- The nonce is drawn when the length of the plaintext was checked. -/
def encrypt (plaintext : List UInt8) (nonce : Vector UInt8 24) : Except SecretCryptoError EncryptedSecretEnvelope :=
  if !isSecret plaintext then .error .invalidSecret
  else
    match C.aeadEncrypt keyring.current.key nonce plaintext binding.aad with
    | none => .error .authentication
    | some ciphertext => .ok
      { version := secretEnvelopeVersion
        keyId := keyring.current.id
        nonceBase64url := C.encode nonce.toList
        ciphertextBase64url := C.encode ciphertext }

def slot (keyId : String) : Option SecretKeySlot :=
  if keyId = keyring.current.id then some keyring.current
  else keyring.previous.filter (·.id = keyId)

def decryptWith (key : Vector UInt8 32) (envelope : EncryptedSecretEnvelope) :
    Except SecretCryptoError (List UInt8) :=
  match C.decode envelope.nonceBase64url, C.decode envelope.ciphertextBase64url with
  | some nonce, some ciphertext =>
    if nonce.length != 24 || C.encode nonce != envelope.nonceBase64url ||
        C.encode ciphertext != envelope.ciphertextBase64url then .error .invalidEnvelope
    else
      match C.aeadDecrypt key nonce ciphertext binding.aad with
      | none => .error .authentication
      | some plaintext => if isSecret plaintext then .ok plaintext else .error .invalidSecret
  | _, _ => .error .invalidEnvelope

def decrypt (envelope : EncryptedSecretEnvelope) : Except SecretCryptoError (List UInt8) :=
  if envelope.version != secretEnvelopeVersion then .error .invalidEnvelope
  else
    match keyring.slot envelope.keyId with
    | none => .error (.unknownKey envelope.keyId)
    | some slot => decryptWith C binding slot.key envelope

end SecretKeyring

/-! ## Rotation -/

inductive RotateOutside
  | listTargets
  | listSecretHeads
  | nonce
  | now

@[reducible] def RotateAnswer : RotateOutside → Type
  | .listTargets => Option (List NotificationTargetId)
  | .listSecretHeads => Option (List (NotificationTargetId × LogicalSecretId))
  | .nonce => Vector UInt8 24
  | .now => UInt64

inductive RotateError
  | store (e : AlertStoreError)
  | crypto (e : SecretCryptoError)
  | listing
  | tooManyTargets
  | noHead
  | cannotBeDecrypted
  | notResumable
  | headDisappeared
  | previousKeyRemains
  deriving DecidableEq

inductive RotationFailure
  | target (id : NotificationTargetId) (e : AlertStoreError)
  | secret (id : NotificationTargetId) (logical : LogicalSecretId) (e : RotateError)
  deriving DecidableEq

structure RotationReport where
  targets : Nat := 0
  referenced : Nat := 0
  rotated : Nat := 0
  current : Nat := 0
  orphaned : Option Nat := none
  failed : List RotationFailure := []
  deriving DecidableEq

abbrev RotateM (α : Type) := ObjectStore.Client String Version Document RotateAnswer RotateError α

def fromStore {α : Type} (x : StoreM RotateAnswer α) : RotateM α := do
  match ← Program.attempt x with
  | .ok a => pure a
  | .error e => throw (.store e)

def maxListedTargets : Nat := 100000

/-- The directories, in order; a target may be live, deleted or unpublished. -/
def listTargetIds : RotateM (List NotificationTargetId) := do
  match ← ObjectStore.outside RotateOutside.listTargets with
  | none => throw .listing
  | some ids => if ids.length > maxListedTargets then throw .tooManyTargets else pure ids

abbrev SecretName := NotificationTargetId × LogicalSecretId

def insertName (name : SecretName) (names : List SecretName) : List SecretName :=
  if name ∈ names then names
  else names.orderedInsert
    (fun a b => a.1.toNat < b.1.toNat ∨ a.1 = b.1 ∧ a.2.toNat ≤ b.2.toNat) name

section

variable (C : Crypto) (P : Platform) (deploymentId : String) (keyring : SecretKeyring)

def examineTarget (found : RotationReport × List SecretName) (id : NotificationTargetId) :
    RotateM (RotationReport × List SecretName) := do
  let (report, referenced) := found
  match ← Program.attempt (readTargetHead P id) with
  | .error (.missing _) => pure (report, referenced)
  | .error e => pure ({ report with failed := report.failed ++ [.target id e] }, referenced)
  | .ok head =>
    if head.value.deleted then pure (report, referenced)
    else
      let report := { report with targets := report.targets + 1 }
      match ← Program.attempt (readTargetRevision P head.value) with
      | .ok target =>
        if target.value.secretGeneration > 0 then
          pure (report, insertName (target.value.id, target.value.logicalSecretId) referenced)
        else pure (report, referenced)
      | .error e => pure ({ report with failed := report.failed ++ [.target id e] }, referenced)

/-- `None` where the heads could not be listed. -/
def countOrphanedSecretHeads (referenced : List SecretName) : RotateM (Option Nat) := do
  let heads ← ObjectStore.outside RotateOutside.listSecretHeads
  pure (heads.map fun heads => heads.countP (· ∉ referenced))

variable (id : NotificationTargetId) (logical : LogicalSecretId) (dryRun : Bool) (old : SecretGenerationRecord)
   (report : RotationReport) (plaintext : List UInt8) (name : SecretName)

def verifyCurrentKey : RotateM Unit := do
  match ← fromStore (readSecretHead P id logical) with
  | none => throw .headDisappeared
  | some head =>
    let record ← fromStore (readSecretGeneration P id logical head.value.generation)
    if record.value.envelope.keyId != keyring.current.id then throw .previousKeyRemains
    else pure ()

def encryptSecret (binding : SecretBinding) (plaintext : List UInt8) :
    RotateM EncryptedSecretEnvelope := do
  let nonce ← ObjectStore.outside RotateOutside.nonce
  match keyring.encrypt C binding plaintext nonce with
  | .ok envelope => pure envelope
  | .error e => throw (.crypto e)

/-- What a rotation that stopped before it moved the head left, under the same key. -/
def resumed (record : SecretGenerationRecord) : Except RotateError SecretGenerationRecord :=
  let generation := old.generation + 1
  if record.deploymentId != deploymentId || record.targetId != id ||
      record.logicalSecretId != logical || record.generation != generation ||
      record.rotationOfGeneration != some old.generation ||
      record.envelope.keyId != keyring.current.id then .error .notResumable
  else
    match keyring.decrypt C ⟨deploymentId, id, logical, generation⟩ record.envelope with
    | .error e => .error (.crypto e)
    | .ok p => if p != plaintext then .error .notResumable else .ok record

def nextRecord : RotateM SecretGenerationRecord := do
  let generation := old.generation + 1
  match ← Program.attempt (readSecretGeneration P id logical generation) with
  | .ok existing => resumed C deploymentId keyring id logical old plaintext existing.value
  | .error (.missing _) =>
    let envelope ← encryptSecret C keyring ⟨deploymentId, id, logical, generation⟩ plaintext
    let now ← ObjectStore.outside RotateOutside.now
    pure
      { schemaVersion := alertRecordSchemaVersion
        deploymentId
        targetId := id
        logicalSecretId := logical
        generation
        envelope
        rotationOfGeneration := some old.generation
        createdAtUnixNano := now }
  | .error e => throw (.store e)

def nextSecretHead (generation : UInt64)
    (record : SecretGenerationRecord) : SecretHead where
  schemaVersion := alertRecordSchemaVersion
  deploymentId
  targetId := id
  logicalSecretId := logical
  generation
  generationKey := secretGenerationKey id logical generation
  updatedAtUnixNano := record.createdAtUnixNano

def rotateSecret :
    RotateM Bool := do
  match ← fromStore (readSecretHead P id logical) with
  | none => throw .noHead
  | some oldHead =>
    let old ← fromStore (readSecretGeneration P id logical oldHead.value.generation)
    if old.value.envelope.keyId = keyring.current.id then pure false
    else
      match keyring.decrypt C ⟨deploymentId, id, logical, old.value.generation⟩
          old.value.envelope with
      | .error _ => throw .cannotBeDecrypted
      | .ok plaintext =>
        if dryRun then pure true
        else
          let record ← nextRecord C P deploymentId keyring id logical old.value plaintext
          let head := nextSecretHead deploymentId id logical (old.value.generation + 1) record
          fromStore (commitSecretGeneration P record head (some oldHead.version))
          pure true

def rotateOne :
    RotateM RotationReport := do
  match ← Program.attempt (rotateSecret C P deploymentId keyring name.1 name.2 dryRun) with
  | .ok true => pure { report with rotated := report.rotated + 1 }
  | .ok false => pure { report with current := report.current + 1 }
  | .error e => pure { report with failed := report.failed ++ [.secret name.1 name.2 e] }

def verifyOne : RotateM RotationReport := do
  match ← Program.attempt (verifyCurrentKey P keyring name.1 name.2) with
  | .ok () => pure report
  | .error e => pure { report with failed := report.failed ++ [.secret name.1 name.2 e] }

def rotate : RotateM RotationReport := do
  let ids ← listTargetIds
  let (report, referenced) ← ids.foldlM (examineTarget P) ({}, [])
  let orphaned ← countOrphanedSecretHeads referenced
  let report := { report with referenced := referenced.length, orphaned }
  let report ← referenced.foldlM (rotateOne C P deploymentId keyring dryRun) report
  if dryRun then pure report
  else referenced.foldlM (verifyOne P keyring) report

end

end Scry.Alert
