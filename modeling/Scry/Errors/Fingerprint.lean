import Scry.Errors.Occ1

/-! # What an error is grouped by

`select` picks the texts of an occurrence, and `compute_digest` hashes them behind the quality of the choice. The
two fallbacks share a quality.
-/

open Scry.Lib Scry.Proto

namespace Scry.Errors

open List Occ1

inductive Selection where
  | typeAndMessage (ty message : Bytes)
  | typeOnly (ty : Bytes)
  | messageOnly (message : Bytes)
  | fallbackBody (body : Bytes)
  | fallbackSeverity (severityText : Bytes)
  deriving DecidableEq

def stringAttribute (d : DecodedOcc1) (key : Bytes) : Option Bytes :=
  match d.attributes.find? fun e => e.1.val == key with
  | some (_, .string s) => some s.val
  | _ => none

section

variable (blank : Bytes → Bool) (normalize : Bytes → Bytes) (appDigest : Bytes)

/-- `blank` is `trim().is_empty()`. -/
def select (d : DecodedOcc1) : Selection :=
  let ty := (stringAttribute d (ascii "exception.type")).getD []
  let message := (stringAttribute d (ascii "exception.message")).getD []
  match ty.isEmpty, message.isEmpty with
  | false, false => .typeAndMessage ty message
  | false, true => .typeOnly ty
  | true, false => .messageOnly message
  | true, true =>
    match d.body with
    | .string body => if blank body.val then .fallbackSeverity d.severityText.val else .fallbackBody body.val
    | _ => .fallbackSeverity d.severityText.val

def component : Option Bytes → Bytes
  | some text => 1 :: (toBe 4 text.length ++ text)
  | none => [0]

def computeDigest (quality : UInt8) (exceptionType normalizedMessage : Option Bytes) : Bytes :=
  ascii "scry.fingerprint.v1" ++ [0] ++ appDigest ++ toBe 2 2 ++
    quality :: (component exceptionType ++ component normalizedMessage)

def severityLabel (severityText : Bytes) : Bytes := ascii "unknown error (" ++ severityText ++ ascii ")"

/-- The quality, the type and the text that are hashed. -/
def Selection.parts : Selection → UInt8 × Option Bytes × Option Bytes
  | .typeAndMessage ty message => (0, some ty, some (normalize message))
  | .typeOnly ty => (1, some ty, none)
  | .messageOnly message => (3, none, some (normalize message))
  | .fallbackBody body => (2, none, some (normalize body))
  | .fallbackSeverity severityText => (2, none, some (severityLabel severityText))

/-- What `fingerprint_from_decoded` feeds to SHA-256. -/
def digestInput (d : DecodedOcc1) : Bytes :=
  let (quality, ty, message) := (select blank d).parts normalize
  computeDigest appDigest quality ty message

/-- The rule, with its texts as they are compared. -/
def Selection.normalized : Selection → Selection
  | .typeAndMessage ty message => .typeAndMessage ty (normalize message)
  | .messageOnly message => .messageOnly (normalize message)
  | .fallbackBody body => .fallbackBody (normalize body)
  | s => s

/-- The body of the one is what stands for the severity of the other. -/
def Selection.Clash : Selection → Selection → Prop
  | .fallbackBody body, .fallbackSeverity severityText => normalize body = severityLabel severityText
  | .fallbackSeverity severityText, .fallbackBody body => normalize body = severityLabel severityText
  | _, _ => False

structure Selection.Short (s : Selection) : Prop where
  ty : ∀ t ∈ (s.parts normalize).2.1, t.length < 2 ^ 32
  message : ∀ t ∈ (s.parts normalize).2.2, t.length < 2 ^ 32

variable {blank normalize appDigest}

theorem component_inj {o o' : Option Bytes} {r r' : Bytes} (ho : ∀ t ∈ o, t.length < 2 ^ 32)
    (ho' : ∀ t ∈ o', t.length < 2 ^ 32) (h : component o ++ r = component o' ++ r') : o = o' ∧ r = r' := by
  cases o with
  | none =>
    cases o' with
    | none => exact ⟨rfl, (cons.inj h).2⟩
    | some t' => exact absurd (cons.inj h).1 (by decide)
  | some t =>
    cases o' with
    | none => exact absurd (cons.inj h).1 (by decide)
    | some t' =>
      simp only [component, cons_append, append_assoc, cons.injEq, true_and] at h
      obtain ⟨hlen, h⟩ := toBe_append_inj (ho t rfl) (ho' t' rfl) h
      obtain ⟨rfl, hrest⟩ := append_inj h hlen
      exact ⟨rfl, hrest⟩

theorem digestInput_eq_iff {d d' : DecodedOcc1} (h : (select blank d).Short normalize)
    (h' : (select blank d').Short normalize) :
    digestInput blank normalize appDigest d = digestInput blank normalize appDigest d' ↔
      (select blank d).parts normalize = (select blank d').parts normalize := by
  constructor
  · intro heq
    simp only [digestInput, computeDigest, append_cancel_left_eq, cons.injEq] at heq
    obtain ⟨hty, hrest⟩ := component_inj h.ty h'.ty heq.2
    obtain ⟨hmessage, -⟩ := component_inj h.message h'.message (congrArg (· ++ []) hrest)
    exact Prod.ext heq.1 (Prod.ext hty hmessage)
  · intro heq
    rw [digestInput, digestInput, heq]

theorem severityLabel_inj {t t' : Bytes} (h : severityLabel t = severityLabel t') : t = t' :=
  append_cancel_left (append_cancel_right h)

theorem parts_separate_iff (s s' : Selection) :
    (s.parts normalize = s'.parts normalize → s.normalized normalize = s'.normalized normalize) ↔
      ¬ s.Clash normalize s' := by
  cases s <;> cases s' <;> simp [Selection.parts, Selection.normalized, Selection.Clash, eq_comm]
  · exact fun h => severityLabel_inj h

/-- Equal digests mean the same rule and texts, but where a body fallback meets a severity fallback of its text. -/
theorem digest_separates_iff {d d' : DecodedOcc1} (h : (select blank d).Short normalize)
    (h' : (select blank d').Short normalize) :
    (digestInput blank normalize appDigest d = digestInput blank normalize appDigest d' →
      (select blank d).normalized normalize = (select blank d').normalized normalize) ↔
    ¬ (select blank d).Clash normalize (select blank d') := by
  rw [digestInput_eq_iff h h']
  exact parts_separate_iff _ _

end

theorem digest_separates_iff_bare : ∃ d : DecodedOcc1, (select (fun _ => false) d).Short id ∧
    ¬ (select (fun _ => false) d).Clash id (select (fun _ => false) d) := by
  obtain ⟨d, hd⟩ : ∃ d : DecodedOcc1, select (fun _ => false) d = .fallbackSeverity [] :=
    ⟨⟨1, 1, [], [], [], 0, ⟨[], validUtf8_nil⟩, ⟨[], validUtf8_nil⟩, .null, []⟩, rfl⟩
  have hshort : (select (fun _ => false) d).Short id := by
    rw [hd]
    exact ⟨by simp [Selection.parts], by decide⟩
  exact ⟨d, hshort, (@digest_separates_iff (fun _ => false) id [] d d hshort hshort).mp fun _ => rfl⟩

/-- A body that reads like the label of a severity. -/
theorem fallbacks_share_digest : ∃ d d' : DecodedOcc1, ∀ blank normalize appDigest,
    blank (ascii "unknown error (ERROR)") = false →
    normalize (ascii "unknown error (ERROR)") = ascii "unknown error (ERROR)" →
    select blank d = .fallbackBody (ascii "unknown error (ERROR)") ∧
    select blank d' = .fallbackSeverity (ascii "ERROR") ∧
    digestInput blank normalize appDigest d =
      digestInput blank normalize appDigest d' := by
  refine ⟨⟨1, 1, [], [], [], 0, ⟨ascii "ERROR", by decide⟩, ⟨[], validUtf8_nil⟩,
    .string ⟨ascii "unknown error (ERROR)", by decide⟩, []⟩,
    ⟨1, 1, [], [], [], 0, ⟨ascii "ERROR", by decide⟩, ⟨[], validUtf8_nil⟩, .null, []⟩, ?_⟩
  intro blank normalize appDigest hblank hnormal
  have hlabel : severityLabel (ascii "ERROR") = ascii "unknown error (ERROR)" := by decide
  refine ⟨?_, rfl, ?_⟩
  · simp [select, stringAttribute, hblank]
  · simp [digestInput, select, stringAttribute, hblank, Selection.parts, hnormal, hlabel]

end Scry.Errors
