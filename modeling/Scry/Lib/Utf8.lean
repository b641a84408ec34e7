import Scry.Lib.BigEndian

/-! # UTF-8

A string is the list of its UTF-8 bytes.
-/

namespace Scry.Lib

open List

def ascii (s : String) : Bytes := s.toList.map fun c => UInt8.ofNat c.toNat

/-- What may follow a first byte; `none` where no character starts. -/
def tailRanges (b : UInt8) : Option (List (UInt8 × UInt8)) :=
  if b ≤ 0x7F then some []
  else if 0xC2 ≤ b ∧ b ≤ 0xDF then some [(0x80, 0xBF)]
  else if b = 0xE0 then some [(0xA0, 0xBF), (0x80, 0xBF)]
  else if b = 0xED then some [(0x80, 0x9F), (0x80, 0xBF)]
  else if 0xE1 ≤ b ∧ b ≤ 0xEF then some [(0x80, 0xBF), (0x80, 0xBF)]
  else if b = 0xF0 then some [(0x90, 0xBF), (0x80, 0xBF), (0x80, 0xBF)]
  else if 0xF1 ≤ b ∧ b ≤ 0xF3 then some [(0x80, 0xBF), (0x80, 0xBF), (0x80, 0xBF)]
  else if b = 0xF4 then some [(0x80, 0x8F), (0x80, 0xBF), (0x80, 0xBF)]
  else none

def matchRanges : List (UInt8 × UInt8) → Bytes → Nat
  | (lo, hi) :: ranges, b :: l => if lo ≤ b ∧ b ≤ hi then matchRanges ranges l + 1 else 0
  | _, _ => 0

/-- Of the character, or of the ill-formed piece in its place. -/
def charLen (b : UInt8) (rest : Bytes) : Except Nat Nat :=
  match tailRanges b with
  | none => .error 1
  | some ranges =>
    let n := matchRanges ranges rest
    if n = ranges.length then .ok (n + 1) else .error (n + 1)

def validUtf8Aux : Nat → Bytes → Bool
  | _, [] => true
  | 0, _ :: _ => false
  | n + 1, b :: l =>
    match charLen b l with
    | .ok k => validUtf8Aux n ((b :: l).drop k)
    | .error _ => false

/-- `str::from_utf8(l).is_ok()`. Characters take bytes, so the length is enough fuel. -/
def validUtf8 (l : Bytes) : Bool := validUtf8Aux l.length l

def utf8LossyAux : Nat → Bytes → Bytes
  | _, [] => []
  | 0, _ :: _ => []
  | n + 1, b :: l =>
    match charLen b l with
    | .ok k => (b :: l).take k ++ utf8LossyAux n ((b :: l).drop k)
    | .error k => [0xEF, 0xBF, 0xBD] ++ utf8LossyAux n ((b :: l).drop k)

/-- `String::from_utf8_lossy`: each ill-formed piece becomes U+FFFD. -/
def utf8Lossy (l : Bytes) : Bytes := utf8LossyAux l.length l

example : utf8Lossy [0x61, 0xE2, 0x82, 0x62, 0xC3, 0xA4, 0xFF] =
    [0x61, 0xEF, 0xBF, 0xBD, 0x62, 0xC3, 0xA4, 0xEF, 0xBF, 0xBD] := by
  decide +kernel

/-! ## Texts in a row -/

variable {l : Bytes}

theorem matchRanges_append {ranges : List (UInt8 × UInt8)} (h : matchRanges ranges l = ranges.length)
    (m : Bytes) : matchRanges ranges (l ++ m) = ranges.length ∧ ranges.length ≤ l.length := by
  induction ranges generalizing l with
  | nil => exact ⟨by cases l ++ m <;> rfl, Nat.zero_le _⟩
  | cons r ranges ih =>
    cases l with
    | nil => cases h
    | cons b l =>
      simp only [matchRanges, length_cons] at h ⊢
      split at h
      next hin =>
        obtain ⟨hmatch, hlen⟩ := ih (Nat.succ.inj h)
        rw [cons_append, matchRanges, if_pos hin, hmatch]
        exact ⟨rfl, Nat.succ_le_succ hlen⟩
      · cases h

theorem charLen_append {b : UInt8} {k : Nat} (h : charLen b l = .ok k) (m : Bytes) :
    charLen b (l ++ m) = .ok k ∧ 1 ≤ k ∧ k ≤ l.length + 1 := by
  unfold charLen at h ⊢
  split at h
  · cases h
  dsimp only at h ⊢
  split at h
  next hmatch =>
    cases h
    obtain ⟨hmatch', _⟩ := matchRanges_append hmatch m
    rw [if_pos hmatch', hmatch', hmatch]
    exact ⟨rfl, by omega, by omega⟩
  · cases h

theorem validUtf8Aux_append {n : Nat} (hl : validUtf8Aux n l = true) {m : Bytes} {f : Nat}
    (hf : (l ++ m).length ≤ f) (hm : ∀ g, m.length ≤ g → validUtf8Aux g m = true) :
    validUtf8Aux f (l ++ m) = true := by
  induction n generalizing l f with
  | zero =>
    cases l with
    | nil => exact hm f hf
    | cons b l => cases hl
  | succ n ih =>
    cases l with
    | nil => exact hm f hf
    | cons b l =>
      rw [cons_append] at hf ⊢
      cases f with
      | zero => cases hf
      | succ f =>
        simp only [validUtf8Aux] at hl ⊢
        split at hl
        next k hk =>
          obtain ⟨hk', _, hlen⟩ := charLen_append hk m
          rw [hk']
          have hdrop : (b :: (l ++ m)).drop k = (b :: l).drop k ++ m := by
            rw [← cons_append, drop_append_of_le_length (by simpa using hlen)]
          simp only [hdrop]
          refine ih hl ?_
          simp only [length_append, length_drop, length_cons] at hf ⊢
          omega
        · cases hl

theorem validUtf8Aux_of_validUtf8 (h : validUtf8 l = true) {f : Nat} (hf : l.length ≤ f) :
    validUtf8Aux f l = true := by
  have hnil (g : Nat) : validUtf8Aux g [] = true := by cases g <;> rfl
  rw [← append_nil l]
  exact validUtf8Aux_append h (by simpa using hf) fun g _ => hnil g

theorem validUtf8_nil : validUtf8 [] = true := rfl

theorem validUtf8_append {l m : Bytes} (hl : validUtf8 l = true) (hm : validUtf8 m = true) :
    validUtf8 (l ++ m) = true :=
  validUtf8Aux_append hl (Nat.le_refl _) fun _ hg => validUtf8Aux_of_validUtf8 hm hg

theorem validUtf8_ascii (h : ∀ b ∈ l, b ≤ 0x7F) : validUtf8 l = true := by
  have haux (n : Nat) (hn : l.length ≤ n) : validUtf8Aux n l = true := by
    induction n generalizing l with
    | zero =>
      obtain rfl := length_eq_zero_iff.mp (Nat.le_zero.mp hn)
      rfl
    | succ n ih =>
      cases l with
      | nil => rfl
      | cons b l =>
        obtain ⟨hb, hl⟩ := forall_mem_cons.mp h
        have hlen : charLen b l = .ok 1 := by simp [charLen, tailRanges, hb, matchRanges]
        simp only [validUtf8Aux, hlen, drop_succ_cons, drop_zero]
        exact ih hl (by simpa using hn)
  exact haux l.length (Nat.le_refl _)

end Scry.Lib
