import Scry.Lib.BigEndian

/-! # WAL frames

`[ len: u32 BE | crc32: u32 BE | payload ]`. No fact here needs more of the CRC than that it is a function of
the payload.
-/

open Scry.Lib

namespace Scry.Wal

open List

/-- One bit of the reflected CRC-32 with polynomial `0xEDB88320`. -/
def crcShift (c : UInt32) : UInt32 := if c &&& 1 = 1 then (c >>> 1) ^^^ 0xEDB88320 else c >>> 1

/-- What `crc32fast::hash` returns, bit by bit. -/
def crc32Ieee (payload : Bytes) : UInt32 :=
  payload.foldl (fun c b => Nat.repeat crcShift 8 (c ^^^ b.toUInt32)) 0xFFFFFFFF ^^^ 0xFFFFFFFF

example : crc32Ieee [0x31, 0x32, 0x33, 0x34, 0x35, 0x36, 0x37, 0x38, 0x39] = 0xCBF43926 := by
  decide +kernel

def frameHeaderSize : Nat := 8

def maxReplayFrameBytes : Nat := 32 * 1024 * 1024

def encodeHeader (len crc : Nat) : Bytes := toBe 4 len ++ toBe 4 crc

def decodeHeader (hdr : Bytes) : Nat × Nat := (ofBe (hdr.take 4), ofBe (hdr.drop 4))

def frame (crc32 : Bytes → UInt32) (payload : Bytes) : Bytes :=
  encodeHeader payload.length (crc32 payload).toNat ++ payload

inductive Read where
  | frame (payload rest : Bytes)
  | cleanEnd
  | tornHeader
  | oversized (len : Nat)
  | tornPayload
  | crcMismatch
  deriving DecidableEq

def readFrame (crc32 : Bytes → UInt32) (f : Bytes) : Read :=
  if f.length = 0 then .cleanEnd
  else if f.length < frameHeaderSize then .tornHeader
  else
    let (len, crcExpected) := decodeHeader (f.take frameHeaderSize)
    let rest := f.drop frameHeaderSize
    if maxReplayFrameBytes < len then .oversized len
    else if rest.length < len then .tornPayload
    else
      let buf := rest.take len
      if (crc32 buf).toNat ≠ crcExpected then .crcMismatch else .frame buf (rest.drop len)

def scanAux (crc32 : Bytes → UInt32) : Nat → Bytes → List Bytes × Bytes
  | 0, f => ([], f)
  | n + 1, f =>
    match readFrame crc32 f with
    | .frame payload rest =>
      let (payloads, left) := scanAux crc32 n rest
      (payload :: payloads, left)
    | _ => ([], f)

/-- The payloads up to the first read that is no frame, and the rest. Frames take bytes, so the length is
enough fuel. -/
def scan (crc32 : Bytes → UInt32) (f : Bytes) : List Bytes × Bytes := scanAux crc32 f.length f

variable (crc32 : Bytes → UInt32)

/-! ## One frame -/

theorem encodeHeader_length (len crc : Nat) : (encodeHeader len crc).length = 8 := by
  simp [encodeHeader]

theorem decodeHeader_encodeHeader (len crc : Nat) (hlen : len < 2 ^ 32) (hcrc : crc < 2 ^ 32) :
    decodeHeader (encodeHeader len crc) = (len, crc) := by
  have htake : (toBe 4 len ++ toBe 4 crc).take 4 = toBe 4 len :=
    take_left' (toBe_length 4 len)
  have hdrop : (toBe 4 len ++ toBe 4 crc).drop 4 = toBe 4 crc :=
    drop_left' (toBe_length 4 len)
  rw [decodeHeader, encodeHeader, htake, hdrop, ofBe_toBe_of_lt _ _ (by simpa using hlen),
    ofBe_toBe_of_lt _ _ (by simpa using hcrc)]

theorem frame_length (payload : Bytes) : (frame crc32 payload).length = 8 + payload.length := by
  simp [frame, encodeHeader_length]

theorem decodeHeader_frame (payload : Bytes) (h : payload.length ≤ maxReplayFrameBytes) : decodeHeader
    (encodeHeader payload.length (crc32 payload).toNat) = (payload.length, (crc32 payload).toNat) := by
  apply decodeHeader_encodeHeader
  · exact Nat.lt_of_le_of_lt h (by decide)
  · exact (crc32 payload).toNat_lt

theorem frame_take_header (payload rest : Bytes) :
    (frame crc32 payload ++ rest).take 8 = encodeHeader payload.length (crc32 payload).toNat := by
  rw [frame, append_assoc]
  exact take_left' (encodeHeader_length _ _)

theorem frame_drop_header (payload rest : Bytes) : (frame crc32 payload ++ rest).drop 8 = payload ++ rest := by
  rw [frame, append_assoc]
  exact drop_left' (encodeHeader_length _ _)

theorem readFrame_frame (payload rest : Bytes) (h : payload.length ≤ maxReplayFrameBytes) :
    readFrame crc32 (frame crc32 payload ++ rest) = .frame payload rest := by
  have hlen : (frame crc32 payload ++ rest).length = 8 + payload.length + rest.length := by
    rw [length_append, frame_length]
  rw [readFrame, if_neg (by omega), if_neg (by simp only [frameHeaderSize]; omega)]
  simp only [frameHeaderSize, frame_take_header, frame_drop_header, decodeHeader_frame crc32 _ h]
  rw [if_neg (Nat.not_lt.mpr h), if_neg (by simp)]
  simp

@[simp] theorem readFrame_nil : readFrame crc32 [] = .cleanEnd := rfl

theorem readFrame_short (f : Bytes) (h0 : f.length ≠ 0) (h8 : f.length < 8) : readFrame crc32 f = .tornHeader := by
  rw [readFrame, if_neg h0, if_pos (show f.length < frameHeaderSize from h8)]

/-- A cut frame reads as a torn tail, or as nothing at all. -/
theorem readFrame_cut (payload : Bytes) (k : Nat) (h : payload.length ≤ maxReplayFrameBytes)
    (hk : k < (frame crc32 payload).length) : readFrame crc32 ((frame crc32 payload).take k) ∈
    [Read.cleanEnd, Read.tornHeader, Read.tornPayload] := by
  have hlen : ((frame crc32 payload).take k).length = k := by simp; omega
  rcases Nat.lt_or_ge k 8 with h8 | h8
  · by_cases h0 : k = 0
    · subst h0
      simp
    · rw [readFrame_short crc32 _ (by omega) (by omega)]
      simp
  · have htake : ((frame crc32 payload).take k).take 8 =
        encodeHeader payload.length (crc32 payload).toNat := by
      rw [take_take, Nat.min_eq_left h8]
      simpa using frame_take_header crc32 payload []
    rw [frame_length] at hk
    rw [readFrame, if_neg (by omega), if_neg (by simp only [frameHeaderSize]; omega)]
    simp only [frameHeaderSize, htake, decodeHeader_frame crc32 _ h]
    rw [if_neg (Nat.not_lt.mpr h), if_pos (by rw [length_drop, hlen]; omega)]
    simp

theorem readFrame_rest_lt (f payload rest : Bytes) (h : readFrame crc32 f = .frame payload rest) :
    rest.length < f.length := by
  rw [readFrame] at h
  split at h
  · cases h
  split at h
  · cases h
  rename_i h8
  simp only [frameHeaderSize] at h8
  dsimp only at h
  split at h
  · cases h
  split at h
  · cases h
  split at h
  · cases h
  · cases h
    simp only [frameHeaderSize, length_drop]
    omega

/-! ## One segment -/

theorem scanAux_fuel (n m : Nat) (f : Bytes) (hn : f.length ≤ n) (hm : f.length ≤ m) :
    scanAux crc32 n f = scanAux crc32 m f := by
  induction n generalizing m f with
  | zero =>
    have : f = [] := eq_nil_of_length_eq_zero (by omega)
    subst this
    cases m <;> simp [scanAux]
  | succ n ih =>
    cases m with
    | zero =>
      have : f = [] := eq_nil_of_length_eq_zero (by omega)
      subst this
      simp [scanAux]
    | succ m =>
      cases hr : readFrame crc32 f with
      | frame payload rest =>
        have := readFrame_rest_lt crc32 f payload rest hr
        simp only [scanAux, hr, ih m rest (by omega) (by omega)]
      | _ => simp only [scanAux, hr]

theorem scan_of_frame (f payload rest : Bytes) (h : readFrame crc32 f = .frame payload rest) :
    scan crc32 f = (payload :: (scan crc32 rest).1, (scan crc32 rest).2) := by
  have hlt := readFrame_rest_lt crc32 f payload rest h
  obtain ⟨n, hn⟩ : ∃ n, f.length = n + 1 := ⟨f.length - 1, by omega⟩
  rw [scan, hn]
  simp only [scanAux, h]
  rw [scan, scanAux_fuel crc32 n rest.length rest (by omega) (Nat.le_refl _)]

theorem scan_of_not_frame (f : Bytes) (h : ∀ payload rest, readFrame crc32 f ≠ .frame payload rest) :
    scan crc32 f = ([], f) := by
  cases hf : f.length with
  | zero => rw [scan, hf, scanAux]
  | succ n =>
    rw [scan, hf, scanAux]
    cases hr : readFrame crc32 f with
    | frame payload rest => exact absurd hr (h payload rest)
    | _ => rfl

theorem readFrame_left_ne (f payload rest : Bytes) : readFrame crc32 (scan crc32 f).2 ≠ .frame payload rest := by
  induction hn : f.length using Nat.strongRecOn generalizing f with
  | _ n ih =>
    subst hn
    cases hr : readFrame crc32 f with
    | frame p r =>
      rw [scan_of_frame crc32 f p r hr]
      exact ih _ (readFrame_rest_lt crc32 f p r hr) r rfl
    | _ =>
      rw [scan_of_not_frame crc32 f (by simp [hr])]
      simp [hr]

theorem readFrame_append (f g payload rest : Bytes) (h : readFrame crc32 f = .frame payload rest) :
    readFrame crc32 (f ++ g) = .frame payload (rest ++ g) := by
  rw [readFrame] at h
  split at h
  · cases h
  split at h
  · cases h
  rename_i h0 h8
  have h8' : 8 ≤ f.length := Nat.not_lt.mp h8
  dsimp only at h
  split at h
  · cases h
  split at h
  · cases h
  split at h
  · cases h
  rename_i hmax hshort hcrc
  cases h
  have htake : (f ++ g).take frameHeaderSize = f.take frameHeaderSize :=
    take_append_of_le_length h8'
  have hdrop : (f ++ g).drop frameHeaderSize = f.drop frameHeaderSize ++ g :=
    drop_append_of_le_length h8'
  have hlen := Nat.not_lt.mp hshort
  have hfg : frameHeaderSize ≤ (f ++ g).length := by rw [length_append]; omega
  rw [readFrame, if_neg (by rw [length_append]; omega), if_neg (Nat.not_lt.mpr hfg)]
  simp only [htake, hdrop]
  rw [if_neg hmax, if_neg (by rw [length_append]; omega), take_append_of_le_length hlen,
    if_neg hcrc, drop_append_of_le_length hlen]

/-- Behind a frame boundary the bytes are scanned on their own. -/
theorem scan_append (f g : Bytes) (h : (scan crc32 f).2 = []) :
    scan crc32 (f ++ g) = ((scan crc32 f).1 ++ (scan crc32 g).1, (scan crc32 g).2) := by
  induction hn : f.length using Nat.strongRecOn generalizing f with
  | _ n ih =>
    subst hn
    cases hr : readFrame crc32 f with
    | frame p r =>
      rw [scan_of_frame crc32 f p r hr] at h ⊢
      rw [scan_of_frame crc32 _ p _ (readFrame_append crc32 f g p r hr),
        ih _ (readFrame_rest_lt crc32 f p r hr) r h rfl]
      rfl
    | _ =>
      have hs := scan_of_not_frame crc32 f (by simp [hr])
      rw [hs] at h
      simp only at h
      subst h
      simp [hs]

theorem scan_frame (payload : Bytes) (h : payload.length ≤ maxReplayFrameBytes) :
    scan crc32 (frame crc32 payload) = ([payload], []) := by
  have := readFrame_frame crc32 payload [] h
  rw [append_nil] at this
  rw [scan_of_frame crc32 _ _ _ this, scan_of_not_frame crc32 [] (by simp)]

end Scry.Wal
