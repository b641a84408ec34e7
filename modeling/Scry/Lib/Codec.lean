import Scry.Lib.Reader

/-! # Codecs

The writer cuts counts, lengths and numbers to their width; `Fits` is where it cuts nothing. What fits is read
back, and whatever is read fits.
-/

namespace Scry.Lib

open Cursor Reader

structure Codec (ε α : Type) where
  write : α → Bytes
  read : Reader ε (Cursor Unit) α
  Fits : α → Prop
  reads : ∀ {a}, Fits a → Decodes read (write a) a
  fits : ∀ {c a c'}, read c = .ok (a, c') → Fits a

namespace Codec

variable {ε α β : Type}

/-! ## Numbers and bytes -/

variable (eof : ε) (k : Nat) (t : UInt8) (e : UInt8 → ε)

def nat : Codec ε Nat where
  write := toBe k
  read := Cursor.uint eof k
  Fits n := n < 256 ^ k
  reads h := decodes_uint eof h
  fits h := (uint_ok.mp h).1

def bytes (n : Nat) : Codec ε Bytes where
  write b := b
  read := Cursor.take eof n
  Fits b := b.length = n
  reads := by
    rintro b rfl
    exact decodes_take eof b
  fits h := (take_ok.mp h).1

def blob : Codec ε Bytes where
  write b := toBe k b.length ++ b
  read := do
    let n ← Cursor.uint eof k
    Cursor.take eof n
  Fits b := b.length < 256 ^ k
  reads {b} h := (decodes_uint eof h).bind (decodes_take eof b)
  fits := by
    intro c b c' h
    obtain ⟨n, c₁, hn, hb⟩ := bind_ok.mp h
    rw [(take_ok.mp hb).1]
    exact (uint_ok.mp hn).1

/-! ## Composition -/

def iso (x : Codec ε α) (f : α → β) (g : β → α) (hfg : ∀ b, f (g b) = b)
    (hgf : ∀ a, x.Fits a → g (f a) = a) : Codec ε β where
  write b := x.write (g b)
  read := do
    let a ← x.read
    return f a
  Fits b := x.Fits (g b)
  reads {b} h := by
    have hread := (x.reads h).map f
    rwa [hfg] at hread
  fits := by
    intro c b c' h
    obtain ⟨a, c₁, ha, hb⟩ := bind_ok.mp h
    obtain ⟨rfl, -⟩ := pure_ok.mp hb
    rw [hgf a (x.fits ha)]
    exact x.fits ha

/-- For another type, in which some values share their bytes. -/
def via (x : Codec ε α) (f : α → β) (g : β → α) (hgf : ∀ a, x.Fits a → g (f a) = a) : Codec ε β where
  write b := x.write (g b)
  read := do
    let a ← x.read
    return f a
  Fits b := x.Fits (g b) ∧ f (g b) = b
  reads {b} h := by
    have hread := (x.reads h.1).map f
    rwa [h.2] at hread
  fits := by
    intro c b c' h
    obtain ⟨a, c₁, ha, hb⟩ := bind_ok.mp h
    obtain ⟨rfl, -⟩ := pure_ok.mp hb
    rw [hgf a (x.fits ha)]
    exact ⟨x.fits ha, rfl⟩

def seq (x : Codec ε α) (y : Codec ε β) : Codec ε (α × β) where
  write p := x.write p.1 ++ y.write p.2
  read := do
    let a ← x.read
    let b ← y.read
    return (a, b)
  Fits p := x.Fits p.1 ∧ y.Fits p.2
  reads {p} h := (x.reads h.1).bind ((y.reads h.2).map fun b => (p.1, b))
  fits := by
    intro c p c' h
    obtain ⟨a, c₁, ha, h⟩ := bind_ok.mp h
    obtain ⟨b, c₂, hb, h⟩ := bind_ok.mp h
    obtain ⟨rfl, -⟩ := pure_ok.mp h
    exact ⟨x.fits ha, y.fits hb⟩

variable {as : List α}

theorem times_fits (x : Codec ε α) {n : Nat} {c c' : Cursor Unit}
    (h : times n x.read c = .ok (as, c')) : as.length = n ∧ ∀ a ∈ as, x.Fits a := by
  induction n generalizing c as with
  | zero =>
    obtain ⟨rfl, -⟩ := times_zero_ok.mp h
    exact ⟨rfl, nofun⟩
  | succ n ih =>
    obtain ⟨a, c₁, rest, ha, hrest, rfl⟩ := times_succ_ok.mp h
    obtain ⟨hlen, hall⟩ := ih hrest
    exact ⟨by rw [List.length_cons, hlen], List.forall_mem_cons.mpr ⟨x.fits ha, hall⟩⟩

theorem times_reads (x : Codec ε α) (h : ∀ a ∈ as, x.Fits a) :
    Decodes (times as.length x.read) (as.flatMap x.write) as := by
  have hitems := Decodes.times fun a ha => x.reads (h a ha)
  rwa [List.map_id'] at hitems

def counted (x : Codec ε α) : Codec ε (List α) where
  write as := toBe k as.length ++ as.flatMap x.write
  read := do
    let n ← Cursor.uint eof k
    times n x.read
  Fits as := as.length < 256 ^ k ∧ ∀ a ∈ as, x.Fits a
  reads h := (decodes_uint eof h.1).bind (x.times_reads h.2)
  fits := by
    intro c as c' h
    obtain ⟨n, c₁, hn, has⟩ := bind_ok.mp h
    obtain ⟨hlength, hall⟩ := x.times_fits has
    rw [hlength]
    exact ⟨(uint_ok.mp hn).1, hall⟩

def checked (x : Codec ε α) (p : α → Prop) [DecidablePred p] (e : ε) : Codec ε { a // p a } where
  write a := x.write a.val
  read := do
    let a ← x.read
    if h : p a then return ⟨a, h⟩ else fail e
  Fits a := x.Fits a.val
  reads := by
    rintro ⟨a, ha⟩ h c
    exact bind_ok.mpr ⟨a, c, x.reads h c, by simp [ha]⟩
  fits := by
    intro c a c' h
    obtain ⟨a₀, c₁, ha₀, h⟩ := bind_ok.mp h
    split at h
    · obtain ⟨rfl, -⟩ := pure_ok.mp h
      exact x.fits ha₀
    · exact absurd h (by simp)

/-- Always writes `a₀`; reads nothing else. -/
def constant [DecidableEq α] (x : Codec ε α) (a₀ : α) (h₀ : x.Fits a₀) (e : α → ε) : Codec ε α where
  write _ := x.write a₀
  read := do
    let a ← x.read
    if a = a₀ then return a else fail (e a)
  Fits a := a = a₀
  reads := by
    rintro a rfl c
    exact bind_ok.mpr ⟨a, c, x.reads h₀ c, by simp⟩
  fits := by
    intro c a c' h
    obtain ⟨a₁, c₁, -, h⟩ := bind_ok.mp h
    split at h
    · obtain ⟨rfl, -⟩ := pure_ok.mp h
      assumption
    · exact absurd h (by simp)

/-- The reader takes any flag but zero for a value. -/
def optional (x : Codec ε α) : Codec ε (Option α) where
  write
    | none => toBe 1 0
    | some a => toBe 1 1 ++ x.write a
  read := do
    let flag ← Cursor.uint eof 1
    if flag ≠ 0 then do
      let a ← x.read
      return some a
    else return none
  Fits o := ∀ a ∈ o, x.Fits a
  reads := by
    intro o h
    cases o with
    | none =>
      intro c
      exact bind_ok.mpr ⟨0, c, decodes_uint eof (by decide) c, rfl⟩
    | some a => exact (decodes_uint eof (by decide : 1 < 256 ^ 1)).bind ((x.reads (h a rfl)).map some)
  fits := by
    intro c o c' h
    obtain ⟨flag, c₁, -, h⟩ := bind_ok.mp h
    split at h
    · obtain ⟨a, c₂, ha, h⟩ := bind_ok.mp h
      obtain ⟨rfl, -⟩ := pure_ok.mp h
      intro a' ha'
      cases ha'
      exact x.fits ha
    · obtain ⟨rfl, -⟩ := pure_ok.mp h
      nofun

/-! ## Unions -/

/-- Encodings start with one of `tags`; the reader fails on anything else. -/
structure StartsIn (x : Codec ε α) (tags : List UInt8) : Prop where
  write : ∀ a, ∃ t ∈ tags, ∃ w, x.write a = t :: w
  read : ∀ {t}, t ∉ tags → ∀ (w : Bytes) (c : Cursor Unit), ∃ e, x.read (c.unread (t :: w)) = .error e

/-- The variants are tried in order, from the same place. -/
def union (x : Codec ε α) (y : Codec ε β) (e : ε) {s t : List UInt8} (hx : x.StartsIn s)
    (hy : y.StartsIn t) (hst : ∀ b ∈ t, b ∉ s) : Codec ε (α ⊕ β) where
  write
    | .inl a => x.write a
    | .inr b => y.write b
  read c :=
    match x.read c with
    | .ok (a, c') => .ok (.inl a, c')
    | .error _ =>
      match y.read c with
      | .ok (b, c') => .ok (.inr b, c')
      | .error _ => .error e
  Fits
    | .inl a => x.Fits a
    | .inr b => y.Fits b
  reads := by
    intro v h c
    cases v with
    | inl a => simp only [x.reads h c]
    | inr b =>
      obtain ⟨tag, htag, w, hw⟩ := hy.write b
      obtain ⟨err, herr⟩ := hx.read (hst tag htag) w c
      have hread := y.reads h c
      simp only [hw] at hread ⊢
      simp only [herr, hread]
  fits := by
    intro c v c' h
    split at h
    · rename_i a c₁ ha
      cases h
      exact x.fits ha
    · split at h
      · rename_i b c₁ hb
        cases h
        exact y.fits hb
      · cases h

variable {tags : List UInt8} {x : Codec ε α}

theorem StartsIn.iso (hx : x.StartsIn tags) {f : α → β} {g : β → α}
    {hfg : ∀ b, f (g b) = b} {hgf : ∀ a, x.Fits a → g (f a) = a} : (x.iso f g hfg hgf).StartsIn tags where
  write b := hx.write (g b)
  read ht w c := by
    obtain ⟨e, he⟩ := hx.read ht w c
    exact ⟨e, bind_error.mpr (.inl he)⟩

variable {y : Codec ε β}

theorem StartsIn.seq (hx : x.StartsIn tags) :
    (x.seq y).StartsIn tags where
  write p := by
    obtain ⟨t, ht, w, hw⟩ := hx.write p.1
    exact ⟨t, ht, w ++ y.write p.2, by simp only [Codec.seq, hw, List.cons_append]⟩
  read ht w c := by
    obtain ⟨e, he⟩ := hx.read ht w c
    exact ⟨e, bind_error.mpr (.inl he)⟩

theorem StartsIn.union {e : ε} {s t : List UInt8} (hx : x.StartsIn s)
    (hy : y.StartsIn t) (hst : ∀ b ∈ t, b ∉ s) : (x.union y e hx hy hst).StartsIn (s ++ t) where
  write
    | .inl a => by
      obtain ⟨b, hb, w⟩ := hx.write a
      exact ⟨b, List.mem_append_left t hb, w⟩
    | .inr a => by
      obtain ⟨b, hb, w⟩ := hy.write a
      exact ⟨b, List.mem_append_right s hb, w⟩
  read hb w c := by
    rw [List.mem_append, not_or] at hb
    obtain ⟨e₁, h₁⟩ := hx.read hb.1 w c
    obtain ⟨e₂, h₂⟩ := hy.read hb.2 w c
    exact ⟨e, by simp only [Codec.union, h₁, h₂]⟩

/-! ## Machine integers -/

def u8 : Codec ε UInt8 :=
  (nat eof 1).iso UInt8.ofNat UInt8.toNat (fun _ => UInt8.ofNat_toNat)
    fun _ h => UInt8.toNat_ofNat_of_lt' h

def u16 : Codec ε UInt16 :=
  (nat eof 2).iso UInt16.ofNat UInt16.toNat (fun _ => UInt16.ofNat_toNat)
    fun _ h => UInt16.toNat_ofNat_of_lt' h

def u32 : Codec ε UInt32 :=
  (nat eof 4).iso UInt32.ofNat UInt32.toNat (fun _ => UInt32.ofNat_toNat)
    fun _ h => UInt32.toNat_ofNat_of_lt' h

def u64 : Codec ε UInt64 :=
  (nat eof 8).iso UInt64.ofNat UInt64.toNat (fun _ => UInt64.ofNat_toNat)
    fun _ h => UInt64.toNat_ofNat_of_lt' h

def i32 : Codec ε Int32 :=
  (u32 eof).iso UInt32.toInt32 Int32.toUInt32 (fun _ => rfl) fun _ _ => rfl

def i64 : Codec ε Int64 :=
  (u64 eof).iso UInt64.toInt64 Int64.toUInt64 (fun _ => rfl) fun _ _ => rfl

@[simp] theorem u8_fits (n : UInt8) : (u8 eof).Fits n := n.toNat_lt

@[simp] theorem u16_fits (n : UInt16) : (u16 eof).Fits n := n.toNat_lt

@[simp] theorem u32_fits (n : UInt32) : (u32 eof).Fits n := n.toNat_lt

@[simp] theorem u64_fits (n : UInt64) : (u64 eof).Fits n := n.toNat_lt

@[simp] theorem i32_fits (n : Int32) : (i32 eof).Fits n := u32_fits eof n.toUInt32

@[simp] theorem i64_fits (n : Int64) : (i64 eof).Fits n := u64_fits eof n.toUInt64

def tag : Codec ε UInt8 := (u8 eof).constant t (u8_fits eof t) e

theorem tag_startsIn : (tag eof t e).StartsIn [t] where
  write _ := ⟨t, List.mem_singleton.mpr rfl, [], by simp [tag, constant, u8, iso, nat, toBe]⟩
  read {b} hb w c := by
    have hread : (u8 eof).read (c.unread (b :: w)) = .ok (b, c.unread w) := by
      have := (u8 eof).reads (u8_fits eof b) (c.unread w)
      simpa [u8, iso, nat, toBe] using this
    refine ⟨e b, bind_error.mpr (.inr ⟨b, _, hread, ?_⟩)⟩
    rw [if_neg (by simpa using hb)]
    rfl

end Codec

end Scry.Lib
