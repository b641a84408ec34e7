import Scry.Valkey.Lease

/-! # At most one fence lets its holder act

While a fence is valid, either the key still holds its token, or the time that the last confirmed command bought
is over.
-/

open Scry.Lib

namespace Scry.Valkey

open Option Table List

/-- Bought for `px` milliseconds at `sent`: still held, or that time is over. -/
def Granted (s : Cluster) (token : Nat) (px : Int) (sent : Nat) : Prop :=
  (∃ setAt, s.key = some ⟨token, setAt, px⟩ ∧ sent ≤ setAt) ∨
    (sent : Int) + px * nanosPerMilli ≤ s.now

/-- `P` is what is known of the lease times asked for. -/
structure Sound (P : Nat → Prop) (s : Cluster) : Prop where
  set_sent : ∀ t sent px, .set t sent px ∈ s.network → sent ≤ s.now ∧
    ∀ a, s.attempts.lookup t = some a → a.sent = sent ∧ ttlMs a.ttl = px
  renew_sent : ∀ t sent px, .renew t sent px ∈ s.network → sent ≤ s.now ∧
    ∃ l, s.leases.lookup t = some l ∧ ttlMs l.ttl = px
  released : ∀ t, .release t ∈ s.network → s.attempts.lookup t = none ∧
    ∀ l, s.leases.lookup t = some l → l.fence.valid = false
  set_granted : ∀ t sent, .set t sent .ok ∈ s.replies →
    ∀ a, s.attempts.lookup t = some a → a.sent = sent ∧ Granted s t (ttlMs a.ttl) sent
  renew_granted : ∀ t sent, .renew t sent 1 ∈ s.replies → ∃ l, s.leases.lookup t = some l ∧
    (l.fence.valid = true → Granted s t (ttlMs l.ttl) sent)
  lease_granted : ∀ t l, s.leases.lookup t = some l → l.fence.valid = true →
    Granted s t (ttlMs l.ttl) (l.fence.origin + fromMillis l.fence.lastOkMillis)
  key_set : ∀ k, s.key = some k → k.setAt ≤ s.now
  disjoint : ∀ t a, s.attempts.lookup t = some a → s.leases.lookup t = none
  command_lt : ∀ c ∈ s.network, c.token < s.nextToken
  reply_lt : ∀ r ∈ s.replies, r.token < s.nextToken
  attempt_lt : ∀ t a, s.attempts.lookup t = some a → t < s.nextToken
  lease_lt : ∀ t l, s.leases.lookup t = some l → t < s.nextToken
  attempt_ttl : ∀ t a, s.attempts.lookup t = some a → P a.ttl
  lease_ttl : ∀ t l, s.leases.lookup t = some l → P l.ttl ∧ l.fence.backstop = backstopFor l.ttl

variable {P : Nat → Prop} {s s' : Cluster}

theorem sound_init : Sound P Cluster.init := by
  constructor <;> simp [Cluster.init]

/-! ## Grants -/

variable {sent t : Nat} {c : Command} {token : Nat} {key : Option Holder} {px : Int}

theorem Granted.mono {sent' : Nat} (h : Granted s t px sent) (hle : sent' ≤ sent) :
    Granted s t px sent' := by
  rcases h with ⟨setAt, hkey, hsent⟩ | _
  · exact .inl ⟨setAt, hkey, Nat.le_trans hle hsent⟩
  · right
    omega

theorem Granted.tick (h : Granted s t px sent) (hkey : s'.key = s.key) (hnow : s.now ≤ s'.now) :
    Granted s' t px sent := by
  rcases h with ⟨setAt, hk, hsent⟩ | _
  · exact .inl ⟨setAt, hkey.trans hk, hsent⟩
  · right
    omega

theorem Granted.expire (h : Granted s t px sent) {k : Holder} (hk : s.key = some k)
    (hover : (k.setAt : Int) + k.px * nanosPerMilli ≤ s.now) (hnow : s'.now = s.now) :
    Granted s' t px sent := by
  right
  rw [hnow]
  rcases h with ⟨setAt, hkey, _⟩ | hdone
  · rw [hk] at hkey
    cases hkey
    simp only at hover
    omega
  · exact hdone

theorem execute_cases (now : Nat) (key : Option Holder) (c : Command) :
    (∃ t x px, c = .set t x px ∧ key = none ∧
      execute now key c = (some ⟨t, now, px⟩, some (.set t x .ok))) ∨
    (∃ t x px r, c = .set t x px ∧ r ≠ .ok ∧ execute now key c = (key, some (.set t x r))) ∨
    (∃ t x px, c = .renew t x px ∧ key.map Holder.token = some t ∧
      execute now key c = (if px ≤ 0 then none else some ⟨t, now, px⟩, some (.renew t x 1))) ∨
    (∃ t x px, c = .renew t x px ∧ execute now key c = (key, some (.renew t x 0))) ∨
    ∃ t, c = .release t ∧
      execute now key c = (if key.map Holder.token = some t then none else key, none) := by
  cases c with
  | set t x px =>
    by_cases hpx : px ≤ 0
    · exact .inr (.inl ⟨t, x, px, .error, rfl, by simp, if_pos hpx⟩)
    · cases key with
      | none => exact .inl ⟨t, x, px, rfl, rfl, if_neg hpx⟩
      | some k => exact .inr (.inl ⟨t, x, px, .null, rfl, by simp, if_neg hpx⟩)
  | renew t x px =>
    by_cases hkey : key.map Holder.token = some t
    · exact .inr (.inr (.inl ⟨t, x, px, rfl, hkey, if_pos hkey⟩))
    · exact .inr (.inr (.inr (.inl ⟨t, x, px, rfl, if_neg hkey⟩)))
  | release t => exact .inr (.inr (.inr (.inr ⟨t, rfl, rfl⟩)))

/-- Unless the command releases or renews `t`. -/
theorem Granted.execute (h : Granted s t px sent) (hset : ∀ k, s.key = some k → k.setAt ≤ s.now)
    (hkey : s'.key = (execute s.now s.key c).1) (hnow : s'.now = s.now) (hrel : c ≠ .release t)
    (hpx : ∀ x px', c = .renew t x px' → px' = px) :
    Granted s' t px sent := by
  rcases h with ⟨setAt, hk, hle⟩ | hover
  · have hsent := Nat.le_trans hle (hset _ hk)
    rw [hk] at hkey
    obtain ⟨u, x, px', rfl, hnone, -⟩ | ⟨u, x, px', r, rfl, -, heq⟩ | ⟨u, x, px', rfl, htoken, heq⟩ |
      ⟨u, x, px', rfl, heq⟩ | ⟨u, rfl, heq⟩ := execute_cases s.now (some ⟨t, setAt, px⟩) c
    · cases hnone
    · rw [heq] at hkey
      exact .inl ⟨setAt, hkey, hle⟩
    · obtain rfl : t = u := some.inj htoken
      obtain rfl := hpx x px' rfl
      rw [heq] at hkey
      simp only at hkey
      split at hkey
      · -- A non-positive time is over as soon as it begins.
        right
        rw [hnow]
        simp only [nanosPerMilli]
        omega
      · exact .inl ⟨s.now, hkey, hsent⟩
    · rw [heq] at hkey
      exact .inl ⟨setAt, hkey, hle⟩
    · have hu : t ≠ u := by
        rintro rfl
        exact hrel rfl
      rw [heq] at hkey
      exact .inl ⟨setAt, by simpa [hu] using hkey, hle⟩
  · right
    rw [hnow]
    exact hover

/-! ## Steps that move one thing -/

theorem Sound.tick (h : Sound P s) (d : Nat) : Sound P { s with now := s.now + d } :=
  have hle : s.now ≤ s.now + d := Nat.le_add_right _ _
  { h with
    set_sent := fun t sent px hc => (h.set_sent t sent px hc).imp_left (Nat.le_trans · hle)
    renew_sent := fun t sent px hc => (h.renew_sent t sent px hc).imp_left (Nat.le_trans · hle)
    set_granted := fun t sent hr a ha => (h.set_granted t sent hr a ha).imp_right (·.tick rfl hle)
    renew_granted := fun t sent hr => by
      obtain ⟨l, hl, hg⟩ := h.renew_granted t sent hr
      exact ⟨l, hl, fun hv => (hg hv).tick rfl hle⟩
    lease_granted := fun t l hl hv => (h.lease_granted t l hl hv).tick rfl hle
    key_set := fun k hk => Nat.le_trans (h.key_set k hk) hle }

theorem Sound.lose (h : Sound P s) {network : List Command} {replies : List Reply}
    (hnet : network ⊆ s.network) (hrep : replies ⊆ s.replies) :
    Sound P { s with network := network, replies := replies } :=
  { h with
    set_sent := fun t sent px hc => h.set_sent t sent px (hnet hc)
    renew_sent := fun t sent px hc => h.renew_sent t sent px (hnet hc)
    released := fun t hc => h.released t (hnet hc)
    set_granted := fun t sent hr => h.set_granted t sent (hrep hr)
    renew_granted := fun t sent hr => h.renew_granted t sent (hrep hr)
    command_lt := fun c hc => h.command_lt c (hnet hc)
    reply_lt := fun r hr => h.reply_lt r (hrep hr) }

theorem Sound.endAttempt (h : Sound P s) (token : Nat) : Sound P (s.endAttempt token) := by
  have hback : ∀ t a, (s.endAttempt token).attempts.lookup t = some a →
      s.attempts.lookup t = some a := by
    intro t a ha
    rw [Cluster.endAttempt, lookup_deleteKey] at ha
    split at ha
    · cases ha
    · exact ha
  have hnone : ∀ t, s.attempts.lookup t = none → (s.endAttempt token).attempts.lookup t = none := by
    intro t ht
    rw [Cluster.endAttempt, lookup_deleteKey, ht, ite_self]
  exact
    { h with
      set_sent := fun t sent px hc =>
        (h.set_sent t sent px hc).imp_right fun hset a ha => hset a (hback t a ha)
      released := fun t hc => (h.released t hc).imp_left (hnone t)
      set_granted := fun t sent hr a ha => h.set_granted t sent hr a (hback t a ha)
      disjoint := fun t a ha => h.disjoint t a (hback t a ha)
      attempt_lt := fun t a ha => h.attempt_lt t a (hback t a ha)
      attempt_ttl := fun t a ha => h.attempt_ttl t a (hback t a ha) }

def Command.Fits (s : Cluster) : Command → Prop
  | .set t sent px => sent ≤ s.now ∧ ∀ a, s.attempts.lookup t = some a → a.sent = sent ∧ ttlMs a.ttl = px
  | .renew t sent px => sent ≤ s.now ∧ ∃ l, s.leases.lookup t = some l ∧ ttlMs l.ttl = px
  | .release t => s.attempts.lookup t = none ∧ ∀ l, s.leases.lookup t = some l → l.fence.valid = false

theorem Sound.send (h : Sound P s) (hlt : c.token < s.nextToken) (hfits : c.Fits s) :
    Sound P { s with network := s.network ++ [c] } := by
  have hmem : ∀ d ∈ s.network ++ [c], d ∈ s.network ∨ d = c := by
    intro d hd
    rcases mem_append.mp hd with hd | hd
    · exact .inl hd
    · exact .inr (mem_singleton.mp hd)
  refine { h with set_sent := ?_, renew_sent := ?_, released := ?_, command_lt := ?_ }
  · intro t sent px hc
    rcases hmem _ hc with hc | rfl
    · exact h.set_sent t sent px hc
    · exact hfits
  · intro t sent px hc
    rcases hmem _ hc with hc | rfl
    · exact h.renew_sent t sent px hc
    · exact hfits
  · intro t hc
    rcases hmem _ hc with hc | rfl
    · exact h.released t hc
    · exact hfits
  · intro d hd
    rcases hmem _ hd with hd | rfl
    · exact h.command_lt d hd
    · exact hlt

theorem Sound.updateLease (h : Sound P s) {f : Lease → Lease} (hf : ∀ l, (f l).token = l.token)
    (httl : ∀ l, (f l).ttl = l.ttl) (hback : ∀ l, (f l).fence.backstop = l.fence.backstop)
    (hvalid : ∀ l, (f l).fence.valid = true → l.fence.valid = true)
    (hgrant : ∀ l, s.leases.lookup token = some l → (f l).fence.valid = true →
      Granted s token (ttlMs l.ttl) ((f l).fence.origin + fromMillis (f l).fence.lastOkMillis)) :
    Sound P (s.updateLease token f hf) := by
  have hlook : ∀ t, (s.updateLease token f hf).leases.lookup t =
      if t = token then (s.leases.lookup t).map f else s.leases.lookup t := by
    intro t
    rw [Cluster.updateLease, lookup_updateKey]
  have hfwd : ∀ t l, s.leases.lookup t = some l →
      ∃ l', (s.updateLease token f hf).leases.lookup t = some l' ∧ l'.ttl = l.ttl ∧
        (l'.fence.valid = true → l.fence.valid = true) := by
    intro t l hl
    rw [hlook, hl]
    split
    · exact ⟨f l, rfl, httl l, hvalid l⟩
    · exact ⟨l, rfl, rfl, id⟩
  have hbwd : ∀ t l', (s.updateLease token f hf).leases.lookup t = some l' →
      ∃ l, s.leases.lookup t = some l ∧ l'.ttl = l.ttl ∧ l'.fence.backstop = l.fence.backstop ∧
        (l'.fence.valid = true → l.fence.valid = true) := by
    intro t l' hl'
    rw [hlook] at hl'
    split at hl'
    · obtain ⟨l, hl, rfl⟩ := map_eq_some_iff.mp hl'
      exact ⟨l, hl, httl l, hback l, hvalid l⟩
    · exact ⟨l', hl', rfl, rfl, id⟩
  refine { h with
    renew_sent := ?_, released := ?_, renew_granted := ?_, lease_granted := ?_, disjoint := ?_
    lease_lt := ?_, lease_ttl := ?_ }
  · intro t sent px hc
    obtain ⟨hle, l, hl, hpx⟩ := h.renew_sent t sent px hc
    obtain ⟨l', hl', heq, -⟩ := hfwd t l hl
    exact ⟨hle, l', hl', by rw [heq, hpx]⟩
  · intro t hc
    obtain ⟨hatt, hinv⟩ := h.released t hc
    refine ⟨hatt, ?_⟩
    intro l' hl'
    obtain ⟨l, hl, -, -, hv⟩ := hbwd t l' hl'
    rw [Bool.eq_false_iff]
    intro htrue
    rw [hinv l hl] at hv
    exact absurd (hv htrue) Bool.false_ne_true
  · intro t sent hr
    obtain ⟨l, hl, hg⟩ := h.renew_granted t sent hr
    obtain ⟨l', hl', heq, hv⟩ := hfwd t l hl
    refine ⟨l', hl', ?_⟩
    intro htrue
    rw [heq]
    exact hg (hv htrue)
  · intro t l' hl' hv'
    rw [hlook] at hl'
    split at hl'
    · rename_i heq
      subst heq
      obtain ⟨l, hl, rfl⟩ := map_eq_some_iff.mp hl'
      rw [httl]
      exact hgrant l hl hv'
    · exact h.lease_granted t l' hl' hv'
  · intro t a ha
    rw [hlook, h.disjoint t a ha]
    split
    · rfl
    · rfl
  · intro t l' hl'
    obtain ⟨l, hl, -⟩ := hbwd t l' hl'
    exact h.lease_lt t l hl
  · intro t l' hl'
    obtain ⟨l, hl, heq, hb, -⟩ := hbwd t l' hl'
    rw [heq, hb]
    exact h.lease_ttl t l hl

theorem Sound.ended (h : Sound P s) (token : Nat) :
    Sound P (s.updateLease token Lease.ended Lease.token_ended) := by
  refine h.updateLease _ (fun _ => rfl) (fun _ => rfl) ?_ ?_
  · intro l hv
    cases hv
  · intro l _ hv
    cases hv

/-! ## Steps of the clients -/

variable {ttl : Nat}

theorem Sound.acquire (h : Sound P s) (httl : P ttl) : Sound P (s.acquire ttl) := by
  have hnone : s.attempts.lookup s.nextToken = none := by
    cases ha : s.attempts.lookup s.nextToken with
    | none => rfl
    | some a => exact absurd (h.attempt_lt _ a ha) (Nat.lt_irrefl _)
  have hlease : s.leases.lookup s.nextToken = none := by
    cases hl : s.leases.lookup s.nextToken with
    | none => rfl
    | some l => exact absurd (h.lease_lt _ l hl) (Nat.lt_irrefl _)
  have hlook : ∀ t, (s.acquire ttl).attempts.lookup t =
      if s.nextToken = t then some ⟨s.nextToken, ttl, s.now⟩ else s.attempts.lookup t := by
    intro t
    rw [Cluster.acquire, lookup_insertIgnore]
    split
    next heq =>
      subst heq
      rw [hnone, none_or]
    next => rw [or_none]
  have hold : ∀ t, t < s.nextToken → (s.acquire ttl).attempts.lookup t = s.attempts.lookup t := by
    intro t ht
    rw [hlook, if_neg (Nat.ne_of_gt ht)]
  have hnew : ∀ t a, (s.acquire ttl).attempts.lookup t = some a →
      t = s.nextToken ∧ a = ⟨s.nextToken, ttl, s.now⟩ ∨ s.attempts.lookup t = some a := by
    intro t a ha
    rw [hlook] at ha
    split at ha
    next heq => exact .inl ⟨heq.symm, (some.inj ha).symm⟩
    next => exact .inr ha
  -- First the attempt, then its command.
  have hattempt : Sound P { s with
      nextToken := s.nextToken + 1, attempts := (s.acquire ttl).attempts } := by
    refine { h with
      set_sent := fun t sent px hc => ?_
      released := fun t hc => ?_
      set_granted := fun t sent hr => ?_
      disjoint := fun t a ha => ?_
      command_lt := fun c hc => Nat.lt_succ_of_lt (h.command_lt c hc)
      reply_lt := fun r hr => Nat.lt_succ_of_lt (h.reply_lt r hr)
      attempt_lt := fun t a ha => ?_
      lease_lt := fun t l hl => Nat.lt_succ_of_lt (h.lease_lt t l hl)
      attempt_ttl := fun t a ha => ?_ }
    · rw [hold t (h.command_lt _ hc)]
      exact h.set_sent t sent px hc
    · rw [hold t (h.command_lt _ hc)]
      exact h.released t hc
    · rw [hold t (h.reply_lt _ hr)]
      exact h.set_granted t sent hr
    · rcases hnew t a ha with ⟨rfl, -⟩ | ha
      · exact hlease
      · exact h.disjoint t a ha
    · rcases hnew t a ha with ⟨rfl, -⟩ | ha
      · exact Nat.lt_succ_self _
      · exact Nat.lt_succ_of_lt (h.attempt_lt t a ha)
    · rcases hnew t a ha with ⟨-, rfl⟩ | ha
      · exact httl
      · exact h.attempt_ttl t a ha
  refine hattempt.send (Nat.lt_succ_self _) ⟨Nat.le_refl _, fun a ha => ?_⟩
  rw [hlook, if_pos rfl] at ha
  cases ha
  exact ⟨rfl, rfl⟩

theorem Sound.insertLease (h : Sound P s) (hatt : s.attempts.lookup token = none)
    (hrel : .release token ∉ s.network) (hP : P ttl) (hlt : token < s.nextToken)
    (hgrant : Granted s token (ttlMs ttl) sent) :
    Sound P { s with
      leases := s.leases.insertIgnore
        ⟨token, ttl, ValkeyFence.new sent (backstopFor ttl), .idle⟩ } := by
  have hold : ∀ t l, s.leases.lookup t = some l →
      (s.leases.insertIgnore ⟨token, ttl, ValkeyFence.new sent (backstopFor ttl), .idle⟩).lookup t =
        some l := by
    intro t l hl
    rw [lookup_insertIgnore, hl, some_or]
  have hnew : ∀ t l, (s.leases.insertIgnore
      ⟨token, ttl, ValkeyFence.new sent (backstopFor ttl), .idle⟩).lookup t = some l →
      s.leases.lookup t = some l ∨
        t = token ∧ l = ⟨token, ttl, ValkeyFence.new sent (backstopFor ttl), .idle⟩ := by
    intro t l hl
    rw [lookup_insertIgnore] at hl
    cases hs : s.leases.lookup t with
    | some l' =>
      rw [hs, some_or] at hl
      exact .inl hl
    | none =>
      rw [hs, none_or] at hl
      split at hl
      · rename_i heq
        cases hl
        exact .inr ⟨heq.symm, rfl⟩
      · cases hl
  refine { h with
    renew_sent := ?_, released := ?_, renew_granted := ?_, lease_granted := ?_, disjoint := ?_
    lease_lt := ?_, lease_ttl := ?_ }
  · intro t x px hc
    obtain ⟨hle, l, hl, hpx⟩ := h.renew_sent t x px hc
    exact ⟨hle, l, hold t l hl, hpx⟩
  · intro t hc
    refine ⟨(h.released t hc).1, ?_⟩
    intro l hl
    rcases hnew t l hl with hl | ⟨rfl, -⟩
    · exact (h.released t hc).2 l hl
    · exact absurd hc hrel
  · intro t x hr
    obtain ⟨l, hl, hg⟩ := h.renew_granted t x hr
    exact ⟨l, hold t l hl, hg⟩
  · intro t l hl hv
    rcases hnew t l hl with hl | ⟨rfl, rfl⟩
    · exact h.lease_granted t l hl hv
    · exact hgrant.mono (by simp [ValkeyFence.new, fromMillis])
  · intro t a ha
    have hne : token ≠ t := by
      rintro rfl
      rw [hatt] at ha
      cases ha
    change (s.leases.insertIgnore _).lookup t = none
    rw [lookup_insertIgnore, h.disjoint t a ha, none_or, if_neg hne]
  · intro t l hl
    rcases hnew t l hl with hl | ⟨rfl, -⟩
    · exact h.lease_lt t l hl
    · exact hlt
  · intro t l hl
    rcases hnew t l hl with hl | ⟨-, rfl⟩
    · exact h.lease_ttl t l hl
    · exact ⟨hP, rfl⟩

variable {i : Nat}

theorem Sound.acquireReply (h : Sound P s) (hs : s.acquireReply i = some s') :
    Sound P s' := by
  unfold Cluster.acquireReply at hs
  split at hs
  · rename_i token sent result hr
    split at hs
    · rename_i a ha
      have hmem := mem_of_getElem? hr
      have hend := (h.endAttempt token).lose (List.Subset.refl _)
        (eraseIdx_subset (l := s.replies) (k := i))
      have hgone : (s.endAttempt token).attempts.lookup token = none := by
        rw [Cluster.endAttempt, lookup_deleteKey, if_pos rfl]
      simp only at hs
      split at hs
      · cases hs
        obtain ⟨heq, hg⟩ := h.set_granted token sent hmem a ha
        subst heq
        refine hend.insertLease hgone ?_ (h.attempt_ttl token a ha) (h.reply_lt _ hmem) hg
        intro hc
        rw [(h.released token hc).1] at ha
        cases ha
      · cases hs
        exact hend
    · cases hs
  · cases hs

theorem Sound.acquireTimedOut (h : Sound P s) (hs : s.acquireTimedOut token = some s') : Sound P s' := by
  unfold Cluster.acquireTimedOut at hs
  split at hs
  next a ha =>
    obtain ⟨-, ⟨⟩⟩ := ite_none_right_eq_some.mp hs
    refine (h.endAttempt token).send (h.attempt_lt token a ha) ⟨?_, fun l hl => ?_⟩
    · rw [Cluster.endAttempt, lookup_deleteKey, if_pos rfl]
    · cases (h.disjoint token a ha).symm.trans hl
  next => cases hs

theorem Sound.renew (h : Sound P s) (hs : s.renew token = some s') : Sound P s' := by
  unfold Cluster.renew at hs
  split at hs
  next l hl =>
    obtain ⟨-, ⟨⟩⟩ := ite_none_right_eq_some.mp hs
    have hup : Sound P (s.updateLease token (Lease.renewSent s.now) (Lease.token_renewSent _)) := by
      refine h.updateLease _ (fun _ => rfl) (fun _ => rfl) (fun _ hv => hv) ?_
      intro l' hl' hv
      exact h.lease_granted token l' hl' hv
    refine hup.send (h.lease_lt token l hl) ⟨Nat.le_refl _, l.renewSent s.now, ?_, rfl⟩
    rw [Cluster.updateLease, lookup_updateKey, if_pos rfl, hl, map_some]
  next => cases hs

theorem origin_add_lastOk_le (f : ValkeyFence) (h : f.origin ≤ sent) :
    f.origin + fromMillis (asU64 (asMillis (sent - f.origin))) ≤ sent := by
  have hmod : asU64 (asMillis (sent - f.origin)) ≤ asMillis (sent - f.origin) := Nat.mod_le _ _
  have hdiv : fromMillis (asMillis (sent - f.origin)) ≤ sent - f.origin := Nat.div_mul_le_self _ _
  have hmul : fromMillis (asU64 (asMillis (sent - f.origin))) ≤
      fromMillis (asMillis (sent - f.origin)) := Nat.mul_le_mul_right _ hmod
  omega

variable {f : ValkeyFence}

theorem Granted.markRenewed
    (hold : Granted s t px (f.origin + fromMillis f.lastOkMillis)) (hnew : Granted s t px sent) :
    Granted s t px ((f.markRenewed sent).origin + fromMillis (f.markRenewed sent).lastOkMillis) := by
  unfold ValkeyFence.markRenewed
  simp only
  rcases Nat.le_total (asU64 (asMillis (sent - f.origin))) f.lastOkMillis with hle | hle
  · rw [Nat.max_eq_left hle]
    exact hold
  · rw [Nat.max_eq_right hle]
    by_cases horigin : f.origin ≤ sent
    · exact hnew.mono (origin_add_lastOk_le f horigin)
    · refine hold.mono ?_
      rw [Nat.sub_eq_zero_of_le (by omega)]
      simp [asMillis, asU64, fromMillis]

theorem Sound.renewReply (h : Sound P s) (hs : s.renewReply i = some s') :
    Sound P s' := by
  unfold Cluster.renewReply at hs
  split at hs
  · rename_i token sent result hr
    have hmem := mem_of_getElem? hr
    have hlose := h.lose (List.Subset.refl _) (eraseIdx_subset (l := s.replies) (k := i))
    split at hs
    · split at hs
      · simp only at hs
        split at hs
        · rename_i heq
          subst heq
          cases hs
          refine hlose.updateLease _ (fun _ => rfl) (fun _ => rfl) (fun _ hv => hv) ?_
          intro l hl hv
          obtain ⟨l', hl', hg⟩ := h.renew_granted token sent hmem
          have hl : s.leases.lookup token = some l := hl
          rw [hl] at hl'
          cases hl'
          exact (h.lease_granted token l hl hv).markRenewed (hg hv)
        · cases hs
          exact hlose.ended token
      · cases hs
    · cases hs
  · cases hs

theorem Sound.renewFailed (h : Sound P s) (hs : s.renewFailed token = some s') : Sound P s' := by
  unfold Cluster.renewFailed at hs
  split at hs
  · split at hs
    · cases hs
      exact h.ended token
    · cases hs
  · cases hs

theorem Sound.release (h : Sound P s) (hs : s.release token = some s') : Sound P s' := by
  unfold Cluster.release at hs
  split at hs
  next l hl =>
    cases hs
    refine (h.ended token).send (h.lease_lt token l hl) ⟨?_, fun l' hl' => ?_⟩
    · cases ha : s.attempts.lookup token with
      | none => exact ha
      | some a => cases (h.disjoint token a ha).symm.trans hl
    · rw [Cluster.updateLease, lookup_updateKey, if_pos rfl, hl, map_some] at hl'
      cases hl'
      rfl
  next => cases hs

theorem ValkeyFence.check_fst (f : ValkeyFence) (now : Nat) :
    (f.check now).1 = f ∨ (f.check now).1 = f.invalidate := by
  unfold ValkeyFence.check ValkeyFence.checkAt
  split
  · exact .inl rfl
  · split
    · exact .inr rfl
    · exact .inl rfl

theorem Sound.check (h : Sound P s) (token : Nat) :
    Sound P (s.updateLease token (Lease.checked s.now) (Lease.token_checked _)) := by
  have hfst : ∀ l : Lease, (l.checked s.now).fence = l.fence ∨
      (l.checked s.now).fence = l.fence.invalidate := fun l => l.fence.check_fst s.now
  refine h.updateLease _ (fun _ => rfl) ?_ ?_ ?_
  · intro l
    rcases hfst l with heq | heq <;> rw [heq]
    rfl
  · intro l hv
    rcases hfst l with heq | heq <;> rw [heq] at hv
    · exact hv
    · cases hv
  · intro l hl hv
    rcases hfst l with heq | heq <;> rw [heq] at hv ⊢
    · exact h.lease_granted token l hl hv
    · cases hv

/-! ## Steps of the server -/

theorem Sound.expire (h : Sound P s) (hs : s.expire = some s') : Sound P s' := by
  unfold Cluster.expire at hs
  split at hs
  · rename_i k hk
    split at hs
    · rename_i hover
      cases hs
      have hg : ∀ t px sent, Granted s t px sent → Granted { s with key := none } t px sent :=
        fun t px sent hg => hg.expire hk hover rfl
      exact
        { h with
          set_granted := fun t sent hr a ha =>
            ⟨(h.set_granted t sent hr a ha).1, hg _ _ _ (h.set_granted t sent hr a ha).2⟩
          renew_granted := fun t sent hr => by
            obtain ⟨l, hl, hl'⟩ := h.renew_granted t sent hr
            exact ⟨l, hl, fun hv => hg _ _ _ (hl' hv)⟩
          lease_granted := fun t l hl hv => hg _ _ _ (h.lease_granted t l hl hv)
          key_set := fun k hk => by cases hk }
    · cases hs
  · cases hs

variable {now : Nat}

theorem execute_set_ok (h : (execute now key c).2 = some (.set t sent .ok)) :
    ∃ px, c = .set t sent px ∧ (execute now key c).1 = some ⟨t, now, px⟩ := by
  obtain ⟨u, x, px, rfl, -, heq⟩ | ⟨u, x, px, r, rfl, hr, heq⟩ | ⟨u, x, px, rfl, -, heq⟩ |
    ⟨u, x, px, rfl, heq⟩ | ⟨u, rfl, heq⟩ := execute_cases now key c <;> rw [heq] at h ⊢
  · cases h
    exact ⟨px, rfl, rfl⟩
  · cases h
    exact absurd rfl hr
  all_goals cases h

theorem execute_renew_one (h : (execute now key c).2 = some (.renew t sent 1)) :
    ∃ px, c = .renew t sent px ∧ (0 < px → (execute now key c).1 = some ⟨t, now, px⟩) := by
  obtain ⟨u, x, px, rfl, -, heq⟩ | ⟨u, x, px, r, rfl, -, heq⟩ | ⟨u, x, px, rfl, -, heq⟩ |
    ⟨u, x, px, rfl, heq⟩ | ⟨u, rfl, heq⟩ := execute_cases now key c <;> rw [heq] at h ⊢
  case inr.inr.inl =>
    cases h
    exact ⟨px, rfl, fun hpos => if_neg (by omega)⟩
  all_goals cases h

theorem execute_key {k : Holder} (h : (execute now key c).1 = some k) :
    k.setAt = now ∨ key = some k := by
  obtain ⟨u, x, px, rfl, -, heq⟩ | ⟨u, x, px, r, rfl, -, heq⟩ | ⟨u, x, px, rfl, -, heq⟩ |
    ⟨u, x, px, rfl, heq⟩ | ⟨u, rfl, heq⟩ := execute_cases now key c <;> rw [heq] at h
  · cases h
    exact .inl rfl
  · exact .inr h
  · simp only at h
    split at h
    · cases h
    · cases h
      exact .inl rfl
  · exact .inr h
  · simp only at h
    split at h
    · cases h
    · exact .inr h

theorem execute_token {r : Reply} (h : (execute now key c).2 = some r) : r.token = c.token := by
  obtain ⟨u, x, px, rfl, -, heq⟩ | ⟨u, x, px, r, rfl, -, heq⟩ | ⟨u, x, px, rfl, -, heq⟩ |
    ⟨u, x, px, rfl, heq⟩ | ⟨u, rfl, heq⟩ := execute_cases now key c <;> rw [heq] at h <;> cases h
  all_goals rfl

structure Executed (s s' : Cluster) (c : Command) : Prop where
  mem : c ∈ s.network
  key : s'.key = (Valkey.execute s.now s.key c).1
  replies : ∀ r ∈ s'.replies, r ∈ s.replies ∨ (Valkey.execute s.now s.key c).2 = some r
  network : s'.network ⊆ s.network
  now : s'.now = s.now
  attempts : s'.attempts = s.attempts
  leases : s'.leases = s.leases
  nextToken : s'.nextToken = s.nextToken

theorem execute_executed (hs : s.execute i = some s') : ∃ c, Executed s s' c := by
  obtain ⟨c, hc, rfl⟩ := map_eq_some_iff.mp hs
  refine ⟨c, mem_of_getElem? hc, rfl, fun r hr => ?_, eraseIdx_subset, rfl, rfl, rfl, rfl⟩
  rcases mem_append.mp hr with hr | hr
  · exact .inl hr
  · exact .inr (mem_toList.mp hr)

section

variable (h : Sound P s) (hx : Executed s s' c)
include h hx

-- The commands under way neither release a live token nor renew it for another time.
theorem Sound.attempt_executed {a : Attempt}
    (ha : s.attempts.lookup t = some a) (hg : Granted s t (ttlMs a.ttl) sent) :
    Granted s' t (ttlMs a.ttl) sent := by
  refine hg.execute h.key_set hx.key hx.now ?_ ?_
  · rintro rfl
    rw [(h.released t hx.mem).1] at ha
    cases ha
  · rintro x px rfl
    obtain ⟨-, l, hl, -⟩ := h.renew_sent t x px hx.mem
    rw [h.disjoint t a ha] at hl
    cases hl

theorem Sound.lease_executed {l : Lease}
    (hl : s.leases.lookup t = some l) (hv : l.fence.valid = true) (hg : Granted s t (ttlMs l.ttl) sent) :
    Granted s' t (ttlMs l.ttl) sent := by
  refine hg.execute h.key_set hx.key hx.now ?_ ?_
  · rintro rfl
    rw [(h.released t hx.mem).2 l hl] at hv
    cases hv
  · rintro x px rfl
    obtain ⟨-, l', hl', hpx⟩ := h.renew_sent t x px hx.mem
    rw [hl] at hl'
    cases hl'
    exact hpx.symm

theorem Sound.set_executed (hr : .set t sent .ok ∈ s'.replies)
    {a : Attempt} (ha : s.attempts.lookup t = some a) :
    a.sent = sent ∧ Granted s' t (ttlMs a.ttl) sent := by
  rcases hx.replies _ hr with hr | hr
  · obtain ⟨heq, hg⟩ := h.set_granted t sent hr a ha
    exact ⟨heq, h.attempt_executed hx ha hg⟩
  · obtain ⟨px, rfl, hk⟩ := execute_set_ok hr
    obtain ⟨hle, hset⟩ := h.set_sent t sent px hx.mem
    obtain ⟨heq, hpx⟩ := hset a ha
    rw [hpx]
    exact ⟨heq, .inl ⟨s.now, hx.key.trans hk, hle⟩⟩

theorem Sound.renew_executed (hr : .renew t sent 1 ∈ s'.replies) :
    ∃ l, s.leases.lookup t = some l ∧
      (l.fence.valid = true → Granted s' t (ttlMs l.ttl) sent) := by
  rcases hx.replies _ hr with hr | hr
  · obtain ⟨l, hl, hg⟩ := h.renew_granted t sent hr
    exact ⟨l, hl, fun hv => h.lease_executed hx hl hv (hg hv)⟩
  · obtain ⟨px, rfl, hk⟩ := execute_renew_one hr
    obtain ⟨hle, l, hl, hpx⟩ := h.renew_sent t sent px hx.mem
    refine ⟨l, hl, ?_⟩
    intro _
    rw [hpx]
    by_cases hpos : 0 < px
    · exact .inl ⟨s.now, hx.key.trans (hk hpos), hle⟩
    · right
      rw [hx.now]
      simp only [nanosPerMilli]
      omega

end

theorem Sound.execute (h : Sound P s) (hs : s.execute i = some s') : Sound P s' := by
  obtain ⟨c, hx⟩ := execute_executed hs
  obtain ⟨_, -, rfl⟩ := map_eq_some_iff.mp hs
  refine { h with
    set_sent := fun t sent px hd => h.set_sent t sent px (hx.network hd)
    renew_sent := fun t sent px hd => h.renew_sent t sent px (hx.network hd)
    released := fun t hd => h.released t (hx.network hd)
    set_granted := fun t sent hr a ha => h.set_executed hx hr ha
    renew_granted := fun t sent hr => h.renew_executed hx hr
    lease_granted := fun t l hl hv => h.lease_executed hx hl hv (h.lease_granted t l hl hv)
    key_set := fun k hk => ?_
    command_lt := fun d hd => h.command_lt d (hx.network hd)
    reply_lt := fun r hr => ?_ }
  · rw [hx.key] at hk
    rcases execute_key hk with hk | hk
    · exact Nat.le_of_eq hk
    · exact h.key_set k hk
  · rcases hx.replies r hr with hr | hr
    · exact h.reply_lt r hr
    · rw [execute_token hr]
      exact h.command_lt c hx.mem

/-! ## Whole runs -/

def Action.AsksFor (P : Nat → Prop) : Action → Prop
  | .acquire ttl => P ttl
  | _ => True

theorem Sound.step {a : Action} (h : Sound P s) (ha : a.AsksFor P) (hs : s.step a = some s') :
    Sound P s' := by
  cases a with
  | tick d =>
    cases hs
    exact h.tick d
  | acquire ttl =>
    cases hs
    exact h.acquire ha
  | execute i => exact h.execute hs
  | loseCommand i =>
    cases hs
    exact h.lose eraseIdx_subset (List.Subset.refl _)
  | loseReply i =>
    cases hs
    exact h.lose (List.Subset.refl _) eraseIdx_subset
  | expire => exact h.expire hs
  | acquireReply i => exact h.acquireReply hs
  | acquireFailed token =>
    cases hs
    exact h.endAttempt token
  | acquireTimedOut token => exact h.acquireTimedOut hs
  | renew token => exact h.renew hs
  | renewReply i => exact h.renewReply hs
  | renewFailed token => exact h.renewFailed hs
  | release token => exact h.release hs
  | drop token =>
    cases hs
    exact h.ended token
  | check token =>
    cases hs
    exact h.check token

theorem sound_run {as : List Action} (hask : ∀ a ∈ as, a.AsksFor P)
    (hrun : run Cluster.step Cluster.init as = some s) : Sound P s := by
  have hmeets : Meets Cluster.step (fun _ a => a.AsksFor P) Cluster.init as := meets_of_forall hask
  exact run_invariant_of_meets (fun _ _ _ hs ha hstep => hs.step ha hstep) sound_init hmeets hrun

/-- At least a second, and within the integer that goes over the wire. -/
def FitsWire (ttl : Nat) : Prop := fromMillis 1000 ≤ ttl ∧ asMillis ttl < 2 ^ 63

instance (ttl : Nat) : Decidable (FitsWire ttl) := inferInstanceAs (Decidable (_ ∧ _))

theorem FitsWire.ttlMs_eq (h : FitsWire ttl) : ttlMs ttl = asMillis ttl := by
  obtain ⟨hlow, _⟩ := h
  have hpos : 1 ≤ asMillis ttl := by
    unfold asMillis nanosPerMilli
    unfold fromMillis nanosPerMilli at hlow
    omega
  rw [ttlMs, Int.max_eq_left (by omega), Int.bmod_eq_of_le] <;> omega

theorem FitsWire.backstop_le (h : FitsWire ttl) :
    asU64 (asMillis (backstopFor ttl)) ≤ asMillis ttl := by
  obtain ⟨hlow, -⟩ := h
  have hle : backstopFor ttl ≤ ttl := by
    unfold backstopFor fromMillis nanosPerMilli
    unfold fromMillis nanosPerMilli at hlow
    omega
  exact Nat.le_trans (Nat.mod_le _ _) (Nat.div_le_div_right hle)

/-- An `Ok` check is less than a backstop after the last confirmed command. -/
theorem ValkeyFence.lt_of_check (hnow : asMillis now < 2 ^ 64)
    (h : (f.check now).2 = true) :
    f.valid = true ∧ now < f.origin + fromMillis f.lastOkMillis +
      fromMillis (asU64 (asMillis f.backstop)) := by
  unfold ValkeyFence.check ValkeyFence.checkAt at h
  split at h
  · cases h
  · rename_i hvalid
    split at h
    · cases h
    · rename_i hlt
      refine ⟨by simpa using hvalid, ?_⟩
      have hle : asMillis (now - f.origin) ≤ asMillis now := Nat.div_le_div_right (Nat.sub_le _ _)
      have helapsed : asU64 (asMillis (now - f.origin)) = asMillis (now - f.origin) :=
        Nat.mod_eq_of_lt (by omega)
      rw [helapsed] at hlt
      unfold fromMillis
      unfold asMillis nanosPerMilli at *
      omega

theorem Sound.key_of_check (h : Sound FitsWire s) (hnow : asMillis s.now < 2 ^ 64) {l : Lease}
    (hl : s.leases.lookup t = some l) (hok : (l.fence.check s.now).2 = true) :
    s.key.map Holder.token = some t := by
  obtain ⟨hvalid, hlt⟩ := ValkeyFence.lt_of_check hnow hok
  obtain ⟨httl, hback⟩ := h.lease_ttl t l hl
  rw [hback] at hlt
  rcases h.lease_granted t l hl hvalid with ⟨setAt, hkey, -⟩ | hover
  · rw [hkey]
    rfl
  · have hle : fromMillis (asU64 (asMillis (backstopFor l.ttl))) ≤ fromMillis (asMillis l.ttl) :=
      Nat.mul_le_mul_right _ httl.backstop_le
    have hpx : (asMillis l.ttl : Int) * nanosPerMilli = (fromMillis (asMillis l.ttl) : Nat) := by
      simp [fromMillis]
    rw [httl.ttlMs_eq, hpx] at hover
    omega

def Cluster.outline (s : Cluster) : Option Nat × List (Nat × Bool) :=
  (s.key.map Holder.token, s.leases.rows.map fun l => (l.token, (l.fence.check s.now).2))

def seconds (n : Nat) : Nat := fromMillis (n * 1000)

/-- One lease lapses; another client acquires after the key expired. -/
def handover (ttl lapse : Nat) : List Action :=
  [.acquire ttl, .execute 0, .acquireReply 0, .tick lapse, .expire, .acquire ttl, .execute 0,
    .acquireReply 0]

end Scry.Valkey
