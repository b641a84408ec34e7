import Scry.Lib.Machine
import Scry.Lib.Table

/-! # The Valkey lease

Any number of clients that call `try_acquire` for one key, the server, and the commands and replies
on their way between them. Durations and clock readings are nanoseconds.
-/

open Scry.Lib

namespace Scry.Valkey

/-! ## Durations -/

def nanosPerMilli : Nat := 1000000

def fromMillis (n : Nat) : Nat := n * nanosPerMilli

def asMillis (d : Nat) : Nat := d / nanosPerMilli

/-- `as u64`, from the `u128` that `as_millis` returns. -/
def asU64 (n : Nat) : Nat := n % 2 ^ 64

def maxAcquireTimeout : Nat := fromMillis 5000

variable (ttl : Nat)

def renewPeriod : Nat := max (ttl / 3) (fromMillis 50)

def acquireTimeout : Nat := min (renewPeriod ttl) maxAcquireTimeout

def backstopFor : Nat := max (ttl - ttl / 3) (fromMillis 50)

/-- `ttl.as_millis().max(1) as i64`, the expiry that goes over the wire. -/
def ttlMs : Int := Int.bmod (max (asMillis ttl) 1) (2 ^ 64)

/-! ## The fence -/

structure ValkeyFence where
  valid : Bool
  lastOkMillis : Nat
  origin : Nat
  backstop : Nat
  deriving DecidableEq

namespace ValkeyFence

def new (origin backstop : Nat) : ValkeyFence := ⟨true, 0, origin, backstop⟩

variable (f : ValkeyFence)

def invalidate : ValkeyFence := { f with valid := false }

def markRenewed (sent : Nat) (f : ValkeyFence) : ValkeyFence :=
  { f with lastOkMillis := max f.lastOkMillis (asU64 (asMillis (sent - f.origin))) }

/-- The fence afterwards, and whether the check returned `Ok`. -/
def checkAt (nowMillis : Nat) : ValkeyFence × Bool :=
  if f.valid = false then (f, false)
  else if asU64 (asMillis f.backstop) ≤ nowMillis - f.lastOkMillis then (f.invalidate, false)
  else (f, true)

def check (now : Nat) : ValkeyFence × Bool :=
  f.checkAt (asU64 (asMillis (now - f.origin)))

end ValkeyFence

/-! ## The server -/

/-- The value, when it was last set or extended, and for how many milliseconds. -/
structure Holder where
  token : Nat
  setAt : Nat
  px : Int
  deriving DecidableEq

inductive Command where
  | set (token sent : Nat) (px : Int)
  | renew (token sent : Nat) (px : Int)
  | release (token : Nat)
  deriving DecidableEq

inductive SetReply where
  | ok
  | null
  | error
  deriving DecidableEq

inductive Reply where
  | set (token sent : Nat) (result : SetReply)
  | renew (token sent : Nat) (result : Nat)
  deriving DecidableEq

def Command.token : Command → Nat
  | set token _ _ => token
  | renew token _ _ => token
  | release token => token

def Reply.token : Reply → Nat
  | set token _ _ => token
  | renew token _ _ => token

/-- A non-positive expiry is an error for `SET` and deletes the key for `PEXPIRE`. -/
def execute (now : Nat) (key : Option Holder) : Command → Option Holder × Option Reply
  | .set token sent px =>
    if px ≤ 0 then (key, some (.set token sent .error))
    else
      match key with
      | none => (some ⟨token, now, px⟩, some (.set token sent .ok))
      | some h => (some h, some (.set token sent .null))
  | .renew token sent px =>
    if key.map Holder.token = some token then
      (if px ≤ 0 then none else some ⟨token, now, px⟩, some (.renew token sent 1))
    else (key, some (.renew token sent 0))
  | .release token => (if key.map Holder.token = some token then none else key, none)

/-! ## Clients -/

structure Attempt where
  token : Nat
  ttl : Nat
  sent : Nat
  deriving DecidableEq

/-- Between two renews, waiting for a reply, or gone. -/
inductive Renewal where
  | idle
  | waiting (sent : Nat)
  | stopped
  deriving DecidableEq

structure Lease where
  token : Nat
  ttl : Nat
  fence : ValkeyFence
  renewal : Renewal
  deriving DecidableEq

namespace Lease

variable (now : Nat) (l : Lease) (sent : Nat)

def renewSent : Lease := { l with renewal := .waiting now }

def renewed (l : Lease) : Lease :=
  { l with fence := l.fence.markRenewed sent, renewal := .idle }

/-- A lost or failed renew, `release` and `drop` latch the fence. -/
def ended : Lease := { l with fence := l.fence.invalidate, renewal := .stopped }

def checked : Lease := { l with fence := (l.fence.check now).1 }

@[simp] theorem token_renewSent : (l.renewSent now).token = l.token := rfl

@[simp] theorem token_renewed (l : Lease) : (l.renewed sent).token = l.token := rfl

@[simp] theorem token_ended : l.ended.token = l.token := rfl

@[simp] theorem token_checked : (l.checked now).token = l.token := rfl

end Lease

structure Cluster where
  now : Nat
  key : Option Holder
  nextToken : Nat
  attempts : Table Nat Attempt Attempt.token
  network : List Command
  replies : List Reply
  leases : Table Nat Lease Lease.token

inductive Action where
  | tick (d : Nat)
  | acquire (ttl : Nat)
  | execute (i : Nat)
  | loseCommand (i : Nat)
  | loseReply (i : Nat)
  | expire
  | acquireReply (i : Nat)
  | acquireFailed (token : Nat)
  | acquireTimedOut (token : Nat)
  | renew (token : Nat)
  | renewReply (i : Nat)
  | renewFailed (token : Nat)
  | release (token : Nat)
  | drop (token : Nat)
  | check (token : Nat)
  deriving DecidableEq

namespace Cluster

def init : Cluster := ⟨0, none, 0, .empty, [], [], .empty⟩

variable (s : Cluster) (token : Nat)

def updateLease (f : Lease → Lease) (hf : ∀ l, (f l).token = l.token) : Cluster :=
  { s with leases := s.leases.updateWhere (fun l => l.token = token) f hf }

/-- `try_acquire` up to the `SET`. Tokens never repeat. -/
def acquire (ttl : Nat) : Cluster :=
  { s with
    nextToken := s.nextToken + 1
    attempts := s.attempts.insertIgnore ⟨s.nextToken, ttl, s.now⟩
    network := s.network ++ [.set s.nextToken s.now (ttlMs ttl)] }

/-- At any time after the command was sent. -/
def execute (s : Cluster) (i : Nat) : Option Cluster :=
  s.network[i]?.map fun cmd =>
    let (key, reply) := Valkey.execute s.now s.key cmd
    { s with key := key, network := s.network.eraseIdx i, replies := s.replies ++ reply.toList }

/-- The server may expire the key once its time is over. -/
def expire (s : Cluster) : Option Cluster :=
  match s.key with
  | some h =>
    if (h.setAt : Int) + h.px * nanosPerMilli ≤ s.now then some { s with key := none } else none
  | none => none

def endAttempt : Cluster :=
  { s with attempts := s.attempts.deleteWhere fun a => a.token = token }

/-- `try_acquire` after the reply to its `SET`. -/
def acquireReply (i : Nat) : Option Cluster :=
  match s.replies[i]? with
  | some (.set token _ result) =>
    match s.attempts.lookup token with
    | some a =>
      let s' := { s.endAttempt token with replies := s.replies.eraseIdx i }
      match result with
      | .ok =>
        let fence := ValkeyFence.new a.sent (backstopFor a.ttl)
        some { s' with leases := s'.leases.insertIgnore ⟨token, a.ttl, fence, .idle⟩ }
      | _ => some s'
    | none => none
  | _ => none

/-- The client gives up on the `SET` and queues a release behind it. -/
def acquireTimedOut : Option Cluster :=
  match s.attempts.lookup token with
  | some a =>
    if a.sent + acquireTimeout a.ttl ≤ s.now then
      some { s.endAttempt token with network := s.network ++ [.release token] }
    else none
  | none => none

/-- The renew task sends its command, at any tick and however late. -/
def renew (s : Cluster) (token : Nat) : Option Cluster :=
  match s.leases.lookup token with
  | some l =>
    if l.renewal = .idle then
      some { s.updateLease token (Lease.renewSent s.now) (Lease.token_renewSent _) with
        network := s.network ++ [.renew token s.now (ttlMs l.ttl)] }
    else none
  | none => none

def renewReply (i : Nat) : Option Cluster :=
  match s.replies[i]? with
  | some (.renew token sent result) =>
    match s.leases.lookup token with
    | some l =>
      if l.renewal = .waiting sent then
        let s' := { s with replies := s.replies.eraseIdx i }
        if result = 1 then some (s'.updateLease token (Lease.renewed sent) (Lease.token_renewed _))
        else some (s'.updateLease token Lease.ended Lease.token_ended)
      else none
    | none => none
  | _ => none

/-- An error or a timeout instead of the reply to a renew. -/
def renewFailed : Option Cluster :=
  match s.leases.lookup token with
  | some l =>
    match l.renewal with
    | .waiting _ => some (s.updateLease token Lease.ended Lease.token_ended)
    | _ => none
  | none => none

/-- `release`: the fence is off before the command is sent. -/
def release (s : Cluster) (token : Nat) : Option Cluster :=
  match s.leases.lookup token with
  | some _ =>
    some { s.updateLease token Lease.ended Lease.token_ended with
      network := s.network ++ [.release token] }
  | none => none

def step : Action → Option Cluster
  | .tick d => some { s with now := s.now + d }
  | .acquire ttl => some (s.acquire ttl)
  | .execute i => s.execute i
  | .loseCommand i => some { s with network := s.network.eraseIdx i }
  | .loseReply i => some { s with replies := s.replies.eraseIdx i }
  | .expire => s.expire
  | .acquireReply i => s.acquireReply i
  | .acquireFailed token => some (s.endAttempt token)
  | .acquireTimedOut token => s.acquireTimedOut token
  | .renew token => s.renew token
  | .renewReply i => s.renewReply i
  | .renewFailed token => s.renewFailed token
  | .release token => s.release token
  | .drop token => some (s.updateLease token Lease.ended Lease.token_ended)
  | .check token => some (s.updateLease token (Lease.checked s.now) (Lease.token_checked _))

end Cluster

end Scry.Valkey
