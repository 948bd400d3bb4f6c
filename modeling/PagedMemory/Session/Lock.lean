import PagedMemory.Sync.Contention
/-!
# A session on a lock

One user works with a lock and holds at most one guard at a time. What needs the guard is refused
without it, and what would wait forever is refused with it.
-/
namespace PagedMemory

/-- What the user of a lock asks for. -/
inductive LockRequest
  | lock
  | tryLock
  | unlock
  | read
  | write (value : UInt64)
  /-- Replaces the value of a lock that is owned outright, so without its flag. -/
  | exchange (value : UInt64)
  | describeLock
  | describeValue
  /-- Masks interrupts for a moment. -/
  | maskInterrupts
  /-- Takes the lock, stores a value, and stops while holding the guard. -/
  | stopInside (value : UInt64)
  /-- Doubles the value against threads that add to it. -/
  | contend (threads rounds : Nat) (delta : UInt64)

inductive LockReply
  | refused
  | done
  | flag (b : Bool)
  | word (w : UInt64)
  | text (s : String)
  | twoForms (line lines : String)
  /-- The user stopped while holding the guard. -/
  | stopped

/-- A lock and whether its user holds the guard. -/
structure LockSession where
  lock : SpinLock UInt64
  holding : Bool

namespace LockSession

def start (value : UInt64) : LockSession := ⟨.new value, false⟩

def attempt (s : LockSession) : Bool × LockSession :=
  match s.lock.tryAcquire with
  | (true, lock) => (true, ⟨lock, true⟩)
  | (false, lock) => (false, ⟨lock, s.holding⟩)

def step (s : LockSession) (request : LockRequest) : LockReply × LockSession :=
  match request, s.holding with
  | .lock, false => let (b, s) := s.attempt; (.flag b, s)
  | .tryLock, _ => let (b, s) := s.attempt; (.flag b, s)
  | .unlock, true => (.done, ⟨s.lock.release, false⟩)
  | .unlock, false => (.done, s)
  | .read, true => (.word s.lock.value, s)
  | .write value, true => (.done, { s with lock := s.lock.write value })
  | .exchange value, false => (.word s.lock.value, { s with lock := s.lock.write value })
  | .describeLock, _ => (.twoForms (describe s.lock) s.lock.describeLines, s)
  | .describeValue, true => (.text (describe s.lock.value), s)
  | .maskInterrupts, _ => (.done, s)
  | .stopInside value, false =>
    (.stopped, { s with lock := (s.lock.tryAcquire.2.write value).release })
  | .contend threads rounds delta, false =>
    if threads ≤ 8 ∧ rounds ≤ 1000 then
      let finished := (Contention.doubleAndAdd s.lock threads rounds delta).run
        (Contention.inTurn threads rounds)
      (.word finished.lock.value, { s with lock := finished.lock })
    else (.refused, s)
  | _, _ => (.refused, s)

end LockSession

end PagedMemory
