import PagedMemory.Text.Describe
/-!
# Spin locks

A flag beside a value. The flag is changed by two atomic steps only: an attempt, which sets it if it
was clear, and a release, which clears it. Whoever set the flag holds the guard and alone reads and
writes the value.
-/
namespace PagedMemory

/-- A value that is guarded by a flag. -/
structure SpinLock (α : Type) where
  locked : Bool
  value : α

namespace SpinLock

variable {α : Type}

/-- A lock that nobody holds. -/
def new (value : α) : SpinLock α := ⟨false, value⟩

/-- One attempt to set the flag; tells whether it did. -/
def tryAcquire (lock : SpinLock α) : Bool × SpinLock α :=
  if lock.locked then (false, lock) else (true, { lock with locked := true })

def release (lock : SpinLock α) : SpinLock α := { lock with locked := false }

def write (lock : SpinLock α) (value : α) : SpinLock α := { lock with value }

theorem tryAcquire_locked {lock : SpinLock α} (h : lock.locked = true) :
    lock.tryAcquire = (false, lock) := by
  simp [tryAcquire, h]

instance : Describe (SpinLock α) :=
  ⟨fun lock => "SpinLock \x7b locked: " ++ describe lock.locked ++ ", .. \x7d"⟩

/-- The structural form on several lines. -/
def describeLines (lock : SpinLock α) : String :=
  "SpinLock \x7b\n    locked: " ++ describe lock.locked ++ ",\n    ..\n\x7d"

end SpinLock

end PagedMemory
