import PagedMemory.Sync.SpinLock
/-!
# Threads on a spin lock

Any number of threads run programs on one lock. A step of a thread is one atomic step: an attempt on
the flag, a look at the flag while waiting for it, a read or a write of the value, or a release. A
schedule says which thread takes the next step; every interleaving is the run of a schedule.

A thread that does not get the lock at once waits until the flag looks clear and only then attempts
again.
-/
namespace PagedMemory

/-- What a thread does next on the lock. -/
inductive LockAction (α : Type)
  /-- Take the lock, however long it takes. -/
  | lock
  /-- Take the lock with interrupts masked until the guard is given up. -/
  | lockIrq
  /-- Attempt once to take the lock. -/
  | tryLock
  /-- Read the value through the guard. -/
  | read
  /-- Store through the guard what a function makes of the value last read. -/
  | write (f : α → α)
  /-- Store a value through the guard. -/
  | put (value : α)
  /-- Give the guard up. -/
  | unlock
  /-- Abandon the program; a guard that is held is given up on the way out. -/
  | abandon

/-- Where a thread is in taking the lock. -/
inductive LockPhase
  /-- Before its first attempt. -/
  | ready
  /-- Looking at the flag until it is clear. -/
  | waiting
  /-- Saw the flag clear and is about to attempt again. -/
  | retrying
  deriving DecidableEq

/-- A thread: its place in taking the lock, whether it holds the guard, whether it has interrupts
masked for it, the value that it last read, and the rest of its program. -/
structure LockThread (α : Type) where
  phase : LockPhase
  holds : Bool
  masked : Bool
  seen : Option α
  program : List (LockAction α)

namespace LockThread

variable {α : Type}

def start (program : List (LockAction α)) : LockThread α := ⟨.ready, false, false, none, program⟩

/-- A step towards the lock. A thread that got it goes on with the rest of its program. -/
def acquire (lock : SpinLock α) (t : LockThread α) (rest : List (LockAction α)) :
    SpinLock α × LockThread α :=
  match t.phase with
  | .waiting => (lock, if lock.locked then t else { t with phase := .retrying })
  | .ready | .retrying =>
    match lock.tryAcquire with
    | (true, lock) => (lock, { t with phase := .ready, holds := true, program := rest })
    | (false, lock) => (lock, { t with phase := .waiting })

/-- Gives up the guard if it is held; the flag is cleared before interrupts are restored. -/
def leave (lock : SpinLock α) (t : LockThread α) (rest : List (LockAction α)) :
    SpinLock α × LockThread α :=
  (if t.holds then lock.release else lock,
    { t with holds := false, masked := false, program := rest })

/-- One atomic step of a thread. A read or a write without the guard does nothing. -/
def step (lock : SpinLock α) (t : LockThread α) : SpinLock α × LockThread α :=
  match t.program with
  | [] => (lock, t)
  | .lock :: rest => t.acquire lock rest
  | .lockIrq :: rest => if t.masked then t.acquire lock rest else (lock, { t with masked := true })
  | .tryLock :: rest =>
    match lock.tryAcquire with
    | (true, lock) => (lock, { t with holds := true, program := rest })
    | (false, lock) => (lock, { t with program := rest })
  | .read :: rest =>
    (lock, { t with seen := if t.holds then some lock.value else t.seen, program := rest })
  | .write f :: rest =>
    match t.holds, t.seen with
    | true, some v => (lock.write (f v), { t with program := rest })
    | _, _ => (lock, { t with program := rest })
  | .put v :: rest => (if t.holds then lock.write v else lock, { t with program := rest })
  | .unlock :: rest => t.leave lock rest
  | .abandon :: _ => t.leave lock []

end LockThread

/-- A lock and the threads that run on it. -/
structure Contention (α : Type) where
  lock : SpinLock α
  threads : List (LockThread α)

namespace Contention

variable {α : Type}

def start (lock : SpinLock α) (programs : List (List (LockAction α))) : Contention α :=
  ⟨lock, programs.map .start⟩

def step (c : Contention α) (i : Nat) : Contention α :=
  match c.threads[i]? with
  | none => c
  | some t =>
    let (lock, t) := t.step c.lock
    ⟨lock, c.threads.set i t⟩

def run (c : Contention α) (schedule : List Nat) : Contention α := schedule.foldl step c

/-- A critical section that changes the value. -/
def update (f : α → α) : List (LockAction α) := [.lock, .read, .write f, .unlock]

/-- A critical section over and over. -/
def updates (f : α → α) (n : Nat) : List (LockAction α) := (List.replicate n (update f)).flatten

/-- Critical sections that change the value, some of them with interrupts masked. -/
def updatesIrq (f : α → α) (masked : List Bool) : List (LockAction α) :=
  masked.flatMap fun irq => [if irq then .lockIrq else .lock, .read, .write f, .unlock]

theorem updates_eq_updatesIrq (f : α → α) (n : Nat) :
    updates f n = updatesIrq f (List.replicate n false) := by
  simp [updates, updatesIrq, update, List.flatMap_replicate]

/-- A main thread doubles the value while `threads` others wait to add `delta` to it, each `rounds`
times. -/
def doubleAndAdd (lock : SpinLock UInt64) (threads rounds : Nat) (delta : UInt64) :
    Contention UInt64 :=
  .start lock (update (2 * ·) :: List.replicate threads (updates (· + delta) rounds))

/-- The main thread takes the lock, every other thread fails once to get it, the main thread leaves,
and the others finish one after the other. -/
def inTurn (threads rounds : Nat) : List Nat :=
  let others := List.range' 1 threads
  [0] ++ others ++ List.replicate 3 0 ++
    others.flatMap fun i => List.replicate (4 * rounds + 1) i

end Contention

end PagedMemory
