import PagedMemory.Proofs.Endings
/-!
# Programs that take locks

The operations of the memory core run on several processors at once, so it matters where they take a
lock and where they give it up. A `Locking` program is an operation cut at those places: between
them it works on the state that all processors share, and how it goes on may depend on what it finds
there. Run `alone`, it is an operation like any other.

`Keeps` is the discipline that the programs follow: a lock is taken only by a processor all of whose
locks rank below it, locks are given up in the reverse order, and a program ends with the locks that
it began with. `Implements` says both: alone a program does what an operation does, and it follows
the discipline; there is a rule for each way to put programs together.
-/
namespace PagedMemory

/-- The locks of the memory core. -/
inductive LockName
  | frames
  | kernelMap
  | heap
  deriving DecidableEq

/-- The order of the locks: the lock of the frames is taken last. -/
def LockName.rank : LockName → Nat
  | frames => 1
  | kernelMap | heap => 0

theorem LockName.rank_lt_frames {k : LockName} (h : k ≠ frames) : k.rank < frames.rank := by
  cases k with
  | frames => exact absurd rfl h
  | kernelMap => decide
  | heap => decide

/-- A program over a shared state, cut where it takes a lock or gives it up. -/
inductive Locking (σ ε α : Type)
  | done (result : Except ε α)
  | acquire (lock : LockName) (rest : Locking σ ε α)
  | release (lock : LockName) (rest : Locking σ ε α)
  /-- Changes the state, and goes on by what the state was. -/
  | work (change : σ → σ) (rest : σ → Locking σ ε α)

/-- The result of a program that ended. -/
def ofEnding {ε σ α : Type} : Except ε α × σ → EStateM.Result ε σ α
  | (.ok a, s) => .ok a s
  | (.error e, s) => .error e s

theorem ofEnding_ending {ε σ α : Type} (x : EStateM ε σ α) (s : σ) :
    ofEnding (ending x s) = x s := by
  rw [ending]
  cases x s <;> rfl

namespace Locking

variable {σ τ ε ε' α β : Type}

/-- One program after another, however the first one ends. -/
def andThen : Locking σ ε α → (Except ε α → Locking σ ε' β) → Locking σ ε' β
  | done result, f => f result
  | acquire l rest, f => acquire l (rest.andThen f)
  | release l rest, f => release l (rest.andThen f)
  | work change rest, f => work change fun s => (rest s).andThen f

/-- One program after another; an error ends both. -/
def bind (x : Locking σ ε α) (f : α → Locking σ ε β) : Locking σ ε β :=
  x.andThen fun
    | .ok a => f a
    | .error e => done (.error e)

instance : Monad (Locking σ ε) where
  pure a := done (.ok a)
  bind := bind

/-- An operation that takes no lock. -/
def lift (x : EStateM ε σ α) : Locking σ ε α :=
  work (fun s => (ending x s).2) fun s => done (ending x s).1

/-- Gives a lock up, however a program ends. -/
def andRelease (lock : LockName) (x : Locking σ ε α) : Locking σ ε α :=
  x.andThen fun result => release lock (done result)

/-- Holds a lock for as long as a program runs. -/
def withLock (lock : LockName) (x : Locking σ ε α) : Locking σ ε α :=
  acquire lock (x.andRelease lock)

/-- A program on a part of the state. -/
def onPart (read : σ → τ) (write : τ → σ → σ) : Locking τ ε α → Locking σ ε α
  | done result => done result
  | acquire l rest => acquire l (rest.onPart read write)
  | release l rest => release l (rest.onPart read write)
  | work change rest =>
    work (fun s => write (change (read s)) s) fun s => (rest (read s)).onPart read write

/-- Ends with another result. -/
def finish (g : Except ε α → Except ε' β) (x : Locking σ ε α) : Locking σ ε' β :=
  x.andThen fun result => done (g result)

def ofStep (x : Locking σ Fault α) : Locking σ (Stop ε) α := x.finish (Except.mapError .fault)

def fail (e : ε) : Locking σ (Stop ε) α := done (.error (.error e))

/-- Wraps the errors of an inner operation; faults pass unchanged. -/
def mapError (f : ε → ε') (x : Locking σ (Stop ε) α) : Locking σ (Stop ε') α :=
  x.finish <| Except.mapError fun
    | .error e => .error (f e)
    | .fault g => .fault g

/-- Forgets why an operation refused; faults pass unchanged. -/
def toOption (x : Locking σ (Stop ε) α) : Locking σ Fault (Option α) :=
  x.finish fun (result : Except (Stop ε) α) =>
    match result with
    | .ok a => .ok (some a)
    | .error (.error _) => .ok none
    | .error (.fault f) => .error f

/-! ## Alone -/

/-- What a program does if nobody else takes a step. -/
def alone : Locking σ ε α → EStateM ε σ α
  | done result => fun s => ofEnding (result, s)
  | acquire _ rest => rest.alone
  | release _ rest => rest.alone
  | work change rest => fun s => (rest s).alone (change s)

@[simp] theorem alone_pure (a : α) : (pure a : Locking σ ε α).alone = pure a := rfl

theorem alone_andThen (x : Locking σ ε α) (f : Except ε α → Locking σ ε' β) (s : σ) :
    (x.andThen f).alone s = (f (ending x.alone s).1).alone (ending x.alone s).2 := by
  induction x generalizing s with
  | done result => cases result <;> rfl
  | acquire l rest ih => exact ih s
  | release l rest ih => exact ih s
  | work change rest ih => exact ih s (change s)

theorem alone_bind (x : Locking σ ε α) (f : α → Locking σ ε β) :
    (x >>= f).alone = x.alone >>= fun a => (f a).alone := by
  funext s
  change (x.bind f).alone s = EStateM.bind x.alone (fun a => (f a).alone) s
  rw [bind, alone_andThen, ending, EStateM.bind]
  cases x.alone s <;> rfl

@[simp] theorem alone_lift (x : EStateM ε σ α) : (lift x).alone = x := by
  funext s
  exact ofEnding_ending x s

@[simp] theorem alone_withLock (lock : LockName) (x : Locking σ ε α) :
    (withLock lock x).alone = x.alone := by
  funext s
  exact (x.alone_andThen _ s).trans (ofEnding_ending x.alone s)

/-- A part of a state that can be taken out and put back. -/
structure IsPart (read : σ → τ) (write : τ → σ → σ) : Prop where
  read_write : ∀ s t, read (write t s) = t
  write_write : ∀ s t u, write u (write t s) = write u s
  write_read : ∀ s, write (read s) s = s

theorem alone_onPart {read : σ → τ} {write : τ → σ → σ} (h : IsPart read write)
    (x : Locking τ ε α) : (x.onPart read write).alone = PagedMemory.onPart read write x.alone := by
  induction x with
  | done result =>
    funext s
    cases result <;> simp [onPart, alone, PagedMemory.onPart, ofEnding, h.write_read]
  | acquire l rest ih => exact ih
  | release l rest ih => exact ih
  | work change rest ih =>
    funext s
    simp only [onPart, alone, ih, PagedMemory.onPart, h.read_write]
    cases (rest (read s)).alone (change (read s)) <;> simp only [h.write_write]

theorem alone_finish (g : Except ε α → Except ε' β) (x : Locking σ ε α) (s : σ) :
    (x.finish g).alone s = ofEnding (g (ending x.alone s).1, (ending x.alone s).2) :=
  x.alone_andThen _ s

@[simp] theorem alone_ofStep (x : Locking σ Fault α) :
    (ofStep (ε := ε) x).alone = Op.ofStep x.alone := by
  funext s
  rw [ofStep, alone_finish, Op.ofStep, EStateM.adaptExcept, ending]
  cases x.alone s <;> rfl

@[simp] theorem alone_fail (e : ε) : (fail e : Locking σ (Stop ε) α).alone = Op.fail e := rfl

@[simp] theorem alone_mapError (f : ε → ε') (x : Locking σ (Stop ε) α) :
    (mapError f x).alone = Op.mapError f x.alone := by
  funext s
  rw [mapError, alone_finish, Op.mapError, EStateM.adaptExcept, ending]
  cases x.alone s <;> rfl

@[simp] theorem alone_toOption (x : Locking σ (Stop ε) α) :
    x.toOption.alone = Op.toOption x.alone := by
  funext s
  rw [toOption, alone_finish, Op.toOption, ending]
  cases x.alone s with
  | ok a t => rfl
  | error e t => cases e <;> rfl

/-! ## Order -/

/-- With the locks `held`, the last one taken first, a program takes only locks that rank above all
of them, gives locks up in the reverse order, and ends with the locks `kept`. -/
def Keeps (kept : List LockName) : List LockName → Locking σ ε α → Prop
  | held, done _ => held = kept
  | held, acquire l rest => (∀ k ∈ held, k.rank < l.rank) ∧ Keeps kept (l :: held) rest
  | [], release _ _ => False
  | k :: held, release l rest => k = l ∧ Keeps kept held rest
  | held, work _ rest => ∀ s, Keeps kept held (rest s)

variable {held kept : List LockName}

theorem Keeps.andThen {between : List LockName} {x : Locking σ ε α}
    {f : Except ε α → Locking σ ε' β} (hx : Keeps between held x)
    (hf : ∀ result, Keeps kept between (f result)) : Keeps kept held (x.andThen f) := by
  induction x generalizing held with
  | done result =>
    obtain rfl : held = between := hx
    exact hf result
  | acquire l rest ih => exact ⟨hx.1, ih hx.2⟩
  | release l rest ih =>
    cases held with
    | nil => exact hx.elim
    | cons k held => exact ⟨hx.1, ih hx.2⟩
  | work change rest ih => exact fun s => ih s (hx s)

theorem Keeps.bind {x : Locking σ ε α} {f : α → Locking σ ε β} (hx : Keeps kept held x)
    (hf : ∀ a, Keeps kept kept (f a)) : Keeps kept held (x >>= f) :=
  hx.andThen fun
    | .ok a => hf a
    | .error _ => rfl

theorem Keeps.andRelease {l : LockName} {x : Locking σ ε α} (hx : Keeps (l :: kept) held x) :
    Keeps kept held (x.andRelease l) := hx.andThen fun _ => ⟨rfl, rfl⟩

theorem Keeps.finish {g : Except ε α → Except ε' β} {x : Locking σ ε α} (hx : Keeps kept held x) :
    Keeps kept held (x.finish g) := hx.andThen fun _ => rfl

theorem Keeps.onPart {read : σ → τ} {write : τ → σ → σ} {x : Locking τ ε α}
    (hx : Keeps kept held x) : Keeps kept held (x.onPart read write) := by
  induction x generalizing held with
  | done result => exact hx
  | acquire l rest ih => exact ⟨hx.1, ih hx.2⟩
  | release l rest ih =>
    cases held with
    | nil => exact hx.elim
    | cons k held => exact ⟨hx.1, ih hx.2⟩
  | work change rest ih => exact fun s => ih (read s) (hx (read s))

/-- With some locks held a program keeps to the order, and alone it does what an operation does. -/
structure Implements (held : List LockName) (x : Locking σ ε α) (y : EStateM ε σ α) : Prop where
  alone : x.alone = y
  keeps : Keeps held held x

namespace Implements

variable {x : Locking σ ε α} {y : EStateM ε σ α}

theorem pure (a : α) : Implements held (Pure.pure a : Locking σ ε α) (Pure.pure a) :=
  ⟨alone_pure a, rfl⟩

theorem fail (e : ε) : Implements held (Locking.fail e : Locking σ (Stop ε) α) (Op.fail e) :=
  ⟨alone_fail e, rfl⟩

theorem lift (y : EStateM ε σ α) : Implements held (Locking.lift y) y :=
  ⟨alone_lift y, fun _ => rfl⟩

theorem bind (hx : Implements held x y) {f : α → Locking σ ε β} {g : α → EStateM ε σ β}
    (hf : ∀ a, Implements held (f a) (g a)) : Implements held (x >>= f) (y >>= g) :=
  ⟨by rw [alone_bind, hx.alone, funext fun a => (hf a).alone],
    hx.keeps.bind fun a => (hf a).keeps⟩

theorem lift_bind (y : EStateM ε σ α) {f : α → Locking σ ε β} {g : α → EStateM ε σ β}
    (hf : ∀ a, Implements held (f a) (g a)) : Implements held (Locking.lift y >>= f) (y >>= g) :=
  (lift y).bind hf

/-- A lock is taken in its turn. -/
theorem withLock {l : LockName} (hl : ∀ k ∈ held, k.rank < l.rank)
    (hx : Implements (l :: held) x y) : Implements held (Locking.withLock l x) y :=
  ⟨(alone_withLock l x).trans hx.alone, hl, hx.keeps.andRelease⟩

/-- The lock of the frames may be taken with any other one held. -/
theorem withFrames (h : .frames ∉ held) (hx : Implements (.frames :: held) x y) :
    Implements held (Locking.withLock .frames x) y :=
  withLock (fun _ hk => LockName.rank_lt_frames fun e => h (e ▸ hk)) hx

/-- The first lock. -/
theorem withLock_nil {l : LockName} (hx : Implements [l] x y) :
    Implements [] (Locking.withLock l x) y := withLock (by simp) hx

theorem onPart {read : σ → τ} {write : τ → σ → σ} {x : Locking τ ε α} {y : EStateM ε τ α}
    (hx : Implements held x y) (h : IsPart read write) :
    Implements held (x.onPart read write) (PagedMemory.onPart read write y) :=
  ⟨by rw [alone_onPart h, hx.alone], hx.keeps.onPart⟩

theorem ofStep {x : Locking σ Fault α} {y : Step σ α} (hx : Implements held x y) :
    Implements held (Locking.ofStep (ε := ε) x) (Op.ofStep y) :=
  ⟨by rw [alone_ofStep, hx.alone], hx.keeps.finish⟩

theorem mapError {f : ε → ε'} {x : Locking σ (Stop ε) α} {y : Op ε σ α}
    (hx : Implements held x y) : Implements held (Locking.mapError f x) (Op.mapError f y) :=
  ⟨by rw [alone_mapError, hx.alone], hx.keeps.finish⟩

theorem toOption {x : Locking σ (Stop ε) α} {y : Op ε σ α} (hx : Implements held x y) :
    Implements held x.toOption (Op.toOption y) :=
  ⟨by rw [alone_toOption, hx.alone], hx.keeps.finish⟩

end Implements

end Locking

end PagedMemory
