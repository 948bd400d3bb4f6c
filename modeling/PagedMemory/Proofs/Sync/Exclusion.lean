import Mathlib
import PagedMemory.Sync.Contention
/-!
# Mutual exclusion

However the steps of threads on a lock are interleaved, the value and what the threads read of it
are as if their critical sections had been executed one after the other, in the order in which the
lock was taken. What happens is written down in a log: who took the lock, who went to the value, and
who left. The log is always a sequence of complete critical sections, followed by at most one that
is still open; the thread in that one has the only guard.
-/
namespace PagedMemory

namespace LockAction

variable {α : Type}

/-- An action that goes on until the lock was taken. -/
def takes : LockAction α → Bool
  | lock | lockIrq => true
  | _ => false

/-- What a read or a write through the guard makes of the value, and of the value last read. -/
def access (value : α) (seen : Option α) : LockAction α → α × Option α
  | read => (value, some value)
  | write f => (seen.elim value f, seen)
  | put v => (v, seen)
  | _ => (value, seen)

end LockAction

/-- What becomes of a guard, and what is done through it. -/
inductive LockEvent (α : Type)
  | acquire
  | access (action : LockAction α)
  | release

namespace LockThread

variable {α : Type} {lock : SpinLock α} {t : LockThread α}

/-- What the next step of a thread does to the flag or to the value. The flag is set by an attempt
that finds it clear. -/
def event? (lock : SpinLock α) (t : LockThread α) : Option (LockEvent α) :=
  match t.program with
  | [] => none
  | .lock :: _ => if t.phase ≠ .waiting ∧ lock.locked = false then some .acquire else none
  | .lockIrq :: _ =>
    if t.masked = true ∧ t.phase ≠ .waiting ∧ lock.locked = false then some .acquire else none
  | .tryLock :: _ => if lock.locked then none else some .acquire
  | .read :: _ => if t.holds then some (.access .read) else none
  | .write f :: _ => if t.holds then some (.access (.write f)) else none
  | .put v :: _ => if t.holds then some (.access (.put v)) else none
  | .unlock :: _ | .abandon :: _ => if t.holds then some .release else none

/-- All that a step of a thread may do, by what is logged of it. -/
inductive Does (lock : SpinLock α) (t : LockThread α) :
    Option (LockEvent α) → SpinLock α × LockThread α → Prop
  | quiet {next : LockThread α} (holds : next.holds = t.holds) (seen : next.seen = t.seen) :
    Does lock t none (lock, next)
  | acquire {next : LockThread α} (free : lock.locked = false) (holds : next.holds = true)
    (seen : next.seen = t.seen) : Does lock t (some .acquire) ({ lock with locked := true }, next)
  | access {next : LockThread α} {a : LockAction α} (guard : t.holds = true)
    (holds : next.holds = true) (seen : next.seen = (a.access lock.value t.seen).2) :
    Does lock t (some (.access a)) (lock.write (a.access lock.value t.seen).1, next)
  | release {next : LockThread α} (guard : t.holds = true) (holds : next.holds = false)
    (seen : next.seen = t.seen) : Does lock t (some .release) (lock.release, next)

theorem does_acquire (rest : List (LockAction α)) :
    t.Does lock (if t.phase ≠ .waiting ∧ lock.locked = false then some .acquire else none)
      (t.acquire lock rest) := by
  rw [acquire, SpinLock.tryAcquire]
  cases hphase : t.phase <;> cases hlocked : lock.locked <;> simp
  all_goals first | exact .quiet rfl rfl | exact .acquire hlocked rfl rfl

theorem does_leave (rest : List (LockAction α)) :
    t.Does lock (if t.holds then some .release else none) (t.leave lock rest) := by
  rw [leave]
  cases hholds : t.holds with
  | false => exact .quiet hholds.symm rfl
  | true => exact .release hholds rfl rfl

/-- One step of a thread. -/
theorem does_step (lock : SpinLock α) (t : LockThread α) :
    t.Does lock (t.event? lock) (t.step lock) := by
  rw [event?, step]
  cases t.program with
  | nil => exact .quiet rfl rfl
  | cons a rest =>
    cases a with
    | lock => exact does_acquire rest
    | lockIrq =>
      cases hmasked : t.masked with
      | false =>
        simp only [Bool.false_eq_true, false_and, if_false]
        exact .quiet rfl rfl
      | true =>
        simp only [true_and, if_true]
        exact does_acquire rest
    | tryLock =>
      cases hlocked : lock.locked with
      | false =>
        simp only [SpinLock.tryAcquire, hlocked]
        exact .acquire hlocked rfl rfl
      | true =>
        simp only [SpinLock.tryAcquire_locked hlocked]
        exact .quiet rfl rfl
    | read =>
      cases hholds : t.holds with
      | false => exact .quiet hholds.symm rfl
      | true => exact .access (a := .read) hholds rfl rfl
    | write f =>
      cases hholds : t.holds with
      | false => exact .quiet hholds.symm rfl
      | true =>
        cases hseen : t.seen with
        | none =>
          have hvalue : ((LockAction.write f).access lock.value t.seen).1 = lock.value := by
            rw [hseen, LockAction.access, Option.elim_none]
          have hdoes : t.Does lock (some (.access (.write f)))
              (lock.write ((LockAction.write f).access lock.value t.seen).1,
                { t with holds := true, seen := none, program := rest }) :=
            .access hholds rfl hseen.symm
          rwa [hvalue] at hdoes
        | some v =>
          have hvalue : ((LockAction.write f).access lock.value t.seen).1 = f v := by
            rw [hseen, LockAction.access, Option.elim_some]
          have hdoes : t.Does lock (some (.access (.write f)))
              (lock.write ((LockAction.write f).access lock.value t.seen).1,
                { t with holds := true, seen := some v, program := rest }) :=
            .access hholds rfl hseen.symm
          rwa [hvalue] at hdoes
    | put v =>
      cases hholds : t.holds with
      | false => exact .quiet hholds.symm rfl
      | true => exact .access (a := .put v) hholds rfl rfl
    | unlock => exact does_leave rest
    | abandon => exact does_leave []

/-! ## Taking the lock -/

theorem acquire_cases (lock : SpinLock α) (t : LockThread α) (rest : List (LockAction α)) :
    (∃ next, t.acquire lock rest = (lock, next) ∧ next.program = t.program ∧
        next.holds = t.holds) ∨
      ∃ next, t.acquire lock rest = ({ lock with locked := true }, next) ∧ lock.locked = false ∧
        next.program = rest ∧ next.holds = true := by
  rw [acquire, SpinLock.tryAcquire]
  cases t.phase <;> cases hlocked : lock.locked <;> simp

/-- A thread that takes the lock goes on only once an attempt of its own has found the flag clear;
until then it changes nothing. -/
theorem step_of_takes (lock : SpinLock α) {a : LockAction α} {rest : List (LockAction α)}
    (ht : t.program = a :: rest) (ha : a.takes = true) :
    (∃ next, t.step lock = (lock, next) ∧ next.program = t.program ∧ next.holds = t.holds) ∨
      ∃ next, t.step lock = ({ lock with locked := true }, next) ∧ lock.locked = false ∧
        next.program = rest ∧ next.holds = true := by
  match a, ha with
  | .lock, _ =>
    have hstep : t.step lock = t.acquire lock rest := by rw [step, ht]
    rw [hstep]
    exact acquire_cases lock t rest
  | .lockIrq, _ =>
    have hstep : t.step lock =
        if t.masked then t.acquire lock rest else (lock, { t with masked := true }) := by
      rw [step, ht]
    rw [hstep]
    split
    · exact acquire_cases lock t rest
    · exact .inl ⟨_, rfl, rfl, rfl⟩

theorem step_of_tryLock {rest : List (LockAction α)} (ht : t.program = .tryLock :: rest) :
    t.step lock =
      if lock.locked then (lock, { t with program := rest })
      else ({ lock with locked := true }, { t with holds := true, program := rest }) := by
  rw [step, ht, SpinLock.tryAcquire]
  cases lock.locked <;> rfl

end LockThread

/-! ## One after the other -/

/-- What a thread did through a guard from when it took the lock. -/
structure CriticalSection (α : Type) where
  thread : Nat
  accesses : List (LockAction α)

namespace CriticalSection

variable {α : Type}

/-- What is logged of a section that is not over. -/
def opened (k : CriticalSection α) : List (Nat × LockEvent α) :=
  (k.thread, .acquire) :: k.accesses.map fun a => (k.thread, .access a)

/-- What is logged of a section from its start to its end. -/
def closed (k : CriticalSection α) : List (Nat × LockEvent α) := k.opened ++ [(k.thread, .release)]

end CriticalSection

/-- A value, and the value that each thread last read, without any lock. -/
structure Serial (α : Type) where
  value : α
  seen : Nat → Option α

namespace Serial

variable {α : Type}

def start (value : α) : Serial α := ⟨value, fun _ => none⟩

/-- A thread reads or writes the value. -/
def access (s : Serial α) (i : Nat) (a : LockAction α) : Serial α :=
  let (value, seen) := a.access s.value (s.seen i)
  ⟨value, Function.update s.seen i seen⟩

/-- A thread does all that a critical section does. -/
def perform (s : Serial α) (k : CriticalSection α) : Serial α :=
  k.accesses.foldl (fun s a => s.access k.thread a) s

/-- Critical sections one after the other. -/
def run (s : Serial α) (sections : List (CriticalSection α)) : Serial α := sections.foldl perform s

theorem run_concat_nil (s : Serial α) (sections : List (CriticalSection α)) (i : Nat) :
    s.run (sections ++ [⟨i, []⟩]) = s.run sections := by
  rw [run, List.foldl_append]
  rfl

/-- A section goes on by one access. -/
theorem run_concat_access (s : Serial α) (sections : List (CriticalSection α))
    (k : CriticalSection α) (a : LockAction α) :
    s.run (sections ++ [⟨k.thread, k.accesses ++ [a]⟩]) =
      (s.run (sections ++ [k])).access k.thread a := by
  simp only [run, List.foldl_append, List.foldl_cons, List.foldl_nil, perform]

end Serial

namespace Contention

variable {α : Type} {c : Contention α} {i : Nat} {t : LockThread α}

/-- What is logged of the next step of a thread. -/
def logged (c : Contention α) (i : Nat) : List (Nat × LockEvent α) :=
  ((c.threads[i]?.bind (LockThread.event? c.lock)).map (i, ·)).toList

/-- What is logged of the steps of a schedule. -/
def log (c : Contention α) : List Nat → List (Nat × LockEvent α)
  | [] => []
  | i :: rest => c.logged i ++ (c.step i).log rest

theorem step_of_thread (ht : c.threads[i]? = some t) :
    c.step i = ⟨(t.step c.lock).1, c.threads.set i (t.step c.lock).2⟩ := by
  rw [step, ht]

theorem step_of_none (hi : c.threads[i]? = none) : c.step i = c := by
  rw [step, hi]

/-- After a step of one thread the others are as before. -/
theorem of_getElem?_set {l : List (LockThread α)} {j : Nat} {s : LockThread α}
    (h : (l.set i t)[j]? = some s) : (j = i ∧ s = t) ∨ (j ≠ i ∧ l[j]? = some s) := by
  rw [List.getElem?_set] at h
  split at h
  · next hij =>
    split at h
    · exact .inl ⟨hij.symm, (Option.some.inj h).symm⟩
    · cases h
  · next hij => exact .inr ⟨Ne.symm hij, h⟩

/-- The value, and what the threads last read, are as without a lock. -/
structure Agrees (c : Contention α) (s : Serial α) : Prop where
  value : c.lock.value = s.value
  seen : ∀ i t, c.threads[i]? = some t → t.seen = s.seen i

/-- Nobody but possibly one thread has a guard. -/
def OnlyGuard (c : Contention α) (i : Nat) : Prop :=
  ∀ j t, j ≠ i → c.threads[j]? = some t → t.holds = false

/-- What was logged is a sequence of critical sections. The flag is set while the last of them is
open, and then the thread in it has the only guard; otherwise there is none. -/
inductive Serialized (v : α) : List (Nat × LockEvent α) → Contention α → Prop
  | free {c : Contention α} (sections : List (CriticalSection α))
    (unlocked : c.lock.locked = false)
    (nobody : ∀ (i : Nat) t, c.threads[i]? = some t → t.holds = false)
    (agrees : c.Agrees ((Serial.start v).run sections)) :
    Serialized v (sections.flatMap CriticalSection.closed) c
  | held {c : Contention α} (sections : List (CriticalSection α)) (k : CriticalSection α)
    (locked : c.lock.locked = true)
    (guard : ∃ t, c.threads[k.thread]? = some t ∧ t.holds = true)
    (only : c.OnlyGuard k.thread)
    (agrees : c.Agrees ((Serial.start v).run (sections ++ [k]))) :
    Serialized v (sections.flatMap CriticalSection.closed ++ k.opened) c

theorem serialized_start (v : α) (programs : List (List (LockAction α))) :
    Serialized v [] (start (.new v) programs) := by
  have hthread : ∀ (i : Nat) t, (start (.new v) programs).threads[i]? = some t →
      ∃ program, t = .start program := by
    intro i t ht
    rw [start, List.getElem?_map] at ht
    obtain ⟨program, -, rfl⟩ := Option.map_eq_some_iff.mp ht
    exact ⟨program, rfl⟩
  refine .free [] rfl ?_ ⟨rfl, ?_⟩
  · intro i t ht
    obtain ⟨program, rfl⟩ := hthread i t ht
    rfl
  · intro i t ht
    obtain ⟨program, rfl⟩ := hthread i t ht
    rfl

section

variable {s s' : Serial α} {lock : SpinLock α} {next : LockThread α}

/-- Nothing but the thread that took a step has to be looked at. -/
theorem Agrees.set (h : c.Agrees s) (hvalue : lock.value = s'.value) (hseen : next.seen = s'.seen i)
    (hothers : ∀ j, j ≠ i → s'.seen j = s.seen j) :
    Agrees ⟨lock, c.threads.set i next⟩ s' := by
  refine ⟨hvalue, fun j r hj => ?_⟩
  rcases of_getElem?_set hj with ⟨rfl, rfl⟩ | ⟨hne, hj⟩
  · exact hseen
  · rw [hothers j hne]
    exact h.seen j r hj

theorem Agrees.set_of_seen (h : c.Agrees s) (ht : c.threads[i]? = some t)
    (hvalue : lock.value = c.lock.value) (hseen : next.seen = t.seen) :
    Agrees ⟨lock, c.threads.set i next⟩ s :=
  h.set (hvalue.trans h.value) (hseen.trans (h.seen i t ht)) fun _ _ => rfl

/-- The thread goes to the value. -/
theorem Agrees.set_of_access (h : c.Agrees s) (ht : c.threads[i]? = some t) {a : LockAction α}
    (hseen : next.seen = (a.access c.lock.value t.seen).2) :
    Agrees ⟨c.lock.write (a.access c.lock.value t.seen).1, c.threads.set i next⟩
      (s.access i a) := by
  rw [h.value, h.seen i t ht] at hseen
  refine h.set ?_ ?_ fun j hj => Function.update_of_ne hj _ _
  · rw [h.value, h.seen i t ht]
    rfl
  · rw [hseen]
    exact (Function.update_self i _ s.seen).symm

theorem OnlyGuard.set {j : Nat} (h : c.OnlyGuard j) (hnext : i ≠ j → next.holds = false) :
    OnlyGuard ⟨lock, c.threads.set i next⟩ j := by
  intro k r hk hr
  rcases of_getElem?_set hr with ⟨rfl, rfl⟩ | ⟨-, hr⟩
  · exact hnext hk
  · exact h k r hk hr

theorem OnlyGuard.eq (h : c.OnlyGuard i) {j : Nat} (ht : c.threads[j]? = some t)
    (hholds : t.holds = true) : j = i := by
  by_contra hne
  rw [h j t hne ht] at hholds
  cases hholds

theorem getElem?_set_self_of_thread (ht : c.threads[i]? = some t) :
    (c.threads.set i next)[i]? = some next :=
  List.getElem?_set_self (List.getElem?_eq_some_iff.mp ht).1

end

/-! ## Steps -/

theorem opened_concat (k : CriticalSection α) (a : LockAction α) :
    k.opened ++ [(k.thread, .access a)] =
      CriticalSection.opened ⟨k.thread, k.accesses ++ [a]⟩ := by
  simp [CriticalSection.opened]

theorem flatMap_closed_concat (sections : List (CriticalSection α)) (k : CriticalSection α) :
    sections.flatMap CriticalSection.closed ++ k.opened ++ [(k.thread, .release)] =
      (sections ++ [k]).flatMap CriticalSection.closed := by
  simp [CriticalSection.closed]

variable {v : α} {log : List (Nat × LockEvent α)}

/-- A step that a thread takes while the lock is free. -/
theorem serialized_of_free {event : Option (LockEvent α)} {r : SpinLock α × LockThread α}
    {sections : List (CriticalSection α)} (ht : c.threads[i]? = some t)
    (hdoes : t.Does c.lock event r) (unlocked : c.lock.locked = false)
    (nobody : ∀ (j : Nat) t, c.threads[j]? = some t → t.holds = false)
    (agrees : c.Agrees ((Serial.start v).run sections)) :
    Serialized v (sections.flatMap CriticalSection.closed ++ (event.map (i, ·)).toList)
      ⟨r.1, c.threads.set i r.2⟩ := by
  cases hdoes with
  | quiet holds seen =>
    rw [Option.map_none, Option.toList_none, List.append_nil]
    refine .free sections unlocked ?_ (agrees.set_of_seen ht rfl seen)
    intro j r hj
    rcases of_getElem?_set hj with ⟨rfl, rfl⟩ | ⟨-, hj⟩
    · exact holds.trans (nobody j t ht)
    · exact nobody j r hj
  | acquire _ holds seen =>
    refine .held sections ⟨i, []⟩ rfl ⟨_, getElem?_set_self_of_thread ht, holds⟩ ?_ ?_
    · intro j r hj hr
      rcases of_getElem?_set hr with ⟨rfl, -⟩ | ⟨-, hr⟩
      · exact absurd rfl hj
      · exact nobody j r hr
    · rw [Serial.run_concat_nil]
      exact agrees.set_of_seen ht rfl seen
  | access guard => exact absurd guard (by simp [nobody i t ht])
  | release guard => exact absurd guard (by simp [nobody i t ht])

/-- A step that a thread takes while a critical section is open. -/
theorem serialized_of_held {event : Option (LockEvent α)} {r : SpinLock α × LockThread α}
    {sections : List (CriticalSection α)} {k : CriticalSection α} (ht : c.threads[i]? = some t)
    (hdoes : t.Does c.lock event r) (locked : c.lock.locked = true)
    (guard : ∃ t, c.threads[k.thread]? = some t ∧ t.holds = true) (only : c.OnlyGuard k.thread)
    (agrees : c.Agrees ((Serial.start v).run (sections ++ [k]))) :
    Serialized v
      (sections.flatMap CriticalSection.closed ++ k.opened ++ (event.map (i, ·)).toList)
      ⟨r.1, c.threads.set i r.2⟩ := by
  cases hdoes with
  | quiet holds seen =>
    rw [Option.map_none, Option.toList_none, List.append_nil]
    refine .held sections k locked ?_ ?_ (agrees.set_of_seen ht rfl seen)
    · obtain ⟨owner, hk, howner⟩ := guard
      by_cases hi : i = k.thread
      · subst hi
        obtain rfl : t = owner := Option.some.inj (ht.symm.trans hk)
        exact ⟨_, getElem?_set_self_of_thread ht, holds.trans howner⟩
      · exact ⟨owner, by rwa [List.getElem?_set_ne hi], howner⟩
    · exact only.set fun hi => holds.trans (only i t hi ht)
  | acquire free => exact absurd free (by simp [locked])
  | access hguard holds seen =>
    obtain rfl := only.eq ht hguard
    rw [Option.map_some, Option.toList_some, List.append_assoc, opened_concat]
    refine .held sections _ locked ⟨_, getElem?_set_self_of_thread ht, holds⟩ ?_ ?_
    · exact only.set fun hne => absurd rfl hne
    · rw [Serial.run_concat_access]
      exact agrees.set_of_access ht seen
  | release hguard holds seen =>
    obtain rfl := only.eq ht hguard
    rw [Option.map_some, Option.toList_some, flatMap_closed_concat]
    refine .free _ rfl ?_ (agrees.set_of_seen ht rfl seen)
    intro j r hj
    rcases of_getElem?_set hj with ⟨rfl, rfl⟩ | ⟨hne, hj⟩
    · exact holds
    · exact only j r hne hj

theorem Serialized.step (h : Serialized v log c) (i : Nat) :
    Serialized v (log ++ c.logged i) (c.step i) := by
  cases ht : c.threads[i]? with
  | none =>
    rw [logged, ht, step_of_none ht, Option.bind_none, Option.map_none, Option.toList_none,
      List.append_nil]
    exact h
  | some t =>
    rw [logged, ht, step_of_thread ht, Option.bind_some]
    have hdoes := LockThread.does_step c.lock t
    cases h with
    | free sections unlocked nobody agrees =>
      exact serialized_of_free ht hdoes unlocked nobody agrees
    | held sections k locked guard only agrees =>
      exact serialized_of_held ht hdoes locked guard only agrees

theorem Serialized.run (h : Serialized v log c) (schedule : List Nat) :
    Serialized v (log ++ c.log schedule) (c.run schedule) := by
  induction schedule generalizing log c with
  | nil =>
    rw [Contention.log, List.append_nil]
    exact h
  | cons i rest ih =>
    rw [Contention.log, ← List.append_assoc]
    exact ih (h.step i)

/-! ## Exclusion -/

theorem Serialized.guard_unique (h : Serialized v log c) {j : Nat} {s : LockThread α}
    (ht : c.threads[i]? = some t) (hholds : t.holds = true) (hs : c.threads[j]? = some s)
    (hsholds : s.holds = true) : i = j := by
  cases h with
  | free _ _ nobody => exact absurd hholds (by simp [nobody i t ht])
  | held _ k _ _ only => rw [only.eq ht hholds, only.eq hs hsholds]

theorem Serialized.locked_iff (h : Serialized v log c) :
    c.lock.locked = true ↔ ∃ (i : Nat) (t : _), c.threads[i]? = some t ∧ t.holds = true := by
  cases h with
  | free _ unlocked nobody =>
    refine ⟨fun locked => absurd locked (by simp [unlocked]), ?_⟩
    rintro ⟨i, t, ht, hholds⟩
    exact absurd hholds (by simp [nobody i t ht])
  | held _ k locked guard => exact ⟨fun _ => ⟨k.thread, guard⟩, fun _ => locked⟩

/-- What is true of threads on a lock after the steps of a schedule. -/
structure Excludes (v : α) (programs : List (List (LockAction α))) (schedule : List Nat)
    (c : Contention α) : Prop where
  guard_unique : ∀ (i j : Nat) t s, c.threads[i]? = some t → t.holds = true →
    c.threads[j]? = some s → s.holds = true → i = j
  locked_iff : c.lock.locked = true ↔ ∃ (i : Nat) (t : _), c.threads[i]? = some t ∧ t.holds = true
  /-- A thread that takes the lock goes on only by a step of its own, one that found the flag clear
  and set it. -/
  taken : ∀ (i : Nat) t a rest, c.threads[i]? = some t → t.program = a :: rest → a.takes = true →
    (∃ next, c.step i = ⟨c.lock, c.threads.set i next⟩ ∧ next.program = t.program ∧
      next.holds = t.holds) ∨
    ∃ next, c.step i = ⟨{ c.lock with locked := true }, c.threads.set i next⟩ ∧
      c.lock.locked = false ∧ next.program = rest ∧ next.holds = true
  /-- An attempt that fails changes nothing. -/
  tryLock_failed : ∀ (i : Nat) t rest, c.threads[i]? = some t → t.program = .tryLock :: rest →
    c.lock.locked = true → c.step i = ⟨c.lock, c.threads.set i { t with program := rest }⟩
  /-- What happened is what happens if the critical sections come one after the other. -/
  serialized : Serialized v ((start (.new v) programs).log schedule) c

theorem excludes_run (v : α) (programs : List (List (LockAction α))) (schedule : List Nat) :
    Excludes v programs schedule ((start (.new v) programs).run schedule) := by
  have h := (serialized_start v programs).run schedule
  rw [List.nil_append] at h
  refine ⟨?_, h.locked_iff, ?_, ?_, h⟩
  · exact fun i j t s ht hholds hs hsholds => h.guard_unique ht hholds hs hsholds
  · intro i t a rest ht hprogram htakes
    rw [step_of_thread ht]
    rcases LockThread.step_of_takes _ hprogram htakes with
      ⟨next, hstep, hnext⟩ | ⟨next, hstep, hnext⟩
    · exact .inl ⟨next, by rw [hstep], hnext⟩
    · exact .inr ⟨next, by rw [hstep], hnext⟩
  · intro i t rest ht hprogram hlocked
    rw [step_of_thread ht, LockThread.step_of_tryLock hprogram, if_pos hlocked]

end Contention

end PagedMemory
