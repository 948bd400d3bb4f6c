import PagedMemory.Proofs.Sync.Exclusion
/-!
# No addition is lost

Threads that add to the value of a lock read it, add, and write the sum, as three separate things.
What each of them still has to add is known from how far it has come, and that together with the
value is the same at any time: the thread in the critical section is the only one that may have read
the value, and nobody changes it before that thread has stored its sum.
-/
namespace PagedMemory

namespace LockThread

variable {t next : LockThread UInt64} {lock after : SpinLock UInt64} {value d : UInt64} {n : Nat}

/-- A thread that has to store `n` more sums, each of them larger by `d` than the value it read. -/
inductive Adds (value d : UInt64) : LockThread UInt64 → Nat → Prop
  | outside {t : LockThread UInt64} (masked : List Bool)
    (program : t.program = Contention.updatesIrq (· + d) masked) (holds : t.holds = false) :
    Adds value d t masked.length
  | taken {t : LockThread UInt64} (masked : List Bool)
    (program : t.program =
      .read :: .write (· + d) :: .unlock :: Contention.updatesIrq (· + d) masked)
    (holds : t.holds = true) : Adds value d t (masked.length + 1)
  | read {t : LockThread UInt64} (masked : List Bool)
    (program : t.program = .write (· + d) :: .unlock :: Contention.updatesIrq (· + d) masked)
    (holds : t.holds = true) (seen : t.seen = some value) : Adds value d t (masked.length + 1)
  | stored {t : LockThread UInt64} (masked : List Bool)
    (program : t.program = .unlock :: Contention.updatesIrq (· + d) masked)
    (holds : t.holds = true) : Adds value d t masked.length

namespace Adds

/-- A thread without the guard knows nothing of the value. -/
theorem of_not_holds (h : Adds value d t n) (hholds : t.holds = false) (value' : UInt64) :
    Adds value' d t n := by
  cases h with
  | outside masked program holds => exact .outside masked program holds
  | taken _ _ holds => exact absurd holds (by simp [hholds])
  | read _ _ holds => exact absurd holds (by simp [hholds])
  | stored _ _ holds => exact absurd holds (by simp [hholds])

/-- What a thread stores it no longer has to add; without the guard it stores nothing. -/
theorem step (h : Adds lock.value d t n) :
    ∃ m, Adds (t.step lock).1.value d (t.step lock).2 m ∧
      (t.step lock).1.value + UInt64.ofNat m * d = lock.value + UInt64.ofNat n * d ∧
      (t.holds = false → (t.step lock).1.value = lock.value) := by
  cases h with
  | outside masked program holds =>
    cases masked with
    | nil =>
      have hstep : t.step lock = (lock, t) := by rw [LockThread.step, program]; rfl
      rw [hstep]
      exact ⟨0, .outside [] program holds, rfl, fun _ => rfl⟩
    | cons irq masked =>
      have htakes : (if irq then .lockIrq else .lock : LockAction UInt64).takes = true := by
        cases irq <;> rfl
      rcases step_of_takes lock program htakes with
        ⟨next, hstep, hprogram, hholds⟩ | ⟨next, hstep, -, hprogram, hholds⟩
      · rw [hstep]
        exact ⟨_, .outside (irq :: masked) (hprogram.trans program) (hholds.trans holds), rfl,
          fun _ => rfl⟩
      · rw [hstep]
        exact ⟨_, .taken masked hprogram hholds, rfl, fun _ => rfl⟩
  | taken masked program holds =>
    have hstep : t.step lock = (lock, { t with
        seen := some lock.value
        program := .write (· + d) :: .unlock :: Contention.updatesIrq (· + d) masked }) := by
      rw [LockThread.step, program, if_pos holds]
    rw [hstep]
    exact ⟨_, .read masked rfl holds rfl, rfl, fun _ => rfl⟩
  | read masked program holds seen =>
    have hstep : t.step lock = (lock.write (lock.value + d), { t with
        program := .unlock :: Contention.updatesIrq (· + d) masked }) := by
      rw [LockThread.step, program, holds, seen]
    rw [hstep]
    refine ⟨_, .stored masked rfl holds, ?_, fun hfree => absurd holds (by simp [hfree])⟩
    calc lock.value + d + UInt64.ofNat masked.length * d
        = lock.value + (UInt64.ofNat masked.length * d + d) := by abel
      _ = lock.value + UInt64.ofNat (masked.length + 1) * d := by
          rw [UInt64.ofNat_add, UInt64.add_mul, UInt64.ofNat_one, UInt64.one_mul]
  | stored masked program holds =>
    have hstep : t.step lock = (lock.release, { t with
        holds := false
        masked := false
        program := Contention.updatesIrq (· + d) masked }) := by
      rw [LockThread.step, program]
      simp only [leave, holds, if_true]
    rw [hstep]
    exact ⟨_, .outside masked rfl rfl, rfl, fun _ => rfl⟩

/-- A thread whose program is over has nothing left to add. -/
theorem eq_zero (h : Adds value d t n) (hover : t.program = []) : n = 0 := by
  cases h with
  | outside masked program =>
    cases masked with
    | nil => rfl
    | cons irq masked => rw [program] at hover; cases hover
  | taken _ program => rw [program] at hover; cases hover
  | read _ program => rw [program] at hover; cases hover
  | stored _ program => rw [program] at hover; cases hover

end Adds

end LockThread

namespace Contention

variable {c : Contention UInt64} {total v : UInt64} {log : List (Nat × LockEvent UInt64)}

/-- Threads that each add a number some times over, with interrupts masked in some of the critical
sections. -/
def adders (v : UInt64) (jobs : List (List Bool × UInt64)) : Contention UInt64 :=
  start (.new v) (jobs.map fun (masked, d) => updatesIrq (· + d) masked)

/-- What all threads still have to add, together with the value, makes up a total. -/
def AddUp (total : UInt64) (c : Contention UInt64) : Prop :=
  ∃ owed : List UInt64, owed.length = c.threads.length ∧ c.lock.value + owed.sum = total ∧
    ∀ (i : Nat) t, c.threads[i]? = some t →
      ∃ d n, LockThread.Adds c.lock.value d t n ∧ owed[i]? = some (UInt64.ofNat n * d)

theorem addUp_adders (v : UInt64) (jobs : List (List Bool × UInt64)) :
    AddUp (v + (jobs.map fun (masked, d) => UInt64.ofNat masked.length * d).sum)
      (adders v jobs) := by
  refine ⟨jobs.map fun (masked, d) => UInt64.ofNat masked.length * d, ?_, rfl, ?_⟩
  · simp [adders, start]
  · intro i t ht
    rw [adders, start, List.getElem?_map, List.getElem?_map] at ht
    rw [List.getElem?_map]
    generalize jobs[i]? = job at ht ⊢
    cases job with
    | none => cases ht
    | some job =>
      obtain ⟨masked, d⟩ := job
      obtain rfl := Option.some.inj ht
      exact ⟨d, masked.length, .outside masked rfl rfl, rfl⟩

/-- What one thread stores it no longer owes, and what the others owe stays the same. -/
theorem AddUp.step (h : AddUp total c) (hserial : Serialized v log c) (i : Nat) :
    AddUp total (c.step i) := by
  cases ht : c.threads[i]? with
  | none =>
    rw [step_of_none ht]
    exact h
  | some t =>
    obtain ⟨owed, hlength, hsum, hthreads⟩ := h
    obtain ⟨d, n, hadds, howed⟩ := hthreads i t ht
    obtain ⟨m, hnext, hstored, hquiet⟩ := hadds.step
    obtain ⟨hi, hy⟩ := List.getElem?_eq_some_iff.mp howed
    rw [step_of_thread ht]
    refine ⟨owed.set i (UInt64.ofNat m * d), ?_, ?_, ?_⟩
    · rw [List.length_set, List.length_set, hlength]
    · have hset := List.sum_set' owed i (UInt64.ofNat m * d)
      rw [dif_pos hi, hy] at hset
      calc (t.step c.lock).1.value + (owed.set i (UInt64.ofNat m * d)).sum
          = ((t.step c.lock).1.value + UInt64.ofNat m * d) +
              (owed.sum + -(UInt64.ofNat n * d)) := by rw [hset]; abel
        _ = (c.lock.value + UInt64.ofNat n * d) + (owed.sum + -(UInt64.ofNat n * d)) := by
            rw [hstored]
        _ = c.lock.value + owed.sum := by abel
        _ = total := hsum
    · intro j s hs
      rcases of_getElem?_set hs with ⟨rfl, rfl⟩ | ⟨hne, hs⟩
      · exact ⟨d, m, hnext, List.getElem?_set_self hi⟩
      · obtain ⟨d', k, hadds', howed'⟩ := hthreads j s hs
        refine ⟨d', k, ?_, by rwa [List.getElem?_set_ne hne.symm]⟩
        cases hholds : t.holds with
        | false =>
          rw [hquiet hholds]
          exact hadds'
        | true =>
          -- the thread that may have stored has the only guard
          have hfree : s.holds = false := by
            by_contra hs'
            rw [Bool.not_eq_false] at hs'
            exact hne (hserial.guard_unique hs hs' ht hholds)
          exact hadds'.of_not_holds hfree _

theorem AddUp.run (h : AddUp total c) (hserial : Serialized v log c) (schedule : List Nat) :
    AddUp total (c.run schedule) := by
  induction schedule generalizing log c with
  | nil => exact h
  | cons i rest ih => exact ih (h.step hserial i) (hserial.step i)

/-- Once all programs are over nothing is owed. -/
theorem AddUp.value_eq (h : AddUp total c) (hover : ∀ t ∈ c.threads, t.program = []) :
    c.lock.value = total := by
  obtain ⟨owed, hlength, hsum, hthreads⟩ := h
  have hzero : ∀ x ∈ owed, x = 0 := by
    intro x hx
    obtain ⟨i, hi, rfl⟩ := List.mem_iff_getElem.mp hx
    have ht : c.threads[i]? = some (c.threads.get ⟨i, hlength ▸ hi⟩) :=
      List.getElem?_eq_getElem _
    obtain ⟨d, n, hadds, howed⟩ := hthreads i _ ht
    rw [hadds.eq_zero (hover _ (List.mem_of_getElem? ht)), List.getElem?_eq_getElem hi] at howed
    rw [Option.some.inj howed]
    exact UInt64.zero_mul
  rw [List.sum_eq_zero hzero] at hsum
  rw [← hsum, add_zero]

/-- Threads on a lock exclude each other, whatever their programs and the order of their steps; and
if all that they do is to add to the value, then nothing of that is lost. -/
theorem excludes_and_adds (v : UInt64) :
    (∀ programs schedule,
      Excludes v programs schedule ((start (.new v) programs).run schedule)) ∧
    ∀ jobs schedule, (∀ t ∈ ((adders v jobs).run schedule).threads, t.program = []) →
      ((adders v jobs).run schedule).lock.value =
        v + (jobs.map fun (masked, d) => UInt64.ofNat masked.length * d).sum := by
  refine ⟨excludes_run v, fun jobs schedule hover => ?_⟩
  exact ((addUp_adders v jobs).run (serialized_start v _) schedule).value_eq hover

/-- Two threads, the second of which finds the lock taken twice over; the sum wraps around. -/
theorem excludes_and_adds_two_threads :
    let jobs : List (List Bool × UInt64) := [([false, true], 3), ([false], 0xffffffffffffffff)]
    let schedule := [0, 1, 0, 1, 0, 0, 1, 0, 0, 1, 1, 0, 0, 0, 1, 1, 1, 1, 1]
    (∀ t ∈ ((adders 5 jobs).run schedule).threads, t.program = []) ∧
      ((adders 5 jobs).run schedule).lock.value = 10 := by
  intro jobs schedule
  have hover : ∀ t ∈ ((adders 5 jobs).run schedule).threads, t.program = [] := by
    have hall : (((adders 5 jobs).run schedule).threads.all (·.program.isEmpty)) = true := by decide
    intro t ht
    exact List.isEmpty_iff.mp (List.all_eq_true.mp hall t ht)
  exact ⟨hover, (excludes_and_adds 5).2 jobs schedule hover⟩

end Contention

end PagedMemory
