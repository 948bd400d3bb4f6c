import PagedMemory.Proofs.Locking.Requests
/-!
# No deadlock

Any number of processors share one frame pool, one kernel map and one heap, each of which has a
lock. A processor begins any operation at any time; an operation that comes to a lock that is not
free waits for it.

Each processor takes its locks in order of rank, so one that is waited for and waits itself waits
for a lock of higher rank. There are only two ranks: whoever has the lock of the frames waits for
nothing, and everybody else goes on once that lock was given up.
-/
namespace PagedMemory

open Locking

/-- A request that is being carried out, and what is left of its program. -/
structure Job where
  request : MemoryCore.Request
  program : Locking MemoryCore request.Failure request.Value

/-- The memory core, who has each of its locks, and what each processor is doing. -/
structure Cluster where
  memory : MemoryCore
  owner : LockName → Option Nat
  jobs : Nat → Option Job

namespace Cluster

/-- All locks are free and all processors idle. -/
def start (memory : MemoryCore) : Cluster := ⟨memory, fun _ => none, fun _ => none⟩

/-- After a step of one processor the others are where they were. -/
def setJob (c : Cluster) (i : Nat) (job : Option Job) : Cluster :=
  { c with jobs := Function.update c.jobs i job }

def setOwner (c : Cluster) (l : LockName) (owner : Option Nat) : Cluster :=
  { c with owner := Function.update c.owner l owner }

def setMemory (c : Cluster) (memory : MemoryCore) : Cluster := { c with memory }

/-- The steps of a processor. One that comes to a lock takes it only if it is free. -/
inductive Step (c : Cluster) (i : Nat) : Cluster → Prop
  | begin (idle : c.jobs i = none) (r : MemoryCore.Request) :
    Step c i (c.setJob i (some ⟨r, r.program⟩))
  /-- Between operations a client writes anything anywhere. -/
  | client (idle : c.jobs i = none) (ram : Ram) :
    Step c i (c.setMemory { c.memory with store := { c.memory.store with ram } })
  | acquire {r l rest} (job : c.jobs i = some ⟨r, .acquire l rest⟩) (free : c.owner l = none) :
    Step c i ((c.setJob i (some ⟨r, rest⟩)).setOwner l (some i))
  | release {r l rest} (job : c.jobs i = some ⟨r, .release l rest⟩) :
    Step c i ((c.setJob i (some ⟨r, rest⟩)).setOwner l none)
  | work {r change rest} (job : c.jobs i = some ⟨r, .work change rest⟩) :
    Step c i ((c.setJob i (some ⟨r, rest c.memory⟩)).setMemory (change c.memory))
  | finish {r result} (job : c.jobs i = some ⟨r, .done result⟩) : Step c i (c.setJob i none)

/-- Steps of some processors lead from one state to another. -/
def Reaches : Cluster → Cluster → Prop := Relation.ReflTransGen fun c d => ∃ i, Step c i d

/-- The next thing that a processor needs is a lock. -/
def Wants (c : Cluster) (i : Nat) (l : LockName) : Prop :=
  ∃ r rest, c.jobs i = some ⟨r, .acquire l rest⟩

/-- A processor waits for a lock that is not free. -/
def Waits (c : Cluster) (i : Nat) (l : LockName) : Prop := c.Wants i l ∧ c.owner l ≠ none

/-- Nobody waits for good. -/
structure DeadlockFree (c : Cluster) : Prop where
  not_waits_own : ∀ i l, c.Waits i l → c.owner l ≠ some i
  frames_last : ∀ i, c.owner .frames = some i → ∀ l, ¬ c.Wants i l
  no_cycle : ∀ waiting : Set Nat, waiting.Nonempty →
    ¬ ∀ i ∈ waiting, ∃ l, c.Waits i l ∧ ∃ j ∈ waiting, c.owner l = some j
  /-- While an operation is under way, one that is under way goes on. -/
  progress : ∀ i, c.jobs i ≠ none → ∃ j d, c.jobs j ≠ none ∧ Step c j d

/-! ## The order of the locks -/

/-- What a processor does with the locks that it has. -/
def Follows (held : List LockName) : Option Job → Prop
  | none => held = []
  | some job => Keeps [] held job.program

/-- Each processor has some locks, and goes on with them in order. -/
structure InOrder (held : Nat → List LockName) (c : Cluster) : Prop where
  owner_iff : ∀ i l, c.owner l = some i ↔ l ∈ held i
  nodup : ∀ i, (held i).Nodup
  follows : ∀ i, Follows (held i) (c.jobs i)

namespace InOrder

variable {c d : Cluster} {held : Nat → List LockName} {i j : Nat} {l k : LockName}

theorem start (memory : MemoryCore) : InOrder (fun _ => []) (Cluster.start memory) :=
  ⟨by simp [Cluster.start], by simp, fun _ => rfl⟩

theorem keeps (h : InOrder held c) {r : MemoryCore.Request}
    {program : Locking MemoryCore r.Failure r.Value} (hjob : c.jobs i = some ⟨r, program⟩) :
    Keeps [] (held i) program := by
  have := h.follows i
  rwa [hjob] at this

/-- One processor goes on, with other locks than before. -/
theorem change (h : InOrder held c) {mine : List LockName} {job : Option Job} {d : Cluster}
    (hjobs : d.jobs = Function.update c.jobs i job) (hfollows : Follows mine job)
    (hnodup : mine.Nodup) (hmine : ∀ l, d.owner l = some i ↔ l ∈ mine)
    (hothers : ∀ j l, j ≠ i → (d.owner l = some j ↔ c.owner l = some j)) :
    InOrder (Function.update held i mine) d := by
  refine ⟨fun j l => ?_, fun j => ?_, fun j => ?_⟩
  · by_cases hj : j = i
    · subst hj
      rw [Function.update_self, hmine]
    · rw [Function.update_of_ne hj, hothers j l hj, h.owner_iff]
  · by_cases hj : j = i
    · subst hj
      rwa [Function.update_self]
    · rw [Function.update_of_ne hj]
      exact h.nodup j
  · rw [hjobs]
    by_cases hj : j = i
    · subst hj
      rwa [Function.update_self, Function.update_self]
    · rw [Function.update_of_ne hj, Function.update_of_ne hj]
      exact h.follows j

/-- One processor goes on with the locks that it has. -/
theorem setJob (h : InOrder held c) {job : Option Job} (hjob : Follows (held i) job) :
    InOrder held (c.setJob i job) := by
  have hchange := h.change (d := c.setJob i job) rfl hjob (h.nodup i) (h.owner_iff i)
    fun _ _ _ => Iff.rfl
  rwa [Function.update_eq_self] at hchange

theorem setMemory (h : InOrder held c) (memory : MemoryCore) : InOrder held (c.setMemory memory) :=
  ⟨h.owner_iff, h.nodup, h.follows⟩

/-- A free lock is taken. -/
theorem acquire (h : InOrder held c) {r : MemoryCore.Request}
    {rest : Locking MemoryCore r.Failure r.Value}
    (hjob : c.jobs i = some ⟨r, .acquire l rest⟩) (hfree : c.owner l = none) :
    InOrder (Function.update held i (l :: held i))
      ((c.setJob i (some ⟨r, rest⟩)).setOwner l (some i)) := by
  obtain ⟨-, hrest⟩ := h.keeps hjob
  have hnew : l ∉ held i := by
    rw [← h.owner_iff, hfree]
    exact nofun
  refine h.change rfl hrest (List.nodup_cons.mpr ⟨hnew, h.nodup i⟩) (fun k => ?_) fun j k hj => ?_
  · by_cases hk : k = l
    · subst hk
      simp [setOwner]
    · simp [setOwner, Cluster.setJob, hk, h.owner_iff]
  · by_cases hk : k = l
    · subst hk
      simp [setOwner, hfree, Ne.symm hj]
    · simp [setOwner, Cluster.setJob, hk]

/-- The lock that was taken last is given up. -/
theorem release (h : InOrder held c) {r : MemoryCore.Request}
    {rest : Locking MemoryCore r.Failure r.Value}
    (hjob : c.jobs i = some ⟨r, .release l rest⟩) :
    InOrder (Function.update held i (held i).tail)
      ((c.setJob i (some ⟨r, rest⟩)).setOwner l none) := by
  have hkeeps := h.keeps hjob
  have hnodup := h.nodup i
  have howner := h.owner_iff i
  generalize held i = mine at hkeeps hnodup howner ⊢
  cases mine with
  | nil => exact hkeeps.elim
  | cons k mine =>
    obtain ⟨rfl, hrest⟩ := hkeeps
    obtain ⟨hnew, hnodup⟩ := List.nodup_cons.mp hnodup
    have hmine : c.owner k = some i := (howner k).mpr List.mem_cons_self
    refine h.change rfl hrest hnodup (fun l => ?_) fun j l hj => ?_
    · by_cases hl : l = k
      · subst hl
        simp [setOwner, hnew]
      · simp [setOwner, Cluster.setJob, hl, howner]
    · by_cases hl : l = k
      · subst hl
        simp [setOwner, hmine, Ne.symm hj]
      · simp [setOwner, Cluster.setJob, hl]

/-- Every step keeps to the order. -/
theorem step (h : InOrder held c) (hstep : Step c i d) : ∃ held', InOrder held' d := by
  cases hstep with
  | begin idle r =>
    have hnil : held i = [] := by
      have := h.follows i
      rwa [idle] at this
    refine ⟨held, h.setJob ?_⟩
    rw [hnil]
    exact r.implements_program.keeps
  | client idle ram => exact ⟨held, h.setMemory _⟩
  | acquire job free => exact ⟨_, h.acquire job free⟩
  | release job => exact ⟨_, h.release job⟩
  | @work r change rest job =>
    have hrest : Follows (held i) (some ⟨r, rest c.memory⟩) := h.keeps job c.memory
    exact ⟨held, (h.setJob hrest).setMemory _⟩
  | finish job =>
    have hdone : Follows (held i) none := h.keeps job
    exact ⟨held, h.setJob hdone⟩

theorem of_reaches {memory : MemoryCore} (h : (Cluster.start memory).Reaches c) :
    ∃ held, InOrder held c := by
  induction h with
  | refl => exact ⟨_, start memory⟩
  | tail _ hstep ih =>
    obtain ⟨i, hstep⟩ := hstep
    obtain ⟨held, hheld⟩ := ih
    exact hheld.step hstep

/-! ## Nobody waits for good -/

/-- A processor that has a lock and needs another one needs one of higher rank. -/
theorem rank_lt (h : InOrder held c) (howner : c.owner l = some i) (hwants : c.Wants i k) :
    l.rank < k.rank := by
  obtain ⟨r, rest, hjob⟩ := hwants
  obtain ⟨hlt, -⟩ := h.keeps hjob
  exact hlt l ((h.owner_iff i l).mp howner)

/-- A processor that has a lock is not idle. -/
theorem busy (h : InOrder held c) (howner : c.owner l = some i) : c.jobs i ≠ none := by
  intro hidle
  have hmem := (h.owner_iff i l).mp howner
  have hnil := h.follows i
  rw [hidle, Follows] at hnil
  rw [hnil] at hmem
  cases hmem

end InOrder

theorem rank_le_frames (l : LockName) : l.rank ≤ LockName.frames.rank := by
  cases l <;> decide

variable {c : Cluster} {held : Nat → List LockName} {i : Nat}

/-- An operation under way goes on unless it needs a lock that is not free. -/
theorem step_of_not_waits (hbusy : c.jobs i ≠ none) (hfree : ∀ l, ¬ c.Waits i l) :
    ∃ d, Step c i d := by
  obtain ⟨⟨r, program⟩, hjob⟩ := Option.ne_none_iff_exists'.mp hbusy
  cases program with
  | done result => exact ⟨_, .finish hjob⟩
  | acquire l rest =>
    have hnone : c.owner l = none := by
      by_contra howner
      exact hfree l ⟨⟨r, rest, hjob⟩, howner⟩
    exact ⟨_, .acquire hjob hnone⟩
  | release l rest => exact ⟨_, .release hjob⟩
  | work change rest => exact ⟨_, .work hjob⟩

namespace InOrder

theorem not_wants_of_frames (h : InOrder held c) (howner : c.owner .frames = some i)
    (l : LockName) : ¬ c.Wants i l :=
  fun hwants => Nat.not_lt.mpr (rank_le_frames l) (h.rank_lt howner hwants)

/-- A processor that has a lock and waits waits for the lock of the frames. -/
theorem eq_frames (h : InOrder held c) {l k : LockName} (howner : c.owner l = some i)
    (hwants : c.Wants i k) : k = .frames := by
  have hlt := h.rank_lt howner hwants
  cases k with
  | frames => rfl
  | kernelMap => cases hlt
  | heap => cases hlt

/-- Whoever has a lock, somebody goes on. -/
theorem progress_of_owner (h : InOrder held c) {l : LockName} (howner : c.owner l = some i) :
    ∃ j d, c.jobs j ≠ none ∧ Step c j d := by
  by_cases hwaits : ∃ k, c.Waits i k
  · obtain ⟨k, hwants, hk⟩ := hwaits
    obtain rfl := h.eq_frames howner hwants
    obtain ⟨j, hj⟩ := Option.ne_none_iff_exists'.mp hk
    obtain ⟨d, hstep⟩ := step_of_not_waits (h.busy hj)
      fun l hl => h.not_wants_of_frames hj l hl.1
    exact ⟨j, d, h.busy hj, hstep⟩
  · obtain ⟨d, hstep⟩ := step_of_not_waits (h.busy howner) (not_exists.mp hwaits)
    exact ⟨i, d, h.busy howner, hstep⟩

theorem deadlockFree (h : InOrder held c) : c.DeadlockFree := by
  refine ⟨?_, fun i howner => h.not_wants_of_frames howner, ?_, ?_⟩
  · intro i l hwaits howner
    exact Nat.lt_irrefl _ (h.rank_lt howner hwaits.1)
  · rintro waiting ⟨i, hi⟩ hcycle
    -- two steps along the cycle lead to the lock of the frames
    obtain ⟨l, -, j, hj, hlj⟩ := hcycle i hi
    obtain ⟨k, hk, m, hm, hkm⟩ := hcycle j hj
    obtain rfl := h.eq_frames hlj hk.1
    obtain ⟨n, hn, -⟩ := hcycle m hm
    exact h.not_wants_of_frames hkm n hn.1
  · intro i hbusy
    by_cases hwaits : ∃ l, c.Waits i l
    · obtain ⟨l, -, hl⟩ := hwaits
      obtain ⟨j, hj⟩ := Option.ne_none_iff_exists'.mp hl
      exact h.progress_of_owner hj
    · obtain ⟨d, hstep⟩ := step_of_not_waits hbusy (not_exists.mp hwaits)
      exact ⟨i, d, hbusy, hstep⟩

end InOrder

/-- The operations on the frame pool, the kernel map and the heap never deadlock, whichever of them
processors carry out, in whatever order; and they are the operations that these are alone. -/
theorem deadlockFree_of_reaches {memory : MemoryCore} (h : (start memory).Reaches c) :
    (∀ r : MemoryCore.Request, r.program.alone = r.perform) ∧ c.DeadlockFree := by
  obtain ⟨held, hheld⟩ := InOrder.of_reaches h
  exact ⟨fun r => r.implements_program.alone, hheld.deadlockFree⟩

/-- Two processors: one allocates a table and waits, with the lock of the kernel map, for that of
the frames, which the other one has. -/
theorem deadlockFree_of_reaches_two_processors :
    let memory : MemoryCore :=
      ⟨.missing, .empty, ⟨.uniform 0, .empty ⟨0xffff800000000000⟩, .empty none⟩⟩
    ∃ c, (start memory).Reaches c ∧ c.owner .kernelMap = some 0 ∧ c.owner .frames = some 1 ∧
      c.Waits 0 .frames ∧ (∀ r : MemoryCore.Request, r.program.alone = r.perform) ∧
      c.DeadlockFree := by
  intro memory
  have hreaches := Relation.ReflTransGen.refl (r := fun c d => ∃ i, Step c i d) (a := start memory)
    |>.tail ⟨0, .begin rfl .createTable⟩
    |>.tail ⟨0, .acquire rfl rfl⟩
    |>.tail ⟨0, .work rfl⟩
    |>.tail ⟨1, .begin rfl .allocateFrame⟩
    |>.tail ⟨1, .acquire rfl rfl⟩
  exact ⟨_, hreaches, rfl, rfl, ⟨⟨_, _, rfl⟩, nofun⟩, deadlockFree_of_reaches hreaches⟩

end Cluster

end PagedMemory
