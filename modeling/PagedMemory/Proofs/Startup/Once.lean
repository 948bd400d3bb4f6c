import PagedMemory.Proofs.Endings
import PagedMemory.System.Startup
/-!
# Startup runs once

Any number of processors call startup at any time. Who gets past the flag is decided by one atomic
step; what comes after it, block by block, may have the steps of all other calls in between. Those
find the flag set, so they change nothing, and the call that got past ends as if it were alone.

The argument needs two facts only: no block of startup takes the flag back, and a call that finds it
set is refused on the spot.
-/
namespace PagedMemory

namespace System

variable {ε α β : Type}

/-! ## The blocks of startup -/

/-- The frame pool is filled from the memory map and, if it got any frame, put in place together
with a kernel map that is yet to be built. -/
def fillPool (info : BootInfo) : Op StartupError System Unit := do
  let (pool, added) ← Op.ofStep (makePool ⟨info.directMapOffset⟩ info.memoryMap)
  if added = 0 then
    Op.fail .noUsableMemory
  modify fun s => { s with pool := some pool, kernelMap := some .missing }

def buildKernelMap (info : BootInfo) : Op StartupError System Frame :=
  onPaging (Op.mapError .paging (Paging.initPaging info.memoryMap info.kernel))

def loadKernelMap : Op StartupError System Cr3 :=
  onPaging (Op.mapError .paging Paging.loadKernelMap)

def attachHeap : Op StartupError System Nat :=
  onHeap (Op.mapError .heap (Heap.init initialHeapSize))

/-- A line changes the log and nothing else. -/
theorem onStore_logLine (level : LogLevel) (text : Unit → String) (s : System) :
    onStore (ε := ε) (Store.logLine level text) s =
      .ok () { s with log := s.log.add level text } := by
  obtain ⟨ram, log, started, pool, kernelMap, heap, heapPool⟩ := s
  cases pool <;> rfl

/-- The line that tells how many frames are left. -/
def logReady : Op StartupError System Unit := do
  let frames := (← get).store.frames
  onStore <| Store.logLine .info fun _ =>
    "memory ready: " ++ frames.free.repr ++ " of " ++ frames.total.repr ++ " frames free"

/-- A program cut into blocks, between which other processors may take steps. -/
inductive Plan
  | done (value : Cr3)
  | block {α : Type} (x : Op StartupError System α) (rest : α → Plan)

/-- What a plan does if nobody else takes a step. -/
def Plan.run : Plan → Op StartupError System Cr3
  | done value => pure value
  | block x rest => x >>= fun a => (rest a).run

/-- What a call does that got past the flag. -/
def bringUp (info : BootInfo) : Plan :=
  .block (logBootInfo info) fun _ =>
  .block (fillPool info) fun _ =>
  .block (buildKernelMap info) fun _ =>
  .block loadKernelMap fun value =>
  .block attachHeap fun _ =>
  .block logReady fun _ =>
  .done value

/-- A choice between two first steps is a choice between two programs. -/
theorem ite_bind {c : Prop} [Decidable c] (x y : Op ε System α) (f : α → Op ε System β) :
    (if c then x else y) >>= f = if c then x >>= f else y >>= f := by
  split <;> rfl

/-- Startup is the look at the flag and then the plan. -/
theorem initMemory_eq (info : BootInfo) : initMemory info = (do
    if ← swapStarted then
      Op.fail .alreadyInitialized
    (bringUp info).run) := by
  simp only [initMemory, bringUp, Plan.run, fillPool, buildKernelMap, loadKernelMap, attachHeap,
    logReady, bind_assoc, ite_bind]

theorem with_started_eq {s : System} (h : s.started = true) : { s with started := true } = s := by
  obtain ⟨ram, log, started, pool, kernelMap, heap, heapPool⟩ := s
  cases h
  rfl

theorem initMemory_of_started {s : System} (h : s.started = true) (info : BootInfo) :
    initMemory info s = .error (.error .alreadyInitialized) s := by
  obtain ⟨ram, log, started, pool, kernelMap, heap, heapPool⟩ := s
  cases h
  rfl

theorem initMemory_of_not_started {s : System} (h : s.started = false) (info : BootInfo) :
    initMemory info s = (bringUp info).run { s with started := true } := by
  rw [initMemory_eq]
  simp only [swapStarted, Bind.bind, EStateM.bind, get, getThe, MonadStateOf.get, EStateM.get,
    modify, modifyGet, MonadStateOf.modifyGet, EStateM.modifyGet, pure, EStateM.pure, h,
    Bool.false_eq_true, if_false]

/-- A new pool is what filling an empty one leaves; the system beside it changes in memory and the
log only. -/
theorem makePool_ends {map : DirectMap} {memoryMap : List Region} {s : System}
    {ok : FramePool × Nat → System → Prop} {stop : Fault → System → Prop}
    (h : Ends (FramePool.addMemoryMap memoryMap) ⟨s.ram, .empty map, s.log⟩
      (fun n t => ok (t.frames, n) { s with ram := t.ram, log := t.log })
      (fun f t => stop f { s with ram := t.ram, log := t.log })) :
    Ends (makePool map memoryMap) s ok stop := by
  unfold Ends makePool at *
  cases hrun : FramePool.addMemoryMap memoryMap ⟨s.ram, .empty map, s.log⟩ <;> simpa [hrun] using h

/-! ## The flag stays up -/

/-- However a program ends, the flag is what it was. -/
def KeepsFlag (x : Op ε System α) : Prop :=
  ∀ s, Ends x s (fun _ t => t.started = s.started) (fun _ t => t.started = s.started)

theorem KeepsFlag.bind {x : Op ε System α} {f : α → Op ε System β} (hx : KeepsFlag x)
    (hf : ∀ a, KeepsFlag (f a)) : KeepsFlag (x >>= f) :=
  fun s => Ends.bind_trans (fun h h' => h'.trans h) (hx s) hf

theorem keepsFlag_onStore (x : Op ε (Store FramePool) α) : KeepsFlag (onStore x) :=
  fun _ => Ends.onPart_of_write fun _ => rfl

theorem keepsFlag_onPaging (x : Op ε PagingStore α) : KeepsFlag (onPaging x) :=
  fun _ => Ends.onPart_of_write fun _ => rfl

theorem keepsFlag_onHeap (x : Op ε HeapStore α) : KeepsFlag (onHeap x) := by
  intro s
  refine Ends.onPart_of_write fun t => ?_
  unfold setHeapStore
  cases s.heapPool <;> rfl

theorem keepsFlag_logBootInfo (info : BootInfo) : KeepsFlag (ε := ε) (logBootInfo info) := by
  intro s
  rw [logBootInfo, Ends.get_bind_iff]
  split
  · cases info.usableBytes with
    | error f => rfl
    | ok usable =>
      rw [Ends.check_ok_bind_iff]
      exact keepsFlag_onStore _ s
  · rfl

theorem keepsFlag_fillPool (info : BootInfo) : KeepsFlag (fillPool info) := by
  refine KeepsFlag.bind ?_ ?_
  · intro s
    apply Ends.ofStep
    apply makePool_ends
    unfold Ends
    split <;> rfl
  · intro r s
    dsimp only
    split <;> rfl

theorem keepsFlag_logReady : KeepsFlag logReady := by
  intro s
  rw [logReady, Ends.get_bind_iff]
  exact keepsFlag_onStore _ s

/-- No block of a plan changes the flag. -/
inductive Plan.LeavesFlag : Plan → Prop
  | done (value : Cr3) : LeavesFlag (.done value)
  | block {α : Type} {x : Op StartupError System α} {rest : α → Plan} (now : KeepsFlag x)
    (later : ∀ a, LeavesFlag (rest a)) : LeavesFlag (.block x rest)

theorem leavesFlag_bringUp (info : BootInfo) : (bringUp info).LeavesFlag :=
  .block (keepsFlag_logBootInfo info) fun _ =>
  .block (keepsFlag_fillPool info) fun _ =>
  .block (keepsFlag_onPaging _) fun _ =>
  .block (keepsFlag_onPaging _) fun _ =>
  .block (keepsFlag_onHeap _) fun _ =>
  .block keepsFlag_logReady fun _ =>
  .done _

theorem Plan.LeavesFlag.run {plan : Plan} (h : plan.LeavesFlag) : KeepsFlag plan.run := by
  induction h with
  | done value => exact fun s => rfl
  | block now later ih => exact now.bind ih

/-! ## Calls one after the other -/

/-- Calls startup again and again. -/
def initMemoryInTurn : List BootInfo → System → List (Except (Stop StartupError) Cr3) × System
  | [], s => ([], s)
  | info :: rest, s =>
    let (reply, t) := ending (initMemory info) s
    let (replies, u) := initMemoryInTurn rest t
    (reply :: replies, u)

/-- What every call but one is told. -/
def refusal : Except (Stop StartupError) Cr3 := .error (.error .alreadyInitialized)

theorem initMemoryInTurn_of_started (infos : List BootInfo) {s : System} (h : s.started = true) :
    initMemoryInTurn infos s = (infos.map fun _ => refusal, s) := by
  induction infos with
  | nil => rfl
  | cons info rest ih =>
    rw [initMemoryInTurn, ending, initMemory_of_started h]
    simp only [ih]
    rfl

theorem started_ending_initMemory {s : System} (h : s.started = false) (info : BootInfo) :
    (ending (initMemory info) s).2.started = true := by
  refine Ends.ending (p := fun r : Except (Stop StartupError) Cr3 × System =>
    r.2.started = true) ?_
  unfold Ends
  rw [initMemory_of_not_started h]
  exact (leavesFlag_bringUp info).run { s with started := true }

/-- Only the first of some calls does anything, however it ends. -/
theorem initMemoryInTurn_cons {s : System} (h : s.started = false) (info : BootInfo)
    (rest : List BootInfo) : initMemoryInTurn (info :: rest) s =
      ((ending (initMemory info) s).1 :: rest.map fun _ => refusal,
        (ending (initMemory info) s).2) := by
  rw [initMemoryInTurn]
  simp only [initMemoryInTurn_of_started rest (started_ending_initMemory h info)]

/-! ## Calls that race -/

/-- A call of startup, and how far it has come. -/
inductive StartCall
  | arrived (info : BootInfo)
  /-- It found the flag set. -/
  | refused
  | running (plan : Plan)
  | finished (reply : Except (Stop StartupError) Cr3)

namespace StartCall

/-- One step of a call: the look at the flag, or a block of its plan. -/
def step (s : System) : StartCall → System × StartCall
  | arrived info =>
    ({ s with started := true }, if s.started then refused else running (bringUp info))
  | refused => (s, refused)
  | running (.done value) => (s, finished (.ok value))
  | running (.block x rest) =>
    match x s with
    | .ok a t => (t, running (rest a))
    | .error e t => (t, finished (.error e))
  | finished reply => (s, finished reply)

/-- How a call ends if nobody else takes a step any more. -/
def conclude (s : System) : StartCall → Except (Stop StartupError) Cr3 × System
  | arrived info => ending (initMemory info) s
  | refused => (refusal, s)
  | running plan => ending plan.run s
  | finished reply => (reply, s)

/-- A call that got past the flag. -/
inductive IsPast : StartCall → Prop
  | running {plan : Plan} (h : plan.LeavesFlag) : IsPast (running plan)
  | finished (reply : Except (Stop StartupError) Cr3) : IsPast (finished reply)

variable {s : System} {c : StartCall}

theorem conclude_step (s : System) (c : StartCall) :
    (c.step s).2.conclude (c.step s).1 = c.conclude s := by
  cases c with
  | arrived info =>
    cases hs : s.started with
    | true =>
      simp only [step, hs, if_true, conclude, ending, initMemory_of_started hs, with_started_eq hs]
      rfl
    | false =>
      simp only [step, hs, Bool.false_eq_true, if_false, conclude, ending,
        initMemory_of_not_started hs]
  | refused => rfl
  | running plan =>
    cases plan with
    | done value => rfl
    | block x rest =>
      simp only [step, conclude, Plan.run, ending, Bind.bind, EStateM.bind]
      cases x s <;> rfl
  | finished reply => rfl

/-- A call that got past the flag stays past it, and the flag stays set. -/
theorem IsPast.step (h : c.IsPast) (hs : s.started = true) :
    (c.step s).2.IsPast ∧ (c.step s).1.started = true := by
  cases h with
  | finished reply => exact ⟨.finished reply, hs⟩
  | running hplan =>
    cases hplan with
    | done value => exact ⟨.finished _, hs⟩
    | @block α x rest now later =>
      have hnow := now s
      unfold Ends at hnow
      simp only [StartCall.step]
      cases hx : x s with
      | ok a t =>
        rw [hx] at hnow
        exact ⟨.running (later a), hnow.trans hs⟩
      | error e t =>
        rw [hx] at hnow
        exact ⟨.finished _, hnow.trans hs⟩

/-- A call that is not past the flag finds it set and changes nothing. -/
theorem step_of_started (hs : s.started = true) (info : BootInfo) :
    (arrived info).step s = (s, refused) := by
  simp only [step, hs, if_true, with_started_eq hs]

end StartCall

/-- A system and the calls that are made to start it. -/
structure StartRace where
  system : System
  calls : List StartCall

namespace StartRace

/-- Calls that have not looked at the flag yet. -/
def start (s : System) (infos : List BootInfo) : StartRace := ⟨s, infos.map .arrived⟩

def step (r : StartRace) (i : Nat) : StartRace :=
  match r.calls[i]? with
  | none => r
  | some call =>
    let (s, call) := call.step r.system
    ⟨s, r.calls.set i call⟩

/-- Lets the calls take steps in the order of a schedule. -/
def run (r : StartRace) (schedule : List Nat) : StartRace := schedule.foldl step r

/-- Where a call is that did not get past the flag: refused, if it took a step at all. -/
def bystander (schedule : List Nat) (i : Nat) (info : BootInfo) : StartCall :=
  if i ∈ schedule then .refused else .arrived info

/-- One call is past the flag and will end as if it were alone; the steps of all others lead to
nothing but a refusal. -/
structure WonBy (s : System) (infos : List BootInfo) (schedule : List Nat) (r : StartRace)
    (winner : Nat) : Prop where
  started : r.system.started = true
  past : ∃ info call, infos[winner]? = some info ∧ r.calls[winner]? = some call ∧ call.IsPast ∧
    call.conclude r.system = ending (initMemory info) s
  others : ∀ i, i ≠ winner → r.calls[i]? = infos[i]?.map (bystander schedule i)

variable {s : System} {infos : List BootInfo} {schedule : List Nat} {r : StartRace} {w i : Nat}

theorem step_of_none (h : r.calls[i]? = none) : r.step i = r := by
  simp only [step, h]

theorem step_of_some {c : StartCall} (h : r.calls[i]? = some c) :
    r.step i = ⟨(c.step r.system).1, r.calls.set i (c.step r.system).2⟩ := by
  simp only [step, h]

theorem getElem?_start (i : Nat) : (start s infos).calls[i]? = infos[i]?.map .arrived :=
  List.getElem?_map

/-- A step of one call does not move the others. -/
theorem getElem?_step_of_ne {j : Nat} (h : j ≠ i) : (r.step i).calls[j]? = r.calls[j]? := by
  cases hcall : r.calls[i]? with
  | none => rw [step_of_none hcall]
  | some call =>
    rw [step_of_some hcall]
    exact List.getElem?_set_ne (Ne.symm h)

theorem bystander_append_of_ne {j : Nat} (h : j ≠ i) :
    bystander (schedule ++ [i]) j = bystander schedule j := by
  funext info
  simp only [bystander, List.mem_append, List.mem_singleton, h, or_false]

theorem bystander_append_self (i : Nat) (info : BootInfo) :
    bystander (schedule ++ [i]) i info = .refused :=
  if_pos (List.mem_append_right _ (List.mem_singleton_self i))

/-- The step of a bystander changes nothing, and from then on it is refused. -/
theorem WonBy.step_other (h : WonBy s infos schedule r w) (hi : i ≠ w) :
    (r.step i).system = r.system ∧
      (r.step i).calls[i]? = infos[i]?.map (bystander (schedule ++ [i]) i) := by
  have hcall := h.others i hi
  cases hinfo : infos[i]? with
  | none =>
    rw [hinfo, Option.map_none] at hcall
    rw [step_of_none hcall]
    exact ⟨rfl, hcall⟩
  | some info =>
    rw [hinfo, Option.map_some] at hcall
    have hstep : (bystander schedule i info).step r.system = (r.system, .refused) := by
      rw [bystander]
      split
      · rfl
      · exact StartCall.step_of_started h.started info
    have hlt : i < r.calls.length := (List.getElem?_eq_some_iff.mp hcall).1
    rw [step_of_some hcall, hstep, Option.map_some, bystander_append_self]
    exact ⟨rfl, List.getElem?_set_self hlt⟩

theorem WonBy.step (h : WonBy s infos schedule r w) (i : Nat) :
    WonBy s infos (schedule ++ [i]) (r.step i) w := by
  obtain ⟨info, call, hinfo, hcall, hpast, hend⟩ := h.past
  have hothers : ∀ j, j ≠ w → j ≠ i →
      (r.step i).calls[j]? = infos[j]?.map (bystander (schedule ++ [i]) j) := by
    intro j hj hij
    rw [getElem?_step_of_ne hij, h.others j hj, bystander_append_of_ne hij]
  by_cases hi : i = w
  · subst hi
    obtain ⟨hpast', hstarted⟩ := hpast.step h.started
    have hlt : i < r.calls.length := (List.getElem?_eq_some_iff.mp hcall).1
    refine ⟨?_, ?_, fun j hj => hothers j hj hj⟩
    · rw [step_of_some hcall]
      exact hstarted
    · rw [step_of_some hcall]
      exact ⟨info, _, hinfo, List.getElem?_set_self hlt, hpast',
        (call.conclude_step r.system).trans hend⟩
  · obtain ⟨hsystem, hself⟩ := h.step_other hi
    refine ⟨hsystem ▸ h.started, ⟨info, call, hinfo, ?_, hpast, hsystem ▸ hend⟩, fun j hj => ?_⟩
    · rw [getElem?_step_of_ne (Ne.symm hi), hcall]
    · by_cases hij : j = i
      · exact hij ▸ hself
      · exact hothers j hj hij

/-- The first call that takes a step gets past the flag. -/
theorem WonBy.of_first (hs : s.started = false) (hi : i < infos.length)
    (hfirst : ∀ j ∈ schedule, infos.length ≤ j) :
    WonBy s infos (schedule ++ [i]) ((start s infos).step i) i := by
  have hinfo : infos[i]? = some infos[i] := List.getElem?_eq_getElem hi
  have hcall : (start s infos).calls[i]? = some (.arrived infos[i]) := by
    rw [getElem?_start, hinfo, Option.map_some]
  have hlt : i < (start s infos).calls.length := (List.getElem?_eq_some_iff.mp hcall).1
  have hend := (StartCall.arrived infos[i]).conclude_step s
  rw [step_of_some hcall]
  simp only [StartCall.step, start, hs, Bool.false_eq_true, if_false] at hend ⊢
  refine ⟨rfl, ⟨infos[i], _, hinfo, List.getElem?_set_self hlt,
    .running (leavesFlag_bringUp _), hend⟩, fun j hj => ?_⟩
  rw [List.getElem?_set_ne (Ne.symm hj), bystander_append_of_ne hj, List.getElem?_map]
  refine Option.map_congr fun info hj => ?_
  have hlt : j < infos.length := (List.getElem?_eq_some_iff.mp hj).1
  exact (if_neg fun hmem => absurd (hfirst j hmem) (Nat.not_le.mpr hlt)).symm

/-- Before any call took a step, none of them is past the flag; from then on one of them is. -/
theorem run_start (hs : s.started = false) (infos : List BootInfo) (schedule : List Nat) :
    (∀ i ∈ schedule, infos.length ≤ i) ∧ (start s infos).run schedule = start s infos ∨
      ∃ winner ∈ schedule, WonBy s infos schedule ((start s infos).run schedule) winner := by
  induction schedule using List.reverseRecOn with
  | nil => exact .inl ⟨nofun, rfl⟩
  | append_singleton schedule i ih =>
    rw [run, List.foldl_concat, ← run]
    rcases ih with ⟨hnone, hrun⟩ | ⟨w, hw, hwon⟩
    · rw [hrun]
      rcases Nat.lt_or_ge i infos.length with hi | hi
      · exact .inr ⟨i, List.mem_append_right _ (List.mem_singleton_self i), .of_first hs hi hnone⟩
      · refine .inl ⟨?_, ?_⟩
        · intro j hj
          rcases List.mem_append.mp hj with hj | hj
          · exact hnone j hj
          · exact List.mem_singleton.mp hj ▸ hi
        · apply step_of_none
          rw [getElem?_start, List.getElem?_eq_none hi, Option.map_none]
    · exact .inr ⟨w, List.mem_append_left _ hw, hwon.step i⟩

end StartRace

end System

end PagedMemory
