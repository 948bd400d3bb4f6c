import PagedMemory.Proofs.Ownership.Supply
/-!
# Decisions do not depend on data

All that the memory core keeps lies in memory that held something else before: whatever was there
when the machine started, and what clients wrote. Yet each link, each header and each entry is
written before it is read. So two systems that take part in the same operations answer them alike
and look alike after each of them, whatever else is in their memories and whatever clients do to it.

The operations of a system are all events but the writes of its clients.
-/
namespace PagedMemory

/-- A memory map is added to the pool, or a request is made. -/
inductive Event
  | addMemoryMap (memoryMap : List Region)
  | request (q : Request)

namespace Event

/-- Whether a client writes to memory that it holds. -/
def isWrite : Event → Bool
  | .addMemoryMap _ => false
  | .request q => q.isWrite

def memoryMap? : Event → Option (List Region)
  | .addMemoryMap memoryMap => some memoryMap
  | .request _ => none

/-- The events in which the memory core takes part. -/
def operations (events : List Event) : List Event := events.filter fun e => !e.isWrite

/-- The memory maps that are added in the course of some events. -/
def memoryMaps (events : List Event) : List (List Region) := events.filterMap memoryMap?

theorem memoryMaps_append (events events' : List Event) :
    memoryMaps (events ++ events') = memoryMaps events ++ memoryMaps events' :=
  List.filterMap_append

theorem memoryMaps_operations (events : List Event) :
    memoryMaps (operations events) = memoryMaps events := by
  rw [memoryMaps, operations, List.filterMap_filter]
  congr 1
  funext e
  cases e with
  | addMemoryMap => rfl
  | request q => cases hq : q.isWrite <;> simp [isWrite, memoryMap?, hq]

theorem exists_write {e : Event} (h : e.isWrite = true) : ∃ a v, e = .request (.write a v) := by
  cases e with
  | addMemoryMap => cases h
  | request q =>
    cases q with
    | write a v => exact ⟨a, v, rfl⟩
    | _ => cases h

end Event

namespace Ledger

/-- A system with a pool that no frame was added to, whatever is in its memory. -/
def fresh (map : DirectMap) (m : Ram) (log : Log) : Ledger :=
  opened (.ofStore ⟨m, .empty map, log⟩)

/-- The ledger after an event. -/
def advance (l : Ledger) : Event → Ledger
  | .addMemoryMap memoryMap => l.supply memoryMap
  | .request q => l.perform q

/-- What an event is answered. -/
def reply (l : Ledger) : Event → Answer
  | .addMemoryMap memoryMap =>
    .counted (ending (System.onStore (FramePool.addMemoryMap memoryMap)) l.system).1
  | .request q => l.answer q

/-- Whether the tree exists in which an address is looked up. -/
def Knows (l : Ledger) : Request → Prop
  | .translate (some tree) _ => tree ∈ l.trees
  | _ => True

instance (l : Ledger) (q : Request) : Decidable (l.Knows q) :=
  match q with
  | .translate (some tree) _ => inferInstanceAs (Decidable (tree ∈ l.trees))
  | .translate none _ | .takeFrame | .returnFrame _ | .createTable | .initPaging .. | .mapPage ..
  | .loadKernelMap | .initHeap _ | .growHeap _ | .allocate _ | .free _ | .reallocate ..
  | .allocLayout _ | .allocZeroed _ | .reallocLayout .. | .write .. => .isTrue trivial

/-- What the callers promise. -/
def Allows (l : Ledger) : Event → Prop
  | .addMemoryMap _ => True
  | .request q => l.Permits q ∧ l.Knows q

instance (l : Ledger) : ∀ e, Decidable (l.Allows e)
  | .addMemoryMap _ => .isTrue trivial
  | .request q => inferInstanceAs (Decidable (l.Permits q ∧ l.Knows q))

/-- Each of some events is allowed when its turn comes. -/
def AllowsAll (l : Ledger) : List Event → Prop
  | [] => True
  | e :: rest => l.Allows e ∧ (l.advance e).AllowsAll rest

instance decidableAllowsAll (l : Ledger) : ∀ events, Decidable (l.AllowsAll events)
  | [] => .isTrue trivial
  | e :: rest =>
    have := decidableAllowsAll (l.advance e) rest
    inferInstanceAs (Decidable (l.Allows e ∧ (l.advance e).AllowsAll rest))

/-- The ledger after some events. -/
def advanceAll (l : Ledger) : List Event → Ledger
  | [] => l
  | e :: rest => (l.advance e).advanceAll rest

/-- What the operations among some events are answered. -/
def replies (l : Ledger) : List Event → List Answer
  | [] => []
  | e :: rest =>
    if e.isWrite then (l.advance e).replies rest else l.reply e :: (l.advance e).replies rest

open Event FramePool

variable {map : DirectMap} {total : Nat} {all : List Frame} {l l' k : Ledger}
variable {memoryMaps : List (List Region)} {e : Event} {events events' : List Event}
variable {m m' : Ram} {log log' : Log}

/-! ## One event -/

/-- A client that writes to what it holds is not seen. -/
theorem Alike.write (h : Alike map total all l k) (stock : Stock map all) (he : e.isWrite = true)
    (ha : l.Allows e) : Alike map total all (l.advance e) k := by
  obtain ⟨a, v, rfl⟩ := exists_write he
  have hview : (l.perform (.write a v)).view = l.view := by
    obtain ⟨fs, free, live, aside, hl⟩ := h.left
    exact hl.view_write stock ha.1
  exact ⟨h.left.perform stock ha.1, h.right, h.view.trans hview.symm⟩

/-- An operation is answered alike by systems that look alike, and they look alike after it. -/
theorem Alike.operation
    (h : Alike map (addedFrames map memoryMaps).length (addedFrames map memoryMaps) l k)
    (hn : (Region.wholeFrames (memoryMaps ++ Event.memoryMaps [e]).flatten).Nodup)
    (he : e.isWrite = false) (ha : l.Allows e) :
    k.reply e = l.reply e ∧
      Alike map (addedFrames map (memoryMaps ++ Event.memoryMaps [e])).length
        (addedFrames map (memoryMaps ++ Event.memoryMaps [e])) (l.advance e) (k.advance e) := by
  cases e with
  | addMemoryMap memoryMap =>
    obtain ⟨hcount, halike⟩ := h.supply hn
    exact ⟨congrArg Answer.counted hcount, halike⟩
  | request q =>
    have hmaps : memoryMaps ++ Event.memoryMaps [.request q] = memoryMaps := List.append_nil _
    rw [hmaps] at hn ⊢
    have stock : Stock map _ := stock_addedFrames (nodup_addedFrames hn)
    have hagrees := h.request stock ha.1 (fun tree virt hq => by subst hq; exact ha.2) he
    exact ⟨hagrees.answer, h.left.perform stock ha.1,
      h.right.perform stock (h.permits ha.1 he), hagrees.view⟩

/-! ## Any run -/

/-- Of two systems that look alike, one may go through events and the other through the operations
among them only: what clients write can be left out. -/
theorem Alike.operations
    (h : Alike map (addedFrames map memoryMaps).length (addedFrames map memoryMaps) l k)
    (hn : (Region.wholeFrames (memoryMaps ++ Event.memoryMaps events).flatten).Nodup)
    (ha : l.AllowsAll events) :
    k.replies (operations events) = l.replies events ∧
      (k.advanceAll (operations events)).view = (l.advanceAll events).view := by
  induction events generalizing memoryMaps l k with
  | nil => exact ⟨rfl, h.view⟩
  | cons e rest ih =>
    obtain ⟨ha, harest⟩ := ha
    have hsplit : Event.memoryMaps (e :: rest) = Event.memoryMaps [e] ++ Event.memoryMaps rest :=
      memoryMaps_append [e] rest
    rw [hsplit, ← List.append_assoc] at hn
    have hfirst : (Region.wholeFrames (memoryMaps ++ Event.memoryMaps [e]).flatten).Nodup := by
      rw [List.flatten_append, Region.wholeFrames_append] at hn
      exact hn.of_append_left
    cases he : e.isWrite with
    | true =>
      have hmaps : Event.memoryMaps [e] = [] := by
        obtain ⟨a, v, rfl⟩ := exists_write he
        rfl
      rw [hmaps, List.append_nil] at hn hfirst
      have halike := h.write (stock_addedFrames (nodup_addedFrames hfirst)) he ha
      have hskip : operations (e :: rest) = operations rest := by simp [Event.operations, he]
      rw [hskip, replies, if_pos he]
      exact ih halike hn harest
    | false =>
      obtain ⟨hreply, halike⟩ := h.operation hfirst he ha
      obtain ⟨hreplies, hview⟩ := ih halike hn harest
      have hkeep : operations (e :: rest) = e :: operations rest := by simp [Event.operations, he]
      rw [hkeep, replies, replies, he, hreply, hreplies]
      exact ⟨rfl, hview⟩

theorem sound_fresh (map : DirectMap) (m : Ram) (log : Log) :
    Sound map (addedFrames map []).length (addedFrames map []) (fresh map m log) := by
  have hpool : (System.ofStore ⟨m, .empty map, log⟩).store.frames.Holds m [] := holds_empty map m
  have stock : Stock map [] := ⟨List.nodup_nil, by decide, by simp⟩
  exact sound_opened (System.shared_ofStore _) rfl rfl hpool stock

/-- Nothing of memory is seen in a system without frames. -/
theorem view_fresh (map : DirectMap) (m : Ram) (log : Log) :
    (fresh map m log).view =
      ⟨⟨.empty map, [], []⟩, ⟨.missing, [], []⟩, ⟨.empty, [], [], [], []⟩⟩ := by
  have hfree : (fresh map m log).free = [] := (holds_empty map m).freeFrames_eq
  have hblocks : (fresh map m log).freeBlocks = [] := (Carved.empty map m).runs_eq
  rw [view, poolView, heapView, hfree, hblocks]
  rfl

theorem alike_fresh (map : DirectMap) (m m' : Ram) (log log' : Log) :
    Alike map (addedFrames map []).length (addedFrames map []) (fresh map m log)
      (fresh map m' log') :=
  ⟨sound_fresh map m log, sound_fresh map m' log', by rw [view_fresh, view_fresh]⟩

theorem AllowsAll.of_prefix (h : l.AllowsAll events) (hpre : events' <+: events) :
    l.AllowsAll events' := by
  obtain ⟨rest, rfl⟩ := hpre
  induction events' generalizing l with
  | nil => trivial
  | cons e before ih => exact ⟨h.1, ih h.2⟩

/-- Runs with the same operations are compared to the run of these operations only. -/
theorem same_of_operations_eq (hn : (Region.wholeFrames (Event.memoryMaps events).flatten).Nodup)
    (hsame : operations events' = operations events)
    (ha : (fresh map m log).AllowsAll events) (ha' : (fresh map m' log').AllowsAll events') :
    (fresh map m' log').replies events' = (fresh map m log).replies events ∧
      ((fresh map m' log').advanceAll events').view =
        ((fresh map m log).advanceAll events).view := by
  have hmaps : Event.memoryMaps events' = Event.memoryMaps events := by
    rw [← memoryMaps_operations, hsame, memoryMaps_operations]
  obtain ⟨hreplies, hview⟩ := (alike_fresh map m m log log).operations hn ha
  obtain ⟨hreplies', hview'⟩ := (alike_fresh map m' m log' log).operations (hmaps ▸ hn) ha'
  rw [hsame] at hreplies' hview'
  exact ⟨hreplies'.symm.trans hreplies, hview'.symm.trans hview⟩

/-- Two systems start with different memories, and clients write in them what and when they like.
They take part in the same operations, and every call keeps to the contract. Then all calls are
answered alike; and whenever the same operations are done, the two look alike: free lists, tables
and the blocks of the heap agree. -/
theorem data_independent
    (hn : ((Event.memoryMaps events).flatten.filter Region.isUsable).Pairwise
      fun r r' => r.frames.toList.Disjoint r'.frames.toList)
    (hsame : operations events' = operations events)
    (ha : (fresh map m log).AllowsAll events) (ha' : (fresh map m' log').AllowsAll events') :
    (fresh map m' log').replies events' = (fresh map m log).replies events ∧
      ∀ before before', before <+: events → before' <+: events' →
        operations before' = operations before →
        ((fresh map m' log').advanceAll before').view =
          ((fresh map m log).advanceAll before).view := by
  have hframes := Region.nodup_wholeFrames hn
  refine ⟨(same_of_operations_eq hframes hsame ha ha').1, ?_⟩
  intro before before' hpre hpre' hdone
  have hfirst : (Region.wholeFrames (Event.memoryMaps before).flatten).Nodup := by
    obtain ⟨rest, rfl⟩ := hpre
    rw [memoryMaps_append, List.flatten_append, Region.wholeFrames_append] at hframes
    exact hframes.of_append_left
  exact (same_of_operations_eq hfirst hdone (ha.of_prefix hpre) (ha'.of_prefix hpre')).2

/-- Two memories with other bytes in them. One client leaves its frame alone, the other does not,
and they put different bytes into a payload, which move with it. -/
theorem data_independent_two_clients :
    let start (m : Ram) : Ledger := fresh ⟨0xffff800000000000⟩ m (.empty none)
    let first : List Event := [.addMemoryMap [⟨⟨0x1000⟩, 0x8000, .usable⟩], .request .takeFrame]
    let second : List Event :=
      [.request (.returnFrame (.ofNumber 1)), .request .createTable,
        .addMemoryMap [⟨⟨0x20000⟩, 0x2000, .usable⟩],
        .request (.mapPage (some ⟨.ofNumber 1⟩) ⟨0x400000⟩ ⟨0x7000⟩ .small),
        .request (.initHeap 1), .request (.allocate 100)]
    let third : List Event :=
      [.request (.translate (some ⟨.ofNumber 1⟩) ⟨0x400123⟩),
        .request (.reallocate ⟨0xffff800000003010⟩ 300)]
    let events := first ++ second ++ .request (.write ⟨0xffff800000003010⟩ 1) :: third
    let events' := first ++ .request (.write ⟨0xffff800000001000⟩ 0x77) :: second ++
      .request (.write ⟨0xffff800000003010⟩ 2) :: third
    let l := start (.uniform 0xaa)
    let l' := start (.uniform 0x55)
    ((Event.memoryMaps events).flatten.filter Region.isUsable).Pairwise
        (fun r r' => r.frames.toList.Disjoint r'.frames.toList) ∧
      operations events' = operations events ∧ l.AllowsAll events ∧ l'.AllowsAll events' ∧
      (l.advanceAll events).system.ram.read ⟨0xffff800000003090⟩ = 1 ∧
      (l'.advanceAll events').system.ram.read ⟨0xffff800000003090⟩ = 2 ∧
      l'.replies events' = l.replies events ∧
      ∀ before before', before <+: events → before' <+: events' →
        operations before' = operations before →
        (l'.advanceAll before').view = (l.advanceAll before).view := by
  intro start first second third events events' l l'
  have hn : ((Event.memoryMaps events).flatten.filter Region.isUsable).Pairwise
      fun r r' => r.frames.toList.Disjoint r'.frames.toList := by
    change List.Pairwise (fun r r' : Region => ∀ f ∈ r.frames.toList, f ∉ r'.frames.toList) _
    decide
  have ha : l.AllowsAll events := by decide +kernel
  have ha' : l'.AllowsAll events' := by decide +kernel
  exact ⟨hn, rfl, ha, ha', by decide +kernel, by decide +kernel, data_independent hn rfl ha ha'⟩

end Ledger

end PagedMemory
