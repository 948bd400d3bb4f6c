import PagedMemory.Proofs.Frame.Filling
/-!
# A pool is a stack

The list of free frames exists only as links inside of frames, and whoever holds a frame may write
anything over what was a link. Seen from outside a pool is nevertheless a stack of frames: what it
replies to requests is what the stack replies, whatever the holders store in between. The one thing
that the callers promise is to return, and to write to, frames that they hold.
-/
namespace PagedMemory

namespace FramePool

/-- What is asked of a pool, and what the holder of a frame does in between. -/
inductive Request
  | allocate
  | free (f : Frame)
  /-- A holder stores a byte. -/
  | write (a : VirtualAddress) (v : UInt8)

/-- The frame that was handed out, if one was asked for, or why there is none. -/
abbrev Reply := Except (Stop OutOfFrames) (Option Frame)

/-- A request as a program on the pool and memory. -/
def Request.program : Request → Op OutOfFrames (Store FramePool) (Option Frame)
  | .allocate => do return some (← FramePool.allocate)
  | .free f => do
    Op.ofStep (release f)
    return none
  | .write a v => do
    Store.updateRam fun m => m.write a v
    return none

/-- The replies of a pool to requests, one after the other, and the store at the end. -/
def replies (s : Store FramePool) : List Request → List Reply × Store FramePool
  | [] => ([], s)
  | r :: rest =>
    let (reply, t) := ending r.program s
    let (more, u) := replies t rest
    (reply :: more, u)

/-- A stack of frames, and the frames that were taken from it. -/
structure Stack where
  frames : List Frame
  held : List Frame

namespace Stack

/-- What a stack replies to a request, and what becomes of it. -/
def step (stack : Stack) : Request → Reply × Stack
  | .allocate =>
    match stack.frames with
    | [] => (.error (.error .outOfFrames), stack)
    | f :: rest => (.ok (some f), ⟨rest, f :: stack.held⟩)
  | .free f => (.ok none, ⟨f :: stack.frames, stack.held.erase f⟩)
  | .write .. => (.ok none, stack)

/-- The replies of a stack to requests, one after the other, and the stack at the end. -/
def replies (stack : Stack) : List Request → List Reply × Stack
  | [] => ([], stack)
  | r :: rest =>
    let (reply, next) := stack.step r
    let (more, last) := next.replies rest
    (reply :: more, last)

/-- What the callers promise: they return frames that they hold, and write to such frames only. -/
def Permits (map : DirectMap) (stack : Stack) : Request → Prop
  | .allocate => True
  | .free f => f ∈ stack.held
  | .write a _ => map.frameAt a ∈ stack.held

instance (map : DirectMap) (stack : Stack) : ∀ r, Decidable (stack.Permits map r)
  | .allocate => .isTrue trivial
  | .free f => inferInstanceAs (Decidable (f ∈ stack.held))
  | .write a _ => inferInstanceAs (Decidable (map.frameAt a ∈ stack.held))

/-- Each of some requests is permitted when its turn comes. -/
def PermitsAll (map : DirectMap) (stack : Stack) : List Request → Prop
  | [] => True
  | r :: rest => stack.Permits map r ∧ (stack.step r).2.PermitsAll map rest

instance decidablePermitsAll (map : DirectMap) :
    ∀ (stack : Stack) requests, Decidable (stack.PermitsAll map requests)
  | _, [] => .isTrue trivial
  | stack, r :: rest =>
    have := decidablePermitsAll map (stack.step r).2 rest
    inferInstanceAs (Decidable (stack.Permits map r ∧ (stack.step r).2.PermitsAll map rest))

end Stack

/-- What a request may do to the pool and to memory, given what it got in reply. -/
def Touches (map : DirectMap) (s : Store FramePool) : Request → Reply → Store FramePool → Prop
  | .allocate, .ok (some f), t =>
    (∀ a, map.frameAt a = f → t.ram.read a = 0) ∧
      s.ram.OnlyChanges (fun a => map.frameAt a = f) t.ram
  | .allocate, _, t => t = s
  | .free f, _, t => s.ram.OnlyChanges (fun a => (map.aliasOf f).distance a < 8) t.ram
  | .write a v, _, t => t = { s with ram := s.ram.write a v }

/-- A pool that keeps the frames of a stack; a frame that was taken can be put back. -/
structure Keeps (map : DirectMap) (s : Store FramePool) (stack : Stack) : Prop where
  map_eq : s.frames.map = map
  pool : s.frames.Holds s.ram stack.frames
  nodup : (stack.frames ++ stack.held).Nodup
  alias_ne_null : ∀ f ∈ stack.held, map.aliasOf f ≠ .null

/-- A request ends as it does on the stack, and the pool keeps the frames of what becomes of it. -/
def Agrees (map : DirectMap) (s : Store FramePool) (stack : Stack) (r : Request)
    (e : Reply × Store FramePool) : Prop :=
  e.1 = (stack.step r).1 ∧ Keeps map e.2 (stack.step r).2 ∧ Touches map s r e.1 e.2

namespace Keeps

variable {map : DirectMap} {s : Store FramePool} {stack : Stack}

theorem allocate (h : Keeps map s stack) :
    Agrees map s stack .allocate (ending Request.allocate.program s) := by
  obtain ⟨fs, held⟩ := stack
  refine Ends.ending (p := Agrees map s _ .allocate) ?_
  cases fs with
  | nil =>
    refine Ends.bind (p := fun _ _ => False) ?_ fun _ _ hf => hf.elim
    exact Ends.bind_of_ok (Op.ofStep_of_ok (take?_of_nil h.pool)) ⟨rfl, h, rfl⟩
  | cons f fs =>
    obtain ⟨pool, htake, hmap, -, hpool⟩ := take?_of_cons h.pool
    have hnull := h.pool.linked.alias_ne_null f List.mem_cons_self
    have hperm : (fs ++ f :: held).Perm (f :: fs ++ held) := List.perm_middle
    rw [h.map_eq] at htake hmap hpool hnull
    have hallocate : FramePool.allocate s =
        .ok f ⟨s.ram.fill (map.aliasOf f) frameSize 0, pool, s.log⟩ := by
      simp only [FramePool.allocate, bind, EStateM.bind, Op.ofStep_of_ok htake]
      rfl
    refine Ends.bind_of_ok hallocate ⟨rfl, ⟨hmap, hpool, ?_, ?_⟩, ?_, ?_⟩
    · exact hperm.nodup_iff.mpr h.nodup
    · exact List.forall_mem_cons.mpr ⟨hnull, h.alias_ne_null⟩
    · intro a ha
      rw [Ram.read_fill, if_pos ((map.frameAt_eq_iff f a).mp ha)]
    · refine (s.ram.onlyChanges_fill _ _ _).mono ?_
      exact fun a ha => (map.frameAt_eq_iff f a).mpr ha

theorem free (h : Keeps map s stack) {f : Frame} (hf : f ∈ stack.held) :
    Agrees map s stack (.free f) (ending (Request.free f).program s) := by
  refine Ends.ending (p := Agrees map s stack (.free f)) ?_
  have hnull : s.frames.map.aliasOf f ≠ .null := h.map_eq ▸ h.alias_ne_null f hf
  have hfs : f ∉ stack.frames := fun hmem => (List.nodup_append'.mp h.nodup).2.2 hmem hf
  obtain ⟨pool, hpush, hmap, -, hpool⟩ := push_of_ne_null h.pool hnull hfs
  have hperm : (f :: stack.frames ++ stack.held.erase f).Perm (stack.frames ++ stack.held) :=
    List.perm_middle.symm.trans ((List.perm_cons_erase hf).symm.append_left stack.frames)
  rw [h.map_eq] at hpush hmap hpool
  have hrelease : release f s =
      .ok () ⟨s.ram.writeWord (map.aliasOf f) s.frames.head.value, pool, s.log⟩ := by
    simp only [release, bind, EStateM.bind, hpush]
    rfl
  refine Ends.bind_of_ok (Op.ofStep_of_ok hrelease) ⟨rfl, ⟨hmap, hpool, ?_, ?_⟩, ?_⟩
  · exact hperm.nodup_iff.mpr h.nodup
  · exact fun g hg => h.alias_ne_null g (List.mem_of_mem_erase hg)
  · exact s.ram.onlyChanges_writeWord _ _

/-- What a holder stores is in none of the frames that have links. -/
theorem write (h : Keeps map s stack) {a : VirtualAddress} (ha : map.frameAt a ∈ stack.held)
    (v : UInt8) : Agrees map s stack (.write a v) (ending (Request.write a v).program s) := by
  have hfs : map.frameAt a ∉ stack.frames :=
    fun hmem => (List.nodup_append'.mp h.nodup).2.2 hmem ha
  refine ⟨rfl, ⟨h.map_eq, ?_, h.nodup, h.alias_ne_null⟩, rfl⟩
  refine h.pool.congr (s.ram.onlyChanges_write a v) ?_
  rintro b rfl
  rwa [h.map_eq]

/-- One request. -/
theorem step (h : Keeps map s stack) {r : Request} (hr : stack.Permits map r) :
    Agrees map s stack r (ending r.program s) := by
  cases r with
  | allocate => exact h.allocate
  | free f => exact h.free hr
  | write a v => exact h.write hr v

/-- Any number of requests. -/
theorem replies (h : Keeps map s stack) {requests : List Request}
    (hr : stack.PermitsAll map requests) :
    (FramePool.replies s requests).1 = (stack.replies requests).1 ∧
      Keeps map (FramePool.replies s requests).2 (stack.replies requests).2 := by
  induction requests generalizing s stack with
  | nil => exact ⟨rfl, h⟩
  | cons r rest ih =>
    obtain ⟨hfirst, hrest⟩ := hr
    obtain ⟨hreply, hkeeps, -⟩ := h.step hfirst
    obtain ⟨hreplies, hlast⟩ := ih hkeeps hrest
    exact ⟨congrArg₂ List.cons hreply hreplies, hlast⟩

end Keeps

theorem Stack.permitsAll_append {map : DirectMap} {stack : Stack} {first rest : List Request} :
    stack.PermitsAll map (first ++ rest) ↔
      stack.PermitsAll map first ∧ (stack.replies first).2.PermitsAll map rest := by
  induction first generalizing stack with
  | nil => exact ⟨fun h => ⟨trivial, h⟩, fun h => h.2⟩
  | cons r first ih =>
    rw [List.cons_append, PermitsAll, PermitsAll, ih, and_assoc]
    rfl

/-- A pool that started with some frames behaves as a stack of them does under some requests. -/
structure ActsAsStack (map : DirectMap) (s : Store FramePool) (frames : List Frame)
    (requests : List Request) : Prop where
  replies : (replies s requests).1 = (Stack.replies ⟨frames, []⟩ requests).1
  /-- At any time the pool counts as many frames as the stack is high. -/
  height : ∀ first rest, requests = first ++ rest →
    (FramePool.replies s first).2.frames.free =
      (Stack.replies ⟨frames, []⟩ first).2.frames.length
  /-- Each request changes what it may change, and nothing else. -/
  touches : ∀ first r rest, requests = first ++ r :: rest →
    let before := (FramePool.replies s first).2
    Touches map before r (ending r.program before).1 (ending r.program before).2

/-- A pool that was filled from any memory maps, over any contents of memory, is a stack of their
frames. -/
theorem actsAsStack_addMemoryMaps (map : DirectMap) (m : Ram) (log : Log)
    {memoryMaps : List (List Region)}
    (hn : (memoryMaps.flatten.filter Region.isUsable).Pairwise
      fun r r' => r.frames.toList.Disjoint r'.frames.toList)
    {requests : List Request}
    (hr : Stack.PermitsAll map ⟨addedFrames map memoryMaps, []⟩ requests) :
    ∃ counts s, addMemoryMaps memoryMaps ⟨m, .empty map, log⟩ = .ok counts s ∧
      s.frames.free = counts.sum ∧
      ActsAsStack map s (addedFrames map memoryMaps) requests := by
  obtain ⟨counts, s, hs, hmap, hpool, hfree⟩ :=
    addMemoryMaps_empty map m log (Region.nodup_wholeFrames hn)
  have hstart : Keeps map s ⟨addedFrames map memoryMaps, []⟩ :=
    ⟨hmap, hpool, by simpa using hpool.nodup, by simp⟩
  refine ⟨counts, s, hs, hfree, (hstart.replies hr).1, ?_, ?_⟩
  · rintro first rest rfl
    exact (hstart.replies (Stack.permitsAll_append.mp hr).1).2.pool.free
  · rintro first r rest rfl
    obtain ⟨hfirst, hnext, -⟩ := Stack.permitsAll_append.mp hr
    exact ((hstart.replies hfirst).2.step hnext).2.2

/-- Two frames: one is written over and comes back, and is the next to be handed out; after that the
stack runs empty. -/
theorem actsAsStack_addMemoryMaps_two_frames :
    let map : DirectMap := ⟨0xffff800000000000⟩
    let memoryMaps : List (List Region) :=
      [[⟨⟨0x1000⟩, 0x1000, .usable⟩], [⟨⟨0x7000⟩, 0x1000, .usable⟩]]
    let requests : List Request :=
      [.allocate, .write ⟨0xffff800000007003⟩ 0x5a, .free (.ofNumber 7), .allocate, .allocate,
        .allocate]
    ((memoryMaps.flatten.filter Region.isUsable).Pairwise
        fun r r' => r.frames.toList.Disjoint r'.frames.toList) ∧
      Stack.PermitsAll map ⟨addedFrames map memoryMaps, []⟩ requests ∧
      (Stack.replies ⟨addedFrames map memoryMaps, []⟩ requests).1 =
        [.ok (some (.ofNumber 7)), .ok none, .ok none, .ok (some (.ofNumber 7)),
          .ok (some (.ofNumber 1)), .error (.error .outOfFrames)] ∧
      ∃ counts s, addMemoryMaps memoryMaps ⟨.uniform 0xaa, .empty map, .empty none⟩ = .ok counts s ∧
        s.frames.free = counts.sum ∧
        ActsAsStack map s (addedFrames map memoryMaps) requests := by
  intro map memoryMaps requests
  have hn : (memoryMaps.flatten.filter Region.isUsable).Pairwise
      fun r r' => r.frames.toList.Disjoint r'.frames.toList := by
    change List.Pairwise (fun r r' : Region => ∀ f ∈ r.frames.toList, f ∉ r'.frames.toList) _
    decide
  have hr : Stack.PermitsAll map ⟨addedFrames map memoryMaps, []⟩ requests := by decide
  exact ⟨hn, hr, by decide, actsAsStack_addMemoryMaps map _ _ hn hr⟩

end FramePool

end PagedMemory
