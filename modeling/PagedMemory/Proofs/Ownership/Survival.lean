import PagedMemory.Proofs.Ownership.Footprint
import PagedMemory.Proofs.Ownership.Relocation
/-!
# The contents of a payload that is moved around

A client has bytes at the start of a payload and keeps the payload in use. Reallocations may move it, and
each of them cuts off what does not fit; anything else may be asked for in between, by anyone. What is
left of the bytes is then found at the start of wherever the payload is, unless someone wrote to it.
-/
namespace PagedMemory

open FreeList

/-- Where the first bytes of a payload are, and how many of them, once it was to be moved. -/
def Run.movedTo (c : Run) (size : Nat) : Option VirtualAddress → Run
  | some q => ⟨q, min c.length size⟩
  | none => c

namespace Request

/-- The request does not free the payload that starts with some bytes. -/
def Keeps (c : Run) : Request → Prop
  | .free p => p ≠ c.start
  | _ => True

/-- Nor does it write to one of them. -/
def Spares (c : Run) : Request → Prop
  | .free p => p ≠ c.start
  | .write a _ => a ∉ c
  | _ => True

instance (c : Run) : ∀ q, Decidable (Keeps c q)
  | .free p => inferInstanceAs (Decidable (p ≠ c.start))
  | .takeFrame | .returnFrame _ | .createTable | .initPaging .. | .mapPage .. | .translate ..
  | .loadKernelMap | .initHeap _ | .growHeap _ | .allocate _ | .reallocate .. | .allocLayout _
  | .allocZeroed _ | .reallocLayout .. | .write .. => .isTrue trivial

instance (c : Run) : ∀ q, Decidable (Spares c q)
  | .free p => inferInstanceAs (Decidable (p ≠ c.start))
  | .write a _ => inferInstanceAs (Decidable (a ∉ c))
  | .takeFrame | .returnFrame _ | .createTable | .initPaging .. | .mapPage .. | .translate ..
  | .loadKernelMap | .initHeap _ | .growHeap _ | .allocate _ | .reallocate .. | .allocLayout _
  | .allocZeroed _ | .reallocLayout .. => .isTrue trivial

theorem Spares.keeps {c : Run} {q : Request} (h : q.Spares c) : q.Keeps c := by
  cases q with
  | free => exact h
  | _ => trivial

end Request

namespace Ledger

variable {map : DirectMap} {total : Nat} {all fs : List Frame} {l l' l'' : Ledger}
variable {free live aside : List Run} {c c' c'' : Run} {q : Request} {size : Nat}

/-- Where the first bytes of a payload are after a request. -/
def follow (l : Ledger) (c : Run) : Request → Run
  | .reallocate p size =>
    if p = c.start then
      c.movedTo size (outcome (System.onHeap (Heap.reallocate p size)) l.system).1
    else c
  | .reallocLayout p layout size =>
    if p = c.start then
      c.movedTo size (outcome (System.onHeap (Heap.reallocLayout p layout size)) l.system).1.join
    else c
  | _ => c

/-- Where they are after some requests. -/
def followAll (l : Ledger) (c : Run) : List Request → Run
  | [] => c
  | q :: rest => (l.perform q).followAll (l.follow c q) rest

/-- What each of some requests is to the bytes, wherever they are when its turn comes. -/
def Throughout (ok : Run → Request → Prop) (l : Ledger) (c : Run) : List Request → Prop
  | [] => True
  | q :: rest => ok c q ∧ (l.perform q).Throughout ok (l.follow c q) rest

instance decidableThroughout (ok : Run → Request → Prop) [∀ c q, Decidable (ok c q)] (l : Ledger)
    (c : Run) : ∀ requests, Decidable (l.Throughout ok c requests)
  | [] => .isTrue trivial
  | q :: rest =>
    have := decidableThroughout ok (l.perform q) (l.follow c q) rest
    inferInstanceAs (Decidable (ok c q ∧ (l.perform q).Throughout ok (l.follow c q) rest))

/-- Some bytes are the first ones of a payload in use. -/
structure InUse (l : Ledger) (c : Run) : Prop where
  live : c.start ∈ l.live
  ne_null : c.start ≠ .null
  le : c.length ≤ (payloadAround l.system.ram c.start).length

theorem InUse.length_lt (h : l.InUse c) : c.length < 2 ^ 64 :=
  Nat.lt_of_le_of_lt (Nat.le_trans h.le (Nat.sub_le _ _)) (UInt64.toNat_lt _)

theorem InUse.add_mem (h : l.InUse c) {i : Nat} (hi : i < c.length) : c.start + i ∈ c := by
  have := h.length_lt
  rw [Run.mem_iff, Address.distance_add _ (by omega)]
  exact hi

theorem InUse.mem_payloadAround (h : l.InUse c) {a : VirtualAddress} (ha : a ∈ c) :
    a ∈ payloadAround l.system.ram c.start := by
  rw [Run.mem_iff, payloadAround_start]
  exact Nat.lt_of_lt_of_le ha h.le

/-- Bytes of a payload in use are those that another one had. -/
structure Carried (l l' : Ledger) (c c' : Run) : Prop where
  inUse : l'.InUse c'
  le : c'.length ≤ c.length
  bytes : ∀ i < c'.length, l'.system.ram.read (c'.start + i) = l.system.ram.read (c.start + i)

theorem Carried.refl (h : l.InUse c) : Carried l l c c := ⟨h, Nat.le_refl _, fun _ _ => rfl⟩

theorem Carried.trans (h : Carried l l' c c') (h' : Carried l' l'' c' c'') :
    Carried l l'' c c'' :=
  ⟨h'.inUse, Nat.le_trans h'.le h.le,
    fun i hi => (h'.bytes i hi).trans (h.bytes i (Nat.lt_of_lt_of_le hi h'.le))⟩

/-! ## Requests about the payload -/

theorem Relocated.carried {p : VirtualAddress} (h : Relocated map l c.start size p l')
    (hc : l.InUse c) (hp : p ≠ .null) :
    Carried l l' c (c.movedTo size (some p)) := by
  have hfits : min c.length size ≤ Heap.roundUp (max size 1) heapAlign := by
    simp only [Heap.roundUp, heapAlign]
    omega
  refine ⟨⟨?_, hp, ?_⟩, Nat.min_le_left _ _, fun i hi => h.contents i ?_⟩
  · rw [h.live]
    exact List.mem_cons_self
  · rwa [Run.movedTo, h.payload]
  · have := hc.le
    simp only [Run.movedTo] at hi
    omega

/-- A payload that is the same as before has the bytes that it had. -/
theorem SamePayload.carried (hc : l.InUse c) (hlive : c.start ∈ l'.live)
    (h : SamePayload l.system.ram l'.system.ram c.start) : Carried l l' c c := by
  refine ⟨⟨hlive, hc.ne_null, ?_⟩, Nat.le_refl _, fun i hi => ?_⟩
  · have hle := hc.le
    rwa [payloadAround, h.block]
  · exact h.bytes _ (hc.mem_payloadAround (hc.add_mem hi))

theorem Refused.carried (hc : l.InUse c) (h : Refused l l') : Carried l l' c c := by
  refine (h.payloads c.start hc.live).carried hc ?_
  rw [h.live]
  exact hc.live

theorem Balanced.carried_of_reallocate (h : Balanced map total all l fs free live aside)
    (stock : Stock map all) (hmap : frameSize ∣ map.offset.toNat) (hc : l.InUse c) (size : Nat) :
    Carried l (l.perform (.reallocate c.start size)) c
      (l.follow c (.reallocate c.start size)) := by
  have hanswered := h.answered_of_reallocate hc.live hc.ne_null size
  have hcarried : Ends (System.onHeap (Heap.reallocate c.start size)) l.system
      (fun p t => Carried l (l.served (l.without c.start) (some p, t)) c (c.movedTo size (some p)))
      fun _ t => Carried l (l.served (l.without c.start) (none, t)) c c := by
    refine (hanswered.mono (fun _ _ ht => ht) fun _ _ ht => ht.2.carried hc).mono_of_ok ?_
    intro p t hrun ht
    exact ht.carried hc (h.placed_of_reallocate stock hmap hc.live hc.ne_null hrun).ne_null
  rw [follow, if_pos rfl]
  exact Ends.outcome (p := fun r => Carried l (l.served (l.without c.start) r) c
    (c.movedTo size r.1)) hcarried

theorem Balanced.carried_of_reallocLayout (h : Balanced map total all l fs free live aside)
    (stock : Stock map all) (hmap : frameSize ∣ map.offset.toNat) (hc : l.InUse c)
    (layout : Layout) (size : Nat) :
    Carried l (l.perform (.reallocLayout c.start layout size)) c
      (l.follow c (.reallocLayout c.start layout size)) := by
  have hanswered := h.answered_of_reallocLayout hc.live hc.ne_null layout size
  have hcarried : Ends (System.onHeap (Heap.reallocLayout c.start layout size)) l.system
      (fun r t => Carried l (l.served (l.without c.start) (r, t)) c (c.movedTo size r))
      fun _ _ => False := by
    refine hanswered.mono_of_ok fun r t hrun ht => ?_
    cases r with
    | some p =>
      have hplaced := h.placed_of_reallocLayout stock hmap hc.live hc.ne_null hrun
      exact Relocated.carried ht hc hplaced.ne_null
    | none => exact Refused.carried hc ht
  rw [follow, if_pos rfl]
  exact Ends.outcome (p := fun r => Carried l (l.served (l.without c.start) (r.1.join, r.2)) c
    (c.movedTo size r.1.join)) (hcarried.mono (fun _ _ ht => ht) fun _ _ => False.elim)

/-! ## Other requests -/

theorem mem_without {p o : VirtualAddress} (hp : p ∈ l.live) (hne : o ≠ p) : p ∈ l.without o := by
  rw [without]
  split
  · exact hp
  · exact (List.mem_erase_of_ne hne.symm).mpr hp

theorem mem_live_served {p : VirtualAddress} {others : List VirtualAddress} (hp : p ∈ l.live)
    (hothers : p ∈ others) (r : Option VirtualAddress × System) : p ∈ (l.served others r).live := by
  obtain ⟨_ | o, t⟩ := r
  · exact hp
  · exact List.mem_cons_of_mem o hothers

/-- Only the payload that a request gives back leaves those in use. -/
theorem mem_live_perform {p : VirtualAddress} (hp : p ∈ l.live) (hq : q.payload? ≠ some p) :
    p ∈ (l.perform q).live := by
  have hne : ∀ o, q.payload? = some o → o ≠ p := fun o ho heq => hq (heq ▸ ho)
  cases q with
  | free o => exact mem_without hp (hne o rfl)
  | allocate | allocLayout | allocZeroed => exact mem_live_served hp hp _
  | reallocate o | reallocLayout o => exact mem_live_served hp (mem_without hp (hne o rfl)) _
  | _ => exact hp

theorem follow_of_other (hq : q.payload? ≠ some c.start) : l.follow c q = c := by
  have hne : ∀ o, q.payload? = some o → o ≠ c.start := fun o ho heq => hq (heq ▸ ho)
  cases q with
  | reallocate o | reallocLayout o => exact if_neg (hne o rfl)
  | _ => rfl

theorem Undisturbed.samePayload (h : Undisturbed map l q) (hwrite : q.isWrite = false)
    {p : VirtualAddress} (hp : p ∈ l.live) (hq : q.payload? ≠ some p) :
    SamePayload l.system.ram (l.perform q).system.ram p :=
  ⟨congrArg (Run.mk (blockOf p)) (h.sizes hwrite p hp hq), h.payloads hwrite p hp hq⟩

/-- A write changes no header, so payloads are as large as they were. -/
theorem Balanced.inUse_write (h : Balanced map total all l fs free live aside)
    (stock : Stock map all) {a : VirtualAddress} {v : UInt8} (hq : l.Permits (.write a v))
    (hc : l.InUse c) : (l.perform (.write a v)).InUse c := by
  have h' := h.perform_write stock hq
  obtain ⟨b, hb, hstart⟩ := List.mem_map.mp (h.payloads ▸ hc.live)
  refine ⟨hc.live, hc.ne_null, ?_⟩
  have hlen := hc.le
  rw [payloadAround, ← hstart, h.blockAround_eq hb] at hlen
  rwa [payloadAround, ← hstart, h'.blockAround_eq hb]

theorem Balanced.carried_write (h : Balanced map total all l fs free live aside)
    (stock : Stock map all) {a : VirtualAddress} {v : UInt8} (hq : l.Permits (.write a v))
    (hc : l.InUse c) (ha : a ∉ c) : Carried l (l.perform (.write a v)) c c := by
  refine ⟨h.inUse_write stock hq hc, Nat.le_refl _, fun i hi => ?_⟩
  exact l.system.ram.onlyChanges_write a v _ fun heq => ha (heq ▸ hc.add_mem hi)

/-! ## Any request -/

/-- Unless a client writes, whatever is asked for carries the first bytes of a payload that is not
freed along. -/
theorem Sound.carried_of_not_write (h : Sound map total all l) (stock : Stock map all)
    (hmap : frameSize ∣ map.offset.toNat) (hq : l.Permits q) (hwrite : q.isWrite = false)
    (hc : l.InUse c) (hkeeps : q.Keeps c) : Carried l (l.perform q) c (l.follow c q) := by
  obtain ⟨fs, free, live, aside, h⟩ := h
  by_cases hgiven : q.payload? = some c.start
  · cases q with
    | free p => exact absurd (Option.some.inj hgiven) hkeeps
    | reallocate p size =>
      cases hgiven
      exact h.carried_of_reallocate stock hmap hc size
    | reallocLayout p layout size =>
      cases hgiven
      exact h.carried_of_reallocLayout stock hmap hc layout size
    | _ => cases hgiven
  · rw [follow_of_other hgiven]
    have hsame := (h.undisturbed stock hq).samePayload hwrite hc.live hgiven
    exact hsame.carried hc (mem_live_perform hc.live hgiven)

theorem Sound.inUse_perform (h : Sound map total all l) (stock : Stock map all)
    (hmap : frameSize ∣ map.offset.toNat) (hq : l.Permits q) (hc : l.InUse c)
    (hkeeps : q.Keeps c) : (l.perform q).InUse (l.follow c q) := by
  cases hwrite : q.isWrite with
  | false => exact (h.carried_of_not_write stock hmap hq hwrite hc hkeeps).inUse
  | true =>
    cases q with
    | write a v =>
      obtain ⟨fs, free, live, aside, h⟩ := h
      exact h.inUse_write stock hq hc
    | _ => cases hwrite

theorem Sound.carried_perform (h : Sound map total all l) (stock : Stock map all)
    (hmap : frameSize ∣ map.offset.toNat) (hq : l.Permits q) (hc : l.InUse c)
    (hspares : q.Spares c) : Carried l (l.perform q) c (l.follow c q) := by
  cases hwrite : q.isWrite with
  | false => exact h.carried_of_not_write stock hmap hq hwrite hc hspares.keeps
  | true =>
    cases q with
    | write a v =>
      obtain ⟨fs, free, live, aside, h⟩ := h
      exact h.carried_write stock hq hc hspares
    | _ => cases hwrite

/-! ## Runs -/

/-- The first bytes of a payload stay the first ones of a payload in use, whatever is written. -/
theorem Sound.inUse_performAll (h : Sound map total all l) (stock : Stock map all)
    (hmap : frameSize ∣ map.offset.toNat) {requests : List Request} (hq : l.PermitsAll requests)
    (hc : l.InUse c) (hkeeps : l.Throughout Request.Keeps c requests) :
    (l.performAll requests).InUse (l.followAll c requests) := by
  induction requests generalizing l c with
  | nil => exact hc
  | cons q rest ih =>
    exact ih (h.perform stock hq.1) hq.2 (h.inUse_perform stock hmap hq.1 hc hkeeps.1) hkeeps.2

/-- They stay what they are as well if nobody writes to them. -/
theorem Sound.carried_performAll (h : Sound map total all l) (stock : Stock map all)
    (hmap : frameSize ∣ map.offset.toNat) {requests : List Request} (hq : l.PermitsAll requests)
    (hc : l.InUse c) (hspares : l.Throughout Request.Spares c requests) :
    Carried l (l.performAll requests) c (l.followAll c requests) := by
  induction requests generalizing l c with
  | nil => exact .refl hc
  | cons q rest ih =>
    have hfirst := h.carried_perform stock hmap hq.1 hc hspares.1
    exact hfirst.trans (ih (h.perform stock hq.1) hq.2 hfirst.inUse hspares.2)

/-- The first `size` bytes of a payload that was allocated are in use. -/
theorem Balanced.inUse_of_allocate (h : Balanced map total all l fs free live aside)
    (stock : Stock map all) (hmap : frameSize ∣ map.offset.toNat) {p : VirtualAddress} {t : System}
    (hrun : System.onHeap (Heap.allocate size) l.system = .ok p t) :
    (l.perform (.allocate size)).InUse ⟨p, size⟩ := by
  have hperform : l.perform (.allocate size) = l.served l.live (some p, t) := by
    rw [perform, outcome, hrun]
  have hlength : Ends (System.onHeap (Heap.allocate size)) l.system
      (fun p t => size ≤ (payloadAround t.ram p).length) fun _ _ => True := by
    refine Ends.onPart ((h.heap.allocate size).mono ?_ fun _ _ _ => trivial)
    intro p t ht
    obtain ⟨b, free', k, aside', -, hblock, hb, -⟩ := ht.provided.exists_block
    rw [h.shared.ram_setHeapStore, payloadAround, hblock, Run.drop, hb]
    simp only [Heap.roundUp, heapAlign]
    omega
  rw [hperform]
  exact ⟨List.mem_cons_self, (h.placed_of_allocate stock hmap hrun).ne_null, hlength.of_ok hrun⟩

/-- What reallocating does to payloads in use. -/
structure Relocates (map : DirectMap) (l : Ledger) : Prop where
  /-- Reallocating null is allocating. -/
  null : ∀ size, Heap.reallocate .null size = Heap.allocate size
  /-- Any other payload in use is moved, or there is an error and it stays where it is. -/
  moves : ∀ p ∈ l.live, p ≠ .null → ∀ size,
    Ends (System.onHeap (Heap.reallocate p size)) l.system
      (fun q t => Relocated map l p size q (l.served (l.without p) (some q, t)))
      fun stop t => (∃ e, stop = .error e) ∧ Refused l (l.served (l.without p) (none, t))
  /-- It is moved just in case as much could be allocated, and to where that would be. -/
  moves_iff : ∀ p ∈ l.live, p ≠ .null → ∀ size q,
    (∃ t, System.onHeap (Heap.reallocate p size) l.system = .ok q t) ↔
      ∃ t, System.onHeap (Heap.allocate size) l.system = .ok q t
  /-- By layout the same holds, but there is never an error. -/
  movesByLayout : ∀ p ∈ l.live, p ≠ .null → ∀ layout size,
    Ends (System.onHeap (Heap.reallocLayout p layout size)) l.system
      (fun q t => Answered map l p size q (l.served (l.without p) (q, t))) fun _ _ => False
  /-- It is moved if the heap serves the alignment. -/
  movesByLayout_iff : ∀ p ∈ l.live, p ≠ .null → ∀ layout size q,
    (∃ t, System.onHeap (Heap.reallocLayout p layout size) l.system = .ok (some q) t) ↔
      layout.isServed = true ∧ ∃ t, System.onHeap (Heap.allocate size) l.system = .ok q t

/-- What becomes of payloads in use if the direct map keeps pages aligned. -/
structure Preserves (l : Ledger) : Prop where
  /-- A payload is moved to where a payload can be, so that it can be moved again. -/
  placed : ∀ p ∈ l.live, p ≠ .null → ∀ size q t,
    System.onHeap (Heap.reallocate p size) l.system = .ok q t → Placed q
  placedByLayout : ∀ p ∈ l.live, p ≠ .null → ∀ layout size q t,
    System.onHeap (Heap.reallocLayout p layout size) l.system = .ok (some q) t → Placed q
  /-- What is in a payload that was allocated survives all reallocations, as far as it fits. -/
  survives : ∀ size p t, System.onHeap (Heap.allocate size) l.system = .ok p t → ∀ before after,
    (l.perform (.allocate size)).PermitsAll before →
    (l.perform (.allocate size)).Throughout Request.Keeps ⟨p, size⟩ before →
    let written := (l.perform (.allocate size)).performAll before
    let c := (l.perform (.allocate size)).followAll ⟨p, size⟩ before
    written.PermitsAll after → written.Throughout Request.Spares c after →
    Carried written (written.performAll after) c (written.followAll c after)

/-- In every state of a heap, payloads are moved as `Relocates` says. Under an offset of the direct
map that is a multiple of the frame size, what is in them is preserved along all moves. -/
theorem Reached.relocates {memoryMaps : List (List Region)} {requests : List Request}
    (h : Reached map memoryMaps requests l) :
    Relocates map l ∧ (frameSize ∣ map.offset.toNat → Preserves l) := by
  obtain ⟨stock, fs, free, live, aside, hbalanced⟩ := h.sound
  have hsound : Sound map _ _ l := ⟨fs, free, live, aside, hbalanced⟩
  constructor
  · constructor
    case null => exact Heap.reallocate_null
    case moves => exact fun p hp hnull size => hbalanced.answered_of_reallocate hp hnull size
    case moves_iff => exact fun p hp hnull size q => hbalanced.reallocate_eq_ok_iff hp hnull size q
    case movesByLayout =>
      exact fun p hp hnull layout size => hbalanced.answered_of_reallocLayout hp hnull layout size
    case movesByLayout_iff =>
      exact fun p hp hnull layout size q =>
        hbalanced.reallocLayout_eq_ok_iff hp hnull layout size q
  · intro hmap
    constructor
    case placed =>
      exact fun p hp hnull size q t hrun => hbalanced.placed_of_reallocate stock hmap hp hnull hrun
    case placedByLayout =>
      exact fun p hp hnull layout size q t hrun =>
        hbalanced.placed_of_reallocLayout stock hmap hp hnull hrun
    case survives =>
      intro size p t hrun before after hbefore hkeeps written c hafter hspares
      have hallocated := hsound.perform stock (q := .allocate size) trivial
      have hc := hallocated.inUse_performAll stock hmap hbefore
        (hbalanced.inUse_of_allocate stock hmap hrun) hkeeps
      exact (hallocated.performAll stock hbefore).carried_performAll stock hmap hafter hc hspares

/-- Of three bytes that are written to a fresh payload, two are left after it was moved into frames
that the heap takes for it and then back in front of where it came from. -/
theorem relocates_three_bytes :
    let map : DirectMap := ⟨0xffff800000000000⟩
    let memoryMaps : List (List Region) := [[⟨⟨0x1000⟩, 0xc000, .usable⟩]]
    let requests : List Request := [.initHeap 0x1000, .allocate 40]
    let l := (filled map memoryMaps (.uniform 0xaa) (.empty none)).performAll requests
    let p : VirtualAddress := ⟨0xffff800000001050⟩
    let q : VirtualAddress := ⟨0xffff800000002010⟩
    let written := (l.perform (.allocate 3)).performAll
      [.write p 0x30, .write (p + 1) 0x31, .write (p + 2) 0x32]
    let after : List Request := [.reallocate p 5000, .free ⟨0xffff800000001010⟩, .reallocate q 2]
    Reached map memoryMaps requests l ∧ Relocates map l ∧ Preserves l ∧
      (written.followAll ⟨p, 3⟩ after).length = 2 ∧
      Carried written (written.performAll after) ⟨p, 3⟩ (written.followAll ⟨p, 3⟩ after) := by
  intro map memoryMaps requests l p q written after
  have hl : Reached map memoryMaps requests l :=
    ⟨by decide, .uniform 0xaa, .empty none, by decide +kernel, rfl⟩
  obtain ⟨hrelocates, haligned⟩ := Reached.relocates hl
  have hpreserves := haligned (by decide)
  obtain ⟨p', t, hrun, rfl⟩ : ∃ p' t,
      System.onHeap (Heap.allocate 3) l.system = .ok p' t ∧ p' = p := Ends.exists_ok (by decide +kernel)
  refine ⟨hl, hrelocates, hpreserves, by decide +kernel, ?_⟩
  exact hpreserves.survives 3 p t hrun [.write p 0x30, .write (p + 1) 0x31,
    .write (p + 2) 0x32] after (by decide +kernel) (by decide +kernel) (by decide +kernel)
    (by decide +kernel)

end Ledger

end PagedMemory
