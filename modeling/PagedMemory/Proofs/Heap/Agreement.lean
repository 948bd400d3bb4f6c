import PagedMemory.Proofs.Frame.Agreement
import PagedMemory.Proofs.Heap.Operations
/-!
# Heaps that agree

A heap decides by its blocks, by the free frames of its pool and by its counters, and all of these
are known from what it has written itself. Two heaps that agree on them therefore give the same
results and go on agreeing, whatever else is in their memories: what was there before, what is left
in free blocks and frames, and what clients wrote to their payloads.
-/
namespace PagedMemory

open FreeList

/-- Lists that link the same blocks start at the same address. -/
theorem FreeList.Linked.first_eq {m m' : Ram} {a a' : VirtualAddress} {bs : List Run}
    (h : Linked m a bs) (h' : Linked m' a' bs) : a' = a := by
  cases bs with
  | nil => exact Eq.trans h' (Eq.symm h)
  | cons b bs => exact h'.1.trans h.1.symm

namespace Heap

variable {s s' t t' : HeapStore} {fs : List Frame} {free live aside aside' : List Run}
variable {arena arena' : List Frame} {size : Nat} {b : Run}

theorem SameSetup.symm (h : SameSetup s t) : SameSetup t s :=
  ⟨h.map.symm, h.total.symm, h.attached.symm⟩

/-- Two heaps with the same counters, the same free frames and the same blocks, some of which are
live. -/
structure Alike (live : List Run) (s s' : HeapStore) : Prop where
  setup : SameSetup s s'
  counts : SameCounts s s'
  blocks : ∃ fs free, (∃ aside arena, Holds s fs free live aside arena) ∧
    ∃ aside arena, Holds s' fs free live aside arena

/-- Two heaps that just gave a payload of at least `size` bytes: it is that of a new live block. -/
def Gave (live : List Run) (size : Nat) (p : VirtualAddress) (s s' : HeapStore) : Prop :=
  ∃ b, p = payloadOf b.start ∧ headerSize + size ≤ b.length ∧ Alike (b :: live) s s'

/-- Two heaps that refused a request: with an error, never with a fault. -/
def Refused (live : List Run) : Stop HeapError → HeapStore → HeapStore → Prop
  | .error _ => Alike live
  | .fault _ => fun _ _ => False

theorem Refused.alike {e : Stop HeapError} (h : Refused live e s s') : Alike live s s' := by
  cases e with
  | error e => exact h
  | fault f => exact h.elim

/-- Two heaps that gave a payload, or refused to and have the blocks `kept`. -/
def GaveIf (live kept : List Run) (size : Nat) :
    Option VirtualAddress → HeapStore → HeapStore → Prop
  | some p => Gave live size p
  | none => Alike kept

/-- A request that one heap serves is not refused by another one with the same frames and blocks. -/
theorem Allocated.not_refused {p : VirtualAddress} {stop : Stop HeapError}
    (h : Allocated s fs free live aside arena size p t) (hattached : s'.heap.attached = true)
    (hmap : s'.store.frames.map = s.store.frames.map) :
    ¬ NotAllocated s' fs free live aside' arena' size stop t' := by
  obtain ⟨payload, pre, b, post, u, hp, -, hsplit, -, hb, -, -⟩ := h
  rintro (⟨-, hdetached, -⟩ | ⟨-, -, -, hsmall⟩)
  · exact nomatch hattached.symm.trans hdetached
  · refine absurd (hsmall payload hp b ?_) (Nat.not_lt.mpr hb)
    rw [hmap, hsplit]
    exact List.mem_append_right pre List.mem_cons_self

namespace Alike

/-! ## What is the same -/

theorem pools (h : Alike live s s') : FramePool.Alike s.store s'.store := by
  obtain ⟨fs, free, ⟨_, _, hs⟩, _, _, hs'⟩ := h.blocks
  exact .of_holds hs.pool hs'.pool h.setup.map h.setup.total

theorem heap_eq (h : Alike live s s') : s'.heap = s.heap := by
  obtain ⟨fs, free, ⟨_, _, hs⟩, _, _, hs'⟩ := h.blocks
  obtain ⟨⟨⟨first⟩, attached, expansions, arenaBytes⟩, store⟩ := s
  obtain ⟨⟨⟨first'⟩, attached', expansions', arenaBytes'⟩, store'⟩ := s'
  have hfirst : first' = first := Linked.first_eq hs.carved.linked hs'.carved.linked
  cases hfirst
  cases h.setup.attached
  cases h.counts.1
  cases h.counts.2
  rfl

theorem runs_eq (h : Alike live s s') :
    s'.heap.list.runs s'.store.ram = s.heap.list.runs s.store.ram := by
  obtain ⟨fs, free, ⟨_, _, hs⟩, _, _, hs'⟩ := h.blocks
  exact hs'.carved.runs_eq.trans hs.carved.runs_eq.symm

theorem blockSize_eq (h : Alike live s s') (hb : b ∈ live) :
    s'.store.ram.blockSize b.start = s.store.ram.blockSize b.start := by
  obtain ⟨fs, free, ⟨_, _, hs⟩, _, _, hs'⟩ := h.blocks
  exact (hs'.carved.recorded b hb).trans (hs.carved.recorded b hb).symm

/-- The usable bytes of a live block are read off the header that the heap wrote. -/
theorem payloadSizes_eq (h : Alike live s s') (hb : b ∈ live) :
    payloadSize s.store.ram (payloadOf b.start) = .ok (b.length - headerSize) ∧
      payloadSize s'.store.ram (payloadOf b.start) = .ok (b.length - headerSize) := by
  obtain ⟨fs, free, ⟨_, _, hs⟩, _, _, hs'⟩ := h.blocks
  exact ⟨payloadSize_eq (hs.carved.recorded b hb) (hs.carved.header_le (by simp [hb])),
    payloadSize_eq (hs'.carved.recorded b hb) (hs'.carved.header_le (by simp [hb]))⟩

theorem length_lt (h : Alike live s s') (hb : b ∈ live) : b.length < 2 ^ 64 := by
  obtain ⟨fs, free, ⟨_, _, hs⟩, -⟩ := h.blocks
  exact hs.carved.length_lt (by simp [hb])

/-- The order in which live blocks are named does not matter. -/
theorem live_perm (h : Alike live s s') {live' : List Run} (hp : live.Perm live') :
    Alike live' s s' := by
  obtain ⟨fs, free, ⟨_, _, hs⟩, _, _, hs'⟩ := h.blocks
  exact ⟨h.setup, h.counts, fs, free, ⟨_, _, hs.live_perm hp⟩, _, _, hs'.live_perm hp⟩

theorem with_log (h : Alike live s s') (log log' : Log) :
    Alike live { s with store := { s.store with log } }
      { s' with store := { s'.store with log := log' } } := by
  obtain ⟨fs, free, ⟨_, _, hs⟩, _, _, hs'⟩ := h.blocks
  exact ⟨⟨h.setup.map, h.setup.total, h.setup.attached⟩, h.counts, fs, free,
    ⟨_, _, hs.pool, hs.carved, hs.apart, hs.room⟩, _, _, hs'.pool, hs'.carved, hs'.apart, hs'.room⟩

/-- What is written to the payload of a live block may be different things. -/
theorem write_payload (h : Alike (b :: live) s s') {p p' : VirtualAddress → Prop} {m m' : Ram}
    (hm : s.store.ram.OnlyChanges p m) (hm' : s'.store.ram.OnlyChanges p' m')
    (hp : ∀ a, p a → a ∈ b.drop headerSize) (hp' : ∀ a, p' a → a ∈ b.drop headerSize) :
    Alike (b :: live) { s with store := { s.store with ram := m } }
      { s' with store := { s'.store with ram := m' } } := by
  obtain ⟨fs, free, ⟨_, _, hs⟩, _, _, hs'⟩ := h.blocks
  exact ⟨⟨h.setup.map, h.setup.total, h.setup.attached⟩, h.counts, fs, free,
    ⟨_, _, hs.write_payload hm hp⟩, _, _, hs'.write_payload hm' hp'⟩

/-! ## Growing and taking -/

/-- Growing by the same number of frames. -/
theorem grew (h : Alike live s s') {k : Nat} (hg : Grew s t k fs free live aside arena)
    (hg' : Grew s' t' k fs free live aside' arena') : Alike live t t' := by
  refine ⟨(hg.setup.symm.trans h.setup).trans hg'.setup, ⟨?_, ?_⟩, ?_⟩
  · rw [hg'.expansions, hg.expansions, h.counts.1]
  · rw [hg'.arenaBytes, hg.arenaBytes, h.counts.2]
  · have hholds := hg'.holds
    rw [h.setup.map] at hholds
    exact ⟨_, _, ⟨_, _, hg.holds⟩, _, _, hholds⟩

/-- Taking the same block. -/
theorem took (h : Alike live s s') {payload : Nat} {pre post : List Run}
    (ht : Took s t payload fs pre b post live aside arena)
    (ht' : Took s' t' payload fs pre b post live aside' arena') :
    Alike (b.take (headerSize + payload) :: live) t t' :=
  ⟨(ht.setup.symm.trans h.setup).trans ht'.setup,
    ⟨(ht'.counts.1.trans h.counts.1).trans ht.counts.1.symm,
      (ht'.counts.2.trans h.counts.2).trans ht.counts.2.symm⟩,
    _, _, ⟨_, _, ht.holds⟩, _, _, ht'.holds⟩

theorem expand (h : Alike live s s') (n : Nat) :
    Agree (Heap.expand n s) (Heap.expand n s') (fun _ => Alike live) (fun _ _ _ => False) := by
  obtain ⟨fs, free, ⟨_, _, hs⟩, _, _, hs'⟩ := h.blocks
  cases hattached : s.heap.attached with
  | false =>
    have hattached' : s'.heap.attached = false := h.setup.attached.trans hattached
    exact .of_ok (expand_of_not_attached hattached n) (expand_of_not_attached hattached' n) h
  | true =>
    obtain ⟨t, ht, hg⟩ := hs.expand hattached n
    obtain ⟨t', ht', hg'⟩ := hs'.expand (h.setup.attached.trans hattached) n
    exact .of_ok ht ht' (h.grew hg hg')

/-- The first block that is large enough is the same one, and so is the need to grow before. -/
theorem allocated (h : Alike live s s') {p p' : VirtualAddress}
    (ha : Allocated s fs free live aside arena size p t)
    (ha' : Allocated s' fs free live aside' arena' size p' t') :
    p = p' ∧ Gave live size p t t' := by
  obtain ⟨payload, pre, b, post, u, hp, rfl, hsplit, hpre, hb, hu, ht⟩ := ha
  obtain ⟨payload', pre', b', post', u', hp', rfl, hsplit', hpre', hb', hu', ht'⟩ := ha'
  cases hp.symm.trans hp'
  rw [h.setup.map] at hsplit'
  obtain ⟨rfl, rfl, rfl⟩ := first_fit_unique (hsplit.symm.trans hsplit') hpre hb hpre' hb'
  have hle := le_of_payloadFor hp
  refine ⟨rfl, b.take (headerSize + payload), rfl, ?_, (h.grew hu hu').took ht ht'⟩
  change headerSize + size ≤ headerSize + payload
  omega

/-- A request is refused by both heaps, for the same reason. -/
theorem not_allocated (h : Alike live s s') {e e' : Stop HeapError}
    (hn : NotAllocated s fs free live aside arena size e t)
    (hn' : NotAllocated s' fs free live aside' arena' size e' t') :
    e = e' ∧ Refused live e t t' := by
  rcases hn with ⟨rfl, hdetached, rfl⟩ | ⟨rfl, hattached, hg, -⟩
  · rcases hn' with ⟨rfl, -, rfl⟩ | ⟨-, hattached', -⟩
    · exact ⟨rfl, h⟩
    · exact nomatch (h.setup.attached.trans hdetached).symm.trans hattached'
  · rcases hn' with ⟨-, hdetached', -⟩ | ⟨rfl, -, hg', -⟩
    · exact nomatch (h.setup.attached.trans hattached).symm.trans hdetached'
    · exact ⟨rfl, h.grew hg hg'⟩

theorem allocate (h : Alike live s s') (size : Nat) :
    Agree (Heap.allocate size s) (Heap.allocate size s') (Gave live size) (Refused live) := by
  obtain ⟨fs, free, ⟨aside, arena, hs⟩, aside', arena', hs'⟩ := h.blocks
  cases hattached : s.heap.attached with
  | false =>
    have hattached' : s'.heap.attached = false := h.setup.attached.trans hattached
    exact .of_error (allocate_of_detached hattached size) (allocate_of_detached hattached' size) h
  | true =>
    have hattached' : s'.heap.attached = true := h.setup.attached.trans hattached
    refine .of_ends (hs.allocate size) (hs'.allocate size)
      (fun _ _ _ _ ha ha' => h.allocated ha ha') (fun _ _ _ _ hn hn' => h.not_allocated hn hn')
      ?_ ?_
    -- whether any block is large enough does not depend on the heap either
    · intro p t e t' ha hn
      exact absurd hn (ha.not_refused hattached' h.setup.map)
    · intro e t p t' hn ha
      exact absurd hn (ha.not_refused hattached h.setup.map.symm)

/-! ## Setting up and freeing -/

theorem init (h : Alike live s s') (bytes : Nat) :
    Agree (Heap.init bytes s) (Heap.init bytes s') (fun _ => Alike live) (Refused live) := by
  rw [Heap.init]
  cases hattached : s.heap.attached with
  | true =>
    have hattached' : s'.heap.attached = true := h.setup.attached.trans hattached
    simp only [Agree.get_bind_iff, hattached, hattached', if_true, Agree.fail_bind_iff]
    exact h
  | false =>
    have hattached' : s'.heap.attached = false := h.setup.attached.trans hattached
    simp only [Agree.get_bind_iff, hattached, hattached', Bool.false_eq_true, if_false,
      Agree.modify_bind_iff]
    have hset : Alike live { s with heap := { s.heap with attached := true } }
        { s' with heap := { s'.heap with attached := true } } := by
      obtain ⟨fs, free, ⟨_, _, hs⟩, _, _, hs'⟩ := h.blocks
      exact ⟨⟨h.setup.map, h.setup.total, rfl⟩, h.counts, fs, free,
        ⟨_, _, hs.pool, hs.carved, hs.apart, hs.room⟩,
        _, _, hs'.pool, hs'.carved, hs'.apart, hs'.room⟩
    split
    · exact Agree.pure_iff.mpr hset
    · refine Agree.bind (Agree.ofStep ((hset.expand _).mono (fun _ _ _ ht => ht)
        fun _ _ _ => False.elim)) ?_
      intro got t t' ht
      split
      · exact ⟨rfl, ht.with_log _ _⟩
      · exact ⟨rfl, ht.with_log _ _⟩

theorem releaseBlock {ε : Type} (h : Alike (b :: live) s s') :
    Agree (Heap.releaseBlock (ε := ε) (payloadOf b.start) s)
      (Heap.releaseBlock (ε := ε) (payloadOf b.start) s') (fun _ => Alike live)
      (fun _ _ _ => False) := by
  obtain ⟨fs, free, ⟨_, _, hs⟩, _, _, hs'⟩ := h.blocks
  obtain ⟨t, hrelease, hsetup, hcounts, ht, -⟩ := hs.releaseBlock (ε := ε)
  obtain ⟨t', hrelease', hsetup', hcounts', ht', -⟩ := hs'.releaseBlock (ε := ε)
  refine .of_ok hrelease hrelease' ⟨(hsetup.symm.trans h.setup).trans hsetup',
    ⟨?_, ?_⟩, _, _, ⟨_, _, ht⟩, _, _, ht'⟩
  · exact (hcounts'.1.trans h.counts.1).trans hcounts.1.symm
  · exact (hcounts'.2.trans h.counts.2).trans hcounts.2.symm

theorem free_null (h : Alike live s s') :
    Agree (Heap.free .null s) (Heap.free .null s') (fun _ => Alike live) (fun _ _ _ => False) :=
  .of_ok rfl rfl h

theorem free_block (h : Alike (b :: live) s s') (hnull : payloadOf b.start ≠ .null) :
    Agree (Heap.free (payloadOf b.start) s) (Heap.free (payloadOf b.start) s')
      (fun _ => Alike live) (fun _ _ _ => False) := by
  have hn := (Address.isNull_eq_false_iff _).mpr hnull
  rw [Heap.free, hn]
  exact h.releaseBlock

/-! ## Reallocating -/

theorem reallocate_null (h : Alike live s s') (size : Nat) :
    Agree (Heap.reallocate .null size s) (Heap.reallocate .null size s') (Gave live size)
      (Refused live) := by
  rw [Heap.reallocate]
  exact Agree.bind (h.allocate size) fun p t t' ht => ⟨rfl, ht⟩

/-- The contents that are moved may differ, but not how many bytes they are nor where they go. -/
theorem reallocate_block (h : Alike (b :: live) s s') (hnull : payloadOf b.start ≠ .null)
    (size : Nat) :
    Agree (Heap.reallocate (payloadOf b.start) size s)
      (Heap.reallocate (payloadOf b.start) size s') (Gave live size)
      (Refused (b :: live)) := by
  have hn := (Address.isNull_eq_false_iff _).mpr hnull
  rw [Heap.reallocate]
  refine Agree.bind (h.allocate size) ?_
  rintro q u u' ⟨c, rfl, hc, hu⟩
  obtain ⟨hsize, hsize'⟩ := hu.payloadSizes_eq (b := b) (by simp)
  have hlen := hu.length_lt (b := c) (by simp)
  simp only [hn, Bool.false_eq_true, if_false, Agree.get_bind_iff, hsize, hsize',
    Agree.check_ok_bind_iff]
  set n := min (b.length - headerSize) size
  have hle : headerSize + n ≤ c.length := by
    have : n ≤ size := Nat.min_le_right _ _
    omega
  have hn64 : n ≤ 2 ^ 64 := by omega
  have hcopied := hu.write_payload
    (u.store.ram.onlyChanges_copy (payloadOf b.start) (payloadOf c.start) hn64)
    (u'.store.ram.onlyChanges_copy (payloadOf b.start) (payloadOf c.start) hn64)
    (fun a ha => mem_payload hle ha) fun a ha => mem_payload hle ha
  refine Agree.bind_of_ok (onStore_of_ok (show Store.updateRam _ u.store = .ok () _ from rfl))
    (onStore_of_ok (show Store.updateRam _ u'.store = .ok () _ from rfl)) ?_
  refine Agree.bind ((hcopied.live_perm (.swap b c live)).releaseBlock.mono
    (fun _ _ _ ht => ht) fun _ _ _ => False.elim) ?_
  intro _ t t' ht
  exact ⟨rfl, c, rfl, hc, ht⟩

/-! ## By layout -/

theorem allocLayout (h : Alike live s s') (layout : Layout) :
    Agree (Heap.allocLayout layout s) (Heap.allocLayout layout s')
      (GaveIf live live layout.size) (fun _ _ _ => False) := by
  rw [Heap.allocLayout]
  split
  · refine Agree.toOption ((h.allocate layout.size).mono (fun _ _ _ ht => ht) ?_)
    rintro (_ | _) t t' ht <;> exact ht
  · exact ⟨rfl, h⟩

theorem allocZeroed (h : Alike live s s') (layout : Layout) :
    Agree (Heap.allocZeroed layout s) (Heap.allocZeroed layout s')
      (GaveIf live live layout.size) (fun _ _ _ => False) := by
  rw [Heap.allocZeroed]
  refine Agree.bind (h.allocLayout layout) ?_
  rintro (_ | p) t t' ht
  · exact ⟨rfl, ht⟩
  · obtain ⟨b, rfl, hle, ht⟩ := ht
    refine Agree.bind_of_ok (onStore_of_ok (show Store.updateRam _ t.store = .ok () _ from rfl))
      (onStore_of_ok (show Store.updateRam _ t'.store = .ok () _ from rfl)) ?_
    refine ⟨rfl, b, rfl, hle, ht.write_payload (t.store.ram.onlyChanges_fill _ _ _)
      (t'.store.ram.onlyChanges_fill _ _ _) ?_ ?_⟩
    · exact fun a ha => mem_payload hle ha
    · exact fun a ha => mem_payload hle ha

theorem reallocLayout_null (h : Alike live s s') (layout : Layout) (size : Nat) :
    Agree (Heap.reallocLayout .null layout size s) (Heap.reallocLayout .null layout size s')
      (GaveIf live live size) (fun _ _ _ => False) := by
  rw [Heap.reallocLayout]
  split
  · refine Agree.toOption ((h.reallocate_null size).mono (fun _ _ _ ht => ht) ?_)
    rintro (_ | _) t t' ht <;> exact ht
  · exact ⟨rfl, h⟩

theorem reallocLayout_block (h : Alike (b :: live) s s') (hnull : payloadOf b.start ≠ .null)
    (layout : Layout) (size : Nat) :
    Agree (Heap.reallocLayout (payloadOf b.start) layout size s)
      (Heap.reallocLayout (payloadOf b.start) layout size s') (GaveIf live (b :: live) size)
      (fun _ _ _ => False) := by
  rw [Heap.reallocLayout]
  split
  · refine Agree.toOption ((h.reallocate_block hnull size).mono (fun _ _ _ ht => ht) ?_)
    rintro (_ | _) t t' ht <;> exact ht
  · exact ⟨rfl, h⟩

end Alike

end Heap

end PagedMemory
