import PagedMemory.Proofs.Heap.Blocks
/-!
# The list of free blocks

The list runs through the headers of its blocks: `Segment` follows it from one address to another,
`Linked` to its end. Each operation on the list is described by what it does to the blocks on it,
together with a bound on the memory that it writes: headers of blocks that were on the list before,
and of the block that it puts there.
-/
namespace PagedMemory

namespace Ram

variable {m n : Ram} {b : VirtualAddress} {p : VirtualAddress → Prop}

/-! ## Headers -/

theorem mem_header_of_size {r : Run} {a : VirtualAddress} (h : r.start.distance a < 8) :
    a ∈ r.header := Nat.lt_trans h (show 8 < headerSize by decide)

theorem mem_header_of_next {r : Run} {a : VirtualAddress} (h : (r.start + 8).distance a < 8) :
    a ∈ r.header := by
  have := Address.distance_of_add (a := r.start) (b := a) (n := 8) (by omega)
  change r.start.distance a < 16
  omega

theorem onlyChanges_setBlockSize (m : Ram) (r : Run) (size : Nat) :
    m.OnlyChanges (· ∈ r.header) (m.setBlockSize r.start size) :=
  (m.onlyChanges_writeWord _ _).mono fun _ => mem_header_of_size

theorem onlyChanges_setBlockNext (m : Ram) (r : Run) (next : VirtualAddress) :
    m.OnlyChanges (· ∈ r.header) (m.setBlockNext r.start next) :=
  (m.onlyChanges_writeWord _ _).mono fun _ => mem_header_of_next

theorem onlyChanges_setHeader (m : Ram) (r : Run) (size : Nat) (next : VirtualAddress) :
    m.OnlyChanges (· ∈ r.header) (m.setHeader r.start size next) :=
  (m.onlyChanges_setBlockSize r size).trans (onlyChanges_setBlockNext _ r next)

theorem blockSize_congr (h : m.OnlyChanges p n) {r : Run} (hp : ∀ a, a ∈ r.header → ¬ p a) :
    n.blockSize r.start = m.blockSize r.start :=
  congrArg UInt64.toNat (h.readWord_eq fun a ha => hp a (mem_header_of_size ha))

theorem blockNext_congr (h : m.OnlyChanges p n) {r : Run} (hp : ∀ a, a ∈ r.header → ¬ p a) :
    n.blockNext r.start = m.blockNext r.start :=
  congrArg Address.mk (h.readWord_eq fun a ha => hp a (mem_header_of_next ha))

theorem blockSize_setBlockSize (m : Ram) (b : VirtualAddress) {size : Nat} (h : size < 2 ^ 64) :
    (m.setBlockSize b size).blockSize b = size := by
  rw [blockSize, setBlockSize, readWord_writeWord, UInt64.toNat_ofNat', Nat.mod_eq_of_lt h]

theorem blockNext_setBlockNext (m : Ram) (b next : VirtualAddress) :
    (m.setBlockNext b next).blockNext b = next := by
  rw [blockNext, setBlockNext, readWord_writeWord]

theorem blockSize_setBlockNext (m : Ram) (b next : VirtualAddress) :
    (m.setBlockNext b next).blockSize b = m.blockSize b := by
  refine congrArg UInt64.toNat (readWord_congr _ fun a ha => read_writeWord_of_le _ _ _ _ ?_)
  have := Address.distance_add_of_lt b a ha (by omega)
  omega

theorem blockSize_setHeader (m : Ram) (b next : VirtualAddress) {size : Nat} (h : size < 2 ^ 64) :
    (m.setHeader b size next).blockSize b = size := by
  rw [setHeader, blockSize_setBlockNext, blockSize_setBlockSize m b h]

theorem blockNext_setHeader (m : Ram) (b next : VirtualAddress) (size : Nat) :
    (m.setHeader b size next).blockNext b = next := blockNext_setBlockNext _ b next

end Ram

namespace FreeList

/-- The blocks on the way along the links from one address to another. -/
def Segment (m : Ram) : VirtualAddress → List Run → VirtualAddress → Prop
  | a, [], z => a = z
  | a, b :: bs, z =>
    a = b.start ∧ a ≠ .null ∧ m.blockSize a = b.length ∧ Segment m (m.blockNext a) bs z

/-- The blocks that a list links together from an address on, in order; its end is null. -/
def Linked (m : Ram) (a : VirtualAddress) (bs : List Run) : Prop := Segment m a bs .null

variable {m n : Ram} {a z : VirtualAddress} {bs : List Run} {b : Run}

theorem Segment.start_ne_null (h : Segment m a bs z) : ∀ b ∈ bs, b.start ≠ .null := by
  induction bs generalizing a with
  | nil => simp
  | cons c bs ih =>
    obtain ⟨ha, hn, -, hl⟩ := h
    rw [List.forall_mem_cons]
    exact ⟨ha ▸ hn, ih hl⟩

theorem segment_append {xs ys : List Run} :
    Segment m a (xs ++ ys) z ↔ ∃ y, Segment m a xs y ∧ Segment m y ys z := by
  induction xs generalizing a with
  | nil => simp [Segment]
  | cons x xs ih => simp only [List.cons_append, Segment, ih, exists_and_left, and_assoc]

/-- A list is as it was if no header on it changed. -/
theorem Segment.congr {p : VirtualAddress → Prop} (h : Segment m a bs z) (hm : m.OnlyChanges p n)
    (hp : ∀ b ∈ bs, ∀ x, x ∈ b.header → ¬ p x) : Segment n a bs z := by
  induction bs generalizing a with
  | nil => exact h
  | cons b bs ih =>
    obtain ⟨rfl, hn, hs, hl⟩ := h
    obtain ⟨hb, hbs⟩ := List.forall_mem_cons.mp hp
    refine ⟨rfl, hn, (Ram.blockSize_congr hm hb).trans hs, ?_⟩
    rw [Ram.blockNext_congr hm hb]
    exact ih hl hbs

/-! ## Reading the list -/

theorem Linked.chain_eq (h : Linked m a bs) {k : Nat} (hk : bs.length ≤ k) :
    chain m k a = bs.map Run.start := by
  induction bs generalizing a k with
  | nil =>
    cases h
    cases k <;> simp [chain]
  | cons b bs ih =>
    obtain ⟨ha, hn, -, hl⟩ := h
    obtain ⟨k, rfl⟩ : ∃ j, k = j + 1 := ⟨k - 1, by simp only [List.length_cons] at hk; omega⟩
    have hnull : a.isNull = false := a.isNull_eq_false_iff.mpr hn
    rw [chain, hnull, List.map_cons, ih hl (by simpa using hk), ha]
    simp

theorem Segment.blockSize_eq (h : Segment m a bs z) : ∀ b ∈ bs, m.blockSize b.start = b.length := by
  induction bs generalizing a with
  | nil => simp
  | cons b bs ih =>
    obtain ⟨ha, -, hs, hl⟩ := h
    rw [List.forall_mem_cons]
    exact ⟨ha ▸ hs, ih hl⟩

/-- The free blocks as they are read from memory. -/
def runs (list : FreeList) (m : Ram) : List Run :=
  (list.blocks m).map fun b => ⟨b, m.blockSize b⟩

theorem Linked.runs_eq {list : FreeList} (h : Linked m list.first bs)
    (hbs : bs.length ≤ maxBlocks) : list.runs m = bs := by
  rw [runs, blocks, h.chain_eq hbs, List.map_map]
  refine (List.map_congr_left ?_).trans (List.map_id bs)
  intro b hb
  rw [Function.comp_apply, Segment.blockSize_eq h b hb, id]

theorem freeBytes_eq_sum (list : FreeList) (m : Ram) :
    list.freeBytes m = ((list.runs m).map Run.length).sum := by
  rw [freeBytes, runs, List.map_map]
  rfl

/-! ## Adding a block -/

/-- A new block in front of the list; only its header is written. -/
theorem push_linked {list : FreeList} (h : Linked m list.first bs) (hb : b.start ≠ .null)
    (hlen : b.length < 2 ^ 64) (hapart : ∀ c ∈ bs, c.header.Apart b.header) :
    Linked (list.push m b.start b.length).1 (list.push m b.start b.length).2.first (b :: bs) ∧
      m.OnlyChanges (· ∈ b.header) (list.push m b.start b.length).1 := by
  have hm := m.onlyChanges_setHeader b b.length list.first
  refine ⟨⟨rfl, hb, m.blockSize_setHeader b.start list.first hlen, ?_⟩, hm⟩
  rw [push, Ram.blockNext_setHeader]
  exact Segment.congr h hm hapart

/-- A block that was in use in front of the list; the size recorded for it stays. -/
theorem release_linked {list : FreeList} (h : Linked m list.first bs) (hb : b.start ≠ .null)
    (hsize : m.blockSize b.start = b.length) (hapart : ∀ c ∈ bs, c.header.Apart b.header) :
    Linked (list.release m (payloadOf b.start)).1 (list.release m (payloadOf b.start)).2.first
        (b :: bs) ∧
      m.OnlyChanges (· ∈ b.header) (list.release m (payloadOf b.start)).1 := by
  rw [release, blockOf_payloadOf]
  have hm := m.onlyChanges_setBlockNext b list.first
  refine ⟨⟨rfl, hb, (m.blockSize_setBlockNext b.start list.first).trans hsize, ?_⟩, hm⟩
  rw [Ram.blockNext_setBlockNext]
  exact Segment.congr h hm hapart

/-! ## Taking a block -/

/-- No block is found if none is large enough. -/
theorem Linked.firstFit_eq_none {needed : Nat} (h : Linked m a bs)
    (hsmall : ∀ b ∈ bs, b.length < needed) (k : Nat) (previous : Option VirtualAddress) :
    firstFit m needed k previous a = none := by
  induction bs generalizing a k previous with
  | nil =>
    cases h
    cases k <;> simp [firstFit]
  | cons b bs ih =>
    obtain ⟨-, hn, hs, hl⟩ := h
    obtain ⟨hb, hbs⟩ := List.forall_mem_cons.mp hsmall
    cases k with
    | zero => rfl
    | succ k =>
      rw [firstFit, if_neg (by rwa [Address.isNull_iff]), if_neg (by omega)]
      exact ih hl hbs k _

/-- The first block that is large enough is found. -/
theorem Segment.firstFit_eq {needed : Nat} {pre post : List Run}
    (h : Segment m a (pre ++ b :: post) z) (hsmall : ∀ c ∈ pre, c.length < needed)
    (hb : needed ≤ b.length) {k : Nat} (hk : pre.length < k) (previous : Option VirtualAddress) :
    firstFit m needed k previous a = some ((pre.getLast?.map Run.start).or previous, b.start) := by
  induction pre generalizing a k previous with
  | nil =>
    obtain ⟨ha, hn, hs, -⟩ := h
    obtain ⟨k, rfl⟩ : ∃ j, k = j + 1 := ⟨k - 1, by simp only [List.length_nil] at hk; omega⟩
    rw [firstFit, if_neg (by rwa [Address.isNull_iff]), if_pos (by omega), ha]
    rfl
  | cons c pre ih =>
    obtain ⟨ha, hn, hs, hl⟩ := h
    obtain ⟨hc, hpre⟩ := List.forall_mem_cons.mp hsmall
    obtain ⟨k, rfl⟩ : ∃ j, k = j + 1 := ⟨k - 1, by simp only [List.length_cons] at hk; omega⟩
    rw [firstFit, if_neg (by rwa [Address.isNull_iff]), if_neg (by omega),
      ih hl hpre (by simpa using hk), ha]
    cases pre <;> simp [List.getLast?_cons]

/-- A list has a first block that is large enough, or none of its blocks is. -/
theorem exists_first_fit (needed : Nat) (bs : List Run) :
    (∀ b ∈ bs, b.length < needed) ∨
      ∃ pre b post, bs = pre ++ b :: post ∧ (∀ c ∈ pre, c.length < needed) ∧ needed ≤ b.length := by
  induction bs with
  | nil => exact .inl (by simp)
  | cons c bs ih =>
    rcases Nat.lt_or_ge c.length needed with hc | hc
    · rcases ih with hsmall | ⟨pre, b, post, rfl, hpre, hb⟩
      · exact .inl (List.forall_mem_cons.mpr ⟨hc, hsmall⟩)
      · exact .inr ⟨c :: pre, b, post, rfl, List.forall_mem_cons.mpr ⟨hc, hpre⟩, hb⟩
    · exact .inr ⟨[], c, bs, rfl, by simp, hc⟩

/-- There is only one such block. -/
theorem first_fit_unique {needed : Nat} {pre pre' post post' : List Run} {b b' : Run}
    (h : pre ++ b :: post = pre' ++ b' :: post') (hpre : ∀ c ∈ pre, c.length < needed)
    (hb : needed ≤ b.length) (hpre' : ∀ c ∈ pre', c.length < needed) (hb' : needed ≤ b'.length) :
    pre = pre' ∧ b = b' ∧ post = post' := by
  induction pre generalizing pre' with
  | nil =>
    cases pre' with
    | nil =>
      obtain ⟨rfl, rfl⟩ := List.cons.inj h
      exact ⟨rfl, rfl, rfl⟩
    | cons c pre' =>
      obtain ⟨rfl, -⟩ := List.cons.inj h
      exact absurd (hpre' b List.mem_cons_self) (Nat.not_lt.mpr hb)
  | cons c pre ih =>
    obtain ⟨hc, hpre⟩ := List.forall_mem_cons.mp hpre
    cases pre' with
    | nil =>
      obtain ⟨rfl, -⟩ := List.cons.inj h
      exact absurd hc (Nat.not_lt.mpr hb')
    | cons c' pre' =>
      obtain ⟨rfl, hrest⟩ := List.cons.inj h
      obtain ⟨rfl, rfl, rfl⟩ := ih hrest hpre (List.forall_mem_cons.mp hpre').2
      exact ⟨rfl, rfl, rfl⟩

/-- A list that is made to go on elsewhere after some of its blocks. -/
theorem relink_linked {list : FreeList} {pre ys : List Run} {next : VirtualAddress}
    (h : Segment m list.first pre z) (hys : Linked m next ys)
    (hpre : pre.Pairwise fun c d => c.header.Apart d.header)
    (hapart : ∀ c ∈ pre, ∀ d ∈ ys, c.header.Apart d.header) :
    Linked (list.relink m (pre.getLast?.map Run.start) next).1
        (list.relink m (pre.getLast?.map Run.start) next).2.first (pre ++ ys) ∧
      m.OnlyChanges (fun a => ∃ c ∈ pre, a ∈ c.header)
        (list.relink m (pre.getLast?.map Run.start) next).1 := by
  rcases List.eq_nil_or_concat pre with rfl | ⟨pre, c, rfl⟩
  · exact ⟨hys, Ram.OnlyChanges.refl _ m⟩
  · simp only [List.concat_eq_append] at *
    rw [List.getLast?_concat, Option.map_some, relink]
    have hm := m.onlyChanges_setBlockNext c next
    have hc : c ∈ pre ++ [c] := List.mem_append_right pre List.mem_cons_self
    obtain ⟨y, hseg, rfl, hn, hs, -⟩ := segment_append.mp h
    refine ⟨?_, hm.mono fun a ha => ⟨c, hc, ha⟩⟩
    rw [List.append_assoc]
    refine segment_append.mpr ⟨c.start, hseg.congr hm ?_, rfl, hn, ?_, ?_⟩
    · intro d hd
      exact (List.pairwise_append.mp hpre).2.2 d hd c List.mem_cons_self
    · rw [Ram.blockSize_setBlockNext, hs]
    · rw [Ram.blockNext_setBlockNext]
      exact Segment.congr hys hm fun d hd => (hapart c hc d hd).symm

/-- What is on the list from the place of a block on once its first `needed` bytes were taken: the
rest of the block if a header fits into it, then the blocks behind it. A rest at the null address
ends the list. -/
def remainder (needed : Nat) (b : Run) (post : List Run) : List Run :=
  if headerSize ≤ b.length - needed then
    if (b.drop needed).start = .null then [] else b.drop needed :: post
  else post

theorem mem_remainder {needed : Nat} {post : List Run} {c : Run}
    (h : c ∈ remainder needed b post) :
    (c = b.drop needed ∧ headerSize ≤ b.length - needed) ∨ c ∈ post := by
  rw [remainder] at h
  split at h
  · rename_i hfits
    split at h
    · cases h
    · rcases List.mem_cons.mp h with rfl | hc
      · exact .inl ⟨rfl, hfits⟩
      · exact .inr hc
  · exact .inr h

/-- A block at its place on a list of blocks that do not overlap, each with room for a header. -/
structure Placed (pre : List Run) (b : Run) (post : List Run) : Prop where
  apart : (pre ++ b :: post).Pairwise Run.Apart
  header_le : ∀ c ∈ pre ++ b :: post, headerSize ≤ c.length
  length_lt : b.length < 2 ^ 64

namespace Placed

variable {pre post : List Run} {needed : Nat} {x : VirtualAddress}

theorem mem_of_mem_header (h : Placed pre b post) (hx : x ∈ b.header) : x ∈ b :=
  Run.mem_of_mem_header (h.header_le b (List.mem_append_right pre List.mem_cons_self)) hx

/-- The blocks before a block have their headers outside of it. -/
theorem not_mem_of_before (h : Placed pre b post) {c : Run} (hc : c ∈ pre) (hx : x ∈ c.header) :
    x ∉ b := by
  have hle := h.header_le c (List.mem_append_left (b :: post) hc)
  have hcb := (List.pairwise_append.mp h.apart).2.2 c hc b List.mem_cons_self
  exact hcb x (Run.mem_of_mem_header hle hx)

/-- So have the blocks behind it. -/
theorem not_mem_of_behind (h : Placed pre b post) {c : Run} (hc : c ∈ post) (hx : x ∈ c.header) :
    x ∉ b := by
  have hle := h.header_le c (List.mem_append_right pre (List.mem_cons_of_mem b hc))
  have hbpost := (List.pairwise_append.mp h.apart).2.1
  have hbc := (List.pairwise_cons.mp hbpost).1 c hc
  exact hbc.symm x (Run.mem_of_mem_header hle hx)

theorem headers_apart (h : Placed pre b post) :
    (pre ++ b :: post).Pairwise fun c d => c.header.Apart d.header := by
  refine h.apart.imp_of_mem ?_
  intro c d hc hd hcd x hx hy
  exact hcd x (Run.mem_of_mem_header (h.header_le c hc) hx)
    (Run.mem_of_mem_header (h.header_le d hd) hy)

/-- The header of the rest lies in the block. -/
theorem mem_of_mem_rest (h : Placed pre b post) (hb : needed ≤ b.length)
    (hfits : headerSize ≤ b.length - needed) (hx : x ∈ (b.drop needed).header) : x ∈ b :=
  (Run.mem_take_or_drop hb (Nat.le_of_lt h.length_lt) x).mpr
    (.inr (Run.mem_of_mem_header hfits hx))

theorem before_apart_remainder (h : Placed pre b post) (hb : needed ≤ b.length) :
    ∀ c ∈ pre, ∀ d ∈ remainder needed b post, c.header.Apart d.header := by
  intro c hc d hd
  rcases mem_remainder hd with ⟨rfl, hfits⟩ | hd
  · intro x hx hxd
    exact h.not_mem_of_before hc hx (h.mem_of_mem_rest hb hfits hxd)
  · exact (List.pairwise_append.mp h.headers_apart).2.2 c hc d (List.mem_cons_of_mem b hd)

/-- What stays on the list has its headers outside of the header of the block that left it. -/
theorem remainder_apart (h : Placed pre b post) (hneeded : headerSize ≤ needed) :
    ∀ c ∈ pre ++ remainder needed b post, c.header.Apart b.header := by
  intro c hc x hx hxb
  rcases List.mem_append.mp hc with hc | hc
  · exact h.not_mem_of_before hc hx (h.mem_of_mem_header hxb)
  · rcases mem_remainder hc with ⟨rfl, hfits⟩ | hc
    · have htake : x ∈ b.take needed := Nat.lt_of_lt_of_le hxb hneeded
      exact Run.take_apart_drop (Nat.le_of_lt h.length_lt) x htake (Run.mem_of_mem_header hfits hx)
    · exact h.not_mem_of_behind hc hx (h.mem_of_mem_header hxb)

/-- The header that is written for the rest links it to the blocks behind it. -/
theorem rest_linked (h : Placed pre b post) (hb : needed ≤ b.length)
    (hfits : headerSize ≤ b.length - needed) (hl : Linked m z post) :
    Linked (m.setHeader (b.drop needed).start (b.length - needed) z) (b.drop needed).start
      (remainder needed b post) := by
  rw [remainder, if_pos hfits]
  by_cases hnull : (b.drop needed).start = .null
  · rw [if_pos hnull]
    exact hnull
  · rw [if_neg hnull]
    have hlen : b.length - needed < 2 ^ 64 := Nat.lt_of_le_of_lt (Nat.sub_le ..) h.length_lt
    refine ⟨rfl, hnull, Ram.blockSize_setHeader _ _ _ hlen, ?_⟩
    rw [Ram.blockNext_setHeader]
    apply Segment.congr hl (m.onlyChanges_setHeader (b.drop needed) (b.length - needed) z)
    intro c hc x hx hxr
    exact h.not_mem_of_behind hc hx (h.mem_of_mem_rest hb hfits hxr)

end Placed

/-- What taking the first `needed` bytes of a block out of a list leaves: the block is in use, with
that size recorded for it, and nothing was written but the block and the headers before it. -/
def CarvedTo (m : Ram) (pre : List Run) (b : Run) (post : List Run) (needed : Nat)
    (carved : Ram × FreeList) : Prop :=
  Linked carved.1 carved.2.first (pre ++ remainder needed b post) ∧
    carved.1.blockSize b.start = needed ∧
    m.OnlyChanges (fun a => a ∈ b ∨ ∃ c ∈ pre, a ∈ c.header) carved.1

section

variable {list : FreeList} {pre post : List Run} {needed : Nat}

/-- The rest takes the place of the block. -/
theorem carve_of_rest (h : Linked m list.first (pre ++ b :: post)) (hp : Placed pre b post)
    (hneeded : headerSize ≤ needed) (hfits : headerSize ≤ b.length - needed) :
    CarvedTo m pre b post needed (list.carve m needed (pre.getLast?.map Run.start) b.start) := by
  have hb : needed ≤ b.length := by
    have : 0 < headerSize := by decide
    omega
  obtain ⟨y, hseg, rfl, -, hs, hrest⟩ := segment_append.mp h
  have hm := m.onlyChanges_setHeader (b.drop needed) (b.length - needed) (m.blockNext b.start)
  -- first the header of the rest is written, which is no header of a block before it
  have hpre := hseg.congr hm fun c hc x hx hxr =>
    hp.not_mem_of_before hc hx (hp.mem_of_mem_rest hb hfits hxr)
  -- then the list is made to go on with it
  obtain ⟨hl, hm'⟩ := relink_linked hpre (hp.rest_linked hb hfits hrest)
    (List.pairwise_append.mp hp.headers_apart).1 (hp.before_apart_remainder hb)
  simp only [carve, hs, if_pos hfits]
  set relinked := list.relink (m.setHeader (b.drop needed).start (b.length - needed)
    (m.blockNext b.start)) (pre.getLast?.map Run.start) (b.drop needed).start
  -- last the header of the block itself
  have hm'' := relinked.1.onlyChanges_setHeader b needed .null
  have hlt : needed < 2 ^ 64 := Nat.lt_of_le_of_lt hb hp.length_lt
  refine ⟨Segment.congr hl hm'' (hp.remainder_apart hneeded),
    relinked.1.blockSize_setHeader _ _ hlt, ?_⟩
  exact ((hm.mono fun x hx => .inl (hp.mem_of_mem_rest hb hfits hx)).trans
    (hm'.mono fun x hx => .inr hx)).trans (hm''.mono fun x hx => .inl (hp.mem_of_mem_header hx))

/-- The whole block leaves the list. -/
theorem carve_of_whole (h : Linked m list.first (pre ++ b :: post)) (hp : Placed pre b post)
    (hneeded : headerSize ≤ needed) (hwhole : b.length = needed) :
    CarvedTo m pre b post needed (list.carve m needed (pre.getLast?.map Run.start) b.start) := by
  have hfits : ¬ headerSize ≤ b.length - needed := by
    rw [hwhole, Nat.sub_self]
    decide
  obtain ⟨y, hseg, rfl, -, hs, hrest⟩ := segment_append.mp h
  have hys : Linked m (m.blockNext b.start) (remainder needed b post) := by
    rwa [remainder, if_neg hfits]
  obtain ⟨hl, hm⟩ := relink_linked hseg hys (List.pairwise_append.mp hp.headers_apart).1
    (hp.before_apart_remainder (Nat.le_of_eq hwhole.symm))
  simp only [carve, hs, if_neg hfits]
  set relinked := list.relink m (pre.getLast?.map Run.start) (m.blockNext b.start)
  have hm' := relinked.1.onlyChanges_setBlockNext b .null
  refine ⟨Segment.congr hl hm' (hp.remainder_apart hneeded), ?_, ?_⟩
  · rw [Ram.blockSize_setBlockNext, Ram.blockSize_congr hm, hs, hwhole]
    rintro x hx ⟨c, hc, hxc⟩
    exact hp.not_mem_of_before hc hxc (hp.mem_of_mem_header hx)
  · exact (hm.mono fun x hx => .inr hx).trans
      (hm'.mono fun x hx => .inl (hp.mem_of_mem_header hx))

theorem take?_of_small {size : Nat} (h : Linked m list.first bs)
    (hsmall : ∀ b ∈ bs, b.length < headerSize + size) : list.take? m size = none := by
  rw [take?, h.firstFit_eq_none hsmall]
  split <;> rfl

/-- The first block that is large enough gives a payload of `size` bytes. -/
theorem take?_of_fit {size : Nat} (h : Linked m list.first (pre ++ b :: post))
    (hp : Placed pre b post) (hcount : (pre ++ b :: post).length ≤ maxBlocks)
    (hsmall : ∀ c ∈ pre, c.length < headerSize + size) (hb : headerSize + size ≤ b.length)
    (hwhole : b.length - (headerSize + size) < headerSize → b.length = headerSize + size) :
    ∃ carved, list.take? m size = some (payloadOf b.start, carved) ∧
      CarvedTo m pre b post (headerSize + size) carved := by
  have hneeded : headerSize ≤ headerSize + size := Nat.le_add_right ..
  have hk : pre.length < maxBlocks := by
    rw [List.length_append, List.length_cons] at hcount
    omega
  have hlt : headerSize + size < 2 ^ 64 := Nat.lt_of_le_of_lt hb hp.length_lt
  refine ⟨list.carve m (headerSize + size) (pre.getLast?.map Run.start) b.start, ?_, ?_⟩
  · rw [take?, if_pos hlt, Segment.firstFit_eq h hsmall hb hk, Option.or_none, Option.map_some]
  · by_cases hfits : headerSize ≤ b.length - (headerSize + size)
    · exact carve_of_rest h hp hneeded hfits
    · exact carve_of_whole h hp hneeded (hwhole (Nat.not_le.mp hfits))

end

end FreeList

end PagedMemory
