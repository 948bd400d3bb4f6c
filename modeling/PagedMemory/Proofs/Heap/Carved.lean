import PagedMemory.Proofs.Heap.FreeBlocks
/-!
# An arena that is carved into blocks

`Carved` is the invariant of a heap: free blocks are linked, the sizes of live blocks are recorded,
and together with the blocks that are neither they tile the arena. Blocks are set aside while a run
of frames is still growing, and for good if what is left of a block starts at the null address. The
latter needs an arena that reaches across the null address, which an offset of the direct map that
is a multiple of the frame size excludes.
-/
namespace PagedMemory

open FreeList

/-- The blocks of an arena: free ones in the order of their list, live ones, and others. -/
structure Carved (map : DirectMap) (m : Ram) (list : FreeList) (free live aside : List Run)
    (arena : List Frame) : Prop where
  linked : Linked m list.first free
  recorded : ∀ b ∈ live, m.blockSize b.start = b.length
  started : ∀ b ∈ live, b.start ≠ .null
  tiles : Tiles map (free ++ live ++ aside) arena
  room : arena.length < 2 ^ 52

/-- What is lost of a block whose first `needed` bytes are taken: nothing, unless the rest starts at
the null address. Then the blocks behind it are lost too. -/
def lost (needed : Nat) (b : Run) (post : List Run) : List Run :=
  if headerSize ≤ b.length - needed ∧ (b.drop needed).start = .null then b.drop needed :: post
  else []

namespace Run

variable {map : DirectMap} {b : Run} {needed : Nat}

/-- What is left of a block is nothing or has room for a header. -/
theorem Shaped.length_eq (h : b.Shaped map) (hd : heapAlign ∣ needed) (hle : needed ≤ b.length)
    (hlt : b.length - needed < headerSize) : b.length = needed := by
  have := h.dvd_length
  simp only [heapAlign, headerSize] at *
  omega

end Run

namespace Tiles

variable {map : DirectMap} {pre post rest : List Run} {b : Run} {arena : List Frame} {needed : Nat}

/-- Taking the first bytes of a block. -/
theorem carve (h : Tiles map (pre ++ b :: post ++ rest) arena) (hlen : b.length < 2 ^ 64)
    (hn : headerSize ≤ needed) (hd : heapAlign ∣ needed) (hb : needed ≤ b.length) :
    Tiles map (b.take needed :: (pre ++ remainder needed b post ++ (lost needed b post ++ rest)))
      arena := by
  have hfront : Tiles map (b :: (pre ++ (post ++ rest))) arena := h.perm (by
    rw [List.append_assoc, List.cons_append]
    exact List.perm_middle)
  rw [remainder, lost]
  by_cases hfits : headerSize ≤ b.length - needed
  · have hcut := hfront.cut hn hd (by omega) (Nat.le_of_lt hlen)
    by_cases hnull : (b.drop needed).start = .null
    · rw [if_pos hfits, if_pos hnull, if_pos ⟨hfits, hnull⟩]
      refine hcut.perm (.cons _ ?_)
      rw [List.append_nil, List.cons_append]
      exact List.perm_middle.symm
    · rw [if_pos hfits, if_neg hnull, if_neg (fun h => hnull h.2)]
      refine hcut.perm (.cons _ ?_)
      rw [List.nil_append, List.append_assoc, List.cons_append]
      exact List.perm_middle.symm
  · rw [if_neg hfits, if_neg (fun h => hfits h.1), List.nil_append, List.append_assoc]
    have hlength := (hfront.shaped b List.mem_cons_self).length_eq hd hb (Nat.not_le.mp hfits)
    have hsame : b.take needed = b := by rw [Run.take, ← hlength]
    rwa [hsame]

end Tiles

namespace Carved

variable {map : DirectMap} {m n : Ram} {list : FreeList} {free live aside : List Run}
variable {arena : List Frame} {b : Run}

theorem empty (map : DirectMap) (m : Ram) : Carved map m .empty [] [] [] [] :=
  ⟨rfl, by simp, by simp, .nil map, by decide⟩

theorem header_le (h : Carved map m list free live aside arena)
    (hb : b ∈ free ++ live ++ aside) : headerSize ≤ b.length := (h.tiles.shaped b hb).header_le

theorem length_lt (h : Carved map m list free live aside arena)
    (hb : b ∈ free ++ live ++ aside) : b.length < 2 ^ 64 := h.tiles.length_lt h.room hb

theorem header_subset (h : Carved map m list free live aside arena)
    (hb : b ∈ free ++ live ++ aside) {x : VirtualAddress} (hx : x ∈ b.header) : x ∈ b :=
  Run.mem_of_mem_header (h.header_le hb) hx

theorem start_ne_null (h : Carved map m list free live aside arena)
    (hb : b ∈ free ++ live) : b.start ≠ .null := by
  rcases List.mem_append.mp hb with hb | hb
  · exact Segment.start_ne_null h.linked b hb
  · exact h.started b hb

/-- Free and live blocks are apart from each other. -/
theorem blocks_apart (h : Carved map m list free live aside arena) :
    (free ++ live).Pairwise Run.Apart := (List.pairwise_append.mp h.tiles.apart).1

theorem free_apart_live (h : Carved map m list free live aside arena) (hb : b ∈ live) :
    ∀ c ∈ free, c.Apart b :=
  fun c hc => (List.pairwise_append.mp h.blocks_apart).2.2 c hc b hb

theorem live_apart {rest : List Run} (h : Carved map m list free (b :: rest) aside arena) :
    ∀ c ∈ rest, b.Apart c :=
  (List.pairwise_cons.mp (List.pairwise_append.mp h.blocks_apart).2.1).1

theorem length_free_le (h : Carved map m list free live aside arena) :
    free.length ≤ maxBlocks := by
  have := h.tiles.length_blocks_le h.room
  simp only [List.length_append] at this
  omega

theorem runs_eq (h : Carved map m list free live aside arena) : list.runs m = free :=
  h.linked.runs_eq h.length_free_le

/-- Memory may change wherever no header of a free or live block is. -/
theorem congr {p : VirtualAddress → Prop} (h : Carved map m list free live aside arena)
    (hm : m.OnlyChanges p n) (hp : ∀ b ∈ free ++ live, ∀ x, x ∈ b.header → ¬ p x) :
    Carved map n list free live aside arena := by
  refine ⟨Segment.congr h.linked hm fun b hb => hp b (List.mem_append_left _ hb), ?_, h.started,
    h.tiles, h.room⟩
  intro b hb
  rw [Ram.blockSize_congr hm (hp b (List.mem_append_right _ hb)), h.recorded b hb]

theorem aside_perm (h : Carved map m list free live aside arena) {aside' : List Run}
    (hp : aside.Perm aside') : Carved map m list free live aside' arena :=
  ⟨h.linked, h.recorded, h.started, h.tiles.perm (hp.append_left _), h.room⟩

theorem live_perm (h : Carved map m list free live aside arena) {live' : List Run}
    (hp : live.Perm live') : Carved map m list free live' aside arena :=
  ⟨h.linked, fun b hb => h.recorded b (hp.mem_iff.mpr hb),
    fun b hb => h.started b (hp.mem_iff.mpr hb),
    h.tiles.perm ((hp.append_left _).append_right _), h.room⟩

theorem arena_perm (h : Carved map m list free live aside arena) {arena' : List Frame}
    (hp : arena.Perm arena') : Carved map m list free live aside arena' :=
  ⟨h.linked, h.recorded, h.started, h.tiles.arena_perm hp, hp.length_eq ▸ h.room⟩

/-- No address is in the headers of two blocks. -/
theorem headers_apart {blocks : List Run} (hshape : ∀ b ∈ blocks, headerSize ≤ b.length)
    (hb : headerSize ≤ b.length) (hapart : ∀ c ∈ blocks, c.Apart b) :
    ∀ c ∈ blocks, c.header.Apart b.header :=
  fun c hc x hx hxb =>
    hapart c hc x (Run.mem_of_mem_header (hshape c hc) hx) (Run.mem_of_mem_header hb hxb)

/-- A live block is put back. -/
theorem release {rest : List Run} (h : Carved map m list free (b :: rest) aside arena) :
    Carved map (list.release m (payloadOf b.start)).1 (list.release m (payloadOf b.start)).2
        (b :: free) rest aside arena ∧
      m.OnlyChanges (· ∈ b.header) (list.release m (payloadOf b.start)).1 := by
  have hbmem : b ∈ free ++ b :: rest ++ aside := by simp
  have hmove : (free ++ b :: rest ++ aside).Perm (b :: (free ++ rest ++ aside)) := by
    rw [List.append_assoc, List.cons_append, List.append_assoc]
    exact List.perm_middle
  have htiles := h.tiles.perm hmove
  have hapart : ∀ c ∈ free ++ rest ++ aside, c.Apart b :=
    fun c hc => ((List.pairwise_cons.mp htiles.apart).1 c hc).symm
  have hheader : ∀ c ∈ free ++ rest ++ aside, c.header.Apart b.header :=
    headers_apart (fun c hc => h.header_le (hmove.mem_iff.mpr (List.mem_cons_of_mem b hc)))
      (h.header_le hbmem) hapart
  obtain ⟨hl, hm⟩ := release_linked h.linked (h.started b List.mem_cons_self)
    (h.recorded b List.mem_cons_self) fun c hc => hheader c (by simp [hc])
  refine ⟨⟨hl, ?_, fun c hc => h.started c (List.mem_cons_of_mem b hc), htiles,
    h.room⟩, hm⟩
  intro c hc
  rw [Ram.blockSize_congr hm (hheader c (by simp [hc])), h.recorded c (List.mem_cons_of_mem b hc)]

/-- A block that was set aside becomes a free one. -/
theorem push {rest : List Run} (h : Carved map m list free live (b :: rest) arena)
    (hb : b.start ≠ .null) :
    Carved map (list.push m b.start b.length).1 (list.push m b.start b.length).2
        (b :: free) live rest arena ∧
      m.OnlyChanges (· ∈ b.header) (list.push m b.start b.length).1 := by
  have hbmem : b ∈ free ++ live ++ b :: rest := by simp
  have htiles := h.tiles.perm List.perm_middle
  have hheader : ∀ c ∈ free ++ live ++ rest, c.header.Apart b.header :=
    headers_apart (fun c hc => h.header_le (List.perm_middle.mem_iff.mpr (List.mem_cons_of_mem b hc)))
      (h.header_le hbmem) fun c hc => ((List.pairwise_cons.mp htiles.apart).1 c hc).symm
  obtain ⟨hl, hm⟩ := push_linked h.linked hb (h.length_lt hbmem) fun c hc => hheader c (by simp [hc])
  refine ⟨⟨hl, ?_, h.started, htiles, h.room⟩, hm⟩
  intro c hc
  rw [Ram.blockSize_congr hm (hheader c (by simp [hc])), h.recorded c hc]

/-- A block is taken off the list. -/
theorem take {pre post : List Run} {size : Nat}
    (h : Carved map m list (pre ++ b :: post) live aside arena) (hd : heapAlign ∣ size)
    (hsmall : ∀ c ∈ pre, c.length < headerSize + size) (hb : headerSize + size ≤ b.length) :
    ∃ n list', list.take? m size = some (payloadOf b.start, n, list') ∧
      Carved map n list' (pre ++ remainder (headerSize + size) b post)
        (b.take (headerSize + size) :: live) (lost (headerSize + size) b post ++ aside) arena ∧
      m.OnlyChanges (fun a => ∃ c ∈ pre ++ [b], a ∈ c) n := by
  have hfree : ∀ {c}, c ∈ pre ++ b :: post → c ∈ pre ++ b :: post ++ live ++ aside :=
    fun hc => List.mem_append_left _ (List.mem_append_left _ hc)
  have hbmem : b ∈ pre ++ b :: post := by simp
  have hdn : heapAlign ∣ headerSize + size := Nat.dvd_add (by decide) hd
  have hshape := h.tiles.shaped b (hfree hbmem)
  obtain ⟨hfa, -, hfl⟩ := List.pairwise_append.mp h.blocks_apart
  have hp : Placed pre b post :=
    ⟨hfa, fun c hc => h.header_le (hfree hc), h.length_lt (hfree hbmem)⟩
  obtain ⟨⟨n, list'⟩, htake, hl, hs, hm⟩ :=
    take?_of_fit h.linked hp h.length_free_le hsmall hb (hshape.length_eq hdn hb)
  have hm' : m.OnlyChanges (fun a => ∃ c ∈ pre ++ [b], a ∈ c) n := by
    apply hm.mono
    intro a ha
    rcases ha with ha | ⟨c, hc, ha⟩
    · exact ⟨b, by simp, ha⟩
    · exact ⟨c, by simp [hc], h.header_subset (hfree (by simp [hc])) ha⟩
  refine ⟨n, list', htake, ⟨hl, ?_, ?_, ?_, h.room⟩, hm'⟩
  · rw [List.forall_mem_cons]
    refine ⟨hs, ?_⟩
    intro c hc
    -- only blocks that were free are written, and a live one has no byte in common with them
    rw [Ram.blockSize_congr hm', h.recorded c hc]
    rintro x hx ⟨d, hd, hxd⟩
    have hdfree : d ∈ pre ++ b :: post := by
      rcases List.mem_append.mp hd with hd | hd
      · simp [hd]
      · simp [List.mem_singleton.mp hd]
    exact hfl d hdfree c hc x hxd (h.header_subset (by simp [hc]) hx)
  · rw [List.forall_mem_cons]
    exact ⟨h.start_ne_null (b := b) (List.mem_append_left _ hbmem), h.started⟩
  · have htiles : Tiles map (pre ++ b :: post ++ (live ++ aside)) arena := by
      rw [← List.append_assoc]
      exact h.tiles
    refine (htiles.carve (h.length_lt (hfree hbmem)) (Nat.le_add_right ..) hdn hb).perm ?_
    -- `Tiles.carve` has the block that was taken in front of those that stay free
    generalize pre ++ remainder (headerSize + size) b post = free'
    rw [List.append_assoc free']
    refine List.perm_middle.symm.trans (.append_left free' (.cons _ ?_))
    exact List.perm_append_comm_assoc _ _ _

end Carved

end PagedMemory
