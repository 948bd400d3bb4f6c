import PagedMemory.Heap.FreeList
import PagedMemory.Heap.Run
import PagedMemory.Proofs.Memory
/-!
# Blocks that tile an arena

A block is a run of memory. `Tiles` says that some blocks cover the aliases of some frames, each
byte once. Cutting a block in two, joining two neighbours and adding a frame keep that. Runs are
counted around the top of the address space, so nothing is said about where it lies.
-/
namespace PagedMemory

namespace Run

instance : Membership VirtualAddress Run := ⟨fun r a => r.start.distance a < r.length⟩

instance (a : VirtualAddress) (r : Run) : Decidable (a ∈ r) :=
  inferInstanceAs (Decidable (r.start.distance a < r.length))

theorem mem_iff {r : Run} {a : VirtualAddress} : a ∈ r ↔ r.start.distance a < r.length := Iff.rfl

theorem start_mem {r : Run} (h : 0 < r.length) : r.start ∈ r := by
  rw [mem_iff, Address.distance_self]
  exact h

/-- No address lies in both runs. -/
def Apart (r s : Run) : Prop := ∀ a, a ∈ r → a ∉ s

theorem Apart.symm {r s : Run} (h : r.Apart s) : s.Apart r := fun a ha hr => h a hr ha

instance : Std.Symm Apart := ⟨fun _ _ => Apart.symm⟩

/-- The part of a run that holds its header. -/
def header (r : Run) : Run := ⟨r.start, headerSize⟩

theorem mem_of_mem_header {r : Run} (hr : headerSize ≤ r.length) {a : VirtualAddress}
    (ha : a ∈ r.header) : a ∈ r := Nat.lt_of_lt_of_le ha hr

/-- The first `k` bytes of a run. -/
def take (r : Run) (k : Nat) : Run := ⟨r.start, k⟩

/-- What is left of a run without its first `k` bytes. -/
def drop (r : Run) (k : Nat) : Run := ⟨r.start + k, r.length - k⟩

/-- An address of a run is one of its first `k` bytes or one of the others. -/
theorem mem_take_or_drop {r : Run} {k : Nat} (hk : k ≤ r.length) (hr : r.length ≤ 2 ^ 64)
    (a : VirtualAddress) : a ∈ r ↔ a ∈ r.take k ∨ a ∈ r.drop k := by
  simp only [mem_iff, take, drop]
  rcases Nat.lt_or_ge (r.start.distance a) k with hlt | hge
  · have := Address.distance_add_of_lt r.start a hlt (by omega)
    omega
  · have := Address.distance_add_of_le r.start a hge
    omega

theorem take_apart_drop {r : Run} {k : Nat} (hr : r.length ≤ 2 ^ 64) :
    (r.take k).Apart (r.drop k) := by
  intro a ha hd
  simp only [mem_iff, take, drop] at ha hd
  have := Address.distance_add_of_lt r.start a ha (by omega)
  omega

/-- The shape of a block: whole units of the alignment, with room for a header. The alignment is
that of the physical address. -/
structure Shaped (map : DirectMap) (r : Run) : Prop where
  header_le : headerSize ≤ r.length
  dvd_length : heapAlign ∣ r.length
  dvd_start : heapAlign ∣ (map.toPhysical r.start).toNat

theorem toNat_toPhysical_add (map : DirectMap) (a : VirtualAddress) (n : Nat) :
    (map.toPhysical (a + n)).toNat = ((map.toPhysical a).toNat + n) % 2 ^ 64 := by
  have hp : (map.toPhysical a).toNat = (2 ^ 64 - map.offset.toNat + a.toNat) % 2 ^ 64 :=
    UInt64.toNat_sub _ _
  have hq : (map.toPhysical (a + n)).toNat = (2 ^ 64 - map.offset.toNat + (a + n).toNat) % 2 ^ 64 :=
    UInt64.toNat_sub _ _
  have ho := map.offset.toNat_lt
  have hs := a.toNat_add n
  omega

variable {map : DirectMap} {r : Run}

theorem Shaped.take (h : r.Shaped map) {k : Nat} (hk : headerSize ≤ k) (hd : heapAlign ∣ k) :
    (r.take k).Shaped map := ⟨hk, hd, h.dvd_start⟩

theorem Shaped.drop (h : r.Shaped map) {k : Nat} (hk : k + headerSize ≤ r.length)
    (hd : heapAlign ∣ k) : (r.drop k).Shaped map := by
  refine ⟨?_, Nat.dvd_sub h.dvd_length hd, ?_⟩
  · simp only [Run.drop]
    omega
  · simp only [Run.drop, toNat_toPhysical_add]
    exact (Nat.dvd_mod_iff (by decide)).mpr (Nat.dvd_add h.dvd_start hd)

/-- The alias of a frame as a run. -/
theorem mem_ofFrame (map : DirectMap) (f : Frame) (a : VirtualAddress) :
    a ∈ ofFrame (map.aliasOf f) ↔ map.frameAt a = f := (map.frameAt_eq_iff f a).symm

theorem shaped_ofFrame (map : DirectMap) (f : Frame) : (ofFrame (map.aliasOf f)).Shaped map := by
  refine ⟨by simp only [ofFrame]; decide, by simp only [ofFrame]; decide, ?_⟩
  rw [ofFrame, DirectMap.aliasOf, DirectMap.toPhysical_toVirtual, Page.toNat_base]
  exact Dvd.dvd.mul_left (by decide) _

end Run

/-- Blocks that cover the aliases of some frames, each byte once. -/
structure Tiles (map : DirectMap) (blocks : List Run) (arena : List Frame) : Prop where
  shaped : ∀ b ∈ blocks, b.Shaped map
  apart : blocks.Pairwise Run.Apart
  covered : ∀ a, (∃ b ∈ blocks, a ∈ b) ↔ map.frameAt a ∈ arena
  total : (blocks.map Run.length).sum = frameSize * arena.length

namespace Tiles

variable {map : DirectMap} {blocks rest : List Run} {arena : List Frame}

theorem nil (map : DirectMap) : Tiles map [] [] :=
  ⟨by simp, .nil, by simp, rfl⟩

/-- The order of the blocks does not matter. -/
theorem perm (h : Tiles map blocks arena) (hp : blocks.Perm rest) : Tiles map rest arena := by
  refine ⟨fun b hb => h.shaped b (hp.mem_iff.mpr hb), ?_, ?_, ?_⟩
  · exact (hp.pairwise_iff Run.Apart.symm).mp h.apart
  · intro a
    simp only [← h.covered a, hp.mem_iff]
  · rw [← h.total, (hp.map Run.length).sum_eq]

theorem arena_perm (h : Tiles map blocks arena) {arena' : List Frame} (hp : arena.Perm arena') :
    Tiles map blocks arena' :=
  ⟨h.shaped, h.apart, fun a => (h.covered a).trans hp.mem_iff, by rw [h.total, hp.length_eq]⟩

/-- No block is larger than the arena. -/
theorem length_le (h : Tiles map blocks arena) {b : Run} (hb : b ∈ blocks) :
    b.length ≤ frameSize * arena.length := by
  rw [← h.total]
  exact List.le_sum_of_mem (List.mem_map_of_mem hb)

theorem length_lt (h : Tiles map blocks arena) (ha : arena.length < 2 ^ 52) {b : Run}
    (hb : b ∈ blocks) : b.length < 2 ^ 64 := by
  have := h.length_le hb
  simp only [frameSize] at this
  omega

/-- There are no more blocks than a list of free blocks may have. -/
theorem length_blocks_le (h : Tiles map blocks arena) (ha : arena.length < 2 ^ 52) :
    blocks.length ≤ FreeList.maxBlocks := by
  have hsum : blocks.length * headerSize ≤ (blocks.map Run.length).sum := by
    have := List.card_nsmul_le_sum (blocks.map Run.length) headerSize (by
      intro n hn
      obtain ⟨b, hb, rfl⟩ := List.mem_map.mp hn
      exact (h.shaped b hb).header_le)
    simpa using this
  rw [h.total] at hsum
  simp only [headerSize, frameSize, FreeList.maxBlocks] at hsum ⊢
  omega

theorem mem_arena (h : Tiles map blocks arena) {b : Run} (hb : b ∈ blocks) {a : VirtualAddress}
    (ha : a ∈ b) : map.frameAt a ∈ arena := (h.covered a).mp ⟨b, hb, ha⟩

/-- A block is cut in two. -/
theorem cut {b : Run} (h : Tiles map (b :: rest) arena) {k : Nat} (hk : headerSize ≤ k)
    (hd : heapAlign ∣ k) (hb : k + headerSize ≤ b.length) (hlen : b.length ≤ 2 ^ 64) :
    Tiles map (b.take k :: b.drop k :: rest) arena := by
  have hmem := Run.mem_take_or_drop (r := b) (k := k) (by omega) hlen
  obtain ⟨hb', hrest⟩ := List.pairwise_cons.mp h.apart
  have hshape := h.shaped b List.mem_cons_self
  refine ⟨?_, ?_, ?_, ?_⟩
  · simp only [List.forall_mem_cons]
    exact ⟨hshape.take hk hd, hshape.drop hb hd, fun c hc => h.shaped c (List.mem_cons_of_mem b hc)⟩
  · refine List.pairwise_cons.mpr ⟨?_, List.pairwise_cons.mpr ⟨?_, hrest⟩⟩
    · simp only [List.forall_mem_cons]
      exact ⟨Run.take_apart_drop hlen, fun c hc a ha => hb' c hc a ((hmem a).mpr (.inl ha))⟩
    · exact fun c hc a ha => hb' c hc a ((hmem a).mpr (.inr ha))
  · intro a
    rw [← h.covered a]
    simp only [List.mem_cons, exists_eq_or_imp, hmem a, or_assoc]
  · rw [← h.total]
    simp only [List.map_cons, List.sum_cons, Run.take, Run.drop]
    omega

/-- Two blocks of which one follows the other are joined. -/
theorem join {b c : Run} (h : Tiles map (b :: c :: rest) arena) (hc : c.start = b.start + b.length)
    (hlen : b.length + c.length ≤ 2 ^ 64) :
    Tiles map (⟨b.start, b.length + c.length⟩ :: rest) arena := by
  set joined : Run := ⟨b.start, b.length + c.length⟩ with hj
  have hb : joined.take b.length = b := rfl
  have hc' : joined.drop b.length = c := by
    simp only [hj, Run.drop, ← hc, Nat.add_sub_cancel_left]
  have hmem := Run.mem_take_or_drop (r := joined) (k := b.length) (Nat.le_add_right ..) hlen
  rw [hb, hc'] at hmem
  obtain ⟨hbs, hcs, hrest⟩ : _ ∧ _ ∧ _ := by simpa only [List.pairwise_cons] using h.apart
  have hshape : b.Shaped map ∧ c.Shaped map ∧ ∀ x ∈ rest, x.Shaped map := by
    simpa only [List.forall_mem_cons] using h.shaped
  obtain ⟨hb1, hc1, hrest1⟩ := hshape
  refine ⟨?_, List.pairwise_cons.mpr ⟨?_, hrest⟩, ?_, ?_⟩
  · simp only [List.forall_mem_cons]
    exact ⟨⟨Nat.le_add_right_of_le hb1.header_le, Nat.dvd_add hb1.dvd_length hc1.dvd_length,
      hb1.dvd_start⟩, hrest1⟩
  · intro d hd a ha
    rcases (hmem a).mp ha with ha | ha
    · exact hbs d (List.mem_cons_of_mem c hd) a ha
    · exact hcs d hd a ha
  · intro a
    rw [← h.covered a]
    simp only [List.mem_cons, exists_eq_or_imp, hmem a, or_assoc]
  · rw [← h.total]
    simp only [List.map_cons, List.sum_cons, hj]
    omega

/-- A frame that is new to the arena is a block of its own. -/
theorem addFrame (h : Tiles map blocks arena) {f : Frame} (hf : f ∉ arena) :
    Tiles map (Run.ofFrame (map.aliasOf f) :: blocks) (f :: arena) := by
  refine ⟨?_, List.pairwise_cons.mpr ⟨fun b hb a ha hab => hf ?_, h.apart⟩, ?_, ?_⟩
  · simp only [List.forall_mem_cons]
    exact ⟨Run.shaped_ofFrame map f, h.shaped⟩
  · rw [← (Run.mem_ofFrame map f a).mp ha]
    exact h.mem_arena hb hab
  · intro a
    simp only [List.mem_cons, exists_eq_or_imp, Run.mem_ofFrame, h.covered a]
  · simp only [List.map_cons, List.sum_cons, h.total, Run.ofFrame, List.length_cons]
    rw [Nat.mul_succ, Nat.add_comm]

end Tiles

end PagedMemory
