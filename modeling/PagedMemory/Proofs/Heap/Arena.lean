import PagedMemory.Proofs.Heap.FreeBlocks
/-!
# Blocks of an arena

A free list does not ask where its memory comes from: blocks of any size may be added to it,
anywhere in the address space. They and what they are cut into form a `Partition` of the memory that
was added, and so together they are smaller than the address space.
-/
namespace PagedMemory

namespace Run

/-- A block as it may be added to a free list: aligned, of whole units of the alignment, with room
for a header, and not at null. It ends before the address space does, as all memory that can be had;
at the very end a payload without bytes would be at null. -/
structure IsBlock (b : Run) : Prop where
  dvd_start : heapAlign ∣ b.start.toNat
  dvd_length : heapAlign ∣ b.length
  header_le : headerSize ≤ b.length
  start_ne_null : b.start ≠ .null
  end_lt : b.start.toNat + b.length < 2 ^ 64

/-- The block around a payload. -/
def around (payload : Run) : Run := ⟨blockOf payload.start, headerSize + payload.length⟩

/-- What stays free of a block once its first `needed` bytes were taken. -/
def rest (b : Run) (needed : Nat) : List Run :=
  if headerSize ≤ b.length - needed then [b.drop needed] else []

theorem payloadOf_blockOf (p : VirtualAddress) : payloadOf (blockOf p) = p :=
  Address.ext_value (UInt64.sub_add_cancel p.value (UInt64.ofNat headerSize))

/-- The payload of a block is what lies behind its header. -/
theorem drop_around (p : Run) : p.around.drop headerSize = p := by
  rw [around, drop, Nat.add_sub_cancel_left, show blockOf p.start + headerSize = p.start from
    payloadOf_blockOf p.start]

theorem around_payloadOf (b : Run) (size : Nat) :
    around ⟨payloadOf b.start, size⟩ = b.take (headerSize + size) := by
  rw [around, blockOf_payloadOf, take]

namespace IsBlock

variable {b : Run}

theorem start_pos (h : b.IsBlock) : 0 < b.start.toNat := by
  refine Nat.pos_of_ne_zero fun e => h.start_ne_null ?_
  exact Address.toNat_inj.mp e

theorem length_lt (h : b.IsBlock) : b.length < 2 ^ 64 :=
  Nat.lt_of_le_of_lt (Nat.le_add_left ..) h.end_lt

/-- The addresses of a block are those between its start and its end. -/
theorem mem_iff (h : b.IsBlock) {a : VirtualAddress} :
    a ∈ b ↔ b.start.toNat ≤ a.toNat ∧ a.toNat < b.start.toNat + b.length := by
  have hd := b.start.distance_eq a
  have hs := b.start.toNat_lt
  have ha := a.toNat_lt
  have he := h.end_lt
  rw [Run.mem_iff]
  omega

theorem toNat_add (h : b.IsBlock) {k : Nat} (hk : k ≤ b.length) :
    (b.start + k).toNat = b.start.toNat + k := by
  have := h.end_lt
  rw [Address.toNat_add]
  omega

/-- The payload of a block is not at null, even if it has no bytes. -/
theorem payloadOf_ne_null (h : b.IsBlock) : payloadOf b.start ≠ .null := by
  intro hnull
  have hpayload := congrArg Address.toNat hnull
  have h0 : (Address.null : VirtualAddress).toNat = 0 := rfl
  have := h.start_pos
  rw [payloadOf, h.toNat_add h.header_le, h0] at hpayload
  omega

theorem take (h : b.IsBlock) {k : Nat} (hd : heapAlign ∣ k) (hk : headerSize ≤ k)
    (hb : k ≤ b.length) : (b.take k).IsBlock :=
  ⟨h.dvd_start, hd, hk, h.start_ne_null, Nat.lt_of_le_of_lt (Nat.add_le_add_left hb _) h.end_lt⟩

theorem drop (h : b.IsBlock) {k : Nat} (hd : heapAlign ∣ k) (hb : k + headerSize ≤ b.length) :
    (b.drop k).IsBlock := by
  have hle : k ≤ b.length := Nat.le_trans (Nat.le_add_right ..) hb
  have hstart : (b.drop k).start.toNat = b.start.toNat + k := h.toNat_add hle
  have hpos := h.start_pos
  refine ⟨?_, Nat.dvd_sub h.dvd_length hd, Nat.le_sub_of_add_le' hb, fun hnull => ?_, ?_⟩
  · rw [hstart]
    exact Nat.dvd_add h.dvd_start hd
  · have h0 : (b.drop k).start.toNat = 0 := congrArg Address.toNat hnull
    omega
  · have := h.end_lt
    have hlength : (b.drop k).length = b.length - k := rfl
    omega

/-- A block that does not have room for another header behind what is taken is taken as a whole. -/
theorem eq_needed (h : b.IsBlock) {needed : Nat} (hd : heapAlign ∣ needed) (hb : needed ≤ b.length)
    (hfits : b.length - needed < headerSize) : b.length = needed := by
  have h0 := Nat.eq_zero_of_dvd_of_lt (Nat.dvd_sub h.dvd_length hd) hfits
  exact Nat.le_antisymm (Nat.le_of_sub_eq_zero h0) hb

end IsBlock

/-- Runs that are not empty are apart if neither of them starts inside of the other. -/
theorem apart_iff {r s : Run} (hr : 0 < r.length) (hs : 0 < s.length) :
    r.Apart s ↔ s.start ∉ r ∧ r.start ∉ s := by
  constructor
  · exact fun h => ⟨fun hmem => h _ hmem (Run.start_mem hs), h _ (Run.start_mem hr)⟩
  · rintro ⟨hsr, hrs⟩ a har has
    simp only [Run.mem_iff, Address.distance_eq] at *
    have := r.start.toNat_lt
    have := s.start.toNat_lt
    have := a.toNat_lt
    omega

theorem apart_of_empty {r s : Run} (h : r.length = 0 ∨ s.length = 0) : r.Apart s := by
  intro a har has
  rw [Run.mem_iff] at har has
  omega

instance (r s : Run) : Decidable (r.Apart s) :=
  if h : r.length = 0 ∨ s.length = 0 then .isTrue (apart_of_empty h)
  else decidable_of_iff _ (apart_iff (by omega) (by omega)).symm

instance (b : Run) : Decidable b.IsBlock :=
  decidable_of_iff
    (heapAlign ∣ b.start.toNat ∧ heapAlign ∣ b.length ∧ headerSize ≤ b.length ∧ b.start ≠ .null ∧
      b.start.toNat + b.length < 2 ^ 64)
    ⟨fun ⟨hs, hl, hh, hn, he⟩ => ⟨hs, hl, hh, hn, he⟩,
      fun h => ⟨h.dvd_start, h.dvd_length, h.header_le, h.start_ne_null, h.end_lt⟩⟩

end Run

/-- Blocks that lie apart from each other inside of the memory that was added. -/
structure Partition (added blocks : List Run) : Prop where
  isBlock : ∀ b ∈ blocks, b.IsBlock
  apart : blocks.Pairwise Run.Apart
  inside : ∀ b ∈ blocks, ∀ a ∈ b, ∃ c ∈ added, a ∈ c

namespace Partition

variable {added blocks others : List Run} {b : Run}

theorem perm (h : Partition added blocks) (hp : blocks.Perm others) : Partition added others := by
  refine ⟨fun b hb => h.isBlock b (hp.mem_iff.mpr hb), ?_, ?_⟩
  · exact (hp.pairwise_iff Run.Apart.symm).mp h.apart
  · exact fun b hb => h.inside b (hp.mem_iff.mpr hb)

/-- A block that is apart from the memory that was added is apart from the blocks in it. -/
theorem apart_of_added (h : Partition added blocks) (hb : ∀ c ∈ added, c.Apart b) :
    ∀ c ∈ blocks, c.Apart b := by
  intro c hc a ha hab
  obtain ⟨d, hd, had⟩ := h.inside c hc a ha
  exact hb d hd a had hab

theorem add (h : Partition added blocks) (hblock : b.IsBlock) (hb : ∀ c ∈ added, c.Apart b) :
    Partition (b :: added) (b :: blocks) := by
  refine ⟨List.forall_mem_cons.mpr ⟨hblock, h.isBlock⟩, ?_, ?_⟩
  · exact List.pairwise_cons.mpr ⟨fun c hc => (h.apart_of_added hb c hc).symm, h.apart⟩
  · intro c hc a ha
    rcases List.mem_cons.mp hc with rfl | hc
    · exact ⟨c, List.mem_cons_self, ha⟩
    · obtain ⟨d, hd, had⟩ := h.inside c hc a ha
      exact ⟨d, List.mem_cons_of_mem b hd, had⟩

/-- The first bytes of a block are taken; the rest is a block if a header fits into it. -/
theorem cut (h : Partition added (b :: others)) {needed : Nat} (hd : heapAlign ∣ needed)
    (hneeded : headerSize ≤ needed) (hb : needed ≤ b.length) :
    Partition added (b.take needed :: (b.rest needed ++ others)) := by
  have hblock := h.isBlock b List.mem_cons_self
  have hlen := Nat.le_of_lt hblock.length_lt
  have hmem := Run.mem_take_or_drop hb hlen
  have hsub : ∀ c, c = b.take needed ∨ c ∈ b.rest needed → c.IsBlock ∧ ∀ a ∈ c, a ∈ b := by
    rintro c (rfl | hc)
    · exact ⟨hblock.take hd hneeded hb, fun a ha => (hmem a).mpr (.inl ha)⟩
    · rw [Run.rest] at hc
      split at hc
      · rename_i hfits
        obtain rfl := List.mem_singleton.mp hc
        exact ⟨hblock.drop hd (by omega), fun a ha => (hmem a).mpr (.inr ha)⟩
      · cases hc
  obtain ⟨hothers, hpair⟩ := List.pairwise_cons.mp h.apart
  have hapart : ∀ c, c = b.take needed ∨ c ∈ b.rest needed → ∀ d ∈ others, c.Apart d :=
    fun c hc d hd a ha => hothers d hd a ((hsub c hc).2 a ha)
  have htake : ∀ c ∈ b.rest needed, (b.take needed).Apart c := by
    intro c hc
    rw [Run.rest] at hc
    split at hc
    · obtain rfl := List.mem_singleton.mp hc
      exact Run.take_apart_drop hlen
    · cases hc
  have hrest : (b.rest needed).Pairwise Run.Apart := by
    rw [Run.rest]
    split <;> simp
  refine ⟨?_, ?_, ?_⟩
  · simp only [List.forall_mem_cons, List.forall_mem_append]
    exact ⟨(hsub _ (.inl rfl)).1, fun c hc => (hsub c (.inr hc)).1,
      fun c hc => h.isBlock c (List.mem_cons_of_mem b hc)⟩
  · simp only [List.pairwise_cons, List.pairwise_append, List.forall_mem_append]
    exact ⟨⟨htake, hapart _ (.inl rfl)⟩, hrest, hpair, fun c hc => hapart c (.inr hc)⟩
  · simp only [List.forall_mem_cons, List.forall_mem_append]
    have hinside := h.inside b List.mem_cons_self
    exact ⟨fun a ha => hinside a ((hsub _ (.inl rfl)).2 a ha),
      fun c hc a ha => hinside a ((hsub c (.inr hc)).2 a ha),
      fun c hc => h.inside c (List.mem_cons_of_mem b hc)⟩

/-! ## How much there is -/

/-- The addresses of blocks, one block after the other. -/
def addresses (blocks : List Run) : List Nat :=
  blocks.flatMap fun b => List.range' b.start.toNat b.length

theorem length_addresses (blocks : List Run) :
    (addresses blocks).length = (blocks.map Run.length).sum := by
  simp [addresses, List.length_flatMap]

theorem nodup_addresses (h : Partition added blocks) : (addresses blocks).Nodup := by
  refine List.nodup_flatMap.mpr ⟨fun b _ => List.nodup_range', ?_⟩
  refine h.apart.imp_of_mem ?_
  intro b c hb hc hbc n hnb hnc
  rw [List.mem_range'_1] at hnb hnc
  have hbb := h.isBlock b hb
  have hcb := h.isBlock c hc
  have hn : (Address.ofNat n : VirtualAddress).toNat = n := by
    have := hbb.end_lt
    rw [Address.toNat_ofNat]
    omega
  exact hbc (.ofNat n) (hbb.mem_iff.mpr (by omega)) (hcb.mem_iff.mpr (by omega))

/-- All blocks together are smaller than the address space: neither its first address nor its last
one is in any of them. -/
theorem sum_length_lt (h : Partition added blocks) : (blocks.map Run.length).sum < 2 ^ 64 := by
  have hsub : addresses blocks ⊆ List.range' 1 (2 ^ 64 - 1) := by
    intro n hn
    obtain ⟨b, hb, hnb⟩ := List.mem_flatMap.mp hn
    have hend := (h.isBlock b hb).end_lt
    have hpos := (h.isBlock b hb).start_pos
    rw [List.mem_range'_1] at hnb ⊢
    omega
  have hle := (h.nodup_addresses.subperm hsub).length_le
  rw [length_addresses, List.length_range'] at hle
  omega

/-- There are no more blocks than a list of free blocks may have. -/
theorem length_le (h : Partition added blocks) : blocks.length ≤ FreeList.maxBlocks := by
  have hsum : blocks.length * headerSize ≤ (blocks.map Run.length).sum := by
    have := List.card_nsmul_le_sum (blocks.map Run.length) headerSize (by
      intro n hn
      obtain ⟨b, hb, rfl⟩ := List.mem_map.mp hn
      exact (h.isBlock b hb).header_le)
    simpa using this
  have hlt := h.sum_length_lt
  simp only [headerSize, FreeList.maxBlocks] at hsum ⊢
  omega

end Partition

end PagedMemory
