import PagedMemory.Proofs.Ownership.Partition
/-!
# What the kernel map maps

The kernel map is built by requests for 4 KiB pages, one for each frame that a region touches, region
by region. Pages that are mapped twice keep what came last, and translation tells addresses apart by
bits 12 to 47 only. `last?` is all that remains of the order of the requests: the kernel map gives
every address what the last request for its page says, and nothing to all others.
-/
namespace PagedMemory

namespace MapRequest

/-- The last of some requests that is for a page. -/
def last? (qs : List MapRequest) (k : PageKey) : Option MapRequest :=
  (qs.filter fun q => PageKey.of q.virt = k).getLast?

variable {qs : List MapRequest} {q : MapRequest} {k : PageKey}

theorem mem_of_last? (h : last? qs k = some q) : q ∈ qs ∧ PageKey.of q.virt = k := by
  have hmem := List.mem_filter.mp (List.mem_of_getLast? h)
  exact ⟨hmem.1, of_decide_eq_true hmem.2⟩

theorem last?_eq_none_iff : last? qs k = none ↔ ∀ q ∈ qs, PageKey.of q.virt ≠ k := by
  rw [last?, List.getLast?_eq_none_iff, List.filter_eq_nil_iff]
  simp only [decide_eq_true_eq, ne_eq]

/-- Where there is a request for a page there is a last one. -/
theorem exists_last? (hq : q ∈ qs) (hk : PageKey.of q.virt = k) :
    ∃ q' ∈ qs, PageKey.of q'.virt = k ∧ last? qs k = some q' := by
  cases h : last? qs k with
  | none => exact absurd hk (last?_eq_none_iff.mp h q hq)
  | some q' =>
    obtain ⟨hmem, hkey⟩ := mem_of_last? h
    exact ⟨q', hmem, hkey, rfl⟩

theorem last?_concat (qs : List MapRequest) (q : MapRequest) (k : PageKey) :
    last? (qs ++ [q]) k = if PageKey.of q.virt = k then some q else last? qs k := by
  rw [last?, List.filter_append, List.filter_singleton]
  by_cases hk : PageKey.of q.virt = k
  · rw [if_pos hk, decide_eq_true hk]
    exact List.getLast?_concat
  · rw [if_neg hk, decide_eq_false hk]
    exact congrArg List.getLast? (List.append_nil _)

end MapRequest

namespace AddressMap

/-- Requests for 4 KiB pages make no 2 MiB mapping that a later one would have to take away, so each
page is mapped as the last request for it says. -/
theorem carryOutAll_empty {qs : List MapRequest} (hsmall : ∀ q ∈ qs, q.size = .small)
    (k : PageKey) :
    empty.carryOutAll qs k =
      (MapRequest.last? qs k).map fun q => .small (.containing q.phys) := by
  induction qs using List.reverseRecOn generalizing k with
  | nil => rfl
  | append_singleton qs q ih =>
    obtain ⟨hbefore, hq⟩ := List.forall_mem_append.mp hsmall
    have hsize : q.size = .small := hq q List.mem_cons_self
    have hold := ih hbefore
    have hno : (empty.carryOutAll qs (.of q.virt)).map Mapping.size ≠ some .large := by
      rw [hold]
      cases MapRequest.last? qs (.of q.virt) <;> simp [Mapping.size]
    rw [carryOutAll_append, MapRequest.last?_concat]
    change (empty.carryOutAll qs).carryOut q k = _
    simp only [carryOut, hsize, insertSmall, removeLarge]
    by_cases hk : PageKey.of q.virt = k
    · rw [if_pos hk.symm, if_pos hk]
      rfl
    · rw [if_neg (Ne.symm hk), if_neg hk, if_neg fun h => hno h.1]
      exact hold k

end AddressMap

namespace Paging

open PageTree

variable {map : DirectMap} {image : KernelImage} {memoryMap : List Region}

/-! ## The requests -/

/-- How far the kernel sees a region from where it lies. -/
def regionBias (map : DirectMap) (image : KernelImage) (kind : RegionKind) : UInt64 :=
  if kind = .kernelAndModules then image.virtualBase - image.physicalBase else map.offset

theorem regionAlias_eq (map : DirectMap) (image : KernelImage) (kind : RegionKind)
    (a : PhysicalAddress) :
    regionAlias map image kind a = ⟨a.value + regionBias map image kind⟩ := by
  rw [regionAlias, regionBias]
  split <;> rfl

/-- The requests of the kernel map are those for the frames of the regions that are not bad. -/
theorem mem_kernelRequests {q : MapRequest} : q ∈ kernelRequests map image memoryMap ↔
    ∃ r ∈ memoryMap, r.kind ≠ .badMemory ∧ ∃ f ∈ r.coveringFrames.toList,
      q = ⟨regionAlias map image r.kind f.base, f.base, .small⟩ := by
  rw [kernelRequests, List.mem_flatMap]
  constructor
  · rintro ⟨r, hr, hq⟩
    rw [regionRequests] at hq
    split at hq
    · cases hq
    · rename_i hkind
      obtain ⟨f, hf, rfl⟩ := List.mem_map.mp hq
      exact ⟨r, hr, hkind, f, hf, rfl⟩
  · rintro ⟨r, hr, hkind, f, hf, rfl⟩
    refine ⟨r, hr, ?_⟩
    rw [regionRequests, if_neg hkind]
    exact List.mem_map.mpr ⟨f, hf, rfl⟩

theorem request_mem (map : DirectMap) (image : KernelImage) {r : Region} {f : Frame}
    (hr : r ∈ memoryMap) (hkind : r.kind ≠ .badMemory) (hf : f ∈ r.coveringFrames.toList) :
    ⟨regionAlias map image r.kind f.base, f.base, .small⟩ ∈ kernelRequests map image memoryMap :=
  mem_kernelRequests.mpr ⟨r, hr, hkind, f, hf, rfl⟩

theorem size_of_mem_kernelRequests {q : MapRequest} (hq : q ∈ kernelRequests map image memoryMap) :
    q.size = .small := by
  obtain ⟨r, -, -, f, -, rfl⟩ := mem_kernelRequests.mp hq
  rfl

/-- An address of a region lies in one of the frames that it touches. -/
theorem containing_mem_coveringFrames {r : Region} {a : PhysicalAddress} (hlow : a.toNat < 2 ^ 52)
    (hbase : r.base.toNat ≤ a.toNat) (hend : a.toNat < r.base.toNat + r.length.toNat) :
    Page.containing a ∈ r.coveringFrames.toList := by
  have hs : PageSize.small.bytes = 4096 := rfl
  rw [FrameRange.mem_toList]
  simp only [Region.coveringFrames, FrameRange.between, Page.containing, Region.coveringLimit,
    Region.limit, hs]
  omega

/-! ## Shifted addresses -/

/-- Where a frame starts and ends, in bytes. -/
theorem frame_bytes (f : Frame) :
    f.base.toNat = f.number * 4096 ∧ f.number * 4096 + 4096 ≤ 2 ^ 64 := ⟨f.toNat_base, f.end_le⟩

theorem toNat_base_containing (a : PhysicalAddress) :
    (Page.containing a : Frame).base.toNat = a.toNat / 4096 * 4096 := Page.toNat_base _

/-- An address is the base of its frame and its offset. -/
theorem base_add_offset (a : PhysicalAddress) :
    (Page.containing a : Frame).base + a.toNat % frameSize = a := by
  have hb := toNat_base_containing a
  have ha := a.toNat_lt
  apply Address.toNat_inj.mp
  rw [Address.toNat_add, hb, frameSize]
  omega

/-- An offset within a frame leads to an address in that frame, with that offset. -/
theorem containing_base_add (f : Frame) {k : Nat} (hk : k < frameSize) :
    Page.containing (f.base + k) = f ∧ (f.base + k).toNat % frameSize = k := by
  obtain ⟨hbase, hend⟩ := frame_bytes f
  have hadd := f.base.toNat_add k
  have hnumber : (Page.containing (f.base + k) : Frame).number = (f.base + k).toNat / 4096 := rfl
  rw [frameSize] at hk ⊢
  exact ⟨Page.ext_number (by omega), by omega⟩

theorem toNat_shift (w : UInt64) (a : PhysicalAddress) :
    (⟨a.value + w⟩ : VirtualAddress).toNat = (a.toNat + w.toNat) % 2 ^ 64 := UInt64.toNat_add _ _

section

variable {w : UInt64} (hw : frameSize ∣ w.toNat)

include hw

/-- A shift by whole frames moves an address as it moves the frame around it. -/
theorem pageKey_shift (a : PhysicalAddress) :
    PageKey.of ⟨a.value + w⟩ = PageKey.of ⟨(Page.containing a : Frame).base.value + w⟩ := by
  rw [frameSize] at hw
  simp only [PageKey.of, Fin.mk.injEq, toNat_shift, toNat_base_containing]
  omega

/-- What agrees with the frame around an address on bits 12 to 47, and with the address on the bits
below, agrees with it on both. -/
theorem mod_eq_shift {a : PhysicalAddress} {x : VirtualAddress}
    (hkey : PageKey.of x = PageKey.of ⟨(Page.containing a : Frame).base.value + w⟩)
    (hoffset : x.toNat % frameSize = a.toNat % frameSize) :
    x.toNat % 2 ^ 48 = (⟨a.value + w⟩ : VirtualAddress).toNat % 2 ^ 48 := by
  rw [← pageKey_shift hw] at hkey
  simp only [PageKey.of, Fin.mk.injEq, toNat_shift] at hkey ⊢
  rw [frameSize] at hw hoffset
  omega

theorem offset_shift (a : PhysicalAddress) :
    (⟨a.value + w⟩ : VirtualAddress).toNat % frameSize = a.toNat % frameSize := by
  rw [toNat_shift]
  rw [frameSize] at hw ⊢
  omega

end

/-! ## Looking addresses up -/

/-- What a tree that stands for requests gives an address: its frame comes from the last of them, and
the leaf is a 4 KiB leaf. -/
theorem leafOf_of_requests {m : Ram} {root : Frame} {qs : List MapRequest}
    (hsmall : ∀ q ∈ qs, q.size = .small)
    (h : Represents map m root (AddressMap.empty.carryOutAll qs)) (x : VirtualAddress) :
    (leafOf map m root x).map Mapping.ofLeaf =
      (MapRequest.last? qs (.of x)).map fun q => .small (.containing q.phys) :=
  (h x).trans (AddressMap.carryOutAll_empty hsmall (.of x))

theorem translate_of_leafOf {t : PagingStore} {root : Frame} (hroot : t.kernelMap.root? = some root)
    {x : VirtualAddress} {found : Option Mapping}
    (h : (leafOf t.store.frames.map t.store.ram root x).map Mapping.ofLeaf = found) :
    translate t none x = .ok (found.map (Mapping.target x)) := by
  have htarget : Mapping.target x ∘ Mapping.ofLeaf = AddressSpace.leafTarget x :=
    funext (Mapping.target_ofLeaf x)
  rw [translate_eq, targetRoot?, hroot, Option.bind_some, ← h, Option.map_map, htarget]

/-- Where the mapping of a frame leads an address. -/
theorem target_small (f : Frame) (x : VirtualAddress) :
    (Mapping.small f).target x = f.base + x.toNat % frameSize := by
  obtain ⟨hbase, hend⟩ := frame_bytes f
  have hjoin : ((Mapping.small f).target x).toNat = f.number * 4096 + x.toNat % 4096 :=
    Page.toNat_join f _
  apply Address.toNat_inj.mp
  rw [hjoin, Address.toNat_add, hbase, frameSize]
  omega

/-- What it takes to find every byte where the kernel looks for it: regions are shifted by whole
frames, and no two frames are seen in one place. -/
structure Faithful (map : DirectMap) (image : KernelImage) (memoryMap : List Region) : Prop where
  offset : frameSize ∣ map.offset.toNat
  bias : frameSize ∣ (image.virtualBase - image.physicalBase).toNat
  same : ∀ q ∈ kernelRequests map image memoryMap, ∀ q' ∈ kernelRequests map image memoryMap,
    PageKey.of q.virt = PageKey.of q'.virt → q.phys = q'.phys

theorem Faithful.dvd_regionBias (h : Faithful map image memoryMap) (kind : RegionKind) :
    frameSize ∣ (regionBias map image kind).toNat := by
  rw [regionBias]
  split
  · exact h.bias
  · exact h.offset

/-- What a kernel map maps. -/
structure KernelMapped (map : DirectMap) (image : KernelImage) (memoryMap : List Region)
    (root : Frame) (t : PagingStore) : Prop where
  kernelRoot : t.kernelMap.root? = some root
  /-- Every address is mapped as the last request for its page says, or not at all. -/
  translate : ∀ x, translate t none x =
    .ok ((MapRequest.last? (kernelRequests map image memoryMap) (.of x)).map fun q =>
      q.phys + x.toNat % frameSize)
  /-- Every leaf is a 4 KiB leaf. -/
  small : ∀ x l, (space t root).leaf t.store.ram x = .ok (some l) → l.2 = .small
  /-- Every byte of a region that is not bad is found where the kernel sees the region. -/
  back : Faithful map image memoryMap → ∀ r ∈ memoryMap, r.kind ≠ .badMemory →
    ∀ a : PhysicalAddress, a.toNat < 2 ^ 52 → r.base.toNat ≤ a.toNat →
      a.toNat < r.base.toNat + r.length.toNat →
      Paging.translate t none (regionAlias map image r.kind a) = .ok (some a)
  /-- Nothing else is found but the rest of the frames that a region touches. -/
  only : Faithful map image memoryMap → ∀ (x : VirtualAddress) (a : PhysicalAddress),
    Paging.translate t none x = .ok (some a) → ∃ r ∈ memoryMap, r.kind ≠ .badMemory ∧
      Page.containing a ∈ r.coveringFrames.toList ∧
      x.toNat % 2 ^ 48 = (regionAlias map image r.kind a).toNat % 2 ^ 48

variable {total : Nat} {before fs roots : List Frame} {m : Ram} {root : Frame} {s t : PagingStore}

/-- The kernel map that was built stands for its requests. -/
theorem Built.leafOf_eq
    (h : Built map total before fs m roots (kernelRequests map image memoryMap) root s t)
    (x : VirtualAddress) :
    (leafOf t.store.frames.map t.store.ram root x).map Mapping.ofLeaf =
      (MapRequest.last? (kernelRequests map image memoryMap) (.of x)).map fun q =>
        .small (.containing q.phys) := by
  rw [h.rooted.map_eq]
  exact leafOf_of_requests (fun _ hq => size_of_mem_kernelRequests hq) h.represents x

theorem Built.kernelMapped
    (h : Built map total before fs m roots (kernelRequests map image memoryMap) root s t) :
    KernelMapped map image memoryMap root t := by
  have hroot : t.kernelMap.root? = some root := by rw [h.kernelMap, KernelMap.root?]
  have htranslate : ∀ x, Paging.translate t none x =
      .ok ((MapRequest.last? (kernelRequests map image memoryMap) (.of x)).map fun q =>
        q.phys + x.toNat % frameSize) := by
    intro x
    rw [translate_of_leafOf hroot (h.leafOf_eq x)]
    cases hlast : MapRequest.last? (kernelRequests map image memoryMap) (.of x) with
    | none => rfl
    | some q =>
      obtain ⟨r, -, -, f, -, rfl⟩ := mem_kernelRequests.mp (MapRequest.mem_of_last? hlast).1
      simp only [Option.map_some, Page.containing_base, target_small]
  constructor
  case kernelRoot => exact hroot
  case translate => exact htranslate
  case small =>
    intro x l hl
    have hleaf := h.leafOf_eq x
    rw [leaf_space, Except.ok.injEq] at hl
    rw [hl, Option.map_some] at hleaf
    obtain ⟨q, -, hq⟩ := Option.map_eq_some_iff.mp hleaf.symm
    rw [← Mapping.size_ofLeaf l, ← hq]
    rfl
  case back =>
    intro hfaithful r hr hkind a hlow hbase hend
    have hw := hfaithful.dvd_regionBias r.kind
    have hframe := containing_mem_coveringFrames hlow hbase hend
    have hq := request_mem map image hr hkind hframe
    -- the request for the frame of the byte is for the page of its alias
    obtain ⟨q, hmem, hkey, hlast⟩ := MapRequest.exists_last? hq rfl
    have hphys := hfaithful.same q hmem _ hq hkey
    rw [regionAlias_eq, ← pageKey_shift hw] at hlast
    rw [htranslate, regionAlias_eq, hlast, Option.map_some, hphys, offset_shift hw,
      base_add_offset]
  case only =>
    intro hfaithful x a hx
    rw [htranslate, Except.ok.injEq] at hx
    obtain ⟨q, hlast, rfl⟩ := Option.map_eq_some_iff.mp hx
    obtain ⟨hmem, hkey⟩ := MapRequest.mem_of_last? hlast
    obtain ⟨r, hr, hkind, f, hf, rfl⟩ := mem_kernelRequests.mp hmem
    obtain ⟨hcontaining, hoffset⟩ :=
      containing_base_add f (Nat.mod_lt x.toNat (show 0 < frameSize by decide))
    refine ⟨r, hr, hkind, hcontaining.symm ▸ hf, ?_⟩
    rw [regionAlias_eq] at hkey ⊢
    exact mod_eq_shift (hfaithful.dvd_regionBias r.kind) (hcontaining.symm ▸ hkey.symm)
      hoffset.symm

/-- Whatever the regions are like and whatever pool the tables come from, a kernel map that could be
built maps what its requests say, and nothing else. -/
theorem kernelMapped_initPaging (hpool : s.store.frames.Holds s.store.ram fs)
    (hrun : initPaging memoryMap image s = .ok root t) :
    KernelMapped s.store.frames.map image memoryMap root t := by
  have hrooted : Rooted s.store.frames.map s.store.frames.total [] fs s.store.ram [] s :=
    ⟨[], FramePool.supplies_self hpool,
      fun h => absurd h List.not_mem_nil, fun h => absurd h List.not_mem_nil⟩
  exact ((hrooted.initPaging_ends hpool.nodup memoryMap image).of_ok hrun).kernelMapped

/-- A kernel image that starts and ends in the middle of frames, the first of which it shares with
usable memory, and bad memory that is left out. -/
theorem kernelMapped_initPaging_shared_frame :
    let map : DirectMap := ⟨0xffff800000000000⟩
    let image : KernelImage := ⟨0x3000, 0xffffffff80000000⟩
    let memoryMap : List Region :=
      [⟨⟨0x5000⟩, 0x1000, .badMemory⟩, ⟨⟨0x3800⟩, 0x900, .kernelAndModules⟩,
        ⟨⟨0x1000⟩, 0x2800, .usable⟩]
    let frames : List Frame := (List.range 8).map fun n => .ofNumber (n + 16)
    let s := (System.ofFrames map frames).paging
    s.store.frames.Holds s.store.ram frames ∧ Faithful map image memoryMap ∧
      ∃ root t, initPaging memoryMap image s = .ok root t ∧
        KernelMapped map image memoryMap root t := by
  intro map image memoryMap frames s
  have hpool : s.store.frames.Holds s.store.ram frames :=
    System.holds_paging (System.holds_ofFrames map frames (by decide) (by decide))
  have hmap : s.store.frames.map = map := by decide +kernel
  have hfaithful : Faithful map image memoryMap :=
    ⟨by decide +kernel, by decide +kernel, by decide +kernel⟩
  obtain ⟨root, t, hrun, -⟩ : ∃ root t, initPaging memoryMap image s = .ok root t ∧ True :=
    Ends.exists_ok (by decide +kernel)
  have hmapped := kernelMapped_initPaging hpool hrun
  rw [hmap] at hmapped
  exact ⟨hpool, hfaithful, root, t, hrun, hmapped⟩

end Paging

end PagedMemory
