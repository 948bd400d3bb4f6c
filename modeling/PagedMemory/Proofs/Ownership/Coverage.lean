import PagedMemory.Proofs.Ownership.Isolation
import PagedMemory.Proofs.Paging.KernelMap
/-!
# What the kernel map covers

Once the kernel map is live, every byte that the memory core touches is reached through it: links of
free frames, tables, blocks of the heap. A pool takes the frames that lie inside of usable regions
while the kernel map maps those that regions touch, so it maps all frames of the pool, each where the
direct map shows it. Nothing takes that back as long as nobody maps a page in the kernel map next to
one of them.
-/
namespace PagedMemory

open PageTree

namespace Region

theorem base_le_firstFrameStart (r : Region) : r.base.toNat ≤ r.firstFrameStart.toNat := by
  have hs : PageSize.small.bytes = 4096 := rfl
  have hlast : (⟨0xffffffffffffffff⟩ : PhysicalAddress).toNat = 2 ^ 64 - 1 := rfl
  have hb := r.base.toNat_lt
  rw [firstFrameStart, Address.alignUp?]
  simp only [hs]
  split
  · rw [Option.getD_some, Address.toNat_ofNat]
    omega
  · rw [Option.getD_none, hlast]
    omega

/-- The frames inside of a region are among those that it touches. -/
theorem frames_subset_coveringFrames (r : Region) : r.frames.toList ⊆ r.coveringFrames.toList := by
  intro f hf
  have hfirst := r.base_le_firstFrameStart
  have hlimit := r.limit_lt
  obtain ⟨hlow, hhigh⟩ := FrameRange.mem_toList.mp hf
  apply FrameRange.mem_toList.mpr
  simp only [frames, FrameRange.between] at hlow hhigh
  simp only [coveringFrames, FrameRange.between, coveringLimit]
  omega

/-- A region that ends below an address touches frames below it only. -/
theorem number_lt_of_mem_coveringFrames {r : Region} {f : Frame} {n : Nat}
    (hend : r.base.toNat + r.length.toNat ≤ n * 4096) (hf : f ∈ r.coveringFrames.toList) :
    f.number < n := by
  rw [FrameRange.mem_toList] at hf
  simp only [coveringFrames, FrameRange.between, coveringLimit, limit] at hf
  omega

end Region

namespace DirectMap

/-- Low frames have their aliases in different pages, even if only bits 12 to 47 count. -/
theorem eq_of_pageKey_alias {map : DirectMap} (hmap : frameSize ∣ map.offset.toNat) {f g : Frame}
    (hf : f.number < 2 ^ 35) (hg : g.number < 2 ^ 35)
    (h : PageKey.of (map.aliasOf f) = PageKey.of (map.aliasOf g)) : f = g := by
  have hbf := (Paging.frame_bytes f).1
  have hbg := (Paging.frame_bytes g).1
  rw [frameSize] at hmap
  simp only [aliasOf, toVirtual, PageKey.of, Fin.mk.injEq, Paging.toNat_shift] at h
  apply Page.ext_number
  omega

end DirectMap

namespace System

/-- Looking up an address in the kernel map of a system. -/
theorem translate_kernelMap {s : System} {root : Frame}
    (hroot : s.paging.kernelMap.root? = some root) {x : VirtualAddress} {found : Option Mapping}
    (h : (leafOf s.store.frames.map s.ram root x).map Mapping.ofLeaf = found) :
    Paging.translate s.paging none x = .ok (found.map (Mapping.target x)) :=
  Paging.translate_of_leafOf hroot h

end System

namespace Ledger

variable {map : DirectMap} {image : KernelImage} {memoryMap : List Region}

/-- A memory map below the middle of the lower half, seen through an offset of whole frames, with no
page of the kernel image in the place of the alias of a usable frame. -/
structure Coverable (map : DirectMap) (image : KernelImage) (memoryMap : List Region) : Prop where
  offset : frameSize ∣ map.offset.toNat
  low : ∀ r ∈ memoryMap, r.base.toNat + r.length.toNat ≤ 2 ^ 47
  clear : ∀ r ∈ memoryMap, r.kind = .kernelAndModules → ∀ g ∈ r.coveringFrames.toList,
    ∀ f ∈ Region.wholeFrames memoryMap,
      PageKey.of (image.toVirtual g.base) ≠ PageKey.of (map.aliasOf f)

/-- All bytes of a frame are found in the kernel map where the direct map shows them. -/
def Found (map : DirectMap) (l : Ledger) (f : Frame) : Prop :=
  ∀ k < frameSize, Paging.translate l.system.paging none (map.toVirtual (f.base + k)) =
    .ok (some (f.base + k))

/-- The kernel map has all usable frames at their aliases. -/
structure Covers (map : DirectMap) (memoryMap : List Region) (root : Frame) (l : Ledger) : Prop where
  kernelRoot : l.system.paging.kernelMap.root? = some root
  mapped : ∀ f ∈ Region.wholeFrames memoryMap, ∀ x,
    PageKey.of x = PageKey.of (map.aliasOf f) →
      (leafOf map l.system.ram root x).map Mapping.ofLeaf = some (.small f)

/-- Whether a request maps no page in the kernel map next to the alias of a usable frame. -/
def Spares (map : DirectMap) (memoryMap : List Region) : Request → Prop
  | .mapPage none virt _ _ => ∀ f ∈ Region.wholeFrames memoryMap,
    (PageKey.of virt).region ≠ (PageKey.of (map.aliasOf f)).region
  | _ => True

/-! ## Building the kernel map -/

/-- Of all requests for the page of the alias of a usable frame, the last one is for that frame. -/
theorem Coverable.last? (h : Coverable map image memoryMap) {f : Frame}
    (hf : f ∈ Region.wholeFrames memoryMap) :
    ∃ q, MapRequest.last? (Paging.kernelRequests map image memoryMap)
      (PageKey.of (map.aliasOf f)) = some q ∧ q.phys = f.base := by
  have hlow : ∀ r ∈ memoryMap, ∀ g ∈ r.coveringFrames.toList, g.number < 2 ^ 35 :=
    fun r hr g hg => Region.number_lt_of_mem_coveringFrames (h.low r hr) hg
  obtain ⟨r, hr, husable, hmem⟩ := Region.mem_wholeFrames.mp hf
  have hcovering := r.frames_subset_coveringFrames hmem
  have hkind : r.kind = .usable := by simpa [Region.isUsable] using husable
  have hrequest := Paging.request_mem map image hr (by simp [hkind]) hcovering
  obtain ⟨q, hq, hkey, hlast⟩ := MapRequest.exists_last? hrequest rfl
  have halias : Paging.regionAlias map image r.kind f.base = map.aliasOf f := by
    rw [Paging.regionAlias, hkind]
    exact if_neg (by decide)
  rw [halias] at hkey hlast
  refine ⟨q, hlast, ?_⟩
  obtain ⟨r', hr', -, g, hg, rfl⟩ := Paging.mem_kernelRequests.mp hq
  by_cases hkernel : r'.kind = .kernelAndModules
  · have hclear := h.clear r' hr' hkernel g hg f hf
    rw [Paging.regionAlias, if_pos hkernel] at hkey
    exact absurd hkey hclear
  · rw [Paging.regionAlias, if_neg hkernel] at hkey
    have hgf := DirectMap.eq_of_pageKey_alias h.offset (hlow r' hr' g hg) (hlow r hr f hcovering) hkey
    rw [hgf]

variable {total : Nat} {all fs : List Frame} {free live aside : List Run} {l : Ledger}
variable {root : Frame}

/-- A kernel map that could be built covers the usable frames. -/
theorem Balanced.covers_initPaging (h : Balanced map total all l fs free live aside)
    (stock : Stock map all) (hcover : Coverable map image memoryMap)
    (hrun : (outcome (System.onPaging (Paging.initPaging memoryMap image)) l.system).1 =
      some root) :
    Covers map memoryMap root (l.perform (.initPaging memoryMap image)) := by
  have hends : ∀ root', (outcome (System.onPaging (Paging.initPaging memoryMap image)) l.system).1 =
      some root' → Covers map memoryMap root' (l.perform (.initPaging memoryMap image)) := by
    refine Ends.outcome (p := fun r => ∀ root', r.1 = some root' →
      Covers map memoryMap root' (l.paged r.2)) (Ends.onPart ?_)
    refine (h.rooted.initPaging_ends (h.nodup_tables stock) memoryMap image).mono ?_ ?_
    · intro root t ht root' hroot
      cases hroot
      have hpaging := h.shared.paging_setPaging t
      constructor
      case kernelRoot =>
        change (l.system.setPaging t).paging.kernelMap.root? = _
        rw [hpaging, ht.kernelMap, KernelMap.root?]
      case mapped =>
        intro f hf x hx
        obtain ⟨q, hlast, hq⟩ := hcover.last? hf
        have hleaf := ht.leafOf_eq x
        rw [ht.rooted.map_eq, hx, hlast, Option.map_some, hq, Page.containing_base] at hleaf
        exact hleaf
    · intro _ t _ root' hroot
      cases hroot
  exact hends root hrun

/-! ## Keeping it -/

theorem Covers.root_mem (h : Covers map memoryMap root l) : root ∈ l.roots :=
  List.mem_append_left _ (Option.mem_toList.mpr h.kernelRoot)

/-- What spares the aliases of usable frames changes no leaf there. -/
theorem Covers.not_remaps (h : Covers map memoryMap root l) (hn : l.roots.Nodup) {q : Request}
    (hq : l.Permits q) (hspares : Spares map memoryMap q) {f : Frame}
    (hf : f ∈ Region.wholeFrames memoryMap) {x : VirtualAddress}
    (hx : PageKey.of x = PageKey.of (map.aliasOf f)) : ¬ l.Remaps root x q := by
  by_cases htarget : Targets q none
  · intro hremaps
    cases q with
    | mapPage target virt phys size =>
      cases htarget
      exact hspares f hf (hx ▸ hremaps.2.symm)
    | _ => exact hremaps
  · exact KeepsTrees.not_remaps hn hq (fun _ htree => absurd htree (Option.not_mem_none _)) htarget
      h.kernelRoot x

/-- One request. -/
theorem Covers.perform (h : Covers map memoryMap root l) (hsound : Sound map total all l)
    (stock : Stock map all) (hn : l.roots.Nodup) {q : Request} (hq : l.Permits q)
    (hspares : Spares map memoryMap q) : Covers map memoryMap root (l.perform q) := by
  have hkeeps := hsound.keepsTrees stock hq
  constructor
  case kernelRoot =>
    rcases hkeeps.kernelRoot with hsame | ⟨hnone, -⟩
    · exact hsame.trans h.kernelRoot
    · exact nomatch hnone.symm.trans h.kernelRoot
  case mapped =>
    intro f hf x hx
    rw [hkeeps.leaves root h.root_mem x (h.not_remaps hn hq hspares hf hx)]
    exact h.mapped f hf x hx

/-- Any number of requests, as the roots stay distinct. -/
theorem Covers.performAll (h : Covers map memoryMap root l) (hsound : Sound map total all l)
    (stock : Stock map all) (hn : l.roots.Nodup) {requests : List Request}
    (hq : l.PermitsAll requests) (hspares : ∀ q ∈ requests, Spares map memoryMap q) :
    Covers map memoryMap root (l.performAll requests) := by
  refine (hsound.run (motive := fun l => Covers map memoryMap root l ∧ l.roots.Nodup) stock hq
    ⟨h, hn⟩ ?_).2.1
  intro l hsound hl q hmem hq
  obtain ⟨h, hn⟩ := hl
  exact ⟨h.perform hsound stock hn hq (hspares q hmem), (hsound.keepsTrees stock hq).nodup_roots hn⟩

/-- A usable frame is found at its alias, byte by byte. -/
theorem Covers.found (h : Covers map memoryMap root l)
    (hmap : l.system.store.frames.map = map) (hoffset : frameSize ∣ map.offset.toNat) {f : Frame}
    (hf : f ∈ Region.wholeFrames memoryMap) : Found map l f := by
  intro k hk
  obtain ⟨hcontaining, hmod⟩ := Paging.containing_base_add f hk
  have hkey : PageKey.of (map.toVirtual (f.base + k)) = PageKey.of (map.aliasOf f) := by
    have := Paging.pageKey_shift hoffset (f.base + k)
    rwa [hcontaining] at this
  have hsame : (map.toVirtual (f.base + k)).toNat % frameSize = k :=
    (Paging.offset_shift hoffset (f.base + k)).trans hmod
  have hleaf := h.mapped f hf _ hkey
  subst hmap
  rw [System.translate_kernelMap h.kernelRoot hleaf, Option.map_some, Paging.target_small, hsame]

/-- What is found in the kernel map where the direct map shows it. -/
structure Covered (map : DirectMap) (memoryMap : List Region) (l : Ledger) : Prop where
  /-- Every frame that the pool was given. -/
  given : ∀ f ∈ Region.wholeFrames memoryMap, Found map l f
  /-- The frames that are free or in the hands of direct callers. -/
  free : ∀ f ∈ l.free ++ l.held, Found map l f
  /-- The tables of all trees, their roots included. -/
  tables : ∀ r ∈ l.roots, ∀ p f, p.length ≤ 3 → walk map l.system.ram r p = some f → Found map l f
  /-- The frames in which a block of the heap lies. -/
  blocks : ∀ b ∈ l.freeBlocks ++ l.liveBlocks, ∀ a ∈ b, Found map l (map.frameAt a)

theorem Covers.covered (h : Covers map memoryMap root l) (hp : Partitioned map [memoryMap] l)
    (hmap : l.system.store.frames.map = map) (hoffset : frameSize ∣ map.offset.toNat) :
    Covered map memoryMap l := by
  have hgiven : ∀ f ∈ Region.wholeFrames memoryMap, Found map l f :=
    fun f hf => h.found hmap hoffset hf
  -- all frames that are in the books come from the memory map
  have hbooks : ∀ f ∈ l.free ++ l.held ++ l.tables ++ l.arena, Found map l f := by
    intro f hf
    obtain ⟨⟨r, hr, husable, hmem⟩, -⟩ := (hp.mem_iff f).mp hf
    rw [List.flatten_singleton] at hr
    exact hgiven f (Region.mem_wholeFrames.mpr ⟨r, hr, husable, hmem⟩)
  constructor
  case given => exact hgiven
  case free =>
    intro f hf
    exact hbooks f (List.mem_append_left _ (List.mem_append_left _ hf))
  case tables =>
    intro r hr p f hlen hw
    exact hbooks f (List.mem_append_left _ (List.mem_append_right _ (hp.forest.owned hr hlen hw)))
  case blocks =>
    intro b hb a ha
    exact hbooks _ (List.mem_append_right _ (hp.blocks b hb a ha))

/-- A pool is filled from a memory map, and sooner or later the kernel map is built from the same.
From then on, whatever is asked of the system but to map pages in the kernel map next to usable
frames, the kernel map covers all that the pool was given. -/
theorem covered_performAll {m : Ram} {log : Log} (hcover : Coverable map image memoryMap)
    (hn : (memoryMap.filter Region.isUsable).Pairwise
      fun r r' => r.frames.toList.Disjoint r'.frames.toList)
    {before after : List Request} (hbefore : (filled map [memoryMap] m log).PermitsAll before)
    (hbuilt : (outcome (System.onPaging (Paging.initPaging memoryMap image))
      ((filled map [memoryMap] m log).performAll before).system).1.isSome)
    (hafter : (((filled map [memoryMap] m log).performAll before).perform
      (.initPaging memoryMap image)).PermitsAll after)
    (hspares : ∀ q ∈ after, Spares map memoryMap q) :
    Covered map memoryMap ((((filled map [memoryMap] m log).performAll before).perform
      (.initPaging memoryMap image)).performAll after) := by
  have hframes : (Region.wholeFrames [memoryMap].flatten).Nodup := by
    rw [List.flatten_singleton]
    exact Region.nodup_wholeFrames hn
  obtain ⟨stock, hstart⟩ := sound_filled map hframes m log
  have hsound := hstart.performAll stock hbefore
  have hroots := hstart.nodup_roots_performAll stock List.nodup_nil hbefore
  generalize (filled map [memoryMap] m log).performAll before = l at *
  obtain ⟨root, hroot⟩ := Option.isSome_iff_exists.mp hbuilt
  have hpermits : l.Permits (.initPaging memoryMap image) := trivial
  have hnext := hsound.perform stock hpermits
  have hnodup := (hsound.keepsTrees stock hpermits).nodup_roots hroots
  obtain ⟨fs, free, live, aside, h⟩ := hsound
  have hcovers := (h.covers_initPaging stock hcover hroot).performAll hnext stock hnodup hafter
    hspares
  obtain ⟨fs', free', live', aside', h'⟩ := hnext.performAll stock hafter
  exact hcovers.covered (h'.partitioned stock) h'.map_eq hcover.offset

/-- A kernel image that overlaps usable memory; a heap is set up and used, a table is made and pages
are mapped there and in a far part of the kernel map. -/
theorem covered_performAll_shared_frame :
    let map : DirectMap := ⟨0xffff800000000000⟩
    let image : KernelImage := ⟨0x11000, 0xffffffff80000000⟩
    let memoryMap : List Region :=
      [⟨⟨0x1000⟩, 0x10800, .usable⟩, ⟨⟨0x11000⟩, 0x1800, .kernelAndModules⟩]
    let start := filled map [memoryMap] (.uniform 0xaa) (.empty none)
    let before : List Request := [.takeFrame]
    let after : List Request :=
      [.initHeap 0x2000, .allocate 100, .createTable, .returnFrame (.ofNumber 1),
        .mapPage (some ⟨.ofNumber 11⟩) ⟨0xffff800000003000⟩ ⟨0x7000⟩ .large,
        .mapPage none ⟨0xffffffff80200000⟩ ⟨0x9000⟩ .small]
    let built := (start.performAll before).perform (.initPaging memoryMap image)
    Coverable map image memoryMap ∧
      ((memoryMap.filter Region.isUsable).Pairwise
        fun r r' => r.frames.toList.Disjoint r'.frames.toList) ∧
      start.PermitsAll before ∧
      (outcome (System.onPaging (Paging.initPaging memoryMap image))
        (start.performAll before).system).1.isSome ∧
      built.PermitsAll after ∧ (∀ q ∈ after, Spares map memoryMap q) ∧
      Covered map memoryMap (built.performAll after) := by
  intro map image memoryMap start before after built
  have hcover : Coverable map image memoryMap :=
    ⟨by decide +kernel, by decide +kernel, by decide +kernel⟩
  have hn : (memoryMap.filter Region.isUsable).Pairwise
      fun r r' => r.frames.toList.Disjoint r'.frames.toList := by decide
  have hbefore : start.PermitsAll before := by decide +kernel
  have hbuilt : (outcome (System.onPaging (Paging.initPaging memoryMap image))
      (start.performAll before).system).1.isSome := by decide +kernel
  have hafter : built.PermitsAll after := by decide +kernel
  have hspares : ∀ q ∈ after, Spares map memoryMap q := by
    simp only [after, List.forall_mem_cons]
    exact ⟨trivial, trivial, trivial, trivial, trivial,
      show ∀ f ∈ Region.wholeFrames memoryMap, _ by decide +kernel,
      fun _ h => absurd h List.not_mem_nil⟩
  exact ⟨hcover, hn, hbefore, hbuilt, hafter, hspares,
    covered_performAll hcover hn hbefore hbuilt hafter hspares⟩

end Ledger

end PagedMemory
