import PagedMemory.Proofs.Ownership.Footprint
/-!
# Trees apart from one another

Nothing keeps one tree from reaching into the tables of another one but the fact that every table
was taken from the pool once. With the forest that the books carry, a request changes leaves in the
one 2 MiB region that it is about, below the one root that it is about, however it ends. Trees are
made with a root that no other tree has.
-/
namespace PagedMemory

open PageTree

/-- Running a program on a part of a state changes that part only. -/
theorem exists_outcome_onPart {ε σ τ α : Type} (read : σ → τ) (write : τ → σ → σ)
    (x : EStateM ε τ α) (s : σ) : ∃ t, (outcome (onPart read write x) s).2 = write t s := by
  unfold outcome onPart
  cases x (read s) with
  | ok a t => exact ⟨t, rfl⟩
  | error e t => exact ⟨t, rfl⟩

namespace System

variable {ε α : Type} {s : System}

theorem kernelMap_onStore (x : EStateM ε (Store FramePool) α) (s : System) :
    (outcome (System.onStore x) s).2.kernelMap = s.kernelMap := by
  obtain ⟨t, ht⟩ := exists_outcome_onPart System.store System.setStore x s
  rw [onStore, ht]
  rfl

theorem Shared.kernelMap_onHeap (h : s.Shared) (x : EStateM ε HeapStore α) :
    (outcome (System.onHeap x) s).2.kernelMap = s.kernelMap := by
  obtain ⟨t, ht⟩ := exists_outcome_onPart System.heapStore System.setHeapStore x s
  rw [onHeap, ht, h.setHeapStore_eq]
  rfl

/-- Looking up the leaf of an address in a tree of a system. -/
theorem leaf_eq (s : System) (root : Frame) (x : VirtualAddress) :
    (Paging.space s.paging root).leaf s.ram x = .ok (leafOf s.store.frames.map s.ram root x) :=
  Paging.leaf_space s.paging root x

theorem translate_eq (s : System) (target : Option PageMap) (x : VirtualAddress) :
    Paging.translate s.paging target x = .ok ((Paging.targetRoot? s.paging target).bind fun root =>
      (leafOf s.store.frames.map s.ram root x).map (AddressSpace.leafTarget x)) :=
  Paging.translate_eq s.paging target x

end System

namespace Ledger

variable {map : DirectMap} {total : Nat} {all fs : List Frame} {l : Ledger}
variable {free live aside : List Run} {q : Request}

/-! ## What no other request touches -/

/-- Requests that are not about page tables make no tree. -/
theorem trees_perform (hshared : l.system.Shared) (hpaging : q.isPaging = false) :
    (l.perform q).system.kernelMap = l.system.kernelMap ∧ (l.perform q).trees = l.trees := by
  have hserved : ∀ others r, r.2.kernelMap = l.system.kernelMap →
      (l.served others r).system.kernelMap = l.system.kernelMap ∧
        (l.served others r).trees = l.trees := by
    intro others r hr
    rw [system_served, trees_served]
    exact ⟨hr, rfl⟩
  cases q with
  | takeFrame | returnFrame => exact ⟨System.kernelMap_onStore _ _, rfl⟩
  | initHeap | growHeap | free => exact ⟨hshared.kernelMap_onHeap _, rfl⟩
  | allocate | reallocate | allocLayout | allocZeroed | reallocLayout =>
    exact hserved _ _ (hshared.kernelMap_onHeap _)
  | write => exact ⟨rfl, rfl⟩
  | createTable | initPaging | mapPage | translate | loadKernelMap => cases hpaging

/-! ## What a request does to the trees -/

/-- Whether a request is about the 2 MiB region around an address in the tree below a root. -/
def Remaps (l : Ledger) (r : Frame) (x : VirtualAddress) : Request → Prop
  | .mapPage target virt _ _ =>
    Paging.targetRoot? l.system.paging target = some r ∧
      (PageKey.of x).region = (PageKey.of virt).region
  | _ => False

/-- What a request does to the trees: there is at most one more of them, and leaves change only
where the request is about them. -/
structure KeepsTrees (map : DirectMap) (q : Request) (l l' : Ledger) : Prop where
  roots : ∃ new : Option Frame, l'.roots.Perm (new.toList ++ l.roots) ∧ ∀ r ∈ new, r ∉ l.roots
  kernelRoot : l'.system.paging.kernelMap.root? = l.system.paging.kernelMap.root? ∨
    l.system.paging.kernelMap.root? = none ∧ ∃ memoryMap image, q = .initPaging memoryMap image
  leaves : ∀ r ∈ l.roots, ∀ x, ¬ l.Remaps r x q →
    leafOf map l'.system.ram r x = leafOf map l.system.ram r x

theorem KeepsTrees.nodup_roots {l' : Ledger} (h : KeepsTrees map q l l') (hn : l.roots.Nodup) :
    l'.roots.Nodup := by
  obtain ⟨new, hperm, hnew⟩ := h.roots
  refine hperm.nodup_iff.mpr ?_
  cases new with
  | none => exact hn
  | some r => exact List.nodup_cons.mpr ⟨hnew r rfl, hn⟩

namespace Balanced

/-- The ledger after an operation on page tables that leaves the trees alone but for a new one. -/
theorem keepsTrees_paged (h : Balanced map total all l fs free live aside) {t : PagingStore}
    (trees : List PageMap) (new : Option Frame)
    (hroots : (t.kernelMap.root?.toList ++ trees.map PageMap.root).Perm (new.toList ++ l.roots))
    (hnew : ∀ r ∈ new, r ∉ l.roots)
    (hkernel : t.kernelMap.root? = l.system.paging.kernelMap.root? ∨
      l.system.paging.kernelMap.root? = none ∧ ∃ memoryMap image, q = .initPaging memoryMap image)
    (hleaves : ∀ r ∈ l.roots, ∀ x, ¬ l.Remaps r x q →
      leafOf map t.store.ram r x = leafOf map l.system.ram r x) :
    KeepsTrees map q l { l.paged (l.system.setPaging t) with trees } := by
  have hpaging := h.shared.paging_setPaging t
  refine ⟨⟨new, ?_, hnew⟩, ?_, hleaves⟩
  · change ((l.system.setPaging t).paging.kernelMap.root?.toList ++ _).Perm _
    rw [hpaging]
    exact hroots
  · change (l.system.setPaging t).paging.kernelMap.root? = _ ∨ _
    rw [hpaging]
    exact hkernel

/-- What leaves the kernel map alone and makes no tree. -/
theorem keepsTrees_of_leads (h : Balanced map total all l fs free live aside)
    {same : Frame → VirtualAddress → Prop} {t : PagingStore}
    (ht : Paging.Leads map total l.tables fs l.system.ram l.roots same l.system.paging t)
    (hsame : ∀ r ∈ l.roots, ∀ x, ¬ l.Remaps r x q → same r x) :
    KeepsTrees map q l (l.paged (l.system.setPaging t)) := by
  have hkernel := congrArg KernelMap.root? ht.kernelMap
  refine h.keepsTrees_paged l.trees none ?_ (fun _ hr => nomatch hr)
    (.inl hkernel) fun r hr x hx => ht.leaves r x (hsame r hr x hx)
  rw [hkernel]
  exact .refl _

theorem keepsTrees_createTable (h : Balanced map total all l fs free live aside)
    (stock : Stock map all) : KeepsTrees map .createTable l (l.perform .createTable) := by
  refine Ends.outcome (p := fun r => KeepsTrees map .createTable l
    { l.paged r.2 with trees := r.1.toList ++ l.trees }) (Ends.onPart ?_)
  refine (h.rooted.createTable_ends (h.nodup_tables stock)).mono ?_ ?_
  · intro tree t ht
    obtain ⟨hfresh, ht⟩ := ht
    have hkernel := congrArg KernelMap.root? ht.kernelMap
    refine h.keepsTrees_paged (tree :: l.trees) (some tree.root) ?_ ?_ (.inl hkernel)
      fun r hr x _ => ht.leaves r x hr
    · rw [hkernel]
      exact List.perm_middle
    · intro r hr
      cases hr
      exact hfresh
  · intro _ t ht
    exact h.keepsTrees_of_leads ht fun r hr _ _ => hr

theorem keepsTrees_initPaging (h : Balanced map total all l fs free live aside)
    (stock : Stock map all) (memoryMap : List Region) (image : KernelImage) :
    KeepsTrees map (.initPaging memoryMap image) l (l.perform (.initPaging memoryMap image)) := by
  refine Ends.outcome (p := fun r => KeepsTrees map (.initPaging memoryMap image) l (l.paged r.2))
    (Ends.onPart ?_)
  refine (h.rooted.initPaging_ends (h.nodup_tables stock) memoryMap image).mono ?_ ?_
  · intro root t ht
    refine h.keepsTrees_paged l.trees (some root) ?_ ?_
      (.inr ⟨ht.missing, memoryMap, image, rfl⟩) fun r hr x _ => ht.leaves r hr x
    · rw [Ledger.roots, ht.missing, ht.kernelMap]
      exact .refl _
    · intro r hr
      cases hr
      exact ht.fresh
  · intro _ t ht
    exact h.keepsTrees_of_leads ht fun r hr _ _ => hr

theorem keepsTrees_mapPage (h : Balanced map total all l fs free live aside)
    (stock : Stock map all) {target : Option PageMap} (htarget : ∀ tree ∈ target, tree ∈ l.trees)
    (virt : VirtualAddress) (phys : PhysicalAddress) (size : PageSize) :
    KeepsTrees map (.mapPage target virt phys size) l
      (l.perform (.mapPage target virt phys size)) := by
  refine Ends.outcome (p := fun r => KeepsTrees map (.mapPage target virt phys size) l
    (l.paged r.2)) (Ends.onPart ?_)
  have hsame : ∀ r ∈ l.roots, ∀ x, ¬ l.Remaps r x (.mapPage target virt phys size) →
      ∀ root ∈ Paging.targetRoot? l.system.paging target,
        Paging.Outside l.roots root virt r x := by
    intro r hr x hx root hroot
    refine ⟨hr, ?_⟩
    rintro ⟨rfl, hregion⟩
    exact hx ⟨hroot, (pathToPml1_eq_iff_region x virt).mp hregion⟩
  refine (h.rooted.memoryMap_ends (h.nodup_tables stock) (root_mem_roots htarget) virt phys
    size).mono ?_ ?_
  · intro _ t ht
    exact h.keepsTrees_of_leads ht hsame
  · intro _ t ht
    exact h.keepsTrees_of_leads ht hsame

theorem keepsTrees_loadKernelMap (h : Balanced map total all l fs free live aside) :
    KeepsTrees map .loadKernelMap l (l.perform .loadKernelMap) := by
  refine Ends.outcome (p := fun r => KeepsTrees map .loadKernelMap l (l.paged r.2))
    (Ends.onPart ?_)
  refine h.rooted.loadKernelMap_ends.mono ?_ ?_
  · intro _ t ht
    obtain ⟨-, hkernel, hram⟩ := ht
    refine h.keepsTrees_paged l.trees none ?_ (fun _ hr => nomatch hr)
      (.inl hkernel) fun r _ x _ => congrArg (leafOf map · r x) hram
    rw [hkernel]
    exact .refl _
  · intro _ t ht
    subst ht
    exact h.keepsTrees_of_leads (.refl h.rooted fun _ _ => True) fun _ _ _ _ => trivial

/-- Requests that are not about page tables write to no table. -/
theorem keepsTrees_of_not_paging (h : Balanced map total all l fs free live aside)
    (stock : Stock map all) (hq : l.Permits q) (hpaging : q.isPaging = false) :
    KeepsTrees map q l (l.perform q) := by
  obtain ⟨hkernel, htrees⟩ := trees_perform h.shared hpaging
  have hmap : (l.perform q).system.paging.kernelMap = l.system.paging.kernelMap :=
    congrArg (fun k : Option KernelMap => k.getD .missing) hkernel
  refine ⟨⟨none, ?_, fun _ hr => nomatch hr⟩, .inl (congrArg KernelMap.root? hmap), ?_⟩
  · rw [Ledger.roots, hmap, htrees]
    exact .refl _
  · intro r hr x _
    exact h.forest.leafOf_congr (fun f hf i => h.entryAt_perform stock hq hpaging hf i) hr x

end Balanced

/-- A permitted request does to the trees what it is about and nothing else, however it ends. -/
theorem Sound.keepsTrees (h : Sound map total all l) (stock : Stock map all) (hq : l.Permits q) :
    KeepsTrees map q l (l.perform q) := by
  obtain ⟨fs, free, live, aside, h⟩ := h
  cases hpaging : q.isPaging with
  | false => exact h.keepsTrees_of_not_paging stock hq hpaging
  | true =>
    cases q with
    | createTable => exact h.keepsTrees_createTable stock
    | initPaging memoryMap image => exact h.keepsTrees_initPaging stock memoryMap image
    | mapPage target virt phys size =>
      refine h.keepsTrees_mapPage stock ?_ virt phys size
      intro tree htree
      cases htree
      exact hq
    | translate target virt =>
      exact ⟨⟨none, .refl _, fun _ hr => nomatch hr⟩, .inl rfl, fun _ _ _ _ => rfl⟩
    | loadKernelMap => exact h.keepsTrees_loadKernelMap
    | _ => cases hpaging

/-- The roots stay distinct in any run of permitted requests. -/
theorem Sound.nodup_roots_performAll (h : Sound map total all l) (stock : Stock map all)
    (hn : l.roots.Nodup) {requests : List Request} (hq : l.PermitsAll requests) :
    (l.performAll requests).roots.Nodup := by
  refine (h.run (motive := fun l => l.roots.Nodup) stock hq hn ?_).2
  intro l h hn q _ hq
  exact (h.keepsTrees stock hq).nodup_roots hn

/-! ## Looking addresses up -/

/-- Whether a request may change what is mapped in a target: it maps a page there, or it builds the
kernel map. -/
def Targets : Request → Option PageMap → Prop
  | .mapPage target .., other => other = target
  | .initPaging .., other => other = none
  | _, _ => False

/-- How the trees of a ledger stand apart, and how a request is about one of them at most. -/
structure Isolated (map : DirectMap) (l : Ledger) (q : Request) : Prop where
  nodup : l.roots.Nodup
  /-- No table is reached from two roots. -/
  apart : ∀ r ∈ l.roots, ∀ r' ∈ l.roots, r ≠ r' → ∀ p p' f, p.length ≤ 3 → p'.length ≤ 3 →
    walk map l.system.ram r p = some f → walk map l.system.ram r' p' ≠ some f
  /-- Every address is mapped in every other target as it was. -/
  translate : ∀ target, (∀ tree ∈ target, tree ∈ l.trees) → ¬ Targets q target → ∀ x,
    Paging.translate (l.perform q).system.paging target x =
      Paging.translate l.system.paging target x
  /-- The leaf that is found for it there is the same. -/
  leaf : ∀ target, (∀ tree ∈ target, tree ∈ l.trees) → ¬ Targets q target →
    ∀ root ∈ Paging.targetRoot? l.system.paging target, ∀ x,
      (Paging.space (l.perform q).system.paging root).leaf (l.perform q).system.ram x =
        (Paging.space l.system.paging root).leaf l.system.ram x

namespace KeepsTrees

variable {l' : Ledger}

/-- A target that a request is not about has the root that it had. -/
theorem targetRoot?_eq (h : KeepsTrees map q l l') {target : Option PageMap}
    (hq : ¬ Targets q target) :
    Paging.targetRoot? l'.system.paging target = Paging.targetRoot? l.system.paging target := by
  cases target with
  | some tree => rfl
  | none =>
    rcases h.kernelRoot with hsame | ⟨-, memoryMap, image, rfl⟩
    · exact hsame
    · exact absurd rfl hq

/-- With distinct roots, a request is about the region of no address in another target. -/
theorem not_remaps (hn : l.roots.Nodup) (hpermits : l.Permits q) {target : Option PageMap}
    (htarget : ∀ tree ∈ target, tree ∈ l.trees) (hq : ¬ Targets q target) {r : Frame}
    (hr : Paging.targetRoot? l.system.paging target = some r) (x : VirtualAddress) :
    ¬ l.Remaps r x q := by
  intro hremaps
  cases q with
  | mapPage own virt phys size =>
    refine hq ?_
    have hown := hremaps.1
    rw [Ledger.roots] at hn
    obtain ⟨-, htrees, hcross⟩ := List.nodup_append.mp hn
    cases target with
    | none =>
      cases own with
      | none => rfl
      | some tree =>
        cases hown
        exact absurd rfl (hcross _ (Option.mem_toList.mpr hr) _ (List.mem_map_of_mem hpermits))
    | some tree =>
      cases hr
      have hmem := htarget tree rfl
      cases own with
      | none =>
        exact absurd rfl (hcross _ (Option.mem_toList.mpr hown) _ (List.mem_map_of_mem hmem))
      | some tree' =>
        exact congrArg some (List.inj_on_of_nodup_map htrees hmem hpermits
          (Option.some.inj hown).symm)
  | _ => exact hremaps

end KeepsTrees

theorem Sound.isolated (h : Sound map total all l) (stock : Stock map all) (hn : l.roots.Nodup)
    (hq : l.Permits q) : Isolated map l q := by
  have hkeeps := h.keepsTrees stock hq
  obtain ⟨fs', free', live', aside', h'⟩ := h.perform stock hq
  obtain ⟨fs, free, live, aside, h⟩ := h
  have hmap := h.map_eq
  have hmap' := h'.map_eq
  have hleaf : ∀ target, (∀ tree ∈ target, tree ∈ l.trees) → ¬ Targets q target →
      ∀ root ∈ Paging.targetRoot? l.system.paging target, ∀ x,
        leafOf map (l.perform q).system.ram root x = leafOf map l.system.ram root x := by
    intro target htarget hother root hroot x
    exact hkeeps.leaves root (Balanced.root_mem_roots htarget root hroot) x
      (KeepsTrees.not_remaps hn hq htarget hother hroot x)
  constructor
  case nodup => exact hn
  case apart =>
    intro r hr r' hr' hne p p' f hp hp' hw hw'
    exact hne (h.forest.apart hr hr' hp hp' hw hw').1
  case translate =>
    intro target htarget hother x
    rw [System.translate_eq, System.translate_eq, hkeeps.targetRoot?_eq hother, hmap, hmap']
    cases hroot : Paging.targetRoot? l.system.paging target with
    | none => rw [Option.bind_none, Option.bind_none]
    | some root =>
      rw [Option.bind_some, Option.bind_some, hleaf target htarget hother root hroot x]
  case leaf =>
    intro target htarget hother root hroot x
    rw [System.leaf_eq, System.leaf_eq, hmap, hmap', hleaf target htarget hother root hroot x]

/-- After any run of permitted requests, one more of them, however it ends, changes nothing in any
tree but the one that it is about. -/
theorem isolated_performAll {memoryMaps : List (List Region)} {m : Ram} {log : Log}
    (hn : (memoryMaps.flatten.filter Region.isUsable).Pairwise
      fun r r' => r.frames.toList.Disjoint r'.frames.toList)
    {requests : List Request} (hrun : (filled map memoryMaps m log).PermitsAll requests)
    (hq : ((filled map memoryMaps m log).performAll requests).Permits q) :
    Isolated map ((filled map memoryMaps m log).performAll requests) q := by
  obtain ⟨stock, hstart⟩ := sound_filled map (Region.nodup_wholeFrames hn) m log
  have hroots := hstart.nodup_roots_performAll stock List.nodup_nil hrun
  exact (hstart.performAll stock hrun).isolated stock hroots hq

/-- Two trees beside a kernel map; a 2 MiB page is mapped in the first one, over a 4 KiB page. -/
theorem isolated_performAll_two_trees :
    let map : DirectMap := ⟨0xffff800000000000⟩
    let memoryMap : List Region := [⟨⟨0x1000⟩, 0xb000, .usable⟩]
    let start := filled map [memoryMap] (.uniform 0xaa) (.empty none)
    let requests : List Request :=
      [.createTable, .createTable, .initPaging memoryMap ⟨0, 0⟩,
        .mapPage (some ⟨.ofNumber 1⟩) ⟨0x40201000⟩ ⟨0x5000⟩ .small]
    let q : Request := .mapPage (some ⟨.ofNumber 1⟩) ⟨0x40200000⟩ ⟨0x80200000⟩ .large
    let l := start.performAll requests
    (([memoryMap].flatten.filter Region.isUsable).Pairwise
        fun r r' => r.frames.toList.Disjoint r'.frames.toList) ∧
      start.PermitsAll requests ∧ l.Permits q ∧ l.roots.map Page.number = [3, 2, 1] ∧
      Isolated map l q := by
  intro map memoryMap start requests q l
  have hn : ([memoryMap].flatten.filter Region.isUsable).Pairwise
      fun r r' => r.frames.toList.Disjoint r'.frames.toList := by decide
  have hrun : start.PermitsAll requests := by decide +kernel
  have hq : l.Permits q := by decide +kernel
  exact ⟨hn, hrun, hq, by decide +kernel, isolated_performAll hn hrun hq⟩

end Ledger

end PagedMemory
