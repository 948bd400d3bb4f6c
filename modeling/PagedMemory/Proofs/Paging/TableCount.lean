import PagedMemory.Proofs.Agreement
import PagedMemory.Proofs.Paging.KernelMap
import PagedMemory.Proofs.Paging.Lifecycle
/-!
# How many tables a kernel map takes

A table is known by the way that leads to it from the root, and 4 KiB pages never take a table away.
So the tables of a tree are at all times the ends of the ways to the pages asked for so far: a
request makes those of its three tables that no request before it has made. `Spans` says so and
keeps count of the frames that are out. The way to a table is the leading bits of the addresses
below it, which gives the number of tables without a look at the tree.

If the supply runs dry, it has given away fewer frames than there are ways, since the way that it
failed is one of them.
-/
namespace PagedMemory

namespace PageTree

/-! ## Ways -/

/-- The ways to the tables of an address below the root: its PML3, its PML2 and its PML1 table. -/
def waysTo (va : VirtualAddress) : Finset (List TableIndex) :=
  {[(TableIndices.of va).pml4], pathToPml2 va, pathToPml1 va}

/-- The ways to the tables of some addresses; the root is at the end of the empty way. -/
def ways (xs : List VirtualAddress) : Finset (List TableIndex) :=
  xs.foldl (fun W x => W ∪ waysTo x) {[]}

theorem ways_concat (xs : List VirtualAddress) (x : VirtualAddress) :
    ways (xs ++ [x]) = ways xs ∪ waysTo x := by
  rw [ways, List.foldl_concat]
  rfl

theorem mem_ways {xs : List VirtualAddress} {p : List TableIndex} :
    p ∈ ways xs ↔ p = [] ∨ ∃ x ∈ xs, p ∈ waysTo x := by
  induction xs using List.reverseRecOn with
  | nil => simp [ways]
  | append_singleton xs x ih =>
    rw [ways_concat, Finset.mem_union, ih]
    simp only [List.mem_append, List.mem_singleton, or_and_right, exists_or, exists_eq_left,
      or_assoc]

theorem ways_mono {xs ys : List VirtualAddress} (h : xs ⊆ ys) : ways xs ⊆ ways ys := by
  intro p hp
  rw [mem_ways] at hp ⊢
  exact hp.imp_right fun ⟨x, hx, hpx⟩ => ⟨x, h hx, hpx⟩

/-- Bits `k` to 47 of an address. -/
def leadingBits (k : Nat) (x : VirtualAddress) : Nat := x.toNat / 2 ^ k % 2 ^ (48 - k)

/-- How many values bits `k` to 47 take. -/
def countLeading (k : Nat) (xs : List VirtualAddress) : Nat :=
  (xs.map (leadingBits k)).dedup.length

/-- The number of tables that 4 KiB pages at some addresses take: the root, and one for every value
of the bits that lead to a PML3, PML2 or PML1 table. -/
def tableCount (xs : List VirtualAddress) : Nat :=
  1 + countLeading 39 xs + countLeading 30 xs + countLeading 21 xs

theorem way_pml3_eq_iff (x y : VirtualAddress) :
    [(TableIndices.of x).pml4] = [(TableIndices.of y).pml4] ↔
      leadingBits 39 x = leadingBits 39 y := by
  rw [List.singleton_inj, Fin.ext_iff]
  rfl

theorem way_pml2_eq_iff (x y : VirtualAddress) :
    pathToPml2 x = pathToPml2 y ↔ leadingBits 30 x = leadingBits 30 y := by
  simp only [pathToPml2, List.cons.injEq, and_true, TableIndices.of, TableIndex.ofBits,
    Fin.mk.injEq, BitField.get, leadingBits]
  -- two fields of nine bits against one of 18
  change x.toNat / _ % _ = y.toNat / _ % _ ∧ x.toNat / _ % _ = y.toNat / _ % _ ↔ _
  omega

theorem way_pml1_eq_iff (x y : VirtualAddress) :
    pathToPml1 x = pathToPml1 y ↔ leadingBits 21 x = leadingBits 21 y := by
  rw [pathToPml1_eq_iff_region]
  simp only [PageKey.region, PageKey.of, leadingBits]
  omega

/-- Values are told apart by one function as by another, so they are as many. -/
theorem card_toFinset_map {α β γ : Type} [DecidableEq β] [DecidableEq γ] {f : α → β} {g : α → γ}
    (h : ∀ x y, f x = f y ↔ g x = g y) (xs : List α) :
    (xs.map f).toFinset.card = (xs.map g).toFinset.card := by
  induction xs with
  | nil => rfl
  | cons x xs ih =>
    have hmem : f x ∈ (xs.map f).toFinset ↔ g x ∈ (xs.map g).toFinset := by
      simp only [List.mem_toFinset, List.mem_map, h]
    simp only [List.map_cons, List.toFinset_cons]
    by_cases hx : f x ∈ (xs.map f).toFinset
    · rw [Finset.insert_eq_of_mem hx, Finset.insert_eq_of_mem (hmem.mp hx), ih]
    · rw [Finset.card_insert_of_notMem hx, Finset.card_insert_of_notMem (mt hmem.mpr hx), ih]

theorem ways_eq (xs : List VirtualAddress) :
    ways xs = insert [] ((xs.map fun x => [(TableIndices.of x).pml4]).toFinset ∪
      ((xs.map pathToPml2).toFinset ∪ (xs.map pathToPml1).toFinset)) := by
  ext p
  simp only [mem_ways, waysTo, Finset.mem_insert, Finset.mem_union, Finset.mem_singleton,
    List.mem_toFinset, List.mem_map]
  constructor
  · rintro (hp | ⟨x, hx, rfl | rfl | rfl⟩)
    · exact .inl hp
    · exact .inr (.inl ⟨x, hx, rfl⟩)
    · exact .inr (.inr (.inl ⟨x, hx, rfl⟩))
    · exact .inr (.inr (.inr ⟨x, hx, rfl⟩))
  · rintro (hp | ⟨x, hx, rfl⟩ | ⟨x, hx, rfl⟩ | ⟨x, hx, rfl⟩)
    · exact .inl hp
    · exact .inr ⟨x, hx, .inl rfl⟩
    · exact .inr ⟨x, hx, .inr (.inl rfl)⟩
    · exact .inr ⟨x, hx, .inr (.inr rfl)⟩

/-- There are as many ways as the leading bits of the addresses have values. -/
theorem card_ways (xs : List VirtualAddress) : (ways xs).card = tableCount xs := by
  have hlength : ∀ {f : VirtualAddress → List TableIndex} {n : Nat} {p : List TableIndex},
      (∀ x, (f x).length = n) → p ∈ (xs.map f).toFinset → p.length = n := by
    intro f n p hf hp
    obtain ⟨x, -, rfl⟩ := List.mem_map.mp (List.mem_toFinset.mp hp)
    exact hf x
  have hpml3 : ∀ {p}, p ∈ (xs.map fun x => [(TableIndices.of x).pml4]).toFinset → p.length = 1 :=
    hlength fun _ => rfl
  have hpml2 : ∀ {p}, p ∈ (xs.map pathToPml2).toFinset → p.length = 2 := hlength fun _ => rfl
  have hpml1 : ∀ {p}, p ∈ (xs.map pathToPml1).toFinset → p.length = 3 := hlength fun _ => rfl
  -- ways to different levels differ in length
  have hlower : Disjoint (xs.map pathToPml2).toFinset (xs.map pathToPml1).toFinset := by
    rw [Finset.disjoint_left]
    intro p hp hp'
    have := hpml2 hp
    have := hpml1 hp'
    omega
  have hupper : Disjoint (xs.map fun x => [(TableIndices.of x).pml4]).toFinset
      ((xs.map pathToPml2).toFinset ∪ (xs.map pathToPml1).toFinset) := by
    rw [Finset.disjoint_left]
    intro p hp hp'
    have := hpml3 hp
    rcases Finset.mem_union.mp hp' with hp' | hp'
    · have := hpml2 hp'
      omega
    · have := hpml1 hp'
      omega
  have hroot : [] ∉ (xs.map fun x => [(TableIndices.of x).pml4]).toFinset ∪
      ((xs.map pathToPml2).toFinset ∪ (xs.map pathToPml1).toFinset) := by
    simp [pathToPml2, pathToPml1]
  rw [ways_eq, Finset.card_insert_of_notMem hroot, Finset.card_union_of_disjoint hupper,
    Finset.card_union_of_disjoint hlower, card_toFinset_map way_pml3_eq_iff,
    card_toFinset_map way_pml2_eq_iff, card_toFinset_map way_pml1_eq_iff, List.card_toFinset,
    List.card_toFinset, List.card_toFinset, tableCount, countLeading, countLeading, countLeading]
  omega

/-! ## Trees and their ways -/

variable {F : Type} {space : AddressSpace} {ok : Store F → List Frame → Prop}
variable {map : DirectMap} {roots : List Frame} {root : Frame} {base : Nat}
variable {W : Finset (List TableIndex)} {s : Store F}

/-- The tables of a tree are at the ends of the ways in a set, and with them `base` other frames are
out. -/
def Spans (ok : Store F → List Frame → Prop) (map : DirectMap) (roots : List Frame) (root : Frame)
    (base : Nat) (W : Finset (List TableIndex)) (s : Store F) : Prop :=
  root ∈ roots ∧ (∀ p, p.length ≤ 3 → ((walk map s.ram root p).isSome ↔ p ∈ W)) ∧
    ∃ out, Stands ok map roots s out ∧ out.length = base + W.card

/-- The last frame was taken before there were tables at the ends of all ways in a set. -/
def RanDry [FrameSource F] (ok : Store F → List Frame → Prop) (base : Nat)
    (W : Finset (List TableIndex)) (t : Store F) : Prop :=
  ∃ s out, ok s out ∧ FrameSource.take s = .ok none t ∧ out.length < base + W.card

theorem RanDry.mono [FrameSource F] {t : Store F} (h : RanDry ok base W t)
    {W' : Finset (List TableIndex)} (hsub : W ⊆ W') : RanDry ok base W' t := by
  obtain ⟨s, out, hok, htake, hlt⟩ := h
  have := Finset.card_le_card hsub
  exact ⟨s, out, hok, htake, by omega⟩

/-- The ways that there are once a table was added to a tree. -/
theorem TableAdded.walk_isSome {out : List Frame} {parent f : Frame} {p : List TableIndex}
    {i : TableIndex} {t : Store F} (h : TableAdded ok map s out parent i f t)
    (hs : Stands ok map roots s out) (hroot : root ∈ roots) (hp : p.length ≤ 2)
    (hw : walk map s.ram root p = some parent) (hchild : child? map s.ram parent i = none)
    {q : List TableIndex} (hq : q.length ≤ 3) :
    (walk map t.ram root q).isSome ↔ (walk map s.ram root q).isSome ∨ q = p ++ [i] := by
  have hp3 : p.length ≤ 3 := Nat.le_succ_of_le hp
  by_cases hon : p ++ [i] <+: q
  · obtain ⟨u, rfl⟩ := hon
    have hold : walk map s.ram root (p ++ [i] ++ u) = none := by
      rw [walk_append, walk_concat_of_walk i hw, hchild, Option.bind_none]
    have hend : walk map t.ram root (p ++ [i]) = some f :=
      (walk_concat_of_walk i (hs.forest.walk_written hroot hp3 hw h.same)).trans h.child?_eq
    rw [hold, walk_append, hend, Option.bind_some]
    cases u with
    | nil => simp
    | cons j u => simp [walk_cons_of_unused (h.empty j)]
  · have hsame := hs.forest.sameAlong_write hroot hp3 hw h.same hroot (Nat.le_succ_of_le hq)
      fun hq' => hon hq'.2
    have hne : q ≠ p ++ [i] := fun he => hon (he ▸ List.prefix_rfl)
    rw [hsame.walk_eq]
    simp [hne]

/-- How an operation on a tree that is to span more ways is refused: the supply ran dry, or there
are numbers that do not fit into an entry. -/
def Short [FrameSource F] (ok : Store F → List Frame → Prop) (base : Nat)
    (W : Finset (List TableIndex)) (fit : Prop) : Stop MapError → Store F → Prop
  | .error _, t => RanDry ok base W t
  | .fault _, _ => ¬ fit

theorem Short.mono [FrameSource F] {fit fit' : Prop} {stop : Stop MapError} {t : Store F}
    (h : Short ok base W fit stop t) {W' : Finset (List TableIndex)} (hsub : W ⊆ W')
    (hfit : fit' → fit) : Short ok base W' fit' stop t := by
  cases stop with
  | error e => exact RanDry.mono h hsub
  | fault f => exact mt hfit h

/-- The frames that may be out all have numbers that fit into an entry. -/
def LowFrames (ok : Store F → List Frame → Prop) : Prop :=
  ∀ s out, ok s out → ∀ f ∈ out, f.number < 2 ^ 40

variable [FrameSource F]

/-- After an entry was followed, its way is among those of the tree. -/
theorem Spans.nextTable_ends (h : Spans ok space.window.map roots space.root base W s)
    (honest : FrameSource.Honest F space.window ok) {parent : Frame} {p : List TableIndex}
    (i : TableIndex) (level : TableLevel) (hp : p.length ≤ 2)
    (hw : walk space.window.map s.ram space.root p = some parent) :
    Ends (space.nextTable parent i level) s
      (fun f t => Spans ok space.window.map roots space.root base (insert (p ++ [i]) W) t ∧
        walk space.window.map t.ram space.root (p ++ [i]) = some f)
      (Short ok base (insert (p ++ [i]) W) (LowFrames ok)) := by
  obtain ⟨hroot, hways, out, hs, hcount⟩ := h
  have hp3 : p.length ≤ 3 := Nat.le_succ_of_le hp
  have hlength : (p ++ [i]).length ≤ 3 := by
    rw [List.length_append, List.length_singleton]
    omega
  have hstep := walk_concat_of_walk i hw
  -- a way that is missing adds one to the count of both frames and ways
  have hnew : child? space.window.map s.ram parent i = none →
      (insert (p ++ [i]) W).card = W.card + 1 := by
    intro hchild
    refine Finset.card_insert_of_notMem fun hmem => ?_
    have hthere := (hways _ hlength).mpr hmem
    rw [hstep, hchild] at hthere
    cases hthere
  refine (nextTable_cases honest hs.ok (hs.forest.owned hroot hp3 hw) i level).mono ?_ ?_
  · rintro f t (⟨hchild, rfl⟩ | ⟨hchild, hadded⟩)
    · have hmem : p ++ [i] ∈ W := (hways _ hlength).mp (by rw [hstep, hchild]; rfl)
      rw [Finset.insert_eq_of_mem hmem]
      exact ⟨⟨hroot, hways, out, hs, hcount⟩, hstep.trans hchild⟩
    · refine ⟨⟨hroot, ?_, f :: out, hadded.stands hs hroot hp hw, ?_⟩, ?_⟩
      · intro q hq
        rw [hadded.walk_isSome hs hroot hp hw hchild hq, hways q hq, Finset.mem_insert, or_comm]
      · rw [List.length_cons, hnew hchild, hcount]
        omega
      · exact (walk_concat_of_walk i (hs.forest.walk_written hroot hp3 hw hadded.same)).trans
          hadded.child?_eq
  · rintro stop t ⟨hchild, -, ⟨rfl, htake, -⟩ | ⟨rfl, g, hbig, hok⟩⟩
    · exact ⟨s, out, hs.ok, htake, by rw [hnew hchild, hcount]; omega⟩
    · exact fun hlow => absurd (hlow _ _ hok g List.mem_cons_self) (Nat.not_lt.mpr hbig)

/-- After a 4 KiB page was mapped, the ways to its tables are among those of the tree. -/
theorem Spans.mapPage_ends (h : Spans ok space.window.map roots space.root base W s)
    (honest : FrameSource.Honest F space.window ok) (va : VirtualAddress) (pa : PhysicalAddress) :
    Ends (space.mapPage va pa .small) s
      (fun _ t => Spans ok space.window.map roots space.root base (W ∪ waysTo va) t)
      (Short ok base (W ∪ waysTo va) (LowFrames ok ∧ pa.toNat < 2 ^ 52)) := by
  have hunion : W ∪ waysTo va = insert (pathToPml1 va) (insert (pathToPml2 va)
      (insert [(TableIndices.of va).pml4] W)) := by
    ext p
    simp only [waysTo, Finset.mem_union, Finset.mem_insert, Finset.mem_singleton]
    tauto
  rw [hunion, AddressSpace.mapPage]
  refine Ends.bind ((h.nextTable_ends honest (p := []) _ .pml3 (Nat.zero_le 2) rfl).mono
    (fun _ _ h => h) fun _ _ h => h.mono ?_ And.left) ?_
  · exact (Finset.subset_insert _ _).trans (Finset.subset_insert _ _)
  rintro pml3 s3 ⟨h3, hw3⟩
  refine Ends.bind ((h3.nextTable_ends honest (p := [_]) _ .pml2 (Nat.le_succ 1) hw3).mono
    (fun _ _ h => h) fun _ _ h => h.mono (Finset.subset_insert _ _) And.left) ?_
  rintro pml2 s2 ⟨h2, hw2⟩
  refine Ends.bind ((h2.nextTable_ends honest (p := pathToPml2 va) _ .pml1 (Nat.le_refl 2) hw2).mono
    (fun _ _ h => h) fun _ _ h => h.mono (Finset.Subset.refl _) And.left) ?_
  rintro pml1 s1 ⟨⟨hroot, hways, out, hs, hcount⟩, hw1⟩
  change walk space.window.map s1.ram space.root (pathToPml1 va) = some pml1 at hw1
  have hmem : pml1 ∈ out := hs.forest.owned (p := pathToPml1 va) hroot (Nat.le_refl 3) hw1
  simp only [table_eq honest hs.ok hmem, Ends.check_ok_bind_iff]
  cases hentry : Entry.leaf (.containing pa) with
  | error f =>
    rw [Ends.check_error_bind_iff]
    intro hfit
    obtain ⟨e, he⟩ := Entry.leaf_ok hfit.2
    cases hentry.symm.trans he
  | ok e =>
    rw [Ends.check_ok_bind_iff, Ends.updateRam_iff]
    have hsame : ∀ g ∈ out, ∀ j, (g, j) ≠ (pml1, (TableIndices.of va).pml1) →
        entryAt space.window.map (s1.ram.setEntry (space.window.map.aliasOf pml1)
          (TableIndices.of va).pml1 e) g j = entryAt space.window.map s1.ram g j :=
      fun g _ j hj => entryAt_setEntry_of_ne s1.ram e hj
    obtain ⟨hforest, -⟩ := hs.forest.writeSmall hroot hw1 hsame rfl
    refine ⟨hroot, ?_, out, ⟨ok_setEntry honest hs.ok hmem _ e, hforest⟩, hcount⟩
    -- a leaf is at the end of a fourth step, behind all ways
    intro p hp
    have hlength : (pathToPml1 va).length ≤ 3 := Nat.le_refl 3
    have hoff : ¬ (space.root = space.root ∧
        pathToPml1 va ++ [(TableIndices.of va).pml1] <+: p) := by
      rintro ⟨-, hpre⟩
      have : 4 ≤ p.length := hpre.length_le
      omega
    have hwalk := (hs.forest.sameAlong_write hroot hlength hw1 hsame hroot (Nat.le_succ_of_le hp)
      hoff).walk_eq
    change (walk _ _ _ p).isSome = true ↔ _
    rw [hwalk]
    exact hways p hp

/-- A new tree spans the empty way only. -/
theorem create_spans {w : Window} (honest : FrameSource.Honest F w ok) {out : List Frame}
    (h : Stands ok w.map roots s out) :
    Ends (AddressSpace.create w) s
      (fun space t => space.window = w ∧
        Spans ok w.map (space.root :: roots) space.root out.length {[]} t)
      (fun stop t => stop = .error (.outOfMemory .pml4) ∧ FrameSource.take s = .ok none t) := by
  refine (create_cases honest h.ok).mono ?_ fun _ _ ht => ⟨ht.1, ht.2.1⟩
  intro space t ht
  obtain ⟨hw, hroot, hok, hsame, hempty⟩ := ht
  refine ⟨hw, List.mem_cons_self, ?_, space.root :: out,
    ⟨hok, h.forest.plant hroot hsame hempty⟩, rfl⟩
  intro p hp
  cases p with
  | nil => simp
  | cons i p => simp [walk_cons_of_unused (hempty i)]

end PageTree

namespace Paging

open PageTree FramePool

variable {space : AddressSpace} {image : KernelImage} {memoryMap : List Region}

/-! ## Requests one after the other -/

section

variable {P : List MapRequest → PagingStore → Prop} {stop : Stop PagingError → PagingStore → Prop}

/-- What holds of the requests so far and of the state, and is kept by every request, holds after
frames were mapped. -/
theorem mapFrames_ends_of {virtualOf : PhysicalAddress → VirtualAddress} (fs : List Frame)
    (hpage : ∀ q ∈ frameRequests virtualOf fs, ∀ qs s, P qs s →
      Ends (mapPage space q.virt q.phys q.size) s (fun _ t => P (qs ++ [q]) t) stop)
    {qs : List MapRequest} {s : PagingStore} (h : P qs s) :
    Ends (mapFrames space virtualOf fs) s (fun _ t => P (qs ++ frameRequests virtualOf fs) t)
      stop := by
  induction fs generalizing qs s with
  | nil => rwa [frameRequests, List.map_nil, List.append_nil]
  | cons f rest ih =>
    have hsplit : frameRequests virtualOf (f :: rest) =
        ⟨virtualOf f.base, f.base, .small⟩ :: frameRequests virtualOf rest := List.map_cons ..
    rw [hsplit] at hpage ⊢
    obtain ⟨hfirst, hrest⟩ := List.forall_mem_cons.mp hpage
    rw [mapFrames, List.append_cons]
    exact Ends.bind (hfirst _ _ h) fun _ t ht => ih hrest ht

variable (hlog : ∀ qs s log, P qs s → P qs { s with store := { s.store with log } })

include hlog

theorem mapRegion_ends_of (r : Region)
    (hpage : ∀ q ∈ regionRequests space.window.map image r, ∀ qs s, P qs s →
      Ends (mapPage space q.virt q.phys q.size) s (fun _ t => P (qs ++ [q]) t) stop)
    {qs : List MapRequest} {s : PagingStore} (h : P qs s) :
    Ends (mapRegion space image r) s
      (fun _ t => P (qs ++ regionRequests space.window.map image r) t) stop := by
  rw [mapRegion]
  rw [regionRequests] at hpage ⊢
  split
  · rw [List.append_nil]
    exact hlog _ _ _ h
  · rename_i hkind
    rw [if_neg hkind] at hpage
    exact Ends.bind (mapFrames_ends_of _ hpage h) fun _ t ht => hlog _ _ _ ht

theorem mapRegions_ends_of (rs : List Region)
    (hpage : ∀ q ∈ kernelRequests space.window.map image rs, ∀ qs s, P qs s →
      Ends (mapPage space q.virt q.phys q.size) s (fun _ t => P (qs ++ [q]) t) stop)
    (qs : List MapRequest) {s : PagingStore} (h : P qs s) :
    Ends (mapRegions space image rs) s
      (fun _ t => P (qs ++ kernelRequests space.window.map image rs) t) stop := by
  induction rs generalizing qs s with
  | nil => rwa [kernelRequests, List.flatMap_nil, List.append_nil]
  | cons r rest ih =>
    rw [kernelRequests, List.flatMap_cons, ← kernelRequests] at hpage ⊢
    obtain ⟨hfirst, hrest⟩ := List.forall_mem_append.mp hpage
    rw [mapRegions, ← List.append_assoc]
    exact Ends.bind (mapRegion_ends_of hlog r hfirst h) fun _ t ht => ih hrest _ ht

end

/-! ## The kernel map -/

variable {F : Type} {map : DirectMap} {total : Nat} {fs : List Frame} {m : Ram} {s t : PagingStore}

/-- The virtual addresses at which the kernel map has a page. -/
def kernelPages (map : DirectMap) (image : KernelImage) (memoryMap : List Region) :
    List VirtualAddress :=
  (kernelRequests map image memoryMap).map MapRequest.virt

/-- The number of tables that the kernel map takes. -/
def kernelTables (map : DirectMap) (image : KernelImage) (memoryMap : List Region) : Nat :=
  tableCount (kernelPages map image memoryMap)

/-- A pool that refuses a frame has none left. -/
theorem holds_nil_of_take {s t : Store FramePool} {out : List Frame}
    (h : Supplies map total [] fs m s out) (htake : FrameSource.take s = .ok none t) :
    t.frames.Holds t.ram [] ∧ out.length = fs.length := by
  obtain ⟨taken, rest, rfl, rfl, hrest⟩ := h.taken
  cases rest with
  | nil =>
    cases (take?_of_nil hrest).symm.trans htake
    exact ⟨hrest, by simp⟩
  | cons f rest =>
    obtain ⟨pool, hsome, -⟩ := take?_of_cons hrest
    cases hsome.symm.trans htake

theorem honest_alone (hn : fs.Nodup) :
    FrameSource.Honest FramePool (.whole map) (Supplies map total [] fs m) := honest_supplies hn

/-- What a pool keeps once a number of frames are out. -/
theorem holds_drop_of_supplies {s : Store FramePool} {out : List Frame}
    (h : Supplies map total [] fs m s out) :
    out.length ≤ fs.length ∧ s.frames.Holds s.ram (fs.drop out.length) := by
  obtain ⟨taken, rest, rfl, rfl, hrest⟩ := h.taken
  have hlength : (taken.reverse ++ []).length = taken.length := by simp
  rw [hlength, List.drop_left, List.length_append]
  exact ⟨Nat.le_add_right _ _, hrest⟩

/-- All numbers that may have to go into entries fit: those of free frames and of frames to map. -/
def Fit (fs : List Frame) (memoryMap : List Region) : Prop :=
  (∀ f ∈ fs, f.number < 2 ^ 40) ∧
    ∀ r ∈ memoryMap, r.kind ≠ .badMemory → ∀ f ∈ r.coveringFrames.toList, f.number < 2 ^ 40

/-- How building the kernel map is refused: there are fewer free frames than tables and all of them
are gone, or there are numbers that do not fit into an entry. Without a single free frame it is the
root that is missing, otherwise a table on the way to a page. -/
def Refused (tables : Nat) (fs : List Frame) (memoryMap : List Region) :
    Stop PagingError → PagingStore → Prop
  | .error e, t => fs.length < tables ∧ t.store.frames.Holds t.store.ram [] ∧
    if fs = [] then e = .outOfMemory (.outOfMemory .pml4)
    else ∃ virt phys level, e = .mapping virt phys (.outOfMemory level)
  | .fault _, _ => ¬ Fit fs memoryMap

/-- The requests so far are some of those for the kernel map, and the tree has tables for them. -/
def Underway (map : DirectMap) (total : Nat) (fs : List Frame) (m : Ram) (image : KernelImage)
    (memoryMap : List Region) (root : Frame) (qs : List MapRequest) (s : PagingStore) : Prop :=
  qs ⊆ kernelRequests map image memoryMap ∧
    Spans (Supplies map total [] fs m) map [root] root 0 (ways (qs.map MapRequest.virt)) s.store

/-- The root is the first frame that is taken. -/
theorem createSpace_underway (hpool : s.store.frames.Holds s.store.ram fs)
    (image : KernelImage) (memoryMap : List Region) :
    Ends createSpace s
      (fun space t => space.window = .whole s.store.frames.map ∧ fs ≠ [] ∧
        Underway s.store.frames.map s.store.frames.total fs s.store.ram image memoryMap space.root
          [] t)
      (Refused (kernelTables s.store.frames.map image memoryMap) fs memoryMap) := by
  have hstands : Stands (Supplies s.store.frames.map s.store.frames.total [] fs s.store.ram)
      s.store.frames.map [] s.store [] :=
    ⟨supplies_self hpool, fun h => absurd h List.not_mem_nil, fun h => absurd h List.not_mem_nil⟩
  rw [createSpace, Ends.get_bind_iff]
  refine Ends.onPart (Ends.mapError ((create_spans (w := .whole s.store.frames.map)
    (honest_alone hpool.nodup) hstands).mono ?_ ?_))
  · rintro space t ⟨hw, hspans⟩
    obtain ⟨-, -, out, hs, hcount⟩ := id hspans
    refine ⟨hw, ?_, List.nil_subset _, hspans⟩
    rintro rfl
    have hle := (holds_drop_of_supplies hs.ok).1
    rw [hcount] at hle
    simp at hle
  · rintro stop t ⟨rfl, htake⟩
    obtain ⟨hdry, hlength⟩ := holds_nil_of_take hstands.ok htake
    cases List.length_eq_zero_iff.mp hlength.symm
    refine ⟨?_, hdry, by rw [if_pos rfl]⟩
    rw [List.length_nil, kernelTables, tableCount]
    omega

/-- Each page adds the tables that are missing for it. -/
theorem mapPage_underway (hn : fs.Nodup) (hfs : fs ≠ []) (hw : space.window = .whole map)
    {q : MapRequest} (hq : q ∈ kernelRequests map image memoryMap) {qs : List MapRequest}
    (h : Underway map total fs m image memoryMap space.root qs s) :
    Ends (mapPage space q.virt q.phys q.size) s
      (fun _ t => Underway map total fs m image memoryMap space.root (qs ++ [q]) t)
      (Refused (kernelTables map image memoryMap) fs memoryMap) := by
  obtain ⟨window, root⟩ := space
  cases hw
  have hsub : qs ++ [q] ⊆ kernelRequests map image memoryMap :=
    List.append_subset.mpr ⟨h.1, List.cons_subset.mpr ⟨hq, List.nil_subset _⟩⟩
  have hways : ways (qs.map MapRequest.virt) ∪ waysTo q.virt =
      ways ((qs ++ [q]).map MapRequest.virt) := by
    rw [List.map_append, List.map_singleton, ways_concat]
  rw [size_of_mem_kernelRequests hq]
  have hpage : Ends (AddressSpace.mapPage ⟨.whole map, root⟩ q.virt q.phys .small) s.store _ _ :=
    Spans.mapPage_ends h.2 (honest_alone hn) q.virt q.phys
  rw [hways] at hpage
  refine Ends.onPart (Ends.mapError (hpage.mono (fun _ t ht => ⟨hsub, ht⟩) ?_))
  intro stop t ht
  cases stop with
  | error e =>
    obtain ⟨u, out, hok, htake, hlt⟩ := ht
    obtain ⟨hdry, hlength⟩ := holds_nil_of_take hok htake
    have hle := Finset.card_le_card (ways_mono (List.map_subset MapRequest.virt hsub))
    have hcard := card_ways (kernelPages map image memoryMap)
    rw [kernelPages] at hcard
    refine ⟨?_, hdry, ?_⟩
    · rw [kernelTables, kernelPages]
      omega
    · rw [if_neg hfs]
      exact ⟨q.virt, q.phys, e.level, rfl⟩
  | fault f =>
    rintro ⟨hlow, hmap⟩
    refine ht ⟨fun u out hu f hf => hlow f (hu.subset hf), ?_⟩
    obtain ⟨r, hr, hkind, g, hg, rfl⟩ := mem_kernelRequests.mp hq
    have hbase : g.base.toNat = g.number * 4096 := g.toNat_base
    have := hmap r hr hkind g hg
    show g.base.toNat < 2 ^ 52
    omega

/-- Building the kernel map takes one frame for each of its tables, from the front of the list. -/
theorem initPaging_takes (hpool : s.store.frames.Holds s.store.ram fs)
    (hmissing : s.kernelMap = .missing) (memoryMap : List Region) (image : KernelImage) :
    Ends (initPaging memoryMap image) s
      (fun _ t => kernelTables s.store.frames.map image memoryMap ≤ fs.length ∧
        t.store.frames.Holds t.store.ram
          (fs.drop (kernelTables s.store.frames.map image memoryMap)) ∧
        t.store.frames.map = s.store.frames.map ∧ t.store.frames.total = s.store.frames.total)
      (Refused (kernelTables s.store.frames.map image memoryMap) fs memoryMap) := by
  have hroot : s.kernelMap.root?.isSome = false := by rw [hmissing]; rfl
  rw [initPaging, Ends.get_bind_iff, hroot]
  simp only [Bool.false_eq_true, if_false]
  refine Ends.bind (createSpace_underway hpool image memoryMap) ?_
  rintro space t ⟨hw, hfs, ht⟩
  have hmap : space.window.map = s.store.frames.map := by rw [hw]; rfl
  refine Ends.bind (mapRegions_ends_of (P := Underway s.store.frames.map s.store.frames.total fs
    s.store.ram image memoryMap space.root) ?logged memoryMap ?page [] ht) ?built
  case built =>
    rintro - u ⟨-, -, -, out, hs, hcount⟩
    rw [List.nil_append, hmap, card_ways, Nat.zero_add] at hcount
    obtain ⟨hle, hdrop⟩ := holds_drop_of_supplies hs.ok
    rw [hcount] at hle hdrop
    exact ⟨hle, hdrop, hs.ok.map_eq, hs.ok.total_eq⟩
  case logged =>
    rintro qs u log ⟨hsub, hr, hways, out, hs, hcount⟩
    exact ⟨hsub, hr, hways, out, hs.log (w := .whole s.store.frames.map)
      (honest_alone hpool.nodup) log, hcount⟩
  case page =>
    intro q hq qs u hu
    rw [hmap] at hq
    exact mapPage_underway hpool.nodup hfs hw hq hu

/-- The kernel map can be built if and only if there is a free frame for each of its tables, which
then is all that it takes. Otherwise all free frames are gone and it is still missing. -/
theorem initPaging_takes_tables (hpool : s.store.frames.Holds s.store.ram fs)
    (hmissing : s.kernelMap = .missing) {memoryMap : List Region} {image : KernelImage}
    (hfit : Fit fs memoryMap) :
    let n := kernelTables s.store.frames.map image memoryMap
    let free := s.store.frames.free
    Ends (initPaging memoryMap image) s
      (fun root t => n ≤ free ∧ t.store.frames.free + n = free ∧ t.kernelMap = .built root ∧
        t.store.frames.freeFrames t.store.ram = (s.store.frames.freeFrames s.store.ram).drop n)
      (fun stop t => free < n ∧ t.store.frames.free = 0 ∧ t.kernelMap = .missing ∧
        if free = 0 then stop = .error (.outOfMemory (.outOfMemory .pml4))
        else ∃ virt phys level, stop = .error (.mapping virt phys (.outOfMemory level))) := by
  intro n free
  have hfree : free = fs.length := hpool.free
  refine ((initPaging_takes hpool hmissing memoryMap image).and
    (kernelMap_initPaging memoryMap image s)).mono ?_ ?_
  · rintro root t ⟨⟨hle, hdrop, -, -⟩, -, hbuilt⟩
    have ht := hdrop.free
    rw [List.length_drop] at ht
    refine ⟨by omega, by omega, hbuilt, ?_⟩
    rw [hdrop.freeFrames_eq, hpool.freeFrames_eq]
  · rintro stop t ⟨hrefused, hkept, -⟩
    rw [hmissing] at hkept
    cases stop with
    | fault f => exact absurd hfit hrefused
    | error e =>
      obtain ⟨hlt, hdry, hcause⟩ := hrefused
      refine ⟨by omega, hdry.free, hkept, ?_⟩
      by_cases hfs : fs = []
      · rw [if_pos hfs] at hcause
        rw [if_pos (by rw [hfree, hfs]; rfl), hcause]
      · rw [if_neg hfs] at hcause
        obtain ⟨virt, phys, level, rfl⟩ := hcause
        rw [if_neg (by rw [hfree, List.length_eq_zero_iff]; exact hfs)]
        exact ⟨virt, phys, level, rfl⟩

/-- Regions that overlap and share frames, one of them across the bound of a 2 MiB region: they take
eight of nine frames. -/
theorem initPaging_takes_tables_overlapping :
    let map : DirectMap := ⟨0xffff800000000000⟩
    let image : KernelImage := ⟨0x3000, 0xffffffff80000000⟩
    let memoryMap : List Region :=
      [⟨⟨0x3800⟩, 0x900, .kernelAndModules⟩, ⟨⟨0x1ff800⟩, 0x1000, .reserved⟩,
        ⟨⟨0x1000⟩, 0x2800, .usable⟩, ⟨⟨0x2000⟩, 0x1000, .acpiNvs⟩]
    let frames : List Frame := (List.range 9).map fun n => .ofNumber (n + 16)
    let s := (System.ofFrames map frames).paging
    s.store.frames.Holds s.store.ram frames ∧ s.kernelMap = .missing ∧ Fit frames memoryMap ∧
      kernelTables map image memoryMap = 8 ∧
      ∃ root t, initPaging memoryMap image s = .ok root t ∧ t.kernelMap = .built root ∧
        t.store.frames.freeFrames t.store.ram = [.ofNumber 24] := by
  intro map image memoryMap frames s
  have hpool : s.store.frames.Holds s.store.ram frames :=
    System.holds_paging (System.holds_ofFrames map frames (by decide) (by decide))
  have hmap : s.store.frames.map = map := by decide +kernel
  have hmissing : s.kernelMap = .missing := rfl
  have hfit : Fit frames memoryMap := ⟨by decide, by decide +kernel⟩
  have hcount : kernelTables map image memoryMap = 8 := by decide +kernel
  have hlast : frames.drop 8 = [.ofNumber 24] := by decide
  -- nothing but these facts is used of the pool
  clear_value s
  have hends : Ends (initPaging memoryMap image) s _ _ :=
    initPaging_takes_tables hpool hmissing hfit
  simp only [hmap, hcount, hpool.free, hpool.freeFrames_eq, hlast] at hends
  have hok : Ends (initPaging memoryMap image) s _ (fun _ _ => False) :=
    hends.mono (fun _ _ h => h) fun _ _ h => absurd h.1 (by decide)
  obtain ⟨root, t, hrun, -, -, hbuilt, hleft⟩ := hok.exists_ok
  exact ⟨hpool, hmissing, hfit, hcount, root, t, hrun, hbuilt, hleft⟩

end Paging

end PagedMemory
