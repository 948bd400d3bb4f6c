import PagedMemory.Proofs.Paging.Mapping
/-!
# The map that a tree of page tables stands for

An `AddressMap` says of every virtual page what it is mapped to: to a frame, or to its part of a
2 MiB page. Requests change it without regard to tables. The tree that `create` and `mapPage` build
in memory is such a map in another form: whatever requests were carried out, looking an address up
in the tree gives what the map says about its page.
-/
namespace PagedMemory

/-- The pages that translation tells apart: bits 12 to 47 of an address. -/
abbrev PageKey := Fin (2 ^ 36)

namespace PageKey

/-- The page of an address. -/
def of (x : VirtualAddress) : PageKey := ⟨x.toNat / 4096 % 2 ^ 36, Nat.mod_lt _ (by decide)⟩

/-- The 2 MiB region of a page: bits 21 to 47. -/
def region (k : PageKey) : Nat := k.val / 512

end PageKey

/-- What a page is mapped to: a frame, or its part of a 2 MiB page. -/
inductive Mapping
  | small (frame : Frame)
  | large (page : Page .physical .large)

namespace Mapping

/-- The size of the leaf behind a mapping. -/
def size : Mapping → PageSize
  | small _ => .small
  | large _ => .large

/-- Where a mapping leads an address. -/
def target (x : VirtualAddress) : Mapping → PhysicalAddress
  | small frame => frame.join (x.offset .small)
  | large page => page.join (x.offset .large)

/-- The mapping that a leaf stands for. -/
def ofLeaf : Entry × PageSize → Mapping
  | (e, .small) => small e.frame
  | (e, .large) => large e.largePage

theorem size_ofLeaf (l : Entry × PageSize) : (ofLeaf l).size = l.2 := by
  obtain ⟨e, size⟩ := l
  cases size <;> rfl

theorem target_ofLeaf (x : VirtualAddress) (l : Entry × PageSize) :
    (ofLeaf l).target x = AddressSpace.leafTarget x l := by
  obtain ⟨e, size⟩ := l
  cases size <;> rfl

end Mapping

/-- What every page is mapped to, if it is mapped. -/
def AddressMap := PageKey → Option Mapping

namespace AddressMap

/-- The map of nothing. -/
def empty : AddressMap := fun _ => none

/-- Maps the whole 2 MiB region of an address. -/
def insertLarge (M : AddressMap) (va : VirtualAddress) (p : Page .physical .large) : AddressMap :=
  fun k => if k.region = (PageKey.of va).region then some (.large p) else M k

/-- Takes the 2 MiB mapping around an address away, if there is one. -/
def removeLarge (M : AddressMap) (va : VirtualAddress) : AddressMap := fun k =>
  if (M (.of va)).map Mapping.size = some .large ∧ k.region = (PageKey.of va).region then none
  else M k

/-- Maps the page of an address, after a 2 MiB mapping around it is gone. -/
def insertSmall (M : AddressMap) (va : VirtualAddress) (f : Frame) : AddressMap :=
  fun k => if k = .of va then some (.small f) else M.removeLarge va k

end AddressMap

/-- A request to map the page of a size around a virtual address to the one around a physical
address. -/
structure MapRequest where
  virt : VirtualAddress
  phys : PhysicalAddress
  size : PageSize

namespace AddressMap

/-- What a request that succeeds does to the map. -/
def carryOut (M : AddressMap) (q : MapRequest) : AddressMap :=
  match q.size with
  | .large => M.insertLarge q.virt (.containing q.phys)
  | .small => M.insertSmall q.virt (.containing q.phys)

/-- What requests do to the map that succeed one after the other. -/
def carryOutAll (M : AddressMap) (qs : List MapRequest) : AddressMap := qs.foldl carryOut M

theorem carryOutAll_append (M : AddressMap) (qs qs' : List MapRequest) :
    M.carryOutAll (qs ++ qs') = (M.carryOutAll qs).carryOutAll qs' := List.foldl_append

end AddressMap

namespace AddressMap

/-- A 2 MiB mapping is the mapping of all pages of its region. -/
def Whole (M : AddressMap) : Prop :=
  ∀ (k k' : PageKey) (p), k.region = k'.region → M k = some (.large p) → M k' = some (.large p)

theorem whole_empty : empty.Whole := fun _ _ _ _ h => nomatch h

theorem Whole.insertLarge {M : AddressMap} (h : M.Whole) (va : VirtualAddress)
    (p : Page .physical .large) : (M.insertLarge va p).Whole := by
  intro k k' p' hk hq
  rw [AddressMap.insertLarge] at hq ⊢
  rw [← hk]
  by_cases hr : k.region = (PageKey.of va).region
  · rwa [if_pos hr] at hq ⊢
  · rw [if_neg hr] at hq ⊢
    exact h k k' p' hk hq

/-- A 4 KiB mapping takes the place of a 2 MiB mapping as a whole. -/
theorem Whole.insertSmall {M : AddressMap} (h : M.Whole) (va : VirtualAddress) (f : Frame) :
    (M.insertSmall va f).Whole := by
  intro k k' p' hk hq
  simp only [AddressMap.insertSmall, removeLarge] at hq ⊢
  split at hq
  · cases hq
  · split at hq
    · cases hq
    · rename_i hkeep
      have hva : k' ≠ .of va := by
        rintro rfl
        exact hkeep ⟨congrArg (Option.map Mapping.size) (h k _ p' hk hq), hk⟩
      rw [if_neg hva, if_neg (by rwa [← hk]), h k k' p' hk hq]

theorem Whole.carryOut {M : AddressMap} (h : M.Whole) (q : MapRequest) : (M.carryOut q).Whole := by
  rw [AddressMap.carryOut]
  split
  · exact h.insertLarge _ _
  · exact h.insertSmall _ _

end AddressMap

namespace PageTree

variable {map : DirectMap} {m n : Ram} {r : Frame}

/-! ## Indices and bits -/

/-- Addresses agree in the upper three indices if they lie in one 2 MiB region. -/
theorem pathToPml1_eq_iff_region (x y : VirtualAddress) :
    pathToPml1 x = pathToPml1 y ↔ (PageKey.of x).region = (PageKey.of y).region := by
  simp only [pathToPml1, pathToPml2, List.cons_append, List.nil_append, List.cons.injEq, and_true,
    TableIndices.of, TableIndex.ofBits, Fin.mk.injEq, BitField.get, PageKey.region, PageKey.of]
  -- three fields of nine bits against one of 27
  change x.toNat / _ % _ = y.toNat / _ % _ ∧ x.toNat / _ % _ = y.toNat / _ % _ ∧
    x.toNat / _ % _ = y.toNat / _ % _ ↔ _
  omega

/-- They agree in all indices if they lie in one page. -/
theorem path_eq_iff_page (x y : VirtualAddress) :
    path x = path y ↔ PageKey.of x = PageKey.of y := by
  rw [path_eq_iff, pathToPml1_eq_iff_region]
  simp only [TableIndices.of, TableIndex.ofBits, Fin.mk.injEq, BitField.get, PageKey.region,
    PageKey.of]
  change _ ∧ x.toNat / _ % _ = y.toNat / _ % _ ↔ _
  omega

/-! ## Trees that stand for a map -/

/-- The tree below a root stands for a map: every address has the leaf that the map names. -/
def Represents (map : DirectMap) (m : Ram) (r : Frame) (M : AddressMap) : Prop :=
  ∀ x, (leafOf map m r x).map Mapping.ofLeaf = M (.of x)

/-- A 2 MiB leaf is the leaf of all addresses of its region. -/
theorem leafOf_of_large {x y : VirtualAddress} {e : Entry} (h : pathToPml1 x = pathToPml1 y)
    (hx : leafOf map m r x = some (e, .large)) : leafOf map m r y = some (e, .large) := by
  obtain ⟨h2, hi⟩ := (pathToPml1_eq_iff x y).mp h
  cases hw : walk map m r (pathToPml1 x) with
  | none =>
    have hy : walk map m r (pathToPml1 y) = none := h ▸ hw
    rw [leafOf_of_walk_none hy, ← h2, ← hi, ← leafOf_of_walk_none hw, hx]
  | some f =>
    rw [leafOf_of_pml1 hw, smallLeaf] at hx
    have hsize := congrArg (Option.map Prod.snd) hx
    split at hsize <;> simp at hsize

theorem ofLeaf_leafEntry_small {pa : PhysicalAddress} {e : Entry}
    (h : leafEntry pa .small = .ok e) : Mapping.ofLeaf (e, .small) = .small (.containing pa) :=
  congrArg Mapping.small (Entry.frame_of_leaf h)

theorem ofLeaf_leafEntry_large {pa : PhysicalAddress} {e : Entry}
    (h : leafEntry pa .large = .ok e) : Mapping.ofLeaf (e, .large) = .large (.containing pa) :=
  congrArg Mapping.large (Entry.largePage_of_largeLeaf h)

/-- What is left of the leaves of a region when its 2 MiB mapping is taken away. -/
theorem Represents.removeLarge {M : AddressMap} (h : Represents map m r M) {x va : VirtualAddress}
    (hx : pathToPml1 x = pathToPml1 va) :
    ((leafOf map m r x).filter fun l => l.2 = .small).map Mapping.ofLeaf =
      M.removeLarge va (.of x) := by
  have hregion := (pathToPml1_eq_iff_region x va).mp hx
  simp only [AddressMap.removeLarge, ← h x, ← h va, hregion, and_true]
  cases hold : leafOf map m r x with
  | none => simp
  | some l =>
    obtain ⟨e, size⟩ := l
    cases size with
    | large =>
      rw [leafOf_of_large hx hold]
      exact (if_pos rfl).symm
    | small =>
      refine (if_neg ?_).symm
      intro hlarge
      -- a 2 MiB leaf at `va` would be the leaf of `x` too
      cases hva : leafOf map m r va with
      | none => simp [hva] at hlarge
      | some l' =>
        obtain ⟨e', size'⟩ := l'
        simp only [hva, Option.map_some, Mapping.size_ofLeaf, Option.some.injEq] at hlarge
        subst hlarge
        exact nomatch hold.symm.trans (leafOf_of_large hx.symm hva)

/-- Outside of its region nothing is taken away. -/
theorem removeLarge_of_region_ne (M : AddressMap) {k : PageKey} {va : VirtualAddress}
    (hk : k.region ≠ (PageKey.of va).region) : M.removeLarge va k = M k :=
  if_neg fun h => hk h.2

/-- A request that changes the leaves of a tree as `leafAfter` says changes the map alike. -/
theorem Represents.carryOut {M : AddressMap} (h : Represents map m r M) {va : VirtualAddress}
    {pa : PhysicalAddress} {size : PageSize} {e : Entry} (he : leafEntry pa size = .ok e)
    (hleaf : ∀ x, leafOf map n r x = leafAfter va x size e (leafOf map m r x)) :
    Represents map n r (M.carryOut ⟨va, pa, size⟩) := by
  intro x
  have hregion := pathToPml1_eq_iff_region x va
  rw [hleaf x]
  cases size with
  | large =>
    simp only [leafAfter, AddressMap.carryOut, AddressMap.insertLarge]
    by_cases hx : pathToPml1 x = pathToPml1 va
    · rw [if_pos hx, if_pos (hregion.mp hx), Option.map_some, ofLeaf_leafEntry_large he]
    · rw [if_neg hx, if_neg (mt hregion.mpr hx), h x]
  | small =>
    have hpage := path_eq_iff_page x va
    simp only [leafAfter, AddressMap.carryOut, AddressMap.insertSmall]
    by_cases hx : path x = path va
    · rw [if_pos hx, if_pos (hpage.mp hx), Option.map_some, ofLeaf_leafEntry_small he]
    · rw [if_neg hx, if_neg (mt hpage.mpr hx)]
      by_cases hx1 : pathToPml1 x = pathToPml1 va
      · rw [if_pos hx1, h.removeLarge hx1]
      · rw [if_neg hx1, h x, removeLarge_of_region_ne M (mt hregion.mpr hx1)]

/-! ## Looking an address up -/

/-- Looking an address up finds its leaf if every table on the way can be reached. -/
theorem leaf_eq {space : AddressSpace}
    (h : ∀ p f, p.length ≤ 3 → walk space.window.map m space.root p = some f →
      space.window.table f = .ok (space.window.map.aliasOf f)) (va : VirtualAddress) :
    space.leaf m va = .ok (leafOf space.window.map m space.root va) := by
  have hentry : ∀ {p f}, p.length ≤ 3 → walk space.window.map m space.root p = some f → ∀ i,
      space.entry m f i = .ok (entryAt space.window.map m f i) := by
    intro p f hp hw i
    rw [AddressSpace.entry, h p f hp hw]
    rfl
  simp only [AddressSpace.leaf, hentry (p := []) (Nat.zero_le 3) rfl, bind, Except.bind]
  -- one level after the other: the way of the address ends there, or it leads to the next table
  cases h4 : (entryAt space.window.map m space.root (TableIndices.of va).pml4).isTable with
  | false =>
    rw [leafOf_of_no_child (p := []) (Nat.zero_le 1) rfl (child?_of_not_isTable h4)
      (List.prefix_append _ _)]
    rfl
  | true =>
    have w4 := (walk_concat_of_walk (p := []) _ rfl).trans (child?_of_isTable h4)
    set pml3 := (entryAt space.window.map m space.root (TableIndices.of va).pml4).frame
    simp only [hentry (p := [_]) (Nat.le_add_left 1 2) w4, Bool.not_true, Bool.false_eq_true,
      if_false]
    cases h3 : (entryAt space.window.map m pml3 (TableIndices.of va).pml3).isTable with
    | false =>
      rw [leafOf_of_no_child (p := [_]) (Nat.le_refl 1) w4 (child?_of_not_isTable h3)
        (List.prefix_append _ _)]
      rfl
    | true =>
      have w3 : walk space.window.map m space.root (pathToPml2 va) = some _ :=
        (walk_concat_of_walk (p := [_]) _ w4).trans (child?_of_isTable h3)
      set pml2 := (entryAt space.window.map m pml3 (TableIndices.of va).pml3).frame
      simp only [hentry (p := pathToPml2 va) (Nat.le_succ 2) w3, Bool.not_true,
        Bool.false_eq_true, if_false]
      cases h2 : (entryAt space.window.map m pml2 (TableIndices.of va).pml2).isTable with
      | false =>
        -- here an entry that is present but no table is a 2 MiB leaf
        rw [leafOf_of_no_pml1 w3 (child?_of_not_isTable h2), largeLeaf]
        cases hp : (entryAt space.window.map m pml2 (TableIndices.of va).pml2).has .present with
        | false => rfl
        | true =>
          have hlarge := ((Entry.isTable_eq_false_iff _).mp h2).resolve_left (by simp [hp])
          simp only [hlarge]
          rfl
      | true =>
        have w2 : walk space.window.map m space.root (pathToPml1 va) = some _ :=
          (walk_concat_of_walk (p := pathToPml2 va) _ w3).trans (child?_of_isTable h2)
        obtain ⟨hpresent, hsmall⟩ := (Entry.isTable_iff _).mp h2
        simp only [leafOf_of_pml1 w2, smallLeaf, hpresent, hsmall,
          hentry (p := pathToPml1 va) (Nat.le_refl 3) w2]
        rfl

end PageTree

end PagedMemory
