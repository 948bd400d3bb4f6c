import PagedMemory.Paging.AddressSpace
import PagedMemory.Proofs.Memory
import PagedMemory.Proofs.Paging.Encoding
/-!
# Trees of page tables in memory

A tree is walked from its root along a list of table indices. `Forest` says of several trees that
they are made of tables of their own: every table that a walk reaches belongs to a given list of
frames, and no table is reached along two paths, neither in one tree nor in two. Then an entry that
is written is on the way of exactly those addresses whose indices begin with its path, and every
other walk and every other leaf stays as it is.
-/
namespace PagedMemory

namespace PageTree

variable (map : DirectMap) (m : Ram)

/-- An entry of the table in a frame. -/
def entryAt (f : Frame) (i : TableIndex) : Entry := m.entry (map.aliasOf f) i

/-- The table that an entry links to. -/
def child? (f : Frame) (i : TableIndex) : Option Frame :=
  if (entryAt map m f i).isTable then some (entryAt map m f i).frame else none

/-- The table that is reached from a table along a path of indices. -/
def walk : Frame → List TableIndex → Option Frame
  | f, [] => some f
  | f, i :: p => (child? map m f i).bind fun g => walk g p

/-- The leaf that an entry of a PML1 table is. -/
def smallLeaf (e : Entry) : Option (Entry × PageSize) :=
  if e.has .present then some (e, .small) else none

/-- The leaf that an entry of a PML2 table is, if it links to no table. -/
def largeLeaf (e : Entry) : Option (Entry × PageSize) :=
  if e.has .present then some (e, .large) else none

/-- The indices on the way of an address to its PML2 table. -/
def pathToPml2 (va : VirtualAddress) : List TableIndex :=
  [(TableIndices.of va).pml4, (TableIndices.of va).pml3]

/-- The indices on the way of an address to its PML1 table. -/
def pathToPml1 (va : VirtualAddress) : List TableIndex :=
  pathToPml2 va ++ [(TableIndices.of va).pml2]

/-- All indices of an address, from the root down. -/
def path (va : VirtualAddress) : List TableIndex := pathToPml1 va ++ [(TableIndices.of va).pml1]

/-- The leaf for an address in the tree below a root. -/
def leafOf (r : Frame) (va : VirtualAddress) : Option (Entry × PageSize) :=
  match walk map m r (pathToPml1 va) with
  | some f => smallLeaf (entryAt map m f (TableIndices.of va).pml1)
  | none =>
    (walk map m r (pathToPml2 va)).bind fun f =>
      largeLeaf (entryAt map m f (TableIndices.of va).pml2)

variable {map m} {n : Ram}

@[simp] theorem walk_nil (f : Frame) : walk map m f [] = some f := rfl

theorem walk_cons (f : Frame) (i : TableIndex) (p : List TableIndex) :
    walk map m f (i :: p) = (child? map m f i).bind fun g => walk map m g p := rfl

theorem walk_append (f : Frame) (p q : List TableIndex) :
    walk map m f (p ++ q) = (walk map m f p).bind fun g => walk map m g q := by
  induction p generalizing f with
  | nil => rfl
  | cons i p ih =>
    rw [List.cons_append, walk_cons, walk_cons]
    cases child? map m f i with
    | none => rfl
    | some g => exact ih g

theorem walk_concat (f : Frame) (p : List TableIndex) (i : TableIndex) :
    walk map m f (p ++ [i]) = (walk map m f p).bind fun g => child? map m g i := by
  rw [walk_append]
  congr 1
  funext g
  rw [walk_cons]
  cases child? map m g i <;> rfl

theorem walk_concat_of_walk {f g : Frame} {p : List TableIndex} (i : TableIndex)
    (h : walk map m f p = some g) : walk map m f (p ++ [i]) = child? map m g i := by
  rw [walk_concat, h]
  rfl

theorem child?_of_isTable {f : Frame} {i : TableIndex} (h : (entryAt map m f i).isTable = true) :
    child? map m f i = some (entryAt map m f i).frame := if_pos h

theorem child?_of_not_isTable {f : Frame} {i : TableIndex}
    (h : (entryAt map m f i).isTable = false) : child? map m f i = none := by
  rw [child?, h]
  rfl

theorem child?_congr {f : Frame} {i : TableIndex} (h : entryAt map n f i = entryAt map m f i) :
    child? map n f i = child? map m f i := by
  rw [child?, child?, h]

/-- No table is reached through an empty table. -/
theorem walk_cons_of_unused {f : Frame} {i : TableIndex} (h : entryAt map m f i = .unused)
    (p : List TableIndex) : walk map m f (i :: p) = none := by
  rw [walk_cons, child?_of_not_isTable (by rw [h]; rfl)]
  rfl

/-! ## What a change of memory does to entries -/

theorem entryAt_congr {p : VirtualAddress → Prop} (h : m.OnlyChanges p n) {f : Frame}
    (hf : ∀ a, p a → map.frameAt a ≠ f) (i : TableIndex) :
    entryAt map n f i = entryAt map m f i := by
  refine congrArg Entry.mk (h.readWord_eq fun b hb hp => hf b hp ?_)
  have hi : i.val < 512 := i.isLt
  exact Ram.frameAt_of_distance_word (by simp only [frameSize]; omega) hb

theorem onlyChanges_setEntry (m : Ram) (f : Frame) (i : TableIndex) (e : Entry) :
    m.OnlyChanges (fun a => map.frameAt a = f) (m.setEntry (map.aliasOf f) i e) := by
  have hi : i.val < 512 := i.isLt
  apply (m.onlyChanges_writeWord _ _).mono
  intro a ha
  exact Ram.frameAt_of_distance_word (by simp only [frameSize]; omega) ha

theorem onlyChanges_clearTable (m : Ram) (f : Frame) :
    m.OnlyChanges (fun a => map.frameAt a = f) (m.clearTable (map.aliasOf f)) :=
  (m.onlyChanges_fill _ _ _).mono fun a ha => (map.frameAt_eq_iff f a).mpr ha

theorem entryAt_setEntry (m : Ram) (f : Frame) (i : TableIndex) (e : Entry) :
    entryAt map (m.setEntry (map.aliasOf f) i e) f i = e := by
  have h := congrArg (PageTable.entry · i) (m.pageTable_setEntry (map.aliasOf f) i e)
  rwa [PageTable.entry_set, if_pos rfl] at h

/-- Writing an entry leaves every other entry of every table alone. -/
theorem entryAt_setEntry_of_ne (m : Ram) {f g : Frame} {i j : TableIndex} (e : Entry)
    (h : (g, j) ≠ (f, i)) :
    entryAt map (m.setEntry (map.aliasOf f) i e) g j = entryAt map m g j := by
  by_cases hg : g = f
  · subst hg
    have hj : j ≠ i := fun hj => h (by rw [hj])
    have hset := congrArg (PageTable.entry · j) (m.pageTable_setEntry (map.aliasOf g) i e)
    rwa [PageTable.entry_set, if_neg hj] at hset
  · exact entryAt_congr (onlyChanges_setEntry m f i e) (fun a ha => ha ▸ Ne.symm hg) j

theorem entryAt_clearTable (m : Ram) (f : Frame) (i : TableIndex) :
    entryAt map (m.clearTable (map.aliasOf f)) f i = .unused := by
  show ((m.clearTable (map.aliasOf f)).pageTable (map.aliasOf f)).entry i = .unused
  rw [m.pageTable_clearTable]
  rfl

/-! ## Walks that do not meet a change -/

/-- The entries on a path are the same in two memories, as far as the first one leads. -/
def SameAlong (map : DirectMap) (m n : Ram) (r : Frame) (q : List TableIndex) : Prop :=
  ∀ p i f, p ++ [i] <+: q → walk map m r p = some f → entryAt map n f i = entryAt map m f i

theorem SameAlong.of_prefix {r : Frame} {q q' : List TableIndex} (h : SameAlong map m n r q)
    (hq : q' <+: q) : SameAlong map m n r q' :=
  fun p i f hp => h p i f (hp.trans hq)

theorem SameAlong.walk_eq {r : Frame} {q : List TableIndex} (h : SameAlong map m n r q) :
    walk map n r q = walk map m r q := by
  -- the last step is taken from where the walk before it ended in both memories
  induction q using List.reverseRecOn with
  | nil => rfl
  | append_singleton q j ih =>
    rw [walk_concat, walk_concat, ih (h.of_prefix (List.prefix_append q [j]))]
    cases hw : walk map m r q with
    | none => rw [Option.bind_none, Option.bind_none]
    | some f =>
      rw [Option.bind_some, Option.bind_some]
      exact child?_congr (h q j f List.prefix_rfl hw)

theorem pathToPml1_isPrefix (va : VirtualAddress) : pathToPml1 va <+: path va :=
  List.prefix_append _ _

theorem pathToPml2_isPrefix (va : VirtualAddress) : pathToPml2 va <+: path va :=
  (List.prefix_append _ _).trans (pathToPml1_isPrefix va)

theorem SameAlong.leafOf_eq {r : Frame} {va : VirtualAddress}
    (h : SameAlong map m n r (path va)) : leafOf map n r va = leafOf map m r va := by
  rw [leafOf, leafOf, (h.of_prefix (pathToPml1_isPrefix va)).walk_eq,
    (h.of_prefix (pathToPml2_isPrefix va)).walk_eq]
  cases hw : walk map m r (pathToPml1 va) with
  | some f => exact congrArg smallLeaf (h _ _ f List.prefix_rfl hw)
  | none =>
    cases hw' : walk map m r (pathToPml2 va) with
    | none => rw [Option.bind_none, Option.bind_none]
    | some f =>
      rw [Option.bind_some, Option.bind_some]
      exact congrArg largeLeaf (h _ _ f (pathToPml1_isPrefix va) hw')

end PageTree

end PagedMemory
