import PagedMemory.Proofs.Paging.Tree
/-!
# Trees that share no table

`Forest` is the invariant that carries every statement about page tables: the tables that can be
reached from some roots are frames that were handed out for tables, and each of them is reached
along one path only. The three ways in which tables are written keep it: linking an empty table that
belongs to nobody, writing a 2 MiB leaf and writing a 4 KiB leaf.
-/
namespace PagedMemory

namespace PageTree

variable {map : DirectMap} {m n : Ram} {roots tables : List Frame}

/-- The trees below some roots are made of given frames, and no frame is used in two places. -/
structure Forest (map : DirectMap) (m : Ram) (roots tables : List Frame) : Prop where
  owned : ∀ {r p f}, r ∈ roots → p.length ≤ 3 → walk map m r p = some f → f ∈ tables
  apart : ∀ {r p r' p' f}, r ∈ roots → r' ∈ roots → p.length ≤ 3 → p'.length ≤ 3 →
    walk map m r p = some f → walk map m r' p' = some f → r = r' ∧ p = p'

theorem length_path (va : VirtualAddress) : (path va).length = 4 := rfl

theorem path_eq_iff (x va : VirtualAddress) : path x = path va ↔
    pathToPml1 x = pathToPml1 va ∧ (TableIndices.of x).pml1 = (TableIndices.of va).pml1 := by
  rw [path, path]
  constructor
  · intro h
    obtain ⟨h1, h2⟩ := List.append_inj h rfl
    exact ⟨h1, List.singleton_inj.mp h2⟩
  · rintro ⟨h1, h2⟩
    rw [h1, h2]

theorem pathToPml1_eq_iff (x va : VirtualAddress) : pathToPml1 x = pathToPml1 va ↔
    pathToPml2 x = pathToPml2 va ∧ (TableIndices.of x).pml2 = (TableIndices.of va).pml2 := by
  rw [pathToPml1, pathToPml1]
  constructor
  · intro h
    obtain ⟨h1, h2⟩ := List.append_inj h rfl
    exact ⟨h1, List.singleton_inj.mp h2⟩
  · rintro ⟨h1, h2⟩
    rw [h1, h2]

theorem pathToPml1_prefix_iff (va x : VirtualAddress) :
    pathToPml1 va <+: path x ↔ pathToPml1 x = pathToPml1 va := by
  constructor
  · intro hpre
    exact ((List.prefix_of_prefix_length_le hpre (pathToPml1_isPrefix x)
      (Nat.le_refl 3)).eq_of_length rfl).symm
  · intro hx
    exact hx ▸ pathToPml1_isPrefix x

namespace Forest

/-- A forest with fewer roots among more frames is still one. -/
theorem mono (h : Forest map m roots tables) {roots' tables' : List Frame}
    (hr : roots' ⊆ roots) (ht : tables ⊆ tables') : Forest map m roots' tables' :=
  ⟨fun h1 h2 h3 => ht (h.owned (hr h1) h2 h3),
    fun h1 h2 h3 h4 h5 h6 => h.apart (hr h1) (hr h2) h3 h4 h5 h6⟩

/-- Memory in which walks only end earlier holds a forest of the same frames. -/
theorem of_walk (h : Forest map m roots tables)
    (hw : ∀ r ∈ roots, ∀ p f, p.length ≤ 3 → walk map n r p = some f → walk map m r p = some f) :
    Forest map n roots tables :=
  ⟨fun h1 h2 h3 => h.owned h1 h2 (hw _ h1 _ _ h2 h3),
    fun h1 h2 h3 h4 h5 h6 => h.apart h1 h2 h3 h4 (hw _ h1 _ _ h3 h5) (hw _ h2 _ _ h4 h6)⟩

/-- Nothing that is written outside of the tables is on the way of an address. -/
theorem sameAlong (h : Forest map m roots tables)
    (hsame : ∀ g ∈ tables, ∀ j, entryAt map n g j = entryAt map m g j) {r : Frame}
    {q : List TableIndex} (hr : r ∈ roots) (hq : q.length ≤ 4) : SameAlong map m n r q := by
  intro p j f hp hw
  have hlen := hp.length_le
  rw [List.length_append, List.length_singleton] at hlen
  exact hsame f (h.owned hr (by omega) hw) j

theorem congr (h : Forest map m roots tables)
    (hsame : ∀ g ∈ tables, ∀ j, entryAt map n g j = entryAt map m g j) :
    Forest map n roots tables := by
  apply h.of_walk
  intro r hr p f hp hw
  rwa [(h.sameAlong hsame hr (Nat.le_succ_of_le hp)).walk_eq] at hw

theorem leafOf_congr (h : Forest map m roots tables)
    (hsame : ∀ g ∈ tables, ∀ j, entryAt map n g j = entryAt map m g j) {r : Frame}
    (hr : r ∈ roots) (va : VirtualAddress) : leafOf map n r va = leafOf map m r va :=
  (h.sameAlong hsame hr (Nat.le_of_eq (length_path va))).leafOf_eq

/-! ## One entry is written -/

/-- An entry of the table at the end of a path is on no way but those that begin with its path. -/
theorem sameAlong_write (h : Forest map m roots tables) {r f : Frame} {p : List TableIndex}
    {i : TableIndex} (hr : r ∈ roots) (hp : p.length ≤ 3) (hf : walk map m r p = some f)
    (hsame : ∀ g ∈ tables, ∀ j, (g, j) ≠ (f, i) → entryAt map n g j = entryAt map m g j)
    {r' : Frame} {q : List TableIndex} (hr' : r' ∈ roots) (hq : q.length ≤ 4)
    (hoff : ¬ (r' = r ∧ p ++ [i] <+: q)) : SameAlong map m n r' q := by
  intro p' j f' hpre hw
  have hlen := hpre.length_le
  rw [List.length_append, List.length_singleton] at hlen
  apply hsame f' (h.owned hr' (by omega) hw) j
  intro he
  cases he
  obtain ⟨rfl, rfl⟩ := h.apart hr' hr (by omega) hp hw hf
  exact hoff ⟨rfl, hpre⟩

/-- The table whose entry was written is still at the end of its path. -/
theorem walk_written (h : Forest map m roots tables) {r f : Frame} {p : List TableIndex}
    {i : TableIndex} (hr : r ∈ roots) (hp : p.length ≤ 3) (hf : walk map m r p = some f)
    (hsame : ∀ g ∈ tables, ∀ j, (g, j) ≠ (f, i) → entryAt map n g j = entryAt map m g j) :
    walk map n r p = some f := by
  have hoff : ¬ (r = r ∧ p ++ [i] <+: p) := by
    rintro ⟨-, hpre⟩
    have := hpre.length_le
    rw [List.length_append, List.length_singleton] at this
    omega
  rw [(h.sameAlong_write hr hp hf hsame hr (Nat.le_succ_of_le hp) hoff).walk_eq, hf]

/-- Linking an empty table that is in nobody's hands. -/
theorem link (h : Forest map m roots tables) {r f g : Frame} {p : List TableIndex}
    {i : TableIndex} (hr : r ∈ roots) (hp : p.length ≤ 2) (hf : walk map m r p = some f)
    (hg : g ∉ tables)
    (hsame : ∀ f' ∈ tables, ∀ j, (f', j) ≠ (f, i) → entryAt map n f' j = entryAt map m f' j)
    (hlink : child? map n f i = some g) (hempty : ∀ j, entryAt map n g j = .unused) :
    Forest map n roots (g :: tables) := by
  have hon : ∀ t, walk map n r (p ++ [i] ++ t) = walk map n g t := by
    intro t
    have hw := h.walk_written hr (by omega) hf hsame
    rw [walk_append, walk_concat_of_walk i hw, hlink]
    rfl
  -- a walk of the new forest is an old one, or it ends at the new table
  have hwalk : ∀ r' ∈ roots, ∀ q f', q.length ≤ 3 → walk map n r' q = some f' →
      walk map m r' q = some f' ∨ (r' = r ∧ q = p ++ [i] ∧ f' = g) := by
    intro r' hr' q f' hq hw
    by_cases hoff : r' = r ∧ p ++ [i] <+: q
    · obtain ⟨rfl, t, rfl⟩ := hoff
      rw [hon] at hw
      cases t with
      | nil =>
        cases hw
        exact .inr ⟨rfl, by simp, rfl⟩
      | cons j t =>
        rw [walk_cons_of_unused (hempty j)] at hw
        cases hw
    · rw [(h.sameAlong_write hr (by omega) hf hsame hr' (by omega) hoff).walk_eq] at hw
      exact .inl hw
  constructor
  · intro r' q f' hr' hq hw
    rcases hwalk r' hr' q f' hq hw with hw | ⟨-, -, rfl⟩
    · exact List.mem_cons_of_mem g (h.owned hr' hq hw)
    · exact List.mem_cons_self
  · intro r' q r'' q' f' hr' hr'' hq hq' hw hw'
    rcases hwalk r' hr' q f' hq hw with hm | ⟨rfl, rfl, rfl⟩
    · rcases hwalk r'' hr'' q' f' hq' hw' with hm' | ⟨rfl, rfl, rfl⟩
      · exact h.apart hr' hr'' hq hq' hm hm'
      · exact absurd (h.owned hr' hq hm) hg
    · rcases hwalk r'' hr'' q' f' hq' hw' with hm' | ⟨rfl, rfl, -⟩
      · exact absurd (h.owned hr'' hq' hm') hg
      · exact ⟨rfl, rfl⟩

/-- Below a new table nothing is mapped; everything else is mapped as before. -/
theorem leafOf_link (h : Forest map m roots tables) {r f g : Frame} {p : List TableIndex}
    {i : TableIndex} (hr : r ∈ roots) (hp : p.length ≤ 2) (hf : walk map m r p = some f)
    (hsame : ∀ f' ∈ tables, ∀ j, (f', j) ≠ (f, i) → entryAt map n f' j = entryAt map m f' j)
    (hlink : child? map n f i = some g) (hempty : ∀ j, entryAt map n g j = .unused)
    {r' : Frame} (hr' : r' ∈ roots) (va : VirtualAddress) :
    leafOf map n r' va = if r' = r ∧ p ++ [i] <+: path va then none else leafOf map m r' va := by
  split
  · rename_i hon
    obtain ⟨rfl, hpre⟩ := hon
    have hw := h.walk_written hr (by omega) hf hsame
    have hend : walk map n r' (p ++ [i]) = some g := (walk_concat_of_walk i hw).trans hlink
    have hlen : (p ++ [i]).length ≤ 3 := by
      rw [List.length_append, List.length_singleton]
      omega
    obtain ⟨t, ht⟩ := List.prefix_of_prefix_length_le hpre (pathToPml1_isPrefix va) hlen
    -- the new table is the PML1 table of the address, or the way ends in it earlier
    cases t with
    | nil =>
      rw [List.append_nil] at ht
      simp [leafOf, ← ht, hend, hempty, smallLeaf]
    | cons j t =>
      have hnone : walk map n r' (pathToPml1 va) = none := by
        rw [← ht, walk_append, hend, Option.bind_some, walk_cons_of_unused (hempty j)]
      have hlen2 : (p ++ [i]).length ≤ (pathToPml2 va).length := by
        have := congrArg List.length ht
        simp only [pathToPml1, pathToPml2, List.length_append, List.length_cons,
          List.length_nil] at this ⊢
        omega
      obtain ⟨u, hu⟩ := List.prefix_of_prefix_length_le hpre (pathToPml2_isPrefix va) hlen2
      rw [leafOf, hnone, ← hu, walk_append, hend, Option.bind_some]
      cases u with
      | nil => simp [hempty, largeLeaf]
      | cons k u => simp [walk_cons_of_unused (hempty k)]
  · rename_i hoff
    have hlen := Nat.le_of_eq (length_path va)
    exact (h.sameAlong_write hr (by omega) hf hsame hr' hlen hoff).leafOf_eq

/-- A 4 KiB leaf is the leaf of the addresses with all its indices; no table is lost or gained. -/
theorem writeSmall (h : Forest map m roots tables) {r f : Frame} {va : VirtualAddress} {e : Entry}
    (hr : r ∈ roots) (hf : walk map m r (pathToPml1 va) = some f)
    (hsame : ∀ g ∈ tables, ∀ j, (g, j) ≠ (f, (TableIndices.of va).pml1) →
      entryAt map n g j = entryAt map m g j)
    (he : entryAt map n f (TableIndices.of va).pml1 = e) :
    Forest map n roots tables ∧ ∀ r' ∈ roots, ∀ x,
      leafOf map n r' x = if r' = r ∧ path x = path va then smallLeaf e else leafOf map m r' x := by
  have hlen : (pathToPml1 va).length ≤ 3 := Nat.le_refl 3
  refine ⟨h.of_walk ?_, ?_⟩
  -- the entry is no step to a table: it stands at the fourth index
  · intro r' hr' q f' hq hw
    have hoff : ¬ (r' = r ∧ pathToPml1 va ++ [(TableIndices.of va).pml1] <+: q) := by
      rintro ⟨-, hpre⟩
      have : 4 ≤ q.length := hpre.length_le
      omega
    rwa [(h.sameAlong_write hr hlen hf hsame hr' (Nat.le_succ_of_le hq) hoff).walk_eq] at hw
  · intro r' hr' x
    split
    · rename_i hon
      obtain ⟨rfl, hx⟩ := hon
      obtain ⟨hx1, hx2⟩ := (path_eq_iff x va).mp hx
      rw [leafOf, hx1, hx2, h.walk_written hr hlen hf hsame, ← he]
    · rename_i hoff
      refine (h.sameAlong_write hr hlen hf hsame hr' (Nat.le_of_eq (length_path x)) ?_).leafOf_eq
      rintro ⟨hr', hpre⟩
      exact hoff ⟨hr', (hpre.eq_of_length rfl).symm⟩

/-- A 2 MiB leaf is the leaf of the addresses that take its entry; tables below it are given up. -/
theorem writeLarge (h : Forest map m roots tables) {r f : Frame} {va : VirtualAddress} {e : Entry}
    (hr : r ∈ roots) (hf : walk map m r (pathToPml2 va) = some f)
    (hsame : ∀ g ∈ tables, ∀ j, (g, j) ≠ (f, (TableIndices.of va).pml2) →
      entryAt map n g j = entryAt map m g j)
    (he : entryAt map n f (TableIndices.of va).pml2 = e) (hleaf : e.isTable = false) :
    Forest map n roots tables ∧ ∀ r' ∈ roots, ∀ x,
      leafOf map n r' x =
        if r' = r ∧ pathToPml1 x = pathToPml1 va then largeLeaf e else leafOf map m r' x := by
  have hlen : (pathToPml2 va).length ≤ 3 := Nat.le_succ 2
  have hw := h.walk_written hr hlen hf hsame
  have hend : walk map n r (pathToPml1 va) = none := by
    rw [pathToPml1, walk_concat_of_walk _ hw, child?_of_not_isTable (by rw [he, hleaf])]
  refine ⟨h.of_walk ?_, ?_⟩
  -- a walk through the written entry has lost its way, all others are as they were
  · intro r' hr' q f' hq hwq
    by_cases hoff : r' = r ∧ pathToPml2 va ++ [(TableIndices.of va).pml2] <+: q
    · obtain ⟨rfl, t, rfl⟩ := hoff
      rw [walk_append, ← pathToPml1, hend] at hwq
      cases hwq
    · rwa [(h.sameAlong_write hr hlen hf hsame hr' (Nat.le_succ_of_le hq) hoff).walk_eq] at hwq
  · intro r' hr' x
    split
    · rename_i hon
      obtain ⟨rfl, hx⟩ := hon
      obtain ⟨hx1, hx2⟩ := (pathToPml1_eq_iff x va).mp hx
      rw [leafOf, hx, hend, hx1, hw, Option.bind_some, hx2, he]
    · rename_i hoff
      refine (h.sameAlong_write hr hlen hf hsame hr' (Nat.le_of_eq (length_path x)) ?_).leafOf_eq
      rintro ⟨hr', hpre⟩
      exact hoff ⟨hr', (pathToPml1_prefix_iff va x).mp hpre⟩

/-! ## A new tree -/

/-- An empty table that is in nobody's hands is a tree of its own. -/
theorem plant (h : Forest map m roots tables) {g : Frame} (hg : g ∉ tables)
    (hsame : ∀ f ∈ tables, ∀ j, entryAt map n f j = entryAt map m f j)
    (hempty : ∀ j, entryAt map n g j = .unused) : Forest map n (g :: roots) (g :: tables) := by
  have hold := h.congr hsame
  -- no walk from the new root gets anywhere
  have hnew : ∀ p f, walk map n g p = some f → p = [] ∧ f = g := by
    intro p f hw
    cases p with
    | nil => exact ⟨rfl, (Option.some.inj hw).symm⟩
    | cons i p =>
      rw [walk_cons_of_unused (hempty i)] at hw
      cases hw
  constructor
  · intro r p f hr hp hw
    rcases List.mem_cons.mp hr with rfl | hr
    · rw [(hnew p f hw).2]
      exact List.mem_cons_self
    · exact List.mem_cons_of_mem g (hold.owned hr hp hw)
  · intro r p r' p' f hr hr' hp hp' hw hw'
    rcases List.mem_cons.mp hr with rfl | hr
    · obtain ⟨rfl, rfl⟩ := hnew p f hw
      rcases List.mem_cons.mp hr' with rfl | hr'
      · exact ⟨rfl, (hnew p' _ hw').1.symm⟩
      · exact absurd (hold.owned hr' hp' hw') hg
    · have hf := hold.owned hr hp hw
      rcases List.mem_cons.mp hr' with rfl | hr'
      · exact absurd ((hnew p' f hw').2 ▸ hf) hg
      · exact hold.apart hr hr' hp hp' hw hw'

end Forest

/-! ## Ways that end early -/

/-- Where the way of an address ends above its PML2 table, nothing is mapped. -/
theorem leafOf_of_no_child {r f : Frame} {p : List TableIndex} {i : TableIndex}
    {va : VirtualAddress} (hp : p.length ≤ 1) (hf : walk map m r p = some f)
    (hchild : child? map m f i = none) (hpre : p ++ [i] <+: path va) :
    leafOf map m r va = none := by
  have hend : walk map m r (p ++ [i]) = none := (walk_concat_of_walk i hf).trans hchild
  have hlen : (p ++ [i]).length ≤ 2 := by
    rw [List.length_append, List.length_singleton]
    omega
  obtain ⟨t, ht⟩ := List.prefix_of_prefix_length_le hpre (pathToPml2_isPrefix va) hlen
  have hnone : walk map m r (pathToPml2 va) = none := by
    rw [← ht, walk_append, hend, Option.bind_none]
  rw [leafOf, pathToPml1, walk_append, hnone, Option.bind_none, Option.bind_none]

/-- Where it reaches no PML1 table, the leaf is a 2 MiB leaf or there is none. -/
theorem leafOf_of_walk_none {r : Frame} {va : VirtualAddress}
    (h : walk map m r (pathToPml1 va) = none) :
    leafOf map m r va = (walk map m r (pathToPml2 va)).bind fun f =>
      largeLeaf (entryAt map m f (TableIndices.of va).pml2) := by
  rw [leafOf, h]

/-- Where it ends at the PML2 table, the entry there is the leaf, if it is present. -/
theorem leafOf_of_no_pml1 {r f : Frame} {va : VirtualAddress}
    (hf : walk map m r (pathToPml2 va) = some f)
    (hchild : child? map m f (TableIndices.of va).pml2 = none) :
    leafOf map m r va = largeLeaf (entryAt map m f (TableIndices.of va).pml2) := by
  rw [leafOf, pathToPml1, walk_concat_of_walk _ hf, hchild, hf, Option.bind_some]

/-- Where it reaches a PML1 table, the leaf is a 4 KiB leaf or there is none. -/
theorem leafOf_of_pml1 {r f : Frame} {va : VirtualAddress}
    (hf : walk map m r (pathToPml1 va) = some f) :
    leafOf map m r va = smallLeaf (entryAt map m f (TableIndices.of va).pml1) := by
  rw [leafOf, hf]

/-- Below an empty table nothing is mapped. -/
theorem leafOf_of_empty {r : Frame} (h : ∀ j, entryAt map m r j = .unused) (va : VirtualAddress) :
    leafOf map m r va = none :=
  leafOf_of_no_child (p := []) (Nat.zero_le 1) rfl
    (child?_of_not_isTable (by rw [h]; rfl)) (List.prefix_append _ _)

end PageTree

end PagedMemory
