import PagedMemory.Proofs.Endings
import PagedMemory.Proofs.Paging.Forest
/-!
# Mapping a page

What `create`, `nextTable` and `mapPage` do to all trees at once. A supply of frames is `Honest` if
it never hands out a frame that is in use and does not touch the memory of frames in use; it may run
dry at any time and do what it likes with other memory. Over an honest supply the trees stay a
forest however an operation ends, a successful mapping changes the leaves of its own tree in the one
way that `leafAfter` says, and a refused one changes no leaf of any tree.
-/
namespace PagedMemory

/-- What page tables rely on in a supply of frames. `ok s out` says that a store is in order while
the frames of a list are in the hands of those who took them. -/
structure FrameSource.Honest (F : Type) [FrameSource F] (w : Window)
    (ok : Store F → List Frame → Prop) : Prop where
  reached : ∀ {s out f}, ok s out → f ∈ out → w.reaches f = true
  /-- Frames that were handed out may be written. -/
  write : ∀ {s : Store F} {out m}, ok s out →
    s.ram.OnlyChanges (fun a => w.map.frameAt a ∈ out) m → ok { s with ram := m } out
  log : ∀ {s : Store F} {out} (l : Log), ok s out → ok { s with log := l } out
  take : ∀ {s : Store F} {out}, ok s out → Ends FrameSource.take s
    (fun found t => s.ram.OnlyChanges (fun a => w.map.frameAt a ∉ out) t.ram ∧
      match found with
      | none => ok t out
      | some f => f ∉ out ∧ ok t (f :: out))
    (fun _ _ => False)

namespace PageTree

/-- What becomes of the leaf of an address `x` when the page around `va` is mapped by an entry: a
4 KiB leaf replaces the leaf of its page and takes away a 2 MiB leaf around it. -/
def leafAfter (va x : VirtualAddress) (size : PageSize) (e : Entry)
    (old : Option (Entry × PageSize)) : Option (Entry × PageSize) :=
  match size with
  | .large => if pathToPml1 x = pathToPml1 va then some (e, .large) else old
  | .small =>
    if path x = path va then some (e, .small)
    else if pathToPml1 x = pathToPml1 va then old.filter fun l => l.2 = .small
    else old

/-- The entry that maps a page of a size to the page around a physical address. -/
def leafEntry (pa : PhysicalAddress) : PageSize → Except Fault Entry
  | .large => Entry.largeLeaf (.containing pa)
  | .small => Entry.leaf (.containing pa)

variable {F : Type} {space : AddressSpace} {ok : Store F → List Frame → Prop}
variable {roots : List Frame}

/-- A store in order whose trees are a forest of the frames in use. -/
structure Stands (ok : Store F → List Frame → Prop) (map : DirectMap) (roots : List Frame)
    (s : Store F) (out : List Frame) : Prop where
  ok : ok s out
  forest : Forest map s.ram roots out

/-- Between two stores no leaf of the given trees has changed. -/
def Keeps (map : DirectMap) (roots : List Frame) (s t : Store F) : Prop :=
  ∀ r ∈ roots, ∀ x, leafOf map t.ram r x = leafOf map s.ram r x

theorem Keeps.trans {map : DirectMap} {s t u : Store F} (h : Keeps map roots s t)
    (h' : Keeps map roots t u) : Keeps map roots s u :=
  fun r hr x => (h' r hr x).trans (h r hr x)

/-- Between two stores leaves have changed in the 2 MiB region of an address below one root only. -/
def KeepsOutside (map : DirectMap) (roots : List Frame) (root : Frame) (va : VirtualAddress)
    (s t : Store F) : Prop :=
  ∀ r ∈ roots, ∀ x, ¬ (r = root ∧ pathToPml1 x = pathToPml1 va) →
    leafOf map t.ram r x = leafOf map s.ram r x

theorem Keeps.outside {map : DirectMap} {s t : Store F} (h : Keeps map roots s t) (root : Frame)
    (va : VirtualAddress) : KeepsOutside map roots root va s t :=
  fun r hr x _ => h r hr x

theorem Keeps.trans_outside {map : DirectMap} {s t u : Store F} (h : Keeps map roots s t)
    {root : Frame} {va : VirtualAddress} (h' : KeepsOutside map roots root va t u) :
    KeepsOutside map roots root va s u :=
  fun r hr x hx => (h' r hr x hx).trans (h r hr x)

/-- How mapping a page may stop: without a frame for a table, with every leaf as it was, or at a
number that does not fit into an entry, with every leaf outside of the region as it was. -/
def Stopped (ok : Store F → List Frame → Prop) (space : AddressSpace) (roots : List Frame)
    (s : Store F) (out : List Frame) (va : VirtualAddress) (pa : PhysicalAddress)
    (stop : Stop MapError) (t : Store F) : Prop :=
  ∃ out', Stands ok space.window.map roots t out' ∧ out ⊆ out' ∧
    ((∃ level, stop = .error (.outOfMemory level) ∧ Keeps space.window.map roots s t) ∨
      stop = .fault .frameNumberRange ∧
        ((∃ f ∈ out', 2 ^ 40 ≤ f.number) ∨ 2 ^ 52 ≤ pa.toNat) ∧
        KeepsOutside space.window.map roots space.root va s t)

/-- How following an entry may stop: no leaf of any tree has changed. -/
def NotFollowed (ok : Store F → List Frame → Prop) (map : DirectMap) (roots : List Frame)
    (s : Store F) (out : List Frame) (level : TableLevel) (stop : Stop MapError) (t : Store F) :
    Prop :=
  ∃ out', Stands ok map roots t out' ∧ out ⊆ out' ∧ Keeps map roots s t ∧
    (stop = .error (.outOfMemory level) ∨
      stop = .fault .frameNumberRange ∧ ∃ f ∈ out', 2 ^ 40 ≤ f.number)

/-- How mapping a page succeeds: the leaves of its tree change as `leafAfter` says, those of all
others not at all. -/
def Mapped (ok : Store F → List Frame → Prop) (space : AddressSpace) (roots : List Frame)
    (s : Store F) (out : List Frame) (va : VirtualAddress) (pa : PhysicalAddress) (size : PageSize)
    (t : Store F) : Prop :=
  ∃ out', Stands ok space.window.map roots t out' ∧ out ⊆ out' ∧
    ∃ e, leafEntry pa size = .ok e ∧ ∀ r ∈ roots, ∀ x,
      leafOf space.window.map t.ram r x =
        if r = space.root then leafAfter va x size e (leafOf space.window.map s.ram r x)
        else leafOf space.window.map s.ram r x

theorem NotFollowed.stopped {s t : Store F} {out : List Frame} {level : TableLevel}
    {stop : Stop MapError} (h : NotFollowed ok space.window.map roots s out level stop t)
    (va : VirtualAddress) (pa : PhysicalAddress) : Stopped ok space roots s out va pa stop t := by
  obtain ⟨out', hs, hsub, hkeep, hstop⟩ := h
  refine ⟨out', hs, hsub, ?_⟩
  rcases hstop with hstop | ⟨hstop, hbig⟩
  · exact .inl ⟨level, hstop, hkeep⟩
  · exact .inr ⟨hstop, .inl hbig, hkeep.outside space.root va⟩

/-- Steps before that change no leaf do not matter. -/
theorem Stopped.of_keeps {s t u : Store F} {out mid : List Frame} {va : VirtualAddress}
    {pa : PhysicalAddress} {stop : Stop MapError} (h : Stopped ok space roots t mid va pa stop u)
    (hk : Keeps space.window.map roots s t) (hsub : out ⊆ mid) :
    Stopped ok space roots s out va pa stop u := by
  obtain ⟨out', hs, hsub', hstop⟩ := h
  refine ⟨out', hs, List.Subset.trans hsub hsub', ?_⟩
  rcases hstop with ⟨level, hstop, hk'⟩ | ⟨hstop, hbig, hother⟩
  · exact .inl ⟨level, hstop, hk.trans hk'⟩
  · exact .inr ⟨hstop, hbig, hk.trans_outside hother⟩

theorem Mapped.of_keeps {s t u : Store F} {out mid : List Frame} {va : VirtualAddress}
    {pa : PhysicalAddress} {size : PageSize} (h : Mapped ok space roots t mid va pa size u)
    (hk : Keeps space.window.map roots s t) (hsub : out ⊆ mid) :
    Mapped ok space roots s out va pa size u := by
  obtain ⟨out', hs, hsub', e, he, hleaf⟩ := h
  refine ⟨out', hs, List.Subset.trans hsub hsub', e, he, ?_⟩
  intro r hr x
  rw [hleaf r hr x, hk r hr x]

/-- However a page is mapped, leaves change in the 2 MiB region around it only. -/
theorem leafAfter_of_ne {va x : VirtualAddress} (h : pathToPml1 x ≠ pathToPml1 va)
    (size : PageSize) (e : Entry) (old : Option (Entry × PageSize)) :
    leafAfter va x size e old = old := by
  cases size with
  | large => exact if_neg h
  | small =>
    have hpath : path x ≠ path va := fun hx => h ((path_eq_iff x va).mp hx).1
    rw [leafAfter, if_neg hpath, if_neg h]

theorem Mapped.outside {s t : Store F} {out : List Frame} {va : VirtualAddress}
    {pa : PhysicalAddress} {size : PageSize} (h : Mapped ok space roots s out va pa size t) :
    KeepsOutside space.window.map roots space.root va s t := by
  obtain ⟨out', -, -, e, -, hleaf⟩ := h
  intro r hr x hx
  rw [hleaf r hr x]
  by_cases hroot : r = space.root
  · rw [if_pos hroot, leafAfter_of_ne (fun hx1 => hx ⟨hroot, hx1⟩)]
  · rw [if_neg hroot]

theorem Stopped.outside {s t : Store F} {out : List Frame} {va : VirtualAddress}
    {pa : PhysicalAddress} {stop : Stop MapError}
    (h : Stopped ok space roots s out va pa stop t) :
    KeepsOutside space.window.map roots space.root va s t := by
  obtain ⟨out', -, -, ⟨level, -, hkeep⟩ | ⟨-, -, hother⟩⟩ := h
  · exact hkeep.outside space.root va
  · exact hother

theorem Keeps.ends {s t : Store F} {out mid : List Frame} {va : VirtualAddress}
    {pa : PhysicalAddress} {size : PageSize} {x : Op MapError (Store F) Unit}
    (hk : Keeps space.window.map roots s t) (hsub : out ⊆ mid)
    (h : Ends x t (fun _ u => Mapped ok space roots t mid va pa size u)
      (Stopped ok space roots t mid va pa)) :
    Ends x t (fun _ u => Mapped ok space roots s out va pa size u)
      (Stopped ok space roots s out va pa) :=
  h.mono (fun _ _ hu => hu.of_keeps hk hsub) fun _ _ hu => hu.of_keeps hk hsub

theorem leafEntry_error {pa : PhysicalAddress} {size : PageSize} {f : Fault}
    (h : leafEntry pa size = .error f) : f = .frameNumberRange ∧ 2 ^ 52 ≤ pa.toNat := by
  have hbig : ¬ pa.toNat < 2 ^ 52 := by
    intro hlt
    cases size with
    | small =>
      obtain ⟨e, he⟩ := Entry.leaf_ok hlt
      exact nomatch h.symm.trans he
    | large =>
      obtain ⟨e, he⟩ := Entry.largeLeaf_ok hlt
      exact nomatch h.symm.trans he
  refine ⟨?_, Nat.not_lt.mp hbig⟩
  cases size with
  | small => exact (Entry.withFrameNumber_error h).1
  | large => exact (Entry.withFrameNumber_error h).1

theorem smallLeaf_of_leafEntry {pa : PhysicalAddress} {e : Entry}
    (h : leafEntry pa .small = .ok e) : smallLeaf e = some (e, .small) :=
  if_pos (Entry.present_of_leaf h)

theorem largeLeaf_of_leafEntry {pa : PhysicalAddress} {e : Entry}
    (h : leafEntry pa .large = .ok e) : largeLeaf e = some (e, .large) :=
  if_pos (Entry.present_of_largeLeaf h)

/-- Writing the 4 KiB leaf once its PML1 table is there. The leaf that was around it before is known
from whether that table had to be made. -/
theorem leafAfter_small {s t : Store F} {map : DirectMap} {r pml2 : Frame} {va x : VirtualAddress}
    {e : Entry} {new : Option (Entry × PageSize)}
    (hw : walk map s.ram r (pathToPml2 va) = some pml2)
    (hnew : new = if path x = path va then some (e, .small) else leafOf map t.ram r x)
    (hleaf : leafOf map t.ram r x =
      if child? map s.ram pml2 (TableIndices.of va).pml2 = none ∧ pathToPml1 va <+: path x then none
      else leafOf map s.ram r x) :
    new = leafAfter va x .small e (leafOf map s.ram r x) := by
  simp only [pathToPml1_prefix_iff] at hleaf
  rw [hnew, leafAfter, hleaf]
  by_cases hx : path x = path va
  · rw [if_pos hx, if_pos hx]
  · rw [if_neg hx, if_neg hx]
    by_cases hx1 : pathToPml1 x = pathToPml1 va
    · obtain ⟨hx2, hi⟩ := (pathToPml1_eq_iff x va).mp hx1
      rw [if_pos hx1]
      cases hc : child? map s.ram pml2 (TableIndices.of va).pml2 with
      | none =>
        rw [if_pos ⟨rfl, hx1⟩, leafOf_of_no_pml1 (hx2 ▸ hw) (hi ▸ hc), largeLeaf]
        split <;> rfl
      | some f =>
        have hf : walk map s.ram r (pathToPml1 x) = some f := by
          rw [hx1, pathToPml1, walk_concat_of_walk _ hw, hc]
        rw [if_neg (by simp), leafOf_of_pml1 hf, smallLeaf]
        split <;> rfl
    · rw [if_neg hx1, if_neg (fun h => hx1 h.2)]

variable [FrameSource F]

/-! ## Stores in order -/

section

variable {w : Window} {s : Store F} {out : List Frame} {f : Frame}

/-- A table in use is seen through the window. -/
theorem table_eq (honest : FrameSource.Honest F w ok) (h : ok s out) (hf : f ∈ out) :
    w.table f = .ok (w.map.aliasOf f) := if_pos (honest.reached h hf)

theorem ok_clearTable (honest : FrameSource.Honest F w ok) (h : ok s out) (hf : f ∈ out) :
    ok { s with ram := s.ram.clearTable (w.map.aliasOf f) } out :=
  honest.write h ((onlyChanges_clearTable s.ram f).mono fun a ha => by rwa [ha])

theorem ok_setEntry (honest : FrameSource.Honest F w ok) (h : ok s out) (hf : f ∈ out)
    (i : TableIndex) (e : Entry) :
    ok { s with ram := s.ram.setEntry (w.map.aliasOf f) i e } out :=
  honest.write h ((onlyChanges_setEntry s.ram f i e).mono fun a ha => by rwa [ha])

/-- Taking a frame changes no entry of a table in use. -/
theorem take_ends (honest : FrameSource.Honest F w ok) (h : ok s out) :
    Ends (Op.ofStep FrameSource.take : Op MapError (Store F) (Option Frame)) s
      (fun found t =>
        (∀ g ∈ out, ∀ j, entryAt w.map t.ram g j = entryAt w.map s.ram g j) ∧
          match found with
          | none => ok t out
          | some g => g ∉ out ∧ ok t (g :: out))
      (fun _ _ => False) := by
  refine Ends.ofStep ((honest.take h).mono ?_ fun _ _ h => h)
  intro found t ht
  refine ⟨?_, ht.2⟩
  intro g hg j
  apply entryAt_congr ht.1
  intro a ha he
  exact ha (he ▸ hg)

theorem Stands.log {map : DirectMap} (h : Stands ok map roots s out)
    (honest : FrameSource.Honest F w ok) (l : Log) : Stands ok map roots { s with log := l } out :=
  ⟨honest.log l h.ok, h.forest⟩

/-- Clearing a table that belongs to nobody changes no entry of a table in use. -/
theorem entryAt_clearTable_of_notMem {map : DirectMap} (m : Ram) (hf : f ∉ out) :
    ∀ g ∈ out, ∀ j, entryAt map (m.clearTable (map.aliasOf f)) g j = entryAt map m g j := by
  intro g hg j
  apply entryAt_congr (onlyChanges_clearTable m f)
  intro a ha he
  rw [← ha, he] at hf
  exact hf hg

/-- What making the table that an entry lacks does to tables in use: a frame that was in nobody's
hands is cleared and linked to the entry. -/
structure TableAdded (ok : Store F → List Frame → Prop) (map : DirectMap) (s : Store F)
    (out : List Frame) (parent : Frame) (i : TableIndex) (f : Frame) (t : Store F) : Prop where
  fresh : f ∉ out
  ok : ok t (f :: out)
  same : ∀ g ∈ out, ∀ j, (g, j) ≠ (parent, i) → entryAt map t.ram g j = entryAt map s.ram g j
  link : Entry.table f = .ok (entryAt map t.ram parent i)
  empty : ∀ j, entryAt map t.ram f j = .unused

omit [FrameSource F] in
theorem TableAdded.child?_eq {map : DirectMap} {parent : Frame} {i : TableIndex} {t : Store F}
    (h : TableAdded ok map s out parent i f t) : child? map t.ram parent i = some f := by
  rw [child?_of_isTable (Entry.isTable_of_table h.link), Entry.frame_of_table h.link]

omit [FrameSource F] in
theorem TableAdded.stands {map : DirectMap} {r parent : Frame} {p : List TableIndex}
    {i : TableIndex} {t : Store F} (h : TableAdded ok map s out parent i f t)
    (hs : Stands ok map roots s out) (hr : r ∈ roots) (hp : p.length ≤ 2)
    (hw : walk map s.ram r p = some parent) : Stands ok map roots t (f :: out) :=
  ⟨h.ok, hs.forest.link hr hp hw h.fresh h.same h.child?_eq h.empty⟩

end

/-! ## Following an entry -/

/-- All that following an entry can do to tables in use: an existing table is found, a missing one is
made. If no frame is left nothing changes; a frame that does not fit into an entry stays taken. -/
theorem nextTable_cases (honest : FrameSource.Honest F space.window ok) {s : Store F}
    {out : List Frame} (h : ok s out) {parent : Frame} (hparent : parent ∈ out) (i : TableIndex)
    (level : TableLevel) :
    Ends (space.nextTable parent i level) s
      (fun f t => child? space.window.map s.ram parent i = some f ∧ t = s ∨
        child? space.window.map s.ram parent i = none ∧
          TableAdded ok space.window.map s out parent i f t)
      (fun stop t => child? space.window.map s.ram parent i = none ∧
        (∀ g ∈ out, ∀ j,
          entryAt space.window.map t.ram g j = entryAt space.window.map s.ram g j) ∧
        (stop = .error (.outOfMemory level) ∧ FrameSource.take s = .ok none t ∧ ok t out ∨
          stop = .fault .frameNumberRange ∧ ∃ f, 2 ^ 40 ≤ f.number ∧ ok t (f :: out))) := by
  rw [AddressSpace.nextTable, table_eq honest h hparent, Ends.check_ok_bind_iff, Ends.get_bind_iff]
  change Ends (if (entryAt space.window.map s.ram parent i).isTable then _ else _) _ _ _
  by_cases htable : (entryAt space.window.map s.ram parent i).isTable = true
  · rw [if_pos htable, Ends.pure_iff]
    exact .inl ⟨child?_of_isTable htable, rfl⟩
  · have hchild := child?_of_not_isTable (eq_false_of_ne_true htable)
    rw [if_neg htable]
    obtain ⟨found, t, htake, -⟩ := (honest.take h).exists_ok
    obtain ⟨hsame, hfound⟩ := (take_ends honest h).of_ok (Op.ofStep_of_ok htake)
    refine Ends.bind_of_ok (Op.ofStep_of_ok htake) ?_
    cases found with
    | none =>
      rw [Ends.fail_iff]
      exact ⟨hchild, hsame, .inl ⟨rfl, htake, hfound⟩⟩
    | some g =>
      obtain ⟨hg, hok⟩ := hfound
      have hmem : g ∈ g :: out := List.mem_cons_self
      have hgp : g ≠ parent := fun he => hg (he ▸ hparent)
      simp only [table_eq honest hok hmem, Ends.check_ok_bind_iff, Ends.updateRam_bind_iff]
      have hcleared := ok_clearTable honest hok hmem
      have hclear : ∀ f ∈ out, ∀ j,
          entryAt space.window.map (t.ram.clearTable (space.window.map.aliasOf g)) f j =
            entryAt space.window.map s.ram f j := by
        intro f hf j
        rw [entryAt_clearTable_of_notMem t.ram hg f hf, hsame f hf]
      cases hentry : Entry.table g with
      | error f =>
        -- the frame is in nobody's tree, but the supply has given it away
        obtain ⟨rfl, hbig⟩ := Entry.withFrameNumber_error hentry
        rw [Ends.check_error_bind_iff]
        exact ⟨hchild, hclear, .inr ⟨rfl, g, hbig, hcleared⟩⟩
      | ok link =>
        simp only [Ends.check_ok_bind_iff, Ends.updateRam_bind_iff, Ends.logLine_bind_iff,
          Ends.pure_iff]
        refine .inr ⟨hchild, hg,
          honest.log _ (ok_setEntry honest hcleared (List.mem_cons_of_mem g hparent) i link),
          ?_, ?_, ?_⟩
        · intro f hf j hj
          rw [entryAt_setEntry_of_ne _ _ hj, hclear f hf]
        · rw [hentry, entryAt_setEntry]
        · intro j
          rw [entryAt_setEntry_of_ne _ _ fun he => hgp (congrArg Prod.fst he), entryAt_clearTable]

/-- An existing table is found with nothing changed, a missing one is linked empty, and nothing is
mapped below it. If no table can be had no leaf changes. -/
theorem nextTable_ends (honest : FrameSource.Honest F space.window ok) {s : Store F}
    {out : List Frame} (h : Stands ok space.window.map roots s out) {r parent : Frame}
    {p : List TableIndex} (i : TableIndex) (level : TableLevel) (hr : r ∈ roots) (hp : p.length ≤ 2)
    (hw : walk space.window.map s.ram r p = some parent) :
    Ends (space.nextTable parent i level) s
      (fun f t => ∃ out', Stands ok space.window.map roots t out' ∧ out ⊆ out' ∧
        walk space.window.map t.ram r (p ++ [i]) = some f ∧
        ∀ r' ∈ roots, ∀ x, leafOf space.window.map t.ram r' x =
          if child? space.window.map s.ram parent i = none ∧ r' = r ∧ p ++ [i] <+: path x then none
          else leafOf space.window.map s.ram r' x)
      (NotFollowed ok space.window.map roots s out level) := by
  have hp3 : p.length ≤ 3 := Nat.le_succ_of_le hp
  refine (nextTable_cases honest h.ok (h.forest.owned hr hp3 hw) i level).mono ?_ ?_
  · rintro f t (⟨hchild, rfl⟩ | ⟨hchild, hadded⟩)
    · refine ⟨out, h, List.Subset.refl out, (walk_concat_of_walk i hw).trans hchild, ?_⟩
      intro r' hr' x
      rw [if_neg (by simp [hchild])]
    · have hend := h.forest.walk_written hr hp3 hw hadded.same
      refine ⟨f :: out, hadded.stands h hr hp hw, List.subset_cons_self f out,
        (walk_concat_of_walk i hend).trans hadded.child?_eq, ?_⟩
      intro r' hr' x
      simp only [hchild, true_and]
      exact h.forest.leafOf_link hr hp hw hadded.same hadded.child?_eq hadded.empty hr' x
  · rintro stop t ⟨-, hsame, hstop⟩
    have hkeeps : Keeps space.window.map roots s t :=
      fun r' hr' x => h.forest.leafOf_congr hsame hr' x
    rcases hstop with ⟨rfl, -, hok⟩ | ⟨rfl, g, hbig, hok⟩
    · exact ⟨out, ⟨hok, h.forest.congr hsame⟩, List.Subset.refl out, hkeeps, .inl rfl⟩
    · have hsub : out ⊆ g :: out := List.subset_cons_self g out
      exact ⟨g :: out, ⟨hok, (h.forest.congr hsame).mono (List.Subset.refl roots) hsub⟩, hsub,
        hkeeps, .inr ⟨rfl, g, List.mem_cons_self, hbig⟩⟩

/-- Where no PML1 table is concerned, following an entry changes no leaf. -/
theorem nextTable_keeps (honest : FrameSource.Honest F space.window ok) {s : Store F}
    {out : List Frame} (h : Stands ok space.window.map roots s out) {r parent : Frame}
    {p : List TableIndex} (i : TableIndex) (level : TableLevel) (hr : r ∈ roots) (hp : p.length ≤ 1)
    (hw : walk space.window.map s.ram r p = some parent) :
    Ends (space.nextTable parent i level) s
      (fun f t => ∃ out', Stands ok space.window.map roots t out' ∧ out ⊆ out' ∧
        walk space.window.map t.ram r (p ++ [i]) = some f ∧ Keeps space.window.map roots s t)
      (NotFollowed ok space.window.map roots s out level) := by
  refine (nextTable_ends honest h i level hr (Nat.le_succ_of_le hp) hw).mono ?_ (fun _ _ h => h)
  rintro f t ⟨out', hs, hsub, hwalk, hleaf⟩
  refine ⟨out', hs, hsub, hwalk, ?_⟩
  intro r' hr' x
  rw [hleaf r' hr' x]
  split
  · rename_i hon
    obtain ⟨hchild, rfl, hpre⟩ := hon
    exact (leafOf_of_no_child hp hw hchild hpre).symm
  · rfl

/-! ## Trees and their leaves -/

/-- All that making a tree can do to tables in use: its root is an empty table that was in nobody's
hands, unless no frame is left. -/
theorem create_cases {w : Window} (honest : FrameSource.Honest F w ok) {s : Store F}
    {out : List Frame} (h : ok s out) :
    Ends (AddressSpace.create w) s
      (fun space t => space.window = w ∧ space.root ∉ out ∧ ok t (space.root :: out) ∧
        (∀ g ∈ out, ∀ j, entryAt w.map t.ram g j = entryAt w.map s.ram g j) ∧
        ∀ j, entryAt w.map t.ram space.root j = .unused)
      (fun stop t => stop = .error (.outOfMemory .pml4) ∧ FrameSource.take s = .ok none t ∧
        ok t out ∧ ∀ g ∈ out, ∀ j, entryAt w.map t.ram g j = entryAt w.map s.ram g j) := by
  rw [AddressSpace.create]
  obtain ⟨found, t, htake, -⟩ := (honest.take h).exists_ok
  obtain ⟨hsame, hfound⟩ := (take_ends honest h).of_ok (Op.ofStep_of_ok htake)
  refine Ends.bind_of_ok (Op.ofStep_of_ok htake) ?_
  cases found with
  | none =>
    rw [Ends.fail_iff]
    exact ⟨rfl, htake, hfound, hsame⟩
  | some g =>
    obtain ⟨hg, hok⟩ := hfound
    have hmem : g ∈ g :: out := List.mem_cons_self
    simp only [table_eq honest hok hmem, Ends.check_ok_bind_iff, Ends.updateRam_bind_iff,
      Ends.logLine_bind_iff, Ends.pure_iff]
    refine ⟨trivial, hg, honest.log _ (ok_clearTable honest hok hmem), ?_, entryAt_clearTable t.ram g⟩
    intro f hf j
    rw [entryAt_clearTable_of_notMem t.ram hg f hf, hsame f hf]

/-- A new tree maps nothing, and the others are as they were. -/
theorem create_ends {w : Window} (honest : FrameSource.Honest F w ok) {s : Store F}
    {out : List Frame} (h : Stands ok w.map roots s out) :
    Ends (AddressSpace.create w) s
      (fun space t => space.window = w ∧ space.root ∉ out ∧
        Stands ok w.map (space.root :: roots) t (space.root :: out) ∧ Keeps w.map roots s t ∧
        ∀ x, leafOf w.map t.ram space.root x = none)
      (fun stop t => stop = .error (.outOfMemory .pml4) ∧ Stands ok w.map roots t out ∧
        Keeps w.map roots s t) := by
  refine (create_cases honest h.ok).mono ?_ ?_
  · intro space t ht
    obtain ⟨hw, hroot, hok, hsame, hempty⟩ := ht
    exact ⟨hw, hroot, ⟨hok, h.forest.plant hroot hsame hempty⟩,
      fun r hr x => h.forest.leafOf_congr hsame hr x, leafOf_of_empty hempty⟩
  · intro stop t ht
    obtain ⟨hstop, -, hok, hsame⟩ := ht
    exact ⟨hstop, ⟨hok, h.forest.congr hsame⟩, fun r hr x => h.forest.leafOf_congr hsame hr x⟩

/-- The 2 MiB leaf is written into the PML2 table of its address. -/
theorem Stands.mapLarge {s : Store F} {out : List Frame}
    (h : Stands ok space.window.map roots s out) (honest : FrameSource.Honest F space.window ok)
    (hroot : space.root ∈ roots) {va : VirtualAddress} {pa : PhysicalAddress} {pml2 : Frame}
    {e : Entry} (hw : walk space.window.map s.ram space.root (pathToPml2 va) = some pml2)
    (he : leafEntry pa .large = .ok e) :
    Mapped ok space roots s out va pa .large
      { s with
        ram := s.ram.setEntry (space.window.map.aliasOf pml2) (TableIndices.of va).pml2 e } := by
  have hmem : pml2 ∈ out := h.forest.owned (p := pathToPml2 va) hroot (Nat.le_succ 2) hw
  obtain ⟨hforest, hleaf⟩ := h.forest.writeLarge hroot hw
    (fun g _ j hj => entryAt_setEntry_of_ne s.ram e hj) (entryAt_setEntry _ _ _ _)
    (Entry.isTable_of_largeLeaf he)
  refine ⟨out, ⟨ok_setEntry honest h.ok hmem _ e, hforest⟩, List.Subset.refl out, e, he, ?_⟩
  intro r hr x
  rw [hleaf r hr x, leafAfter, largeLeaf_of_leafEntry he]
  by_cases hr' : r = space.root
  · simp [hr']
  · simp [hr']

/-- The 4 KiB leaf is written into the PML1 table of its address, which may just have been made. -/
theorem Stands.mapSmall {s t : Store F} {out mid : List Frame}
    (h : Stands ok space.window.map roots t mid) (honest : FrameSource.Honest F space.window ok)
    (hsub : out ⊆ mid) (hroot : space.root ∈ roots) {va : VirtualAddress} {pa : PhysicalAddress}
    {pml2 pml1 : Frame} {e : Entry}
    (hw2 : walk space.window.map s.ram space.root (pathToPml2 va) = some pml2)
    (hw : walk space.window.map t.ram space.root (pathToPml1 va) = some pml1)
    (hmade : ∀ r ∈ roots, ∀ x, leafOf space.window.map t.ram r x =
      if child? space.window.map s.ram pml2 (TableIndices.of va).pml2 = none ∧ r = space.root ∧
        pathToPml1 va <+: path x then none
      else leafOf space.window.map s.ram r x)
    (he : leafEntry pa .small = .ok e) :
    Mapped ok space roots s out va pa .small
      { t with
        ram := t.ram.setEntry (space.window.map.aliasOf pml1) (TableIndices.of va).pml1 e } := by
  have hmem : pml1 ∈ mid := h.forest.owned (p := pathToPml1 va) hroot (Nat.le_refl 3) hw
  obtain ⟨hforest, hleaf⟩ := h.forest.writeSmall hroot hw
    (fun g _ j hj => entryAt_setEntry_of_ne t.ram e hj) (entryAt_setEntry _ _ _ _)
  refine ⟨mid, ⟨ok_setEntry honest h.ok hmem _ e, hforest⟩, hsub, e, he, ?_⟩
  intro r hr x
  by_cases hr' : r = space.root
  · subst hr'
    rw [if_pos rfl]
    refine leafAfter_small hw2 ?_ ((hmade _ hr x).trans (by simp only [true_and]))
    rw [hleaf _ hr x, smallLeaf_of_leafEntry he]
    simp
  · rw [if_neg hr', hleaf r hr x, if_neg (fun hon => hr' hon.1), hmade r hr x,
      if_neg (fun hon => hr' hon.2.1)]

/-- Mapping a page in the tree below one of the roots. -/
theorem mapPage_ends (honest : FrameSource.Honest F space.window ok) {s : Store F}
    {out : List Frame} (h : Stands ok space.window.map roots s out) (hroot : space.root ∈ roots)
    (va : VirtualAddress) (pa : PhysicalAddress) (size : PageSize) :
    Ends (space.mapPage va pa size) s (fun _ t => Mapped ok space roots s out va pa size t)
      (Stopped ok space roots s out va pa) := by
  rw [AddressSpace.mapPage]
  refine Ends.bind ((nextTable_keeps honest h (p := []) _ .pml3 hroot (Nat.zero_le 1) rfl).mono
    (fun _ _ h => h) fun _ _ h => h.stopped va pa) ?_
  rintro pml3 s3 ⟨out3, hs3, hsub3, hwalk3, hkeep3⟩
  refine Ends.bind ((nextTable_keeps honest hs3 (p := [_]) _ .pml2 hroot (Nat.le_refl 1)
    hwalk3).mono (fun _ _ h => h) fun _ _ h => (h.stopped va pa).of_keeps hkeep3 hsub3) ?_
  rintro pml2 s2 ⟨out2, hs2, hsub2, hwalk2, hkeep2⟩
  change walk space.window.map s2.ram space.root (pathToPml2 va) = some pml2 at hwalk2
  -- up to here no leaf has changed
  have hkeep : Keeps space.window.map roots s s2 := hkeep3.trans hkeep2
  have hsub : out ⊆ out2 := List.Subset.trans hsub3 hsub2
  refine hkeep.ends hsub ?_
  cases size with
  | large =>
    have hmem : pml2 ∈ out2 := hs2.forest.owned (p := pathToPml2 va) hroot (Nat.le_succ 2) hwalk2
    simp only [table_eq honest hs2.ok hmem, Ends.check_ok_bind_iff]
    cases hentry : Entry.largeLeaf (.containing pa) with
    | error f =>
      obtain ⟨rfl, hbig⟩ := leafEntry_error (show leafEntry pa .large = _ from hentry)
      rw [Ends.check_error_bind_iff]
      exact ⟨out2, hs2, List.Subset.refl out2, .inr ⟨rfl, .inr hbig, fun _ _ _ _ => rfl⟩⟩
    | ok e =>
      rw [Ends.check_ok_bind_iff, Ends.updateRam_iff]
      exact hs2.mapLarge honest hroot hwalk2 hentry
  | small =>
    refine Ends.bind ((nextTable_ends honest hs2 (p := pathToPml2 va) _ .pml1 hroot (Nat.le_refl 2)
      hwalk2).mono (fun _ _ h => h) fun _ _ h => h.stopped va pa) ?_
    rintro pml1 s1 ⟨out1, hs1, hsub1, hwalk1, hmade⟩
    change walk space.window.map s1.ram space.root (pathToPml1 va) = some pml1 at hwalk1
    have hmem : pml1 ∈ out1 := hs1.forest.owned (p := pathToPml1 va) hroot (Nat.le_refl 3) hwalk1
    simp only [table_eq honest hs1.ok hmem, Ends.check_ok_bind_iff]
    cases hentry : Entry.leaf (.containing pa) with
    | error f =>
      obtain ⟨rfl, hbig⟩ := leafEntry_error (show leafEntry pa .small = _ from hentry)
      rw [Ends.check_error_bind_iff]
      refine ⟨out1, hs1, hsub1, .inr ⟨rfl, .inr hbig, ?_⟩⟩
      -- the PML1 table may be new, and it is on the way of the region only
      intro r hr x hx
      rw [hmade r hr x, if_neg]
      intro hon
      exact hx ⟨hon.2.1, (pathToPml1_prefix_iff va x).mp hon.2.2⟩
    | ok e =>
      rw [Ends.check_ok_bind_iff, Ends.updateRam_iff]
      exact hs1.mapSmall honest hsub1 hroot hwalk2 hwalk1 hmade hentry

end PageTree

end PagedMemory
