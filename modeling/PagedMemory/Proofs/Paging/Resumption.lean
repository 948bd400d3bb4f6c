import PagedMemory.Proofs.Agreement
import PagedMemory.Proofs.Paging.Requests
/-!
# Mapping a page again after memory ran out

A mapping that finds no frame for a table leaves behind the tables that it has linked. None of them
is lost: asked for the same mapping again, the tree leads along them to the table that was missing
without taking a frame, and from there on both attempts together do what a single one does that has
the frames of both. So it does not matter where a supply of frames is cut in two. Along the way of an
address walks are only prolonged; that carries the induction over the levels.
-/
namespace PagedMemory

/-- The same store with more frames to hand out after those that it has. -/
def Store.more (s : Store (List Frame)) (fs : List Frame) : Store (List Frame) :=
  { s with frames := s.frames ++ fs }

namespace AddressSpace

/-- The tables between the root and the leaf of a page: the index that leads to each, and its level. -/
def stepsTo (va : VirtualAddress) : PageSize → List (TableIndex × TableLevel)
  | .large => [((TableIndices.of va).pml4, .pml3), ((TableIndices.of va).pml3, .pml2)]
  | .small =>
    [((TableIndices.of va).pml4, .pml3), ((TableIndices.of va).pml3, .pml2),
      ((TableIndices.of va).pml2, .pml1)]

/-- The place of the leaf of a page in the last of these tables. -/
def leafIndex (va : VirtualAddress) : PageSize → TableIndex
  | .large => (TableIndices.of va).pml2
  | .small => (TableIndices.of va).pml1

variable {F : Type}

/-- Follows entries from a table down and makes the tables that are missing. -/
def follow [FrameSource F] (space : AddressSpace) :
    Frame → List (TableIndex × TableLevel) → Op MapError (Store F) Frame
  | f, [] => return f
  | f, (i, level) :: rest => do
    let g ← space.nextTable f i level
    space.follow g rest

/-- Writes the leaf of a page into the last table on the way to it. -/
def writeLeaf (space : AddressSpace) (va : VirtualAddress) (pa : PhysicalAddress) (size : PageSize)
    (last : Frame) : Op MapError (Store F) Unit := do
  let table ← Op.ofCheck (space.window.table last)
  let leaf ← Op.ofCheck (PageTree.leafEntry pa size)
  Store.updateRam (·.setEntry table (leafIndex va size) leaf)

/-- Mapping a page is following the way to its leaf and writing it. -/
theorem mapPage_eq [FrameSource F] (space : AddressSpace) (va : VirtualAddress)
    (pa : PhysicalAddress) (size : PageSize) :
    (space.mapPage va pa size : Op MapError (Store F) Unit) =
      space.follow space.root (stepsTo va size) >>= space.writeLeaf va pa size := by
  cases size with
  | small =>
    simp only [mapPage, stepsTo, follow, bind_assoc, pure_bind]
    rfl
  | large =>
    simp only [mapPage, stepsTo, follow, bind_assoc, pure_bind]
    rfl

end AddressSpace

namespace PageTree

open AddressSpace

/-- The level of the first table that is missing on a way down. -/
def missing? (map : DirectMap) (m : Ram) :
    Frame → List (TableIndex × TableLevel) → Option TableLevel
  | _, [] => none
  | f, (i, level) :: rest =>
    match child? map m f i with
    | none => some level
    | some g => missing? map m g rest

/-- Between two memories the walks from a root are only prolonged. -/
def Extends (map : DirectMap) (root : Frame) (m n : Ram) : Prop :=
  ∀ q f, q.length ≤ 3 → walk map m root q = some f → walk map n root q = some f

/-- A list of different frames that a window reaches, apart from those that were handed out. -/
def Listed (w : Window) (s : Store (List Frame)) (out : List Frame) : Prop :=
  (s.frames ++ out).Nodup ∧ ∀ f ∈ s.frames ++ out, w.reaches f = true

/-- Frames that a window reaches, none of them named twice and none a table of a tree. -/
structure Fresh (w : Window) (m : Ram) (root : Frame) (fs : List Frame) : Prop where
  nodup : fs.Nodup
  reached : ∀ f ∈ fs, w.reaches f = true
  unused : ∀ p f, p.length ≤ 3 → walk w.map m root p = some f → f ∉ fs

variable {map : DirectMap} {m n : Ram} {root parent f g : Frame} {p : List TableIndex}
variable {i : TableIndex} {level : TableLevel} {space : AddressSpace}

theorem missing?_mem {steps : List (TableIndex × TableLevel)}
    (h : missing? map m f steps = some level) : level ∈ steps.map Prod.snd := by
  induction steps generalizing f with
  | nil => cases h
  | cons step rest ih =>
    rw [missing?] at h
    split at h
    · cases h
      exact List.mem_cons_self
    · exact List.mem_cons_of_mem _ (ih h)

theorem Extends.refl (map : DirectMap) (root : Frame) (m : Ram) : Extends map root m m :=
  fun _ _ _ h => h

theorem Extends.trans {o : Ram} (h : Extends map root m n) (h' : Extends map root n o) :
    Extends map root m o :=
  fun q f hq hw => h' q f hq (h q f hq hw)

/-- An entry that linked to a table still links to it. -/
theorem Extends.child?_eq (h : Extends map root m n) (hp : p.length ≤ 2)
    (hw : walk map m root p = some parent) (hchild : walk map m root (p ++ [i]) = some f) :
    child? map n parent i = some f := by
  have hlength : (p ++ [i]).length ≤ 3 := by
    rw [List.length_append, List.length_singleton]
    omega
  rw [← walk_concat_of_walk i (h p parent (Nat.le_succ_of_le hp) hw)]
  exact h _ f hlength hchild

/-- A table that is added prolongs walks and leads none astray. -/
theorem TableAdded.extends {F : Type} {ok : Store F → List Frame → Prop} {roots out : List Frame}
    {s t : Store F} (h : TableAdded ok map s out parent i f t) (hs : Stands ok map roots s out)
    (hroot : root ∈ roots) (hp : p.length ≤ 2) (hw : walk map s.ram root p = some parent)
    (hchild : child? map s.ram parent i = none) : Extends map root s.ram t.ram := by
  intro q g hq hg
  have hoff : ¬ (root = root ∧ p ++ [i] <+: q) := by
    rintro ⟨-, u, rfl⟩
    rw [walk_append, walk_concat_of_walk i hw, hchild, Option.bind_none] at hg
    cases hg
  rwa [(hs.forest.sameAlong_write hroot (Nat.le_succ_of_le hp) hw h.same hroot
    (Nat.le_succ_of_le hq) hoff).walk_eq]

/-! ## One entry, over a list of frames -/

/-- A table that is there is found, whatever the frames are. -/
theorem nextTable_of_child {F : Type} [FrameSource F] {s : Store F}
    (hparent : space.window.reaches parent = true)
    (hchild : child? space.window.map s.ram parent i = some f) :
    space.nextTable parent i level s = .ok f s := by
  rw [child?] at hchild
  split at hchild
  · rename_i htable
    cases hchild
    rw [nextTable, Window.table, if_pos hparent]
    change (if (entryAt space.window.map s.ram parent i).isTable then
      pure (entryAt space.window.map s.ram parent i).frame else _ : Op MapError (Store F) Frame) s = _
    exact congrFun (if_pos htable) s
  · cases hchild

/-- What is left to do once it is known that a table is missing. -/
theorem nextTable_of_no_child {F : Type} [FrameSource F] {s : Store F}
    (hparent : space.window.reaches parent = true)
    (hchild : child? space.window.map s.ram parent i = none) :
    space.nextTable parent i level s = (do
      let some frame ← Op.ofStep FrameSource.take | Op.fail (.outOfMemory level)
      let table ← Op.ofCheck (space.window.table frame)
      Store.updateRam (·.clearTable table)
      let link ← Op.ofCheck (Entry.table frame)
      Store.updateRam (·.setEntry (space.window.map.aliasOf parent) i link)
      Store.logLine .trace fun _ => "allocated " ++ toString level ++ " table at " ++ toString frame
      return frame : Op MapError (Store F) Frame) s := by
  rw [child?] at hchild
  split at hchild
  · cases hchild
  · rename_i htable
    rw [nextTable, Window.table, if_pos hparent]
    change (if (entryAt space.window.map s.ram parent i).isTable then _ else _ :
      Op MapError (Store F) Frame) s = _
    exact congrFun (if_neg htable) s

theorem nextTable_of_nil {s : Store (List Frame)} (hparent : space.window.reaches parent = true)
    (hchild : child? space.window.map s.ram parent i = none) (hs : s.frames = []) :
    space.nextTable parent i level s = .error (.error (.outOfMemory level)) s := by
  obtain ⟨ram, frames, log⟩ := s
  cases hs
  exact nextTable_of_no_child hparent hchild

/-- The first frame of the list becomes the table, if its number fits into an entry. -/
theorem nextTable_of_cons {s : Store (List Frame)} {rest : List Frame} (level : TableLevel)
    (hparent : space.window.reaches parent = true)
    (hchild : child? space.window.map s.ram parent i = none) (hs : s.frames = g :: rest)
    (hg : space.window.reaches g = true) :
    space.nextTable parent i level s =
      match Entry.table g with
      | .ok link => .ok g
          ⟨(s.ram.clearTable (space.window.map.aliasOf g)).setEntry
            (space.window.map.aliasOf parent) i link, rest,
            s.log.add .trace fun _ => "allocated " ++ toString level ++ " table at " ++ toString g⟩
      | .error e => .error (.fault e)
          { s with ram := s.ram.clearTable (space.window.map.aliasOf g), frames := rest } := by
  obtain ⟨ram, frames, log⟩ := s
  cases hs
  have htable : space.window.table g = .ok (space.window.map.aliasOf g) := if_pos hg
  rw [nextTable_of_no_child hparent hchild]
  change (do
    let table ← Op.ofCheck (space.window.table g)
    Store.updateRam (·.clearTable table)
    let link ← Op.ofCheck (Entry.table g)
    Store.updateRam (·.setEntry (space.window.map.aliasOf parent) i link)
    Store.logLine .trace fun _ => "allocated " ++ toString level ++ " table at " ++ toString g
    return g : Op MapError (Store (List Frame)) Frame) ⟨ram, rest, log⟩ = _
  rw [htable]
  cases Entry.table g <;> rfl

variable {w : Window} {s : Store (List Frame)} {out : List Frame}

theorem honest_listed (w : Window) : FrameSource.Honest (List Frame) w (Listed w) :=
  FrameSource.honest_list_of fun _ h => h

/-- Tables below one root, made of frames of a list. -/
def Planted (space : AddressSpace) (s : Store (List Frame)) : Prop :=
  ∃ out, Stands (Listed space.window) space.window.map [space.root] s out

/-- Following an entry with the frames of a list: it succeeds, and with more frames it would do the
same, or the list was empty and nothing has changed. -/
theorem Planted.nextTable_ends (h : Planted space s) (i : TableIndex) (level : TableLevel)
    (hp : p.length ≤ 2) (hw : walk space.window.map s.ram space.root p = some parent) :
    Ends (space.nextTable parent i level) s
      (fun f t => Planted space t ∧ Extends space.window.map space.root s.ram t.ram ∧
        walk space.window.map t.ram space.root (p ++ [i]) = some f ∧ t.frames ⊆ s.frames ∧
        ∀ more, space.nextTable parent i level (s.more more) = .ok f (t.more more))
      (fun stop t => match stop with
        | .error e => e = .outOfMemory level ∧ t = s ∧ s.frames = [] ∧
          child? space.window.map s.ram parent i = none
        | .fault _ => ∃ f ∈ s.frames, 2 ^ 40 ≤ f.number) := by
  obtain ⟨out, h⟩ := h
  have honest := honest_listed space.window
  have hroot : space.root ∈ [space.root] := List.mem_cons_self
  have howned : parent ∈ out := h.forest.owned hroot (Nat.le_succ_of_le hp) hw
  have hparent : space.window.reaches parent = true := honest.reached h.ok howned
  cases hchild : child? space.window.map s.ram parent i with
  | some f =>
    refine Ends.of_eq_ok (nextTable_of_child hparent hchild) ⟨⟨out, h⟩, .refl _ _ _,
      (walk_concat_of_walk i hw).trans hchild, List.Subset.refl _, ?_⟩
    exact fun more => nextTable_of_child hparent hchild
  | none =>
    cases hs : s.frames with
    | nil => exact Ends.of_eq_error (nextTable_of_nil hparent hchild hs) ⟨rfl, rfl, rfl, rfl⟩
    | cons g rest =>
      have hg : space.window.reaches g = true :=
        h.ok.2 g (List.mem_append_left out (hs ▸ List.mem_cons_self))
      have hrun := nextTable_of_cons level hparent hchild hs hg
      have hmore : ∀ more, (s.more more).frames = g :: (rest ++ more) := fun more => by
        rw [Store.more, hs, List.cons_append]
      cases hlink : Entry.table g with
      | error e =>
        rw [hlink] at hrun
        obtain ⟨-, hbig⟩ := Entry.withFrameNumber_error hlink
        exact Ends.of_eq_error hrun ⟨g, List.mem_cons_self, hbig⟩
      | ok link =>
        rw [hlink] at hrun
        refine Ends.of_eq_ok hrun ?_
        obtain ⟨hfound, -⟩ | ⟨-, hadded⟩ := (nextTable_cases honest h.ok howned i level).of_ok hrun
        · cases hchild.symm.trans hfound
        · have hend := h.forest.walk_written hroot (Nat.le_succ_of_le hp) hw hadded.same
          refine ⟨⟨_, hadded.stands h hroot hp hw⟩, hadded.extends h hroot hp hw hchild,
            (walk_concat_of_walk i hend).trans hadded.child?_eq, List.subset_cons_self g rest, ?_⟩
          intro more
          rw [nextTable_of_cons (s := s.more more) level hparent hchild (hmore more) hg, hlink]
          rfl

/-! ## The whole way -/

/-- What is left if the frames do not last for the tables on a way: those that were made are found
again, and from the one that is missing on more frames do what they would have done at once. -/
structure Interrupted (space : AddressSpace) (parent : Frame)
    (steps : List (TableIndex × TableLevel)) (s : Store (List Frame)) (l : TableLevel)
    (t : Store (List Frame)) : Prop where
  planted : Planted space t
  prolonged : Extends space.window.map space.root s.ram t.ram
  used_up : t.frames = []
  missing : missing? space.window.map t.ram parent steps = some l
  resumed : ∀ more, space.follow parent steps (t.more more) = space.follow parent steps (s.more more)

theorem Planted.follow_ends {steps : List (TableIndex × TableLevel)} (h : Planted space s)
    (hp : p.length + steps.length ≤ 3)
    (hw : walk space.window.map s.ram space.root p = some parent) :
    Ends (space.follow parent steps) s
      (fun f t => Planted space t ∧
        walk space.window.map t.ram space.root (p ++ steps.map Prod.fst) = some f)
      (fun stop t => match stop with
        | .error (.outOfMemory l) => Interrupted space parent steps s l t
        | .fault _ => ∃ f ∈ s.frames, 2 ^ 40 ≤ f.number) := by
  induction steps generalizing s parent p with
  | nil => exact ⟨h, by rwa [List.map_nil, List.append_nil]⟩
  | cons step rest ih =>
    obtain ⟨i, level⟩ := step
    rw [List.length_cons] at hp
    have hp2 : p.length ≤ 2 := by omega
    have hlength : (p ++ [i]).length + rest.length ≤ 3 := by
      rw [List.length_append, List.length_singleton]
      omega
    refine Ends.bind ((h.nextTable_ends i level hp2 hw).mono (fun _ _ ht => ht) ?_) ?_
    · rintro (e | _) t ht
      · obtain ⟨rfl, rfl, hnil, hchild⟩ := ht
        exact ⟨h, .refl _ _ _, hnil, by rw [missing?, hchild], fun _ => rfl⟩
      · exact ht
    · rintro f t ⟨ht, hext, hwf, hsub, hmore⟩
      refine (ih ht hlength hwf).mono ?_ ?_
      · rintro g u ⟨hu, hwg⟩
        exact ⟨hu, by rwa [List.map_cons, List.append_cons]⟩
      · rintro (⟨l⟩ | _) u hu
        · -- the table of the first step is still there, so it is found without a frame
          have hchild : child? space.window.map u.ram parent i = some f :=
            hu.prolonged.child?_eq hp2 (hext p parent (Nat.le_succ_of_le hp2) hw) hwf
          obtain ⟨out, hout⟩ := hu.planted
          have hparent : space.window.reaches parent = true :=
            (honest_listed _).reached hout.ok (hout.forest.owned List.mem_cons_self
              (Nat.le_succ_of_le hp2)
              (hext.trans hu.prolonged p parent (Nat.le_succ_of_le hp2) hw))
          refine ⟨hu.planted, hext.trans hu.prolonged, hu.used_up, ?_, ?_⟩
          · rw [missing?, hchild]
            exact hu.missing
          · intro more
            have hagain : space.nextTable parent i level (u.more more) = .ok f (u.more more) :=
              nextTable_of_child hparent hchild
            rw [follow]
            simp only [Bind.bind, EStateM.bind, hagain, hmore, hu.resumed]
        · obtain ⟨g, hg, hbig⟩ := hu
          exact ⟨g, hsub hg, hbig⟩

/-! ## The first attempt and the second -/

/-- Looking an address up in a tree of tables in reach. -/
theorem Planted.translate_eq (h : Planted space s) (x : VirtualAddress) :
    space.translate s.ram x =
      .ok ((leafOf space.window.map s.ram space.root x).map (leafTarget x)) := by
  obtain ⟨out, hs⟩ := h
  rw [AddressSpace.translate, leaf_eq (fun p f hp hw => table_eq (honest_listed _) hs.ok
    (hs.forest.owned List.mem_cons_self hp hw)) x]
  rfl

/-- What a mapping leaves that ran out of frames at a table of some level: the first attempt has the
frames `first`, and `rest` are those that are there for the second. -/
structure Resumable (space : AddressSpace) (va : VirtualAddress) (pa : PhysicalAddress)
    (size : PageSize) (s : Store (List Frame)) (rest : List Frame) (l : TableLevel)
    (t : Store (List Frame)) : Prop where
  used_up : t.frames = []
  missing : missing? space.window.map t.ram space.root (stepsTo va size) = some l
  possible : l = .pml3 ∨ l = .pml2 ∨ l = .pml1 ∧ size = .small
  unmapped : ∀ x, ∃ found, space.translate s.ram x = .ok found ∧ space.translate t.ram x = .ok found
  /-- The second attempt ends as a single one that has all frames: with the same result, memory, log
  and frames that are left. -/
  resumed : space.mapPage va pa size { t with frames := rest } =
    space.mapPage va pa size { s with frames := s.frames ++ rest }

theorem level_possible {va : VirtualAddress} {size : PageSize}
    (h : missing? map m f (stepsTo va size) = some level) :
    level = .pml3 ∨ level = .pml2 ∨ level = .pml1 ∧ size = .small := by
  have hmem := missing?_mem h
  cases size with
  | small => simpa [stepsTo] using hmem
  | large => simpa [stepsTo] using hmem

theorem Interrupted.resumable {va : VirtualAddress} {pa : PhysicalAddress} {size : PageSize}
    {t : Store (List Frame)} (h : Interrupted space space.root (stepsTo va size) s level t)
    (hs : Planted space s) (hkeeps : Keeps space.window.map [space.root] s t) (rest : List Frame) :
    Resumable space va pa size s rest level t := by
  refine ⟨h.used_up, h.missing, level_possible h.missing, ?_, ?_⟩
  · intro x
    have hleaf := hkeeps space.root List.mem_cons_self x
    exact ⟨_, hs.translate_eq x, hleaf ▸ h.planted.translate_eq x⟩
  · have hmore : { t with frames := rest } = t.more rest := by rw [Store.more, h.used_up]; rfl
    rw [hmore, mapPage_eq]
    simp only [Bind.bind, EStateM.bind, h.resumed]
    rfl

theorem Planted.mapPage_ends (h : Planted space s) (va : VirtualAddress) (pa : PhysicalAddress)
    (size : PageSize) (rest : List Frame) :
    Ends (space.mapPage va pa size) s (fun _ _ => True)
      (fun stop t => match stop with
        | .error (.outOfMemory l) => Resumable space va pa size s rest l t
        | .fault _ => 2 ^ 52 ≤ pa.toNat ∨ ∃ f ∈ s.frames, 2 ^ 40 ≤ f.number) := by
  have hlength : ([] : List TableIndex).length + (stepsTo va size).length ≤ 3 := by
    cases size <;> simp [stepsTo]
  -- where the way breaks off, and that no leaf has changed by then
  have hway : Ends (space.mapPage va pa size) s (fun _ _ => True)
      (fun stop t => match stop with
        | .error (.outOfMemory l) => Interrupted space space.root (stepsTo va size) s l t
        | .fault _ => 2 ^ 52 ≤ pa.toNat ∨ ∃ f ∈ s.frames, 2 ^ 40 ≤ f.number) := by
    rw [mapPage_eq]
    refine Ends.bind ((h.follow_ends hlength rfl).mono (fun _ _ ht => ht) ?_) ?_
    · rintro (⟨l⟩ | _) t ht
      · exact ht
      · exact .inr ht
    · rintro last t ⟨⟨out, ht⟩, hwalk⟩
      have hlast : space.window.table last = .ok (space.window.map.aliasOf last) :=
        table_eq (honest_listed _) ht.ok (ht.forest.owned List.mem_cons_self
          (by simpa using hlength) hwalk)
      rw [writeLeaf, hlast, Ends.check_ok_bind_iff]
      cases hleaf : leafEntry pa size with
      | error fault => exact .inl (leafEntry_error hleaf).2
      | ok leaf => trivial
  obtain ⟨out, hs⟩ := h
  have hkeeps := PageTree.mapPage_ends (honest_listed space.window) hs List.mem_cons_self va pa size
  refine (hkeeps.and hway).mono (fun _ _ _ => trivial) ?_
  rintro (⟨l⟩ | _) t ⟨⟨out', -, -, hstop⟩, ht⟩
  · obtain ⟨-, -, hkeeps⟩ | ⟨hfault, -⟩ := hstop
    · exact ht.resumable ⟨out, hs⟩ hkeeps rest
    · cases hfault
  · exact ht

/-! ## Trees that requests have led to -/

variable {F : Type} [FrameSource F] {ok : Store F → List Frame → Prop}

/-- Frames that are no tables of a tree may become some. -/
theorem Fresh.planted {t : Store F} {out fs : List Frame}
    (h : Fresh space.window t.ram space.root fs)
    (honest : FrameSource.Honest F space.window ok)
    (ht : Stands ok space.window.map [space.root] t out) (log : Log) :
    Planted space ⟨t.ram, fs, log⟩ := by
  classical
  have hmem : ∀ f, f ∈ (out.filter (· ∉ fs)).dedup ↔ f ∈ out ∧ f ∉ fs := by simp
  refine ⟨(out.filter (· ∉ fs)).dedup, ⟨⟨?_, ?_⟩, ?_, ?_⟩⟩
  · refine List.nodup_append'.mpr ⟨h.nodup, List.nodup_dedup _, ?_⟩
    exact fun f hf hf' => ((hmem f).mp hf').2 hf
  · intro f hf
    rcases List.mem_append.mp hf with hf | hf
    · exact h.reached f hf
    · exact honest.reached ht.ok ((hmem f).mp hf).1
  · intro r p f hr hp hw
    obtain rfl := List.mem_singleton.mp hr
    exact (hmem f).mpr ⟨ht.forest.owned hr hp hw, h.unused p f hp hw⟩
  · exact ht.forest.apart

/-- Without the frames behind them the others are still fresh. -/
theorem Fresh.of_append {first rest : List Frame} (h : Fresh w m root (first ++ rest)) :
    Fresh w m root first :=
  ⟨h.nodup.of_append_left, fun f hf => h.reached f (List.mem_append_left rest hf),
    fun p f hp hw hf => h.unused p f hp hw (List.mem_append_left rest hf)⟩

/-- The frames that a list has left are fresh for each of its trees. -/
theorem fresh_of_stands {kind : Frame → Prop} (hkind : ∀ f, kind f → w.reaches f = true)
    (h : Stands (fun s out => (s.frames ++ out).Nodup ∧ ∀ f ∈ s.frames ++ out, kind f) w.map [root]
      s out) : Fresh w s.ram root s.frames := by
  refine ⟨h.ok.1.of_append_left, fun f hf => hkind f (h.ok.2 f (List.mem_append_left out hf)), ?_⟩
  intro p f hp hw hf
  exact (List.nodup_append'.mp h.ok.1).2.2 hf (h.forest.owned List.mem_cons_self hp hw)

theorem createAndMap_stands (honest : FrameSource.Honest F w ok)
    (low : ∀ {s out f}, ok s out → f ∈ out → f.number < 2 ^ 40) {s : Store F} (hs : ok s out)
    {requests : List MapRequest} (hq : ∀ q ∈ requests, q.phys.toNat < 2 ^ 52) :
    Ends (createAndMap w requests) s
      (fun (space, _) t => space.window = w ∧ ∃ out', Stands ok w.map [space.root] t out')
      (fun stop _ => stop = .error (.outOfMemory .pml4)) := by
  have hempty : Stands ok w.map [] s out :=
    ⟨hs, fun h => absurd h List.not_mem_nil, fun h => absurd h List.not_mem_nil⟩
  rw [createAndMap]
  refine Ends.bind ((create_ends honest hempty).mono (fun _ _ h => h) fun _ _ h => h.1) ?_
  rintro space t ⟨rfl, -, ht, -, hnone⟩
  have hserves : Serves ok space .empty t :=
    ⟨⟨_, ht⟩, fun x => by rw [hnone x]; rfl, AddressMap.whole_empty⟩
  refine Ends.bind (Ends.ofStep ((hserves.mapAll_ends honest low requests hq).mono
    (fun _ _ h => h) fun _ _ h => h.elim)) ?_
  intro M u hu
  exact ⟨rfl, hu.stands⟩

/-- Whatever requests a tree comes from, a further mapping that stops has used all of its frames, has
told the level of the first table that is missing and mapped nothing; with fresh frames for a second
attempt all is as if the first had had them too. -/
theorem resumable_createAndMap (honest : FrameSource.Honest F w ok)
    (low : ∀ {s out f}, ok s out → f ∈ out → f.number < 2 ^ 40) {s : Store F} (hs : ok s out)
    {requests : List MapRequest} (hq : ∀ q ∈ requests, q.phys.toNat < 2 ^ 52) :
    Ends (createAndMap w requests) s
      (fun (space, _) t => space.window = w ∧ ∀ va pa size first rest log,
        Fresh w t.ram space.root (first ++ rest) →
          Ends (space.mapPage va pa size) ⟨t.ram, first, log⟩ (fun _ _ => True)
            (fun stop u => match stop with
              | .error (.outOfMemory l) =>
                Resumable space va pa size ⟨t.ram, first, log⟩ rest l u
              | .fault _ => 2 ^ 52 ≤ pa.toNat ∨ ∃ f ∈ first, 2 ^ 40 ≤ f.number))
      (fun stop _ => stop = .error (.outOfMemory .pml4)) := by
  refine (createAndMap_stands honest low hs hq).mono ?_ fun _ _ h => h
  rintro ⟨space, M⟩ t ⟨rfl, out', ht⟩
  refine ⟨rfl, ?_⟩
  intro va pa size first rest log hfresh
  exact (hfresh.of_append.planted honest ht log).mapPage_ends va pa size rest

/-- A tree with a 2 MiB leaf, and three frames left for a page whose way has no table yet. The first
attempt has one of them and misses the PML2 table. -/
theorem resumable_createAndMap_one_frame :
    let w : Window := .whole ⟨0xffff800000000000⟩
    let s : Store (List Frame) :=
      ⟨.uniform 0xaa, [.ofNumber 7, .ofNumber 3, .ofNumber 12, .ofNumber 5, .ofNumber 9,
        .ofNumber 11], .empty none⟩
    let requests : List MapRequest := [⟨⟨0x40200000⟩, ⟨0x80200000⟩, .large⟩]
    let va : VirtualAddress := ⟨0xffff900000000000⟩
    let pa : PhysicalAddress := ⟨0x7000⟩
    let first : List Frame := [.ofNumber 5]
    let rest : List Frame := [.ofNumber 9, .ofNumber 11]
    ((s.frames ++ []).Nodup ∧ ∀ f ∈ s.frames ++ [], f.number < 2 ^ 40) ∧
      (∀ q ∈ requests, q.phys.toNat < 2 ^ 52) ∧
      Ends (createAndMap w requests) s
        (fun (space, _) t => Fresh w t.ram space.root (first ++ rest) ∧
          Ends (space.mapPage va pa .small) ⟨t.ram, first, t.log⟩ (fun _ _ => False)
            (fun stop u => stop = .error (.outOfMemory .pml2) ∧
              Resumable space va pa .small ⟨t.ram, first, t.log⟩ rest .pml2 u))
        (fun _ _ => False) := by
  intro w s requests va pa first rest
  have hs : (s.frames ++ []).Nodup ∧ ∀ f ∈ s.frames ++ [], f.number < 2 ^ 40 := by decide
  have hq : ∀ q ∈ requests, q.phys.toNat < 2 ^ 52 := by decide
  have honest := FrameSource.honest_list ⟨0xffff800000000000⟩
  have hrun : Ends (createAndMap w requests) s
      (fun (space, _) t => t.frames = first ++ rest ∧
        Ends (space.mapPage va pa .small) ⟨t.ram, first, t.log⟩ (fun _ _ => False)
          (fun stop _ => stop = .error (.outOfMemory .pml2)))
      (fun _ _ => False) := by decide +kernel
  have hstands := createAndMap_stands honest (fun h hf => h.2 _ (List.mem_append_right _ hf)) hs hq
  have hresumable := resumable_createAndMap honest
    (fun h hf => h.2 _ (List.mem_append_right _ hf)) hs hq
  refine ⟨hs, hq, ((hrun.and hstands).and hresumable).mono ?_ fun _ _ h => h.1.1⟩
  rintro ⟨space, M⟩ t ⟨⟨⟨hframes, hstop⟩, -, out', ht⟩, -, hresumable⟩
  have hfresh : Fresh w t.ram space.root (first ++ rest) :=
    hframes ▸ fresh_of_stands (fun _ _ => rfl) ht
  refine ⟨hfresh, (hstop.and (hresumable va pa .small first rest t.log hfresh)).mono
    (fun _ _ h => h.1) ?_⟩
  rintro stop u ⟨rfl, hu⟩
  exact ⟨rfl, hu⟩

end PageTree

end PagedMemory
