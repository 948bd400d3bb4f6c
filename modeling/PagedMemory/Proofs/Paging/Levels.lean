import PagedMemory.Proofs.Paging.Requests
/-!
# Every table has its level

A frame is taken for a table of one level and stays at that level for good. `Fitted` keeps book of
the levels: every entry holds what its level allows, and a link leads one level down, to a frame
that no other entry links to. A write to a table is judged by itself, without a walk that leads
there; only at the end are walks counted, and a walk of `n` steps is at the level with that number.
What can be reached is therefore a tree of four levels, with nothing left in it of what memory held
before.
-/
namespace PagedMemory

namespace TableLevel

/-- The level of the tables that a table links to. -/
def next? : TableLevel → Option TableLevel
  | pml4 => some pml3
  | pml3 => some pml2
  | pml2 => some pml1
  | pml1 => none

/-- The level that a number of steps from the root leads to. -/
def atDepth : Nat → TableLevel
  | 0 => pml4
  | 1 => pml3
  | 2 => pml2
  | _ => pml1

theorem next?_atDepth {d : Nat} (h : d ≤ 2) : (atDepth d).next? = some (atDepth (d + 1)) := by
  interval_cases d <;> rfl

theorem atDepth_ne_pml1 {d : Nat} (h : d ≤ 2) : atDepth d ≠ .pml1 := by
  interval_cases d <;> decide

theorem atDepth_inj {d d' : Nat} (h : d ≤ 3) (h' : d' ≤ 3) (he : atDepth d = atDepth d') :
    d = d' := by
  interval_cases d <;> interval_cases d' <;> first | rfl | cases he

theorem ne_pml1_of_next? {l l' : TableLevel} (h : l.next? = some l') : l ≠ .pml1 := by
  rintro rfl
  cases h

/-- The root level is below no other. -/
theorem next?_ne_pml4 (l : TableLevel) : l.next? ≠ some .pml4 := by
  cases l <;> decide

end TableLevel

namespace Entry

/-- The base of a frame, present and writable: a link to a table, or a 4 KiB leaf. -/
def RefersToFrame (e : Entry) : Prop :=
  ∃ f : Frame, f.base.toNat < 2 ^ 52 ∧ e.bits = f.base.value ||| 0x3

/-- The base of a 2 MiB page, present, writable and marked as a large leaf. -/
def RefersToLargePage (e : Entry) : Prop :=
  ∃ p : Page .physical .large, p.base.toNat < 2 ^ 52 ∧ e.bits = p.base.value ||| 0x83

/-- What an entry of a table of a level may hold. -/
def Fits (level : TableLevel) (e : Entry) : Prop :=
  e.bits = 0 ∨ e.RefersToFrame ∨ (level = .pml2 ∧ e.RefersToLargePage)

theorem fits_unused (level : TableLevel) : unused.Fits level := .inl rfl

theorem refersToFrame_of_table {f : Frame} {e : Entry} (h : table f = .ok e) :
    e.RefersToFrame := by
  have hn := number_lt_of_table h
  have hb : f.base.toNat = f.number * 4096 := f.toNat_base
  exact ⟨f, by omega, bits_of_table h⟩

theorem fits_of_table {f : Frame} {e : Entry} (h : table f = .ok e) (level : TableLevel) :
    e.Fits level := .inr (.inl (refersToFrame_of_table h))

theorem fits_of_largeLeaf {p : Page .physical .large} {e : Entry} (h : largeLeaf p = .ok e) :
    e.Fits .pml2 := .inr (.inr ⟨rfl, p, bits_of_largeLeaf h⟩)

/-- The bits that are set in a number below `2 ^ s` are below bit `s`. -/
theorem lt_of_testBit {x s k : Nat} (hx : x < 2 ^ s) (hk : x.testBit k = true) : k < s :=
  (Nat.pow_lt_pow_iff_right (by decide)).mp (Nat.lt_of_le_of_lt (Nat.ge_two_pow_of_testBit hk) hx)

/-- Those that are set in a multiple of `2 ^ s` are not. -/
theorem le_of_testBit {x s k : Nat} (hx : 2 ^ s ∣ x) (hk : x.testBit k = true) : s ≤ k := by
  obtain ⟨n, rfl⟩ := hx
  rw [Nat.testBit_two_pow_mul, Bool.and_eq_true, decide_eq_true_eq] at hk
  exact hk.1

/-- The bits that may be set in an entry: present, writable, the frame number, and in a PML2 entry
the page size. All others are clear. -/
theorem Fits.testBit {level : TableLevel} {e : Entry} (h : e.Fits level) {k : Nat}
    (hk : e.bits.toNat.testBit k = true) :
    k ≤ 1 ∨ (12 ≤ k ∧ k < 52) ∨ (level = .pml2 ∧ k = 7 ∧ e.RefersToLargePage) := by
  rcases h with h | ⟨f, hf, h⟩ | ⟨hlevel, hlarge⟩
  · rw [h] at hk
    simp at hk
  · rw [h, UInt64.toNat_or, Nat.testBit_or, Bool.or_eq_true] at hk
    rcases hk with hk | hk
    · have hdvd : 2 ^ 12 ∣ f.base.toNat := ⟨f.number, f.toNat_base.trans (Nat.mul_comm _ _)⟩
      exact .inr (.inl ⟨le_of_testBit hdvd hk, lt_of_testBit hf hk⟩)
    · have hlow : k < 2 := lt_of_testBit (by decide) hk
      omega
  · obtain ⟨p, hp, h⟩ := id hlarge
    rw [h, UInt64.toNat_or, Nat.testBit_or, Bool.or_eq_true] at hk
    rcases hk with hk | hk
    · have hdvd : 2 ^ 21 ∣ p.base.toNat := ⟨p.number, p.toNat_base.trans (Nat.mul_comm _ _)⟩
      have hge := le_of_testBit hdvd hk
      have hlt := lt_of_testBit hp hk
      omega
    · have hlow : k < 8 := lt_of_testBit (by decide) hk
      have hmark : k ≤ 1 ∨ k = 7 := by
        interval_cases k <;> first | decide | exact absurd hk (by decide)
      rcases hmark with hmark | rfl
      · exact .inl hmark
      · exact .inr (.inr ⟨hlevel, rfl, hlarge⟩)

end Entry

namespace PageTree

variable {map : DirectMap} {m n : Ram} {level : Frame → TableLevel} {tables : List Frame}

/-- An entry of a table above the lowest level links to a table. -/
def Links (map : DirectMap) (m : Ram) (level : Frame → TableLevel) (f : Frame) (i : TableIndex)
    (g : Frame) : Prop :=
  level f ≠ .pml1 ∧ child? map m f i = some g

/-- Tables, each at its level, whose entries hold what they may and link one level down. -/
structure Fitted (map : DirectMap) (m : Ram) (level : Frame → TableLevel) (tables : List Frame) :
    Prop where
  fits : ∀ f ∈ tables, ∀ i, (entryAt map m f i).Fits (level f)
  below : ∀ f ∈ tables, ∀ i g, Links map m level f i g →
    g ∈ tables ∧ (level f).next? = some (level g)
  once : ∀ f ∈ tables, ∀ f' ∈ tables, ∀ i j g, Links map m level f i g →
    Links map m level f' j g → (f, i) = (f', j)

namespace Fitted

/-- Memory in which links only get lost. -/
theorem of_links (h : Fitted map m level tables)
    (hfits : ∀ f ∈ tables, ∀ i, (entryAt map n f i).Fits (level f))
    (hlinks : ∀ f ∈ tables, ∀ i g, Links map n level f i g → Links map m level f i g) :
    Fitted map n level tables :=
  ⟨hfits, fun f hf i g hg => h.below f hf i g (hlinks f hf i g hg),
    fun f hf f' hf' i j g hg hg' =>
      h.once f hf f' hf' i j g (hlinks f hf i g hg) (hlinks f' hf' j g hg')⟩

theorem congr (h : Fitted map m level tables)
    (hsame : ∀ f ∈ tables, ∀ j, entryAt map n f j = entryAt map m f j) :
    Fitted map n level tables := by
  refine h.of_links ?_ ?_
  · intro f hf i
    rw [hsame f hf]
    exact h.fits f hf i
  · intro f hf i g hg
    exact ⟨hg.1, (child?_congr (hsame f hf i)).symm.trans hg.2⟩

/-- An entry that links nowhere is written. -/
theorem write (h : Fitted map m level tables) {f : Frame} {i : TableIndex}
    (hsame : ∀ g ∈ tables, ∀ j, (g, j) ≠ (f, i) → entryAt map n g j = entryAt map m g j)
    (hfits : (entryAt map n f i).Fits (level f))
    (hleaf : level f = .pml1 ∨ child? map n f i = none) : Fitted map n level tables := by
  refine h.of_links ?_ ?_
  · intro g hg j
    by_cases hj : (g, j) = (f, i)
    · cases hj
      exact hfits
    · rw [hsame g hg j hj]
      exact h.fits g hg j
  · intro g hg j g' hlink
    by_cases hj : (g, j) = (f, i)
    · cases hj
      rcases hleaf with hleaf | hleaf
      · exact absurd hleaf hlink.1
      · exact nomatch hleaf.symm.trans hlink.2
    · exact ⟨hlink.1, (child?_congr (hsame g hg j hj)).symm.trans hlink.2⟩

/-- An empty table that is in nobody's hands is linked, and takes the level below. -/
theorem link (h : Fitted map m level tables) {f g : Frame} {i : TableIndex} {l : TableLevel}
    (hf : f ∈ tables) (hg : g ∉ tables) (hl : (level f).next? = some l)
    (hsame : ∀ f' ∈ tables, ∀ j, (f', j) ≠ (f, i) → entryAt map n f' j = entryAt map m f' j)
    (hfits : (entryAt map n f i).Fits (level f)) (hlink : child? map n f i = some g)
    (hempty : ∀ j, entryAt map n g j = .unused) :
    Fitted map n (Function.update level g l) (g :: tables) := by
  have hkeep : ∀ f' ∈ tables, Function.update level g l f' = level f' := fun f' hf' =>
    Function.update_of_ne (fun he : f' = g => hg (he ▸ hf')) l level
  have hself : Function.update level g l g = l := Function.update_self g l level
  -- a link is the new one or was there before, and none comes from the new table
  have hcases : ∀ f' ∈ g :: tables, ∀ j g', Links map n (Function.update level g l) f' j g' →
      (f', j, g') = (f, i, g) ∨ f' ∈ tables ∧ Links map m level f' j g' := by
    rintro f' hf' j g' ⟨hne, hchild⟩
    rcases List.mem_cons.mp hf' with rfl | hf'
    · rw [child?_of_not_isTable (by rw [hempty]; rfl)] at hchild
      cases hchild
    · rw [hkeep f' hf'] at hne
      by_cases hj : (f', j) = (f, i)
      · cases hj
        cases hlink.symm.trans hchild
        exact .inl rfl
      · exact .inr ⟨hf', hne, (child?_congr (hsame f' hf' j hj)).symm.trans hchild⟩
  refine ⟨?_, ?_, ?_⟩
  · intro f' hf' j
    rcases List.mem_cons.mp hf' with rfl | hf'
    · rw [hempty]
      exact Entry.fits_unused _
    · rw [hkeep f' hf']
      by_cases hj : (f', j) = (f, i)
      · cases hj
        exact hfits
      · rw [hsame f' hf' j hj]
        exact h.fits f' hf' j
  · intro f' hf' j g' hlinks
    rcases hcases f' hf' j g' hlinks with he | ⟨hf', hold⟩
    · cases he
      rw [hkeep f hf, hself]
      exact ⟨List.mem_cons_self, hl⟩
    · obtain ⟨hg', hnext⟩ := h.below f' hf' j g' hold
      rw [hkeep f' hf', hkeep g' hg']
      exact ⟨List.mem_cons_of_mem g hg', hnext⟩
  · intro f₁ hf₁ f₂ hf₂ j₁ j₂ g' hlinks₁ hlinks₂
    rcases hcases f₁ hf₁ j₁ g' hlinks₁ with he₁ | ⟨hf₁, hold₁⟩
    · cases he₁
      rcases hcases f₂ hf₂ j₂ g hlinks₂ with he₂ | ⟨hf₂, hold₂⟩
      · cases he₂
        rfl
      · exact absurd (h.below f₂ hf₂ j₂ g hold₂).1 hg
    · rcases hcases f₂ hf₂ j₂ g' hlinks₂ with he₂ | ⟨hf₂, hold₂⟩
      · cases he₂
        exact absurd (h.below f₁ hf₁ j₁ g hold₁).1 hg
      · exact h.once f₁ hf₁ f₂ hf₂ j₁ j₂ g' hold₁ hold₂

/-- One empty table is a tree. -/
theorem plant {root : Frame} (hempty : ∀ j, entryAt map m root j = .unused) :
    Fitted map m (fun _ => .pml4) [root] := by
  have hnone : ∀ f ∈ [root], ∀ i g, ¬ Links map m (fun _ => .pml4) f i g := by
    rintro f hf i g ⟨-, hchild⟩
    cases List.mem_singleton.mp hf
    rw [child?_of_not_isTable (by rw [hempty]; rfl)] at hchild
    cases hchild
  refine ⟨?_, fun f hf i g hg => absurd hg (hnone f hf i g),
    fun f hf f' _ i j g hg => absurd hg (hnone f hf i g)⟩
  intro f hf i
  cases List.mem_singleton.mp hf
  rw [hempty]
  exact Entry.fits_unused _

end Fitted

/-! ## What walks reach -/

namespace Fitted

variable {root : Frame}

/-- A walk of up to three steps leads to the level with that number. -/
theorem level_of_walk (h : Fitted map m level tables) (hroot : root ∈ tables)
    (hlevel : level root = .pml4) {p : List TableIndex} {f : Frame} (hp : p.length ≤ 3)
    (hw : walk map m root p = some f) : f ∈ tables ∧ level f = .atDepth p.length := by
  induction p using List.reverseRecOn generalizing f with
  | nil =>
    cases hw
    exact ⟨hroot, hlevel⟩
  | append_singleton q i ih =>
    rw [List.length_append, List.length_singleton] at hp ⊢
    rw [walk_concat] at hw
    obtain ⟨parent, hparent, hchild⟩ := Option.bind_eq_some_iff.mp hw
    obtain ⟨hmem, hat⟩ := ih (by omega) hparent
    have hq : q.length ≤ 2 := by omega
    have hlink : Links map m level parent i f :=
      ⟨hat ▸ TableLevel.atDepth_ne_pml1 hq, hchild⟩
    obtain ⟨hf, hnext⟩ := h.below parent hmem i f hlink
    rw [hat, TableLevel.next?_atDepth hq] at hnext
    exact ⟨hf, (Option.some.inj hnext).symm⟩

/-- A step of a walk above the lowest level is a link. -/
theorem links_of_walk (h : Fitted map m level tables) (hroot : root ∈ tables)
    (hlevel : level root = .pml4) {p : List TableIndex} {f g : Frame} {i : TableIndex}
    (hp : p.length ≤ 2) (hw : walk map m root p = some f) (hg : child? map m f i = some g) :
    Links map m level f i g := by
  obtain ⟨-, hat⟩ := h.level_of_walk hroot hlevel (Nat.le_succ_of_le hp) hw
  exact ⟨hat ▸ TableLevel.atDepth_ne_pml1 hp, hg⟩

/-- No table is reached along two paths. -/
theorem walk_inj (h : Fitted map m level tables) (hroot : root ∈ tables)
    (hlevel : level root = .pml4) {p p' : List TableIndex} {f : Frame} (hp : p.length ≤ 3)
    (hp' : p'.length ≤ 3) (hw : walk map m root p = some f) (hw' : walk map m root p' = some f) :
    p = p' := by
  have hlength : p.length = p'.length := by
    apply TableLevel.atDepth_inj hp hp'
    rw [← (h.level_of_walk hroot hlevel hp hw).2, (h.level_of_walk hroot hlevel hp' hw').2]
  induction p using List.reverseRecOn generalizing p' f with
  | nil => exact (List.length_eq_zero_iff.mp hlength.symm).symm
  | append_singleton q i ih =>
    obtain ⟨q', j, rfl⟩ : ∃ q' j, p' = q' ++ [j] := by
      rcases List.eq_nil_or_concat p' with rfl | ⟨q', j, rfl⟩
      · simp at hlength
      · exact ⟨q', j, by simp⟩
    simp only [List.length_append, List.length_singleton] at hp hp' hlength
    rw [walk_concat] at hw hw'
    obtain ⟨parent, hparent, hchild⟩ := Option.bind_eq_some_iff.mp hw
    obtain ⟨parent', hparent', hchild'⟩ := Option.bind_eq_some_iff.mp hw'
    have hmem := (h.level_of_walk hroot hlevel (by omega) hparent).1
    have hmem' := (h.level_of_walk hroot hlevel (by omega) hparent').1
    have hlink := h.links_of_walk hroot hlevel (by omega) hparent hchild
    have hlink' := h.links_of_walk hroot hlevel (by omega) hparent' hchild'
    -- the two last steps are the same entry, so the walks before them end in one table
    cases h.once parent hmem parent' hmem' i j f hlink hlink'
    rw [ih (by omega) (by omega) hparent hparent' (by omega)]

end Fitted

/-! ## Mapping pages -/

variable {F : Type} {space : AddressSpace} {ok : Store F → List Frame → Prop}
variable {root : Frame} {out : List Frame}

/-- A tree made of tables of its own, each at its level: the supply gave them away for it, and none
of them was in use before. -/
structure Raised (ok : Store F → List Frame → Prop) (map : DirectMap) (root : Frame)
    (out : List Frame) (s : Store F) (level : Frame → TableLevel) (tables : List Frame) : Prop where
  ok : ok s (tables ++ out)
  nodup : tables.Nodup
  apart : tables.Disjoint out
  root_mem : root ∈ tables
  root_level : level root = .pml4
  fitted : Fitted map s.ram level tables

/-- The tree is in order, whatever tables it has come to have. -/
def InOrder (ok : Store F → List Frame → Prop) (map : DirectMap) (root : Frame)
    (out : List Frame) (s : Store F) : Prop :=
  ∃ level tables, Raised ok map root out s level tables

variable [FrameSource F] {s : Store F}

/-- Following an entry of a table leads to a table of the level below. Without a frame nothing has
changed. -/
theorem Raised.nextTable_ends (h : Raised ok space.window.map root out s level tables)
    (honest : FrameSource.Honest F space.window ok)
    (low : ∀ {s out f}, ok s out → f ∈ out → f.number < 2 ^ 40) {parent : Frame}
    (hparent : parent ∈ tables) {l : TableLevel} (hl : (level parent).next? = some l)
    (i : TableIndex) :
    Ends (space.nextTable parent i l) s
      (fun f t => ∃ level' tables', Raised ok space.window.map root out t level' tables' ∧
        f ∈ tables' ∧ level' f = l)
      (fun stop t => stop = .error (.outOfMemory l) ∧ InOrder ok space.window.map root out t) := by
  have hout : parent ∈ tables ++ out := List.mem_append_left out hparent
  refine (nextTable_cases honest h.ok hout i l).mono ?_ ?_
  · rintro f t (⟨hchild, rfl⟩ | ⟨-, hadded⟩)
    · obtain ⟨hmem, hnext⟩ := h.fitted.below parent hparent i f
        ⟨TableLevel.ne_pml1_of_next? hl, hchild⟩
      exact ⟨level, tables, h, hmem, Option.some.inj (hnext.symm.trans hl)⟩
    · have hft : f ∉ tables := fun hf => hadded.fresh (List.mem_append_left out hf)
      have hfo : f ∉ out := fun hf => hadded.fresh (List.mem_append_right tables hf)
      refine ⟨Function.update level f l, f :: tables,
        ⟨hadded.ok, List.nodup_cons.mpr ⟨hft, h.nodup⟩, List.disjoint_cons_left.mpr ⟨hfo, h.apart⟩,
          List.mem_cons_of_mem f h.root_mem, ?_, ?_⟩, List.mem_cons_self, by simp⟩
      · rw [Function.update_of_ne (fun he : root = f => hft (he ▸ h.root_mem)), h.root_level]
      · exact h.fitted.link hparent hft hl
          (fun g hg j hj => hadded.same g (List.mem_append_left out hg) j hj)
          (Entry.fits_of_table hadded.link _) hadded.child?_eq hadded.empty
  · rintro stop t ⟨-, hsame, ⟨rfl, -, hok⟩ | ⟨-, g, hbig, hok⟩⟩
    · exact ⟨rfl, level, tables, hok, h.nodup, h.apart, h.root_mem, h.root_level,
        h.fitted.congr fun f hf => hsame f (List.mem_append_left out hf)⟩
    · exact absurd (low hok List.mem_cons_self) (Nat.not_lt.mpr hbig)

/-- A leaf that its table may hold is written. -/
theorem Raised.write (h : Raised ok space.window.map root out s level tables)
    (honest : FrameSource.Honest F space.window ok) {f : Frame} (hf : f ∈ tables) (i : TableIndex)
    {e : Entry} (hfits : e.Fits (level f)) (hleaf : level f = .pml1 ∨ e.isTable = false) :
    InOrder ok space.window.map root out
      { s with ram := s.ram.setEntry (space.window.map.aliasOf f) i e } := by
  have hat : entryAt space.window.map (s.ram.setEntry (space.window.map.aliasOf f) i e) f i = e :=
    entryAt_setEntry _ _ _ _
  refine ⟨level, tables, ok_setEntry honest h.ok (List.mem_append_left out hf) i e, h.nodup,
    h.apart, h.root_mem, h.root_level, h.fitted.write ?_ ?_ ?_ (f := f) (i := i)⟩
  · exact fun g _ j hj => entryAt_setEntry_of_ne s.ram e hj
  · rwa [hat]
  · exact hleaf.imp_right fun hleaf => child?_of_not_isTable (by rw [hat, hleaf])

/-- Mapping a page, whether it succeeds or not. -/
theorem InOrder.mapPage_ends (h : InOrder ok space.window.map space.root out s)
    (honest : FrameSource.Honest F space.window ok)
    (low : ∀ {s out f}, ok s out → f ∈ out → f.number < 2 ^ 40) (va : VirtualAddress)
    {pa : PhysicalAddress} (hpa : pa.toNat < 2 ^ 52) (size : PageSize) :
    Ends (space.mapPage va pa size) s
      (fun _ t => InOrder ok space.window.map space.root out t)
      (fun stop t => (∃ l, stop = .error (.outOfMemory l)) ∧
        InOrder ok space.window.map space.root out t) := by
  obtain ⟨level, tables, h⟩ := h
  rw [AddressSpace.mapPage]
  refine Ends.bind ((h.nextTable_ends honest low h.root_mem (by rw [h.root_level]; rfl) _).mono
    (fun _ _ h => h) fun _ _ h => ⟨⟨_, h.1⟩, h.2⟩) ?_
  rintro pml3 s3 ⟨level3, tables3, h3, hmem3, hlevel3⟩
  refine Ends.bind ((h3.nextTable_ends honest low hmem3 (by rw [hlevel3]; rfl) _).mono
    (fun _ _ h => h) fun _ _ h => ⟨⟨_, h.1⟩, h.2⟩) ?_
  rintro pml2 s2 ⟨level2, tables2, h2, hmem2, hlevel2⟩
  cases size with
  | large =>
    obtain ⟨leaf, hleaf⟩ := Entry.largeLeaf_ok hpa
    simp only [table_eq honest h2.ok (List.mem_append_left out hmem2), hleaf,
      Ends.check_ok_bind_iff, Ends.updateRam_iff]
    exact h2.write honest hmem2 _ (hlevel2 ▸ Entry.fits_of_largeLeaf hleaf)
      (.inr (Entry.isTable_of_largeLeaf hleaf))
  | small =>
    refine Ends.bind ((h2.nextTable_ends honest low hmem2 (by rw [hlevel2]; rfl) _).mono
      (fun _ _ h => h) fun _ _ h => ⟨⟨_, h.1⟩, h.2⟩) ?_
    rintro pml1 s1 ⟨level1, tables1, h1, hmem1, hlevel1⟩
    obtain ⟨leaf, hleaf⟩ := Entry.leaf_ok hpa
    simp only [table_eq honest h1.ok (List.mem_append_left out hmem1), hleaf,
      Ends.check_ok_bind_iff, Ends.updateRam_iff]
    exact h1.write honest hmem1 _ (Entry.fits_of_table hleaf _) (.inl hlevel1)

/-- Any number of requests, some of which may be refused. -/
theorem InOrder.mapAll_ends (h : InOrder ok space.window.map space.root out s)
    (honest : FrameSource.Honest F space.window ok)
    (low : ∀ {s out f}, ok s out → f ∈ out → f.number < 2 ^ 40) {M : AddressMap}
    {requests : List MapRequest} (hq : ∀ q ∈ requests, q.phys.toNat < 2 ^ 52) :
    Ends (space.mapAll M requests) s
      (fun _ t => InOrder ok space.window.map space.root out t) (fun _ _ => False) := by
  induction requests generalizing M s with
  | nil => exact h
  | cons q rest ih =>
    obtain ⟨hfirst, hrest⟩ := List.forall_mem_cons.mp hq
    rw [AddressSpace.mapAll]
    refine Ends.bind (p := fun _ t => InOrder ok space.window.map space.root out t)
      (Ends.toOption ?_) ?_
    · refine (h.mapPage_ends honest low q.virt hfirst q.size).mono (fun _ _ ht => ht) ?_
      rintro stop t ⟨⟨l, rfl⟩, ht⟩
      exact ht
    · rintro (_ | _) t ht
      · exact ih ht hrest
      · exact ih ht hrest

/-- A tree of page tables as it should be. A walk of `n` steps from the root ends in a table of the
level with that number. -/
structure WellFormed (map : DirectMap) (m : Ram) (root : Frame) (tables : List Frame) : Prop where
  /-- Every entry of every table is unused, a link or leaf, or, in PML2 only, a 2 MiB leaf. -/
  fits : ∀ p f i, p.length ≤ 3 → walk map m root p = some f →
    (entryAt map m f i).Fits (.atDepth p.length)
  /-- No bit is set but present, writable, the frame number, and page size in PML2. -/
  bits : ∀ p f i k, p.length ≤ 3 → walk map m root p = some f →
    (entryAt map m f i).bits.toNat.testBit k = true →
      k ≤ 1 ∨ (12 ≤ k ∧ k < 52) ∨
        (p.length = 2 ∧ k = 7 ∧ (entryAt map m f i).RefersToLargePage)
  /-- Every table that can be reached is one of those that were handed out for the tree. -/
  handedOut : ∀ p f, p.length ≤ 3 → walk map m root p = some f → f ∈ tables
  /-- No table is at two levels, or at the ends of two paths. -/
  walk_inj : ∀ p p' f, p.length ≤ 3 → p'.length ≤ 3 → walk map m root p = some f →
    walk map m root p' = some f → p = p'
  /-- Every table but the root is linked by exactly one entry. -/
  linkedOnce : ∀ p f, p.length ≤ 3 → walk map m root p = some f → f ≠ root →
    ∃! slot : Frame × TableIndex, (∃ q, q.length ≤ 2 ∧ walk map m root q = some slot.1) ∧
      child? map m slot.1 slot.2 = some f
  /-- The root is linked by none. -/
  root_not_linked : ∀ p f i, p.length ≤ 2 → walk map m root p = some f →
    child? map m f i ≠ some root

omit [FrameSource F] in
theorem Fitted.wellFormed (h : Fitted map m level tables) (hroot : root ∈ tables)
    (hlevel : level root = .pml4) : WellFormed map m root tables := by
  have hfits : ∀ p f i, p.length ≤ 3 → walk map m root p = some f →
      (entryAt map m f i).Fits (.atDepth p.length) := by
    intro p f i hp hw
    obtain ⟨hf, hat⟩ := h.level_of_walk hroot hlevel hp hw
    exact hat ▸ h.fits f hf i
  refine ⟨hfits, ?_, fun p f hp hw => (h.level_of_walk hroot hlevel hp hw).1,
    fun p p' f hp hp' hw hw' => h.walk_inj hroot hlevel hp hp' hw hw', ?_, ?_⟩
  · intro p f i k hp hw hk
    refine ((hfits p f i hp hw).testBit hk).imp_right (Or.imp_right ?_)
    rintro ⟨hat, hk⟩
    exact ⟨TableLevel.atDepth_inj hp (by decide) hat, hk⟩
  · intro p f hp hw hne
    obtain ⟨q, i, rfl⟩ : ∃ q i, p = q ++ [i] := by
      rcases List.eq_nil_or_concat p with rfl | ⟨q, i, rfl⟩
      · cases hw
        exact absurd rfl hne
      · exact ⟨q, i, by simp⟩
    rw [List.length_append, List.length_singleton] at hp
    rw [walk_concat] at hw
    obtain ⟨parent, hparent, hchild⟩ := Option.bind_eq_some_iff.mp hw
    refine ⟨(parent, i), ⟨⟨q, by omega, hparent⟩, hchild⟩, ?_⟩
    rintro ⟨f', j⟩ ⟨⟨q', hq', hw'⟩, hchild'⟩
    have hmem := (h.level_of_walk hroot hlevel (by omega) hparent).1
    have hmem' := (h.level_of_walk hroot hlevel (by omega) hw').1
    exact h.once f' hmem' parent hmem j i f (h.links_of_walk hroot hlevel hq' hw' hchild')
      (h.links_of_walk hroot hlevel (by omega) hparent hchild)
  · intro p f i hp hw hchild
    obtain ⟨hf, -⟩ := h.level_of_walk hroot hlevel (by omega) hw
    obtain ⟨-, hnext⟩ := h.below f hf i root (h.links_of_walk hroot hlevel hp hw hchild)
    rw [hlevel] at hnext
    exact TableLevel.next?_ne_pml4 _ hnext

/-- After any requests, over any contents of memory, the tree is well-formed, and made of frames
that were handed out for it. -/
theorem wellFormed_createAndMap {w : Window} (honest : FrameSource.Honest F w ok)
    (low : ∀ {s out f}, ok s out → f ∈ out → f.number < 2 ^ 40) (hs : ok s out)
    {requests : List MapRequest}
    (hq : ∀ q ∈ requests, q.phys.toNat < 2 ^ 52) :
    Ends (AddressSpace.createAndMap w requests) s
      (fun (space, _) t => space.window = w ∧ ∃ tables, ok t (tables ++ out) ∧
        tables.Nodup ∧ tables.Disjoint out ∧ space.root ∈ tables ∧
        WellFormed w.map t.ram space.root tables)
      (fun stop _ => stop = .error (.outOfMemory .pml4)) := by
  have hcreate : Ends (AddressSpace.create w) s
      (fun space t => space.window = w ∧ InOrder ok w.map space.root out t)
      (fun stop _ => stop = .error (.outOfMemory .pml4)) := by
    refine (create_cases honest hs).mono ?_ fun _ _ h => h.1
    intro space t ht
    obtain ⟨hwindow, hroot, hok, -, hempty⟩ := ht
    exact ⟨hwindow, _, [space.root], hok, List.nodup_singleton _, List.singleton_disjoint.mpr hroot,
      List.mem_cons_self, rfl, Fitted.plant hempty⟩
  rw [AddressSpace.createAndMap]
  refine Ends.bind hcreate ?_
  rintro space t ⟨rfl, ht⟩
  refine Ends.bind (Ends.ofStep ((ht.mapAll_ends honest low hq).mono
    (fun _ _ h => h) fun _ _ h => h.elim)) ?_
  rintro M u ⟨level, tables, hu⟩
  exact ⟨rfl, tables, hu.ok, hu.nodup, hu.apart, hu.root_mem,
    hu.fitted.wellFormed hu.root_mem hu.root_level⟩

/-- Four frames last for a 2 MiB page, a 4 KiB page in place of it and the 2 MiB page once more; the
request after that finds no frame for its table. Two tables hang below the root; the lower one has
the 2 MiB page and nothing where the last request would have linked its table. -/
theorem wellFormed_createAndMap_four_frames :
    let w : Window := .whole ⟨0xffff800000000000⟩
    let s : Store (List Frame) :=
      ⟨.uniform 0xaa, [.ofNumber 7, .ofNumber 3, .ofNumber 12, .ofNumber 5], .empty none⟩
    let va : VirtualAddress := ⟨0x40200000⟩
    let refused : VirtualAddress := ⟨0x40401000⟩
    let requests : List MapRequest :=
      [⟨va, ⟨0x80200000⟩, .large⟩, ⟨⟨0x40201000⟩, ⟨0x5000⟩, .small⟩, ⟨va, ⟨0x80200000⟩, .large⟩,
        ⟨refused, ⟨0x7000⟩, .small⟩]
    ((s.frames ++ []).Nodup ∧ ∀ f ∈ s.frames ++ [], f.number < 2 ^ 40) ∧
      (∀ q ∈ requests, q.phys.toNat < 2 ^ 52) ∧
      ∃ space M t, AddressSpace.createAndMap w requests s = .ok (space, M) t ∧
        (t.frames = [] ∧ space.root = .ofNumber 7 ∧
          walk w.map t.ram space.root (pathToPml2 va) = some (.ofNumber 12) ∧
          (entryAt w.map t.ram (.ofNumber 7) (TableIndices.of va).pml4).bits = 0x3003 ∧
          (entryAt w.map t.ram (.ofNumber 3) (TableIndices.of va).pml3).bits = 0xc003 ∧
          (entryAt w.map t.ram (.ofNumber 12) (TableIndices.of va).pml2).bits = 0x80200083 ∧
          (entryAt w.map t.ram (.ofNumber 12) (TableIndices.of refused).pml2).bits = 0) ∧
        space.window = w ∧ ∃ tables,
          ((t.frames ++ (tables ++ [])).Nodup ∧
            ∀ f ∈ t.frames ++ (tables ++ []), f.number < 2 ^ 40) ∧
          tables.Nodup ∧ tables.Disjoint [] ∧ space.root ∈ tables ∧
          WellFormed w.map t.ram space.root tables := by
  intro w s va refused requests
  have hs : (s.frames ++ []).Nodup ∧ ∀ f ∈ s.frames ++ [], f.number < 2 ^ 40 := by decide
  have hq : ∀ q ∈ requests, q.phys.toNat < 2 ^ 52 := by decide
  have hrun : Ends (AddressSpace.createAndMap w requests) s
      (fun (space, _) t => t.frames = [] ∧ space.root = .ofNumber 7 ∧
        walk w.map t.ram space.root (pathToPml2 va) = some (.ofNumber 12) ∧
        (entryAt w.map t.ram (.ofNumber 7) (TableIndices.of va).pml4).bits = 0x3003 ∧
        (entryAt w.map t.ram (.ofNumber 3) (TableIndices.of va).pml3).bits = 0xc003 ∧
        (entryAt w.map t.ram (.ofNumber 12) (TableIndices.of va).pml2).bits = 0x80200083 ∧
        (entryAt w.map t.ram (.ofNumber 12) (TableIndices.of refused).pml2).bits = 0)
      fun _ _ => False := by decide +kernel
  have hwellFormed := wellFormed_createAndMap (FrameSource.honest_list ⟨0xffff800000000000⟩)
    (fun h hf => h.2 _ (List.mem_append_right _ hf)) hs hq
  obtain ⟨⟨space, M⟩, t, hok, hpinned, htree⟩ :=
    ((hrun.and hwellFormed).mono (fun _ _ h => h) fun _ _ h => h.1).exists_ok
  exact ⟨hs, hq, space, M, t, hok, hpinned, htree⟩

end PageTree

end PagedMemory
