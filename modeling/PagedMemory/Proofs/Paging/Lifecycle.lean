import PagedMemory.Paging.KernelMap
import PagedMemory.Proofs.Endings
import PagedMemory.Proofs.Paging.Encoding
/-!
# The life of the kernel map

The kernel map is missing, then built, then active, and never goes back. What carries the argument
is that everything which may fail is done before the kernel map is touched: `initPaging` records a
root after the last page was mapped, and `loadKernelMap` after the register value was found to exist.
Everything else works on the pool below the kernel map.

Nothing is asked of the pool or of memory, and requests may end in any way.
-/
namespace PagedMemory

namespace Cr3

/-- The value for a root, if there is one, is the address of the root and nothing else. -/
theorem bits_of_ofRoot {root : Frame} {value : Cr3} (h : ofRoot root = .ok value) :
    root.number < 2 ^ 40 ∧ value.bits = root.base.value := by
  unfold ofRoot at h
  split at h
  · rename_i hholds
    have hnumber : root.number < 2 ^ 40 := of_decide_eq_true hholds
    have hbase : root.base.value.toNat = root.number * 4096 := root.toNat_base
    have hset : (rootField.set 0 root.number).toNat =
        0 % 4096 + 4096 * (root.number % 2 ^ 40) + 2 ^ 52 * (0 / 2 ^ 52) := BitField.toNat_set _ _ _
    cases h
    refine ⟨hnumber, UInt64.toNat_inj.mp ?_⟩
    show (rootField.set 0 root.number).toNat = _
    omega
  · cases h

theorem root_of_ofRoot {root : Frame} {value : Cr3} (h : ofRoot root = .ok value) :
    value.root = root := by
  obtain ⟨hnumber, -⟩ := bits_of_ofRoot h
  unfold ofRoot at h
  split at h
  · cases h
    apply Page.ext_number
    show rootField.get (rootField.set 0 root.number) = root.number
    rw [BitField.get_set]
    exact Nat.mod_eq_of_lt hnumber
  · cases h

/-- The value that loads a root and sets no flag. -/
def IsPlain (value : Cr3) (root : Frame) : Prop :=
  value.root = root ∧ value.bits = root.base.value ∧ value.writeThrough = false ∧
    value.cacheDisable = false

theorem isPlain_of_ofRoot {root : Frame} {value : Cr3} (h : ofRoot root = .ok value) :
    value.IsPlain root := by
  obtain ⟨-, hbits⟩ := bits_of_ofRoot h
  have hbase : root.base.value.toNat = root.number * 4096 := root.toNat_base
  refine ⟨root_of_ofRoot h, hbits, ?_, ?_⟩
  · show (value.bits.toNat / 2 ^ 3 % 2 ^ 1 == 1) = false
    rw [hbits, beq_eq_false_iff_ne]
    omega
  · show (value.bits.toNat / 2 ^ 4 % 2 ^ 1 == 1) = false
    rw [hbits, beq_eq_false_iff_ne]
    omega

end Cr3

namespace KernelMap

/-- What any number of operations may do to it. -/
inductive Precedes : KernelMap → KernelMap → Prop
  | missing (k : KernelMap) : Precedes .missing k
  | built (root : Frame) : Precedes (.built root) (.built root)
  | loaded (root : Frame) : Precedes (.built root) (.active root)
  | active (root : Frame) : Precedes (.active root) (.active root)

variable {k k' k'' : KernelMap} {r : Frame}

theorem Precedes.trans (h : k.Precedes k') (h' : k'.Precedes k'') : k.Precedes k'' := by
  cases h with
  | missing => exact .missing _
  | built root => exact h'
  | active root => exact h'
  | loaded root =>
    cases h'
    exact .loaded root

theorem root?_eq_none_iff : k.root? = none ↔ k = .missing := by
  cases k <;> simp [root?]

end KernelMap

namespace Paging

variable {α β : Type} {s : PagingStore}

/-! ## Operations on the pool -/

/-- However an operation ends, the kernel map is what it was. -/
def KeepsKernelMap (x : Op PagingError PagingStore α) : Prop :=
  ∀ s, Ends x s (fun _ t => t.kernelMap = s.kernelMap) (fun _ t => t.kernelMap = s.kernelMap)

theorem KeepsKernelMap.bind {x : Op PagingError PagingStore α}
    {f : α → Op PagingError PagingStore β} (hx : KeepsKernelMap x)
    (hf : ∀ a, KeepsKernelMap (f a)) : KeepsKernelMap (x >>= f) :=
  fun s => Ends.bind_trans (fun h h' => h'.trans h) (hx s) hf

theorem keepsKernelMap_onStore (x : Op PagingError (Store FramePool) α) :
    KeepsKernelMap (onStore x) :=
  fun _ => Ends.onPart_of_write fun _ => rfl

theorem keepsKernelMap_createSpace : KeepsKernelMap createSpace := by
  intro s
  rw [createSpace, Ends.get_bind_iff]
  exact keepsKernelMap_onStore _ s

theorem keepsKernelMap_mapFrames (space : AddressSpace)
    (virtualOf : PhysicalAddress → VirtualAddress) (fs : List Frame) :
    KeepsKernelMap (mapFrames space virtualOf fs) := by
  induction fs with
  | nil => exact fun s => rfl
  | cons f rest ih => exact (keepsKernelMap_onStore _).bind fun _ => ih

theorem keepsKernelMap_mapRegion (space : AddressSpace) (image : KernelImage) (r : Region) :
    KeepsKernelMap (mapRegion space image r) := by
  rw [mapRegion]
  split
  · exact keepsKernelMap_onStore _
  · exact (keepsKernelMap_mapFrames _ _ _).bind fun _ => keepsKernelMap_onStore _

theorem keepsKernelMap_mapRegions (space : AddressSpace) (image : KernelImage) (rs : List Region) :
    KeepsKernelMap (mapRegions space image rs) := by
  induction rs with
  | nil => exact fun s => rfl
  | cons r rest ih => exact (keepsKernelMap_mapRegion space image r).bind fun _ => ih

/-- The kernel map is built only where it was missing, and is recorded when nothing can fail any
more. -/
theorem kernelMap_initPaging (memoryMap : List Region) (image : KernelImage) (s : PagingStore) :
    Ends (initPaging memoryMap image) s
      (fun root t => s.kernelMap = .missing ∧ t.kernelMap = .built root)
      (fun stop t => t.kernelMap = s.kernelMap ∧
        (s.kernelMap ≠ .missing → stop = .error .alreadyInitialized ∧ t = s)) := by
  rw [initPaging, Ends.get_bind_iff]
  cases hroot : s.kernelMap.root? with
  | some root => exact ⟨rfl, fun _ => ⟨rfl, rfl⟩⟩
  | none =>
    have hmissing : s.kernelMap = .missing := KernelMap.root?_eq_none_iff.mp hroot
    simp only [Option.isSome_none, Bool.false_eq_true, if_false]
    refine Ends.bind ((keepsKernelMap_createSpace s).mono (fun _ _ h => h) ?_) ?_
    · exact fun stop t ht => ⟨ht, fun h => absurd hmissing h⟩
    · intro space t ht
      refine Ends.bind ((keepsKernelMap_mapRegions space image memoryMap t).mono
        (fun _ _ h => h) ?_) ?_
      · exact fun stop u hu => ⟨hu.trans ht, fun h => absurd hmissing h⟩
      · exact fun _ u _ => ⟨hmissing, rfl⟩

/-- A request to the manager of the page tables. -/
inductive Request
  | initPaging (regions : List Region) (image : KernelImage)
  | createTable
  | mapPage (target : Option PageMap) (virt : VirtualAddress) (phys : PhysicalAddress)
    (size : PageSize)
  | translate (target : Option PageMap) (virt : VirtualAddress)
  | kernelCr3
  | loadKernelMap

/-- What a request gives if it succeeds. -/
inductive Reply
  | root (f : Frame)
  | tree (map : PageMap)
  | done
  | found (a : Option PhysicalAddress)
  | value (r : Cr3)
  deriving DecidableEq

namespace Request

/-- Carries out a request. -/
def perform : Request → Op PagingError PagingStore Reply
  | .initPaging regions image => do return .root (← Paging.initPaging regions image)
  | .createTable => do return .tree (← Paging.createTable)
  | .mapPage target virt phys size => do
    Paging.memoryMap target virt phys size
    return .done
  | .translate target virt => do
    return .found (← Op.ofCheck (Paging.translate (← get) target virt))
  | .kernelCr3 => do return .value (← Paging.kernelCr3)
  | .loadKernelMap => do return .value (← Paging.loadKernelMap)

end Request

/-- A request in its place in a history: the state that it found, how it ended, and the state that
it left. -/
structure Moment where
  before : PagingStore
  request : Request
  reply : Except (Stop PagingError) Reply
  after : PagingStore

/-- A request as it is carried out in a state. -/
def Moment.of (s : PagingStore) (q : Request) : Moment :=
  ⟨s, q, (ending q.perform s).1, (ending q.perform s).2⟩

end Paging

end PagedMemory
