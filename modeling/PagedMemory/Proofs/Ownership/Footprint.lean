import PagedMemory.Proofs.Ownership.Partition
/-!
# What a request leaves alone

The free lists, the headers of blocks and the tables all lie in the memory that is shared out, and
all of them are written through one direct map. Still a request writes only where it is entitled to:
to what is free, to what it is given and, if it is about page tables, to tables. The books keep all
that apart from what anyone else holds, so frames, payloads and block sizes of others stay as they
are, also if the request fails half way.
-/
namespace PagedMemory

open FreeList

namespace Request

/-- The payload that a request gives back. -/
def payload? : Request → Option VirtualAddress
  | .free p | .reallocate p _ | .reallocLayout p _ _ => some p
  | _ => none

/-- Whether a request is about page tables. -/
def isPaging : Request → Bool
  | .createTable | .initPaging .. | .mapPage .. | .translate .. | .loadKernelMap => true
  | _ => false

/-- Whether a client writes to its own memory, and nothing is asked of the system. -/
def isWrite : Request → Bool
  | .write .. => true
  | _ => false

end Request

namespace Ledger

/-- Why a request may write to an address. -/
inductive Entitled (map : DirectMap) (l : Ledger) (fs : List Frame) (free live : List Run)
    (q : Request) (a : VirtualAddress) : Prop
  | freeFrame (h : map.frameAt a ∈ fs)
  | givenFrame (h : q = .returnFrame (map.frameAt a))
  | table (hq : q.isPaging = true) (h : map.frameAt a ∈ l.tables)
  | freeBlock {b : Run} (hb : b ∈ free) (h : a ∈ b)
  | givenBlock {b : Run} (hb : b ∈ live) (hq : q.payload? = some (payloadOf b.start)) (h : a ∈ b)
  | ownFrame (hq : q.isWrite = true) (h : map.frameAt a ∈ l.held)
  | ownBlock {b : Run} (hq : q.isWrite = true) (hb : b ∈ live) (h : a ∈ b)

variable {map : DirectMap} {total : Nat} {all fs : List Frame} {l : Ledger}
variable {free live aside : List Run} {q : Request} {a : VirtualAddress}

namespace Balanced

/-- The block that is given back is the live one of its payload. -/
theorem mem_givenBlock (h : Balanced map total all l fs free live aside) {p : VirtualAddress}
    (hp : p = .null ∨ p ∈ l.live) {b : Run} (hb : b ∈ l.givenBlock p) :
    b ∈ live ∧ p = payloadOf b.start := by
  rw [givenBlock] at hb
  by_cases hnull : p.isNull
  · rw [if_pos hnull] at hb
    exact absurd hb List.not_mem_nil
  · rw [if_neg hnull, List.mem_singleton] at hb
    have hlive := hp.resolve_left fun he => hnull ((Address.isNull_iff p).mpr he)
    rw [h.payloads] at hlive
    obtain ⟨c, hc, hpc⟩ := List.mem_map.mp hlive
    subst hpc
    rw [h.blockAround_eq hc] at hb
    subst hb
    exact ⟨hc, rfl⟩

theorem entitled_of_within (h : Balanced map total all l fs free live aside) {p : VirtualAddress}
    (hp : p = .null ∨ p ∈ l.live) (hq : q.payload? = some p)
    (ha : Heap.Within map fs (l.givenBlock p ++ free) a) : Entitled map l fs free live q a := by
  rcases ha with ha | ⟨b, hb, ha⟩
  · exact .freeFrame ha
  · rcases List.mem_append.mp hb with hb | hb
    · obtain ⟨hlive, hpb⟩ := h.mem_givenBlock hp hb
      exact .givenBlock hlive (hpb ▸ hq) ha
    · exact .freeBlock hb ha

/-- A request is entitled to its footprint. -/
theorem entitled (h : Balanced map total all l fs free live aside) (hq : l.Permits q)
    (ha : l.Footprint q a) : Entitled map l fs free live q a := by
  have htable : q.isPaging = true → map.frameAt a ∈ l.tables ++ fs →
      Entitled map l fs free live q a := fun hq ha =>
    (List.mem_append.mp ha).elim (.table hq) .freeFrame
  have hheap : Heap.Within map fs free a → Entitled map l fs free live q a := fun ha =>
    ha.elim .freeFrame fun ⟨_, hb, ha⟩ => .freeBlock hb ha
  cases q with simp only [Footprint, h.map_eq, h.free_eq, h.freeBlocks_eq] at ha
  | takeFrame => exact .freeFrame ha
  | returnFrame f => exact .givenFrame (congrArg Request.returnFrame ha.symm)
  | createTable | initPaging | mapPage | loadKernelMap => exact htable rfl ha
  | initHeap | growHeap | allocate | allocLayout | allocZeroed => exact hheap ha
  | free p =>
    refine h.entitled_of_within hq rfl (ha.mono ?_)
    exact List.subset_append_left _ _
  | reallocate p | reallocLayout p => exact h.entitled_of_within hq rfl ha
  | write b v =>
    subst ha
    rcases hq with hheld | ⟨p, hp, hpayload⟩
    · exact .ownFrame rfl (h.map_eq ▸ hheld)
    · rw [h.payloads] at hp
      obtain ⟨b, hb, hpb⟩ := List.mem_map.mp hp
      subst hpb
      rw [h.blockAround_eq hb] at hpayload
      have hmem : b ∈ free ++ live ++ aside := by simp [hb]
      refine .ownBlock rfl hb ?_
      exact Heap.mem_of_mem_payload (h.carved.header_le hmem) (h.carved.length_lt hmem) hpayload

/-- Nobody else is entitled to a frame that is held. -/
theorem not_entitled_held (h : Balanced map total all l fs free live aside) (stock : Stock map all)
    (hop : q.isWrite = false) (hheld : map.frameAt a ∈ l.held)
    (hne : q ≠ .returnFrame (map.frameAt a)) : ¬ Entitled map l fs free live q a := by
  obtain ⟨⟨hfh, -⟩, ⟨hht, hha⟩, -⟩ := h.disjoint stock.nodup
  intro he
  cases he with
  | freeFrame ha => exact hfh ha hheld
  | givenFrame ha => exact hne ha
  | table hq ha => exact hht hheld ha
  | freeBlock hb ha => exact hha hheld (h.block_mem_arena (List.mem_append_left _ hb) ha)
  | givenBlock hb hq ha => exact hha hheld (h.block_mem_arena (List.mem_append_right _ hb) ha)
  | ownFrame hq ha => exact nomatch hop.symm.trans hq
  | ownBlock hq hb ha => exact nomatch hop.symm.trans hq

/-- Nobody else is entitled to a block in use, neither to its payload nor to its header. -/
theorem not_entitled_block (h : Balanced map total all l fs free live aside)
    (stock : Stock map all) (hq : l.Permits q) (hop : q.isWrite = false) {c : Run} (hc : c ∈ live)
    (hne : q.payload? ≠ some (payloadOf c.start)) (hac : a ∈ c) :
    ¬ Entitled map l fs free live q a := by
  obtain ⟨⟨-, -, hfa⟩, ⟨-, hha⟩, hta⟩ := h.disjoint stock.nodup
  have harena := h.block_mem_arena (List.mem_append_right free hc) hac
  obtain ⟨-, hlive, hcross⟩ := List.pairwise_append.mp h.carved.blocks_apart
  intro he
  cases he with
  | freeFrame ha => exact hfa ha harena
  | givenFrame ha =>
    subst ha
    exact hha hq harena
  | table hp ha => exact hta ha harena
  | freeBlock hb ha => exact hcross _ hb c hc a ha hac
  | @givenBlock b hb hp ha =>
    have hbc : b ≠ c := fun he => hne (he ▸ hp)
    exact hlive.forall hb hc hbc a ha hac
  | ownFrame hp ha => exact nomatch hop.symm.trans hp
  | ownBlock hp hb ha => exact nomatch hop.symm.trans hp

/-- Only requests about page tables are entitled to tables. -/
theorem not_entitled_table (h : Balanced map total all l fs free live aside)
    (stock : Stock map all) (hq : l.Permits q) (hpaging : q.isPaging = false)
    (htable : map.frameAt a ∈ l.tables) : ¬ Entitled map l fs free live q a := by
  obtain ⟨⟨-, hft, -⟩, ⟨hht, -⟩, hta⟩ := h.disjoint stock.nodup
  intro he
  cases he with
  | freeFrame ha => exact hft ha htable
  | givenFrame ha =>
    subst ha
    exact hht hq htable
  | table hp ha => exact nomatch hpaging.symm.trans hp
  | freeBlock hb ha => exact hta htable (h.block_mem_arena (List.mem_append_left _ hb) ha)
  | givenBlock hb hp ha => exact hta htable (h.block_mem_arena (List.mem_append_right _ hb) ha)
  | ownFrame hp ha => exact hht ha htable
  | ownBlock hp hb ha => exact hta htable (h.block_mem_arena (List.mem_append_right _ hb) ha)

/-- A request changes memory only where it is entitled to. -/
theorem onlyChanges_perform (h : Balanced map total all l fs free live aside)
    (stock : Stock map all) (hq : l.Permits q) :
    l.system.ram.OnlyChanges (Entitled map l fs free live q) (l.perform q).system.ram := by
  have hsound : Sound map total all l := ⟨fs, free, live, aside, h⟩
  exact (hsound.next stock hq).ram.mono fun _ ha => h.entitled hq ha

/-- A request that is not about page tables changes no entry of a table. -/
theorem entryAt_perform (h : Balanced map total all l fs free live aside) (stock : Stock map all)
    (hq : l.Permits q) (hpaging : q.isPaging = false) {f : Frame} (hf : f ∈ l.tables)
    (i : TableIndex) :
    PageTree.entryAt map (l.perform q).system.ram f i =
      PageTree.entryAt map l.system.ram f i := by
  apply PageTree.entryAt_congr (h.onlyChanges_perform stock hq)
  intro a ha hframe
  subst hframe
  exact h.not_entitled_table stock hq hpaging hf ha

end Balanced

/-- What carrying out a request leaves alone. -/
structure Undisturbed (map : DirectMap) (l : Ledger) (q : Request) : Prop where
  /-- The bytes of every frame in the hands of a direct caller, but for one that is returned. -/
  held : q.isWrite = false → ∀ f ∈ l.held, q ≠ .returnFrame f → ∀ a, map.frameAt a = f →
    (l.perform q).system.ram.read a = l.system.ram.read a
  /-- The bytes of every payload in use, but for one that is given back. -/
  payloads : q.isWrite = false → ∀ p ∈ l.live, q.payload? ≠ some p →
    ∀ a ∈ (blockAround l.system.ram p).drop headerSize,
      (l.perform q).system.ram.read a = l.system.ram.read a
  /-- The size that is recorded of its block. -/
  sizes : q.isWrite = false → ∀ p ∈ l.live, q.payload? ≠ some p →
    (l.perform q).system.ram.blockSize (blockOf p) = l.system.ram.blockSize (blockOf p)
  /-- The entries of all tables of all trees, unless the request is about page tables. -/
  entries : q.isPaging = false → ∀ r ∈ l.roots, ∀ path f, path.length ≤ 3 →
    PageTree.walk map l.system.ram r path = some f → ∀ i,
      PageTree.entryAt map (l.perform q).system.ram f i = PageTree.entryAt map l.system.ram f i

theorem Balanced.undisturbed (h : Balanced map total all l fs free live aside)
    (stock : Stock map all) (hq : l.Permits q) : Undisturbed map l q := by
  have hm := h.onlyChanges_perform stock hq
  have hblock : q.isWrite = false → ∀ p ∈ l.live, q.payload? ≠ some p →
      ∃ b ∈ live, p = payloadOf b.start ∧ ∀ a ∈ b, ¬ Entitled map l fs free live q a := by
    intro hop p hp hne
    rw [h.payloads] at hp
    obtain ⟨b, hb, hpb⟩ := List.mem_map.mp hp
    subst hpb
    exact ⟨b, hb, rfl, fun a ha => h.not_entitled_block stock hq hop hb hne ha⟩
  constructor
  case held =>
    intro hop f hf hne a ha
    subst ha
    exact hm a (h.not_entitled_held stock hop hf hne)
  case payloads =>
    intro hop p hp hne a ha
    obtain ⟨b, hb, hpb, hnot⟩ := hblock hop p hp hne
    subst hpb
    rw [h.blockAround_eq hb] at ha
    have hmem : b ∈ free ++ live ++ aside := by simp [hb]
    have hab := Heap.mem_of_mem_payload (h.carved.header_le hmem) (h.carved.length_lt hmem) ha
    exact hm a (hnot a hab)
  case sizes =>
    intro hop p hp hne
    obtain ⟨b, hb, hpb, hnot⟩ := hblock hop p hp hne
    subst hpb
    have hmem : b ∈ free ++ live ++ aside := by simp [hb]
    rw [blockOf_payloadOf]
    exact Ram.blockSize_congr hm fun a ha => hnot a (h.carved.header_subset hmem ha)
  case entries =>
    intro hpaging r hr path f hpath hw i
    exact h.entryAt_perform stock hq hpaging (h.forest.owned hr hpath hw) i

/-- After any run of permitted requests, one more of them, however it ends, changes nothing that
anyone else holds. -/
theorem undisturbed_performAll {memoryMaps : List (List Region)} {m : Ram} {log : Log}
    (hn : (memoryMaps.flatten.filter Region.isUsable).Pairwise
      fun r r' => r.frames.toList.Disjoint r'.frames.toList)
    {requests : List Request} (hrun : (filled map memoryMaps m log).PermitsAll requests)
    (hq : ((filled map memoryMaps m log).performAll requests).Permits q) :
    Undisturbed map ((filled map memoryMaps m log).performAll requests) q := by
  obtain ⟨stock, hstart⟩ := sound_filled map (Region.nodup_wholeFrames hn) m log
  obtain ⟨fs, free, live, aside, h⟩ := hstart.performAll stock hrun
  exact h.undisturbed stock hq

/-- One of two payloads is moved while a frame is held and a tree has its tables. -/
theorem undisturbed_performAll_two_payloads :
    let map : DirectMap := ⟨0xffff800000000000⟩
    let memoryMaps : List (List Region) := [[⟨⟨0x1000⟩, 0x9000, .usable⟩]]
    let start := filled map memoryMaps (.uniform 0xaa) (.empty none)
    let requests : List Request :=
      [.takeFrame, .createTable, .initHeap 0x2000, .allocate 100, .allocate 40]
    let q : Request := .reallocate ⟨0xffff800000003010⟩ 5000
    let l := start.performAll requests
    ((memoryMaps.flatten.filter Region.isUsable).Pairwise
        fun r r' => r.frames.toList.Disjoint r'.frames.toList) ∧
      start.PermitsAll requests ∧ l.Permits q ∧ l.held.map Page.number = [1] ∧
      l.roots.map Page.number = [2] ∧ l.live.map Address.value =
        [0xffff800000003090, 0xffff800000003010] ∧ Undisturbed map l q := by
  intro map memoryMaps start requests q l
  have hn : (memoryMaps.flatten.filter Region.isUsable).Pairwise
      fun r r' => r.frames.toList.Disjoint r'.frames.toList := by decide
  have hrun : start.PermitsAll requests := by decide +kernel
  have hq : l.Permits q := by decide +kernel
  exact ⟨hn, hrun, hq, by decide +kernel, by decide +kernel, by decide +kernel,
    undisturbed_performAll hn hrun hq⟩

end Ledger

end PagedMemory
