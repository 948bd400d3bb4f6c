import PagedMemory.Proofs.Heap.Arena
/-!
# First fit

The free list of the heap is a chain of headers inside of the memory that it manages, and the
holders of payloads write between those headers. It nevertheless behaves as a list of runs on which
a request takes the first that is large enough: the answers are those of that list, and what is read
from memory is that list. The one thing that the callers promise is to add memory that was not added
before, to give back payloads that they hold, and to write to such payloads only.

What carries this is that the blocks, free and in use, stay apart from each other inside of the
memory that was added. Each header is inside of its own block, so no write goes to a header that it
is not meant for.
-/
namespace PagedMemory

namespace FreeList

/-! ## The list of runs -/

/-- What is asked of a free list, and what the holder of a payload does in between. -/
inductive Request
  | push (b : Run)
  | take (size : Nat)
  | release (payload : VirtualAddress)
  /-- A holder stores a byte. -/
  | write (a : VirtualAddress) (v : UInt8)

/-- The first run of at least `needed` bytes, and the runs once those bytes were taken from its
start: what is left of it stays in its place if a header fits. -/
def takeFirst (needed : Nat) : List Run → Option (VirtualAddress × List Run)
  | [] => none
  | b :: bs =>
    if needed ≤ b.length then some (b.start, b.rest needed ++ bs)
    else (takeFirst needed bs).map fun (a, cs) => (a, b :: cs)

/-- Free runs in order, payloads that are in use, and all that was ever added. -/
structure RunList where
  free : List Run
  inUse : List Run
  added : List Run

namespace RunList

def empty : RunList := ⟨[], [], []⟩

/-- What is answered to a request, and what becomes of the runs. -/
def step (runs : RunList) : Request → Option VirtualAddress × RunList
  | .push b => (none, ⟨b :: runs.free, runs.inUse, b :: runs.added⟩)
  | .take size =>
    match takeFirst (headerSize + size) runs.free with
    | some (b, free) => (some (payloadOf b), ⟨free, ⟨payloadOf b, size⟩ :: runs.inUse, runs.added⟩)
    | none => (none, runs)
  | .release p =>
    match runs.inUse.find? (·.start == p) with
    | some payload =>
      (none, ⟨payload.around :: runs.free, runs.inUse.erase payload, runs.added⟩)
    | none => (none, runs)
  | .write .. => (none, runs)

/-- The answers to requests, one after the other, and the runs at the end. -/
def answers (runs : RunList) : List Request → List (Option VirtualAddress) × RunList
  | [] => ([], runs)
  | r :: rest =>
    let (answer, next) := runs.step r
    let (more, last) := next.answers rest
    (answer :: more, last)

/-- What the callers promise. -/
def Permits (runs : RunList) : Request → Prop
  | .push b => b.IsBlock ∧ ∀ c ∈ runs.added, c.Apart b
  | .take size => heapAlign ∣ size
  | .release p => ∃ payload ∈ runs.inUse, payload.start = p
  | .write a _ => ∃ payload ∈ runs.inUse, a ∈ payload

/-- Each of some requests is permitted when its turn comes. -/
def PermitsAll (runs : RunList) : List Request → Prop
  | [] => True
  | r :: rest => runs.Permits r ∧ (runs.step r).2.PermitsAll rest

instance (runs : RunList) : ∀ r, Decidable (runs.Permits r)
  | .push b => inferInstanceAs (Decidable (b.IsBlock ∧ ∀ c ∈ runs.added, c.Apart b))
  | .take size => inferInstanceAs (Decidable (heapAlign ∣ size))
  | .release p => inferInstanceAs (Decidable (∃ payload ∈ runs.inUse, payload.start = p))
  | .write a _ => inferInstanceAs (Decidable (∃ payload ∈ runs.inUse, a ∈ payload))

instance decidablePermitsAll : ∀ (runs : RunList) requests, Decidable (runs.PermitsAll requests)
  | _, [] => .isTrue trivial
  | runs, r :: rest =>
    have := decidablePermitsAll (runs.step r).2 rest
    inferInstanceAs (Decidable (runs.Permits r ∧ (runs.step r).2.PermitsAll rest))

/-- The blocks that the memory was cut into. -/
def blocks (runs : RunList) : List Run := runs.free ++ runs.inUse.map Run.around

end RunList

section

variable {needed : Nat} {pre post bs : List Run} {b : Run}

theorem takeFirst_of_small (h : ∀ b ∈ bs, b.length < needed) : takeFirst needed bs = none := by
  induction bs with
  | nil => rfl
  | cons b bs ih =>
    obtain ⟨hb, hbs⟩ := List.forall_mem_cons.mp h
    rw [takeFirst, if_neg (Nat.not_le.mpr hb), ih hbs, Option.map_none]

theorem takeFirst_of_fit (hsmall : ∀ c ∈ pre, c.length < needed) (hb : needed ≤ b.length) :
    takeFirst needed (pre ++ b :: post) = some (b.start, pre ++ (b.rest needed ++ post)) := by
  induction pre with
  | nil => rw [List.nil_append, takeFirst, if_pos hb, List.nil_append]
  | cons c pre ih =>
    obtain ⟨hc, hpre⟩ := List.forall_mem_cons.mp hsmall
    rw [List.cons_append, takeFirst, if_neg (Nat.not_le.mpr hc), ih hpre]
    rfl

/-- Behind a rest that is a block the list goes on. -/
theorem remainder_eq (h : b.IsBlock) (hd : heapAlign ∣ needed) (hb : needed ≤ b.length) :
    remainder needed b post = b.rest needed ++ post := by
  by_cases hfits : headerSize ≤ b.length - needed
  · have hdrop := h.drop hd (by omega)
    rw [remainder, Run.rest, if_pos hfits, if_pos hfits, if_neg hdrop.start_ne_null]
    rfl
  · rw [remainder, Run.rest, if_neg hfits, if_neg hfits, List.nil_append]

end

/-! ## The list in memory -/

/-- A free list and the memory that it runs through. -/
structure InMemory where
  ram : Ram
  list : FreeList

namespace InMemory

/-- The answer to a request, and what it leaves. -/
def step (s : InMemory) : Request → Option VirtualAddress × InMemory
  | .push b =>
    let (ram, list) := s.list.push s.ram b.start b.length
    (none, ⟨ram, list⟩)
  | .take size =>
    match s.list.take? s.ram size with
    | some (p, ram, list) => (some p, ⟨ram, list⟩)
    | none => (none, s)
  | .release p =>
    let (ram, list) := s.list.release s.ram p
    (none, ⟨ram, list⟩)
  | .write a v => (none, { s with ram := s.ram.write a v })

/-- The answers to requests, one after the other, and what is left at the end. -/
def answers (s : InMemory) : List Request → List (Option VirtualAddress) × InMemory
  | [] => ([], s)
  | r :: rest =>
    let (answer, next) := s.step r
    let (more, last) := next.answers rest
    (answer :: more, last)

/-- The list links the free runs, the size of each payload is recorded in front of it, and all
blocks are apart from each other. -/
structure Keeps (s : InMemory) (runs : RunList) : Prop where
  linked : Linked s.ram s.list.first runs.free
  recorded : ∀ p ∈ runs.inUse, s.ram.blockSize p.around.start = p.around.length
  partition : Partition runs.added runs.blocks

namespace Keeps

variable {s : InMemory} {runs : RunList} {b p : Run} {size : Nat} {a : VirtualAddress}

theorem empty (m : Ram) : Keeps ⟨m, .empty⟩ .empty :=
  ⟨rfl, by simp [RunList.empty], by simp [RunList.empty, RunList.blocks], .nil, by
    simp [RunList.empty, RunList.blocks]⟩

theorem free_isBlock (h : s.Keeps runs) (hb : b ∈ runs.free) : b.IsBlock :=
  h.partition.isBlock b (List.mem_append_left _ hb)

theorem around_mem (hp : p ∈ runs.inUse) : p.around ∈ runs.blocks :=
  List.mem_append_right _ (List.mem_map_of_mem hp)

theorem free_apart_around (h : s.Keeps runs) (hb : b ∈ runs.free) (hp : p ∈ runs.inUse) :
    b.Apart p.around :=
  (List.pairwise_append.mp h.partition.apart).2.2 b hb p.around (List.mem_map_of_mem hp)

/-- What is written outside of all headers changes neither the list nor a recorded size. -/
theorem congr (h : s.Keeps runs) {q : VirtualAddress → Prop} {m : Ram}
    (hm : s.ram.OnlyChanges q m) (hq : ∀ b ∈ runs.blocks, ∀ x, x ∈ b.header → ¬ q x) :
    Keeps ⟨m, s.list⟩ runs := by
  refine ⟨Segment.congr h.linked hm ?_, ?_, h.partition⟩
  · exact fun b hb => hq b (List.mem_append_left _ hb)
  · intro p hp
    exact (Ram.blockSize_congr hm (hq p.around (around_mem hp))).trans (h.recorded p hp)

/-- A payload and the headers of all blocks are apart. -/
theorem payload_apart_header (h : s.Keeps runs) (hp : p ∈ runs.inUse) :
    ∀ b ∈ runs.blocks, p.Apart b.header := by
  have hblock := h.partition.isBlock _ (around_mem hp)
  have hlen := Nat.le_of_lt hblock.length_lt
  intro b hb a ha hab
  have hdrop : a ∈ p.around.drop headerSize := by rwa [Run.drop_around]
  have haround := (Run.mem_take_or_drop hblock.header_le hlen a).mpr (.inr hdrop)
  by_cases heq : b = p.around
  · -- its own header lies in front of it
    subst heq
    exact Run.take_apart_drop (r := p.around) (k := headerSize) hlen a hab hdrop
  · have hapart := h.partition.apart.forall hb (around_mem hp) heq
    exact hapart a (Run.mem_of_mem_header (h.partition.isBlock b hb).header_le hab) haround

/-! ## Requests -/

/-- A request is answered as on the list of runs, and the list in memory keeps what becomes of
it. -/
def Agrees (runs : RunList) (r : Request) (e : Option VirtualAddress × InMemory) : Prop :=
  e.1 = (runs.step r).1 ∧ e.2.Keeps (runs.step r).2

theorem header_apart (hb : headerSize ≤ b.length) {c : Run} (hc : headerSize ≤ c.length)
    (h : b.Apart c) : b.header.Apart c.header :=
  fun a ha hac => h a (Run.mem_of_mem_header hb ha) (Run.mem_of_mem_header hc hac)

theorem push (h : s.Keeps runs) (hblock : b.IsBlock) (hb : ∀ c ∈ runs.added, c.Apart b) :
    Agrees runs (.push b) (s.step (.push b)) := by
  have hapart : ∀ c ∈ runs.blocks, c.header.Apart b.header := by
    intro c hc
    exact header_apart (h.partition.isBlock c hc).header_le hblock.header_le
      (h.partition.apart_of_added hb c hc)
  obtain ⟨hlinked, hm⟩ := push_linked h.linked hblock.start_ne_null hblock.length_lt
    fun c hc => hapart c (List.mem_append_left _ hc)
  refine ⟨rfl, hlinked, ?_, h.partition.add hblock hb⟩
  intro p hp
  exact (Ram.blockSize_congr hm (hapart p.around (around_mem hp))).trans (h.recorded p hp)

/-- No free run is large enough. -/
theorem take_of_small (h : s.Keeps runs) (hsmall : ∀ b ∈ runs.free, b.length < headerSize + size) :
    Agrees runs (.take size) (s.step (.take size)) := by
  rw [Agrees, step, RunList.step, take?_of_small h.linked hsmall, takeFirst_of_small hsmall]
  exact ⟨rfl, h⟩

theorem length_free_le (h : s.Keeps runs) : runs.free.length ≤ maxBlocks := by
  have := h.partition.length_le
  rw [RunList.blocks, List.length_append] at this
  omega

/-- A free run at its place on the list. -/
theorem placed (h : s.Keeps runs) {pre post : List Run} (hfree : runs.free = pre ++ b :: post) :
    Placed pre b post := by
  have hb : b ∈ runs.free := hfree ▸ List.mem_append_right pre List.mem_cons_self
  refine ⟨?_, ?_, (h.free_isBlock hb).length_lt⟩
  · rw [← hfree]
    exact (List.pairwise_append.mp h.partition.apart).1
  · rw [← hfree]
    exact fun c hc => (h.free_isBlock hc).header_le

/-- The first free run that is large enough is taken. -/
theorem take_of_fit (h : s.Keeps runs) {pre post : List Run} (hfree : runs.free = pre ++ b :: post)
    (hd : heapAlign ∣ size) (hsmall : ∀ c ∈ pre, c.length < headerSize + size)
    (hb : headerSize + size ≤ b.length) : Agrees runs (.take size) (s.step (.take size)) := by
  have hmem : b ∈ runs.free := hfree ▸ List.mem_append_right pre List.mem_cons_self
  have hblock := h.free_isBlock hmem
  have hneeded : heapAlign ∣ headerSize + size := Nat.dvd_add (by decide) hd
  obtain ⟨⟨m, list⟩, htake, hlinked, hsize, hm⟩ :=
    take?_of_fit (hfree ▸ h.linked) (h.placed hfree) (hfree ▸ h.length_free_le) hsmall hb
      (hblock.eq_needed hneeded hb)
  rw [remainder_eq hblock hneeded hb] at hlinked
  rw [Agrees, step, RunList.step, htake, hfree, takeFirst_of_fit hsmall hb]
  refine ⟨rfl, hlinked, ?_, ?_⟩
  · refine List.forall_mem_cons.mpr ⟨?_, ?_⟩
    · rw [Run.around_payloadOf]
      exact hsize
    · intro p hp
      -- nothing was written but the block and the headers before it
      refine (Ram.blockSize_congr hm ?_).trans (h.recorded p hp)
      intro x hx hchanged
      have hxp : x ∈ p.around := Run.mem_of_mem_header (Nat.le_add_right ..) hx
      rcases hchanged with hxb | ⟨c, hc, hxc⟩
      · exact h.free_apart_around hmem hp x hxb hxp
      · have hcfree : c ∈ runs.free := hfree ▸ List.mem_append_left _ hc
        exact h.free_apart_around hcfree hp x
          (Run.mem_of_mem_header (h.free_isBlock hcfree).header_le hxc) hxp
  · have hbefore : Partition runs.added (b :: (pre ++ (post ++ runs.inUse.map Run.around))) := by
      refine h.partition.perm ?_
      rw [RunList.blocks, hfree, List.append_assoc]
      exact List.perm_middle
    refine (hbefore.cut hneeded (Nat.le_add_right ..) hb).perm ?_
    simp only [RunList.blocks, List.map_cons, Run.around_payloadOf]
    grind

theorem take (h : s.Keeps runs) (hd : heapAlign ∣ size) :
    Agrees runs (.take size) (s.step (.take size)) := by
  rcases exists_first_fit (headerSize + size) runs.free with
    hsmall | ⟨pre, b, post, hfree, hsmall, hb⟩
  · exact h.take_of_small hsmall
  · exact h.take_of_fit hfree hd hsmall hb

theorem release (h : s.Keeps runs) (hp : ∃ payload ∈ runs.inUse, payload.start = a) :
    Agrees runs (.release a) (s.step (.release a)) := by
  obtain ⟨payload, hmem, hstart⟩ := hp
  -- whichever payload that starts there is found
  obtain ⟨p, hfind⟩ : ∃ p, runs.inUse.find? (·.start == a) = some p :=
    Option.isSome_iff_exists.mp (List.find?_isSome.mpr ⟨payload, hmem, by simpa using hstart⟩)
  have hp : p ∈ runs.inUse := List.mem_of_find?_eq_some hfind
  obtain rfl : p.start = a := by simpa using List.find?_some hfind
  have hblock := h.partition.isBlock _ (around_mem hp)
  have hperm : runs.blocks.Perm (p.around :: (runs.free ++ (runs.inUse.erase p).map Run.around)) :=
    (((List.perm_cons_erase hp).map Run.around).append_left runs.free).trans List.perm_middle
  have hpartition := h.partition.perm hperm
  have hapart : ∀ c ∈ runs.free ++ (runs.inUse.erase p).map Run.around,
      c.header.Apart p.around.header := by
    intro c hc
    refine header_apart ?_ hblock.header_le ?_
    · exact (hpartition.isBlock c (List.mem_cons_of_mem _ hc)).header_le
    · exact ((List.pairwise_cons.mp hpartition.apart).1 c hc).symm
  obtain ⟨hlinked, hm⟩ := release_linked h.linked hblock.start_ne_null (h.recorded p hp)
    fun c hc => hapart c (List.mem_append_left _ hc)
  rw [show payloadOf p.around.start = p.start from Run.payloadOf_blockOf p.start] at hlinked hm
  rw [Agrees, step, RunList.step, hfind]
  refine ⟨rfl, hlinked, ?_, hpartition⟩
  intro q hq
  refine (Ram.blockSize_congr hm ?_).trans (h.recorded q (List.mem_of_mem_erase hq))
  exact hapart q.around (List.mem_append_right _ (List.mem_map_of_mem hq))

/-- What the holder of a payload stores is in no header. -/
theorem write (h : s.Keeps runs) (ha : ∃ payload ∈ runs.inUse, a ∈ payload) (v : UInt8) :
    Agrees runs (.write a v) (s.step (.write a v)) := by
  obtain ⟨p, hp, ha⟩ := ha
  refine ⟨rfl, h.congr (s.ram.onlyChanges_write a v) ?_⟩
  rintro b hb _ hx rfl
  exact h.payload_apart_header hp b hb _ ha hx

/-- One request. -/
theorem step (h : s.Keeps runs) {r : Request} (hr : runs.Permits r) :
    Agrees runs r (s.step r) := by
  cases r with
  | push b => exact h.push hr.1 hr.2
  | take size => exact h.take hr
  | release p => exact h.release hr
  | write a v => exact h.write hr v

/-- Any number of requests. -/
theorem answers (h : s.Keeps runs) {requests : List Request} (hr : runs.PermitsAll requests) :
    (s.answers requests).1 = (runs.answers requests).1 ∧
      (s.answers requests).2.Keeps (runs.answers requests).2 := by
  induction requests generalizing s runs with
  | nil => exact ⟨rfl, h⟩
  | cons r rest ih =>
    obtain ⟨hfirst, hrest⟩ := hr
    obtain ⟨hanswer, hkeeps⟩ := h.step hfirst
    obtain ⟨hanswers, hlast⟩ := ih hkeeps hrest
    exact ⟨congrArg₂ List.cons hanswer hanswers, hlast⟩

end Keeps

/-! ## What is read -/

/-- What is read from memory is a list of runs. -/
structure Shows (s : InMemory) (runs : RunList) : Prop where
  runs_eq : s.list.runs s.ram = runs.free
  /-- Following the links ends after the last of the runs, however many more may be followed. -/
  chain_eq : ∀ k, runs.free.length ≤ k → chain s.ram k s.list.first = runs.free.map Run.start
  /-- So does the search for a run that is large enough. -/
  firstFit_eq : ∀ needed k previous, runs.free.length ≤ k →
    firstFit s.ram needed k previous s.list.first =
      firstFit s.ram needed runs.free.length previous s.list.first
  count_eq : s.list.count s.ram = runs.free.length
  freeBytes_eq : s.list.freeBytes s.ram = (runs.free.map Run.length).sum
  freeBytes_lt : s.list.freeBytes s.ram < 2 ^ 64
  payloadSize_eq : ∀ p ∈ runs.inUse, payloadSize s.ram p.start = .ok p.length
  start_ne_null : ∀ p ∈ runs.inUse, p.start ≠ .null
  take?_eq_none_iff : ∀ size, heapAlign ∣ size →
    (s.list.take? s.ram size = none ↔ ∀ b ∈ runs.free, b.length < headerSize + size)
  /-- No size goes beyond the address space together with that of a header. -/
  take?_of_overflow : ∀ size, 2 ^ 64 ≤ headerSize + size → s.list.take? s.ram size = none

namespace Keeps

variable {s : InMemory} {runs : RunList}

/-- The search for a run ends before more links than there are runs were followed. -/
theorem firstFit_eq (h : s.Keeps runs) (needed : Nat) {k : Nat} (previous : Option VirtualAddress)
    (hk : runs.free.length ≤ k) :
    firstFit s.ram needed k previous s.list.first =
      firstFit s.ram needed runs.free.length previous s.list.first := by
  have hlinked := h.linked
  rcases exists_first_fit needed runs.free with hsmall | ⟨pre, b, post, hfree, hsmall, hb⟩
  · rw [hlinked.firstFit_eq_none hsmall, hlinked.firstFit_eq_none hsmall]
  · have hlen : pre.length < runs.free.length := by simp [hfree]
    rw [hfree] at hlinked
    rw [Segment.firstFit_eq hlinked hsmall hb (Nat.lt_of_lt_of_le hlen hk),
      Segment.firstFit_eq hlinked hsmall hb hlen]

/-- The answer is that of the runs, so there is none only if no run is large enough. -/
theorem take?_eq_none_iff (h : s.Keeps runs) {size : Nat} (hd : heapAlign ∣ size) :
    s.list.take? s.ram size = none ↔ ∀ b ∈ runs.free, b.length < headerSize + size := by
  constructor
  · intro hnone b hb
    by_contra hfit
    have hanswer := (h.take hd).1
    rcases exists_first_fit (headerSize + size) runs.free with
      hsmall | ⟨pre, c, post, hfree, hsmall, hc⟩
    · exact hfit (hsmall b hb)
    · rw [InMemory.step, RunList.step, hnone, hfree, takeFirst_of_fit hsmall hc] at hanswer
      cases hanswer
  · exact take?_of_small h.linked

theorem payloadSize_eq (h : s.Keeps runs) {p : Run} (hp : p ∈ runs.inUse) :
    payloadSize s.ram p.start = .ok p.length := by
  have hsize : s.ram.blockSize (blockOf p.start) = headerSize + p.length := h.recorded p hp
  rw [payloadSize, hsize, if_pos (Nat.le_add_right ..), Nat.add_sub_cancel_left]

/-- No payload is at null, so none looks like a refusal. -/
theorem start_ne_null (h : s.Keeps runs) {p : Run} (hp : p ∈ runs.inUse) : p.start ≠ .null :=
  Run.payloadOf_blockOf p.start ▸ (h.partition.isBlock _ (around_mem hp)).payloadOf_ne_null

theorem sum_free_lt (h : s.Keeps runs) : (runs.free.map Run.length).sum < 2 ^ 64 := by
  have := h.partition.sum_length_lt
  rw [RunList.blocks, List.map_append, List.sum_append] at this
  omega

/-- A list that keeps some runs is read as those runs. -/
theorem shows (h : s.Keeps runs) : s.Shows runs := by
  have hruns : s.list.runs s.ram = runs.free := h.linked.runs_eq h.length_free_le
  have hbytes : s.list.freeBytes s.ram = (runs.free.map Run.length).sum := by
    rw [freeBytes_eq_sum, hruns]
  refine
    { runs_eq := hruns
      chain_eq := fun k hk => h.linked.chain_eq hk
      firstFit_eq := fun needed k previous hk => h.firstFit_eq needed previous hk
      count_eq := ?_
      freeBytes_eq := hbytes
      freeBytes_lt := hbytes ▸ h.sum_free_lt
      payloadSize_eq := fun p hp => h.payloadSize_eq hp
      start_ne_null := fun p hp => h.start_ne_null hp
      take?_eq_none_iff := fun size hd => h.take?_eq_none_iff hd
      take?_of_overflow := ?_ }
  · rw [← hruns, FreeList.runs, List.length_map, count]
  · intro size hsize
    rw [take?, if_neg (Nat.not_lt.mpr hsize)]

end Keeps

/-- A free list over any memory answers all permitted requests as the list of runs does, and is read
as that list. -/
theorem answers_eq_of_permitsAll (m : Ram) {requests : List Request}
    (hr : RunList.empty.PermitsAll requests) :
    (InMemory.answers ⟨m, .empty⟩ requests).1 = (RunList.empty.answers requests).1 ∧
      (InMemory.answers ⟨m, .empty⟩ requests).2.Shows (RunList.empty.answers requests).2 := by
  obtain ⟨hanswers, hkeeps⟩ := (Keeps.empty m).answers hr
  exact ⟨hanswers, hkeeps.shows⟩

/-- Two blocks. The second payload comes from behind one that has become too small for it; two
payloads of no bytes use up what is left in front, the second of them without a rest. -/
theorem answers_eq_of_permitsAll_two_blocks :
    let requests : List Request :=
      [.push ⟨⟨0x1000⟩, 0x50⟩, .push ⟨⟨0x2000⟩, 0x40⟩, .take 0x10, .take 0x30,
        .write ⟨0x1013⟩ 0xff, .write ⟨0x103f⟩ 0xff, .take 0, .take 0, .take (2 ^ 64 - 16),
        .take 0x20, .release ⟨0x1010⟩, .take 0x20]
    RunList.empty.PermitsAll requests ∧
      (RunList.empty.answers requests).1 =
        [none, none, some ⟨0x2010⟩, some ⟨0x1010⟩, none, none, some ⟨0x2030⟩, some ⟨0x2040⟩, none,
          none, none, some ⟨0x1010⟩] ∧
      (RunList.empty.answers requests).2.free = [⟨⟨0x1030⟩, 0x10⟩, ⟨⟨0x1040⟩, 0x10⟩] ∧
      (InMemory.answers ⟨.uniform 0xaa, .empty⟩ requests).1 = (RunList.empty.answers requests).1 ∧
      (InMemory.answers ⟨.uniform 0xaa, .empty⟩ requests).2.Shows
        (RunList.empty.answers requests).2 := by
  intro requests
  have hr : RunList.empty.PermitsAll requests := by decide
  exact ⟨hr, by decide, by decide, answers_eq_of_permitsAll _ hr⟩

end InMemory

end FreeList

end PagedMemory
