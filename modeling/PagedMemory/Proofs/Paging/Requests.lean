import PagedMemory.Proofs.Paging.AddressMap
/-!
# Runs of mapping requests

A fresh tree on which requests are carried out one after the other, over any honest supply of
frames. Some requests may be refused because the supply ran dry. `translate_createAndMap` says that
at any time the tree gives every 64-bit address just what the map of the successful requests gives
it; in particular an address that was never mapped is not mapped by accident.
-/
namespace PagedMemory

namespace AddressSpace

variable {F : Type} [FrameSource F]

/-- Carries out requests one after the other, and on the map those that succeed. -/
def mapAll (space : AddressSpace) : AddressMap → List MapRequest → Step (Store F) AddressMap
  | M, [] => return M
  | M, q :: rest => do
    match ← (space.mapPage q.virt q.phys q.size).toOption with
    | some () => mapAll space (M.carryOut q) rest
    | none => mapAll space M rest

/-- Makes a tree and carries out requests on it. -/
def createAndMap (w : Window) (requests : List MapRequest) :
    Op MapError (Store F) (AddressSpace × AddressMap) := do
  let space ← create w
  let M ← Op.ofStep (space.mapAll .empty requests)
  return (space, M)

end AddressSpace

namespace FrameSource

/-- A list of frames in which none stands twice is an honest supply, if its frames are of a kind that
the window reaches. -/
theorem honest_list_of {w : Window} {kind : Frame → Prop}
    (hkind : ∀ f, kind f → w.reaches f = true) :
    Honest (List Frame) w fun s out =>
      (s.frames ++ out).Nodup ∧ ∀ f ∈ s.frames ++ out, kind f where
  reached h hf := hkind _ (h.2 _ (List.mem_append_right _ hf))
  write h _ := h
  log _ h := h
  take := by
    rintro ⟨ram, frames, log⟩ out ⟨hnodup, hall⟩
    cases frames with
    | nil => exact ⟨Ram.OnlyChanges.refl _ _, hnodup, hall⟩
    | cons f rest =>
      have hperm : List.Perm (rest ++ f :: out) (f :: rest ++ out) := List.perm_middle
      refine ⟨Ram.OnlyChanges.refl _ _, ?_, hperm.nodup_iff.mpr hnodup, ?_⟩
      · exact fun hf => (List.nodup_cons.mp hnodup).1 (List.mem_append_right rest hf)
      · exact fun g hg => hall g (hperm.mem_iff.mp hg)

/-- All of memory is in reach, so only the numbers that fit into an entry are asked for. -/
theorem honest_list (map : DirectMap) : Honest (List Frame) (.whole map) fun s out =>
    (s.frames ++ out).Nodup ∧ ∀ f ∈ s.frames ++ out, f.number < 2 ^ 40 :=
  honest_list_of fun _ _ => rfl

end FrameSource

namespace PageTree

variable {F : Type} [FrameSource F] {space : AddressSpace} {ok : Store F → List Frame → Prop}

/-- A tree of tables in use that stands for a map. -/
structure Serves (ok : Store F → List Frame → Prop) (space : AddressSpace) (M : AddressMap)
    (s : Store F) : Prop where
  stands : ∃ out, Stands ok space.window.map [space.root] s out
  represents : Represents space.window.map s.ram space.root M
  whole : M.Whole

/-- Looking an address up in a tree that stands for a map. -/
theorem Serves.leaf_eq {M : AddressMap} {s : Store F} (h : Serves ok space M s)
    (honest : FrameSource.Honest F space.window ok) (x : VirtualAddress) :
    space.leaf s.ram x = .ok (leafOf space.window.map s.ram space.root x) := by
  obtain ⟨out, hs⟩ := h.stands
  refine PageTree.leaf_eq ?_ x
  intro p f hp hw
  exact table_eq honest hs.ok (hs.forest.owned List.mem_cons_self hp hw)

/-- One request: the map changes if it succeeds and stays if it is refused. -/
theorem Serves.mapPage_ends {M : AddressMap} {s : Store F} (h : Serves ok space M s)
    (honest : FrameSource.Honest F space.window ok)
    (low : ∀ {s out f}, ok s out → f ∈ out → f.number < 2 ^ 40) (q : MapRequest)
    (hq : q.phys.toNat < 2 ^ 52) :
    Ends (space.mapPage q.virt q.phys q.size) s (fun _ t => Serves ok space (M.carryOut q) t)
      (fun stop t => (∃ level, stop = .error (.outOfMemory level)) ∧ Serves ok space M t) := by
  obtain ⟨out, hs⟩ := h.stands
  have hroot : space.root ∈ [space.root] := List.mem_cons_self
  refine (PageTree.mapPage_ends honest hs hroot q.virt q.phys q.size).mono ?_ ?_
  · rintro - t ⟨out', ht, -, e, he, hleaf⟩
    refine ⟨⟨out', ht⟩, h.represents.carryOut he ?_, h.whole.carryOut q⟩
    intro x
    rw [hleaf _ hroot x, if_pos rfl]
  · rintro stop t ⟨out', ht, -, ⟨level, hstop, hkeeps⟩ | ⟨-, hbig, -⟩⟩
    · refine ⟨⟨level, hstop⟩, ⟨out', ht⟩, ?_, h.whole⟩
      intro x
      rw [hkeeps _ hroot x, h.represents x]
    · rcases hbig with ⟨f, hf, hbig⟩ | hbig
      · exact absurd (low ht.ok hf) (Nat.not_lt.mpr hbig)
      · exact absurd hq (Nat.not_lt.mpr hbig)

/-- Any number of requests. -/
theorem Serves.mapAll_ends {M : AddressMap} {s : Store F} (h : Serves ok space M s)
    (honest : FrameSource.Honest F space.window ok)
    (low : ∀ {s out f}, ok s out → f ∈ out → f.number < 2 ^ 40) (requests : List MapRequest)
    (hq : ∀ q ∈ requests, q.phys.toNat < 2 ^ 52) :
    Ends (space.mapAll M requests) s (fun M' t => Serves ok space M' t) (fun _ _ => False) := by
  induction requests generalizing M s with
  | nil => exact h
  | cons q rest ih =>
    obtain ⟨hfirst, hrest⟩ := List.forall_mem_cons.mp hq
    rw [AddressSpace.mapAll]
    refine Ends.bind (p := fun found t =>
      match found with
      | some () => Serves ok space (M.carryOut q) t
      | none => Serves ok space M t) (Ends.toOption ?_) ?_
    -- a fault would end the whole run, so there must be none
    · refine (h.mapPage_ends honest low q hfirst).mono (fun _ _ ht => ht) ?_
      rintro stop t ⟨⟨level, rfl⟩, ht⟩
      exact ht
    · rintro (_ | _) t ht
      · exact ih ht hrest
      · exact ih ht hrest

/-- After any requests the tree gives every address what the map gives it, and nothing ends in a
fault: only the first table may be refused. -/
theorem translate_createAndMap {w : Window} (honest : FrameSource.Honest F w ok)
    (low : ∀ {s out f}, ok s out → f ∈ out → f.number < 2 ^ 40) {s : Store F} (hs : ok s [])
    {requests : List MapRequest} (hq : ∀ q ∈ requests, q.phys.toNat < 2 ^ 52) :
    Ends (AddressSpace.createAndMap w requests) s
      (fun (space, M) t => M.Whole ∧ ∀ x,
        space.translate t.ram x = .ok ((M (.of x)).map (Mapping.target x)) ∧
        Option.map Prod.snd <$> space.leaf t.ram x = .ok ((M (.of x)).map Mapping.size))
      (fun stop _ => stop = .error (.outOfMemory .pml4)) := by
  have hempty : Stands ok w.map [] s [] :=
    ⟨hs, fun h => absurd h List.not_mem_nil, fun h => absurd h List.not_mem_nil⟩
  rw [AddressSpace.createAndMap]
  refine Ends.bind ((create_ends honest hempty).mono (fun _ _ h => h) fun _ _ h => h.1) ?_
  rintro space t ⟨rfl, -, ht, -, hnone⟩
  have hserves : Serves ok space .empty t :=
    ⟨⟨_, ht⟩, fun x => by rw [hnone x]; rfl, AddressMap.whole_empty⟩
  refine Ends.bind (Ends.ofStep ((hserves.mapAll_ends honest low requests hq).mono
    (fun _ _ h => h) fun _ _ h => h.elim)) ?_
  intro M u hu
  refine ⟨hu.whole, ?_⟩
  intro x
  have hleaf := hu.leaf_eq honest x
  rw [AddressSpace.translate, hleaf, ← hu.represents x]
  cases leafOf space.window.map u.ram space.root x with
  | none => exact ⟨rfl, rfl⟩
  | some l =>
    have htarget := Mapping.target_ofLeaf x l
    have hsize := Mapping.size_ofLeaf l
    exact ⟨congrArg (Except.ok ∘ some) htarget.symm, congrArg (Except.ok ∘ some) hsize.symm⟩

/-- Four frames last for a 2 MiB page and the 4 KiB page inside of it that replaces it; the request
after that is refused. One page of the region is mapped then, to where the second request says. -/
theorem translate_createAndMap_four_frames :
    let w : Window := .whole ⟨0xffff800000000000⟩
    let s : Store (List Frame) :=
      ⟨.uniform 0xaa, [.ofNumber 7, .ofNumber 3, .ofNumber 12, .ofNumber 5], .empty none⟩
    let requests : List MapRequest :=
      [⟨⟨0x40200000⟩, ⟨0x80200000⟩, .large⟩, ⟨⟨0x40201000⟩, ⟨0x5000⟩, .small⟩,
        ⟨⟨0xffff900000000000⟩, ⟨0x7000⟩, .small⟩]
    ((s.frames ++ []).Nodup ∧ ∀ f ∈ s.frames ++ [], f.number < 2 ^ 40) ∧
      (∀ q ∈ requests, q.phys.toNat < 2 ^ 52) ∧
      ∃ space M t, AddressSpace.createAndMap w requests s = .ok (space, M) t ∧
        (t.frames = [] ∧
          space.translate t.ram ⟨0x40201abc⟩ = .ok (some ⟨0x5abc⟩) ∧
          space.translate t.ram ⟨0x40200abc⟩ = .ok none ∧
          space.translate t.ram ⟨0xffff900000000000⟩ = .ok none) ∧
        M.Whole ∧ ∀ x,
          space.translate t.ram x = .ok ((M (.of x)).map (Mapping.target x)) ∧
          Option.map Prod.snd <$> space.leaf t.ram x = .ok ((M (.of x)).map Mapping.size) := by
  intro w s requests
  have hs : (s.frames ++ []).Nodup ∧ ∀ f ∈ s.frames ++ [], f.number < 2 ^ 40 := by decide
  have hq : ∀ q ∈ requests, q.phys.toNat < 2 ^ 52 := by decide
  have hrun : Ends (AddressSpace.createAndMap w requests) s
      (fun (space, _) t => t.frames = [] ∧
        space.translate t.ram ⟨0x40201abc⟩ = .ok (some ⟨0x5abc⟩) ∧
        space.translate t.ram ⟨0x40200abc⟩ = .ok none ∧
        space.translate t.ram ⟨0xffff900000000000⟩ = .ok none)
      fun _ _ => False := by decide +kernel
  have htranslate := translate_createAndMap (FrameSource.honest_list ⟨0xffff800000000000⟩)
    (fun h hf => h.2 _ (List.mem_append_right _ hf)) hs hq
  obtain ⟨⟨space, M⟩, t, hok, hpinned, hmap⟩ :=
    ((hrun.and htranslate).mono (fun _ _ h => h) fun _ _ h => h.1).exists_ok
  exact ⟨hs, hq, space, M, t, hok, hpinned, hmap⟩

end PageTree

end PagedMemory
