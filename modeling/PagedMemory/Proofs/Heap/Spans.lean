import PagedMemory.Proofs.Heap.Growth
/-!
# Which runs frames join to

A frame is joined to the run that is open, if it lies at either end of that, and to no other run. So
the runs that a heap ends up with depend on the order in which it gets the frames. Here frames are
their numbers and runs are spans of numbers, which wrap nowhere: the last frame of the address space
never is in a pool. The runs are as long as can be just in case the order is `Settled`.
-/
namespace PagedMemory

/-- A number comes directly before or after one of some others. -/
def Touches (ns : List Nat) (n : Nat) : Prop := ∃ k ∈ ns, k + 1 = n ∨ n + 1 = k

instance (ns : List Nat) (n : Nat) : Decidable (Touches ns n) :=
  inferInstanceAs (Decidable (∃ k ∈ ns, k + 1 = n ∨ n + 1 = k))

theorem touches_cons {k n : Nat} {ns : List Nat} :
    Touches (k :: ns) n ↔ (k + 1 = n ∨ n + 1 = k) ∨ Touches ns n := by
  simp [Touches]

theorem touches_congr {ns ks : List Nat} (h : ∀ n, n ∈ ns ↔ n ∈ ks) (n : Nat) :
    Touches ns n ↔ Touches ks n := by
  simp only [Touches, h]

/-- Once a number comes that touches none of those that were seen, no number after it touches one of
those. -/
def Settled (seen : List Nat) : List Nat → Prop
  | [] => True
  | n :: ns => (¬ Touches seen n → ∀ k ∈ ns, ¬ Touches seen k) ∧ Settled (n :: seen) ns

instance decidableSettled : ∀ seen ns, Decidable (Settled seen ns)
  | _, [] => .isTrue trivial
  | seen, n :: ns =>
    have := decidableSettled (n :: seen) ns
    inferInstanceAs (Decidable ((¬ Touches seen n → ∀ k ∈ ns, ¬ Touches seen k) ∧
      Settled (n :: seen) ns))

/-- Of the numbers that were seen only those matter that a later one touches. -/
theorem settled_congr {seen seen' ns : List Nat}
    (h : ∀ n ∈ ns, Touches seen n ↔ Touches seen' n) : Settled seen ns ↔ Settled seen' ns := by
  induction ns generalizing seen seen' with
  | nil => rfl
  | cons n ns ih =>
    obtain ⟨hn, hns⟩ := List.forall_mem_cons.mp h
    have hrest : Settled (n :: seen) ns ↔ Settled (n :: seen') ns := by
      refine ih fun k hk => ?_
      rw [touches_cons, touches_cons, hns k hk]
    have hlater : (∀ k ∈ ns, ¬ Touches seen k) ↔ ∀ k ∈ ns, ¬ Touches seen' k :=
      forall₂_congr fun k hk => not_congr (hns k hk)
    rw [Settled, Settled, hrest, hn, hlater]

/-- Numbers that rise, gaps or none, come settled. -/
theorem settled_of_ascending {seen ns : List Nat} (hns : ns.Pairwise (· < ·))
    (hseen : ∀ k ∈ seen, ∀ n ∈ ns, k < n) : Settled seen ns := by
  induction ns generalizing seen with
  | nil => trivial
  | cons n ns ih =>
    obtain ⟨hn, hrest⟩ := List.pairwise_cons.mp hns
    refine ⟨fun _ k hk => ?_, ih hrest ?_⟩
    · rintro ⟨j, hj, htouch⟩
      have := hseen j hj n List.mem_cons_self
      have := hn k hk
      omega
    · intro j hj k hk
      rcases List.mem_cons.mp hj with rfl | hj
      · exact hn k hk
      · exact hseen j hj k (List.mem_cons_of_mem n hk)

/-- Consecutive numbers of frames. -/
structure Span where
  first : Nat
  size : Nat
  deriving DecidableEq

namespace Span

variable {s t longer : Span} {n : Nat} {ns : List Nat}

def numbers (s : Span) : List Nat := List.range' s.first s.size

@[simp] theorem mem_numbers : n ∈ s.numbers ↔ s.first ≤ n ∧ n < s.first + s.size :=
  List.mem_range'_1

/-- One span ends where the other begins. -/
def Meets (s t : Span) : Prop := s.first + s.size = t.first

/-- The span and a number at either end of it. -/
def extend? (s : Span) (n : Nat) : Option Span :=
  if s.first + s.size = n then some ⟨s.first, s.size + 1⟩
  else if n + 1 = s.first then some ⟨n, s.size + 1⟩
  else none

/-- The spans that numbers join to once a span is open, in the order in which they are finished. -/
def joined : Span → List Nat → List Span
  | s, [] => [s]
  | s, n :: ns =>
    match s.extend? n with
    | some longer => joined longer ns
    | none => s :: joined ⟨n, 1⟩ ns

/-- The spans that numbers join to. -/
def ofNumbers : List Nat → List Span
  | [] => []
  | n :: ns => joined ⟨n, 1⟩ ns

theorem extend?_eq_some (h : s.extend? n = some longer) :
    (s.first + s.size = n ∧ longer = ⟨s.first, s.size + 1⟩) ∨
      (n + 1 = s.first ∧ longer = ⟨n, s.size + 1⟩) := by
  rw [extend?] at h
  split at h
  · rename_i hafter
    exact .inl ⟨hafter, (Option.some.inj h).symm⟩
  · split at h
    · rename_i hbefore
      exact .inr ⟨hbefore, (Option.some.inj h).symm⟩
    · cases h

theorem numbers_extend (h : s.extend? n = some longer) :
    longer.numbers.Perm (n :: s.numbers) := by
  rcases extend?_eq_some h with ⟨rfl, rfl⟩ | ⟨hbefore, rfl⟩
  · rw [numbers, List.range'_concat, Nat.one_mul]
    exact List.perm_append_comm
  · rw [numbers, List.range'_succ, hbefore]
    exact .refl _

/-- A span is extended by the numbers that touch it. -/
theorem touches_iff_extend? (hs : 0 < s.size) (hn : n ∉ s.numbers) :
    Touches s.numbers n ↔ (s.extend? n).isSome := by
  rw [mem_numbers] at hn
  simp only [Touches, mem_numbers, extend?]
  constructor
  · rintro ⟨k, hk, htouch⟩
    split
    · rfl
    · split
      · rfl
      · omega
  · split
    · intro _
      exact ⟨n - 1, by omega, by omega⟩
    · split
      · intro _
        exact ⟨n + 1, by omega, by omega⟩
      · intro h
        cases h

theorem size_pos_of_extend (h : s.extend? n = some longer) : 0 < longer.size := by
  rcases extend?_eq_some h with ⟨-, rfl⟩ | ⟨-, rfl⟩
  · exact Nat.succ_pos _
  · exact Nat.succ_pos _

/-- Each number is in one span, once. -/
theorem joined_perm (s : Span) (ns : List Nat) :
    ((joined s ns).flatMap numbers).Perm (s.numbers ++ ns) := by
  induction ns generalizing s with
  | nil => simp [joined]
  | cons n ns ih =>
    rw [joined]
    cases hext : s.extend? n with
    | some longer =>
      refine (ih longer).trans (((numbers_extend hext).append_right ns).trans ?_)
      exact List.perm_middle.symm
    | none =>
      rw [List.flatMap_cons]
      exact (ih ⟨n, 1⟩).append_left s.numbers

theorem ofNumbers_perm (ns : List Nat) : ((ofNumbers ns).flatMap numbers).Perm ns := by
  cases ns with
  | nil => exact .refl _
  | cons n ns => exact joined_perm ⟨n, 1⟩ ns

theorem mem_ofNumbers_iff (ns : List Nat) (n : Nat) :
    (∃ s ∈ ofNumbers ns, n ∈ s.numbers) ↔ n ∈ ns := by
  rw [← (ofNumbers_perm ns).mem_iff, List.mem_flatMap]

theorem size_pos_of_mem_joined (hs : 0 < s.size) (ht : t ∈ joined s ns) : 0 < t.size := by
  induction ns generalizing s with
  | nil =>
    rw [joined, List.mem_singleton] at ht
    exact ht ▸ hs
  | cons n ns ih =>
    rw [joined] at ht
    split at ht
    · rename_i longer hext
      exact ih (size_pos_of_extend hext) ht
    · rcases List.mem_cons.mp ht with rfl | ht
      · exact hs
      · exact ih (s := ⟨n, 1⟩) Nat.one_pos ht

theorem size_pos_of_mem_ofNumbers (ht : t ∈ ofNumbers ns) : 0 < t.size := by
  cases ns with
  | nil => cases ht
  | cons n ns => exact size_pos_of_mem_joined (s := ⟨n, 1⟩) Nat.one_pos ht

/-! ## Spans that do not meet -/

/-- Spans without a common number meet if a number of one touches the other. -/
theorem meets_iff_touches (hs : 0 < s.size) (ht : 0 < t.size)
    (hd : s.numbers.Disjoint t.numbers) :
    (s.Meets t ∨ t.Meets s) ↔ ∃ n ∈ t.numbers, Touches s.numbers n := by
  simp only [Meets, Touches, mem_numbers]
  constructor
  · rintro (h | h)
    · exact ⟨t.first, by omega, s.first + s.size - 1, by omega, by omega⟩
    · exact ⟨t.first + t.size - 1, by omega, s.first, by omega, by omega⟩
  · rintro ⟨n, hn, k, hk, htouch⟩
    have hns : n ∉ s.numbers := fun h => hd h (mem_numbers.mpr hn)
    have hkt : k ∉ t.numbers := fun h => hd (mem_numbers.mpr hk) h
    rw [mem_numbers] at hns hkt
    omega

/-- No span begins where another one ends. -/
def Separate (ss : List Span) : Prop := ∀ s ∈ ss, ∀ t ∈ ss, ¬ s.Meets t

theorem separate_cons {ss : List Span} (hs : 0 < s.size) :
    Separate (s :: ss) ↔ (∀ t ∈ ss, ¬ (s.Meets t ∨ t.Meets s)) ∧ Separate ss := by
  have hself : ¬ s.Meets s := by
    rw [Meets]
    omega
  simp only [Separate, List.forall_mem_cons, not_or]
  constructor
  · rintro ⟨⟨-, hleft⟩, hright⟩
    exact ⟨fun t ht => ⟨hleft t ht, (hright t ht).1⟩, fun t ht => (hright t ht).2⟩
  · rintro ⟨hboth, hrest⟩
    exact ⟨⟨hself, fun t ht => (hboth t ht).1⟩, fun t ht => ⟨(hboth t ht).2, hrest t ht⟩⟩

/-- A finished span meets none of the later ones if no later number touches it. -/
theorem not_meets_joined_iff (hs : 0 < s.size) (hn : (s.numbers ++ n :: ns).Nodup) :
    (∀ t ∈ joined ⟨n, 1⟩ ns, ¬ (s.Meets t ∨ t.Meets s)) ↔
      ∀ k ∈ n :: ns, ¬ Touches s.numbers k := by
  have hperm := joined_perm ⟨n, 1⟩ ns
  have hdisjoint : ∀ t ∈ joined ⟨n, 1⟩ ns, s.numbers.Disjoint t.numbers := by
    intro t ht k hks hkt
    have hk : k ∈ n :: ns := hperm.mem_iff.mp (List.mem_flatMap.mpr ⟨t, ht, hkt⟩)
    exact List.disjoint_of_nodup_append hn hks hk
  have hmeets : ∀ t ∈ joined ⟨n, 1⟩ ns,
      ¬ (s.Meets t ∨ t.Meets s) ↔ ∀ k ∈ t.numbers, ¬ Touches s.numbers k := by
    intro t ht
    rw [meets_iff_touches hs (size_pos_of_mem_joined (s := ⟨n, 1⟩) Nat.one_pos ht)
      (hdisjoint t ht)]
    simp only [not_exists, not_and]
  rw [forall₂_congr hmeets]
  constructor
  · intro h k hk
    obtain ⟨t, ht, hkt⟩ := List.mem_flatMap.mp (hperm.mem_iff.mpr hk)
    exact h t ht k hkt
  · intro h t ht k hkt
    exact h k (hperm.mem_iff.mp (List.mem_flatMap.mpr ⟨t, ht, hkt⟩))

/-- The numbers that come after an open span settle just in case the finished spans are separate. -/
theorem separate_joined_iff (hs : 0 < s.size) (hn : (s.numbers ++ ns).Nodup) :
    Separate (joined s ns) ↔ Settled s.numbers ns := by
  induction ns generalizing s with
  | nil =>
    simp only [joined, Settled, iff_true]
    exact (separate_cons hs).mpr ⟨by simp, by simp [Separate]⟩
  | cons n ns ih =>
    have hnew : n ∉ s.numbers :=
      fun h => List.disjoint_of_nodup_append hn h List.mem_cons_self
    have htouch := touches_iff_extend? hs hnew
    rw [joined, Settled]
    cases hext : s.extend? n with
    | some longer =>
      -- the number touches the open span, so nothing is asked of the later ones yet
      have hlonger := numbers_extend hext
      have htouches : Touches s.numbers n := htouch.mpr (by rw [hext]; rfl)
      have hn' : (longer.numbers ++ ns).Nodup :=
        ((hlonger.append_right ns).trans List.perm_middle.symm).nodup_iff.mpr hn
      have hsame : Settled longer.numbers ns ↔ Settled (n :: s.numbers) ns :=
        settled_congr fun k _ => touches_congr (fun j => hlonger.mem_iff) k
      change Separate (joined longer ns) ↔ _
      rw [ih (size_pos_of_extend hext) hn', hsame]
      exact ⟨fun h => ⟨fun h' => absurd htouches h', h⟩, fun h => h.2⟩
    | none =>
      have htouches : ¬ Touches s.numbers n := fun h => by
        have := htouch.mp h
        rw [hext] at this
        cases this
      have hsingle : Separate (joined ⟨n, 1⟩ ns) ↔ Settled [n] ns :=
        ih (s := ⟨n, 1⟩) Nat.one_pos hn.of_append_right
      change Separate (s :: joined ⟨n, 1⟩ ns) ↔ _
      rw [separate_cons hs, not_meets_joined_iff hs hn, List.forall_mem_cons, hsingle]
      -- as no later number touches the finished span, only the number itself counts as seen
      have hseen : (∀ k ∈ ns, ¬ Touches s.numbers k) →
          (Settled [n] ns ↔ Settled (n :: s.numbers) ns) := by
        intro hfar
        refine settled_congr fun k hk => ?_
        rw [touches_cons, touches_cons, iff_false_intro (hfar k hk)]
        simp [Touches]
      constructor
      · rintro ⟨⟨-, hfar⟩, hsettled⟩
        exact ⟨fun _ => hfar, (hseen hfar).mp hsettled⟩
      · rintro ⟨hfar, hsettled⟩
        exact ⟨⟨htouches, hfar htouches⟩, (hseen (hfar htouches)).mpr hsettled⟩

theorem separate_ofNumbers_iff (hn : ns.Nodup) : Separate (ofNumbers ns) ↔ Settled [] ns := by
  cases ns with
  | nil => simp [ofNumbers, Separate, Settled]
  | cons n ns =>
    have hjoined : Separate (joined ⟨n, 1⟩ ns) ↔ Settled [n] ns :=
      separate_joined_iff (s := ⟨n, 1⟩) Nat.one_pos hn
    rw [ofNumbers, hjoined, Settled]
    simp [Touches]

/-- No number is in two spans. -/
theorem pairwise_disjoint_ofNumbers (hn : ns.Nodup) :
    (ofNumbers ns).Pairwise fun s t => s.numbers.Disjoint t.numbers :=
  (List.nodup_flatMap.mp ((ofNumbers_perm ns).nodup_iff.mpr hn)).2

theorem eq_of_mem_of_mem (hn : ns.Nodup) (hs : s ∈ ofNumbers ns) (ht : t ∈ ofNumbers ns)
    (hns : n ∈ s.numbers) (hnt : n ∈ t.numbers) : s = t := by
  by_contra hne
  have : Std.Symm fun s t : Span => s.numbers.Disjoint t.numbers := ⟨fun _ _ h => h.symm⟩
  exact (pairwise_disjoint_ofNumbers hn).forall hs ht hne hns hnt

/-- Numbers without a gap lie in one of some separate spans. -/
theorem Separate.exists_of_consecutive (hsep : Separate (ofNumbers ns)) (hn : ns.Nodup)
    (ht : 0 < t.size) (hsub : ∀ k ∈ t.numbers, k ∈ ns) :
    ∃ s ∈ ofNumbers ns, ∀ k ∈ t.numbers, k ∈ s.numbers := by
  have hfirst : t.first ∈ t.numbers := mem_numbers.mpr ⟨Nat.le_refl _, by omega⟩
  obtain ⟨s, hs, hin⟩ := (mem_ofNumbers_iff ns _).mpr (hsub _ hfirst)
  refine ⟨s, hs, fun k hk => ?_⟩
  by_contra hout
  -- the number after the span is among them; the span that it is in would have to begin with it
  have hnext : s.first + s.size ∈ t.numbers := by
    rw [mem_numbers] at *
    omega
  obtain ⟨r, hr, hinr⟩ := (mem_ofNumbers_iff ns _).mpr (hsub _ hnext)
  by_cases hmeets : s.first + s.size = r.first
  · exact hsep s hs r hr hmeets
  · have hlast : s.first + s.size - 1 ∈ s.numbers := by
      rw [mem_numbers] at *
      omega
    have hlast' : s.first + s.size - 1 ∈ r.numbers := by
      rw [mem_numbers] at *
      omega
    have hsame := eq_of_mem_of_mem hn hs hr hlast hlast'
    rw [← hsame, mem_numbers] at hinr
    omega

/-! ## Numbers that join to one span -/

theorem joined_ascending (s : Span) (k : Nat) :
    joined s (List.range' (s.first + s.size) k) = [⟨s.first, s.size + k⟩] := by
  induction k generalizing s with
  | zero => rfl
  | succ k ih =>
    have hext : s.extend? (s.first + s.size) = some ⟨s.first, s.size + 1⟩ := if_pos rfl
    rw [List.range'_succ, joined, hext]
    have hrest := ih ⟨s.first, s.size + 1⟩
    rw [← Nat.add_assoc] at hrest
    exact hrest.trans (by rw [Nat.add_assoc, Nat.add_comm 1])

theorem joined_descending (s : Span) {first k : Nat} (hs : 0 < s.size)
    (h : first + k = s.first) :
    joined s (List.range' first k).reverse = [⟨first, s.size + k⟩] := by
  induction k generalizing s with
  | zero =>
    subst h
    rfl
  | succ k ih =>
    have hext : s.extend? (first + k) = some ⟨first + k, s.size + 1⟩ := by
      rw [extend?, if_neg (by omega), if_pos (by omega)]
    rw [List.range'_concat, List.reverse_append, Nat.one_mul, List.reverse_singleton,
      List.singleton_append, joined, hext]
    have hrest := ih ⟨first + k, s.size + 1⟩ (Nat.succ_pos _) rfl
    exact hrest.trans (by rw [Nat.add_assoc, Nat.add_comm 1])

end Span

end PagedMemory
