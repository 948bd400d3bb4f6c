import PagedMemory.Paging.Table
import PagedMemory.Proofs.Bits.Fields
/-!
# Addresses in parts

An address is a page and an offset in one way only, and rounding it goes to the nearest page and no
further. Pages and offsets are numbers here; a processor masks, shifts and ors words. Both come to
the same, up to the last page of the address space, where sums stop being words. Which entries of
page tables an address selects depends on its bits 12 to 47 alone.
-/
namespace PagedMemory

namespace PageSize

variable (size : PageSize)

/-- The bits of an address that tell its page. -/
def pageField : BitField := ⟨size.shift, 64 - size.shift, by cases size <;> decide⟩

theorem not_mask : ~~~size.mask = size.pageField.mask := by cases size <;> decide

theorem toNat_mask : size.mask.toNat = size.bytes - 1 := by cases size <;> rfl

theorem toNat_ofNat_bytes : (UInt64.ofNat size.bytes).toNat = size.bytes := by cases size <;> rfl

theorem toNat_ofNat_shift : (UInt64.ofNat size.shift).toNat % 64 = size.shift := by
  cases size <;> rfl

theorem toNat_and_mask (w : UInt64) : (w &&& size.mask).toNat = w.toNat % size.bytes := by
  rw [UInt64.toNat_and, toNat_mask]
  exact Nat.and_two_pow_sub_one_eq_mod _ _

theorem toNat_and_not_mask (w : UInt64) :
    (w &&& ~~~size.mask).toNat = w.toNat / size.bytes * size.bytes := by
  have hlt : w.toNat / 2 ^ size.shift < 2 ^ (64 - size.shift) := by
    rw [Nat.div_lt_iff_lt_mul (Nat.two_pow_pos _)]
    exact size.pages_mul_bytes ▸ w.toNat_lt
  rw [not_mask, BitField.toNat_and_mask, BitField.get, pageField, Nat.mod_eq_of_lt hlt,
    Nat.mul_comm]
  rfl

/-- A multiple of the page size and what is below the page size have no bit in common. -/
theorem toNat_or {b o : UInt64} (hb : size.bytes ∣ b.toNat) (ho : o.toNat < size.bytes) :
    (b ||| o).toNat = b.toNat + o.toNat := by
  obtain ⟨k, hk⟩ := hb
  rw [UInt64.toNat_or, hk]
  exact (Nat.two_pow_add_eq_or_of_lt ho k).symm

end PageSize

/-! ## Multiples -/

/-- Two numbers have the same quotient if no multiple separates them. -/
theorem div_eq_div_iff_of_le {step m n : Nat} (hstep : 0 < step) (hle : m ≤ n) :
    m / step = n / step ↔ ¬ ∃ k, step ∣ k ∧ m < k ∧ k ≤ n := by
  constructor
  · rintro heq ⟨k, ⟨j, rfl⟩, hm, hn⟩
    have hj : j ≤ n / step := (Nat.le_div_iff_mul_le hstep).mpr (Nat.mul_comm _ _ ▸ hn)
    have hj' : m / step < j := Nat.div_lt_of_lt_mul hm
    omega
  · intro h
    refine Nat.le_antisymm (Nat.div_le_div_right hle) (Nat.le_of_not_lt fun hlt => h ?_)
    refine ⟨step * (n / step), Nat.dvd_mul_right _ _, ?_, Nat.mul_div_le _ _⟩
    exact Nat.mul_comm _ _ ▸ (Nat.div_lt_iff_lt_mul hstep).mp hlt

/-- What is added to round up is just enough to reach the next multiple. -/
theorem isLeast_roundUp {step : Nat} (hstep : 0 < step) (n : Nat) :
    IsLeast {k | step ∣ k ∧ n ≤ k} ((n + (step - 1)) / step * step) := by
  constructor
  · refine ⟨Nat.dvd_mul_left _ _, ?_⟩
    have hmod := Nat.mod_lt (n + (step - 1)) hstep
    have hdiv := Nat.div_add_mod' (n + (step - 1)) step
    omega
  · rintro k ⟨⟨j, rfl⟩, hle⟩
    rw [Nat.mul_comm step]
    refine Nat.mul_le_mul_right _ (Nat.lt_succ_iff.mp ((Nat.div_lt_iff_lt_mul hstep).mpr ?_))
    rw [Nat.succ_mul, Nat.mul_comm j]
    omega

/-! ## Pages and offsets -/

namespace Page

variable {space : Space} {size : PageSize}

theorem dvd_base (p : Page space size) : size.bytes ∣ p.base.toNat :=
  p.toNat_base ▸ Nat.dvd_mul_left _ _

theorem base_lt_base_iff {p q : Page space size} :
    p.base.toNat < q.base.toNat ↔ p.number < q.number := by
  rw [toNat_base, toNat_base, Nat.mul_lt_mul_right size.bytes_pos]

theorem base_le_base_iff {p q : Page space size} :
    p.base.toNat ≤ q.base.toNat ↔ p.number ≤ q.number := by
  rw [toNat_base, toNat_base, Nat.mul_le_mul_right_iff size.bytes_pos]

theorem next?_eq_some_iff {p q : Page space size} : p.next? = some q ↔ q.number = p.number + 1 := by
  rw [next?]
  split
  · rw [Option.some_inj, Page.ext_number_iff, eq_comm]
  · have := q.number_lt
    simp only [reduceCtorEq, false_iff]
    omega

theorem next?_eq_none_iff {p : Page space size} : p.next? = none ↔ p.number + 1 = size.pages := by
  have := p.number_lt
  rw [next?]
  split
  · simp only [reduceCtorEq, false_iff]
    omega
  · simp only [true_iff]
    omega

theorem toNat_word (o : Offset size) : o.word.toNat = o.value := by
  have hlt := o.value_lt
  have hbytes : size.bytes ≤ 2 ^ 64 := by cases size <;> decide
  rw [Offset.word, UInt64.toNat_ofNat', Nat.mod_eq_of_lt (hlt.trans_le hbytes)]

/-- Two pages and offsets join to the same address only if they are the same. -/
theorem join_inj {p q : Page space size} {o o' : Offset size} (h : p.join o = q.join o') :
    p = q ∧ o = o' := by
  have hsum := congrArg Address.toNat h
  have ho := o.value_lt
  have ho' := o'.value_lt
  rw [toNat_join, toNat_join, Nat.add_comm, Nat.add_comm (_ * _)] at hsum
  have hdiv := congrArg (· / size.bytes) hsum
  have hmod := congrArg (· % size.bytes) hsum
  simp only [Nat.add_mul_div_right _ _ size.bytes_pos, Nat.div_eq_of_lt ho, Nat.div_eq_of_lt ho',
    Nat.zero_add] at hdiv
  simp only [Nat.add_mul_mod_self_right, Nat.mod_eq_of_lt ho, Nat.mod_eq_of_lt ho'] at hmod
  refine ⟨ext_number hdiv, ?_⟩
  cases o
  cases o'
  cases hmod
  rfl

/-- A page joins with an offset by or-ing the words. -/
theorem value_join (p : Page space size) (o : Offset size) :
    (p.join o).value = p.base.value ||| o.word := by
  apply UInt64.toNat_inj.mp
  have hor := size.toNat_or (b := p.base.value) (o := o.word) p.dvd_base
    (toNat_word o ▸ o.value_lt)
  rw [hor, toNat_word]
  exact (toNat_join p o).trans (congrArg (· + o.value) (toNat_base p).symm)

/-- Number bits beyond the address space are shifted out. -/
theorem value_base_ofNumber (n : UInt64) :
    (ofNumber n.toNat : Page space size).base.value = n <<< UInt64.ofNat size.shift := by
  apply UInt64.toNat_inj.mp
  have hbase := toNat_base (ofNumber n.toNat : Page space size)
  rw [UInt64.toNat_shiftLeft, size.toNat_ofNat_shift, Nat.shiftLeft_eq]
  rw [← size.pages_mul_bytes]
  exact hbase.trans (Nat.mul_mod_mul_right _ _ _).symm

theorem number_eq_shift (p : Page space size) :
    p.number = (p.base.value >>> UInt64.ofNat size.shift).toNat := by
  rw [UInt64.toNat_shiftRight, size.toNat_ofNat_shift, Nat.shiftRight_eq_div_pow]
  exact (Nat.div_eq_of_eq_mul_left size.bytes_pos p.toNat_base).symm

/-- The next page begins a page size further on, where a checked sum is a word. -/
theorem map_base_next? (p : Page space size) :
    p.next?.map base = p.base.add? (UInt64.ofNat size.bytes) := by
  have hfits : p.base.toNat + size.bytes < 2 ^ 64 ↔ p.number + 1 < size.pages := by
    rw [toNat_base, ← Nat.succ_mul, ← size.pages_mul_bytes, Nat.mul_lt_mul_right size.bytes_pos]
  rw [Address.add?, size.toNat_ofNat_bytes]
  by_cases h : p.number + 1 < size.pages
  · have hsum := p.base.toNat_addWord (UInt64.ofNat size.bytes)
    rw [size.toNat_ofNat_bytes, Nat.mod_eq_of_lt (hfits.mpr h), toNat_base] at hsum
    rw [next?, dif_pos h, if_pos (hfits.mpr h), Option.map_some, Option.some_inj,
      ← Address.toNat_inj, hsum, toNat_base, Nat.succ_mul]
  · rw [next?, dif_neg h, if_neg (hfits.not.mpr h)]
    rfl

/-- A page, its number and the page after it. -/
structure Numbered (p : Page space size) : Prop where
  ofNumber : ofNumber p.number = p
  number_word : p.number = (p.base.value >>> UInt64.ofNat size.shift).toNat
  join_word : ∀ o, (p.join o).value = p.base.value ||| o.word
  next_word : p.next?.map base = p.base.add? (UInt64.ofNat size.bytes)
  next : ∀ q : Page space size, p.next? = some q ↔ p.base.toNat < q.base.toNat ∧
    ∀ q' : Page space size, p.base.toNat < q'.base.toNat → q.base.toNat ≤ q'.base.toNat
  last : p.next? = none ↔ ∀ q : Page space size, q.base.toNat ≤ p.base.toNat

theorem numbered (p : Page space size) : p.Numbered where
  ofNumber := p.ofNumber_number
  number_word := p.number_eq_shift
  join_word := p.value_join
  next_word := p.map_base_next?
  next q := by
    simp only [next?_eq_some_iff, base_lt_base_iff, base_le_base_iff]
    constructor
    · intro h
      exact ⟨by omega, fun q' hq' => by omega⟩
    · rintro ⟨hlt, hleast⟩
      have hnext := hleast ⟨p.number + 1, by have := q.number_lt; omega⟩ (Nat.lt_succ_self _)
      exact Nat.le_antisymm hnext hlt
  last := by
    simp only [next?_eq_none_iff, base_le_base_iff]
    constructor
    · intro h q
      have := q.number_lt
      omega
    · intro h
      have hlast := h ⟨size.pages - 1, Nat.sub_one_lt_of_lt size.pages_pos⟩
      have hlt := p.number_lt
      simp only at hlast
      omega

end Page

namespace Address

variable {space : Space} {size : PageSize}

theorem value_base_containing (a : Address space) (size : PageSize) :
    (Page.containing a : Page space size).base.value = a.value &&& ~~~size.mask := by
  apply UInt64.toNat_inj.mp
  rw [size.toNat_and_not_mask]
  exact Page.toNat_base _

theorem word_offset (a : Address space) (size : PageSize) :
    (a.offset size).word = a.value &&& size.mask := by
  apply UInt64.toNat_inj.mp
  rw [Page.toNat_word, size.toNat_and_mask]
  rfl

theorem containing_eq_iff {a b : Address space} :
    (Page.containing a : Page space size) = .containing b ↔
      a.toNat / size.bytes = b.toNat / size.bytes :=
  Page.ext_number_iff

/-- An aligned base or-ed with what is below the page size is an address just of that page. -/
theorem or_eq_iff (a : Address space) {b : Address space} {o : UInt64}
    (hb : size.bytes ∣ b.toNat) (ho : o.toNat < size.bytes) :
    b.value ||| o = a.value ↔
      b = (Page.containing a : Page space size).base ∧ o = (a.offset size).word := by
  have hor := size.toNat_or (b := b.value) (o := o) hb ho
  rw [← toNat_inj, ← UInt64.toNat_inj, ← UInt64.toNat_inj, hor, Page.toNat_word, Page.toNat_base]
  obtain ⟨k, hk⟩ := hb
  change b.toNat + o.toNat = a.toNat ↔
    b.toNat = a.toNat / size.bytes * size.bytes ∧ o.toNat = a.toNat % size.bytes
  constructor
  · intro h
    rw [← h, hk, Nat.mul_add_div size.bytes_pos, Nat.div_eq_of_lt ho, Nat.mul_add_mod,
      Nat.mod_eq_of_lt ho, Nat.add_zero, Nat.mul_comm]
    exact ⟨rfl, rfl⟩
  · rintro ⟨hbase, hoffset⟩
    rw [hbase, hoffset, Nat.div_add_mod']

theorem isAligned_eq (a : Address space) (size : PageSize) :
    a.isAligned size = (a.value &&& size.mask == 0) := by
  rw [isAligned, Bool.eq_iff_iff, beq_iff_eq, beq_iff_eq, ← UInt64.toNat_inj, size.toNat_and_mask]
  rfl

/-- Rounding up is a checked sum and a mask. -/
theorem alignUp?_eq_map (a : Address space) (size : PageSize) :
    a.alignUp? size = (a.add? size.mask).map fun b => ⟨b.value &&& ~~~size.mask⟩ := by
  rw [alignUp?, add?, size.toNat_mask]
  split
  · rename_i h
    have hsum := a.toNat_addWord size.mask
    rw [size.toNat_mask, Nat.mod_eq_of_lt h] at hsum
    rw [Option.map_some, Option.some_inj, ← toNat_inj, toNat_ofNat, Nat.mod_eq_of_lt]
    · exact hsum ▸ (size.toNat_and_not_mask (a + size.mask).value).symm
    · exact (Nat.div_mul_le_self _ _).trans_lt h
  · rfl

/-- Rounding up fails just if the next multiple is the number of all addresses. -/
theorem alignUp?_iff (a : Address space) (size : PageSize) :
    (a.alignUp? size = none ↔ (a.toNat + (size.bytes - 1)) / size.bytes * size.bytes = 2 ^ 64) ∧
      ∀ b, a.alignUp? size = some b ↔
        b.toNat = (a.toNat + (size.bytes - 1)) / size.bytes * size.bytes := by
  have ha := a.toNat_lt
  have hleast := isLeast_roundUp size.bytes_pos a.toNat
  have htop : (a.toNat + (size.bytes - 1)) / size.bytes * size.bytes ≤ 2 ^ 64 :=
    hleast.2 ⟨size.pages_mul_bytes ▸ Nat.dvd_mul_left _ _, Nat.le_of_lt ha⟩
  have hle := Nat.div_mul_le_self (a.toNat + (size.bytes - 1)) size.bytes
  rw [alignUp?]
  split
  · rename_i h
    have hlt := hle.trans_lt h
    refine ⟨by simp only [reduceCtorEq, false_iff]; omega, fun b => ?_⟩
    rw [Option.some_inj, ← toNat_inj, toNat_ofNat, Nat.mod_eq_of_lt hlt, eq_comm]
  · rename_i h
    have heq : (a.toNat + (size.bytes - 1)) / size.bytes * size.bytes = 2 ^ 64 := by
      refine Nat.le_antisymm htop ?_
      rw [← size.pages_mul_bytes]
      refine Nat.mul_le_mul_right _ ((Nat.le_div_iff_mul_le size.bytes_pos).mpr ?_)
      rw [size.pages_mul_bytes]
      exact Nat.not_lt.mp h
    refine ⟨by simp only [heq], fun b => ?_⟩
    have hb := b.toNat_lt
    rw [heq]
    simp only [reduceCtorEq, false_iff]
    omega

/-- An address as a page and an offset, and as what it is rounded to. -/
structure Decomposes (a : Address space) (size : PageSize) : Prop where
  page_word : (Page.containing a : Page space size).base.value = a.value &&& ~~~size.mask
  offset_word : (a.offset size).word = a.value &&& size.mask
  aligned : size.bytes ∣ (Page.containing a : Page space size).base.toNat
  below : (a.offset size).word.toNat < size.bytes
  join : (Page.containing a : Page space size).join (a.offset size) = a
  unique : ∀ (p : Page space size) o, p.join o = a → p = .containing a ∧ o = a.offset size
  unique_words : ∀ (b : Address space) (o : UInt64), size.bytes ∣ b.toNat → o.toNat < size.bytes →
    (b.value ||| o = a.value ↔
      b = (Page.containing a : Page space size).base ∧ o = (a.offset size).word)
  monotone : ∀ b : Address space, a.toNat ≤ b.toNat →
    (Page.containing a : Page space size).base.toNat ≤
      (Page.containing b : Page space size).base.toNat
  /-- No multiple of the page size separates addresses of one page. -/
  same_page : ∀ b : Address space, (Page.containing a : Page space size) = .containing b ↔
    ¬ ∃ k, size.bytes ∣ k ∧ min a.toNat b.toNat < k ∧ k ≤ max a.toNat b.toNat
  alignDown : a.alignDown size = (Page.containing a : Page space size).base
  isAligned_word : a.isAligned size = (a.value &&& size.mask == 0)
  alignUp_word : a.alignUp? size = (a.add? size.mask).map fun b => ⟨b.value &&& ~~~size.mask⟩
  alignUp : ∃ k, IsLeast {k | size.bytes ∣ k ∧ a.toNat ≤ k} k ∧
    (a.alignUp? size = none ↔ k = 2 ^ 64) ∧ ∀ b, a.alignUp? size = some b ↔ b.toNat = k

theorem decomposes (a : Address space) (size : PageSize) : a.Decomposes size where
  page_word := a.value_base_containing size
  offset_word := a.word_offset size
  aligned := Page.dvd_base _
  below := Page.toNat_word (a.offset size) ▸ (a.offset size).value_lt
  join := Page.join_containing a
  unique p o h := Page.join_inj (h.trans (Page.join_containing a).symm)
  unique_words b o hb ho := a.or_eq_iff hb ho
  monotone b h := Page.base_le_base_iff.mpr (Nat.div_le_div_right h)
  same_page b := by
    rw [containing_eq_iff]
    rcases Nat.le_total a.toNat b.toNat with h | h
    · rw [Nat.min_eq_left h, Nat.max_eq_right h, div_eq_div_iff_of_le size.bytes_pos h]
    · rw [Nat.min_eq_right h, Nat.max_eq_left h, eq_comm, div_eq_div_iff_of_le size.bytes_pos h]
  alignDown := rfl
  isAligned_word := a.isAligned_eq size
  alignUp_word := a.alignUp?_eq_map size
  alignUp := ⟨_, isLeast_roundUp size.bytes_pos a.toNat, a.alignUp?_iff size⟩

end Address

/-! ## Indices -/

namespace TableIndices

variable {a b : VirtualAddress}

theorem ofBits_eq_iff {shift : Nat} (fits : shift + 9 ≤ 64) :
    TableIndex.ofBits a shift fits = .ofBits b shift fits ↔
      SameBits shift (shift + 9) a.value b.value :=
  Fin.ext_iff.trans (BitField.get_eq_get_iff _)

/-- An index is cut out of an address by a shift and a mask. -/
theorem val_ofBits (a : VirtualAddress) {shift : Nat} (fits : shift + 9 ≤ 64) :
    (TableIndex.ofBits a shift fits).val =
      ((a.value >>> UInt64.ofNat shift) &&& 0x1ff).toNat := by
  have hshift : (UInt64.ofNat shift).toNat % 64 = shift := by
    rw [UInt64.toNat_ofNat']
    omega
  rw [UInt64.toNat_and, UInt64.toNat_shiftRight, hshift, Nat.shiftRight_eq_div_pow]
  exact (Nat.and_two_pow_sub_one_eq_mod _ 9).symm

theorem upper_eq_iff : (of a).pml4 = (of b).pml4 ∧ (of a).pml3 = (of b).pml3 ∧
    (of a).pml2 = (of b).pml2 ↔ SameBits 21 48 a.value b.value := by
  rw [sameBits_append (show 21 ≤ 30 by decide) (show 30 ≤ 48 by decide),
    sameBits_append (show 30 ≤ 39 by decide) (show 39 ≤ 48 by decide)]
  simp only [of, ofBits_eq_iff]
  tauto

theorem of_eq_iff : of a = of b ↔ SameBits 12 48 a.value b.value := by
  rw [sameBits_append (show 12 ≤ 21 by decide) (show 21 ≤ 48 by decide), ← upper_eq_iff]
  simp only [of, mk.injEq, ofBits_eq_iff]
  tauto

/-- The entries that two addresses select, level by level. -/
structure SelectedByBits (a b : VirtualAddress) : Prop where
  words : (of a).toList.map Fin.val =
    ([39, 30, 21, 12] : List UInt64).map fun shift => ((a.value >>> shift) &&& 0x1ff).toNat
  lt : ∀ i ∈ (of a).toList, i.val < 512
  same : of a = of b ↔ SameBits 12 48 a.value b.value
  same_upper : (of a).pml4 = (of b).pml4 ∧ (of a).pml3 = (of b).pml3 ∧
    (of a).pml2 = (of b).pml2 ↔ SameBits 21 48 a.value b.value

theorem selectedByBits (a b : VirtualAddress) : SelectedByBits a b where
  words := by
    simp only [of, toList, List.map_cons, List.map_nil, val_ofBits]
    rfl
  lt i _ := i.isLt
  same := of_eq_iff
  same_upper := upper_eq_iff

end TableIndices

/-- Addresses of all spaces and pages of both sizes come apart in one way, and virtual addresses
select entries by their bits. -/
theorem addresses_decompose :
    (∀ space (a : Address space) size, a.Decomposes size) ∧
      (∀ space size (p : Page space size), p.Numbered) ∧
      (∀ space size (n : UInt64), (Page.ofNumber n.toNat : Page space size).base.value =
        n <<< UInt64.ofNat size.shift) ∧
      ∀ a b, TableIndices.SelectedByBits a b :=
  ⟨fun _ a size => a.decomposes size, fun _ _ p => p.numbered,
    fun _ _ n => Page.value_base_ofNumber n, TableIndices.selectedByBits⟩

/-- The last page is rounded to if an address is its base, and beyond it there is nothing. -/
example : (⟨0xffffffffffe00000⟩ : VirtualAddress).alignUp? .large = some ⟨0xffffffffffe00000⟩ ∧
    (⟨0xffffffffffe00001⟩ : VirtualAddress).alignUp? .large = none ∧
    (Page.containing ⟨0xffffffffffe00001⟩ : Page .virtual .large).next? = none := by decide

end PagedMemory
