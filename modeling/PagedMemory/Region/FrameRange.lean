import PagedMemory.Page
/-!
# Ranges of frames

The frames from one number up to another, taken from either end. `toList` is the view: taking from
the front or from the back takes the first or the last frame of it, and `size` is its length.
-/
namespace PagedMemory

/-- The frames numbered from `next` up to, but not including, `stop`. -/
structure FrameRange where
  next : Nat
  stop : Nat
  next_le_stop : next ≤ stop
  stop_le : stop ≤ PageSize.small.pages

namespace FrameRange

/-- The frames from `first` up to `stop`; none if they are the wrong way round. -/
def between (first stop : Nat) (hf : first ≤ PageSize.small.pages)
    (hs : stop ≤ PageSize.small.pages) : FrameRange where
  next := first
  stop := max first stop
  next_le_stop := Nat.le_max_left _ _
  stop_le := Nat.max_le.mpr ⟨hf, hs⟩

def size (r : FrameRange) : Nat := r.stop - r.next

/-- The first remaining frame and what remains after it. -/
def popFront? (r : FrameRange) : Option (Frame × FrameRange) :=
  if h : r.next < r.stop then
    some (⟨r.next, Nat.lt_of_lt_of_le h r.stop_le⟩,
      { r with next := r.next + 1, next_le_stop := h })
  else none

/-- The last remaining frame and what remains before it. -/
def popBack? (r : FrameRange) : Option (Frame × FrameRange) :=
  if h : r.next < r.stop then
    have hs : r.stop - 1 < PageSize.small.pages := by have := r.stop_le; omega
    some (⟨r.stop - 1, hs⟩,
      { r with stop := r.stop - 1, next_le_stop := by omega, stop_le := Nat.le_of_lt hs })
  else none

/-- What remains after the first `n` frames; nothing if there are no more than that. -/
def drop (r : FrameRange) (n : Nat) : FrameRange :=
  { r with next := min (r.next + n) r.stop, next_le_stop := Nat.min_le_right _ _ }

/-- The frame after `n` others and what remains after it; if there is none, nothing remains. -/
def get? (r : FrameRange) (n : Nat) : Option Frame × FrameRange :=
  match (r.drop n).popFront? with
  | some (frame, rest) => (some frame, rest)
  | none => (none, r.drop n)

def toList (r : FrameRange) : List Frame := (List.range' r.next r.size).map Page.ofNumber

theorem number_ofNumber (r : FrameRange) {n : Nat} (h : n < r.stop) :
    (Page.ofNumber n : Frame).number = n :=
  Nat.mod_eq_of_lt (Nat.lt_of_lt_of_le h r.stop_le)

@[simp] theorem length_toList (r : FrameRange) : r.toList.length = r.size := by
  simp [toList]

/-- The frames of a range by their numbers. -/
theorem mem_toList {r : FrameRange} {f : Frame} :
    f ∈ r.toList ↔ r.next ≤ f.number ∧ f.number < r.stop := by
  have hn := r.next_le_stop
  simp only [toList, size, List.mem_map, List.mem_range'_1]
  constructor
  · rintro ⟨n, hr, rfl⟩
    rw [r.number_ofNumber (by omega)]
    omega
  · intro h
    refine ⟨f.number, by omega, Page.ext_number (r.number_ofNumber (by omega))⟩

/-- Taking from the front takes the first frame of the list. -/
theorem toList_of_popFront? {r rest : FrameRange} {f : Frame} (h : r.popFront? = some (f, rest)) :
    r.toList = f :: rest.toList := by
  unfold popFront? at h
  split at h
  · rename_i lt
    cases h
    have : r.size = (r.stop - (r.next + 1)) + 1 := by simp only [size]; omega
    rw [toList, this, List.range'_succ, List.map_cons]
    congr 1
    exact Page.ext_number (r.number_ofNumber lt)
  · cases h

/-- Taking from the back takes the last frame of the list. -/
theorem toList_of_popBack? {r rest : FrameRange} {f : Frame} (h : r.popBack? = some (f, rest)) :
    r.toList = rest.toList ++ [f] := by
  unfold popBack? at h
  split at h
  · rename_i lt
    cases h
    have : r.size = (r.stop - 1 - r.next) + 1 := by simp only [size]; omega
    rw [toList, this, List.range'_concat, List.map_append]
    congr 1
    simp only [List.map_cons, List.map_nil, Nat.one_mul, List.cons.injEq, and_true]
    have at_last : r.next + (r.stop - 1 - r.next) = r.stop - 1 := by omega
    rw [at_last]
    exact Page.ext_number (r.number_ofNumber (by omega))
  · cases h

theorem popFront?_eq_none {r : FrameRange} : r.popFront? = none ↔ r.toList = [] := by
  have hn := r.next_le_stop
  simp only [popFront?, toList, size, List.map_eq_nil_iff, List.range'_eq_nil_iff]
  split
  · simp; omega
  · simp; omega

theorem popBack?_eq_none {r : FrameRange} : r.popBack? = none ↔ r.toList = [] := by
  have hn := r.next_le_stop
  simp only [popBack?, toList, size, List.map_eq_nil_iff, List.range'_eq_nil_iff]
  split
  · simp; omega
  · simp; omega

instance : Describe FrameRange :=
  ⟨fun r => Text.record "RegionFrames" [("next", describe r.next), ("end", describe r.stop)]⟩

end FrameRange

end PagedMemory
