import PagedMemory.Proofs.Arithmetic.Words
import PagedMemory.Proofs.Region.Edges
/-!
# Taking frames from both ends

The frames of a region can be taken from the front and from the back, some can be skipped, and what
remains can be counted, in any order. Whatever is asked, no frame is lost and none comes twice: what
came from the front, what remains and what came from the back are the frames that there were.

A machine keeps the two ends as words and sees that nothing remains by comparing them for equality,
so ends that ever passed each other would never meet again. They do not pass: a range is in order,
and no call takes it out of order. For the same reason no sum or difference of the ends overflows.
-/
namespace PagedMemory

namespace FrameRange

/-! ## Calls -/

/-- What is asked of a range of frames. -/
inductive Call
  | front
  | back
  /-- The frame behind so many others, which are skipped. -/
  | nth (n : Nat)
  | len
  | sizeHint

inductive Reply
  /-- The frame that was asked for, if there is one. -/
  | frame (f : Option Frame)
  | count (n : Nat)
  /-- At least so many frames remain, and at most so many if a bound is known. -/
  | bounds (lower : Nat) (upper : Option Nat)
  deriving DecidableEq

/-- The frame that came with a reply. -/
def Reply.frame? : Reply → Option Frame
  | frame f => f
  | _ => none

def popped (r : FrameRange) : Option (Frame × FrameRange) → Reply × FrameRange
  | some (f, rest) => (.frame (some f), rest)
  | none => (.frame none, r)

/-- What a range replies to a call, and what remains of it. -/
def call (r : FrameRange) : Call → Reply × FrameRange
  | .front => r.popped r.popFront?
  | .back => r.popped r.popBack?
  | .nth n => (.frame (r.get? n).1, (r.get? n).2)
  | .len => (.count r.size, r)
  | .sizeHint => (.bounds r.size (some r.size), r)

/-- The replies to calls made one after the other. -/
def replies (r : FrameRange) : List Call → List Reply
  | [] => []
  | c :: rest => (r.call c).1 :: (r.call c).2.replies rest

/-- What remains after calls made one after the other. -/
def after (r : FrameRange) : List Call → FrameRange
  | [] => r
  | c :: rest => (r.call c).2.after rest

/-- The frames that come from the front if it is asked for a frame so many times. -/
def firsts (r : FrameRange) (n : Nat) : List Frame :=
  (r.replies (List.replicate n .front)).filterMap Reply.frame?

/-- How often a call goes to the front, skipped frames included. -/
def Call.fronts : Call → Nat
  | front => 1
  | nth n => n + 1
  | _ => 0

/-- The frames that calls take or skip at the front, as they come. -/
def fromFront (r : FrameRange) : List Call → List Frame
  | [] => []
  | c :: rest => r.firsts c.fronts ++ (r.call c).2.fromFront rest

/-- The frame that a call takes from the back. -/
def last? (r : FrameRange) : Call → Option Frame
  | .back => (r.call .back).1.frame?
  | _ => none

/-- The frames that calls take from the back, as they come. -/
def fromBack (r : FrameRange) : List Call → List Frame
  | [] => []
  | c :: rest => (r.last? c).toList ++ (r.call c).2.fromBack rest

/-! ## What calls do to the frames -/

section

variable {r : FrameRange}

/-- No frame remains once the ends have met. -/
theorem toList_eq_nil_iff : r.toList = [] ↔ r.next = r.stop := by
  have := r.next_le_stop
  rw [← List.length_eq_zero_iff, length_toList, size]
  omega

theorem toList_drop (r : FrameRange) (n : Nat) : (r.drop n).toList = r.toList.drop n := by
  rw [toList, toList, ← List.map_drop, List.drop_range']
  simp only [drop, size]
  rcases Nat.le_total (r.next + n) r.stop with h | h
  · rw [Nat.min_eq_left h, Nat.mul_one, Nat.sub_add_eq]
  · rw [Nat.min_eq_right h, Nat.sub_self, Nat.sub_sub, Nat.sub_eq_zero_of_le h]
    rfl

theorem drop_drop (r : FrameRange) (m n : Nat) : (r.drop m).drop n = r.drop (m + n) := by
  simp only [drop, mk.injEq, and_true]
  omega

theorem drop_zero (r : FrameRange) : r.drop 0 = r := by
  simp only [drop, Nat.add_zero, Nat.min_eq_left r.next_le_stop]

theorem drop_of_met (h : r.next = r.stop) (n : Nat) : r.drop n = r := by
  have hmin : min (r.next + n) r.stop = r.next := by
    rw [← h, Nat.min_eq_right (Nat.le_add_right _ n)]
  simp only [drop, hmin]

/-- The front of a range is the head of its list, and it is gone afterwards. -/
theorem call_front (r : FrameRange) : r.call .front = (.frame r.toList.head?, r.drop 1) := by
  rcases Nat.eq_or_lt_of_le r.next_le_stop with hmet | hlt
  · have hempty := toList_eq_nil_iff.mpr hmet
    rw [call, popFront?_eq_none.mpr hempty, hempty, drop_of_met hmet]
    rfl
  · have hpop : r.popFront? = some (⟨r.next, Nat.lt_of_lt_of_le hlt r.stop_le⟩, r.drop 1) := by
      rw [popFront?, dif_pos hlt]
      simp only [drop, Nat.min_eq_left (Nat.succ_le_of_lt hlt)]
    rw [call, hpop, toList_of_popFront? hpop]
    rfl

/-- To skip frames is to ask for one often. -/
theorem call_nth (r : FrameRange) (n : Nat) :
    r.call (.nth n) = (.frame r.toList[n]?, r.drop (n + 1)) := by
  have hfront := (r.drop n).call_front
  rw [toList_drop, List.head?_drop, drop_drop, call] at hfront
  rw [call, get?]
  cases h : (r.drop n).popFront? with
  | none => simpa [h, popped] using hfront
  | some popped => simpa [h, FrameRange.popped] using hfront

/-- The back of a range is the last of its list, and it is gone afterwards. -/
theorem call_back (r : FrameRange) :
    ∃ rest : FrameRange, r.call .back = (.frame r.toList.getLast?, rest) ∧
      r.toList = rest.toList ++ r.toList.getLast?.toList := by
  cases h : r.popBack? with
  | none =>
    have hempty := popBack?_eq_none.mp h
    refine ⟨r, ?_, ?_⟩
    · rw [call, h, hempty]
      rfl
    · rw [hempty]
      rfl
  | some popped =>
    obtain ⟨f, rest⟩ := popped
    have hlist := toList_of_popBack? h
    have hlast : r.toList.getLast? = some f := by rw [hlist, List.getLast?_concat]
    refine ⟨rest, ?_, ?_⟩
    · rw [call, h, hlast]
      rfl
    · rw [hlast]
      exact hlist

theorem after_replicate_front (r : FrameRange) (n : Nat) :
    r.after (List.replicate n .front) = r.drop n := by
  induction n generalizing r with
  | zero => exact r.drop_zero.symm
  | succ n ih =>
    rw [List.replicate_succ, after, ih, call_front, drop_drop, Nat.add_comm]

theorem firsts_eq_take (r : FrameRange) (n : Nat) : r.firsts n = r.toList.take n := by
  induction n generalizing r with
  | zero => rfl
  | succ n ih =>
    have hrest := ih (r.drop 1)
    rw [firsts, toList_drop] at hrest
    rw [firsts, List.replicate_succ, replies, call_front, List.filterMap_cons, hrest]
    cases r.toList with
    | nil => simp [Reply.frame?]
    | cons f rest => rfl

/-- The last reply is the frame behind those that came before it. -/
theorem getLast?_replies_front (r : FrameRange) (n : Nat) :
    (r.replies (List.replicate (n + 1) .front)).getLast? = some (.frame r.toList[n]?) := by
  induction n generalizing r with
  | zero => rw [List.replicate_one, replies, replies, call_front, List.head?_eq_getElem?]; rfl
  | succ n ih =>
    have hrest := ih (r.drop 1)
    rw [toList_drop, List.getElem?_drop, Nat.add_comm 1] at hrest
    rw [List.replicate_succ, replies, call_front, List.getLast?_cons, hrest]
    rfl

/-- What a call takes at either end and what it leaves are the frames that there were. -/
theorem toList_call (r : FrameRange) (c : Call) :
    r.firsts c.fronts ++ (r.call c).2.toList ++ (r.last? c).toList = r.toList := by
  rw [firsts_eq_take]
  cases c with
  | front =>
    rw [call_front, toList_drop, last?, Option.toList_none, List.append_nil]
    · exact List.take_append_drop 1 r.toList
    · exact Call.noConfusion
  | back =>
    obtain ⟨rest, hcall, hlist⟩ := r.call_back
    rw [last?, hcall]
    exact hlist.symm
  | nth n =>
    rw [call_nth, toList_drop, last?, Option.toList_none, List.append_nil]
    · exact List.take_append_drop (n + 1) r.toList
    · exact Call.noConfusion
  | len => simp [call, Call.fronts, last?]
  | sizeHint => simp [call, Call.fronts, last?]

/-- So it is with many calls. -/
theorem toList_after (r : FrameRange) (calls : List Call) :
    r.fromFront calls ++ (r.after calls).toList ++ (r.fromBack calls).reverse = r.toList := by
  induction calls generalizing r with
  | nil => simp [fromFront, after, fromBack]
  | cons c rest ih =>
    have hback : (r.last? c).toList.reverse = (r.last? c).toList := by cases r.last? c <;> rfl
    calc r.fromFront (c :: rest) ++ (r.after (c :: rest)).toList ++
          (r.fromBack (c :: rest)).reverse
        = r.firsts c.fronts ++ ((r.call c).2.fromFront rest ++ ((r.call c).2.after rest).toList ++
            ((r.call c).2.fromBack rest).reverse) ++ (r.last? c).toList := by
          simp only [fromFront, after, fromBack, List.reverse_append, hback, List.append_assoc]
      _ = r.firsts c.fronts ++ (r.call c).2.toList ++ (r.last? c).toList := by rw [ih]
      _ = r.toList := r.toList_call c

end

/-! ## The ends as words -/

/-- The two ends of a range as words. Nothing keeps them in order. -/
structure EndWords where
  next : Nat
  stop : Nat

def endWords (r : FrameRange) : EndWords := ⟨r.next, r.stop⟩

namespace EndWords

def popFront (e : EndWords) : Except Fault (Option Frame × EndWords) :=
  if e.next = e.stop then return (none, e) else do
    let next ← Word.add e.next 1
    return (some (.ofNumber e.next), { e with next })

def popBack (e : EndWords) : Except Fault (Option Frame × EndWords) :=
  if e.next = e.stop then return (none, e) else do
    let stop ← Word.sub e.stop 1
    return (some (.ofNumber stop), { e with stop })

/-- Takes frames from the front and drops them, and tells whether there were as many. -/
def skip : Nat → EndWords → Except Fault (Bool × EndWords)
  | 0, e => return (true, e)
  | n + 1, e => do
    match ← e.popFront with
    | (some _, e) => skip n e
    | (none, e) => return (false, e)

def nth (e : EndWords) (n : Nat) : Except Fault (Option Frame × EndWords) := do
  let (reached, e) ← e.skip n
  if reached then e.popFront else return (none, e)

def call (e : EndWords) : Call → Except Fault (Reply × EndWords)
  | .front => do let (f, e) ← e.popFront; return (.frame f, e)
  | .back => do let (f, e) ← e.popBack; return (.frame f, e)
  | .nth n => do let (f, e) ← e.nth n; return (.frame f, e)
  | .len => return (.count (← Word.sub e.stop e.next), e)
  | .sizeHint => do let n ← Word.sub e.stop e.next; return (.bounds n (some n), e)

/-- The replies to calls made one after the other, and the ends afterwards. -/
def run (e : EndWords) : List Call → Except Fault (List Reply × EndWords)
  | [] => return ([], e)
  | c :: rest => do
    let (reply, e) ← e.call c
    let (more, e) ← e.run rest
    return (reply :: more, e)

end EndWords

section

variable (r : FrameRange)

theorem endWords_popFront : r.endWords.popFront = .ok (r.toList.head?, (r.drop 1).endWords) := by
  rcases Nat.eq_or_lt_of_le r.next_le_stop with hmet | hlt
  · have hends : r.endWords.next = r.endWords.stop := hmet
    rw [EndWords.popFront, if_pos hends, toList_eq_nil_iff.mpr hmet, drop_of_met hmet]
    rfl
  · have hends : r.endWords.next ≠ r.endWords.stop := Nat.ne_of_lt hlt
    have hword : r.endWords.next + 1 < 2 ^ 64 :=
      (Nat.succ_le_of_lt hlt).trans_lt (r.stop_le.trans_lt (by decide))
    have hsize : r.size ≠ 0 := Nat.sub_ne_zero_of_lt hlt
    have hrest : (r.drop 1).endWords = ⟨r.next + 1, r.stop⟩ := by
      simp only [endWords, drop, Nat.min_eq_left (Nat.succ_le_of_lt hlt)]
    rw [EndWords.popFront, if_neg hends, Word.add_eq hword, hrest, toList, List.head?_map,
      List.head?_range', if_neg hsize]
    rfl

/-- As the ends are in order, there is one to count down from. -/
theorem endWords_popBack :
    r.endWords.popBack = .ok (r.toList.getLast?, (r.call .back).2.endWords) := by
  rcases Nat.eq_or_lt_of_le r.next_le_stop with hmet | hlt
  · have hends : r.endWords.next = r.endWords.stop := hmet
    have hempty := toList_eq_nil_iff.mpr hmet
    rw [EndWords.popBack, if_pos hends, call, popBack?_eq_none.mpr hempty, hempty]
    rfl
  · have hends : r.endWords.next ≠ r.endWords.stop := Nat.ne_of_lt hlt
    have hone : 1 ≤ r.endWords.stop := Nat.one_le_of_lt hlt
    have hsize : r.size ≠ 0 := Nat.sub_ne_zero_of_lt hlt
    have hstop : r.next + r.size - 1 = r.stop - 1 := by
      rw [size, Nat.add_sub_cancel' r.next_le_stop]
    rw [EndWords.popBack, if_neg hends, Word.sub_eq hone, toList, List.getLast?_map,
      List.getLast?_range', if_neg hsize, hstop, call, popBack?, dif_pos hlt]
    rfl

theorem endWords_skip (n : Nat) :
    r.endWords.skip n = .ok (decide (n ≤ r.toList.length), (r.drop n).endWords) := by
  induction n generalizing r with
  | zero => rw [drop_zero, decide_eq_true (Nat.zero_le _)]; rfl
  | succ n ih =>
    have hrest := ih (r.drop 1)
    rw [toList_drop, drop_drop, Nat.add_comm] at hrest
    rw [EndWords.skip, endWords_popFront]
    cases hlist : r.toList with
    | nil =>
      have hmet := toList_eq_nil_iff.mp hlist
      rw [drop_of_met hmet, drop_of_met hmet]
      rfl
    | cons f rest =>
      rw [hlist] at hrest
      refine hrest.trans ?_
      simp

theorem endWords_nth (n : Nat) :
    r.endWords.nth n = .ok (r.toList[n]?, (r.drop (n + 1)).endWords) := by
  rw [EndWords.nth, endWords_skip]
  by_cases hn : n ≤ r.toList.length
  · rw [decide_eq_true hn]
    refine (r.drop n).endWords_popFront.trans ?_
    rw [toList_drop, List.head?_drop, drop_drop]
  · have hshort : r.size ≤ n := by rw [length_toList] at hn; omega
    have hdrop : r.drop n = r.drop (n + 1) := by
      have := r.next_le_stop
      rw [size] at hshort
      simp only [drop, mk.injEq, and_true]
      omega
    rw [decide_eq_false hn, List.getElem?_eq_none (Nat.le_of_not_le hn), hdrop]
    rfl

/-- A call on the words is the call on the range. -/
theorem endWords_call (c : Call) :
    r.endWords.call c = .ok ((r.call c).1, (r.call c).2.endWords) := by
  cases c with
  | front => rw [EndWords.call, endWords_popFront, call_front]; rfl
  | back =>
    obtain ⟨rest, hcall, -⟩ := r.call_back
    rw [EndWords.call, endWords_popBack, hcall]
    rfl
  | nth n => rw [EndWords.call, endWords_nth, call_nth]; rfl
  | len => rw [EndWords.call, endWords, Word.sub_eq r.next_le_stop]; rfl
  | sizeHint => rw [EndWords.call, endWords, Word.sub_eq r.next_le_stop]; rfl

/-- So it is with many calls: none of them overflows. -/
theorem endWords_run (calls : List Call) :
    r.endWords.run calls = .ok (r.replies calls, (r.after calls).endWords) := by
  induction calls generalizing r with
  | nil => rfl
  | cons c rest ih =>
    have hrest := ih (r.call c).2
    simp only [EndWords.run, endWords_call, bind, Except.bind, hrest]
    rfl

end

/-! ## Collecting in reverse -/

theorem size_of_popBack? {r rest : FrameRange} {f : Frame} (h : r.popBack? = some (f, rest)) :
    rest.size < r.size := by
  rw [← length_toList, ← length_toList, toList_of_popBack? h, List.length_append]
  exact Nat.lt_succ_self _

/-- What comes out if the frames are taken from the back, one after the other. -/
def drainBack (r : FrameRange) : List Frame :=
  match h : r.popBack? with
  | none => []
  | some (f, rest) =>
    have := size_of_popBack? h
    f :: rest.drainBack
termination_by r.size

theorem drainBack_eq_reverse (r : FrameRange) : r.drainBack = r.toList.reverse := by
  induction r using drainBack.induct with
  | case1 r h =>
    rw [drainBack]
    split
    · rw [popBack?_eq_none.mp h, List.reverse_nil]
    · simp_all
  | case2 r f rest h _ ih =>
    rw [drainBack]
    split
    · simp_all
    · rename_i g rest' h'
      obtain ⟨rfl, rfl⟩ : f = g ∧ rest = rest' := by simpa [h] using h'
      rw [ih, toList_of_popBack? h, List.reverse_append]
      rfl

/-! ## A range taken apart -/

/-- A range of which frames were asked for from both ends, and what remains of it. -/
structure TakenApart (r : FrameRange) (calls : List Call) : Prop where
  /-- Worked out on words with checks, the calls lead to the same replies and ends. -/
  exact : r.endWords.run calls = .ok (r.replies calls, (r.after calls).endWords)
  /-- Nothing is lost, and everything stays in its place. -/
  whole : r.fromFront calls ++ (r.after calls).drain ++ (r.fromBack calls).reverse = r.drain
  ascending : (r.fromFront calls).Pairwise fun f g => f.base.toNat < g.base.toNat
  descending : (r.fromBack calls).Pairwise fun f g => g.base.toNat < f.base.toNat
  distinct : (r.fromFront calls ++ r.fromBack calls).Nodup
  /-- To skip `n` frames is to ask for the front `n + 1` times and to look at the last reply. -/
  nth : ∀ n, ((r.after calls).replies (List.replicate (n + 1) .front)).getLast? =
      some ((r.after calls).call (.nth n)).1 ∧
    (r.after calls).after (List.replicate (n + 1) .front) = ((r.after calls).call (.nth n)).2
  /-- If fewer frames remain they are all gone. -/
  short : ∀ n, (r.after calls).drain.length ≤ n →
    ((r.after calls).call (.nth n)).1 = .frame none ∧
      ((r.after calls).call (.nth n)).2.drain = []
  len : (r.after calls).call .len = (.count (r.after calls).drain.length, r.after calls)
  sizeHint : (r.after calls).call .sizeHint =
    (.bounds (r.after calls).drain.length (some (r.after calls).drain.length), r.after calls)
  /-- Once the ends have met there is nothing to come. -/
  met : (r.after calls).next = (r.after calls).stop →
    (r.after calls).call .front = (.frame none, r.after calls) ∧
    (r.after calls).call .back = (.frame none, r.after calls) ∧
    ∀ n, (r.after calls).call (.nth n) = (.frame none, r.after calls)
  reversed : (r.after calls).drainBack = (r.after calls).drain.reverse

theorem takenApart (r : FrameRange) (calls : List Call) : r.TakenApart calls := by
  have hwhole := r.toList_after calls
  have hascending := r.ascending_toList
  rw [Frame.Ascending, ← hwhole, List.pairwise_append, List.pairwise_append] at hascending
  constructor
  case exact => exact r.endWords_run calls
  case whole => rwa [drain_eq_toList, drain_eq_toList]
  case ascending => exact hascending.1.1
  case descending => exact List.pairwise_reverse.mp hascending.2.1
  case distinct =>
    have hperm := (List.reverse_perm (r.fromBack calls)).append_left (r.fromFront calls)
    rw [← hperm.nodup_iff]
    refine r.nodup_toList.sublist ?_
    rw [← hwhole]
    exact (List.sublist_append_left _ _).append_right _
  case nth =>
    intro n
    rw [getLast?_replies_front, after_replicate_front, call_nth]
    exact ⟨rfl, rfl⟩
  case short =>
    intro n hn
    rw [drain_eq_toList] at hn
    rw [call_nth, drain_eq_toList, toList_drop, List.getElem?_eq_none hn,
      List.drop_eq_nil_of_le (Nat.le_succ_of_le hn)]
    exact ⟨rfl, rfl⟩
  case len => rw [drain_eq_toList, length_toList]; rfl
  case sizeHint => rw [drain_eq_toList, length_toList]; rfl
  case met =>
    intro hmet
    have hempty := toList_eq_nil_iff.mpr hmet
    refine ⟨?_, ?_, fun n => ?_⟩
    · rw [call_front, hempty, drop_of_met hmet]
      rfl
    · rw [call, popBack?_eq_none.mpr hempty]
      rfl
    · rw [call_nth, hempty, drop_of_met hmet]
      rfl
  case reversed => rw [drain_eq_toList, drainBack_eq_reverse]

end FrameRange

/-- So are the frames of a region, those inside of it and those that it touches. -/
theorem Region.takenApart_frames (r : Region) (calls : List FrameRange.Call) :
    r.frames.TakenApart calls ∧ r.coveringFrames.TakenApart calls :=
  ⟨r.frames.takenApart calls, r.coveringFrames.takenApart calls⟩

/-- Five frames, of which the second is skipped. The ends meet, and nothing comes after that. -/
example : (⟨⟨0x1000⟩, 0x5000, .usable⟩ : Region).frames.replies
    [.back, .front, .nth 1, .sizeHint, .back, .front, .nth 0, .len] =
    [.frame (some (.ofNumber 5)), .frame (some (.ofNumber 1)), .frame (some (.ofNumber 3)),
      .bounds 1 (some 1), .frame (some (.ofNumber 4)), .frame none, .frame none, .count 0] := by
  decide +kernel

end PagedMemory
