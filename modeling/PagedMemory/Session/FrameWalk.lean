import PagedMemory.Region.FrameRange
/-!
# A session on a range of frames

Requests that take frames from either end of one range, or look at what remains. Requests that would
list or skip too many frames are refused.
-/
namespace PagedMemory

/-- What is asked of a range of frames. -/
inductive FrameWalkRequest
  | next
  | back
  /-- Skip some frames and take the one after them. -/
  | skip (n : Nat)
  | size
  | bounds
  | description
  | forward
  | backward

inductive FrameWalkReply
  | frame (f : Option Frame)
  | count (n : Nat)
  /-- The least and the greatest number of frames that may remain. -/
  | bounds (lower upper : Nat)
  | text (s : String)
  | frames (fs : List Frame)

namespace FrameRange

/-- The most frames that are skipped at once. -/
def maxSkip : Nat := 10000

/-- The most frames that are listed. -/
def maxListed : Nat := 600

/-- The frame at an end, if there is one, and what remains. -/
def taken (r : FrameRange) : Option (Frame × FrameRange) → Option Frame × FrameRange
  | some (f, rest) => (some f, rest)
  | none => (none, r)

/-- Answers a request, or refuses it. -/
def answer? (r : FrameRange) : FrameWalkRequest → Option (FrameWalkReply × FrameRange)
  | .next => let (f, rest) := r.taken r.popFront?; some (.frame f, rest)
  | .back => let (f, rest) := r.taken r.popBack?; some (.frame f, rest)
  | .skip n => if n ≤ maxSkip then let (f, rest) := r.get? n; some (.frame f, rest) else none
  | .size => some (.count r.size, r)
  | .bounds => some (.bounds r.size r.size, r)
  | .description => some (.text (describe r), r)
  | .forward => if r.size ≤ maxListed then some (.frames r.toList, r) else none
  | .backward => if r.size ≤ maxListed then some (.frames r.toList.reverse, r) else none

/-- Answers requests one after the other; one that is refused spoils them all. -/
def answerAll? : FrameRange → List FrameWalkRequest → Option (List FrameWalkReply)
  | _, [] => some []
  | r, request :: rest => do
    let (reply, r) ← r.answer? request
    return reply :: (← answerAll? r rest)

end FrameRange

end PagedMemory
