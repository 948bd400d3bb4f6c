import PagedMemory.Paging.Table
/-!
# Sessions on entries and tables

Single entries are changed field by field, and tables apart from memory entry by entry.
-/
namespace PagedMemory

/-- A change of one field of an entry. -/
inductive EntryEdit
  | flag (f : EntryFlag) (value : Bool)
  | frameNumber (n : Nat)

namespace Entry

def edit (e : Entry) : EntryEdit → Except Fault Entry
  | .flag f value => .ok (e.withFlag f value)
  | .frameNumber n => e.withFrameNumber n

/-- The outcome of each of a sequence of changes; one that faults changes nothing. -/
def edits : Entry → List EntryEdit → List (Except Fault Entry)
  | _, [] => []
  | e, change :: rest =>
    match e.edit change with
    | .ok e' => .ok e' :: edits e' rest
    | .error f => .error f :: edits e rest

end Entry

/-- What is asked of a table. -/
inductive TableRequest
  | set (index : Nat) (bits : UInt64)
  | get (index : Nat)
  | clear
  | renew
  | used

inductive TableReply
  | used (n : Nat)
  | entry (i : TableIndex) (e : Entry)
  | noSuchIndex

namespace PageTable

def answer (t : PageTable) : TableRequest → TableReply × PageTable
  | .set index bits =>
    match TableIndex.ofNat? index with
    | some i => let t := t.set i ⟨bits⟩; (.used t.used, t)
    | none => (.noSuchIndex, t)
  | .get index =>
    match TableIndex.ofNat? index with
    | some i => (.entry i (t.entry i), t)
    | none => (.noSuchIndex, t)
  | .clear => (.used empty.used, empty)
  | .renew => (.used empty.used, empty)
  | .used => (.used t.used, t)

end PageTable

end PagedMemory
