import Mathlib
import PagedMemory.Sync.Race
/-!
# One value for each cell

Callers set and read one cell, each step of each of them at any time. Whoever claims the cell first
has it for good: from then on nobody else changes it, and it only goes through the stages of that
one call. All the others stand aside. They were rejected with the value that they brought, or they
read the cell, and what they read is the value of the call that claimed it.
-/
namespace PagedMemory

namespace CellCall

variable {α : Type} {cell next : OnceCell α} {r : CellRequest α} {c : CellCall α}

/-! ## Calls that stand aside -/

/-- How a call may stand that did not claim the cell. -/
inductive Aside (cell : OnceCell α) : CellRequest α → CellCall α → Prop
  | notBegun (r : CellRequest α) : Aside cell r (.start r)
  | rejected (v : α) (taken : cell.state ≠ .empty) : Aside cell (.set v) (.set (.rejected v))
  | absent : Aside cell .get (.get .absent)
  | seen (ready : cell.state = .ready) : Aside cell .get (.get .seen)
  | found (ready : cell.state = .ready) : Aside cell .get (.get (.found cell.slot))

/-- Such a call leaves a cell alone that was claimed by another one. -/
theorem Aside.step (h : Aside cell r c) (taken : cell.state ≠ .empty) :
    (c.step cell).1 = cell ∧ Aside cell r (c.step cell).2 := by
  cases h with
  | notBegun r =>
    cases r with
    | set v =>
      rw [show (start (.set v)).step cell = (cell, .set (.rejected v)) by
        simp only [start, CellCall.step, SetCall.step, OnceCell.claim, if_neg taken]]
      exact ⟨rfl, .rejected v taken⟩
    | get =>
      refine ⟨rfl, ?_⟩
      simp only [CellCall.start, CellCall.step, GetCall.step]
      by_cases ready : cell.state = .ready
      · rw [if_pos ready]
        exact .seen ready
      · rw [if_neg ready]
        exact .absent
  | rejected v taken => exact ⟨rfl, .rejected v taken⟩
  | absent => exact ⟨rfl, .absent⟩
  | seen ready => exact ⟨rfl, .found ready⟩
  | found ready => exact ⟨rfl, .found ready⟩

/-- It either claims a new cell or leaves it alone. -/
theorem Aside.step_new (h : Aside .new r c) :
    (∃ v, r = .set v ∧ c.step .new = (⟨.filling, none⟩, .set (.claimed v))) ∨
      ((c.step .new).1 = .new ∧ Aside .new r (c.step .new).2) := by
  cases h with
  | notBegun r =>
    cases r with
    | set v => exact .inl ⟨v, rfl, rfl⟩
    | get => exact .inr ⟨rfl, .absent⟩
  | rejected v taken => exact absurd rfl taken
  | absent => exact .inr ⟨rfl, .absent⟩
  | seen ready => cases ready
  | found ready => cases ready

/-- It does not depend on how far an unpublished cell has been filled. -/
theorem Aside.mono (h : Aside cell r c) (hidden : cell.state ≠ .ready)
    (taken : next.state ≠ .empty) : Aside next r c := by
  cases h with
  | notBegun r => exact .notBegun r
  | rejected v _ => exact .rejected v taken
  | absent => exact .absent
  | seen ready => exact absurd ready hidden
  | found ready => exact absurd ready hidden

theorem Aside.not_hasClaimed (h : Aside cell r c) : ¬ c.hasClaimed := by
  cases h with
  | notBegun r => cases r <;> exact id
  | _ => exact id

theorem Aside.of_rejected {v : α} (h : Aside cell r (.set (.rejected v))) : r = .set v := by
  generalize hc : CellCall.set (.rejected v) = c at h
  cases h with
  | notBegun r => cases r <;> cases hc
  | rejected v _ =>
    cases hc
    rfl
  | _ => cases hc

theorem Aside.of_found {content : Option α} (h : Aside cell r (.get (.found content))) :
    cell.state = .ready ∧ content = cell.slot := by
  generalize hc : CellCall.get (.found content) = c at h
  cases h with
  | notBegun r => cases r <;> cases hc
  | found ready =>
    cases hc
    exact ⟨ready, rfl⟩
  | _ => cases hc

/-- Its value is with its caller. -/
theorem Aside.kept_eq (h : Aside cell r c) : c.kept = r.value? := by
  cases h with
  | notBegun r => cases r <;> rfl
  | _ => rfl

/-- It goes to the slot only to read it once it is published. -/
theorem Aside.access?_eq (h : Aside cell r c) :
    c.access? cell = none ∨ (c.access? cell = some (.read cell.slot) ∧ cell.state = .ready) := by
  cases h with
  | notBegun r => cases r <;> exact .inl rfl
  | seen ready => exact .inr ⟨rfl, ready⟩
  | _ => exact .inl rfl

/-- From a published cell no call comes away without its value. -/
theorem step_ne_absent (ready : cell.state = .ready) (hc : c ≠ .get .absent) :
    (c.step cell).2 ≠ .get .absent := by
  cases c with
  | set call => exact nofun
  | get call =>
    cases call with
    | started => simp [step, GetCall.step, ready]
    | absent => exact absurd rfl hc
    | _ => simp [step, GetCall.step]

/-- A step makes a call shorter until it is over. -/
theorem stepsLeft_step (cell : OnceCell α) (c : CellCall α) :
    (c.step cell).2.stepsLeft ≤ c.stepsLeft - 1 := by
  cases c with
  | set call =>
    cases call with
    | started v =>
      by_cases hempty : cell.state = .empty <;>
        simp [step, SetCall.step, OnceCell.claim, hempty, stepsLeft]
    | _ => exact Nat.le_refl _
  | get call =>
    cases call with
    | started =>
      by_cases ready : cell.state = .ready <;> simp [step, GetCall.step, ready, stepsLeft]
    | _ => exact Nat.le_refl _

end CellCall

/-! ## The call that claims the cell -/

/-- How far a call with a value has filled the cell that it claimed. -/
inductive SetCall.Fills {α : Type} (v : α) : OnceCell α → SetCall α → Prop
  | claimed : Fills v ⟨.filling, none⟩ (.claimed v)
  | written : Fills v ⟨.filling, some v⟩ (.written v)
  | stored : Fills v ⟨.ready, some v⟩ .stored

namespace SetCall.Fills

variable {α : Type} {cell : OnceCell α} {call : SetCall α} {v : α}

theorem step (h : Fills v cell call) : Fills v (call.step cell).1 (call.step cell).2 := by
  cases h with
  | claimed => exact .written
  | written => exact .stored
  | stored => exact .stored

theorem taken (h : Fills v cell call) : cell.state ≠ .empty := by
  cases h <;> exact nofun

/-- What the call does to the cell makes no difference to the calls that stand aside. -/
theorem aside_step (h : Fills v cell call) {r : CellRequest α} {c : CellCall α}
    (hc : c.Aside cell r) : c.Aside (call.step cell).1 r := by
  cases h with
  | claimed => exact hc.mono nofun nofun
  | written => exact hc.mono nofun nofun
  | stored => exact hc

theorem slot_of_ready (h : Fills v cell call) (ready : cell.state = .ready) :
    cell.slot = some v := by
  cases h with
  | stored => rfl
  | _ => cases ready

theorem eq_stored (h : Fills v cell call) (ready : cell.state = .ready) :
    call = .stored := by
  cases h with
  | stored => rfl
  | _ => cases ready

theorem cell_eq (h : Fills v cell .stored) : cell = ⟨.ready, some v⟩ := by
  cases h
  rfl

theorem step_of_ready (h : Fills v cell call) (ready : cell.state = .ready) :
    (call.step cell).1 = cell := by
  rw [h.eq_stored ready, SetCall.step]

theorem kept_eq (h : Fills v cell call) : (CellCall.set call).kept = none := by
  cases h <;> rfl

end SetCall.Fills

namespace CellUse

variable {α : Type} {requests : List (CellRequest α)} {u : CellUse α} {w i : Nat} {v : α}
variable {c : CellCall α}

theorem step_of_call (hc : u.calls[i]? = some c) :
    u.step i = ⟨(c.step u.cell).1, u.calls.set i (c.step u.cell).2⟩ := by
  rw [step, hc]

theorem step_of_none (hi : u.calls[i]? = none) : u.step i = u := by
  rw [step, hi]

/-- A step of one call leaves the others as they are. -/
theorem getElem?_step (u : CellUse α) (i j : Nat) :
    (u.step j).calls[i]? =
      if j = i then u.calls[i]?.map fun c => (c.step u.cell).2 else u.calls[i]? := by
  cases hc : u.calls[j]? with
  | none =>
    rw [step_of_none hc]
    split
    · next h => rw [← h, hc, Option.map_none]
    · rfl
  | some c =>
    rw [step_of_call hc, List.getElem?_set]
    split
    · next h =>
      obtain ⟨hlt, -⟩ := List.getElem?_eq_some_iff.mp hc
      rw [if_pos hlt, ← h, hc, Option.map_some]
    · rfl

/-- A call stands aside of the cell, or there is neither a request nor a call. -/
def AsideAt (requests : List (CellRequest α)) (u : CellUse α) (i : Nat) : Prop :=
  Option.Rel (CellCall.Aside u.cell) requests[i]? u.calls[i]?

/-- A new cell that no call has claimed. -/
structure Unclaimed (requests : List (CellRequest α)) (u : CellUse α) : Prop where
  cell : u.cell = .new
  calls : ∀ i, AsideAt requests u i

/-- A cell that a call with the value `v` has claimed. -/
structure Claimed (requests : List (CellRequest α)) (u : CellUse α) (w : Nat) (v : α) : Prop where
  request : requests[w]? = some (.set v)
  owner : ∃ call, u.calls[w]? = some (.set call) ∧ call.Fills v u.cell
  others : ∀ i, i ≠ w → AsideAt requests u i

theorem AsideAt.of_call (h : AsideAt requests u i) (hc : u.calls[i]? = some c) :
    ∃ r, requests[i]? = some r ∧ c.Aside u.cell r := by
  rw [AsideAt, hc] at h
  generalize hr : requests[i]? = r at h
  cases h with
  | some h => exact ⟨_, rfl, h⟩

theorem asideAt_of_call {r : CellRequest α} (hr : requests[i]? = some r)
    (hc : u.calls[i]? = some c) (h : c.Aside u.cell r) : AsideAt requests u i := by
  rw [AsideAt, hr, hc]
  exact .some h

/-- A call at another place stands as before if the cell lets it. -/
theorem AsideAt.of_set {j : Nat} {cell : OnceCell α} (h : AsideAt requests u j) (hij : i ≠ j)
    (hcell : ∀ {r c}, CellCall.Aside u.cell r c → CellCall.Aside cell r c) :
    AsideAt requests ⟨cell, u.calls.set i c⟩ j := by
  rw [AsideAt, List.getElem?_set_ne hij]
  rw [AsideAt] at h
  generalize requests[j]? = r, u.calls[j]? = d at h ⊢
  cases h with
  | some h => exact .some (hcell h)
  | none => exact .none

theorem unclaimed_start (requests : List (CellRequest α)) :
    Unclaimed requests (start requests) := by
  refine ⟨rfl, fun i => ?_⟩
  rw [AsideAt, start, List.getElem?_map]
  cases requests[i]? with
  | none => exact .none
  | some r => exact .some (.notBegun r)

/-! ## Steps -/

/-- A step claims the cell or leaves it as it is. -/
theorem Unclaimed.step (h : Unclaimed requests u) (i : Nat) :
    Unclaimed requests (u.step i) ∨
      ∃ v, Claimed requests (u.step i) i v ∧ (u.step i).cell.slot = none := by
  cases hc : u.calls[i]? with
  | none =>
    rw [step_of_none hc]
    exact .inl h
  | some c =>
    obtain ⟨r, hr, haside⟩ := (h.calls i).of_call hc
    obtain ⟨hi, -⟩ := List.getElem?_eq_some_iff.mp hc
    rw [step_of_call hc]
    have hcell := h.cell
    obtain ⟨cell, calls⟩ := u
    subst hcell
    rcases haside.step_new with ⟨v, rfl, hstep⟩ | ⟨hcell, hnext⟩
    · rw [hstep]
      refine .inr ⟨v, ⟨hr, ⟨.claimed v, List.getElem?_set_self hi, .claimed⟩, fun j hj => ?_⟩, rfl⟩
      exact (h.calls j).of_set (Ne.symm hj) fun h => h.mono nofun nofun
    · refine .inl ⟨hcell, fun j => ?_⟩
      rw [hcell]
      by_cases hj : i = j
      · subst hj
        exact asideAt_of_call hr (List.getElem?_set_self hi) hnext
      · exact (h.calls j).of_set hj id

/-- The call that claimed the cell goes on filling it. -/
theorem Claimed.step_owner (h : Claimed requests u w v) : Claimed requests (u.step w) w v := by
  obtain ⟨call, hc, hfills⟩ := h.owner
  obtain ⟨hw, -⟩ := List.getElem?_eq_some_iff.mp hc
  rw [step_of_call hc]
  refine ⟨h.request, ⟨(call.step u.cell).2, List.getElem?_set_self hw, hfills.step⟩, ?_⟩
  exact fun j hj => (h.others j hj).of_set (Ne.symm hj) hfills.aside_step

/-- Every other call leaves the cell as it is. -/
theorem Claimed.step_other (h : Claimed requests u w v) (hi : i ≠ w) :
    (u.step i).cell = u.cell ∧ Claimed requests (u.step i) w v := by
  cases hc : u.calls[i]? with
  | none =>
    rw [step_of_none hc]
    exact ⟨rfl, h⟩
  | some c =>
    obtain ⟨call, howner, hfills⟩ := h.owner
    obtain ⟨r, hr, haside⟩ := (h.others i hi).of_call hc
    obtain ⟨hcell, hnext⟩ := haside.step hfills.taken
    obtain ⟨hlt, -⟩ := List.getElem?_eq_some_iff.mp hc
    rw [step_of_call hc, hcell]
    refine ⟨rfl, h.request, ⟨call, ?_, hfills⟩, fun j hj => ?_⟩
    · rwa [List.getElem?_set_ne hi]
    · by_cases hij : i = j
      · subst hij
        exact asideAt_of_call hr (List.getElem?_set_self hlt) hnext
      · exact (h.others j hj).of_set hij id

theorem Claimed.step (h : Claimed requests u w v) (i : Nat) : Claimed requests (u.step i) w v := by
  by_cases hi : i = w
  · exact hi ▸ h.step_owner
  · exact (h.step_other hi).2

/-- The claim stays with the call that made it. -/
theorem Claimed.run (h : Claimed requests u w v) (schedule : List Nat) :
    Claimed requests (u.run schedule) w v := by
  induction schedule generalizing u with
  | nil => exact h
  | cons i rest ih => exact ih (h.step i)

theorem Unclaimed.run (h : Unclaimed requests u) (schedule : List Nat) :
    Unclaimed requests (u.run schedule) ∨ ∃ w v, Claimed requests (u.run schedule) w v := by
  induction schedule generalizing u with
  | nil => exact .inl h
  | cons i rest ih =>
    rcases h.step i with hnext | ⟨v, hnext, -⟩
    · exact ih hnext
    · exact .inr ⟨i, v, hnext.run rest⟩

/-- A published cell stays as it is. -/
theorem Claimed.cell_step (h : Claimed requests u w v) (ready : u.cell.state = .ready) (i : Nat) :
    (u.step i).cell = u.cell := by
  by_cases hi : i = w
  · obtain ⟨call, hc, hfills⟩ := h.owner
    rw [hi, step_of_call hc]
    exact hfills.step_of_ready ready
  · exact (h.step_other hi).1

/-- Whoever asks after the cell was published gets its value. -/
theorem Claimed.run_ne_absent (h : Claimed requests u w v) (ready : u.cell.state = .ready)
    (hi : u.calls[i]? ≠ some (.get .absent)) (schedule : List Nat) :
    (u.run schedule).calls[i]? ≠ some (.get .absent) := by
  induction schedule generalizing u with
  | nil => exact hi
  | cons j rest ih =>
    refine ih (h.step j) (h.cell_step ready j ▸ ready) ?_
    rw [getElem?_step]
    split
    · cases hc : u.calls[i]? with
      | none => exact nofun
      | some c =>
        have hne : c ≠ .get .absent := fun e => hi (e ▸ hc)
        exact fun e => CellCall.step_ne_absent ready hne (Option.some.inj e)
    · exact hi

/-- After as many steps of its own as a call needs it is over, whatever the others do. -/
theorem run_stepsLeft {d : CellCall α} {schedule : List Nat}
    (hd : (u.run schedule).calls[i]? = some d) :
    ∃ c, u.calls[i]? = some c ∧ d.stepsLeft ≤ c.stepsLeft - schedule.count i := by
  induction schedule generalizing u with
  | nil => exact ⟨d, hd, Nat.le_refl _⟩
  | cons j rest ih =>
    obtain ⟨next, hnext, hle⟩ := ih (u := u.step j) hd
    rw [getElem?_step] at hnext
    by_cases hj : j = i
    · rw [if_pos hj] at hnext
      obtain ⟨c, hc, rfl⟩ := Option.map_eq_some_iff.mp hnext
      have hstep := CellCall.stepsLeft_step u.cell c
      refine ⟨c, hc, ?_⟩
      rw [hj, List.count_cons_self]
      omega
    · rw [if_neg hj] at hnext
      rw [List.count_cons_of_ne hj]
      exact ⟨next, hnext, hle⟩

/-! ## The slot -/

theorem AsideAt.access?_eq (h : AsideAt requests u i) :
    u.access? i = none ∨ (u.access? i = some (.read u.cell.slot) ∧ u.cell.state = .ready) := by
  rw [access?]
  cases hc : u.calls[i]? with
  | none => exact .inl rfl
  | some c =>
    obtain ⟨r, -, haside⟩ := h.of_call hc
    exact haside.access?_eq

/-- Once the slot was written it is only read, and what is read is what was written. -/
theorem Claimed.accesses_of_written (h : Claimed requests u w v) (hslot : u.cell.slot = some v)
    (schedule : List Nat) : ∃ k, u.accesses schedule = List.replicate k (.read (some v)) := by
  induction schedule generalizing u with
  | nil => exact ⟨0, rfl⟩
  | cons i rest ih =>
    rw [accesses]
    by_cases hi : i = w
    · obtain ⟨call, hc, hfills⟩ := h.owner
      have hnone : u.access? i = none ∧ (u.step i).cell.slot = some v := by
        rw [hi, access?, step_of_call hc, hc]
        generalize u.cell = cell at hfills hslot
        cases hfills with
        | claimed => cases hslot
        | written => exact ⟨rfl, rfl⟩
        | stored => exact ⟨rfl, rfl⟩
      rw [hnone.1]
      exact ih (h.step i) hnone.2
    · obtain ⟨hcell, hnext⟩ := h.step_other hi
      obtain ⟨k, hk⟩ := ih hnext (hcell ▸ hslot)
      rw [hk]
      rcases (h.others i hi).access?_eq with hnone | ⟨hread, -⟩
      · exact ⟨k, by rw [hnone]; rfl⟩
      · exact ⟨k + 1, by rw [hread, hslot]; rfl⟩

/-- The first that goes to an unwritten slot is the call that writes it. -/
theorem Claimed.accesses_of_unwritten (h : Claimed requests u w v) (hslot : u.cell.slot = none)
    (schedule : List Nat) : u.accesses schedule = [] ∨
      ∃ k, u.accesses schedule = .write v :: List.replicate k (.read (some v)) := by
  induction schedule generalizing u with
  | nil => exact .inl rfl
  | cons i rest ih =>
    rw [accesses]
    obtain ⟨call, hc, hfills⟩ := h.owner
    by_cases hi : i = w
    · have hwrite : u.access? i = some (.write v) ∧ (u.step i).cell.slot = some v := by
        rw [hi, access?, step_of_call hc, hc]
        generalize u.cell = cell at hfills hslot
        cases hfills with
        | claimed => exact ⟨rfl, rfl⟩
        | written => cases hslot
        | stored => cases hslot
      obtain ⟨k, hk⟩ := (h.step i).accesses_of_written hwrite.2 rest
      rw [hwrite.1, hk]
      exact .inr ⟨k, rfl⟩
    · obtain ⟨hcell, hnext⟩ := h.step_other hi
      rcases (h.others i hi).access?_eq with hnone | ⟨-, ready⟩
      · rw [hnone]
        exact ih hnext (hcell ▸ hslot)
      · rw [hfills.slot_of_ready ready] at hslot
        cases hslot

theorem Unclaimed.accesses (h : Unclaimed requests u) (schedule : List Nat) :
    u.accesses schedule = [] ∨ ∃ (w : Nat) (v : α) (k : Nat), requests[w]? = some (.set v) ∧
      u.accesses schedule = .write v :: List.replicate k (.read (some v)) := by
  induction schedule generalizing u with
  | nil => exact .inl rfl
  | cons i rest ih =>
    rw [CellUse.accesses]
    rcases (h.calls i).access?_eq with hnone | ⟨-, ready⟩
    · rw [hnone]
      rcases h.step i with hnext | ⟨v, hnext, hslot⟩
      · exact ih hnext
      · rcases hnext.accesses_of_unwritten hslot rest with hnil | ⟨k, hk⟩
        · exact .inl hnil
        · exact .inr ⟨i, v, k, hnext.request, hk⟩
    · rw [h.cell] at ready
      cases ready

/-! ## Where the values are -/

/-- The values of calls that stand aside are with their callers. -/
theorem filterMap_kept {rs : List (CellRequest α)} {cs : List (CellCall α)} {cell : OnceCell α}
    (h : ∀ i : Nat, Option.Rel (CellCall.Aside cell) rs[i]? cs[i]?) :
    cs.filterMap CellCall.kept = rs.filterMap CellRequest.value? := by
  induction rs generalizing cs with
  | nil =>
    cases cs with
    | nil => rfl
    | cons c cs => cases h 0
  | cons r rs ih =>
    cases cs with
    | nil => cases h 0
    | cons c cs =>
      have hrest := ih fun i => by simpa using h (i + 1)
      cases h 0 with
      | some hc => rw [List.filterMap_cons, List.filterMap_cons, hc.kept_eq, hrest]

/-- All but that of the call that has the cell. -/
theorem perm_filterMap_kept {rs : List (CellRequest α)} {cs : List (CellCall α)}
    {cell : OnceCell α} (hr : rs[w]? = some (.set v)) (hc : cs[w]? = some c) (hkept : c.kept = none)
    (h : ∀ i : Nat, i ≠ w → Option.Rel (CellCall.Aside cell) rs[i]? cs[i]?) :
    (v :: cs.filterMap CellCall.kept).Perm (rs.filterMap CellRequest.value?) := by
  induction w generalizing rs cs with
  | zero =>
    cases rs with
    | nil => cases hr
    | cons r rs =>
      cases cs with
      | nil => cases hc
      | cons d cs =>
        have hrest := filterMap_kept fun i => by simpa using h (i + 1) (by omega)
        obtain rfl := Option.some.inj hr
        obtain rfl := Option.some.inj hc
        rw [List.filterMap_cons_none hkept, hrest]
        exact List.Perm.refl _
  | succ w ih =>
    cases rs with
    | nil => cases hr
    | cons r rs =>
      cases cs with
      | nil => cases hc
      | cons d cs =>
        have hrest := ih hr hc fun i hi => by simpa using h (i + 1) (by omega)
        have hhead : Option.Rel (CellCall.Aside cell) (some r) (some d) := h 0 (by omega)
        cases hhead with
        | some hd =>
          rw [List.filterMap_cons, List.filterMap_cons, hd.kept_eq]
          cases r.value? with
          | none => exact hrest
          | some x => exact (List.Perm.swap x v _).trans (hrest.cons x)

/-! ## One value -/

/-- What is true of a cell after the steps of a schedule, and what stays true. -/
structure OneValue (requests : List (CellRequest α)) (schedule : List Nat) (u : CellUse α) :
    Prop where
  claim_unique : ∀ (i j : Nat) c d, u.calls[i]? = some c → c.hasClaimed →
    u.calls[j]? = some d → d.hasClaimed → i = j
  /-- A call needs no more than three steps of its own. -/
  isOver : ∀ (i : Nat) c, 3 ≤ schedule.count i → u.calls[i]? = some c → c.isOver
  exists_stored : (∀ c ∈ u.calls, c.isOver) → (∃ v, .set v ∈ requests) →
    ∃ i : Nat, u.calls[i]? = some (.set .stored)
  stored : ∀ i : Nat, u.calls[i]? = some (.set .stored) →
    ∃ v, requests[i]? = some (.set v) ∧ u.cell.get? = some v
  /-- What is handed back is what was brought. -/
  rejected : ∀ (i : Nat) v, u.calls[i]? = some (.set (.rejected v)) → requests[i]? = some (.set v)
  /-- What is read is the value of the call that filled the cell. -/
  found : ∀ (i : Nat) content, u.calls[i]? = some (.get (.found content)) →
    ∃ (w : Nat) (v : α), requests[w]? = some (.set v) ∧ u.calls[w]? = some (.set .stored) ∧
      content = some v
  /-- The slot is written at most once, and read only after that. -/
  accesses : (start requests).accesses schedule = [] ∨
    ∃ (w : Nat) (v : α) (k : Nat), requests[w]? = some (.set v) ∧
      (start requests).accesses schedule = .write v :: List.replicate k (.read (some v))
  /-- Once a call has returned the value, no call that begins later misses it. -/
  not_absent : (∃ c ∈ u.calls, c.hasValue) → ∀ i : Nat, u.calls[i]? = some (.get .started) →
    ∀ more, (u.run more).calls[i]? ≠ some (.get .absent)
  /-- With no call in progress each value is in one place: it goes away with the cell, or it is with
  its caller. -/
  dropped_perm : (∀ c ∈ u.calls, ¬ c.inProgress) →
    (u.cell.dropped.toList ++ u.calls.filterMap CellCall.kept).Perm
      (requests.filterMap CellRequest.value?)

/-- Calls that never touched the cell. -/
theorem Unclaimed.not_hasClaimed (h : Unclaimed requests u) (hc : u.calls[i]? = some c) :
    ¬ c.hasClaimed := by
  obtain ⟨r, -, haside⟩ := (h.calls i).of_call hc
  exact haside.not_hasClaimed

theorem Unclaimed.not_hasValue (h : Unclaimed requests u) (hc : u.calls[i]? = some c) :
    ¬ c.hasValue := by
  obtain ⟨r, -, haside⟩ := (h.calls i).of_call hc
  intro hvalue
  match c with
  | .set .stored => exact haside.not_hasClaimed trivial
  | .get (.found content) =>
    have ready := haside.of_found.1
    rw [h.cell] at ready
    cases ready

/-- A call that sets a cell nobody has claimed is still to begin. -/
theorem Unclaimed.not_isOver (h : Unclaimed requests u) (hr : requests[i]? = some (.set v)) :
    ∃ c ∈ u.calls, ¬ c.isOver := by
  have haside := h.calls i
  rw [AsideAt, hr] at haside
  generalize hc : u.calls[i]? = d at haside
  cases haside with
  | some haside =>
    refine ⟨_, List.mem_of_getElem? hc, ?_⟩
    cases haside with
    | notBegun => exact nofun
    | rejected v taken => exact absurd (h.cell ▸ rfl) taken

/-- The only call that claimed the cell. -/
theorem Claimed.eq_of_hasClaimed (h : Claimed requests u w v) (hc : u.calls[i]? = some c)
    (hclaimed : c.hasClaimed) : i = w := by
  by_contra hi
  obtain ⟨r, -, haside⟩ := (h.others i hi).of_call hc
  exact haside.not_hasClaimed hclaimed

/-- A published cell was filled by the call that claimed it. -/
theorem Claimed.stored_of_ready (h : Claimed requests u w v) (ready : u.cell.state = .ready) :
    u.calls[w]? = some (.set .stored) ∧ u.cell.slot = some v := by
  obtain ⟨call, hc, hfills⟩ := h.owner
  rw [hfills.eq_stored ready] at hc
  exact ⟨hc, hfills.slot_of_ready ready⟩

/-- What is read from the slot. -/
theorem Claimed.of_found (h : Claimed requests u w v) {content : Option α}
    (hc : u.calls[i]? = some (.get (.found content))) :
    u.cell.state = .ready ∧ content = u.cell.slot := by
  obtain ⟨call, hw, -⟩ := h.owner
  have hi : i ≠ w := by
    rintro rfl
    rw [hw] at hc
    cases hc
  obtain ⟨r, -, haside⟩ := (h.others i hi).of_call hc
  exact haside.of_found

theorem Claimed.ready_of_stored (h : Claimed requests u w v)
    (hc : u.calls[i]? = some (.set .stored)) : i = w ∧ u.cell = ⟨.ready, some v⟩ := by
  obtain rfl := h.eq_of_hasClaimed hc trivial
  obtain ⟨call, hw, hfills⟩ := h.owner
  obtain rfl : SetCall.stored = call := by
    rw [hw] at hc
    cases hc
    rfl
  exact ⟨rfl, hfills.cell_eq⟩

/-- A call that has the value has it from a published cell. -/
theorem Claimed.ready_of_hasValue (h : Claimed requests u w v) (hc : u.calls[i]? = some c)
    (hvalue : c.hasValue) : u.cell.state = .ready := by
  match c with
  | .set .stored => rw [(h.ready_of_stored hc).2]
  | .get (.found content) => exact (h.of_found hc).1

theorem AsideAt.of_rejected (h : AsideAt requests u i)
    (hc : u.calls[i]? = some (.set (.rejected v))) : requests[i]? = some (.set v) := by
  obtain ⟨r, hr, haside⟩ := h.of_call hc
  rw [hr, haside.of_rejected]

theorem Claimed.of_rejected (h : Claimed requests u w v) {x : α}
    (hc : u.calls[i]? = some (.set (.rejected x))) : requests[i]? = some (.set x) := by
  obtain ⟨call, hw, hfills⟩ := h.owner
  have hi : i ≠ w := by
    rintro rfl
    rw [hw] at hc
    cases hc
    generalize u.cell = cell at hfills
    cases hfills
  exact (h.others i hi).of_rejected hc

/-- If all calls are over, the one that claimed the cell has filled it. -/
theorem Claimed.stored_of_isOver (h : Claimed requests u w v) (hover : ∀ c ∈ u.calls, c.isOver) :
    u.calls[w]? = some (.set .stored) := by
  obtain ⟨call, hc, hfills⟩ := h.owner
  have hlast := hover _ (List.mem_of_getElem? hc)
  generalize u.cell = cell at hfills
  cases hfills with
  | claimed => cases hlast
  | written => cases hlast
  | stored => exact hc

/-- The value of the call that filled the cell goes away with it. -/
theorem Claimed.dropped_perm (h : Claimed requests u w v)
    (hquiet : ∀ c ∈ u.calls, ¬ c.inProgress) :
    (u.cell.dropped.toList ++ u.calls.filterMap CellCall.kept).Perm
      (requests.filterMap CellRequest.value?) := by
  obtain ⟨call, hc, hfills⟩ := h.owner
  have hnot := hquiet _ (List.mem_of_getElem? hc)
  have hdropped : u.cell.dropped = some v := by
    generalize u.cell = cell at hfills
    cases hfills with
    | claimed => exact absurd trivial hnot
    | written => exact absurd trivial hnot
    | stored => rfl
  rw [hdropped]
  exact perm_filterMap_kept h.request hc hfills.kept_eq h.others

theorem stepsLeft_start (r : CellRequest α) : (CellCall.start r).stepsLeft ≤ 3 := by
  cases r <;> simp [CellCall.start, CellCall.stepsLeft]

theorem isOver_run (requests : List (CellRequest α)) {schedule : List Nat}
    (hcount : 3 ≤ schedule.count i) (hc : ((start requests).run schedule).calls[i]? = some c) :
    c.isOver := by
  obtain ⟨first, hfirst, hle⟩ := run_stepsLeft hc
  rw [start, List.getElem?_map] at hfirst
  obtain ⟨r, -, rfl⟩ := Option.map_eq_some_iff.mp hfirst
  have := stepsLeft_start r
  rw [CellCall.isOver]
  omega

/-- Whatever calls for some requests do in whatever order, the cell takes one value. -/
theorem oneValue_run (requests : List (CellRequest α)) (schedule : List Nat) :
    OneValue requests schedule ((start requests).run schedule) := by
  have hstart := unclaimed_start requests
  rcases hstart.run schedule with h | ⟨w, v, h⟩
  · -- nobody has claimed the cell
    refine ⟨?_, fun i c => isOver_run requests, ?_, ?_, ?_, ?_, hstart.accesses schedule, ?_, ?_⟩
    · exact fun i j c d hc hclaimed => absurd hclaimed (h.not_hasClaimed hc)
    · rintro hover ⟨v, hv⟩
      obtain ⟨i, hi⟩ := List.mem_iff_getElem?.mp hv
      obtain ⟨c, hc, hnot⟩ := h.not_isOver hi
      exact absurd (hover c hc) hnot
    · exact fun i hc => absurd trivial (h.not_hasClaimed hc)
    · exact fun i v hc => (h.calls i).of_rejected hc
    · exact fun i content hc => absurd trivial (h.not_hasValue hc)
    · rintro ⟨c, hc, hvalue⟩
      obtain ⟨i, hi⟩ := List.mem_iff_getElem?.mp hc
      exact absurd hvalue (h.not_hasValue hi)
    · intro _
      rw [h.cell, filterMap_kept h.calls]
      exact List.Perm.refl _
  · refine ⟨?_, fun i c => isOver_run requests, ?_, ?_, ?_, ?_, hstart.accesses schedule, ?_,
      h.dropped_perm⟩
    · intro i j c d hc hcclaimed hd hdclaimed
      rw [h.eq_of_hasClaimed hc hcclaimed, h.eq_of_hasClaimed hd hdclaimed]
    · intro hover _
      exact ⟨w, h.stored_of_isOver hover⟩
    · intro i hc
      obtain ⟨rfl, hcell⟩ := h.ready_of_stored hc
      exact ⟨v, h.request, by rw [hcell]; rfl⟩
    · exact fun i v hc => h.of_rejected hc
    · intro i content hc
      obtain ⟨ready, rfl⟩ := h.of_found hc
      obtain ⟨hstored, hslot⟩ := h.stored_of_ready ready
      exact ⟨w, v, h.request, hstored, hslot⟩
    · rintro ⟨c, hc, hvalue⟩ i hi more
      obtain ⟨j, hj⟩ := List.mem_iff_getElem?.mp hc
      refine h.run_ne_absent (h.ready_of_hasValue hj hvalue) ?_ more
      rw [hi]
      exact nofun

/-- A reader that comes while the cell is being filled sees nothing, and a second value is handed
back at once. -/
example :
    ((start [.set 1, .set 2, .get, .get]).run [0, 2, 1, 0, 0, 3, 3]).calls =
      [.set .stored, .set (.rejected 2), .get .absent, .get (.found (some 1))] := rfl

end CellUse

end PagedMemory
