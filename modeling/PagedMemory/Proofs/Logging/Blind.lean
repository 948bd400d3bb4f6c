import PagedMemory.Proofs.Agreement
import PagedMemory.System.Basic
/-!
# Programs that do not look at the log

A program is blind to the log if two runs of it from states that differ in the log only end in the
same way and leave states that again differ in the log only. Programs put together from such
programs are such programs, as long as nothing that is read decides by the log.

The thresholds of the two logs are part of what is kept, for a program may be blind to what the log
holds but not to what it keeps.
-/
namespace PagedMemory

/-- What two runs do to their states, however they end. -/
theorem Agree.ending_states {ε σ α : Type} {x x' : EStateM ε σ α} {s s' : σ} {R : σ → σ → Prop}
    (h : Agree (x s) (x' s') (fun _ => R) (fun _ => R)) :
    R (ending x s).2 (ending x' s').2 := by
  unfold ending
  unfold Agree at h
  cases hx : x s <;> cases hx' : x' s' <;> simp only [hx, hx'] at h ⊢
  · exact h.2
  · exact h.2

/-- Errors that are wrapped are the same errors. -/
theorem Agree.mapError_of_states {ε ε' σ α : Type} {f : ε → ε'} {x x' : Op ε σ α} {s s' : σ}
    {R : σ → σ → Prop} (h : Agree (x s) (x' s') (fun _ => R) (fun _ => R)) :
    Agree (Op.mapError f x s) (Op.mapError f x' s') (fun _ => R) (fun _ => R) := by
  refine Agree.mapError (h.mono (fun _ _ _ hR => hR) ?_)
  rintro (_ | _) _ _ hR <;> exact hR

/-- What a run has in common with itself. -/
theorem Agree.ends_self {ε σ α : Type} {x : EStateM ε σ α} {s : σ} {ok : α → σ → σ → Prop}
    {stop : ε → σ → σ → Prop} (h : Agree (x s) (x s) ok stop) :
    Ends x s (fun a t => ok a t t) (fun e t => stop e t t) := by
  unfold Ends
  unfold Agree at h
  cases hx : x s <;> simp only [hx] at h ⊢ <;> exact h.2

/-- States with a log that can be replaced. -/
class Logged (σ : Type) where
  log : σ → Log
  withLog : Log → σ → σ
  log_withLog (l : Log) (s : σ) : log (withLog l s) = l
  withLog_log (s : σ) : withLog (log s) s = s
  withLog_withLog (k l : Log) (s : σ) : withLog k (withLog l s) = withLog k s

open Logged (withLog)

instance {F : Type} : Logged (Store F) where
  log := Store.log
  withLog log s := { s with log }
  log_withLog _ _ := rfl
  withLog_log _ := rfl
  withLog_withLog _ _ _ := rfl

instance : Logged PagingStore where
  log s := s.store.log
  withLog log s := { s with store := withLog log s.store }
  log_withLog _ _ := rfl
  withLog_log _ := rfl
  withLog_withLog _ _ _ := rfl

instance : Logged HeapStore where
  log s := s.store.log
  withLog log s := { s with store := withLog log s.store }
  log_withLog _ _ := rfl
  withLog_log _ := rfl
  withLog_withLog _ _ _ := rfl

instance : Logged System where
  log := System.log
  withLog log s := { s with log }
  log_withLog _ _ := rfl
  withLog_log _ := rfl
  withLog_withLog _ _ _ := rfl

theorem Log.threshold_add (l : Log) (level : LogLevel) (text : Unit → String) :
    (l.add level text).threshold = l.threshold := by
  unfold Log.add
  split <;> rfl

/-- A line that is not kept changes nothing. -/
theorem Log.add_of_not_keeps {l : Log} {level : LogLevel} (h : l.keeps level = false)
    (text : Unit → String) : l.add level text = l :=
  if_neg (Bool.eq_false_iff.mp h)

/-- Whether a log with a threshold keeps the lines that tell of progress. -/
def informs (th : Option LogLevel) : Bool := (Log.empty th).keeps .info

theorem keeps_info (l : Log) : l.keeps .info = informs l.threshold := rfl

variable {ε ε' σ τ α β : Type} [Logged σ] [Logged τ] {th th' : Option LogLevel}

/-- Two states that differ in the log only, with the thresholds of their logs. -/
def SameButLog (th th' : Option LogLevel) (t t' : σ) : Prop :=
  ∃ u l l', l.threshold = th ∧ l'.threshold = th' ∧ t = withLog l u ∧ t' = withLog l' u

namespace SameButLog

variable {t t' : σ}

theorem withLog (s : σ) (l l' : Log) :
    SameButLog l.threshold l'.threshold (withLog l s) (withLog l' s) :=
  ⟨s, l, l', rfl, rfl, rfl, rfl⟩

theorem refl (t : σ) : SameButLog (Logged.log t).threshold (Logged.log t).threshold t t :=
  ⟨t, _, _, rfl, rfl, (Logged.withLog_log t).symm, (Logged.withLog_log t).symm⟩

theorem threshold_left (h : SameButLog th th' t t') : (Logged.log t).threshold = th := by
  obtain ⟨u, l, l', hl, -, rfl, -⟩ := h
  rw [Logged.log_withLog, hl]

theorem threshold_right (h : SameButLog th th' t t') : (Logged.log t').threshold = th' := by
  obtain ⟨u, l, l', -, hl', -, rfl⟩ := h
  rw [Logged.log_withLog, hl']

/-- Without their logs the states are the same. -/
theorem withLog_eq (h : SameButLog th th' t t') (k : Log) :
    Logged.withLog k t = Logged.withLog k t' := by
  obtain ⟨u, l, l', -, -, rfl, rfl⟩ := h
  rw [Logged.withLog_withLog, Logged.withLog_withLog]

theorem read {f : σ → τ} (hf : ∀ l s, f (Logged.withLog l s) = Logged.withLog l (f s))
    (h : SameButLog th th' t t') : SameButLog th th' (f t) (f t') := by
  obtain ⟨u, l, l', hl, hl', rfl, rfl⟩ := h
  exact ⟨f u, l, l', hl, hl', hf l u, hf l' u⟩

/-- What a part becomes is put back. -/
theorem write {f : τ → σ → σ} {p p' : τ}
    (hf : ∀ l k p s, f (Logged.withLog l p) (Logged.withLog k s) = Logged.withLog l (f p s))
    (h : SameButLog th th' t t') (hp : SameButLog th th' p p') :
    SameButLog th th' (f p t) (f p' t') := by
  obtain ⟨u, k, k', -, -, rfl, rfl⟩ := h
  obtain ⟨v, l, l', hl, hl', rfl, rfl⟩ := hp
  exact ⟨f v u, l, l', hl, hl', hf .., hf ..⟩

theorem agree_onPart {read : σ → τ} {write : τ → σ → σ} {x : EStateM ε τ α}
    (hwrite : ∀ l k p s, write (Logged.withLog l p) (Logged.withLog k s) =
      Logged.withLog l (write p s))
    (ht : SameButLog th th' t t')
    (h : Agree (x (read t)) (x (read t')) (fun _ => SameButLog th th')
      (fun _ => SameButLog th th')) :
    Agree (onPart read write x t) (onPart read write x t') (fun _ => SameButLog th th')
      (fun _ => SameButLog th th') :=
  Agree.onPart (h.mono (fun _ _ _ hp => ht.write hwrite hp) fun _ _ _ hp => ht.write hwrite hp)

end SameButLog

/-- Whatever is in the log, a program does the same. -/
structure LogBlind (th th' : Option LogLevel) (x : EStateM ε σ α) : Prop where
  agree : ∀ t t', SameButLog th th' t t' →
    Agree (x t) (x t') (fun _ => SameButLog th th') (fun _ => SameButLog th th')

/-- A result with the log of its state replaced. -/
def relog (l : Log) : EStateM.Result ε σ α → EStateM.Result ε σ α
  | .ok a t => .ok a (withLog l t)
  | .error e t => .error e (withLog l t)

namespace LogBlind

/-- A program that leaves the log alone. -/
theorem of_relog {x : EStateM ε σ α} (h : ∀ l s, x (withLog l s) = relog l (x s)) :
    LogBlind th th' x := by
  constructor
  rintro t t' ⟨u, l, l', hl, hl', rfl, rfl⟩
  rw [h, h]
  cases x u with
  | ok a v => exact ⟨rfl, v, l, l', hl, hl', rfl, rfl⟩
  | error e v => exact ⟨rfl, v, l, l', hl, hl', rfl, rfl⟩

theorem value (a : α) : LogBlind th th' (pure a : EStateM ε σ α) := .of_relog fun _ _ => rfl

theorem fail (e : ε) : LogBlind th th' (Op.fail e : Op ε σ α) := .of_relog fun _ _ => rfl

theorem fail_bind (e : ε) (f : α → Op ε σ β) : LogBlind th th' (Op.fail e >>= f) :=
  .of_relog fun _ _ => rfl

theorem check (c : Except Fault α) : LogBlind th th' (Op.ofCheck c : Op ε σ α) := by
  cases c <;> exact .of_relog fun _ _ => rfl

theorem changes {g : σ → σ} (h : ∀ l s, g (withLog l s) = withLog l (g s)) :
    LogBlind th th' (modify g : EStateM ε σ PUnit) :=
  .of_relog fun l s => congrArg (EStateM.Result.ok PUnit.unit) (h l s)

theorem bind {x : EStateM ε σ α} {f : α → EStateM ε σ β} (hx : LogBlind th th' x)
    (hf : ∀ a, LogBlind th th' (f a)) : LogBlind th th' (x >>= f) :=
  ⟨fun t t' h => Agree.bind (hx.agree t t' h) fun a u u' hu => (hf a).agree u u' hu⟩

/-- What is read does not tell the log. -/
theorem get_bind {f : σ → EStateM ε σ β} (hread : ∀ l s, f (withLog l s) = f s)
    (hf : ∀ s, LogBlind th th' (f s)) : LogBlind th th' (get >>= f) := by
  constructor
  rintro t t' ⟨u, l, l', hl, hl', rfl, rfl⟩
  rw [Agree.get_bind_iff, hread, hread]
  exact (hf u).agree _ _ ⟨u, l, l', hl, hl', rfl, rfl⟩

theorem updateRam {F : Type} (g : Ram → Ram) :
    LogBlind th th' (Store.updateRam g : EStateM ε (Store F) Unit) := .of_relog fun _ _ => rfl

/-- Lines differ, but nothing else does. -/
theorem of_line {x : EStateM ε σ Unit} {level : LogLevel} {text : Unit → String}
    (h : ∀ t, x t = .ok () (withLog ((Logged.log t).add level text) t)) : LogBlind th th' x := by
  constructor
  rintro _ _ ⟨u, l, l', rfl, rfl, rfl, rfl⟩
  rw [h, h]
  simp only [Logged.log_withLog, Logged.withLog_withLog]
  exact ⟨rfl, u, _, _, Log.threshold_add .., Log.threshold_add .., rfl, rfl⟩

theorem logLine {F : Type} (level : LogLevel) (text : Unit → String) :
    LogBlind th th' (Store.logLine level text : EStateM ε (Store F) Unit) := of_line fun _ => rfl

theorem ofStep {x : Step σ α} (h : LogBlind th th' x) :
    LogBlind th th' (Op.ofStep x : Op ε σ α) :=
  ⟨fun t t' ht => Agree.ofStep (h.agree t t' ht)⟩

theorem mapError {f : ε → ε'} {x : Op ε σ α} (h : LogBlind th th' x) :
    LogBlind th th' (Op.mapError f x) :=
  ⟨fun t t' ht => Agree.mapError_of_states (h.agree t t' ht)⟩

theorem toOption {x : Op ε σ α} (h : LogBlind th th' x) : LogBlind th th' x.toOption := by
  constructor
  intro t t' ht
  refine Agree.toOption ((h.agree t t' ht).mono (fun _ _ _ hu => hu) ?_)
  rintro (_ | _) _ _ hu <;> exact hu

/-- A program on a part of the state that has the log in it. -/
theorem onPart {read : σ → τ} {write : τ → σ → σ} {x : EStateM ε τ α}
    (hread : ∀ l s, read (withLog l s) = withLog l (read s))
    (hwrite : ∀ l k t s, write (withLog l t) (withLog k s) = withLog l (write t s))
    (h : LogBlind th th' x) : LogBlind th th' (onPart read write x) :=
  ⟨fun _ _ ht => ht.agree_onPart hwrite (h.agree _ _ (ht.read hread))⟩

end LogBlind

/-! ## Runs -/

/-- Runs programs one after the other, however each of them ends, and keeps how they ended. -/
def endings : List (EStateM ε σ α) → σ → List (Except ε α) × σ
  | [], s => ([], s)
  | x :: rest, s =>
    let (reply, t) := ending x s
    let (replies, u) := endings rest t
    (reply :: replies, u)

/-- What can be seen of a run without a look at the log: how its programs ended, and what they
left. -/
def seen (xs : List (EStateM ε σ α)) (s : σ) : List (Except ε α) × σ :=
  ((endings xs s).1, withLog (.empty none) (endings xs s).2)

theorem seen_cons (x : EStateM ε σ α) (xs : List (EStateM ε σ α)) (s : σ) :
    seen (x :: xs) s =
      ((ending x s).1 :: (seen xs (ending x s).2).1, (seen xs (ending x s).2).2) := rfl

/-- A run is seen to differ as soon as one of its programs ends differently. -/
theorem seen_cons_eq_iff {x : EStateM ε σ α} {xs : List (EStateM ε σ α)} {t t' : σ} :
    seen (x :: xs) t = seen (x :: xs) t' ↔ (ending x t).1 = (ending x t').1 ∧
      seen xs (ending x t).2 = seen xs (ending x t').2 := by
  rw [seen_cons, seen_cons, Prod.mk.injEq, List.cons.injEq, and_assoc, ← Prod.ext_iff]

/-- Nothing is seen of the logs. -/
theorem LogBlind.seen_eq {xs : List (EStateM ε σ α)} (h : ∀ x ∈ xs, LogBlind th th' x) {t t' : σ}
    (ht : SameButLog th th' t t') : seen xs t = seen xs t' := by
  induction xs generalizing t t' with
  | nil => exact congrArg ([], ·) (ht.withLog_eq _)
  | cons x rest ih =>
    obtain ⟨hx, hrest⟩ := List.forall_mem_cons.mp h
    have hagree := hx.agree t t' ht
    exact seen_cons_eq_iff.mpr ⟨hagree.ending_eq.symm, ih hrest hagree.ending_states⟩

end PagedMemory
