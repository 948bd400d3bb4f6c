import Mathlib
import PagedMemory.Store
/-!
# Endings of programs

`Ends x s ok stop` says what a program does from a state: it returns a value that meets `ok` or
stops in a way that meets `stop`, each together with the state that it leaves. A property of a
program is put together from those of its steps by `Ends.bind`; the other rules evaluate one step.
`ending` is the result itself, for statements about what a caller gets to see.
-/
namespace PagedMemory

variable {ε ε' σ τ α β : Type}

theorem Op.ofStep_of_ok {x : Step σ α} {s t : σ} {a : α} (h : x s = .ok a t) :
    Op.ofStep (ε := ε) x s = .ok a t := by
  rw [Op.ofStep, EStateM.adaptExcept, h]

/-- What a program gives, or why it stops, and the state that it leaves. -/
def ending (x : EStateM ε σ α) (s : σ) : Except ε α × σ :=
  match x s with
  | .ok a t => (.ok a, t)
  | .error e t => (.error e, t)

/-- What a program does from a state, however it ends. -/
def Ends (x : EStateM ε σ α) (s : σ) (ok : α → σ → Prop) (stop : ε → σ → Prop) : Prop :=
  match x s with
  | .ok a t => ok a t
  | .error e t => stop e t

instance {x : EStateM ε σ α} {s : σ} {ok : α → σ → Prop} {stop : ε → σ → Prop}
    [∀ a t, Decidable (ok a t)] [∀ e t, Decidable (stop e t)] : Decidable (Ends x s ok stop) :=
  match hx : x s with
  | .ok a t => decidable_of_iff (ok a t) (by rw [Ends, hx])
  | .error e t => decidable_of_iff (stop e t) (by rw [Ends, hx])

namespace Ends

variable {s : σ} {ok ok' : α → σ → Prop} {stop stop' : ε → σ → Prop}

theorem mono {x : EStateM ε σ α} (h : Ends x s ok stop) (hok : ∀ a t, ok a t → ok' a t)
    (hstop : ∀ e t, stop e t → stop' e t) : Ends x s ok' stop' := by
  unfold Ends at *
  split
  · rename_i a t hx
    rw [hx] at h
    exact hok a t h
  · rename_i e t hx
    rw [hx] at h
    exact hstop e t h

/-- Two descriptions of one run hold together. -/
theorem and {x : EStateM ε σ α} (h : Ends x s ok stop) (h' : Ends x s ok' stop') :
    Ends x s (fun a t => ok a t ∧ ok' a t) (fun e t => stop e t ∧ stop' e t) := by
  unfold Ends at *
  cases hx : x s <;> simp only [hx] at h h' ⊢ <;> exact ⟨h, h'⟩

theorem bind {x : EStateM ε σ α} {f : α → EStateM ε σ β} {p : α → σ → Prop}
    {last : β → σ → Prop} (h : Ends x s p stop) (hf : ∀ a t, p a t → Ends (f a) t last stop) :
    Ends (x >>= f) s last stop := by
  unfold Ends at h ⊢
  simp only [Bind.bind, EStateM.bind]
  cases hx : x s with
  | ok a t =>
    rw [hx] at h
    exact hf a t h
  | error e t =>
    rw [hx] at h
    exact h

/-- What each step does to the state, however it ends, all of them do one after the other. -/
theorem bind_trans {R : σ → σ → Prop} (trans : ∀ {s t u}, R s t → R t u → R s u)
    {x : EStateM ε σ α} {f : α → EStateM ε σ β} (hx : Ends x s (fun _ => R s) (fun _ => R s))
    (hf : ∀ a t, Ends (f a) t (fun _ => R t) (fun _ => R t)) :
    Ends (x >>= f) s (fun _ => R s) (fun _ => R s) :=
  bind hx fun a t ht => (hf a t).mono (fun _ _ => trans ht) fun _ _ => trans ht

/-- A first step whose result is known is run. -/
theorem bind_of_ok {x : EStateM ε σ α} {f : α → EStateM ε σ β} {a : α} {t : σ}
    {last : β → σ → Prop} (hx : x s = .ok a t) (h : Ends (f a) t last stop) :
    Ends (x >>= f) s last stop := by
  unfold Ends at h ⊢
  simpa only [Bind.bind, EStateM.bind, hx] using h

/-- What a program does is read off its result. -/
theorem of_ok {x : EStateM ε σ α} {a : α} {t : σ} (h : Ends x s ok stop) (hx : x s = .ok a t) :
    ok a t := by
  unfold Ends at h
  rwa [hx] at h

/-- What is known of a value by other means may be used to say what it meets. -/
theorem mono_of_ok {x : EStateM ε σ α} (h : Ends x s ok stop)
    (hok : ∀ a t, x s = .ok a t → ok a t → ok' a t) : Ends x s ok' stop := by
  unfold Ends at *
  split
  · rename_i a t hx
    rw [hx] at h
    exact hok a t hx h
  · rename_i e t hx
    rwa [hx] at h

theorem of_error {x : EStateM ε σ α} {e : ε} {t : σ} (h : Ends x s ok stop)
    (hx : x s = .error e t) : stop e t := by
  unfold Ends at h
  rwa [hx] at h

theorem of_eq_ok {x : EStateM ε σ α} {a : α} {t : σ} (hx : x s = .ok a t) (h : ok a t) :
    Ends x s ok stop := by
  unfold Ends
  rwa [hx]

theorem of_eq_error {x : EStateM ε σ α} {e : ε} {t : σ} (hx : x s = .error e t) (h : stop e t) :
    Ends x s ok stop := by
  unfold Ends
  rwa [hx]

/-- What holds however a program ends holds of its ending. -/
theorem ending {x : EStateM ε σ α} {p : Except ε α × σ → Prop}
    (h : Ends x s (fun a t => p (.ok a, t)) (fun e t => p (.error e, t))) :
    p (ending x s) := by
  unfold Ends at h
  unfold PagedMemory.ending
  cases hx : x s <;> simpa [hx] using h

/-- A program that never stops returns a value. -/
theorem exists_ok {x : EStateM ε σ α} (h : Ends x s ok (fun _ _ => False)) :
    ∃ a t, x s = .ok a t ∧ ok a t := by
  unfold Ends at h
  cases hx : x s with
  | ok a t =>
    rw [hx] at h
    exact ⟨a, t, rfl, h⟩
  | error e t =>
    rw [hx] at h
    exact h.elim

/-- A program that never returns a value stops. -/
theorem exists_error {x : EStateM ε σ α} (h : Ends x s (fun _ _ => False) stop) :
    ∃ e t, x s = .error e t ∧ stop e t := by
  unfold Ends at h
  cases hx : x s with
  | ok a t =>
    rw [hx] at h
    exact h.elim
  | error e t =>
    rw [hx] at h
    exact ⟨e, t, rfl, h⟩

/-- A program on a part of the state ends as it does on the part alone. -/
theorem onPart {read : σ → τ} {write : τ → σ → σ} {x : EStateM ε τ α}
    (h : Ends x (read s) (fun a t => ok a (write t s)) (fun e t => stop e (write t s))) :
    Ends (onPart read write x) s ok stop := by
  unfold Ends at h ⊢
  unfold PagedMemory.onPart
  cases hx : x (read s) <;> simpa [hx] using h

/-- What holds of every state that is put back. -/
theorem onPart_of_write {read : σ → τ} {write : τ → σ → σ} {x : EStateM ε τ α} {p : σ → Prop}
    (h : ∀ t, p (write t s)) :
    Ends (PagedMemory.onPart read write x) s (fun _ => p) (fun _ => p) := by
  unfold Ends PagedMemory.onPart
  cases x (read s) <;> exact h _

theorem ofStep {x : Step σ α} {stop : Stop ε → σ → Prop}
    (h : Ends x s ok (fun f t => stop (.fault f) t)) : Ends (Op.ofStep x) s ok stop := by
  unfold Ends at h ⊢
  unfold Op.ofStep EStateM.adaptExcept
  cases hx : x s <;> simpa [hx] using h

theorem mapError {f : ε → ε'} {x : Op ε σ α} {stop : Stop ε' → σ → Prop}
    (h : Ends x s ok fun
      | .error e, t => stop (.error (f e)) t
      | .fault g, t => stop (.fault g) t) : Ends (Op.mapError f x) s ok stop := by
  unfold Ends at h ⊢
  unfold Op.mapError EStateM.adaptExcept
  cases hx : x s with
  | ok a t => simpa [hx] using h
  | error e t => cases e <;> simpa [hx] using h

theorem toOption {x : Op ε σ α} {ok : Option α → σ → Prop} {stop : Fault → σ → Prop}
    (h : Ends x s (fun a t => ok (some a) t) fun
      | .error _, t => ok none t
      | .fault g, t => stop g t) : Ends x.toOption s ok stop := by
  unfold Ends at h ⊢
  unfold Op.toOption
  cases hx : x s with
  | ok a t => simpa [hx] using h
  | error e t => cases e <;> simpa [hx] using h

@[simp] theorem pure_iff {a : α} : Ends (pure a : EStateM ε σ α) s ok stop ↔ ok a s := Iff.rfl

@[simp] theorem fail_iff {e : ε} {stop : Stop ε → σ → Prop} :
    Ends (Op.fail e : Op ε σ α) s ok stop ↔ stop (.error e) s := Iff.rfl

@[simp] theorem get_bind_iff {f : σ → EStateM ε σ β} {last : β → σ → Prop} :
    Ends (get >>= f) s last stop ↔ Ends (f s) s last stop := Iff.rfl

@[simp] theorem modify_bind_iff {g : σ → σ} {f : PUnit → EStateM ε σ β} {last : β → σ → Prop} :
    Ends (modify g >>= f) s last stop ↔ Ends (f ⟨⟩) (g s) last stop := Iff.rfl

@[simp] theorem updateRam_iff {F : Type} {s : Store F} {g : Ram → Ram}
    {ok : Unit → Store F → Prop} {stop : ε → Store F → Prop} :
    Ends (Store.updateRam g) s ok stop ↔ ok () { s with ram := g s.ram } := Iff.rfl

@[simp] theorem updateRam_bind_iff {F : Type} {s : Store F} {g : Ram → Ram}
    {f : Unit → EStateM ε (Store F) β} {last : β → Store F → Prop} {stop : ε → Store F → Prop} :
    Ends (Store.updateRam g >>= f) s last stop ↔
      Ends (f ()) { s with ram := g s.ram } last stop := Iff.rfl

@[simp] theorem logLine_bind_iff {F : Type} {s : Store F} {level : LogLevel}
    {text : Unit → String} {f : Unit → EStateM ε (Store F) β} {last : β → Store F → Prop}
    {stop : ε → Store F → Prop} :
    Ends (Store.logLine level text >>= f) s last stop ↔
      Ends (f ()) { s with log := s.log.add level text } last stop := Iff.rfl

@[simp] theorem fail_bind_iff {e : ε} {f : α → Op ε σ β} {last : β → σ → Prop}
    {stop : Stop ε → σ → Prop} :
    Ends (Op.fail e >>= f) s last stop ↔ stop (.error e) s := Iff.rfl

@[simp] theorem check_ok_bind_iff {a : α} {f : α → Op ε σ β} {last : β → σ → Prop}
    {stop : Stop ε → σ → Prop} :
    Ends (Op.ofCheck (.ok a) >>= f) s last stop ↔ Ends (f a) s last stop := Iff.rfl

@[simp] theorem check_error_bind_iff {g : Fault} {f : α → Op ε σ β} {last : β → σ → Prop}
    {stop : Stop ε → σ → Prop} :
    Ends (Op.ofCheck (.error g) >>= f) s last stop ↔ stop (.fault g) s := Iff.rfl

end Ends

end PagedMemory
