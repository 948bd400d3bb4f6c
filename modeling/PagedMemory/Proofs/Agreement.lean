import PagedMemory.Proofs.Endings
/-!
# Results that agree

Two runs of a program agree if both return the same value or both stop in the same way. `Agree` says
that of two results, together with what relates the states that the runs leave. The two runs may
start in different states, so what one step reads may be the cause of different steps after it; the
rules go through two programs side by side and compare their values as they come.
-/
namespace PagedMemory

variable {ε ε' σ τ α β : Type}

/-- Two results have the same value or the same cause, and related states. -/
def Agree (r r' : EStateM.Result ε σ α) (ok : α → σ → σ → Prop) (stop : ε → σ → σ → Prop) : Prop :=
  match r, r' with
  | .ok a t, .ok b t' => a = b ∧ ok a t t'
  | .error e t, .error f t' => e = f ∧ stop e t t'
  | _, _ => False

namespace Agree

variable {x x' : EStateM ε σ α} {s s' : σ}
variable {ok ok' : α → σ → σ → Prop} {stop stop' : ε → σ → σ → Prop}

theorem mono {r r' : EStateM.Result ε σ α} (h : Agree r r' ok stop)
    (hok : ∀ a t t', ok a t t' → ok' a t t') (hstop : ∀ e t t', stop e t t' → stop' e t t') :
    Agree r r' ok' stop' := by
  cases r <;> cases r' <;> unfold Agree at h ⊢
  · exact ⟨h.1, hok _ _ _ h.2⟩
  · exact h
  · exact h
  · exact ⟨h.1, hstop _ _ _ h.2⟩

theorem bind {f f' : α → EStateM ε σ β} {p : α → σ → σ → Prop} {last : β → σ → σ → Prop}
    (h : Agree (x s) (x' s') p stop)
    (hf : ∀ a t t', p a t t' → Agree (f a t) (f' a t') last stop) :
    Agree ((x >>= f) s) ((x' >>= f') s') last stop := by
  simp only [Bind.bind, EStateM.bind]
  unfold Agree at h
  cases hx : x s <;> cases hx' : x' s' <;> simp only [hx, hx'] at h ⊢
  · obtain ⟨rfl, h⟩ := h
    exact hf _ _ _ h
  · exact h

/-- First steps whose results are known are run. -/
theorem bind_of_ok {f f' : α → EStateM ε σ β} {a : α} {t t' : σ} {last : β → σ → σ → Prop}
    (hx : x s = .ok a t) (hx' : x' s' = .ok a t') (h : Agree (f a t) (f' a t') last stop) :
    Agree ((x >>= f) s) ((x' >>= f') s') last stop := by
  simpa only [Bind.bind, EStateM.bind, hx, hx'] using h

theorem of_ok {a : α} {t t' : σ} (hx : x s = .ok a t) (hx' : x' s' = .ok a t') (h : ok a t t') :
    Agree (x s) (x' s') ok stop := by
  rw [hx, hx']
  exact ⟨rfl, h⟩

theorem of_error {e : ε} {t t' : σ} (hx : x s = .error e t) (hx' : x' s' = .error e t')
    (h : stop e t t') : Agree (x s) (x' s') ok stop := by
  rw [hx, hx']
  exact ⟨rfl, h⟩

/-- Runs that are described each on its own agree if the descriptions leave no choice. -/
theorem of_ends {p p' : α → σ → Prop} {q q' : ε → σ → Prop} (h : Ends x s p q)
    (h' : Ends x' s' p' q') (hok : ∀ a t b t', p a t → p' b t' → a = b ∧ ok a t t')
    (hstop : ∀ e t f t', q e t → q' f t' → e = f ∧ stop e t t')
    (hleft : ∀ a t f t', p a t → ¬ q' f t') (hright : ∀ e t b t', q e t → ¬ p' b t') :
    Agree (x s) (x' s') ok stop := by
  unfold Ends at h h'
  cases hx : x s <;> cases hx' : x' s' <;> simp only [hx, hx'] at h h'
  · exact hok _ _ _ _ h h'
  · exact hleft _ _ _ _ h h'
  · exact hright _ _ _ _ h h'
  · exact hstop _ _ _ _ h h'

/-- What is known of the first run is known of its state. -/
theorem with_ends {p : α → σ → Prop} {q : ε → σ → Prop} (h : Agree (x s) (x' s') ok stop)
    (hx : Ends x s p q) : Agree (x s) (x' s') (fun a t t' => ok a t t' ∧ p a t)
      (fun e t t' => stop e t t' ∧ q e t) := by
  unfold Ends at hx
  unfold Agree at h ⊢
  cases hx' : x s <;> cases hx'' : x' s' <;> simp only [hx', hx''] at h hx ⊢
  · exact ⟨h.1, h.2, hx⟩
  · exact ⟨h.1, h.2, hx⟩

/-- Runs that agree end in the same way. -/
theorem ending_eq (h : Agree (x s) (x' s') ok stop) : (ending x' s').1 = (ending x s).1 := by
  unfold ending
  unfold Agree at h
  cases hx : x s <;> cases hx' : x' s' <;> simp only [hx, hx'] at h ⊢
  · rw [h.1]
  · rw [h.1]

/-! ## Programs on parts and with other errors -/

theorem onPart {read : σ → τ} {write : τ → σ → σ} {x x' : EStateM ε τ α}
    (h : Agree (x (read s)) (x' (read s')) (fun a t t' => ok a (write t s) (write t' s'))
      (fun e t t' => stop e (write t s) (write t' s'))) :
    Agree (onPart read write x s) (PagedMemory.onPart read write x' s') ok stop := by
  unfold PagedMemory.onPart
  unfold Agree at h ⊢
  cases hx : x (read s) <;> cases hx' : x' (read s') <;> simp only [hx, hx'] at h ⊢
  · exact h
  · exact h

theorem ofStep {x x' : Step σ α} {stop : Stop ε → σ → σ → Prop}
    (h : Agree (x s) (x' s') ok fun f t t' => stop (.fault f) t t') :
    Agree ((Op.ofStep x : Op ε σ α) s) ((Op.ofStep x' : Op ε σ α) s') ok stop := by
  unfold Op.ofStep EStateM.adaptExcept
  unfold Agree at h ⊢
  cases hx : x s <;> cases hx' : x' s' <;> simp only [hx, hx'] at h ⊢
  · exact h
  · exact ⟨congrArg Stop.fault h.1, h.2⟩

theorem mapError {f : ε → ε'} {x x' : Op ε σ α} {stop : Stop ε' → σ → σ → Prop}
    (h : Agree (x s) (x' s') ok fun
      | .error e => stop (.error (f e))
      | .fault g => stop (.fault g)) :
    Agree (Op.mapError f x s) (Op.mapError f x' s') ok stop := by
  unfold Op.mapError EStateM.adaptExcept
  unfold Agree at h ⊢
  cases hx : x s <;> cases hx' : x' s' <;> simp only [hx, hx'] at h ⊢
  · exact h
  · obtain ⟨rfl, h⟩ := h
    rename_i e _ _
    cases e <;> exact ⟨rfl, h⟩

theorem toOption {x x' : Op ε σ α} {ok : Option α → σ → σ → Prop} {stop : Fault → σ → σ → Prop}
    (h : Agree (x s) (x' s') (fun a => ok (some a)) fun
      | .error _ => ok none
      | .fault g => stop g) :
    Agree (x.toOption s) (x'.toOption s') ok stop := by
  unfold Op.toOption
  unfold Agree at h ⊢
  cases hx : x s <;> cases hx' : x' s' <;> simp only [hx, hx'] at h ⊢
  · exact ⟨congrArg some h.1, h.2⟩
  · obtain ⟨rfl, h⟩ := h
    rename_i e _ _
    cases e <;> exact ⟨rfl, h⟩

/-! ## Single steps -/

@[simp] theorem pure_iff {a : α} :
    Agree ((pure a : EStateM ε σ α) s) ((pure a : EStateM ε σ α) s') ok stop ↔ ok a s s' :=
  and_iff_right rfl

@[simp] theorem fail_bind_iff {e : ε} {f f' : α → Op ε σ β} {last : β → σ → σ → Prop}
    {stop : Stop ε → σ → σ → Prop} :
    Agree ((Op.fail e >>= f) s) ((Op.fail e >>= f') s') last stop ↔ stop (.error e) s s' :=
  and_iff_right rfl

@[simp] theorem get_bind_iff {f f' : σ → EStateM ε σ β} {last : β → σ → σ → Prop} :
    Agree ((get >>= f) s) ((get >>= f') s') last stop ↔ Agree (f s s) (f' s' s') last stop :=
  Iff.rfl

@[simp] theorem modify_bind_iff {g g' : σ → σ} {f f' : PUnit → EStateM ε σ β}
    {last : β → σ → σ → Prop} :
    Agree ((modify g >>= f) s) ((modify g' >>= f') s') last stop ↔
      Agree (f ⟨⟩ (g s)) (f' ⟨⟩ (g' s')) last stop := Iff.rfl

@[simp] theorem updateRam_iff {F : Type} {s s' : Store F} {g g' : Ram → Ram}
    {ok : Unit → Store F → Store F → Prop} {stop : ε → Store F → Store F → Prop} :
    Agree (Store.updateRam g s) (Store.updateRam g' s') ok stop ↔
      ok () { s with ram := g s.ram } { s' with ram := g' s'.ram } := and_iff_right rfl

@[simp] theorem updateRam_bind_iff {F : Type} {s s' : Store F} {g g' : Ram → Ram}
    {f f' : Unit → EStateM ε (Store F) β} {last : β → Store F → Store F → Prop}
    {stop : ε → Store F → Store F → Prop} :
    Agree ((Store.updateRam g >>= f) s) ((Store.updateRam g' >>= f') s') last stop ↔
      Agree (f () { s with ram := g s.ram }) (f' () { s' with ram := g' s'.ram }) last stop :=
  Iff.rfl

@[simp] theorem logLine_bind_iff {F : Type} {s s' : Store F} {level level' : LogLevel}
    {text text' : Unit → String} {f f' : Unit → EStateM ε (Store F) β}
    {last : β → Store F → Store F → Prop} {stop : ε → Store F → Store F → Prop} :
    Agree ((Store.logLine level text >>= f) s) ((Store.logLine level' text' >>= f') s') last stop ↔
      Agree (f () { s with log := s.log.add level text })
        (f' () { s' with log := s'.log.add level' text' }) last stop := Iff.rfl

@[simp] theorem check_ok_bind_iff {a a' : α} {f f' : α → Op ε σ β} {last : β → σ → σ → Prop}
    {stop : Stop ε → σ → σ → Prop} :
    Agree ((Op.ofCheck (.ok a) >>= f) s) ((Op.ofCheck (.ok a') >>= f') s') last stop ↔
      Agree (f a s) (f' a' s') last stop := Iff.rfl

@[simp] theorem check_error_bind_iff {g : Fault} {f f' : α → Op ε σ β} {last : β → σ → σ → Prop}
    {stop : Stop ε → σ → σ → Prop} :
    Agree ((Op.ofCheck (.error g) >>= f) s) ((Op.ofCheck (.error g) >>= f') s') last stop ↔
      stop (.fault g) s s' := and_iff_right rfl

end Agree

end PagedMemory
