import PagedMemory.Proofs.Endings
import PagedMemory.Heap.Basic
/-!
# Arithmetic on machine words

Sums, differences and products of words as a machine works them out that checks them: a result
that is no word is a fault. Rounding is made of these. Where the results are words, as they are
for the sizes that a heap rounds, all of this is the arithmetic of natural numbers. At the end are
the rules by which a program with such checks is seen to do what it does without them.
-/
namespace PagedMemory

namespace Word

def add (a b : Nat) : Except Fault Nat :=
  if a + b < 2 ^ 64 then .ok (a + b) else .error .addOverflow

def sub (a b : Nat) : Except Fault Nat :=
  if b ≤ a then .ok (a - b) else .error .subOverflow

def mul (a b : Nat) : Except Fault Nat :=
  if a * b < 2 ^ 64 then .ok (a * b) else .error .mulOverflow

/-- The sum, or the largest word if the sum is no word. -/
def saturatingAdd (a b : Nat) : Nat := min (a + b) (2 ^ 64 - 1)

/-- The quotient, and one more if there is a remainder. -/
def divCeil (n d : Nat) : Except Fault Nat := if n % d = 0 then .ok (n / d) else add (n / d) 1

/-- The number itself or what is missing to the next multiple added to it; there is none if that sum
is no word. -/
def nextMultiple? (n step : Nat) : Except Fault (Option Nat) :=
  if n % step = 0 then .ok (some n) else do
    let gap ← sub step (n % step)
    return if n + gap < 2 ^ 64 then some (n + gap) else none

variable {a b n : Nat}

theorem add_eq (h : a + b < 2 ^ 64) : add a b = .ok (a + b) := if_pos h

theorem sub_eq (h : b ≤ a) : sub a b = .ok (a - b) := if_pos h

theorem mul_eq (h : a * b < 2 ^ 64) : mul a b = .ok (a * b) := if_pos h

theorem divCeil_frameSize (h : n < 2 ^ 64) :
    divCeil n frameSize = .ok ((n + (frameSize - 1)) / frameSize) := by
  rw [divCeil]
  by_cases hzero : n % frameSize = 0
  · have hquotient : n / frameSize = (n + (frameSize - 1)) / frameSize := by
      simp only [frameSize] at hzero ⊢
      omega
    rw [if_pos hzero, hquotient]
  · have hquotient : n / frameSize + 1 = (n + (frameSize - 1)) / frameSize := by
      simp only [frameSize] at hzero ⊢
      omega
    rw [if_neg hzero, add_eq, hquotient]
    simp only [frameSize]
    omega

/-- Rounding up to a multiple gives none just in case the multiple is no word. -/
theorem nextMultiple?_heapAlign (h : n < 2 ^ 64) : nextMultiple? n heapAlign =
    .ok (if Heap.roundUp n heapAlign < 2 ^ 64 then some (Heap.roundUp n heapAlign) else none) := by
  have hlt : n % heapAlign < heapAlign := Nat.mod_lt n (by decide)
  rw [nextMultiple?]
  by_cases hzero : n % heapAlign = 0
  · have hround : Heap.roundUp n heapAlign = n := by
      simp only [Heap.roundUp, heapAlign] at hzero ⊢
      omega
    rw [if_pos hzero, hround, if_pos h]
  · have hround : n + (heapAlign - n % heapAlign) = Heap.roundUp n heapAlign := by
      simp only [Heap.roundUp, heapAlign] at hzero hlt ⊢
      omega
    rw [if_neg hzero, sub_eq (Nat.le_of_lt hlt), ← hround]
    rfl

example : nextMultiple? (2 ^ 64 - 1) heapAlign = .ok none := rfl

end Word

/-! ## The sizes of a heap -/

namespace Heap

variable {size payload : Nat}

/-- A request is rounded up without a fault, whatever its size. -/
theorem nextMultiple?_eq (h : size < 2 ^ 64) :
    Word.nextMultiple? (max size 1) heapAlign = .ok (payloadFor? size) :=
  Word.nextMultiple?_heapAlign (by omega)

/-- So is the number of frames for a payload with its header. -/
theorem divCeil_eq (payload : Nat) :
    Word.divCeil (Word.saturatingAdd payload headerSize) frameSize = .ok (framesFor payload) :=
  Word.divCeil_frameSize (by rw [Word.saturatingAdd]; omega)

end Heap

/-! ## Programs with checks -/

/-- Ends with a fault if the check gave one. -/
def Step.ofCheck {σ α : Type} : Except Fault α → Step σ α
  | .ok a => pure a
  | .error f => throw f

/-- A check that was passed is a step of no effect. -/
theorem Step.ofCheck_ok_bind {σ α β : Type} (a : α) (f : α → Step σ β) :
    Step.ofCheck (.ok a) >>= f = f a := rfl

theorem Op.ofCheck_ok_bind {ε σ α β : Type} (a : α) (f : α → Op ε σ β) :
    Op.ofCheck (.ok a) >>= f = f a := rfl

/-- A program that begins as another one does, and goes on as that one, does the same. -/
theorem bind_congr_at {ε σ α β : Type} {x y : EStateM ε σ α} {f g : α → EStateM ε σ β} {s : σ}
    (hxy : x s = y s) (hfg : ∀ a t, y s = .ok a t → f a t = g a t) :
    (x >>= f) s = (y >>= g) s := by
  simp only [bind, EStateM.bind, hxy]
  cases hy : y s with
  | ok a t => exact hfg a t hy
  | error e t => rfl

/-- A first step whose result is known is run in both. -/
theorem bind_congr_of_ok {ε σ α β : Type} {x : EStateM ε σ α} {f g : α → EStateM ε σ β} {s t : σ}
    {a : α} (hx : x s = .ok a t) (hfg : f a t = g a t) : (x >>= f) s = (x >>= g) s := by
  simpa only [bind, EStateM.bind, hx] using hfg

/-- To count on from a number comes to the same as to add it at the end. -/
theorem map_eq_map_bind {ε σ α β γ : Type} {f : α → γ} {g : β → γ} {h : α → β}
    (hfg : ∀ a, f a = g (h a)) (x : EStateM ε σ α) :
    f <$> x = g <$> (x >>= fun a => pure (h a)) := by
  rw [map_bind, map_eq_pure_bind]
  refine bind_congr fun a => ?_
  rw [map_pure, hfg a]

theorem onPart_congr_at {ε σ τ α : Type} {read : σ → τ} {write : τ → σ → σ} {x y : EStateM ε τ α}
    {s : σ} (h : x (read s) = y (read s)) : onPart read write x s = onPart read write y s := by
  rw [onPart, onPart, h]

theorem Op.ofStep_congr_at {ε σ α : Type} {x y : Step σ α} {s : σ} (h : x s = y s) :
    (Op.ofStep x : Op ε σ α) s = Op.ofStep y s := by
  rw [ofStep, ofStep, EStateM.adaptExcept, EStateM.adaptExcept, h]

theorem Op.toOption_congr_at {ε σ α : Type} {x y : Op ε σ α} {s : σ} (h : x s = y s) :
    x.toOption s = y.toOption s := by
  rw [toOption, toOption, h]

/-- A checked program does what the program itself does, and that is not to end in a fault; `fault`
tells how the programs end in one. -/
structure FaultFree {ε σ α : Type} (fault : Fault → ε) (checked plain : EStateM ε σ α) (s : σ) :
    Prop where
  eq : checked s = plain s
  ne_fault : ∀ f t, plain s ≠ .error (fault f) t

namespace FaultFree

variable {ε σ τ α : Type} {fault : Fault → ε} {s : σ}

theorem of_ends {checked plain : EStateM ε σ α} {ok : α → σ → Prop} {stop : ε → σ → Prop}
    (heq : checked s = plain s) (h : Ends plain s ok stop) (hstop : ∀ f t, ¬ stop (fault f) t) :
    FaultFree fault checked plain s :=
  ⟨heq, fun f t hfault => hstop f t (h.of_error hfault)⟩

theorem onPart {read : σ → τ} {write : τ → σ → σ} {checked plain : EStateM ε τ α}
    (h : FaultFree fault checked plain (read s)) :
    FaultFree fault (PagedMemory.onPart read write checked) (PagedMemory.onPart read write plain)
      s := by
  refine ⟨onPart_congr_at h.eq, fun f t hfault => ?_⟩
  rw [PagedMemory.onPart] at hfault
  split at hfault
  · cases hfault
  · rename_i hplain
    cases hfault
    exact h.ne_fault _ _ hplain

end FaultFree

end PagedMemory
