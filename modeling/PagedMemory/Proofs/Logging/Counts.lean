import PagedMemory.Proofs.Logging.Overflow
/-!
# What the log decides

Twice the memory core works something out for the log only, and only if the line is kept: startup
adds up the bytes that are usable, and a pool multiplies the frames that a memory map added. If the
number does not fit in a word, the operation stops. Everything else is the same whatever the log
keeps, so two runs differ exactly if one of these numbers is too large and one log keeps the line.
-/
namespace PagedMemory

open Logged (withLog)

/-! ## Programs that count for the log -/

section

variable {ε ε' σ τ α β : Type} [Logged σ] [Logged τ] {th th' : Option LogLevel}

/-- A program works something out for the log. In states that meet `C` it can be worked out, and the
program is blind to the log; in all others the program stops with `e` if the log keeps the line, and
never stops like that if it does not. -/
structure CountsForLog (C : σ → Prop) (e : ε) (x : EStateM ε σ α) : Prop where
  invariant : ∀ l s, C (withLog l s) ↔ C s
  agree : ∀ {th th' t t'}, SameButLog th th' t t' → informs th = informs th' ∨ C t →
    Agree (x t) (x t') (fun _ => SameButLog th th') (fun _ => SameButLog th th')
  kept : ∀ {t}, informs (Logged.log t).threshold = true → ¬ C t →
    Ends x t (fun _ _ => False) (fun stop _ => stop = e)
  skipped : ∀ {t}, informs (Logged.log t).threshold = false → ¬ C t →
    Ends x t (fun _ _ => True) (fun stop _ => stop ≠ e)

namespace CountsForLog

variable {C : σ → Prop} {e : ε} {x : EStateM ε σ α} {t t' : σ}

theorem of_blind (hC : ∀ s, C s) (h : ∀ {th th'}, LogBlind th th' x) : CountsForLog C e x where
  invariant _ _ := iff_of_true (hC _) (hC _)
  agree ht _ := h.agree _ _ ht
  kept _ hnot := absurd (hC _) hnot
  skipped _ hnot := absurd (hC _) hnot

theorem blind {P : Prop} (h : CountsForLog (fun _ => P) e x)
    (hP : informs th = informs th' ∨ P) : LogBlind th th' x :=
  ⟨fun _ _ ht => h.agree ht hP⟩

/-- A line for the log whose text can be worked out if `P` holds. -/
theorem of_line {P : Prop} {y : EStateM ε σ Unit}
    (hline : P → ∃ text, ∀ t, y t = .ok () (withLog ((Logged.log t).add .info text) t))
    (herror : ¬ P → ∀ t, y t = .error e t) :
    CountsForLog (fun _ => P) e (do
      if (Logged.log (← get)).keeps .info then
        y : EStateM ε σ Unit) := by
  set x : EStateM ε σ Unit := do
    if (Logged.log (← get)).keeps .info then
      y
  have hkept : ∀ {t}, (Logged.log t).keeps .info = true → x t = y t := by
    intro t hl
    show (if (Logged.log t).keeps .info then y else pure ()) t = y t
    rw [if_pos hl]
  have hskipped : ∀ {t}, (Logged.log t).keeps .info = false → x t = .ok () t := by
    intro t hl
    show (if (Logged.log t).keeps .info then y else pure ()) t = .ok () t
    rw [hl]
    rfl
  refine ⟨fun _ _ => Iff.rfl, fun {th th' t t'} ht h => ?_, fun {t} hl hP => ?_, fun {t} hl _ => ?_⟩
  · by_cases hP : P
    · obtain ⟨text, hline⟩ := hline hP
      -- a line that is not kept may as well be added
      have hadd : ∀ t, x t = .ok () (withLog ((Logged.log t).add .info text) t) := by
        intro t
        cases hl : (Logged.log t).keeps .info with
        | true => rw [hkept hl, hline]
        | false => rw [hskipped hl, Log.add_of_not_keeps hl, Logged.withLog_log]
      exact (LogBlind.of_line hadd).agree t t' ht
    · have hsame := h.resolve_right hP
      rw [← ht.threshold_left, ← ht.threshold_right, ← keeps_info, ← keeps_info] at hsame
      cases hl : (Logged.log t).keeps .info with
      | true =>
        have hl' : (Logged.log t').keeps .info = true := hsame ▸ hl
        exact Agree.of_error ((hkept hl).trans (herror hP t)) ((hkept hl').trans (herror hP t')) ht
      | false =>
        have hl' : (Logged.log t').keeps .info = false := hsame ▸ hl
        exact Agree.of_ok (hskipped hl) (hskipped hl') ht
  · exact Ends.of_eq_error ((hkept hl).trans (herror hP t)) rfl
  · exact Ends.of_eq_ok (hskipped hl) trivial

theorem bind {f : α → EStateM ε σ β} (h : CountsForLog C e x)
    (hf : ∀ {th th'} t a, informs th = informs th' ∨ C t → LogBlind th th' (f a))
    (hs : ∀ a, Spares e (f a)) : CountsForLog C e (x >>= f) where
  invariant := h.invariant
  agree ht hC := Agree.bind (h.agree ht hC) fun a u u' hu => (hf _ a hC).agree u u' hu
  kept hlog hC := Ends.bind (h.kept hlog hC) fun _ _ => False.elim
  skipped hlog hC := Ends.bind (h.skipped hlog hC) fun a u _ => hs a u

/-- What is worked out at the end. -/
theorem after {x : EStateM ε σ α} {f : α → EStateM ε σ β} {D : α → Prop}
    (invariant : ∀ l s, C (withLog l s) ↔ C s) (hx : ∀ {th th'}, LogBlind th th' x)
    (hends : ∀ t, Ends x t (fun a _ => D a ↔ C t) (fun _ _ => False))
    (hf : ∀ a, CountsForLog (fun _ => D a) e (f a)) : CountsForLog C e (x >>= f) := by
  have hlog : ∀ t, Ends x t (fun a u => (D a ↔ C t) ∧
      (Logged.log u).threshold = (Logged.log t).threshold) (fun _ _ => False) :=
    fun t => ((hends t).and (hx.agree t t (.refl t)).ends_self).mono
      (fun _ _ h => ⟨h.1, h.2.threshold_left⟩) fun _ _ h => h.1
  exact {
    invariant
    agree := fun {th th' t t'} ht hC => by
      refine Agree.bind (((hx.agree t t' ht).with_ends (hends t)).mono (fun _ _ _ h => h)
        fun _ _ _ h => h.1) ?_
      rintro a u u' ⟨hu, hD⟩
      exact (hf a).agree hu (hC.imp_right hD.mpr)
    kept := fun {t} hinforms hC => by
      refine Ends.bind ((hlog t).mono (fun _ _ h => h) fun _ _ => False.elim) ?_
      rintro a u ⟨hD, hu⟩
      exact (hf a).kept (by rwa [hu]) (mt hD.mp hC)
    skipped := fun {t} hinforms hC => by
      refine Ends.bind ((hlog t).mono (fun _ _ h => h) fun _ _ => False.elim) ?_
      rintro a u ⟨hD, hu⟩
      exact (hf a).skipped (by rwa [hu]) (mt hD.mp hC) }

/-- What becomes of the value does not matter. -/
theorem map (h : CountsForLog C e x) (f : α → β) :
    CountsForLog C e (do return f (← x) : EStateM ε σ β) :=
  h.bind (fun _ _ _ => .value _) fun _ => .value _

theorem ofStep {f : Fault} {x : Step σ α} (h : CountsForLog C f x) :
    CountsForLog C (.fault f) (Op.ofStep x : Op ε σ α) where
  invariant := h.invariant
  agree ht hC := Agree.ofStep (h.agree ht hC)
  kept hlog hC := Ends.ofStep ((h.kept hlog hC).mono (fun _ _ h => h)
    fun _ _ h => congrArg Stop.fault h)
  skipped hlog hC := Ends.ofStep ((h.skipped hlog hC).mono (fun _ _ h => h)
    fun _ _ hne heq => hne (Stop.fault.inj heq))

theorem mapError {f : Fault} {g : ε → ε'} {x : Op ε σ α} (h : CountsForLog C (.fault f) x) :
    CountsForLog C (.fault f) (Op.mapError g x) where
  invariant := h.invariant
  agree ht hC := Agree.mapError_of_states (h.agree ht hC)
  kept hlog hC := by
    refine Ends.mapError ((h.kept hlog hC).mono (fun _ _ h => h) ?_)
    rintro stop - rfl
    rfl
  skipped hlog hC := by
    refine Ends.mapError ((h.skipped hlog hC).mono (fun _ _ h => h) ?_)
    rintro (_ | _) - hne heq
    · cases heq
    · exact hne (congrArg Stop.fault (Stop.fault.inj heq))

theorem onPart (read : σ → τ) (write : τ → σ → σ) {C : τ → Prop} {x : EStateM ε τ α}
    (hread : ∀ l s, read (withLog l s) = withLog l (read s))
    (hwrite : ∀ l k t s, write (withLog l t) (withLog k s) = withLog l (write t s))
    (h : CountsForLog C e x) :
    CountsForLog (fun s => C (read s)) e (PagedMemory.onPart read write x) := by
  have hlog : ∀ s, Logged.log (read s) = Logged.log s := by
    intro s
    have hs := hread (Logged.log s) s
    rw [Logged.withLog_log] at hs
    rw [hs, Logged.log_withLog]
  exact {
    invariant := fun l s => by rw [hread, h.invariant]
    agree := fun ht hC => ht.agree_onPart hwrite (h.agree (ht.read hread) hC)
    kept := fun hl hC => Ends.onPart (h.kept (by rwa [hlog]) hC)
    skipped := fun hl hC => Ends.onPart (h.skipped (by rwa [hlog]) hC) }

/-- How the program ends tells two logs apart only if there is something that is too large, and only
if one log keeps the line and the other does not. -/
theorem ending_eq_iff (h : CountsForLog C e x) (ht : SameButLog th th' t t') :
    (ending x t).1 = (ending x t').1 ↔ informs th = informs th' ∨ C t := by
  refine ⟨fun heq => ?_, fun hC => (h.agree ht hC).ending_eq.symm⟩
  by_contra hdiffer
  obtain ⟨hne, hC⟩ := not_or.mp hdiffer
  have hC' : ¬ C t' := by
    obtain ⟨u, l, l', -, -, rfl, rfl⟩ := ht
    rwa [h.invariant, ← h.invariant l]
  have hkept : ∀ {t}, informs (Logged.log t).threshold = true → ¬ C t →
      (ending x t).1 = .error e := by
    intro t hl hC
    refine Ends.ending (p := fun r => r.1 = .error e) ((h.kept hl hC).mono ?_ ?_)
    · exact fun _ _ => False.elim
    · exact fun _ _ => congrArg Except.error
  have hskipped : ∀ {t}, informs (Logged.log t).threshold = false → ¬ C t →
      (ending x t).1 ≠ .error e := by
    intro t hl hC
    refine Ends.ending (p := fun r => r.1 ≠ .error e) ((h.skipped hl hC).mono ?_ ?_)
    · exact fun _ _ _ => nofun
    · exact fun _ _ hstop heq => hstop (Except.error.inj heq)
  rw [← ht.threshold_left, ← ht.threshold_right] at hne
  cases hl : informs (Logged.log t).threshold <;> cases hl' : informs (Logged.log t').threshold
  · exact hne (hl.trans hl'.symm)
  · exact hskipped hl hC (heq.trans (hkept hl' hC'))
  · exact hskipped hl' hC' (heq.symm.trans (hkept hl hC))
  · exact hne (hl.trans hl'.symm)

/-- The same of a run of this one program, and of all that it leaves. -/
theorem seen_singleton_eq_iff (h : CountsForLog C e x) (ht : SameButLog th th' t t') :
    seen [x] t = seen [x] t' ↔ informs th = informs th' ∨ C t := by
  rw [seen_cons_eq_iff, ← h.ending_eq_iff ht, and_iff_left_iff_imp, h.ending_eq_iff ht]
  intro hC
  exact LogBlind.seen_eq (fun _ hx => absurd hx List.not_mem_nil) (h.agree ht hC).ending_states

end CountsForLog

end

variable {ε : Type} {th th' : Option LogLevel}

/-! ## The frames of a memory map -/

namespace FramePool

theorem countsForLog_reportAdded (n : Nat) :
    CountsForLog (fun _ => n < 2 ^ 52) .mulOverflow (reportAdded n) := by
  have hfits : n < 2 ^ 52 ↔ ¬ 2 ^ 64 ≤ n * frameSize := by
    rw [frameSize]
    omega
  by_cases hn : n = 0
  · subst hn
    exact .of_blind (fun _ => by decide) (LogBlind.logLine _ _)
  · rw [reportAdded, if_neg hn]
    refine .of_line ?_ ?_
    · intro hlt
      rw [if_neg (hfits.mp hlt)]
      exact ⟨_, fun t => rfl⟩
    · intro hge t
      rw [if_pos (not_not.mp (mt hfits.mpr hge))]
      rfl

/-- Whether the bytes of all frames that a memory map adds to a pool are a number that fits in a
word. -/
def Reportable (map : DirectMap) (memoryMap : List Region) : Prop :=
  (listable map (Region.wholeFrames memoryMap)).length < 2 ^ 52

theorem countsForLog_addMemoryMap (memoryMap : List Region) :
    CountsForLog (fun s => Reportable s.frames.map memoryMap) .mulOverflow
      (addMemoryMap memoryMap) := by
  refine CountsForLog.after (D := (· < 2 ^ 52)) (fun _ _ => Iff.rfl) (blind_addRegions _) ?_ ?_
  · have hperm := ((List.reverse_perm memoryMap).filter Region.isUsable).flatMap_right
      fun r => r.frames.toList
    intro t
    refine (addRegions_counts _ t).mono ?_ fun _ _ h => h
    rintro n u ⟨hn, -⟩
    have hlen : n = (listable t.frames.map (Region.wholeFrames memoryMap)).length :=
      hn.trans (hperm.filter _).length_eq
    rw [hlen, Reportable]
  · intro n
    have hreport := (countsForLog_reportAdded n).map fun _ => n
    exact .after (D := fun _ => n < 2 ^ 52) (fun _ _ => Iff.rfl)
      (LogBlind.changes fun _ _ => rfl) (fun _ => Iff.rfl) fun _ => hreport

end FramePool

namespace Region

/-- A region has a frame for each 4096 of its bytes at most. -/
theorem size_frames_le (r : Region) : r.frames.size * 4096 ≤ r.length.toNat := by
  have hs : PageSize.small.bytes = 4096 := rfl
  have hlast : (⟨0xffffffffffffffff⟩ : PhysicalAddress).toNat = 2 ^ 64 - 1 := rfl
  have hb := r.base.toNat_lt
  simp only [frames, FrameRange.size, FrameRange.between, limit, firstFrameStart,
    Address.alignUp?, hs]
  split
  · rw [Option.getD_some, Address.toNat_ofNat]
    omega
  · rw [Option.getD_none, hlast]
    omega

/-- The frames of usable regions by their bytes. -/
theorem length_wholeFrames_le (memoryMap : List Region) :
    (wholeFrames memoryMap).length * 4096 ≤
      (((memoryMap.filter isUsable).map fun r => r.length.toNat).foldr (· + ·) 0) := by
  rw [wholeFrames]
  induction memoryMap.filter isUsable with
  | nil => exact Nat.zero_le 0
  | cons r rest ih =>
    have hr := r.size_frames_le
    rw [List.flatMap_cons, List.length_append, FrameRange.length_toList, Nat.add_mul]
    exact Nat.add_le_add hr ih

end Region

/-- The usable bytes of a machine can be counted. -/
def BootInfo.Countable (info : BootInfo) : Prop := ∃ bytes, info.usableBytes = .ok bytes

theorem BootInfo.Countable.reportable {info : BootInfo} (h : info.Countable) (map : DirectMap) :
    FramePool.Reportable map info.memoryMap := by
  obtain ⟨bytes, hbytes⟩ := h
  have hle := Region.length_wholeFrames_le info.memoryMap
  have hlist := FramePool.length_listable_le map (Region.wholeFrames info.memoryMap)
  unfold BootInfo.usableBytes at hbytes
  dsimp only at hbytes
  split at hbytes
  · rename_i htotal
    unfold FramePool.Reportable
    omega
  · cases hbytes

end PagedMemory
