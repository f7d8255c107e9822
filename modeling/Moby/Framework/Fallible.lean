import Mathlib.Order.Defs.Unbundled

/-!
# Programs that may fail

A sequential program over a state that returns a value or an error, with the
state as it is then (`Fallible`).
-/

namespace Moby.Framework

abbrev Fallible (ε σ : Type) := ExceptT ε (StateM σ)

variable {ε σ α β : Type}

/-- The result of a program, and the state after it. -/
def Fallible.exec (x : Fallible ε σ α) (s : σ) : Except ε α × σ := x.run.run s

namespace Fallible

variable {x : Fallible ε σ α} {f : α → Fallible ε σ β} {s s' : σ}

theorem exec_bind_ok {a : α} (h : x.exec s = (.ok a, s')) : (x >>= f).exec s = (f a).exec s' := by
  show (ExceptT.bindCont f (x.exec s).1).run (x.exec s).2 = _
  rw [h]; rfl

theorem exec_bind_error {e : ε} (h : x.exec s = (.error e, s')) : (x >>= f).exec s = (.error e, s') := by
  show (ExceptT.bindCont f (x.exec s).1).run (x.exec s).2 = _
  rw [h]; rfl

end Fallible

/-- A program run from `s` ends in a value and a state that satisfy `Q`, or in
an error and a state that satisfy `E`. -/
def Ensures (x : Fallible ε σ α) (s : σ) (Q : α → σ → Prop) (E : ε → σ → Prop) : Prop :=
  match x.exec s with
  | (.ok a, s') => Q a s'
  | (.error e, s') => E e s'

namespace Ensures

variable {x : Fallible ε σ α} {f : α → Fallible ε σ β} {s s' : σ} {Q Q' : α → σ → Prop} {E E' : ε → σ → Prop}

theorem of_ok {a : α} (h : Ensures x s Q E) (hx : x.exec s = (.ok a, s')) : Q a s' := by
  rw [Ensures, hx] at h; exact h

theorem of_error {e : ε} (h : Ensures x s Q E) (hx : x.exec s = (.error e, s')) : E e s' := by
  rw [Ensures, hx] at h; exact h

/-- The two ways a program can end. -/
theorem intro (hQ : ∀ a s', x.exec s = (.ok a, s') → Q a s') (hE : ∀ e s', x.exec s = (.error e, s') → E e s') :
    Ensures x s Q E := by
  unfold Ensures
  split
  · rename_i heq; exact hQ _ _ heq
  · rename_i heq; exact hE _ _ heq

theorem mono (h : Ensures x s Q E) (hQ : ∀ a s', Q a s' → Q' a s') (hE : ∀ e s', E e s' → E' e s') :
    Ensures x s Q' E' :=
  intro (fun a s' hx => hQ a s' (h.of_ok hx)) fun e s' hx => hE e s' (h.of_error hx)

theorem pure {a : α} (h : Q a s) : Ensures (Pure.pure a) s Q E := h

theorem throw {e : ε} (h : E e s) : Ensures (MonadExcept.throw e) s Q E := h

theorem get {Q : σ → σ → Prop} (h : Q s s) : Ensures MonadState.get s Q E := h

theorem set {Q : PUnit → σ → Prop} (h : Q ⟨⟩ s') : Ensures (MonadStateOf.set s') s Q E := h

theorem bind {Q : β → σ → Prop} (h : Ensures x s (fun a s' => Ensures (f a) s' Q E) E) :
    Ensures (x >>= f) s Q E := by
  cases hx : x.exec s with
  | mk r s' =>
    cases r with
    | ok a =>
      have hf : Ensures (f a) s' Q E := h.of_ok hx
      rw [Ensures, Fallible.exec_bind_ok hx]; exact hf
    | error e =>
      have he : E e s' := h.of_error hx
      rw [Ensures, Fallible.exec_bind_error hx]; exact he

/-- What holds of the state after a program, however it ends. -/
theorem state {P : σ → Prop} (h : Ensures x s (fun _ => P) fun _ => P) : P (x.exec s).2 := by
  cases hx : x.exec s with
  | mk r s' =>
    cases r with
    | ok a => exact h.of_ok hx
    | error e => exact h.of_error hx

end Ensures

/-! ## Relations between the states before and after -/

/-- The states before and after a program are related, however it ends. -/
def Keeps (R : σ → σ → Prop) (x : Fallible ε σ α) : Prop :=
  ∀ s, Ensures x s (fun _ s' => R s s') fun _ s' => R s s'

namespace Keeps

variable {R : σ → σ → Prop} {x : Fallible ε σ α} {f : α → Fallible ε σ β}

theorem pure [Std.Refl R] (a : α) : Keeps R (Pure.pure a : Fallible ε σ α) := fun s => .pure (Std.Refl.refl s)

theorem throw [Std.Refl R] (e : ε) : Keeps R (MonadExcept.throw e : Fallible ε σ α) := fun s => .throw (Std.Refl.refl s)

theorem get [Std.Refl R] : Keeps R (MonadState.get : Fallible ε σ σ) := fun s => .get (Std.Refl.refl s)

theorem modify {f : σ → σ} (h : ∀ s, R s (f s)) : Keeps R (modifyThe σ f : Fallible ε σ PUnit) := fun s => h s

theorem bind [IsTrans σ R] (hx : Keeps R x) (hf : ∀ a, Keeps R (f a)) : Keeps R (x >>= f) := by
  intro s
  refine .bind ((hx s).mono (fun a s' h => ?_) fun _ _ h => h)
  exact (hf a s').mono (fun _ _ h' => IsTrans.trans _ _ _ h h') fun _ _ h' => IsTrans.trans _ _ _ h h'

end Keeps

end Moby.Framework
