import Mathlib.Logic.Basic

/-!
# Programs of atomic steps

A program (`Prog`) is a tree of atomic steps over a shared state and the
state of the call that runs it: what one call does between two points where
another call can come in is one step (`Act`). A step can be disabled (a lock
that another call holds).
-/

namespace Moby.Framework

variable {σ κ α β ε : Type}

/-- An atomic step, from the shared state and the state of the call: its
result and the states after it, or `none` if it is not enabled. -/
abbrev Act (σ κ β : Type) := σ × κ → Option (β × (σ × κ))

/-- A program: a result, or an atomic step and what follows it. -/
inductive Prog (σ κ α : Type) : Type 1 where
  | ret (a : α)
  | act {β : Type} (m : Act σ κ β) (k : β → Prog σ κ α)

namespace Prog

def bind : Prog σ κ α → (α → Prog σ κ β) → Prog σ κ β
  | .ret a, f => f a
  | .act m k, f => .act m fun b => (k b).bind f

instance : Monad (Prog σ κ) where
  pure := .ret
  bind := bind

/-- The program of one step. -/
def step (m : Act σ κ α) : Prog σ κ α := .act m .ret

/-- The step that changes the shared state by `f`. -/
def atomically (f : σ → α × σ) : Prog σ κ α :=
  step fun s => some ((f s.1).1, (f s.1).2, s.2)

/-- A program run alone, to its end: its result and the states after it, or
`none` if a step of it is not enabled. -/
def run : Prog σ κ α → Act σ κ α
  | .ret a, s => some (a, s)
  | .act m k, s =>
    match m s with
    | none => none
    | some (b, s') => (k b).run s'

/-- `p` as one step: a lock keeps the others out until its end. -/
def atomic (p : Prog σ κ α) : Prog σ κ α := step p.run

/-- The runs of `p` whose first step is taken in a state that satisfies
`C`. -/
def startIf (C : σ × κ → Bool) : Prog σ κ α → Prog σ κ α
  | .ret a => .ret a
  | .act m k => .act (fun s => if C s then m s else none) k

/-- `x`, then `cleanup` if it fails: `defer func() { if err != nil { … } }()`. -/
def onError (cleanup : Prog σ κ Unit) (x : ExceptT ε (Prog σ κ) α) : ExceptT ε (Prog σ κ) α :=
  ExceptT.mk do
    match ← x.run with
    | .ok a => return .ok a
    | .error e =>
      cleanup
      return .error e

@[simp] theorem run_step (m : Act σ κ α) (s : σ × κ) : (step m).run s = m s := by
  simp only [step, run]
  cases m s <;> rfl

theorem run_bind (p : Prog σ κ α) (f : α → Prog σ κ β) (s : σ × κ) :
    (p >>= f).run s = (p.run s).bind fun r => (f r.1).run r.2 := by
  show (p.bind f).run s = _
  induction p generalizing s with
  | ret a => rfl
  | act m k ih =>
    simp only [bind, run]
    cases m s with
    | none => rfl
    | some r => exact ih r.1 r.2

theorem run_bindE_ok {x : ExceptT ε (Prog σ κ) α} {f : α → ExceptT ε (Prog σ κ) β} {s s' : σ × κ} {a : α}
    (h : x.run.run s = some (.ok a, s')) : (x >>= f).run.run s = (f a).run.run s' :=
  (run_bind x.run _ s).trans (by rw [h]; rfl)

theorem run_onError_ok {x : ExceptT ε (Prog σ κ) α} {cleanup : Prog σ κ Unit} {s s' : σ × κ} {a : α}
    (h : x.run.run s = some (.ok a, s')) : (onError cleanup x).run.run s = some (.ok a, s') :=
  (run_bind x.run _ s).trans (by rw [h]; rfl)

end Prog

/-! ## Runs of a program alone -/

/-- Every completed run of `p` from `s` ends in a result and a state that
satisfy `Q`. -/
def Triple (p : Prog σ κ α) (s : σ × κ) (Q : α → σ × κ → Prop) : Prop :=
  ∀ a s', p.run s = some (a, s') → Q a s'

namespace Triple

theorem ret {a : α} {s : σ × κ} {Q : α → σ × κ → Prop} (h : Q a s) : Triple (.ret a) s Q := by
  rintro _ _ ⟨⟩; exact h

theorem step {m : Act σ κ α} {s : σ × κ} {Q : α → σ × κ → Prop}
    (h : ∀ a s', m s = some (a, s') → Q a s') : Triple (.step m) s Q := by
  intro a s' hr; rw [Prog.run_step] at hr; exact h a s' hr

theorem atomic {p : Prog σ κ α} {s : σ × κ} {Q : α → σ × κ → Prop} (h : Triple p s Q) :
    Triple p.atomic s Q := step h

theorem bind {p : Prog σ κ α} {f : α → Prog σ κ β} {s : σ × κ} {Q : β → σ × κ → Prop}
    (h : Triple p s fun a s' => Triple (f a) s' Q) : Triple (p >>= f) s Q := by
  intro b s' hr
  rw [Prog.run_bind, Option.bind_eq_some_iff] at hr
  obtain ⟨⟨a, s₁⟩, ha, hb⟩ := hr
  exact h a s₁ ha b s' hb

theorem mono {p : Prog σ κ α} {s : σ × κ} {P Q : α → σ × κ → Prop} (h : Triple p s P)
    (hQ : ∀ a s', P a s' → Q a s') : Triple p s Q :=
  fun a s' hr => hQ a s' (h a s' hr)

/-- A program that may fail, and what follows it if it does not. -/
theorem bindE {x : ExceptT ε (Prog σ κ) α} {f : α → ExceptT ε (Prog σ κ) β} {s : σ × κ}
    {Q : Except ε β → σ × κ → Prop}
    (h : Triple x.run s fun r s' => match r with
      | .ok a => Triple (f a).run s' Q
      | .error e => Q (.error e) s') : Triple (x >>= f).run s Q := by
  refine bind (mono h fun r s' hr => ?_)
  cases r with
  | ok a => exact hr
  | error e => exact ret hr

theorem onError {x : ExceptT ε (Prog σ κ) α} {cleanup : Prog σ κ Unit} {s : σ × κ}
    {Q : Except ε α → σ × κ → Prop}
    (h : Triple x.run s fun r s' => match r with
      | .ok a => Q (.ok a) s'
      | .error e => Triple cleanup s' fun _ s'' => Q (.error e) s'') :
    Triple (Prog.onError cleanup x).run s Q := by
  refine bind (mono h fun r s' hr => ?_)
  cases r with
  | ok a => exact ret hr
  | error e => exact bind (mono hr fun _ _ hq => ret hq)

end Triple

/-- No step of `p`, run from `s`, is disabled. -/
def Ends (p : Prog σ κ α) (s : σ × κ) : Prop := ∃ a s', p.run s = some (a, s')

namespace Ends

theorem ret {a : α} {s : σ × κ} : Ends (.ret a) s := ⟨a, s, rfl⟩

theorem step {m : Act σ κ α} {s : σ × κ} (h : ∃ a s', m s = some (a, s')) : Ends (.step m) s := by
  obtain ⟨a, s', h⟩ := h
  exact ⟨a, s', by rw [Prog.run_step, h]⟩

theorem atomic {p : Prog σ κ α} {s : σ × κ} (h : Ends p s) : Ends p.atomic s := step h

theorem bind {p : Prog σ κ α} {f : α → Prog σ κ β} {s : σ × κ} (hp : Ends p s)
    (hf : ∀ a s', p.run s = some (a, s') → Ends (f a) s') : Ends (p >>= f) s := by
  obtain ⟨a, s₁, h₁⟩ := hp
  obtain ⟨b, s₂, h₂⟩ := hf a s₁ h₁
  exact ⟨b, s₂, by rw [Prog.run_bind, h₁]; exact h₂⟩

theorem bindE {x : ExceptT ε (Prog σ κ) α} {f : α → ExceptT ε (Prog σ κ) β} {s : σ × κ}
    (hx : Ends x.run s) (hf : ∀ a s', x.run.run s = some (.ok a, s') → Ends (f a).run s') :
    Ends (x >>= f).run s := by
  refine bind hx fun r s' h => ?_
  cases r with
  | ok a => exact hf a s' h
  | error e => exact ret

theorem onError {x : ExceptT ε (Prog σ κ) α} {cleanup : Prog σ κ Unit} {s : σ × κ}
    (hx : Ends x.run s) (hc : ∀ s', Ends cleanup s') : Ends (Prog.onError cleanup x).run s := by
  refine bind hx fun r s' _ => ?_
  cases r with
  | ok a => exact ret
  | error e => exact bind (hc s') fun _ _ _ => ret

end Ends

end Moby.Framework
