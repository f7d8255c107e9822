import Mathlib.Data.Nat.Init
import Mathlib.Order.Nat
import Mathlib.Tactic.ByContra

/-!
# Machines that take one event at a time

A machine is a function `exec` from a state and an event to the state after
it, or `none` if the event is not enabled. Threads that loop are machines
whose states hold the point each thread has reached.
-/

namespace Moby.Framework

variable {σ ε : Type}

/-- The states that the runs from `s₀` reach whose events `G` allows. -/
inductive ReachesIf (exec : σ → ε → Option σ) (G : σ → ε → Prop) (s₀ : σ) : σ → Prop
  | refl : ReachesIf exec G s₀ s₀
  | tail {s s' : σ} {e : ε} (h : ReachesIf exec G s₀ s) (hG : G s e) (he : exec s e = some s') :
    ReachesIf exec G s₀ s'

/-- The states that the runs from `s₀` reach. -/
abbrev Reaches (exec : σ → ε → Option σ) (s₀ : σ) : σ → Prop :=
  ReachesIf exec (fun _ _ => True) s₀

/-- The state after the events of a list, if each is enabled in its turn. -/
def execAll (exec : σ → ε → Option σ) : σ → List ε → Option σ
  | s, [] => some s
  | s, e :: es =>
    match exec s e with
    | none => none
    | some s' => execAll exec s' es

/-- The events that `G` allows. -/
def execIf (exec : σ → ε → Option σ) (G : σ → ε → Prop) [∀ s e, Decidable (G s e)] (s : σ) (e : ε) : Option σ :=
  if G s e then exec s e else none

namespace ReachesIf

variable {exec : σ → ε → Option σ} {G : σ → ε → Prop} {s₀ s : σ}

/-- A condition that holds at the start and that every event keeps. -/
theorem inv {I : σ → Prop} (h₀ : I s₀)
    (hstep : ∀ s e s', ReachesIf exec G s₀ s → I s → G s e → exec s e = some s' → I s')
    (h : ReachesIf exec G s₀ s) : I s := by
  induction h with
  | refl => exact h₀
  | tail h hG he ih => exact hstep _ _ _ h ih hG he

theorem trans {s₁ : σ} (h₁ : ReachesIf exec G s₀ s₁) (h : ReachesIf exec G s₁ s) : ReachesIf exec G s₀ s :=
  h.inv h₁ fun _ _ _ _ ih hG he => ih.tail hG he

/-- A list of events that are each enabled in their turn is a run. -/
theorem of_execAll {l : List ε} (h : execAll exec s₀ l = some s) : Reaches exec s₀ s := by
  induction l generalizing s₀ with
  | nil =>
    cases h
    exact .refl
  | cons e es ih =>
    simp only [execAll] at h
    split at h
    · cases h
    · rename_i s₁ he
      exact (ReachesIf.refl.tail trivial he).trans (ih h)

theorem of_execIf [∀ s e, Decidable (G s e)] (h : Reaches (execIf exec G) s₀ s) : ReachesIf exec G s₀ s := by
  refine h.inv .refl fun s e s' _ ih _ he => ?_
  rw [execIf, Option.ite_none_right_eq_some] at he
  exact ih.tail he.1 he.2

/-- A run whose last state has been looked at. -/
theorem of_view {β : Type} (exec : σ → ε → Option σ) (G : σ → ε → Prop) [∀ s e, Decidable (G s e)] (s₀ : σ)
    (es : List ε) (view : σ → β) {b : β} (h : (execAll (execIf exec G) s₀ es).map view = some b) :
    ∃ s, ReachesIf exec G s₀ s ∧ view s = b := by
  obtain ⟨s, hs, hb⟩ := Option.map_eq_some_iff.mp h
  exact ⟨s, of_execIf (of_execAll hs), hb⟩

end ReachesIf

/-! ## Runs that end -/

/-- Every run from `s` comes to an end. -/
def Terminates (exec : σ → ε → Option σ) (s : σ) : Prop := Acc (fun s' s => ∃ e, exec s e = some s') s

namespace Terminates

variable {exec : σ → ε → Option σ} {s s' : σ}

theorem of_next (h : ∀ e s', exec s e = some s' → Terminates exec s') : Terminates exec s := by
  refine .intro s fun s' hs' => ?_
  obtain ⟨e, he⟩ := hs'
  exact h e s' he

theorem reaches (h : Terminates exec s) (hr : Reaches exec s s') : Terminates exec s' :=
  hr.inv h fun _ e _ _ ih _ he => ih.inv ⟨e, he⟩

/-- A state from which there is always a next one to go on from. -/
theorem not_of_inv {I : σ → Prop} (hI : I s) (hnext : ∀ s, I s → ∃ e s', exec s e = some s' ∧ I s') :
    ¬ Terminates exec s := by
  intro h
  induction h with
  | intro s _ ih =>
    obtain ⟨e, s', he, hI'⟩ := hnext s hI
    exact ih s' ⟨e, he⟩ hI'

end Terminates

/-! ## Unending runs -/

/-- An unending run from `s₀`: an event at a time, or nothing for a while. -/
structure Behavior (exec : σ → ε → Option σ) (s₀ : σ) where
  states : ℕ → σ
  start : states 0 = s₀
  next (n : ℕ) : states (n + 1) = states n ∨ ∃ e, exec (states n) e = some (states (n + 1))

namespace Behavior

variable {exec : σ → ε → Option σ} {s₀ : σ}

theorem reaches (b : Behavior exec s₀) (n : ℕ) : Reaches exec s₀ (b.states n) := by
  induction n with
  | zero => rw [b.start]; exact .refl
  | succ n ih =>
    rcases b.next n with h | ⟨e, he⟩
    · rw [h]; exact ih
    · exact ih.tail trivial he

/-- The event `e` is taken at time `n`. -/
def Takes (b : Behavior exec s₀) (e : ε) (n : ℕ) : Prop := exec (b.states n) e = some (b.states (n + 1))

/-- The event `e` is taken again and again if it is enabled again and again. -/
def Fair (b : Behavior exec s₀) (e : ε) : Prop :=
  (∀ n, ∃ m ≥ n, (exec (b.states m) e).isSome) → ∀ n, ∃ m ≥ n, b.Takes e m

/-- `P` is always followed, at once or later, by `Q`. -/
def LeadsTo (b : Behavior exec s₀) (P Q : σ → Prop) : Prop :=
  ∀ n, P (b.states n) → ∃ m ≥ n, Q (b.states m)

theorem LeadsTo.trans {b : Behavior exec s₀} {P Q R : σ → Prop} (h : b.LeadsTo P Q)
    (h' : b.LeadsTo Q R) : b.LeadsTo P R := by
  intro n hn
  obtain ⟨m, hm, hq⟩ := h n hn
  obtain ⟨k, hk, hr⟩ := h' m hq
  exact ⟨k, le_trans hm hk, hr⟩

/-- What lasts until `Q` lasts for ever if `Q` never comes. -/
theorem lasts {b : Behavior exec s₀} {P Q : σ → Prop} {n : ℕ}
    (hkeep : ∀ s e s', Reaches exec s₀ s → P s → exec s e = some s' → P s' ∨ Q s')
    (hn : P (b.states n)) (hQ : ∀ m ≥ n, ¬ Q (b.states m)) : ∀ m ≥ n, P (b.states m) := by
  intro m hm
  induction m, hm using Nat.le_induction with
  | base => exact hn
  | succ m hm ih =>
    rcases b.next m with he | ⟨e, he⟩
    · rw [he]; exact ih
    · exact (hkeep _ e _ (b.reaches m) ih he).resolve_right (hQ _ (by omega))

/-- Progress by a fair event: `P` lasts until `Q`, the event leads from `P`
to `Q`, and while `P` lasts it is enabled again and again. -/
theorem Fair.leadsTo {b : Behavior exec s₀} {e : ε} (hfair : b.Fair e) {P Q : σ → Prop}
    (hkeep : ∀ s e s', Reaches exec s₀ s → P s → exec s e = some s' → P s' ∨ Q s')
    (htake : ∀ s s', Reaches exec s₀ s → P s → exec s e = some s' → Q s')
    (henabled : ∀ n, ∃ m ≥ n, P (b.states m) → (exec (b.states m) e).isSome) : b.LeadsTo P Q := by
  intro n hn
  by_contra hno
  have hQ : ∀ m ≥ n, ¬ Q (b.states m) := fun m hm hq => hno ⟨m, hm, hq⟩
  have hP := lasts hkeep hn hQ
  have hio : ∀ k, ∃ m ≥ k, (exec (b.states m) e).isSome := by
    intro k
    obtain ⟨m, hm, he⟩ := henabled (max n k)
    exact ⟨m, by omega, he (hP m (by omega))⟩
  obtain ⟨m, hm, he⟩ := hfair hio n
  exact hQ (m + 1) (by omega) (htake _ _ (b.reaches m) (hP m hm) he)

/-- The same, for an event that is enabled throughout. -/
theorem Fair.leadsTo_of_enabled {b : Behavior exec s₀} {e : ε} (hfair : b.Fair e) {P Q : σ → Prop}
    (hkeep : ∀ s e s', Reaches exec s₀ s → P s → exec s e = some s' → P s' ∨ Q s')
    (htake : ∀ s s', Reaches exec s₀ s → P s → exec s e = some s' → Q s')
    (henabled : ∀ s, Reaches exec s₀ s → P s → (exec s e).isSome) : b.LeadsTo P Q :=
  hfair.leadsTo hkeep htake fun n => ⟨n, le_refl n, henabled _ (b.reaches n)⟩

end Behavior

/-! ## A run that ends, as an unending one -/

/-- The states of a run, which stays in its last one. -/
def statesOf (exec : σ → ε → Option σ) : σ → List ε → ℕ → σ
  | s, [], _ => s
  | s, _ :: _, 0 => s
  | s, e :: es, n + 1 =>
    match exec s e with
    | none => s
    | some s' => statesOf exec s' es n

theorem statesOf_zero (exec : σ → ε → Option σ) (s : σ) (es : List ε) : statesOf exec s es 0 = s := by
  cases es <;> rfl

theorem statesOf_succ (exec : σ → ε → Option σ) (s : σ) (es : List ε) (n : ℕ) :
    statesOf exec s es (n + 1) = statesOf exec s es n ∨
      ∃ e, exec (statesOf exec s es n) e = some (statesOf exec s es (n + 1)) := by
  induction es generalizing s n with
  | nil => exact .inl rfl
  | cons e es ih =>
    cases he : exec s e with
    | none => left; cases n <;> simp [statesOf, he]
    | some s' =>
      cases n with
      | zero => right; exact ⟨e, by simp only [statesOf, he, statesOf_zero]⟩
      | succ n => simpa only [statesOf, he] using ih s' n

/-- The events of `es`, then nothing. -/
def Behavior.ofList (exec : σ → ε → Option σ) (s₀ : σ) (es : List ε) : Behavior exec s₀ where
  states := statesOf exec s₀ es
  start := statesOf_zero exec s₀ es
  next := statesOf_succ exec s₀ es

theorem statesOf_of_length_le {exec : σ → ε → Option σ} {s s' : σ} {es : List ε}
    (h : execAll exec s es = some s') {n : ℕ} (hn : es.length ≤ n) : statesOf exec s es n = s' := by
  induction es generalizing s n with
  | nil => cases h; rfl
  | cons e es ih =>
    obtain ⟨n, rfl⟩ : ∃ k, n = k + 1 := ⟨n - 1, by simp at hn; omega⟩
    simp only [execAll] at h
    split at h
    · cases h
    · rename_i s₁ he
      simp only [statesOf, he]
      exact ih h (by simpa using hn)

/-- An event that is not enabled at the end of a run is fair. -/
theorem Behavior.ofList_fair {exec : σ → ε → Option σ} {s₀ : σ} {es : List ε} {e : ε}
    (h : (execAll exec s₀ es).map (exec · e) = some none) : (ofList exec s₀ es).Fair e := by
  obtain ⟨s, hs, he⟩ := Option.map_eq_some_iff.mp h
  intro hio
  obtain ⟨m, hm, hen⟩ := hio es.length
  simp only [ofList, statesOf_of_length_le hs hm, he, Option.isSome_none] at hen
  cases hen

end Moby.Framework
