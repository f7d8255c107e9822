import Moby.Framework.Prog
import Mathlib.Data.Multiset.Filter
import Mathlib.Logic.Relation

/-!
# Calls side by side, and one after the other

* `Step`, `Reachable`: any number of calls in flight, a step of any of them
  at a time; `ReachableIf` are the runs whose steps satisfy a condition on
  the other calls in flight.
* `Follows`: every step of a program is one of a relation, which says what
  the step can do in the state of the call that takes it.
* `reachable_inv`: an invariant of the shared state and of the calls in
  flight that the relation keeps holds in every reachable state.
  `reachable_inv_of` is the same rule given what is already known of every
  reachable state, `reachableIf_inv_of` the one of `ReachableIf`.
* `runAll`: calls that run to their end, one after the other, are such a run
  (`Step.runAll`).
-/

namespace Moby.Framework

variable {σ κ α β ε ι : Type}

/-! ## Calls side by side -/

/-- The shared state and the calls in flight, each with its own state and
what is left of its program. -/
abbrev Config (σ κ : Type) := σ × Multiset (κ × Prog σ κ Unit)

/-- A new call `i`, which starts in the state `c₀`, a step of a call in
flight, which `G` allows in the shared state, the state of the call and those
of the other calls, or the return of a call. -/
inductive Step (prog : ι → Prog σ κ Unit) (c₀ : κ) (G : σ → κ → Multiset κ → Prop) :
    Config σ κ → Config σ κ → Prop
  | call (i : ι) {s : σ} {T : Multiset (κ × Prog σ κ Unit)} :
    Step prog c₀ G (s, T) (s, (c₀, prog i) ::ₘ T)
  | act {β : Type} {m : Act σ κ β} {k : β → Prog σ κ Unit} {s s' : σ} {c c' : κ} {b : β}
    {T : Multiset (κ × Prog σ κ Unit)} (h : m (s, c) = some (b, s', c')) (hG : G s c (T.map Prod.fst)) :
    Step prog c₀ G (s, (c, .act m k) ::ₘ T) (s', (c', k b) ::ₘ T)
  | ret {s : σ} {c : κ} {T : Multiset (κ × Prog σ κ Unit)} :
    Step prog c₀ G (s, (c, .ret ()) ::ₘ T) (s, T)

/-- The configurations that the runs from `s₀` reach whose steps `G` allows. -/
def ReachableIf (prog : ι → Prog σ κ Unit) (c₀ : κ) (s₀ : σ) (G : σ → κ → Multiset κ → Prop) :
    Config σ κ → Prop :=
  Relation.ReflTransGen (Step prog c₀ G) (s₀, 0)

/-- The configurations that any interleaving of any calls reaches from `s₀`. -/
def Reachable (prog : ι → Prog σ κ Unit) (c₀ : κ) (s₀ : σ) : Config σ κ → Prop :=
  ReachableIf prog c₀ s₀ fun _ _ _ => True

/-- A call in flight that runs alone to its end. -/
theorem Step.run {prog : ι → Prog σ κ Unit} {c₀ : κ} {G : σ → κ → Multiset κ → Prop}
    {T : Multiset (κ × Prog σ κ Unit)} (hG : ∀ s c, G s c (T.map Prod.fst)) {p : Prog σ κ Unit}
    {s s' : σ} {c c' : κ} (h : p.run (s, c) = some ((), s', c')) :
    Relation.ReflTransGen (Step prog c₀ G) (s, (c, p) ::ₘ T) (s', T) := by
  induction p generalizing s c with
  | ret a => cases h; exact .single .ret
  | act m k ih =>
    simp only [Prog.run] at h
    split at h
    · cases h
    · rename_i b x hm
      exact .head (.act hm (hG s c)) (ih b h)

/-- Calls that run one after the other, each to its end. -/
def runAll (prog : ι → Prog σ κ Unit) (c₀ : κ) : List ι → σ → Option σ
  | [], s => some s
  | i :: is, s =>
    match (prog i).run (s, c₀) with
    | none => none
    | some (_, s', _) => runAll prog c₀ is s'

theorem Step.runAll {prog : ι → Prog σ κ Unit} {c₀ : κ} {G : σ → κ → Multiset κ → Prop}
    {T : Multiset (κ × Prog σ κ Unit)} (hG : ∀ s c, G s c (T.map Prod.fst)) {s s' : σ} {is : List ι}
    (h : runAll prog c₀ is s = some s') : Relation.ReflTransGen (Step prog c₀ G) (s, T) (s', T) := by
  induction is generalizing s with
  | nil => cases h; exact .refl
  | cons i is ih =>
    simp only [Framework.runAll] at h
    split at h
    · cases h
    · rename_i hr
      exact (Relation.ReflTransGen.head (.call i) (Step.run hG hr)).trans (ih h)

theorem Reachable.runAll {prog : ι → Prog σ κ Unit} {c₀ : κ} {s₀ s s' : σ}
    {T : Multiset (κ × Prog σ κ Unit)} (hx : Reachable prog c₀ s₀ (s, T)) {is : List ι}
    (h : runAll prog c₀ is s = some s') : Reachable prog c₀ s₀ (s', T) :=
  hx.trans (Step.runAll (fun _ _ => trivial) h)

/-- A new call, run alone to its end. -/
theorem Reachable.run {prog : ι → Prog σ κ Unit} {c₀ : κ} {s₀ s s' : σ} {c' : κ}
    {T : Multiset (κ × Prog σ κ Unit)} (hx : Reachable prog c₀ s₀ (s, T)) (i : ι)
    (h : (prog i).run (s, c₀) = some ((), s', c')) : Reachable prog c₀ s₀ (s', T) :=
  (hx.tail (.call i)).trans (Step.run (fun _ _ => trivial) h)

/-- The states of the calls in flight. -/
def Config.calls (x : Config σ κ) : Multiset κ := x.2.map Prod.fst

/-- Given that `A` holds in every state, every step of `p`, run by a call in
the state `c`, is in `R`, and `p` ends in a result and a state of the call
that satisfy `Q`. No other call can falsify this: it speaks of the call's own
state only. -/
def Follows (A : σ → Prop) (R : σ × κ → σ × κ → Prop) : Prog σ κ α → κ → (α → κ → Prop) → Prop
  | .ret a, c, Q => Q a c
  | .act m k, c, Q => ∀ s b s' c', A s → m (s, c) = some (b, s', c') →
    R (s, c) (s', c') ∧ Follows A R (k b) c' Q

namespace Follows

variable {A : σ → Prop} {R : σ × κ → σ × κ → Prop}

theorem pure {a : α} {c : κ} {Q : α → κ → Prop} (h : Q a c) :
    Follows A R (Pure.pure a : Prog σ κ α) c Q := h

theorem mono {p : Prog σ κ α} {c : κ} {P Q : α → κ → Prop} (h : Follows A R p c P)
    (hQ : ∀ a c', P a c' → Q a c') : Follows A R p c Q := by
  induction p generalizing c with
  | ret a => exact hQ a c h
  | act m k ih =>
    intro s b s' c' ha hm
    exact ⟨(h s b s' c' ha hm).1, ih b (h s b s' c' ha hm).2⟩

theorem imp {R' : σ × κ → σ × κ → Prop} {p : Prog σ κ α} {c : κ} {Q : α → κ → Prop}
    (h : Follows A R p c Q) (hR : ∀ x y, R x y → R' x y) : Follows A R' p c Q := by
  induction p generalizing c with
  | ret a => exact h
  | act m k ih =>
    intro s b s' c' ha hm
    exact ⟨hR _ _ (h s b s' c' ha hm).1, ih b (h s b s' c' ha hm).2⟩

theorem bind {p : Prog σ κ α} {f : α → Prog σ κ β} {c : κ} {Q : β → κ → Prop}
    (h : Follows A R p c fun a c' => Follows A R (f a) c' Q) : Follows A R (p >>= f) c Q := by
  show Follows A R (p.bind f) c Q
  induction p generalizing c with
  | ret a => exact h
  | act m k ih =>
    intro s b s' c' ha hm
    exact ⟨(h s b s' c' ha hm).1, ih b (h s b s' c' ha hm).2⟩

theorem step {m : Act σ κ α} {c : κ} {Q : α → κ → Prop}
    (h : ∀ s a s' c', A s → m (s, c) = some (a, s', c') → R (s, c) (s', c') ∧ Q a c') :
    Follows A R (.step m) c Q := h

theorem atomically {f : σ → α × σ} {c : κ} {Q : α → κ → Prop}
    (h : ∀ s, A s → R (s, c) ((f s).2, c) ∧ Q (f s).1 c) : Follows A R (.atomically f) c Q :=
  step fun s _ _ _ ha he => by cases he; exact h s ha

theorem atomic {p : Prog σ κ α} {c : κ} {Q : α → κ → Prop}
    (h : ∀ s, A s → Triple p (s, c) fun a s' => R (s, c) s' ∧ Q a s'.2) : Follows A R p.atomic c Q :=
  step fun s a s' c' ha he => h s ha a (s', c') he

theorem startIf {m : Act σ κ β} {k : β → Prog σ κ α} {c : κ} {C : σ × κ → Bool} {Q : α → κ → Prop}
    (h : ∀ s b s' c', A s → C (s, c) = true → m (s, c) = some (b, s', c') →
      R (s, c) (s', c') ∧ Follows A R (k b) c' Q) : Follows A R ((Prog.act m k).startIf C) c Q := by
  intro s b s' c' ha he
  simp only at he
  split at he
  · rename_i hC
    exact h s b s' c' ha hC he
  · cases he

theorem startIf_of {p : Prog σ κ α} {c : κ} {C : σ × κ → Bool} {Q : α → κ → Prop} (h : Follows A R p c Q) :
    Follows A R (p.startIf C) c Q := by
  cases p with
  | ret a => exact h
  | act m k => exact startIf fun s b s' c' ha _ hm => h s b s' c' ha hm

theorem startIf_bind {p : Prog σ κ α} {f : α → Prog σ κ β} {c : κ} {C : σ × κ → Bool} {Q : β → κ → Prop}
    (h : Follows A R (p.startIf C) c fun a c' => Follows A R (f a) c' Q) :
    Follows A R ((p >>= f).startIf C) c Q := by
  cases p with
  | ret a => exact startIf_of h
  | act m k =>
    show Follows A R ((Prog.act m k).startIf C >>= f) c Q
    exact bind h

/-- A program that may fail, and what follows it if it does not. -/
theorem bindE {x : ExceptT ε (Prog σ κ) α} {f : α → ExceptT ε (Prog σ κ) β} {c : κ}
    {Q : Except ε β → κ → Prop}
    (h : Follows A R x.run c fun r c' => match r with
      | .ok a => Follows A R (f a).run c' Q
      | .error e => Q (.error e) c') : Follows A R (x >>= f).run c Q := by
  refine bind (mono h fun r c' hr => ?_)
  cases r with
  | ok a => exact hr
  | error e => exact hr

theorem onError {x : ExceptT ε (Prog σ κ) α} {cleanup : Prog σ κ Unit} {c : κ}
    {Q : Except ε α → κ → Prop}
    (h : Follows A R x.run c fun r c' => match r with
      | .ok a => Q (.ok a) c'
      | .error e => Follows A R cleanup c' fun _ c'' => Q (.error e) c'') :
    Follows A R (Prog.onError cleanup x).run c Q := by
  refine bind (mono h fun r c' hr => ?_)
  cases r with
  | ok a => exact hr
  | error e => exact bind (mono hr fun _ _ hq => hq)

/-- More may be assumed. -/
theorem assume {A' : σ → Prop} {p : Prog σ κ α} {c : κ} {Q : α → κ → Prop} (h : Follows A R p c Q)
    (hA : ∀ s, A' s → A s) : Follows A' R p c Q := by
  induction p generalizing c with
  | ret a => exact h
  | act m k ih =>
    intro s b s' c' ha hm
    obtain ⟨hR, hk⟩ := h s b s' c' (hA s ha) hm
    exact ⟨hR, ih b hk⟩

/-- A guard that always holds can be left out. -/
theorem of_startIf {p : Prog σ κ α} {c : κ} {C : σ × κ → Bool} {Q : α → κ → Prop} (hC : ∀ s, C s = true)
    (h : Follows A R (p.startIf C) c Q) : Follows A R p c Q := by
  cases p with
  | ret a => exact h
  | act m k =>
    intro s b s' c' ha hm
    refine h s b s' c' ha ?_
    simp only [hC, if_true]
    exact hm

/-- The steps of a program, taken without a break. -/
theorem triple {p : Prog σ κ α} {c : κ} {Q : α → κ → Prop} [Std.Refl R] [IsTrans (σ × κ) R]
    (h : Follows (fun _ => True) R p c Q) (s : σ) : Triple p (s, c) fun a s' => R (s, c) s' ∧ Q a s'.2 := by
  induction p generalizing c s with
  | ret a =>
    rintro b s' hrun
    cases hrun
    exact ⟨Std.Refl.refl _, h⟩
  | act m k ih =>
    intro a s' hrun
    cases hm : m (s, c) with
    | none =>
      simp only [Prog.run, hm] at hrun
      cases hrun
    | some r =>
      obtain ⟨b, s₁, c₁⟩ := r
      simp only [Prog.run, hm] at hrun
      obtain ⟨hR, hk⟩ := h s b s₁ c₁ trivial hm
      obtain ⟨hR', hQ⟩ := ih b hk s₁ a s' hrun
      exact ⟨IsTrans.trans _ _ _ hR hR', hQ⟩

end Follows

section

variable {prog : ι → Prog σ κ Unit} {c₀ : κ} {s₀ : σ} {A : σ → Prop} {R : σ × κ → σ × κ → Prop}
  {D : κ → Prop}

/-- If the steps of every call are in `R`, then an invariant of the shared
state and of the calls in flight that `R` keeps, given what is already known
of every state reached (`K`) and what the run allows (`G`), and that the calls
that return leave behind, holds in every state reached. -/
theorem reachableIf_inv_of {K I : σ → Multiset κ → Prop} {G : σ → κ → Multiset κ → Prop}
    (hprog : ∀ i, Follows A R (prog i) c₀ fun _ c => D c)
    (hK : ∀ x, ReachableIf prog c₀ s₀ G x → K x.1 x.calls) (hA : ∀ s F, K s F → I s F → A s)
    (h₀ : I s₀ 0) (hcall : ∀ s F, I s F → I s (c₀ ::ₘ F))
    (hret : ∀ s c F, D c → I s (c ::ₘ F) → I s F)
    (hstep : ∀ s c s' c' F, K s (c ::ₘ F) → K s' (c' ::ₘ F) → G s c F → R (s, c) (s', c') →
      I s (c ::ₘ F) → I s' (c' ::ₘ F)) {x : Config σ κ}
    (hx : ReachableIf prog c₀ s₀ G x) : I x.1 x.calls := by
  suffices h : I x.1 x.calls ∧ ∀ t ∈ x.2, Follows A R t.2 t.1 fun _ c => D c from h.1
  induction hx with
  | refl => exact ⟨h₀, fun t ht => absurd ht (Multiset.notMem_zero t)⟩
  | tail hr hs ih =>
    have hk := hK _ hr
    have hk' := hK _ (hr.tail hs)
    obtain ⟨hi, hw⟩ := ih
    have ha := hA _ _ hk hi
    cases hs with
    | call i =>
      refine ⟨by simpa [Config.calls] using hcall _ _ hi, fun t ht => ?_⟩
      rcases Multiset.mem_cons.mp ht with rfl | ht
      · exact hprog i
      · exact hw t ht
    | act hm hG =>
      simp only [Config.calls, Multiset.map_cons] at hk hk' hi ⊢
      obtain ⟨hR, hf⟩ := hw _ (Multiset.mem_cons_self ..) _ _ _ _ ha hm
      refine ⟨hstep _ _ _ _ _ hk hk' hG hR hi, fun t ht => ?_⟩
      rcases Multiset.mem_cons.mp ht with rfl | ht
      · exact hf
      · exact hw t (Multiset.mem_cons_of_mem ht)
    | ret =>
      simp only [Config.calls, Multiset.map_cons] at hi ⊢
      exact ⟨hret _ _ _ (hw _ (Multiset.mem_cons_self ..)) hi,
        fun t ht => hw t (Multiset.mem_cons_of_mem ht)⟩

/-- `reachableIf_inv_of` of all runs. -/
theorem reachable_inv_of {K I : σ → Multiset κ → Prop}
    (hprog : ∀ i, Follows A R (prog i) c₀ fun _ c => D c)
    (hK : ∀ x, Reachable prog c₀ s₀ x → K x.1 x.calls) (hA : ∀ s F, K s F → I s F → A s)
    (h₀ : I s₀ 0) (hcall : ∀ s F, I s F → I s (c₀ ::ₘ F))
    (hret : ∀ s c F, D c → I s (c ::ₘ F) → I s F)
    (hstep : ∀ s c s' c' F, K s (c ::ₘ F) → K s' (c' ::ₘ F) → R (s, c) (s', c') →
      I s (c ::ₘ F) → I s' (c' ::ₘ F)) {x : Config σ κ}
    (hx : Reachable prog c₀ s₀ x) : I x.1 x.calls :=
  reachableIf_inv_of hprog hK hA h₀ hcall hret (fun s c s' c' F hk hk' _ => hstep s c s' c' F hk hk') hx

/-- `reachable_inv_of` where nothing is known yet. -/
theorem reachable_inv {I : σ → Multiset κ → Prop}
    (hprog : ∀ i, Follows A R (prog i) c₀ fun _ c => D c) (hA : ∀ s F, I s F → A s)
    (h₀ : I s₀ 0) (hcall : ∀ s F, I s F → I s (c₀ ::ₘ F))
    (hret : ∀ s c F, D c → I s (c ::ₘ F) → I s F)
    (hstep : ∀ s c s' c' F, R (s, c) (s', c') → I s (c ::ₘ F) → I s' (c' ::ₘ F))
    {x : Config σ κ} (hx : Reachable prog c₀ s₀ x) : I x.1 x.calls :=
  reachable_inv_of (K := fun _ _ => True) hprog (fun _ _ => trivial) (fun s F _ => hA s F) h₀ hcall
    hret (fun s c s' c' F _ _ => hstep s c s' c' F) hx

end

end Moby.Framework
