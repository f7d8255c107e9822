import Mathlib.Logic.Relation
import Mathlib.Order.Nat

/-!
# Relations without cycles
-/

namespace Moby.Framework

variable {α : Type}

/-- Nothing comes back to itself along `r`. -/
def Acyclic (r : α → α → Prop) : Prop := ∀ a, ¬ Relation.TransGen r a a

/-- A path along which a rank goes down is a path on one level, or its end is
on a lower level than its start. -/
theorem path_descends {r q : α → α → Prop} {rank : α → ℕ}
    (h : ∀ a b, r a b → rank b < rank a ∨ rank b = rank a ∧ q a b) {a b : α} (hab : Relation.TransGen r a b) :
    rank b < rank a ∨ rank b = rank a ∧ Relation.TransGen q a b := by
  induction hab with
  | single hab => exact (h _ _ hab).imp_right fun hq => ⟨hq.1, .single hq.2⟩
  | tail _ hbc ih =>
    rcases ih with ih | ⟨ih, hq⟩
    · exact .inl ((h _ _ hbc).elim (·.trans ih) (fun hbc => hbc.1.trans_lt ih))
    · rcases h _ _ hbc with hlt | ⟨heq, hbc⟩
      · exact .inl (ih ▸ hlt)
      · exact .inr ⟨heq.trans ih, hq.tail hbc⟩

/-- A relation along which a rank goes down has no cycle if it has none on one
level. -/
theorem Acyclic.of_rank {r q : α → α → Prop} (rank : α → ℕ) (hq : Acyclic q)
    (h : ∀ a b, r a b → rank b < rank a ∨ rank b = rank a ∧ q a b) : Acyclic r := by
  intro a ha
  rcases path_descends h ha with hlt | ⟨-, hqa⟩
  · exact lt_irrefl _ hlt
  · exact hq a hqa

theorem Acyclic.of_lt {r : α → α → Prop} (rank : α → ℕ) (h : ∀ a b, r a b → rank b < rank a) : Acyclic r := by
  refine Acyclic.of_rank (q := fun _ _ => False) rank (fun a ha => ?_) fun a b hab => .inl (h a b hab)
  cases ha <;> assumption

/-- There is no cycle at a point from which every path back along `r` ends. -/
theorem not_transGen_of_acc {r : α → α → Prop} {a : α} (h : Acc r a) : ¬ Relation.TransGen r a a := by
  have h' := h.transGen
  clear h
  induction h' with
  | intro a _ ih => exact fun ha => ih a ha ha

end Moby.Framework
