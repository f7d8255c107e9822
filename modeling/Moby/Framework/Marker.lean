import Mathlib.Data.List.Basic
import Mathlib.Order.Nat

/-!
# Texts with markers between them

A list of texts is written one after the other, with a marker of its own behind
each. When can they be told apart again? The markers are fixed words, but the
texts may hold them too: two lists are written as the same just if they are the
same, or if from some text on one of them goes on with the marker (`written_eq_iff`).
-/

namespace Moby.Framework

variable {α : Type}

/-- No end of the word but itself is a beginning of it. -/
def Unbordered (k : List α) : Prop := ∀ i < k.length, 0 < i → ¬ k.drop i <+: k

instance [DecidableEq α] (k : List α) : Decidable (Unbordered k) :=
  inferInstanceAs (Decidable (∀ i < k.length, 0 < i → ¬ k.drop i <+: k))

theorem isPrefix_of_append_eq {u v x y : List α} (h : u ++ x = v ++ y) (hle : u.length ≤ v.length) : u <+: v :=
  List.prefix_of_prefix_length_le (h ▸ List.prefix_append u x) (List.prefix_append v y) hle

/-- The marker behind the shorter text is within the longer one. -/
theorem cut_of_lt {k v v' r r' : List α} (hk : Unbordered k) (h : v ++ (k ++ r) = v' ++ (k ++ r'))
    (hlt : v.length < v'.length) : v ++ k <+: v' := by
  obtain ⟨w, rfl⟩ := isPrefix_of_append_eq h (Nat.le_of_lt hlt)
  rw [List.append_assoc, List.append_cancel_left_eq] at h
  rw [List.length_append] at hlt
  rcases Nat.lt_or_ge w.length k.length with hwk | hwk
  · -- the marker would overlap itself
    exfalso
    obtain ⟨x, rfl⟩ := isPrefix_of_append_eq h.symm (Nat.le_of_lt hwk)
    refine hk w.length hwk (by omega) ?_
    rw [List.append_assoc, List.append_cancel_left_eq] at h
    rw [List.drop_left]
    exact isPrefix_of_append_eq h (by rw [List.length_append]; omega)
  · obtain ⟨u, rfl⟩ := isPrefix_of_append_eq h hwk
    exact ⟨u, by rw [List.append_assoc]⟩

/-- One of the texts is the other and then the marker and more. -/
def GoesOn (k v v' : List α) : Prop := v ++ k <+: v' ∨ v' ++ k <+: v

instance [DecidableEq α] (k v v' : List α) : Decidable (GoesOn k v v') := inferInstanceAs (Decidable (_ ∨ _))

theorem GoesOn.ne {k v v' : List α} (hk : k ≠ []) (h : GoesOn k v v') : v ≠ v' := by
  rintro rfl
  have hpos := List.length_pos_of_ne_nil hk
  rcases h with h | h <;> (have hle := h.length_le; rw [List.length_append] at hle; omega)

/-- Otherwise the marker cuts them off in one way. -/
theorem cut_unique {k v v' r r' : List α} (hk : Unbordered k) (hgoes : ¬ GoesOn k v v')
    (h : v ++ (k ++ r) = v' ++ (k ++ r')) : v = v' ∧ k ++ r = k ++ r' := by
  rcases Nat.lt_trichotomy v.length v'.length with hlt | heq | hgt
  · exact absurd (.inl (cut_of_lt hk h hlt)) hgoes
  · exact List.append_inj h heq
  · exact absurd (.inr (cut_of_lt hk h.symm hgt)) hgoes

/-- Two texts, and the marker behind both of them. -/
structure Field (α : Type) where
  left : List α
  right : List α
  key : List α

def lefts (l : List (Field α)) : List α := l.flatMap fun f => f.left ++ f.key

def rights (l : List (Field α)) : List α := l.flatMap fun f => f.right ++ f.key

/-- The texts agree up to one that goes on with its marker in one of the lists, and all that is written from there on,
with `r` and `r'` at the end, is the same. -/
def Shifted (r r' : List α) : List (Field α) → Prop
  | [] => False
  | f :: l => GoesOn f.key f.left f.right ∧ lefts (f :: l) ++ r = rights (f :: l) ++ r' ∨
    f.left = f.right ∧ Shifted r r' l

instance Shifted.decidable [DecidableEq α] (r r' : List α) : ∀ l, Decidable (Shifted r r' l)
  | [] => inferInstanceAs (Decidable False)
  | _ :: l =>
    have := Shifted.decidable r r' l
    inferInstanceAs (Decidable (_ ∧ _ ∨ _ ∧ _))

theorem Shifted.exists_ne {r r' : List α} {l : List (Field α)} (hl : ∀ f ∈ l, f.key ≠ []) (h : Shifted r r' l) :
    ∃ f ∈ l, f.left ≠ f.right := by
  induction l with
  | nil => cases h
  | cons f l ih =>
    rcases h with ⟨hgoes, -⟩ | ⟨-, h⟩
    · exact ⟨f, List.mem_cons_self, hgoes.ne (hl f List.mem_cons_self)⟩
    · obtain ⟨g, hg, hne⟩ := ih (fun g hg => hl g (List.mem_cons_of_mem f hg)) h
      exact ⟨g, List.mem_cons_of_mem f hg, hne⟩

theorem written_eq_iff {r r' : List α} {l : List (Field α)} (hl : ∀ f ∈ l, Unbordered f.key) :
    lefts l ++ r = rights l ++ r' ↔ ((∀ f ∈ l, f.left = f.right) ∧ r = r') ∨ Shifted r r' l := by
  induction l with
  | nil => simp [lefts, rights, Shifted]
  | cons f l ih =>
    have ih := ih fun g hg => hl g (List.mem_cons_of_mem f hg)
    have hleft : lefts (f :: l) ++ r = f.left ++ (f.key ++ (lefts l ++ r)) := by simp [lefts]
    have hright : rights (f :: l) ++ r' = f.right ++ (f.key ++ (rights l ++ r')) := by simp [rights]
    rw [Shifted, List.forall_mem_cons]
    constructor
    · intro h
      by_cases hgoes : GoesOn f.key f.left f.right
      · exact .inr (.inl ⟨hgoes, h⟩)
      · rw [hleft, hright] at h
        obtain ⟨heq, hrest⟩ := cut_unique (hl f List.mem_cons_self) hgoes h
        rcases ih.mp (List.append_cancel_left hrest) with ⟨hall, hr⟩ | hshift
        · exact .inl ⟨⟨heq, hall⟩, hr⟩
        · exact .inr (.inr ⟨heq, hshift⟩)
    · rintro (⟨⟨heq, hall⟩, hr⟩ | ⟨-, h⟩ | ⟨heq, hshift⟩)
      · rw [hleft, hright, heq, ih.mpr (.inl ⟨hall, hr⟩)]
      · exact h
      · rw [hleft, hright, heq, ih.mpr (.inr hshift)]

end Moby.Framework
