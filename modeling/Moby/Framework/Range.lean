import Mathlib.Data.List.Sort
import Moby.Framework.Map

/-!
# The order of a loop over a map

Go visits the entries of a map in an order that is not specified. A `Range` is one such order for
all maps of a type; what holds of a loop holds for each of them. `Range.sorted` visits the keys in
their own order, and `Range.reverse` goes backwards.
-/

namespace Moby.Framework

/-- An order for the entries of each map. -/
structure Range (K V : Type) where
  list : Map K V → List (Σ _ : K, V)
  coe_list (m : Map K V) : (list m : Multiset (Σ _ : K, V)) = m.entries

namespace Range

variable {K V : Type}

variable (r : Range K V)

theorem mem_list [DecidableEq K] {m : Map K V} {k : K} {v : V} : ⟨k, v⟩ ∈ r.list m ↔ m.lookup k = some v := by
  rw [← Finmap.mem_entries, ← r.coe_list, Multiset.mem_coe]

theorem nodup_list (m : Map K V) : (r.list m).Nodup := by
  have h := m.nodupKeys.nodup
  rw [← r.coe_list] at h
  exact Multiset.coe_nodup.mp h

/-- The other way round. -/
def reverse : Range K V where
  list m := (r.list m).reverse
  coe_list m := by rw [Multiset.coe_reverse, r.coe_list]

/-- The elements in their order, by insertion. -/
def inOrder [LinearOrder K] (s : Multiset K) : List K :=
  Quot.liftOn s (List.insertionSort (· ≤ ·)) fun _ _ h =>
    (((List.perm_insertionSort _ _).trans h).trans (List.perm_insertionSort _ _).symm).eq_of_pairwise'
      (List.pairwise_insertionSort _ _) (List.pairwise_insertionSort _ _)

theorem coe_inOrder [LinearOrder K] (s : Multiset K) : (inOrder s : Multiset K) = s :=
  Quot.inductionOn s fun l => Quot.sound (List.perm_insertionSort _ l)

/-- The keys in their order. -/
def sorted [LinearOrder K] : Range K V where
  list m := (inOrder m.keys.val).filterMap fun k => (m.lookup k).map (Sigma.mk k)
  coe_list m := by
    have hinj : ∀ k k' (e : Σ _ : K, V), e ∈ (m.lookup k).map (Sigma.mk k) → e ∈ (m.lookup k').map (Sigma.mk k') →
        k = k' := by
      intro k k' e h h'
      obtain ⟨v, -, rfl⟩ := Option.map_eq_some_iff.mp h
      obtain ⟨v', -, he⟩ := Option.map_eq_some_iff.mp h'
      exact (congrArg Sigma.fst he).symm
    refine (Multiset.Nodup.ext ?_ m.nodupKeys.nodup).mpr ?_
    · have hkeys : (inOrder m.keys.val).Nodup := Multiset.coe_nodup.mp (by rw [coe_inOrder]; exact m.keys.nodup)
      exact Multiset.coe_nodup.mpr (hkeys.filterMap hinj)
    · rintro ⟨k, v⟩
      rw [Finmap.mem_entries, Multiset.mem_coe, List.mem_filterMap]
      constructor
      · rintro ⟨k', -, h⟩
        obtain ⟨v', hv, he⟩ := Option.map_eq_some_iff.mp h
        cases he
        exact hv
      · intro h
        refine ⟨k, ?_, by rw [h]; rfl⟩
        rw [← Multiset.mem_coe, coe_inOrder, Finset.mem_val, Finmap.mem_keys]
        exact Finmap.mem_of_lookup_eq_some h

end Range

end Moby.Framework
