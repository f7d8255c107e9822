import Mathlib.Data.Finmap
import Mathlib.Data.Multiset.Count
import Mathlib.Data.Multiset.Filter

/-!
# Finite maps

Go's maps are Mathlib's finite maps with one type of values (`Map`). What
Mathlib's library lacks: a lookup after an insertion or a deletion as one
conditional (`lookup_insert'`, `lookup_erase'`), and the values of a map as
a multiset (`values`), which an insertion at a new key adds to and a
deletion takes from; a count of the entries that satisfy something is a
count over these. `holds` is a pointer that may be nil as a multiset.
-/

namespace Moby.Framework

/-- A finite map, Go's `map[K]V`. -/
abbrev Map (K V : Type) := Finmap fun _ : K => V

section

variable {α β : Type}

/-- The one element of a pointer that may be nil, if there is one. -/
def holds : Option α → Multiset α
  | none => 0
  | some a => {a}

theorem count_holds [DecidableEq α] (p : Option α) (a : α) :
    (holds p).count a = if p = some a then 1 else 0 := by
  cases p with
  | none => simp [holds]
  | some p =>
    simp only [holds, Multiset.count_singleton, Option.some.injEq]
    exact if_congr eq_comm rfl rfl

theorem filterMap_cons (f : α → Option β) (a : α) (s : Multiset α) :
    (a ::ₘ s).filterMap f = holds (f a) + s.filterMap f := by
  cases h : f a with
  | none => rw [Multiset.filterMap_cons_none _ _ h, holds, zero_add]
  | some b => rw [Multiset.filterMap_cons_some _ _ _ h, holds, Multiset.singleton_add]

theorem count_filterMap [DecidableEq β] (f : α → Option β) (s : Multiset α) (b : β) :
    (s.filterMap f).count b = s.countP fun a => f a = some b := by
  induction s using Multiset.induction with
  | empty => rfl
  | cons a s ih => rw [filterMap_cons, Multiset.count_add, Multiset.countP_cons, count_holds, ih, Nat.add_comm]

end

end Moby.Framework

namespace Finmap

open Moby.Framework (Map)

variable {K V : Type} [DecidableEq K]

theorem lookup_insert' (m : Map K V) (k a : K) (v : V) :
    lookup a (insert k v m) = if a = k then some v else lookup a m := by
  split
  · rename_i h; subst h; exact lookup_insert m
  · rename_i h; exact lookup_insert_of_ne m h

theorem lookup_erase' (m : Map K V) (k a : K) :
    lookup a (erase k m) = if a = k then none else lookup a m := by
  split
  · rename_i h; subst h; exact lookup_erase a m
  · rename_i h; exact lookup_erase_ne h

theorem insert_erase_of_lookup {m : Map K V} {k : K} {v : V} (h : lookup k m = some v) :
    insert k v (erase k m) = m := by
  refine ext_lookup fun a => ?_
  rw [lookup_insert', lookup_erase']
  split
  · rename_i e; rw [e, h]
  · rfl

theorem erase_insert (m : Map K V) (k : K) (v : V) : erase k (insert k v m) = erase k m := by
  refine ext_lookup fun a => ?_
  simp only [lookup_erase', lookup_insert']
  split <;> rfl

theorem erase_of_notMem {m : Map K V} {k : K} (h : k ∉ m) : erase k m = m := by
  refine ext_lookup fun a => ?_
  rw [lookup_erase']
  split
  · rename_i e; rw [e, lookup_eq_none.mpr h]
  · rfl

omit [DecidableEq K] in
/-- The values of a map, one for each entry. -/
def values (m : Map K V) : Multiset V := m.entries.map Sigma.snd

omit [DecidableEq K] in
@[simp] theorem values_empty : values (∅ : Map K V) = 0 := rfl

theorem values_insert {m : Map K V} {k : K} {v : V} (h : k ∉ m) :
    values (insert k v m) = v ::ₘ values m := by
  rw [values, entries_insert_of_notMem h, Multiset.map_cons, values]

theorem insert_erase (m : Map K V) (k : K) (v : V) : insert k v (erase k m) = insert k v m := by
  refine ext_lookup fun a => ?_
  simp only [lookup_insert', lookup_erase']
  split <;> rfl

theorem values_insert' (m : Map K V) (k : K) (v : V) :
    values (insert k v m) = v ::ₘ values (erase k m) := by
  rw [← insert_erase, values_insert notMem_erase_self]

theorem values_of_lookup {m : Map K V} {k : K} {v : V} (h : lookup k m = some v) :
    values m = v ::ₘ values (erase k m) := by
  rw [← values_insert notMem_erase_self, insert_erase_of_lookup h]

theorem mem_entries {m : Map K V} {k : K} {v : V} : ⟨k, v⟩ ∈ m.entries ↔ lookup k m = some v := by
  induction m using Finmap.induction_on with
  | H s => exact AList.mem_lookup_iff.symm

theorem mem_values {m : Map K V} {v : V} : v ∈ values m ↔ ∃ k, lookup k m = some v := by
  constructor
  · intro h
    obtain ⟨⟨k, w⟩, he, hv⟩ := Multiset.mem_map.mp h
    obtain rfl : w = v := hv
    exact ⟨k, mem_entries.mp he⟩
  · rintro ⟨k, h⟩
    rw [values_of_lookup h]
    exact Multiset.mem_cons_self ..

theorem eq_empty_of_forall_notMem {m : Map K V} (h : ∀ k, k ∉ m) : m = ∅ :=
  ext_lookup fun k => by rw [lookup_eq_none.mpr (h k), lookup_empty]

/-- The values of a map, from a list of its keys. -/
theorem values_eq_filterMap {m : Map K V} {ks : List K} (hn : ks.Nodup) (h : ∀ k, k ∈ ks ↔ k ∈ m) :
    values m = (ks.filterMap fun k => lookup k m : List V) := by
  induction ks generalizing m with
  | nil =>
    obtain rfl : m = ∅ := eq_empty_of_forall_notMem fun k hk => by simpa using (h k).mpr hk
    rfl
  | cons k ks ih =>
    obtain ⟨hk, hn⟩ := List.nodup_cons.mp hn
    obtain ⟨v, hv⟩ := Option.isSome_iff_exists.mp (lookup_isSome.mpr ((h k).mp List.mem_cons_self))
    have hks : ∀ k', k' ∈ ks ↔ k' ∈ erase k m := by
      intro k'
      rw [mem_erase, ← h k', List.mem_cons]
      constructor
      · intro h'
        exact ⟨fun e => hk (e ▸ h'), .inr h'⟩
      · rintro ⟨hne, h' | h'⟩
        · exact absurd h' hne
        · exact h'
    have hrest : ks.filterMap (fun k' => lookup k' (erase k m)) = ks.filterMap fun k' => lookup k' m :=
      List.filterMap_congr fun k' hk' => by
        have hne : k' ≠ k := fun e => hk (e ▸ hk')
        rw [lookup_erase', if_neg hne]
    rw [values_of_lookup hv, ih hn hks, hrest, List.filterMap_cons, hv, Multiset.cons_coe]

end Finmap
