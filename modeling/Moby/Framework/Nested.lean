import Moby.Framework.Map

/-!
# Maps of maps

Go's `map[K]map[L]V`, where an inner map is made when it is first needed
(`set`) and dropped when its last entry is removed (`unset`), or kept (`drop`).
What is stored at a pair of keys is `at`, and `Filled` says that no inner map is
empty: `set` and `unset` keep this, and two such maps with the same entries are
equal (`Filled.ext`).
-/

namespace Moby.Framework

/-- Go's `map[K]map[L]V`. -/
abbrev Nested (K L V : Type) := Map K (Map L V)

namespace Nested

variable {K L V : Type} [DecidableEq K] [DecidableEq L]

/-- `m[k][l]`. -/
def at? (m : Nested K L V) (k : K) (l : L) : Option V := (m.lookup k).bind (·.lookup l)

/-- `m[k]`, made if it is not there, and `m[k][l] = v`. -/
def set (m : Nested K L V) (k : K) (l : L) (v : V) : Nested K L V :=
  m.insert k (((m.lookup k).getD ∅).insert l v)

/-- `delete(m[k], l)`, and `delete(m, k)` if nothing is left of it. -/
def unset (m : Nested K L V) (k : K) (l : L) : Nested K L V :=
  match m.lookup k with
  | none => m
  | some inner => if Multiset.card (inner.erase l).entries = 0 then m.erase k else m.insert k (inner.erase l)

/-- `delete(m[k], l)`. -/
def drop (m : Nested K L V) (k : K) (l : L) : Nested K L V :=
  match m.lookup k with
  | none => m
  | some inner => m.insert k (inner.erase l)

/-- No inner map is empty. -/
def Filled (m : Nested K L V) : Prop := ∀ k inner, m.lookup k = some inner → inner ≠ ∅

variable {m : Nested K L V}

theorem at?_empty (k : K) (l : L) : at? (∅ : Nested K L V) k l = none := rfl

omit [DecidableEq L] in
theorem filled_empty : Filled (∅ : Nested K L V) := nofun

theorem at?_of_lookup {k : K} {inner : Map L V} (h : m.lookup k = some inner) (l : L) : m.at? k l = inner.lookup l := by
  rw [at?, h]; rfl

theorem at?_of_lookup_none {k : K} (h : m.lookup k = none) (l : L) : m.at? k l = none := by
  rw [at?, h]; rfl

omit [DecidableEq L] in
theorem card_entries_eq_zero {inner : Map L V} : Multiset.card inner.entries = 0 ↔ inner = ∅ :=
  Multiset.card_eq_zero.trans ⟨fun h => Finmap.ext h, fun h => by rw [h]; rfl⟩

theorem lookup_getD (k : K) (l : L) : Finmap.lookup l ((m.lookup k).getD ∅) = m.at? k l := by
  unfold at?
  cases m.lookup k <;> rfl

theorem at?_set (m : Nested K L V) (k k' : K) (l l' : L) (v : V) :
    (m.set k l v).at? k' l' = if k' = k ∧ l' = l then some v else m.at? k' l' := by
  unfold set
  by_cases hk : k' = k
  · subst hk
    rw [at?_of_lookup (Finmap.lookup_insert m), Finmap.lookup_insert', lookup_getD]
    simp only [true_and]
  · rw [at?, Finmap.lookup_insert_of_ne m hk, if_neg fun h => hk h.1]
    rfl

theorem at?_drop (m : Nested K L V) (k k' : K) (l l' : L) :
    (m.drop k l).at? k' l' = if k' = k ∧ l' = l then none else m.at? k' l' := by
  unfold drop
  by_cases hk : k' = k
  · subst hk
    simp only [true_and]
    cases hm : m.lookup k' with
    | none => simp only [at?_of_lookup_none hm, ite_self]
    | some inner =>
      rw [at?_of_lookup (Finmap.lookup_insert m), Finmap.lookup_erase', at?_of_lookup hm]
  · rw [if_neg fun h => hk h.1]
    cases m.lookup k with
    | none => rfl
    | some inner => rw [at?, Finmap.lookup_insert_of_ne m hk]; rfl

/-- `delete(m, k)`. -/
theorem at?_erase (m : Nested K L V) (k k' : K) (l : L) :
    at? (m.erase k) k' l = if k' = k then none else m.at? k' l := by
  rw [at?, Finmap.lookup_erase']
  split <;> rfl

/-- `delete(m[k], l)` for each `k` of a list. -/
theorem at?_foldl_drop (m : Nested K L V) (ks : List K) (l : L) (k' : K) (l' : L) :
    (ks.foldl (fun m k => m.drop k l) m).at? k' l' = if k' ∈ ks ∧ l' = l then none else m.at? k' l' := by
  induction ks generalizing m with
  | nil => simp
  | cons k ks ih =>
    rw [List.foldl_cons, ih, at?_drop]
    by_cases hk : k' = k
    · subst hk
      by_cases hl : l' = l <;> simp [hl]
    · simp [hk]

theorem at?_unset (m : Nested K L V) (k k' : K) (l l' : L) :
    (m.unset k l).at? k' l' = if k' = k ∧ l' = l then none else m.at? k' l' := by
  unfold unset
  cases hm : m.lookup k with
  | none =>
    simp only
    split
    · rename_i h; rw [h.1, at?_of_lookup_none hm]
    · rfl
  | some inner =>
    have hin : ∀ x, (inner.erase l).lookup x = if x = l then none else m.at? k x := fun x => by
      rw [Finmap.lookup_erase', at?_of_lookup hm]
    simp only
    by_cases hz : Multiset.card (inner.erase l).entries = 0
    · rw [if_pos hz]
      by_cases hk : k' = k
      · subst hk
        simp only [true_and]
        rw [← hin, at?_of_lookup_none (Finmap.lookup_erase k' m), card_entries_eq_zero.mp hz]
        rfl
      · rw [if_neg fun h => hk h.1, at?, Finmap.lookup_erase_ne hk]
        rfl
    · rw [if_neg hz]
      by_cases hk : k' = k
      · subst hk
        simp only [true_and]
        rw [← hin, at?_of_lookup (Finmap.lookup_insert m)]
      · rw [if_neg fun h => hk h.1, at?, Finmap.lookup_insert_of_ne m hk]
        rfl

theorem Filled.set (h : m.Filled) (k : K) (l : L) (v : V) : (m.set k l v).Filled := by
  intro k' inner hl
  by_cases hk : k' = k
  · subst hk
    rintro rfl
    have hat := at?_set m k' k' l l v
    rw [at?_of_lookup hl, if_pos ⟨rfl, rfl⟩] at hat
    cases hat
  · rw [Nested.set, Finmap.lookup_insert_of_ne m hk] at hl
    exact h k' inner hl

theorem Filled.unset (h : m.Filled) (k : K) (l : L) : (m.unset k l).Filled := by
  intro k' inner hl
  unfold Nested.unset at hl
  cases hm : m.lookup k with
  | none => rw [hm] at hl; exact h k' inner hl
  | some i =>
    simp only [hm] at hl
    split at hl
    · rw [Finmap.lookup_erase'] at hl
      split at hl
      · cases hl
      · exact h k' inner hl
    · rename_i hne
      rw [Finmap.lookup_insert'] at hl
      split at hl
      · cases hl
        exact fun he => hne (card_entries_eq_zero.mpr he)
      · exact h k' inner hl

/-- What is in a filled map has an entry. -/
theorem Filled.exists_at? (h : m.Filled) {k : K} (hk : k ∈ m) : ∃ l v, m.at? k l = some v := by
  obtain ⟨inner, hin⟩ := Option.isSome_iff_exists.mp (Finmap.lookup_isSome.mpr hk)
  by_contra hno
  refine h k inner hin (Finmap.eq_empty_of_forall_notMem fun l hl => hno ?_)
  obtain ⟨v, hv⟩ := Option.isSome_iff_exists.mp (Finmap.lookup_isSome.mpr hl)
  exact ⟨l, v, by rw [at?_of_lookup hin, hv]⟩

/-- Filled maps with the same entries are equal. -/
theorem Filled.ext {m' : Nested K L V} (h : m.Filled) (h' : m'.Filled) (he : ∀ k l, m.at? k l = m'.at? k l) :
    m = m' := by
  refine Finmap.ext_lookup fun k => ?_
  cases hm : m.lookup k with
  | none =>
    have hk : k ∉ m' := fun hk => by
      obtain ⟨l, v, hv⟩ := h'.exists_at? hk
      rw [← he, at?_of_lookup_none hm] at hv
      cases hv
    rw [Finmap.lookup_eq_none.mpr hk]
  | some inner =>
    cases hm' : m'.lookup k with
    | none =>
      obtain ⟨l, v, hv⟩ := h.exists_at? (Finmap.mem_of_lookup_eq_some hm)
      rw [he, at?_of_lookup_none hm'] at hv
      cases hv
    | some inner' =>
      have : inner = inner' := Finmap.ext_lookup fun l => by
        rw [← at?_of_lookup hm, ← at?_of_lookup hm', he]
      rw [this]

omit [DecidableEq L] in
/-- Making an inner map that is there changes nothing. -/
theorem insert_getD {k : K} (hk : k ∈ m) : m.insert k ((m.lookup k).getD ∅) = m := by
  obtain ⟨inner, hin⟩ := Option.isSome_iff_exists.mp (Finmap.lookup_isSome.mpr hk)
  refine Finmap.ext_lookup fun a => ?_
  rw [Finmap.lookup_insert', hin]
  split
  · rename_i h; rw [h, hin]; rfl
  · rfl

theorem set_insert_getD (m : Nested K L V) (k : K) (l : L) (v : V) :
    Nested.set (m.insert k ((m.lookup k).getD ∅)) k l v = m.set k l v := by
  rw [Nested.set, Finmap.lookup_insert m, Finmap.insert_insert]
  rfl

end Nested

end Moby.Framework
