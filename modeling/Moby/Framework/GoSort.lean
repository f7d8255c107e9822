import Mathlib.Data.List.Perm.Basic

/-!
# sort.Sort

The algorithm of package `sort` (Go 1.6): quicksort with the median of three or nine elements as
pivot, heapsort where that goes too deep, and for at most 12 elements a pass over the elements that are
six apart and an insertion sort. All that is ever done to the elements is to swap two of them, so the
result has the same elements (`perm_sort`). Elements of which none is less than the other keep their
order if they are all there is (`sort_eq_self`), or if there are at most 12 elements and the pass has nothing to do
(`filter_sort`).
-/

namespace Moby.Framework.GoSort

variable {α : Type}

/-- `data.Less(i, j)`. -/
def lessAt (less : α → α → Bool) (l : List α) (i j : ℕ) : Bool :=
  match l[i]?, l[j]? with
  | some x, some y => less x y
  | _, _ => false

/-- `data.Swap(i, j)`. -/
def swap (l : List α) (i j : ℕ) : List α :=
  match l[i]?, l[j]? with
  | some x, some y => (l.set i y).set j x
  | _, _ => l

section

variable (less : α → α → Bool)

/-! ## Small slices -/

/-- The inner loop of `insertionSort`. -/
def insertBack (a : ℕ) : ℕ → List α → List α
  | 0, l => l
  | j + 1, l => if a < j + 1 ∧ lessAt less l (j + 1) j then insertBack a j (swap l (j + 1) j) else l

def insertionSort (a b : ℕ) (l : List α) : List α :=
  (List.range' (a + 1) (b - (a + 1))).foldl (fun l i => insertBack less a i l) l

/-- The pass with gap 6. -/
def shellPass (a b : ℕ) (l : List α) : List α :=
  (List.range' (a + 6) (b - (a + 6))).foldl (fun l i => if lessAt less l i (i - 6) then swap l i (i - 6) else l) l

/-! ## Heapsort -/

/-- `siftDown`, with a bound for the steps. -/
def siftDown (first hi : ℕ) : ℕ → ℕ → List α → List α
  | 0, _, l => l
  | n + 1, root, l =>
    let child := 2 * root + 1
    if hi ≤ child then l
    else
      let child := if child + 1 < hi ∧ lessAt less l (first + child) (first + child + 1) then child + 1 else child
      if lessAt less l (first + root) (first + child) then siftDown first hi n child (swap l (first + root) (first + child))
      else l

def heapSort (a b : ℕ) (l : List α) : List α :=
  let hi := b - a
  let l := (List.range ((hi - 1) / 2 + 1)).reverse.foldl (fun l i => siftDown less a hi hi i l) l
  (List.range hi).reverse.foldl (fun l i => siftDown less a i i 0 (swap l a (a + i))) l

/-! ## The pivot -/

/-- Moves the median of three elements to `m1`. -/
def medianOfThree (l : List α) (m1 m0 m2 : ℕ) : List α :=
  let l := if lessAt less l m1 m0 then swap l m1 m0 else l
  if lessAt less l m2 m1 then
    let l := swap l m2 m1
    if lessAt less l m1 m0 then swap l m1 m0 else l
  else l

/-- `for ; i < bound && test(i); i++`, where the first argument is at least `bound - i`. -/
def climb (test : ℕ → Bool) : ℕ → ℕ → ℕ → ℕ
  | 0, i, _ => i
  | n + 1, i, bound => if i < bound ∧ test i then climb test n (i + 1) bound else i

/-- `for ; bound < i && test(i-1); i--`. -/
def descend (test : ℕ → Bool) : ℕ → ℕ → ℕ → ℕ
  | 0, i, _ => i
  | n + 1, i, bound => if bound < i ∧ test (i - 1) then descend test n (i - 1) bound else i

/-- The elements up to `b` are not greater than the pivot, those from `c` on are. -/
def partitionLoop (pivot : ℕ) : ℕ → List α → ℕ → ℕ → List α × ℕ × ℕ
  | 0, l, b, c => (l, b, c)
  | n + 1, l, b, c =>
    let b := climb (fun i => !lessAt less l pivot i) (c - b) b c
    let c := descend (fun i => lessAt less l pivot i) (c - b) c b
    if c ≤ b then (l, b, c) else partitionLoop pivot n (swap l b (c - 1)) (b + 1) (c - 1)

/-- Are there duplicates of the pivot? -/
def testDups (l : List α) (lo hi m b c : ℕ) : (List α × ℕ × ℕ) × Bool :=
  let r := if lessAt less l lo (hi - 1) then (l, c, 0) else (swap l c (hi - 1), c + 1, 1)
  let l := r.1
  let c := r.2.1
  let q := if lessAt less l (b - 1) lo then (b, r.2.2) else (b - 1, r.2.2 + 1)
  let b := q.1
  let p := if lessAt less l m lo then (l, b, q.2) else (swap l m (b - 1), b - 1, q.2 + 1)
  ((p.1, p.2.1, c), decide (1 < p.2.2))

/-- Moves the duplicates of the pivot to the end of the part before `b`. -/
def gatherLoop (pivot : ℕ) : ℕ → List α → ℕ → ℕ → List α × ℕ
  | 0, l, _, b => (l, b)
  | n + 1, l, a, b =>
    let b := descend (fun i => !lessAt less l i pivot) (b - a) b a
    let a := climb (fun i => lessAt less l i pivot) (b - a) a b
    if b ≤ a then (l, b) else gatherLoop pivot n (swap l a (b - 1)) (a + 1) (b - 1)

/-- The median of nine if there are many elements, and otherwise that of three. -/
def choosePivot (l : List α) (lo hi m : ℕ) : List α :=
  let s := (hi - lo) / 8
  let l :=
    if 40 < hi - lo then
      let l := medianOfThree less l lo (lo + s) (lo + 2 * s)
      let l := medianOfThree less l m (m - s) (m + s)
      medianOfThree less l (hi - 1) (hi - 1 - s) (hi - 1 - 2 * s)
    else l
  medianOfThree less l lo m (hi - 1)

/-- The elements, and where those that are equal to the pivot begin and end. -/
def doPivot (l : List α) (lo hi : ℕ) : List α × ℕ × ℕ :=
  let m := lo + (hi - lo) / 2
  let l := choosePivot less l lo hi m
  let a := climb (fun i => lessAt less l i lo) (hi - lo) (lo + 1) (hi - 1)
  let r := partitionLoop less lo (hi - lo) l a (hi - 1)
  let c := r.2.2
  let d :=
    if 5 ≤ hi - c ∧ hi - c < (hi - lo) / 4 then testDups less r.1 lo hi m r.2.1 c else (r, decide (hi - c < 5))
  let g := if d.2 then gatherLoop less lo (hi - lo) d.1.1 a d.1.2.1 else (d.1.1, d.1.2.1)
  (swap g.1 lo (g.2 - 1), g.2 - 1, d.1.2.2)

/-! ## Sort -/

def sortSmall (a b : ℕ) (l : List α) : List α :=
  if 1 < b - a then insertionSort less a b (shellPass less a b l) else l

/-- The recursion is on `maxDepth`; the loop goes on with the larger part. -/
def quickSort : ℕ → ℕ → ℕ → List α → List α
  | 0, a, b, l => if 12 < b - a then heapSort less a b l else sortSmall less a b l
  | maxDepth + 1, a, b, l =>
    if 12 < b - a then
      let r := doPivot less l a b
      if r.2.1 - a < b - r.2.2 then quickSort maxDepth r.2.2 b (quickSort maxDepth a r.2.1 r.1)
      else quickSort maxDepth a r.2.1 (quickSort maxDepth r.2.2 b r.1)
    else sortSmall less a b l

/-- Twice the number of binary digits. -/
def maxDepth (n : ℕ) : ℕ := if n = 0 then 0 else 2 * (Nat.log2 n + 1)

def sort (l : List α) : List α := quickSort less (maxDepth l.length) 0 l.length l

end

/-! ## The elements stay -/

section Perm

variable {less : α → α → Bool}

theorem perm_swap (l : List α) (i j : ℕ) : (swap l i j).Perm l := by
  unfold swap
  split
  · rename_i x y hx hy
    obtain ⟨hi, rfl⟩ := List.getElem?_eq_some_iff.mp hx
    obtain ⟨hj, rfl⟩ := List.getElem?_eq_some_iff.mp hy
    exact List.set_set_perm hi hj
  · exact .refl l

theorem perm_ite {p : Prop} [Decidable p] {l l₁ l₂ : List α} (h₁ : l₁.Perm l) (h₂ : l₂.Perm l) :
    (if p then l₁ else l₂).Perm l := by
  split
  · exact h₁
  · exact h₂

theorem perm_foldl {f : List α → ℕ → List α} (h : ∀ l i, (f l i).Perm l) (is : List ℕ) (l : List α) : (is.foldl f l).Perm l := by
  induction is generalizing l with
  | nil => exact .refl l
  | cons i is ih => exact (ih _).trans (h l i)

theorem perm_insertBack (a j : ℕ) (l : List α) : (insertBack less a j l).Perm l := by
  induction j generalizing l with
  | zero => exact .refl l
  | succ j ih => exact perm_ite ((ih _).trans (perm_swap l _ _)) (.refl l)

theorem perm_sortSmall (a b : ℕ) (l : List α) : (sortSmall less a b l).Perm l := by
  have hshell : (shellPass less a b l).Perm l := perm_foldl (fun l i => perm_ite (perm_swap l _ _) (.refl l)) _ l
  have hsort (l : List α) : (insertionSort less a b l).Perm l := perm_foldl (fun l i => perm_insertBack a i l) _ l
  exact perm_ite ((hsort _).trans hshell) (.refl l)

theorem perm_siftDown (first hi n root : ℕ) (l : List α) : (siftDown less first hi n root l).Perm l := by
  induction n generalizing root l with
  | zero => exact .refl l
  | succ n ih => exact perm_ite (.refl l) (perm_ite ((ih _ _).trans (perm_swap l _ _)) (.refl l))

theorem perm_heapSort (a b : ℕ) (l : List α) : (heapSort less a b l).Perm l := by
  refine (perm_foldl (fun l i => ?_) _ _).trans (perm_foldl (fun l i => perm_siftDown _ _ _ i l) _ l)
  exact (perm_siftDown _ _ _ _ _).trans (perm_swap l _ _)

theorem perm_medianOfThree (l : List α) (m1 m0 m2 : ℕ) : (medianOfThree less l m1 m0 m2).Perm l := by
  have hfirst : (if lessAt less l m1 m0 then swap l m1 m0 else l).Perm l := perm_ite (perm_swap l _ _) (.refl l)
  refine perm_ite (perm_ite ?_ ?_) hfirst
  · exact (perm_swap _ _ _).trans ((perm_swap _ _ _).trans hfirst)
  · exact (perm_swap _ _ _).trans hfirst

theorem perm_choosePivot (l : List α) (lo hi m : ℕ) : (choosePivot less l lo hi m).Perm l := by
  refine (perm_medianOfThree _ _ _ _).trans (perm_ite ?_ (.refl l))
  exact (perm_medianOfThree _ _ _ _).trans ((perm_medianOfThree _ _ _ _).trans (perm_medianOfThree _ _ _ _))

theorem perm_partitionLoop (pivot n : ℕ) (l : List α) (b c : ℕ) : (partitionLoop less pivot n l b c).1.Perm l := by
  induction n generalizing l b c with
  | zero => exact .refl l
  | succ n ih =>
    rw [partitionLoop]
    split
    · exact .refl l
    · exact (ih _ _ _).trans (perm_swap l _ _)

theorem perm_gatherLoop (pivot n : ℕ) (l : List α) (a b : ℕ) : (gatherLoop less pivot n l a b).1.Perm l := by
  induction n generalizing l a b with
  | zero => exact .refl l
  | succ n ih =>
    rw [gatherLoop]
    split
    · exact .refl l
    · exact (ih _ _ _).trans (perm_swap l _ _)

theorem perm_testDups (l : List α) (lo hi m b c : ℕ) : (testDups less l lo hi m b c).1.1.Perm l := by
  have hfirst : (if lessAt less l lo (hi - 1) then (l, c, 0) else (swap l c (hi - 1), c + 1, 1)).1.Perm l := by
    split
    · exact .refl l
    · exact perm_swap l _ _
  rw [testDups]
  dsimp only
  generalize hr : (if lessAt less l lo (hi - 1) then (l, c, 0) else (swap l c (hi - 1), c + 1, 1)) = r at hfirst ⊢
  generalize (if lessAt less r.1 (b - 1) lo then (b, r.2.2) else (b - 1, r.2.2 + 1)) = q
  split
  · exact hfirst
  · exact (perm_swap _ _ _).trans hfirst

theorem perm_doPivot (l : List α) (lo hi : ℕ) : (doPivot less l lo hi).1.Perm l := by
  rw [doPivot]
  dsimp only
  refine (perm_swap _ _ _).trans ?_
  have hchoose := @perm_choosePivot _ less l lo hi (lo + (hi - lo) / 2)
  generalize choosePivot less l lo hi (lo + (hi - lo) / 2) = l₁ at hchoose ⊢
  generalize climb (fun i => lessAt less l₁ i lo) (hi - lo) (lo + 1) (hi - 1) = a
  have hpart := (@perm_partitionLoop _ less lo (hi - lo) l₁ a (hi - 1)).trans hchoose
  generalize partitionLoop less lo (hi - lo) l₁ a (hi - 1) = r at hpart ⊢
  have hdups : (if 5 ≤ hi - r.2.2 ∧ hi - r.2.2 < (hi - lo) / 4 then
      testDups less r.1 lo hi (lo + (hi - lo) / 2) r.2.1 r.2.2 else (r, decide (hi - r.2.2 < 5))).1.1.Perm l := by
    split
    · exact (perm_testDups _ _ _ _ _ _).trans hpart
    · exact hpart
  generalize (if 5 ≤ hi - r.2.2 ∧ hi - r.2.2 < (hi - lo) / 4 then
    testDups less r.1 lo hi (lo + (hi - lo) / 2) r.2.1 r.2.2 else (r, decide (hi - r.2.2 < 5))) = d at hdups ⊢
  split
  · exact (perm_gatherLoop _ _ _ _ _).trans hdups
  · exact hdups

theorem perm_quickSort (n a b : ℕ) (l : List α) : (quickSort less n a b l).Perm l := by
  induction n generalizing a b l with
  | zero => exact perm_ite (perm_heapSort a b l) (perm_sortSmall a b l)
  | succ n ih =>
    rw [quickSort]
    refine perm_ite ?_ (perm_sortSmall a b l)
    dsimp only
    exact perm_ite ((ih _ _ _).trans ((ih _ _ _).trans (perm_doPivot l a b)))
      ((ih _ _ _).trans ((ih _ _ _).trans (perm_doPivot l a b)))

theorem perm_sort (l : List α) : (sort less l).Perm l := perm_quickSort _ _ _ l

end Perm

/-! ## Elements that keep their order -/

section Same

theorem climb_false (n i bound : ℕ) : climb (fun _ => false) n i bound = i := by
  cases n <;> simp [climb]

theorem descend_false (n i bound : ℕ) : descend (fun _ => false) n i bound = i := by
  cases n <;> simp [descend]

theorem climb_true (n i : ℕ) : climb (fun _ => true) n i (i + n) = i + n := by
  induction n generalizing i with
  | zero => rfl
  | succ n ih =>
    rw [climb, if_pos ⟨by omega, rfl⟩, show i + (n + 1) = i + 1 + n by omega]
    exact ih (i + 1)

theorem descend_true (n bound : ℕ) : descend (fun _ => true) n (bound + n) bound = bound := by
  induction n with
  | zero => rfl
  | succ n ih =>
    rw [descend, if_pos ⟨by omega, rfl⟩]
    exact ih

theorem swap_self (l : List α) (i : ℕ) : swap l i i = l := by
  unfold swap
  split
  · rename_i x y hx hy
    obtain ⟨hi, rfl⟩ := List.getElem?_eq_some_iff.mp hx
    rw [List.set_set, List.set_getElem_self]
  · rfl

variable {less : α → α → Bool} {l : List α} (hl : ∀ i j, lessAt less l i j = false)

include hl

/-- All elements are equal to the pivot. -/
theorem doPivot_same (lo k : ℕ) : doPivot less l lo (lo + 1 + k + 1) = (l, lo, lo + 1 + k) := by
  have hclimb := climb_true k (lo + 1)
  have hdescend := descend_true k (lo + 1)
  have hsize : lo + 1 + k + 1 - lo = k + 1 + 1 := by omega
  have hk : lo + 1 + k - (lo + 1) = k := by omega
  simp only [doPivot, choosePivot, medianOfThree, hl, Bool.false_eq_true, if_false, ite_self, climb_false, hsize,
    Nat.add_sub_cancel, partitionLoop, Bool.not_false, hk, hclimb, descend_false, Nat.le_refl, if_true,
    Nat.add_sub_cancel_left, gatherLoop]
  simp [hl, hk, hdescend, climb_false, swap_self]

/-- Many elements of which none is less than another stay where they are. -/
theorem sort_eq_self (hlong : 12 < l.length) : sort less l = l := by
  have hfew (n a b : ℕ) (h : b - a ≤ 1) : quickSort less n a b l = l := by
    have hsmall : sortSmall less a b l = l := if_neg (Nat.not_lt.mpr h)
    cases n with
    | zero => rw [quickSort, if_neg (by omega), hsmall]
    | succ n => rw [quickSort, if_neg (by omega), hsmall]
  obtain ⟨k, hk⟩ : ∃ k, l.length = 0 + 1 + k + 1 := ⟨l.length - 2, by omega⟩
  obtain ⟨n, hn⟩ : ∃ n, maxDepth l.length = n + 1 := by
    rw [maxDepth, if_neg (by omega)]
    exact ⟨2 * Nat.log2 l.length + 1, by omega⟩
  rw [sort, hn, quickSort, if_pos (by omega), hk, doPivot_same hl]
  dsimp only
  rw [if_pos (by omega), hfew _ _ _ (by omega), hfew _ _ _ (by omega)]

end Same

section Stable

variable {less : α → α → Bool} {p : α → Bool} (hp : ∀ x y, less x y = true → ¬ (p x = true ∧ p y = true))

theorem lessAt_eq_true {l : List α} {i j : ℕ} (h : lessAt less l i j = true) :
    ∃ x y, l[i]? = some x ∧ l[j]? = some y ∧ less x y = true := by
  unfold lessAt at h
  split at h
  · rename_i x y hx hy
    exact ⟨x, y, hx, hy, h⟩
  · cases h

theorem swap_eq {u v : List α} {x y : α} : swap (u ++ x :: y :: v) (u.length + 1) u.length = u ++ y :: x :: v := by
  have hx : (u ++ x :: y :: v)[u.length]? = some x := by simp
  have hy : (u ++ x :: y :: v)[u.length + 1]? = some y := by simp
  rw [swap, hy, hx]
  simp

theorem filter_exchange {x y : α} (h : ¬ (p y = true ∧ p x = true)) (u v : List α) :
    (u ++ y :: x :: v).filter p = (u ++ x :: y :: v).filter p := by
  rw [List.filter_append, List.filter_append]
  cases hpx : p x with
  | false => simp [List.filter_cons, hpx]
  | true =>
    have hpy : p y = false := Bool.eq_false_iff.mpr fun hpy => h ⟨hpy, hpx⟩
    simp [hpx, hpy]

theorem shellPass_eq {l : List α} (h : ∀ i, lessAt less l (i + 6) i = false) (b : ℕ) : shellPass less 0 b l = l := by
  have hnone : ∀ i ∈ List.range' (0 + 6) (b - (0 + 6)), lessAt less l i (i - 6) = false := by
    intro i hi
    obtain ⟨k, -, rfl⟩ := List.mem_range'.mp hi
    have := h k
    simpa [Nat.add_comm] using this
  rw [shellPass]
  generalize List.range' (0 + 6) (b - (0 + 6)) = is at hnone ⊢
  induction is with
  | nil => rfl
  | cons i is ih =>
    obtain ⟨hi, hrest⟩ := List.forall_mem_cons.mp hnone
    rw [List.foldl_cons, if_neg (by simp [hi])]
    exact ih hrest

include hp

/-- Neighbours that are not both wanted change their places. -/
theorem filter_swap {l : List α} {j : ℕ} (h : lessAt less l (j + 1) j = true) : (swap l (j + 1) j).filter p = l.filter p := by
  obtain ⟨y, x, hy, hx, hless⟩ := lessAt_eq_true h
  obtain ⟨hj, rfl⟩ := List.getElem?_eq_some_iff.mp hx
  obtain ⟨hj', rfl⟩ := List.getElem?_eq_some_iff.mp hy
  have hl : l = l.take j ++ l[j] :: l[j + 1] :: l.drop (j + 2) := by
    rw [← List.drop_eq_getElem_cons hj', ← List.drop_eq_getElem_cons hj, List.take_append_drop]
  have hlen : (l.take j).length = j := List.length_take_of_le (Nat.le_of_lt hj)
  have hswap := swap_eq (u := l.take j) (v := l.drop (j + 2)) (x := l[j]) (y := l[j + 1])
  rw [← hl, hlen] at hswap
  calc (swap l (j + 1) j).filter p
      = (l.take j ++ l[j + 1] :: l[j] :: l.drop (j + 2)).filter p := by rw [hswap]
    _ = (l.take j ++ l[j] :: l[j + 1] :: l.drop (j + 2)).filter p := filter_exchange (hp _ _ hless) _ _
    _ = l.filter p := by rw [← hl]

theorem filter_insertBack (a j : ℕ) (l : List α) : (insertBack less a j l).filter p = l.filter p := by
  induction j generalizing l with
  | zero => rfl
  | succ j ih =>
    rw [insertBack]
    split
    · rename_i h
      rw [ih, filter_swap hp h.2]
    · rfl

theorem filter_insertionSort (a b : ℕ) (l : List α) : (insertionSort less a b l).filter p = l.filter p := by
  rw [insertionSort]
  generalize List.range' (a + 1) (b - (a + 1)) = is
  induction is generalizing l with
  | nil => rfl
  | cons i is ih => rw [List.foldl_cons, ih, filter_insertBack hp]

/-- Of a few elements of which none is less than the one six places before it, those that are not less
than each other keep their order. -/
theorem filter_sort {l : List α} (hlen : l.length ≤ 12) (h : ∀ i, lessAt less l (i + 6) i = false) :
    (sort less l).filter p = l.filter p := by
  have hsmall : sort less l = sortSmall less 0 l.length l := by
    rw [sort]
    cases maxDepth l.length with
    | zero => exact if_neg (by omega)
    | succ n => exact if_neg (by omega)
  rw [hsmall, sortSmall]
  split
  · rw [filter_insertionSort hp, shellPass_eq h]
  · rfl

end Stable

end Moby.Framework.GoSort
