import Moby.Framework.Path
import Mathlib.Algebra.GroupWithZero.Nat
import Mathlib.Data.Finset.Insert

/-!
# Lists of numbers and ranges (pkg/parsers/parsers.go)

`ParseUintList` reads lists such as `0,3-4,7`. The counter of the loop that adds the numbers of a
range is an `int` of 64 bits, and the loop ends when it is above the upper end: no `int` is above
`9223372036854775807`, so that the loop over a range with this upper end does not end. The loop is
modelled with a bound on its rounds, and ends if some bound is enough (`parseUintList_ends_iff`).
-/

namespace Moby.Parsers

open Moby.Framework Moby.Framework.Path

/-! ## Numbers in text -/

def isDigit (b : UInt8) : Bool := 0x30 ≤ b && b ≤ 0x39

/-- The value of decimal digits, of which there is one at least. -/
def parseDigits (s : GoString) : Option ℕ :=
  if s ≠ [] ∧ s.all isDigit then some (s.foldl (fun n b => n * 10 + (b.toNat - 0x30)) 0) else none

/-- `strconv.Atoi`: an optional sign and digits, of a number of 64 bits. -/
def atoi (s : GoString) : Option Int64 :=
  match s with
  | 0x2D :: ds => (parseDigits ds).bind fun n => if n ≤ 2 ^ 63 then some (.ofInt (-(n : ℤ))) else none
  | 0x2B :: ds => (parseDigits ds).bind fun n => if n < 2 ^ 63 then some (.ofInt n) else none
  | ds => (parseDigits ds).bind fun n => if n < 2 ^ 63 then some (.ofInt n) else none

/-- What stands between two commas. -/
inductive Item
  | single (v : Int64)
  | range (min max : Int64)
  deriving DecidableEq

/-- An item of the list; there is none if its format is invalid. -/
def parseItem (r : GoString) : Option Item :=
  if 0x2D ∉ r then (atoi r).map .single
  else
    match atoi (r.takeWhile (· ≠ 0x2D)), atoi (r.dropWhile (· ≠ 0x2D)).tail with
    | some min, some max => if max < min then none else some (.range min max)
    | _, _ => none

/-! ## The list -/

/-- The loop that adds the numbers from `i` to `max`, in at most `rounds` rounds. -/
def addRange : ℕ → Int64 → Int64 → Finset Int64 → Option (Finset Int64)
  | 0, _, _, _ => none
  | rounds + 1, i, max, ints =>
    if i ≤ max then addRange rounds (i + 1) max (insert i ints) else some ints

/-- The loop over the items. -/
def parseItems (rounds : ℕ) (errInvalidFormat : GoString) :
    List GoString → Finset Int64 → Option (Except GoString (Finset Int64))
  | [], ints => some (.ok ints)
  | r :: split, ints =>
    match parseItem r with
    | none => some (.error errInvalidFormat)
    | some (.single v) => parseItems rounds errInvalidFormat split (insert v ints)
    | some (.range min max) =>
      (addRange rounds min max ints).bind (parseItems rounds errInvalidFormat split)

/-- `ParseUintList`, with at most `rounds` rounds for a range: the numbers that are mapped to
`true`, or the error. -/
def parseUintList (rounds : ℕ) (val : GoString) : Option (Except GoString (Finset Int64)) :=
  if val = [] then some (.ok ∅)
  else parseItems rounds (bytesOf "invalid format: " ++ val) (val.splitOn 0x2C) ∅

/-- Some number of rounds is enough. -/
def Ends (val : GoString) : Prop := ∃ rounds res, parseUintList rounds val = some res

/-! ## What the list says -/

def Item.Has : Item → Int64 → Prop
  | .single v, x => x = v
  | .range min max, x => min ≤ x ∧ x ≤ max

/-- The number `x` occurs in the list, alone or in a range. -/
def Occurs (val : GoString) (x : Int64) : Prop :=
  ∃ r ∈ val.splitOn 0x2C, ∃ item, parseItem r = some item ∧ item.Has x

/-- The items before the first whose format is invalid. -/
def readItems : List GoString → List Item
  | [] => []
  | r :: split =>
    match parseItem r with
    | none => []
    | some item => item :: readItems split

/-- The largest `int` is the upper end of no range that is read. -/
def NoLastRange (val : GoString) : Prop :=
  ∀ min max, .range min max ∈ readItems (val.splitOn 0x2C) → max ≠ Int64.maxValue

/-! ## The loop over a range -/

theorem toInt_add_one {i max : Int64} (h : i ≤ max) (hmax : max ≠ Int64.maxValue) :
    (i + 1).toInt = i.toInt + 1 := by
  have hne : max.toInt ≠ 2 ^ 63 - 1 := fun he => hmax (Int64.toInt_inj.mp he)
  have hle := Int64.le_iff_toInt_le.mp h
  have hlt := max.toInt_lt
  have hlo := i.le_toInt
  rw [Int64.toInt_add]
  show (i.toInt + 1).bmod (2 ^ 64) = _
  apply Int.bmod_eq_of_le <;> omega

theorem le_maxValue (i : Int64) : i ≤ Int64.maxValue := by
  rw [Int64.le_iff_toInt_le]
  have := i.toInt_lt
  show i.toInt ≤ 2 ^ 63 - 1
  omega

theorem addRange_maxValue (rounds : ℕ) (i : Int64) (ints : Finset Int64) :
    addRange rounds i Int64.maxValue ints = none := by
  induction rounds generalizing i ints with
  | zero => rfl
  | succ rounds ih => rw [addRange, if_pos (le_maxValue i), ih]

theorem mem_addRange {rounds : ℕ} {i max : Int64} {ints s : Finset Int64}
    (h : addRange rounds i max ints = some s) (x : Int64) : x ∈ s ↔ x ∈ ints ∨ i ≤ x ∧ x ≤ max := by
  have hmax : max ≠ Int64.maxValue := by
    rintro rfl
    rw [addRange_maxValue] at h
    cases h
  induction rounds generalizing i ints with
  | zero => cases h
  | succ rounds ih =>
    rw [addRange] at h
    split at h
    · rename_i hi
      refine (ih h).trans ?_
      have hnext := toInt_add_one hi hmax
      rw [Finset.mem_insert, ← Int64.toInt_inj]
      simp only [Int64.le_iff_toInt_le, hnext] at hi ⊢
      have hx : x.toInt = i.toInt ∨ i.toInt + 1 ≤ x.toInt ∧ x.toInt ≤ max.toInt ↔
          i.toInt ≤ x.toInt ∧ x.toInt ≤ max.toInt := by omega
      tauto
    · rename_i hi
      cases h
      simp only [Int64.le_iff_toInt_le] at hi ⊢
      have hx : ¬ (i.toInt ≤ x.toInt ∧ x.toInt ≤ max.toInt) := by omega
      tauto

/-- A round for each number, and one to see that there is no other. -/
theorem addRange_isSome {rounds : ℕ} {i max : Int64} (ints : Finset Int64) (hmax : max ≠ Int64.maxValue)
    (h : max.toInt < i.toInt + rounds) : (addRange (rounds + 1) i max ints).isSome := by
  induction rounds generalizing i ints with
  | zero =>
    have hi : ¬ i ≤ max := by
      rw [Int64.le_iff_toInt_le]
      omega
    rw [addRange, if_neg hi, Option.isSome_some]
  | succ rounds ih =>
    rw [addRange]
    split
    · rename_i hi
      apply ih
      rw [toInt_add_one hi hmax]
      push_cast at h
      omega
    · rfl

/-! ## The loop over the items -/

section Items

variable {rounds : ℕ} {err : GoString} {split : List GoString} {ints s : Finset Int64}

theorem mem_parseItems (h : parseItems rounds err split ints = some (.ok s)) (x : Int64) :
    x ∈ s ↔ x ∈ ints ∨ ∃ r ∈ split, ∃ item, parseItem r = some item ∧ item.Has x := by
  induction split generalizing ints with
  | nil =>
    cases h
    simp
  | cons r split ih =>
    rw [parseItems] at h
    split at h
    · cases h
    · rename_i v hr
      rw [ih h, Finset.mem_insert]
      simp only [List.mem_cons, exists_eq_or_imp, hr, Option.some.injEq, exists_eq_left', Item.Has]
      tauto
    · rename_i min max hr
      obtain ⟨ints', hadd, h⟩ := Option.bind_eq_some_iff.mp h
      rw [ih h, mem_addRange hadd]
      simp only [List.mem_cons, exists_eq_or_imp, hr, Option.some.injEq, exists_eq_left', Item.Has]
      tauto

/-- A number of rounds that is enough for every range that is read, but for those up to the largest
`int`. -/
theorem parseItems_isSome (hrounds : 2 ^ 64 ≤ rounds)
    (h : ∀ min max, .range min max ∈ readItems split → max ≠ Int64.maxValue) :
    (parseItems (rounds + 1) err split ints).isSome := by
  induction split generalizing ints with
  | nil => rfl
  | cons r split ih =>
    rw [readItems] at h
    rw [parseItems]
    split
    · rfl
    · rename_i v hr
      rw [hr] at h
      exact ih fun min max hm => h min max (List.mem_cons_of_mem _ hm)
    · rename_i min max hr
      rw [hr] at h
      have hlt : max.toInt < min.toInt + rounds := by
        have := max.toInt_lt
        have := min.le_toInt
        omega
      obtain ⟨ints', hadd⟩ := Option.isSome_iff_exists.mp
        (addRange_isSome ints (h min max List.mem_cons_self) hlt)
      rw [hadd, Option.bind_some]
      exact ih fun min max hm => h min max (List.mem_cons_of_mem _ hm)

theorem parseItems_eq_none {min : Int64} (h : .range min Int64.maxValue ∈ readItems split) :
    parseItems rounds err split ints = none := by
  induction split generalizing ints with
  | nil => cases h
  | cons r split ih =>
    rw [readItems] at h
    rw [parseItems]
    split
    · rename_i hr
      rw [hr] at h
      cases h
    · rename_i v hr
      rw [hr] at h
      obtain h | h := List.mem_cons.mp h
      · cases h
      · exact ih h
    · rename_i a b hr
      rw [hr] at h
      obtain h | h := List.mem_cons.mp h
      · cases h
        rw [addRange_maxValue, Option.bind_none]
      · cases addRange rounds a b ints with
        | none => rfl
        | some ints' => exact ih h

end Items

/-! ## `ParseUintList` -/

theorem ends_of_noLastRange {val : GoString} (h : NoLastRange val) : Ends val := by
  refine ⟨2 ^ 64 + 1, Option.isSome_iff_exists.mp ?_⟩
  rw [parseUintList]
  split
  · rfl
  · exact parseItems_isSome le_rfl h

theorem not_ends {val : GoString} {min : Int64} (hval : val ≠ [])
    (h : .range min Int64.maxValue ∈ readItems (val.splitOn 0x2C)) : ¬ Ends val := by
  rintro ⟨rounds, res, hres⟩
  rw [parseUintList, if_neg hval, parseItems_eq_none h] at hres
  cases hres

/-- `ParseUintList` returns if and only if it reads no range up to the largest `int`, and if it then
returns no error, the numbers are those that occur in the list. -/
theorem parseUintList_ends_iff (val : GoString) :
    (Ends val ↔ NoLastRange val) ∧
      ∀ rounds s, parseUintList rounds val = some (.ok s) → ∀ x, x ∈ s ↔ Occurs val x := by
  refine ⟨⟨?_, ends_of_noLastRange⟩, ?_⟩
  · rintro hends min max hm rfl
    refine not_ends ?_ hm hends
    rintro rfl
    have hnil : readItems (List.splitOn 0x2C []) = [] := by decide
    rw [hnil] at hm
    cases hm
  · intro rounds s h x
    rw [parseUintList] at h
    split at h
    · rename_i hval
      cases h
      have hnone : ¬ Occurs [] x := by
        rintro ⟨r, hr, item, hitem, -⟩
        cases List.mem_singleton.mp hr
        cases hitem
      rw [hval]
      exact iff_of_false (Finset.notMem_empty x) hnone
    · rw [mem_parseItems h, Occurs]
      simp only [Finset.notMem_empty, false_or]

/-- A range of one number. -/
theorem parseUintList_lastRange : ¬ Ends (bytesOf "9223372036854775807-9223372036854775807") :=
  not_ends (by decide) (by decide : .range Int64.maxValue Int64.maxValue ∈ readItems _)

end Moby.Parsers
