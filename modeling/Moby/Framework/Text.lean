import Mathlib.Data.List.Basic
import Mathlib.Data.List.TakeWhile

/-!
# Text: parts, numbers, white space, bytes

What the code uses of Go's `fmt`, `strconv` and `strings`, on Lean's
strings: `%d` and `strconv.ParseInt` of 64-bit numbers (`formatInt`,
`parseInt`, inverse by `parseInt_formatInt`), `strings.TrimSpace`, the parts
of a text at a character (`cut`) or a prefix, and the bytes of a string.
-/

namespace Moby.Framework

/-- `[]byte(s)`: the UTF-8 bytes of a string. -/
def bytesOf (s : String) : List UInt8 := s.toList.flatMap String.utf8EncodeChar

theorem bytesOf_append (s t : String) : bytesOf (s ++ t) = bytesOf s ++ bytesOf t := by
  rw [bytesOf, String.toList_append, List.flatMap_append, bytesOf, bytesOf]

theorem bytesOf_injective : Function.Injective bytesOf := by
  intro s t h
  have hbytes : s.toList.utf8Encode = t.toList.utf8Encode := congrArg List.toByteArray h
  rw [← String.ofList_toList (s := s), ← String.ofList_toList (s := t)]
  exact String.toByteArray_inj.mp hbytes

/-- A test of all elements; unlike `decide` it never looks at all values of the type. -/
theorem forall_mem_of_all {α : Type} {P : α → Prop} [DecidablePred P] {l : List α}
    (h : l.all (fun a => decide (P a)) = true) : ∀ a ∈ l, P a :=
  fun a ha => of_decide_eq_true (List.all_eq_true.mp h a ha)

/-- A list is cut at the first `c` in one way. -/
theorem append_cons_inj {α : Type} {c : α} {u u' v v' : List α} (hu : c ∉ u) (hu' : c ∉ u')
    (h : u ++ c :: v = u' ++ c :: v') : u = u' ∧ v = v' := by
  induction u generalizing u' with
  | nil =>
    cases u' with
    | nil => exact ⟨rfl, (List.cons.inj h).2⟩
    | cons a u' => exact absurd (List.mem_cons.mpr (.inl (List.cons.inj h).1)) hu'
  | cons a u ih =>
    rw [List.mem_cons, not_or] at hu
    cases u' with
    | nil => exact absurd (List.cons.inj h).1.symm hu.1
    | cons a' u' =>
      rw [List.mem_cons, not_or] at hu'
      obtain ⟨rfl, ht⟩ := List.cons.inj h
      obtain ⟨rfl, rfl⟩ := ih hu.2 hu'.2 ht
      exact ⟨rfl, rfl⟩

/-- A list is cut at the last `c` in one way. -/
theorem append_cons_inj_last {α : Type} {c : α} {u u' v v' : List α} (hv : c ∉ v) (hv' : c ∉ v')
    (h : u ++ c :: v = u' ++ c :: v') : u = u' ∧ v = v' := by
  have hr := congrArg List.reverse h
  simp only [List.reverse_append, List.reverse_cons, List.append_assoc, List.singleton_append] at hr
  obtain ⟨hv, hu⟩ := append_cons_inj (by simpa using hv) (by simpa using hv') hr
  exact ⟨List.reverse_inj.mp hu, List.reverse_inj.mp hv⟩

/-- What stands before and behind the first `c`, if there is one. -/
def cut (c : Char) (s : String) : Option (String × String) :=
  if c ∈ s.toList then
    some (.ofList (s.toList.takeWhile (· ≠ c)), .ofList ((s.toList.dropWhile (· ≠ c)).drop 1))
  else none

theorem cut_eq_none {c : Char} {s : String} : cut c s = none ↔ c ∉ s.toList := by
  unfold cut; split <;> simp_all

theorem cut_eq_some {c : Char} {s a b : String} :
    cut c s = some (a, b) ↔ s.toList = a.toList ++ c :: b.toList ∧ c ∉ a.toList := by
  have hcut : c ∈ s.toList → s.toList =
      s.toList.takeWhile (· ≠ c) ++ c :: (s.toList.dropWhile (· ≠ c)).drop 1 := by
    intro hc
    have hne : s.toList.dropWhile (· ≠ c) ≠ [] := by simpa [List.dropWhile_eq_nil_iff] using hc
    have hhead : (s.toList.dropWhile (· ≠ c)).head hne = c := by
      simpa using List.head_dropWhile_not (· ≠ c) hne
    nth_rewrite 1 [← List.takeWhile_append_dropWhile (p := (· ≠ c)) (l := s.toList)]
    rw [← List.cons_head_tail hne, hhead, List.drop_one, List.tail_cons]
  have hnot : c ∉ s.toList.takeWhile (· ≠ c) := fun h => by simpa using List.mem_takeWhile_imp h
  constructor
  · intro h
    unfold cut at h
    split at h
    · cases h
      simp only [String.toList_ofList]
      exact ⟨hcut ‹_›, hnot⟩
    · cases h
  · rintro ⟨hs, ha⟩
    have hc : c ∈ s.toList := by rw [hs]; simp
    obtain ⟨h₁, h₂⟩ := append_cons_inj hnot ha ((hcut hc).symm.trans hs)
    rw [cut, if_pos hc, h₁, h₂, String.ofList_toList, String.ofList_toList]

/-- `strings.HasPrefix`. -/
def hasPrefix (s p : String) : Bool := p.toList.isPrefixOf s.toList

/-- `strings.TrimPrefix`. -/
def trimPrefix (s p : String) : String :=
  if hasPrefix s p then .ofList (s.toList.drop p.toList.length) else s

/-- `strings.ToLower`, of ASCII. -/
def toLower (s : String) : String := .ofList (s.toList.map Char.toLower)

theorem hasPrefix_append (p s : String) : hasPrefix (p ++ s) p = true := by
  simp [hasPrefix]

theorem trimPrefix_append (p s : String) : trimPrefix (p ++ s) p = s := by
  rw [trimPrefix, if_pos (hasPrefix_append p s)]
  simp

/-- `unicode.IsSpace`. -/
def isSpace (c : Char) : Bool :=
  c = ' ' || ('\t' ≤ c && c ≤ '\r') || c.toNat = 0x85 || c.toNat = 0xA0 || c.toNat = 0x1680 ||
    (0x2000 ≤ c.toNat && c.toNat ≤ 0x200a) || c.toNat = 0x2028 || c.toNat = 0x2029 ||
    c.toNat = 0x202f || c.toNat = 0x205f || c.toNat = 0x3000

/-- `strings.TrimSpace`. -/
def trimSpace (s : String) : String :=
  .ofList (((s.toList.dropWhile isSpace).reverse.dropWhile isSpace).reverse)

theorem dropWhile_of_forall {p : Char → Bool} {cs : List Char} (h : ∀ c ∈ cs, p c = false) :
    cs.dropWhile p = cs := by
  cases cs with
  | nil => rfl
  | cons c cs => rw [List.dropWhile_cons, h c List.mem_cons_self]; rfl

/-- Text without white space is not changed. -/
theorem trimSpace_of_forall {s : String} (h : ∀ c ∈ s.toList, isSpace c = false) :
    trimSpace s = s := by
  rw [trimSpace, dropWhile_of_forall h,
    dropWhile_of_forall fun c hc => h c (List.mem_reverse.mp hc), List.reverse_reverse,
    String.ofList_toList]

/-- `fmt.Sprintf("%d", n)`. -/
def formatInt (n : Int64) : String := n.toInt.repr

/-- A non-empty string of decimal digits. -/
def parseDigits (ds : List Char) : Option Nat :=
  if ds ≠ [] ∧ ds.all Char.isDigit then some (Nat.ofDigitChars 10 ds 0) else none

/-- `strconv.ParseInt(s, 10, 64)`: an optional sign and decimal digits, of a
number in range. -/
def parseInt (s : String) : Option Int64 :=
  match s.toList with
  | '-' :: ds => (parseDigits ds).bind fun n =>
    if n ≤ 9223372036854775808 then some (.ofInt (-(n : Int))) else none
  | '+' :: ds => (parseDigits ds).bind fun n => if n < 9223372036854775808 then some (.ofInt n) else none
  | ds => (parseDigits ds).bind fun n => if n < 9223372036854775808 then some (.ofInt n) else none

theorem parseDigits_toDigits (n : Nat) : parseDigits (Nat.toDigits 10 n) = some n := by
  have hd : (Nat.toDigits 10 n).all Char.isDigit = true :=
    List.all_eq_true.mpr fun c hc => Nat.isDigit_of_mem_toDigits (by decide) (by decide) hc
  rw [parseDigits, if_pos ⟨Nat.toDigits_ne_nil, hd⟩, Nat.ofDigitChars_ten_toDigits]

/-- A number reads back as it was written. -/
theorem parseInt_formatInt (n : Int64) : parseInt (formatInt n) = some n := by
  have hlo := n.le_toInt
  have hhi := n.toInt_lt
  have hn := Int64.ofInt_toInt n
  unfold parseInt formatInt
  revert hlo hhi hn
  cases n.toInt with
  | ofNat k =>
    intro _ hhi hn
    have hk : k < 9223372036854775808 := by have : (k : Int) < 2 ^ 63 := hhi; omega
    simp only [Int.repr, Nat.toList_repr]
    split
    · rename_i ds he
      have := Nat.isDigit_of_mem_toDigits (c := '-') (b := 10) (n := k) (by decide) (by decide)
        (he ▸ List.mem_cons_self)
      exact absurd this (by decide)
    · rename_i ds he
      have := Nat.isDigit_of_mem_toDigits (c := '+') (b := 10) (n := k) (by decide) (by decide)
        (he ▸ List.mem_cons_self)
      exact absurd this (by decide)
    · rw [parseDigits_toDigits, Option.bind_some, if_pos hk]; exact congrArg some hn
  | negSucc k =>
    intro hlo _ hn
    have hk : k + 1 ≤ 9223372036854775808 := by have : -2 ^ 63 ≤ Int.negSucc k := hlo; omega
    simp only [Int.repr, String.toList_append, Nat.toList_repr]
    show (parseDigits (Nat.toDigits 10 (k + 1))).bind _ = some n
    rw [parseDigits_toDigits, Option.bind_some, if_pos hk]
    exact congrArg some hn

end Moby.Framework
