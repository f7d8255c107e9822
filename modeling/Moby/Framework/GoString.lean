import Mathlib.Data.List.DropRight
import Mathlib.Data.List.Flatten
import Mathlib.Data.List.TakeWhile

/-!
# Go strings

A Go string is a list of bytes, UTF-8 or not. What the code uses of `strings`,
`unicode` and `unicode/utf8` on it: the runes of a string, where a byte that
starts no encoded character is a rune of its own (`runes`), the white space
around a text (`trimLeft`, `trimSpace`), and lower case (`toLower`), with
Unicode's table of letters as a parameter.
-/

namespace Moby.Framework

abbrev GoString := List UInt8

instance lawfulBEq_goString : LawfulBEq GoString := List.instLawfulBEq

namespace GoString

/-- `utf8.DecodeRune`: the character that a string starts with; `none` if its
first byte starts no encoded character. -/
def decodeRune (s : GoString) : Option Char := s.toByteArray.utf8DecodeChar? 0

theorem decodeRune_eq_some {s : GoString} {c : Char} :
    decodeRune s = some c ↔ ∃ t, s = String.utf8EncodeChar c ++ t := by
  constructor
  · intro h
    obtain ⟨l, hl⟩ := ByteArray.exists_of_utf8DecodeChar?_eq_some h
    refine ⟨l.data.toList, ?_⟩
    have := congrArg (fun b : ByteArray => b.data.toList) hl
    simpa using this
  · rintro ⟨t, rfl⟩
    have := ByteArray.utf8DecodeChar?_utf8EncodeChar_append (b := t.toByteArray) (c := c)
    rw [decodeRune, List.toByteArray_append, this]

/-- `utf8.RuneError`. -/
def runeError : Char := '�'

def runesAux : ℕ → GoString → List (Char × GoString)
  | 0, _ => []
  | _, [] => []
  | n + 1, b :: s =>
    match decodeRune (b :: s) with
    | some c => (c, String.utf8EncodeChar c) :: runesAux n ((b :: s).drop c.utf8Size)
    | none => (runeError, [b]) :: runesAux n s

/-- The runes of a string, each with the bytes it was read from. -/
def runes (s : GoString) : List (Char × GoString) := runesAux s.length s

/-- The bytes of characters. -/
def encode (cs : List Char) : GoString := cs.flatMap String.utf8EncodeChar

theorem utf8EncodeChar_ne_nil (c : Char) : String.utf8EncodeChar c ≠ [] :=
  List.ne_nil_of_length_pos (by rw [String.length_utf8EncodeChar]; exact c.utf8Size_pos)

/-- More steps than the string has bytes change nothing. -/
theorem runesAux_eq {n : ℕ} {s : GoString} (h : s.length ≤ n) : runesAux n s = runes s := by
  induction n using Nat.strong_induction_on generalizing s with
  | _ n ih =>
    cases s with
    | nil => cases n <;> rfl
    | cons b s =>
      obtain ⟨n, rfl⟩ : ∃ m, n = m + 1 := ⟨n - 1, by simp at h; omega⟩
      simp only [List.length_cons] at h
      rw [runes, List.length_cons, runesAux, runesAux]
      cases hd : decodeRune (b :: s) with
      | none =>
        simp only
        rw [ih n (by omega) (by omega), runes]
      | some c =>
        have hlen : ((b :: s).drop c.utf8Size).length ≤ s.length := by
          have := c.utf8Size_pos
          simp only [List.length_drop, List.length_cons]; omega
        simp only
        rw [ih n (by omega) (hlen.trans (by omega))]
        congr 1
        by_cases hs : s.length = n
        · rw [hs, ih n (by omega) (hlen.trans (by omega))]
        · rw [ih s.length (by omega) hlen]

/-- The runes of an encoded character and of what follows it. -/
theorem runes_append (c : Char) (s : GoString) :
    runes (String.utf8EncodeChar c ++ s) = (c, String.utf8EncodeChar c) :: runes s := by
  have hd : decodeRune (String.utf8EncodeChar c ++ s) = some c := decodeRune_eq_some.mpr ⟨s, rfl⟩
  have hlen := String.length_utf8EncodeChar c
  obtain ⟨b, e, he⟩ := List.exists_cons_of_ne_nil (utf8EncodeChar_ne_nil c)
  rw [he, List.cons_append] at hd ⊢
  rw [runes, List.length_cons, runesAux, hd]
  have hdrop : (b :: (e ++ s)).drop c.utf8Size = s := by
    rw [← hlen, he, ← List.cons_append, List.drop_left]
  simp only
  rw [hdrop, he, runesAux_eq (by simp)]

/-- The characters of a text are read back. -/
theorem runes_flatMap (cs : List Char) : (runes (cs.flatMap String.utf8EncodeChar)).map (·.1) = cs := by
  induction cs with
  | nil => rfl
  | cons c cs ih => rw [List.flatMap_cons, runes_append, List.map_cons, ih]

/-- A byte that starts no encoded character is a rune of its own. -/
theorem runes_cons_of_none {b : UInt8} {s : GoString} (h : decodeRune (b :: s) = none) :
    runes (b :: s) = (runeError, [b]) :: runes s := by
  rw [runes, List.length_cons, runesAux, h]
  rfl

/-- The string is read rune by rune. -/
theorem runes_induction {P : GoString → Prop} (nil : P []) (char : ∀ c s, P s → P (String.utf8EncodeChar c ++ s))
    (byte : ∀ b s, decodeRune (b :: s) = none → P s → P (b :: s)) (s : GoString) : P s := by
  induction hn : s.length using Nat.strong_induction_on generalizing s with
  | _ n ih =>
    cases s with
    | nil => exact nil
    | cons b s =>
      cases hd : decodeRune (b :: s) with
      | none => exact byte b s hd (ih s.length (by rw [← hn]; simp) s rfl)
      | some c =>
        obtain ⟨t, ht⟩ := decodeRune_eq_some.mp hd
        rw [ht]
        refine char c t (ih t.length ?_ t rfl)
        have hlen := congrArg List.length ht
        have := c.utf8Size_pos
        rw [List.length_append, String.length_utf8EncodeChar] at hlen
        omega

/-- The bytes of runes. -/
def raw (r : List (Char × GoString)) : GoString := r.flatMap (·.2)

@[simp] theorem raw_nil : raw [] = [] := rfl

@[simp] theorem raw_cons (c : Char) (e : GoString) (r : List (Char × GoString)) : raw ((c, e) :: r) = e ++ raw r := rfl

@[simp] theorem raw_append (r r' : List (Char × GoString)) : raw (r ++ r') = raw r ++ raw r' := by
  rw [raw, List.flatMap_append, raw, raw]

@[simp] theorem raw_runes (s : GoString) : raw (runes s) = s := by
  induction s using runes_induction with
  | nil => rfl
  | char c s ih => rw [runes_append, raw_cons, ih]
  | byte b s h ih => rw [runes_cons_of_none h, raw_cons, ih, List.singleton_append]

/-! ## White space -/

/-- `unicode.IsSpace`. -/
def isSpace (c : Char) : Bool :=
  c.toNat ∈ [0x9, 0xA, 0xB, 0xC, 0xD, 0x20, 0x85, 0xA0, 0x1680, 0x2000, 0x2001, 0x2002, 0x2003, 0x2004, 0x2005,
    0x2006, 0x2007, 0x2008, 0x2009, 0x200A, 0x2028, 0x2029, 0x202F, 0x205F, 0x3000]

/-- `strings.TrimLeftFunc(s, unicode.IsSpace)`. -/
def trimLeft (s : GoString) : GoString := raw ((runes s).dropWhile (isSpace ·.1))

/-- `strings.TrimSpace`. -/
def trimSpace (s : GoString) : GoString :=
  raw (((runes s).dropWhile (isSpace ·.1)).rdropWhile (isSpace ·.1))

theorem trimLeft_suffix (s : GoString) : trimLeft s <:+ s := by
  refine ⟨raw ((runes s).takeWhile (isSpace ·.1)), ?_⟩
  rw [trimLeft, ← raw_append, List.takeWhile_append_dropWhile, raw_runes]

theorem trimLeft_append_of_isSpace {c : Char} (h : isSpace c) (s : GoString) :
    trimLeft (String.utf8EncodeChar c ++ s) = trimLeft s := by
  rw [trimLeft, runes_append, List.dropWhile_cons, if_pos h, trimLeft]

theorem trimLeft_append_of_not_isSpace {c : Char} (h : ¬ isSpace c) (s : GoString) :
    trimLeft (String.utf8EncodeChar c ++ s) = String.utf8EncodeChar c ++ s := by
  rw [trimLeft, runes_append, List.dropWhile_cons, if_neg h, raw_cons, raw_runes]

theorem trimLeft_cons_of_none {b : UInt8} {s : GoString} (h : decodeRune (b :: s) = none) :
    trimLeft (b :: s) = b :: s := by
  have hspace : ¬ isSpace runeError := by decide
  rw [trimLeft, runes_cons_of_none h, List.dropWhile_cons, if_neg hspace, raw_cons, raw_runes, List.singleton_append]

@[simp] theorem trimLeft_trimLeft (s : GoString) : trimLeft (trimLeft s) = trimLeft s := by
  induction s using runes_induction with
  | nil => rfl
  | char c s ih =>
    by_cases hc : isSpace c
    · rw [trimLeft_append_of_isSpace hc, ih]
    · rw [trimLeft_append_of_not_isSpace hc, trimLeft_append_of_not_isSpace hc]
  | byte b s hd _ => rw [trimLeft_cons_of_none hd, trimLeft_cons_of_none hd]

/-! ## Lower case -/

/-- `strings.Map`: the bytes up to the first rune that changes stay as they are. -/
def mapRunes (lower : Char → Char) : List (Char × GoString) → GoString
  | [] => []
  | (c, e) :: r =>
    if lower c = c then e ++ mapRunes lower r
    else String.utf8EncodeChar (lower c) ++ r.flatMap fun p => String.utf8EncodeChar (lower p.1)

/-- `strings.ToLower`, with `unicode.ToLower` as `lower`. -/
def toLower (lower : Char → Char) (s : GoString) : GoString := mapRunes lower (runes s)

theorem ne_nil_of_mem_runes {s : GoString} {p : Char × GoString} (h : p ∈ runes s) : p.2 ≠ [] := by
  induction s using runes_induction with
  | nil => cases h
  | char c s ih =>
    rw [runes_append, List.mem_cons] at h
    rcases h with rfl | h
    · exact utf8EncodeChar_ne_nil c
    · exact ih h
  | byte b s hb ih =>
    rw [runes_cons_of_none hb, List.mem_cons] at h
    rcases h with rfl | h
    · exact List.cons_ne_nil b []
    · exact ih h

/-- Trimming on the right keeps the first byte. -/
theorem head?_trimSpace (s : GoString) : (trimSpace s).head? = (trimLeft s).head? := by
  rw [trimSpace, trimLeft]
  cases hd : (runes s).dropWhile (isSpace ·.1) with
  | nil => rfl
  | cons p r =>
    have hp : ¬ isSpace p.1 := by
      have := List.head_dropWhile_not (isSpace ·.1) (l := runes s) (by rw [hd]; exact List.cons_ne_nil p r)
      simp only [hd, List.head_cons] at this
      rw [this]; exact Bool.false_ne_true
    have hne : p.2 ≠ [] :=
      ne_nil_of_mem_runes ((List.dropWhile_sublist _).subset (by rw [hd]; exact List.mem_cons_self))
    -- The first rune is no white space, so it is not trimmed.
    obtain ⟨r', hr'⟩ : ∃ r', (p :: r).rdropWhile (isSpace ·.1) = p :: r' := by
      have hpre := List.rdropWhile_prefix (isSpace ·.1) (l := p :: r)
      cases hrd : (p :: r).rdropWhile (isSpace ·.1) with
      | nil => exact absurd (List.rdropWhile_eq_nil_iff.mp hrd p List.mem_cons_self) hp
      | cons q r' =>
        rw [hrd] at hpre
        exact ⟨r', by rw [(List.cons_prefix_cons.mp hpre).1]⟩
    obtain ⟨c, e⟩ := p
    rw [hr', raw_cons, raw_cons, List.head?_append_of_ne_nil _ hne, List.head?_append_of_ne_nil _ hne]

/-! ## ASCII -/

theorem utf8EncodeChar_of_lt {c : Char} (h : c.toNat < 128) : String.utf8EncodeChar c = [c.toNat.toUInt8] := by
  have hv : c.val.toNat ≤ 127 := Nat.lt_succ_iff.mp h
  unfold String.utf8EncodeChar
  simp only [hv, if_true]
  rfl

theorem toNat_ofNat_of_lt {n : ℕ} (h : n < 128) : (Char.ofNat n).toNat = n := by
  have hv : n.isValidChar := .inl (by omega)
  rw [Char.ofNat, dif_pos hv]
  rfl

theorem utf8EncodeChar_ofNat_of_lt {b : UInt8} (h : b.toNat < 128) : String.utf8EncodeChar (Char.ofNat b.toNat) = [b] := by
  have hlt : (Char.ofNat b.toNat).toNat < 128 := by
    rw [toNat_ofNat_of_lt h]
    exact h
  rw [utf8EncodeChar_of_lt hlt, toNat_ofNat_of_lt h, Nat.toUInt8_eq, UInt8.ofNat_toNat]

/-- An ASCII byte is a rune. -/
theorem runes_cons_of_lt {b : UInt8} (h : b.toNat < 128) (s : GoString) :
    runes (b :: s) = (Char.ofNat b.toNat, [b]) :: runes s := by
  have := runes_append (Char.ofNat b.toNat) s
  rw [utf8EncodeChar_ofNat_of_lt h] at this
  exact this

/-- The first byte of an encoded character is ASCII only if the character is. -/
theorem toNat_of_head {c : Char} {b : UInt8} (h : (String.utf8EncodeChar c).head? = some b) (hb : b.toNat < 128) :
    c.toNat = b.toNat := by
  by_cases hc : c.toNat < 128
  · rw [utf8EncodeChar_of_lt hc] at h
    cases h
    rw [Nat.toUInt8_eq, UInt8.toNat_ofNat']; omega
  · have hv : ¬ c.val.toNat ≤ 127 := fun hle => hc (Nat.lt_succ_iff.mpr hle)
    unfold String.utf8EncodeChar at h
    simp only [hv, if_false] at h
    split_ifs at h
    all_goals
      cases h
      rw [UInt8.toNat_ofNat'] at hb
      omega

/-- No byte of a character that is not ASCII is. -/
theorem le_of_mem_utf8EncodeChar {c : Char} (hc : 128 ≤ c.toNat) {b : UInt8} (hb : b ∈ String.utf8EncodeChar c) :
    128 ≤ b.toNat := by
  have hv : ¬ c.val.toNat ≤ 127 := Nat.not_le.mpr hc
  unfold String.utf8EncodeChar at hb
  simp only [hv, if_false] at hb
  split_ifs at hb
  all_goals
    simp only [List.mem_cons, List.not_mem_nil, or_false] at hb
    rcases hb with rfl | rfl | rfl | rfl
  all_goals
    rw [UInt8.toNat_ofNat']
    omega

/-- An ASCII character that is no letter starts the lower case of a text only if
it starts the text. -/
theorem head?_of_toLower {lower : Char → Char} {b : UInt8} (hb : b.toNat < 128)
    (hlower : ∀ c, (lower c).toNat = b.toNat → lower c = c) {s : GoString}
    (h : (toLower lower s).head? = some b) : s.head? = some b := by
  unfold toLower at h
  induction s using runes_induction with
  | nil => cases h
  | char c s _ =>
    rw [runes_append, mapRunes] at h
    rw [List.head?_append_of_ne_nil _ (utf8EncodeChar_ne_nil c)]
    split_ifs at h with hc
    · rwa [List.head?_append_of_ne_nil _ (utf8EncodeChar_ne_nil c)] at h
    · rw [List.head?_append_of_ne_nil _ (utf8EncodeChar_ne_nil _)] at h
      exact absurd (hlower c (toNat_of_head h hb)) hc
  | byte b' s hd _ =>
    rw [runes_cons_of_none hd, mapRunes] at h
    split_ifs at h with hc
    · exact h
    · rw [List.head?_append_of_ne_nil _ (utf8EncodeChar_ne_nil _)] at h
      exact absurd (hlower _ (toNat_of_head h hb)) hc

/-! ## Lengths -/

theorem raw_sublist_length {r r' : List (Char × GoString)} (h : r.Sublist r') : (raw r).length ≤ (raw r').length := by
  unfold raw
  exact (h.flatMap _).length_le

theorem length_trimLeft_le (s : GoString) : (trimLeft s).length ≤ s.length := by
  conv_rhs => rw [← raw_runes s]
  exact raw_sublist_length (List.dropWhile_sublist _)

theorem length_trimSpace_le (s : GoString) : (trimSpace s).length ≤ s.length := by
  conv_rhs => rw [← raw_runes s]
  exact raw_sublist_length (( List.rdropWhile_prefix _ _).sublist.trans (List.dropWhile_sublist _))

end GoString

end Moby.Framework
