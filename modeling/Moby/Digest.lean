import Moby.Framework.Text

/-!
# Digests and random IDs

A digest is a string `<algorithm>:<hex>`. `validate` is what the digest
package checks of one, `Hash` the SHA-256 function, of which only the form
of its result is known, and `fromBytes` the digest of a byte string, always
valid (`validate_fromBytes`). A random ID (`IsRandomID`) is 64 hexadecimal
digits too, not all of the first twelve decimal.
-/

namespace Moby.Digest

open Moby.Framework

/-- `[a-f0-9]`. -/
def isHexLower (c : Char) : Bool := ('0' ≤ c && c ≤ '9') || ('a' ≤ c && c ≤ 'f')

/-- `[a-fA-F0-9]`. -/
def isHex (c : Char) : Bool := isHexLower c || ('A' ≤ c && c ≤ 'F')

/-- `[a-zA-Z0-9-_+.]`. -/
def isAlgorithmChar (c : Char) : Bool := c.isAlphanum || c = '-' || c = '_' || c = '+' || c = '.'

/-- The algorithm of a digest: what stands before its first colon. -/
def algorithm (d : String) : String := .ofList (d.toList.takeWhile (· ≠ ':'))

/-- The hexadecimal part of a digest: what stands after its first colon. -/
def hex (d : String) : String := .ofList ((d.toList.dropWhile (· ≠ ':')).drop 1)

inductive Err where
  | invalidFormat
  | invalidLength
  | unsupported
  deriving DecidableEq, Repr

/-- The number of bytes of a supported algorithm's hash. -/
def algorithmSize (alg : String) : Option Nat :=
  if alg = "sha256" then some 32
  else if alg = "sha384" then some 48
  else if alg = "sha512" then some 64
  else none

/-- `Digest.Validate`. -/
def validate (d : String) : Except Err Unit :=
  if ':' ∈ d.toList ∧ algorithm d ≠ "" ∧ (algorithm d).toList.all isAlgorithmChar ∧
      hex d ≠ "" ∧ (hex d).toList.all isHex then
    match algorithmSize (algorithm d) with
    | none => .error .unsupported
    | some n => if n * 2 = (hex d).length then .ok () else .error .invalidLength
  else .error .invalidFormat

/-- `digest.ParseDigest`. -/
def parseDigest (s : String) : Except Err String :=
  match validate s with
  | .ok () => .ok s
  | .error e => .error e

/-- `digest.NewDigestFromHex`. -/
def newDigestFromHex (alg h : String) : String := alg ++ ":" ++ h

/-- 64 lower-case hexadecimal digits. -/
def IsHex64 (s : String) : Prop := s.length = 64 ∧ ∀ c ∈ s.toList, isHexLower c = true

instance (s : String) : Decidable (IsHex64 s) :=
  decidable_of_iff (s.length = 64 ∧ s.toList.all isHexLower = true) (by rw [IsHex64, List.all_eq_true])

/-- SHA-256, with its sum in hexadecimal digits. -/
structure Hash where
  sum : List UInt8 → String
  sum_hex (b : List UInt8) : IsHex64 (sum b)

/-- A function with the sums of a table; any other byte string has the sum of
64 zeros. -/
def Hash.ofTable (t : List (List UInt8 × { s : String // IsHex64 s })) : Hash where
  sum b := match t.lookup b with
    | some s => s.1
    | none => "0000000000000000000000000000000000000000000000000000000000000000"
  sum_hex b := by
    split
    · exact Subtype.property _
    · decide

/-- SHA-256 of no bytes. -/
def emptySum : { s : String // IsHex64 s } :=
  ⟨"e3b0c44298fc1c149afbf4c8996fb92427ae41e4649b934ca495991b7852b855", by decide⟩

/-- `digest.FromBytes`, with the canonical algorithm. -/
def Hash.fromBytes (H : Hash) (p : List UInt8) : String := newDigestFromHex "sha256" (H.sum p)

/-- What `stringid.GenerateRandomID` can return: 32 random bytes in
hexadecimal digits, drawn again while the first twelve are a number. -/
def IsRandomID (id : String) : Prop := IsHex64 id ∧ ¬ (id.toList.take 12).all Char.isDigit

instance (id : String) : Decidable (IsRandomID id) := inferInstanceAs (Decidable (_ ∧ _))

theorem isHex_of_lower {c : Char} (h : isHexLower c = true) : isHex c = true := by
  simp [isHex, h]

/-- A lower-case hexadecimal digit is not white space, a colon or a hyphen. -/
theorem isHexLower_range {c : Char} (h : isHexLower c = true) :
    48 ≤ c.toNat ∧ c.toNat ≤ 57 ∨ 97 ≤ c.toNat ∧ c.toNat ≤ 102 := by
  simpa [isHexLower, Char.le_def, UInt32.le_iff_toNat_le] using h

theorem colon_notMem_sha256 : ∀ c ∈ "sha256".toList, decide (c ≠ ':') = true :=
  List.all_eq_true.mp (by decide)

theorem algorithm_newDigestFromHex (h : String) :
    algorithm (newDigestFromHex "sha256" h) = "sha256" := by
  have : (newDigestFromHex "sha256" h).toList = "sha256".toList ++ ':' :: h.toList := by
    simp [newDigestFromHex, String.toList_append]
  rw [algorithm, this, List.takeWhile_append_of_pos colon_notMem_sha256]
  simp

theorem hex_newDigestFromHex (h : String) : hex (newDigestFromHex "sha256" h) = h := by
  have : (newDigestFromHex "sha256" h).toList = "sha256".toList ++ ':' :: h.toList := by
    simp [newDigestFromHex, String.toList_append]
  rw [hex, this, List.dropWhile_append_of_pos colon_notMem_sha256]
  simp

theorem validate_newDigestFromHex {h : String} (hh : IsHex64 h) :
    validate (newDigestFromHex "sha256" h) = .ok () := by
  have hc : ':' ∈ (newDigestFromHex "sha256" h).toList := by
    simp [newDigestFromHex, String.toList_append]
  have hne : h ≠ "" := by rintro rfl; exact absurd hh.1 (by decide)
  have hall : h.toList.all isHex = true :=
    List.all_eq_true.mpr fun c hc => isHex_of_lower (hh.2 c hc)
  rw [validate, algorithm_newDigestFromHex, hex_newDigestFromHex,
    if_pos ⟨hc, by decide, by decide, hne, hall⟩]
  simp [algorithmSize, hh.1]

/-- The digest of a byte string is valid. -/
theorem validate_fromBytes (H : Hash) (p : List UInt8) : validate (H.fromBytes p) = .ok () :=
  validate_newDigestFromHex (H.sum_hex p)

theorem isSpace_of_isHexLower {c : Char} (h : isHexLower c = true) : isSpace c = false := by
  have := isHexLower_range h
  have hne : c ≠ ' ' := by rintro rfl; exact absurd this (by decide)
  simp only [isSpace, Char.le_def, UInt32.le_iff_toNat_le, Char.toNat] at this ⊢
  simp only [Bool.or_eq_false_iff, Bool.and_eq_false_iff, decide_eq_false_iff_not]
  have hr : '\r'.val.toNat = 13 := rfl
  refine ⟨⟨⟨⟨⟨⟨⟨⟨⟨⟨hne, ?_⟩, ?_⟩, ?_⟩, ?_⟩, ?_⟩, ?_⟩, ?_⟩, ?_⟩, ?_⟩, ?_⟩ <;> omega

/-- A digest has no white space. -/
theorem isSpace_fromBytes (H : Hash) (p : List UInt8) : ∀ c ∈ (H.fromBytes p).toList, isSpace c = false := by
  intro c hc
  simp only [Hash.fromBytes, newDigestFromHex, String.toList_append, List.mem_append] at hc
  rcases hc with (hc | hc) | hc
  · have hs : "sha256".toList.all (!isSpace ·) = true := by decide
    simpa using List.all_eq_true.mp hs c hc
  · have hs : ":".toList.all (!isSpace ·) = true := by decide
    simpa using List.all_eq_true.mp hs c hc
  · exact isSpace_of_isHexLower ((H.sum_hex p).2 c hc)

theorem colon_mem_fromBytes (H : Hash) (p : List UInt8) : ':' ∈ (H.fromBytes p).toList := by
  simp [Hash.fromBytes, newDigestFromHex]

theorem trimSpace_fromBytes (H : Hash) (p : List UInt8) : trimSpace (H.fromBytes p) = H.fromBytes p :=
  trimSpace_of_forall (isSpace_fromBytes H p)

/-- A digest that is stored reads back. -/
theorem parseDigest_fromBytes (H : Hash) (p : List UInt8) :
    parseDigest (trimSpace (H.fromBytes p)) = .ok (H.fromBytes p) := by
  rw [trimSpace_fromBytes, parseDigest, validate_fromBytes]

theorem fromBytes_ne_empty (H : Hash) (p : List UInt8) : H.fromBytes p ≠ "" := by
  intro h
  have := validate_fromBytes H p
  rw [h] at this
  exact absurd this (by decide)

end Moby.Digest
