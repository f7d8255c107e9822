import Moby.Framework.Search
import Moby.Framework.Sort
import Moby.Images.Store
import Moby.Reference.Index

/-!
# Sets of digests (digest)

`Set` of the package `digest`, in which the image store looks up the beginnings of IDs: a slice of entries that is
kept in the order of their hexadecimal parts, with a binary search in each operation. After any additions and
removals the slice has the digests of the finite set that the image store is modelled with, and `Lookup` gives what
it gives there (`lookup_run_eq`). `Lookup` looks at two neighbours only. For the beginning of a hexadecimal part, and
for a whole digest, it finds a digest just if it is the only one that matches (`lookup_run`). For a part of a digest
with its algorithm that holds as long as all digests have the same algorithm.
-/

namespace Moby.Digest

open Moby.Framework

/-- `checkShortMatch`. -/
def checkShortMatch (alg hex shortAlg shortHex : String) : Bool :=
  if hex.utf8ByteSize = shortHex.utf8ByteSize then
    if hex ≠ shortHex then false
    else if shortAlg.utf8ByteSize > 0 ∧ alg ≠ shortAlg then false
    else true
  else if !hasPrefix hex shortHex then false
  else if shortAlg.utf8ByteSize > 0 ∧ alg ≠ shortAlg then false
  else true

/-- `digestEntries`: the hexadecimal part and the algorithm of each digest, in their order. -/
def entries (set : Finset String) : List (String × String) :=
  (sortPairs (set.image fun d => toLex (hex d, algorithm d))).map ofLex

/-- `Lookup`, or `none` if the digest is not found or ambiguous. `sort.Search` is the first entry
from which on the entries are not before what is looked for. -/
def lookup (set : Finset String) (d : String) : Option String :=
  let (alg, hex) := if parseDigest d = .error .invalidFormat then ("", d) else (algorithm d, Digest.hex d)
  let found := (entries set).dropWhile fun (val, alg') =>
    if val = hex then decide (alg' < alg) else decide (val < hex)
  match found with
  | [] => none
  | (val, alg') :: rest =>
    if !checkShortMatch alg' val alg hex then none
    else if alg' = alg ∧ val = hex then some (newDigestFromHex alg' val)
    else
      match rest with
      | [] => some (newDigestFromHex alg' val)
      | (val₂, alg₂) :: _ =>
        if checkShortMatch alg₂ val₂ alg hex then none else some (newDigestFromHex alg' val)

/-! ## The slice -/

structure DigestEntry where
  alg : String
  val : String
  digest : String
  deriving DecidableEq

/-- `Set`, without its lock. -/
structure DigestSet where
  entries : List DigestEntry

inductive LookupErr
  | notFound
  | ambiguous
  deriving DecidableEq

/-- The entry of a digest. -/
def newEntry (d : String) : DigestEntry := ⟨algorithm d, hex d, d⟩

namespace DigestSet

/-- `NewSet`. -/
def new : DigestSet := ⟨[]⟩

/-- The `searchFunc` of `Add` and `Remove`, and of `Lookup` with an algorithm. -/
def atLeast (alg val : String) (e : DigestEntry) : Bool :=
  if e.val = val then decide (alg ≤ e.alg) else decide (val ≤ e.val)

/-- What `Lookup` does with its search function. -/
def resolve (s : DigestSet) (alg hex : String) (searchFunc : DigestEntry → Bool) : Except LookupErr String :=
  let idx := search searchFunc s.entries
  match s.entries[idx]? with
  | none => .error .notFound
  | some e =>
    if !checkShortMatch e.alg e.val alg hex then .error .notFound
    else if e.alg = alg ∧ e.val = hex then .ok e.digest
    else
      match s.entries[idx + 1]? with
      | none => .ok e.digest
      | some e' => if checkShortMatch e'.alg e'.val alg hex then .error .ambiguous else .ok e.digest

/-- `Lookup`. An error of `ParseDigest` other than that of the format is dropped. -/
def lookup (s : DigestSet) (d : String) : Except LookupErr String :=
  if s.entries.length = 0 then .error .notFound
  else if parseDigest d = .error .invalidFormat then s.resolve "" d fun e => decide (d ≤ e.val)
  else s.resolve (algorithm d) (hex d) (atLeast (algorithm d) (hex d))

/-- `Add`. -/
def add (s : DigestSet) (d : String) : Except Err Unit × DigestSet :=
  match validate d with
  | .error e => (.error e, s)
  | .ok () =>
    let entry := newEntry d
    let idx := search (atLeast entry.alg entry.val) s.entries
    match s.entries[idx]? with
    | none => (.ok (), ⟨s.entries ++ [entry]⟩)
    | some e =>
      if e.digest = d then (.ok (), s)
      else (.ok (), ⟨s.entries.take idx ++ entry :: s.entries.drop idx⟩)

/-- `Remove`. -/
def remove (s : DigestSet) (d : String) : Except Err Unit × DigestSet :=
  match validate d with
  | .error e => (.error e, s)
  | .ok () =>
    let entry := newEntry d
    let idx := search (atLeast entry.alg entry.val) s.entries
    match s.entries[idx]? with
    | none => (.ok (), s)
    | some e =>
      if e.digest ≠ d then (.ok (), s)
      else (.ok (), ⟨s.entries.take idx ++ s.entries.drop (idx + 1)⟩)

end DigestSet

/-- A call that changes the set. -/
inductive Call
  | add (d : String)
  | remove (d : String)

def DigestSet.exec (s : DigestSet) : Call → DigestSet
  | .add d => (s.add d).2
  | .remove d => (s.remove d).2

/-- What a call does to the digests: an invalid one is neither added nor removed. -/
def Call.on (set : Finset String) : Call → Finset String
  | .add d => if validate d = .ok () then insert d set else set
  | .remove d => if validate d = .ok () then set.erase d else set

/-- The set after calls on an empty one. -/
def DigestSet.run (cs : List Call) : DigestSet := cs.foldl exec new

/-- The digests that are left after calls. -/
def contents (cs : List Call) : Finset String := cs.foldl Call.on ∅

/-! ## What a text stands for -/

/-- The digest `x` is one that the text can stand for. -/
def Matches (d x : String) : Prop :=
  if parseDigest d = .error .invalidFormat then hasPrefix (hex x) d = true
  else algorithm x = algorithm d ∧ hasPrefix (hex x) (hex d) = true

/-- The outcomes of a lookup. -/
inductive Answers (set : Finset String) (d : String) : Except LookupErr String → Prop
  | notFound (h : ∀ x ∈ set, ¬ Matches d x) : Answers set d (.error .notFound)
  | found (x : String) (hx : x ∈ set) (h : Matches d x) (hunique : ∀ y ∈ set, Matches d y → y = x) : Answers set d (.ok x)
  | ambiguous (x y : String) (hx : x ∈ set) (hy : y ∈ set) (hne : x ≠ y) (h : Matches d x) (h' : Matches d y) :
    Answers set d (.error .ambiguous)

/-- The text is not of the form of a digest, or is a whole digest, or the digests have one algorithm. -/
def Precise (set : Finset String) (d : String) : Prop :=
  parseDigest d = .error .invalidFormat ∨ validate d = .ok () ∨ ∃ alg, ∀ x ∈ set, algorithm x = alg

theorem isPrefix_of_between {p a b : List Char} (hpa : ¬ a < p) (hab : ¬ b < a) (hp : p <+: b) : p <+: a := by
  induction p generalizing a b with
  | nil => exact List.nil_prefix
  | cons x p ih =>
    obtain ⟨r, rfl⟩ := hp
    cases a with
    | nil => exact absurd (List.nil_lt_cons x p) hpa
    | cons y a =>
      rw [List.cons_append] at hab
      rw [List.cons_lt_cons_iff] at hpa hab
      obtain rfl : x = y := le_antisymm (not_lt.mp fun hlt => hpa (.inl hlt)) (not_lt.mp fun hlt => hab (.inl hlt))
      rw [List.cons_prefix_cons]
      exact ⟨rfl, ih (fun hlt => hpa (.inr ⟨rfl, hlt⟩)) (fun hlt => hab (.inr ⟨rfl, hlt⟩)) (List.prefix_append p r)⟩

theorem not_lt_of_isPrefix {p a : List Char} (hp : p <+: a) : ¬ a < p := by
  induction p generalizing a with
  | nil => exact List.not_lt_nil a
  | cons x p ih =>
    obtain ⟨r, rfl⟩ := hp
    rw [List.cons_append, List.cons_lt_cons_iff]
    rintro (hlt | ⟨-, hlt⟩)
    · exact lt_irrefl x hlt
    · exact ih (List.prefix_append p r) hlt

/-- What stands between a text and a text that begins with it begins with it too. -/
theorem hasPrefix_of_between {p a b : String} (hpa : p ≤ a) (hab : a ≤ b) (hp : hasPrefix b p = true) : hasPrefix a p = true := by
  rw [hasPrefix, List.isPrefixOf_iff_prefix] at hp ⊢
  rw [← not_lt, String.lt_iff_toList_lt] at hpa hab
  exact isPrefix_of_between hpa hab hp

theorem le_of_hasPrefix {p a : String} (hp : hasPrefix a p = true) : p ≤ a := by
  rw [hasPrefix, List.isPrefixOf_iff_prefix] at hp
  rw [← not_lt, String.lt_iff_toList_lt]
  exact not_lt_of_isPrefix hp

theorem eq_of_hasPrefix {p a : String} (hp : hasPrefix a p = true) (hlen : a.length = p.length) : a = p := by
  rw [hasPrefix, List.isPrefixOf_iff_prefix] at hp
  exact String.toList_inj.mp (hp.eq_of_length (by rw [String.length_toList, String.length_toList, hlen])).symm

theorem checkShortMatch_iff {alg val shortAlg shortHex : String} :
    checkShortMatch alg val shortAlg shortHex = true ↔ hasPrefix val shortHex = true ∧ (shortAlg = "" ∨ alg = shortAlg) := by
  have halg : ¬ (shortAlg.utf8ByteSize > 0 ∧ alg ≠ shortAlg) ↔ shortAlg = "" ∨ alg = shortAlg := by
    rw [not_and_or, not_lt, Nat.le_zero, String.utf8ByteSize_eq_zero_iff, not_not]
  rw [← halg]
  by_cases hsize : val.utf8ByteSize = shortHex.utf8ByteSize
  · have hval : hasPrefix val shortHex = true ↔ val = shortHex := by
      refine ⟨fun hp => ?_, fun h => by simp [h, hasPrefix]⟩
      rw [hasPrefix, List.isPrefixOf_iff_prefix] at hp
      obtain ⟨r, hr⟩ := hp
      obtain rfl : val = shortHex ++ .ofList r := String.toList_inj.mp (by simp [hr])
      simpa using hsize
    rw [checkShortMatch, if_pos hsize, hval]
    split_ifs with hne hno
    · simp [hne]
    · simp [hno]
    · simpa only [true_iff, not_not] using ⟨not_not.mp hne, hno⟩
  · rw [checkShortMatch, if_neg hsize]
    split_ifs with hp hno
    · simpa using fun h : hasPrefix val shortHex = true => by simp [h] at hp
    · simp [hno]
    · simpa only [true_iff] using ⟨by simpa using hp, hno⟩

theorem invalidFormat_iff {d : String} : parseDigest d = .error .invalidFormat ↔ validate d = .error .invalidFormat := by
  rw [parseDigest]
  split <;> simp [*]

/-- A text that is not of the form of a digest has no algorithm. -/
theorem mem_of_format {d : String} (h : parseDigest d ≠ .error .invalidFormat) : ':' ∈ d.toList ∧ algorithm d ≠ "" := by
  rw [ne_eq, invalidFormat_iff, validate] at h
  split_ifs at h with hform
  · exact ⟨hform.1, hform.2.1⟩
  · exact absurd rfl h

theorem format_of_validate {d : String} (h : validate d = .ok ()) : parseDigest d ≠ .error .invalidFormat := by
  rw [ne_eq, invalidFormat_iff, h]
  simp

theorem takeWhile_colon {l : List Char} (h : ':' ∈ l) :
    l.takeWhile (· ≠ ':') ++ ':' :: (l.dropWhile (· ≠ ':')).drop 1 = l := by
  induction l with
  | nil => cases h
  | cons c l ih =>
    by_cases hc : c = ':'
    · simp [hc]
    · simpa [hc] using ih ((List.mem_cons.mp h).resolve_left (Ne.symm hc))

theorem newDigestFromHex_parts {d : String} (h : ':' ∈ d.toList) : newDigestFromHex (algorithm d) (hex d) = d := by
  refine String.toList_inj.mp ?_
  simpa [newDigestFromHex, algorithm, hex] using takeWhile_colon h

/-- Digests of one algorithm have hexadecimal parts of one length. -/
theorem length_hex_eq {d x : String} (hd : validate d = .ok ()) (hx : validate x = .ok ()) (halg : algorithm x = algorithm d) :
    (hex x).length = (hex d).length := by
  have hlength : ∀ {d}, validate d = .ok () → ∃ n, algorithmSize (algorithm d) = some n ∧ n * 2 = (hex d).length := by
    intro d hd
    rw [validate] at hd
    split_ifs at hd
    split at hd
    · cases hd
    · rename_i n hn
      split_ifs at hd with hlen
      exact ⟨n, hn, hlen⟩
  obtain ⟨n, hn, hlen⟩ := hlength hd
  obtain ⟨n', hn', hlen'⟩ := hlength hx
  rw [halg, hn] at hn'
  cases hn'
  rw [← hlen, ← hlen']

/-! ## The order of the entries -/

/-- What the entries are ordered by. -/
def DigestEntry.key (e : DigestEntry) : Lex (String × String) := toLex (e.val, e.alg)

theorem eq_of_key {d d' : String} (hd : validate d = .ok ()) (hd' : validate d' = .ok ())
    (hkey : (newEntry d).key = (newEntry d').key) : d = d' := by
  obtain ⟨hhex, halg⟩ : hex d = hex d' ∧ algorithm d = algorithm d' := Prod.mk.inj (toLex.injective hkey)
  rw [← newDigestFromHex_parts (mem_of_format (format_of_validate hd)).1,
    ← newDigestFromHex_parts (mem_of_format (format_of_validate hd')).1, hhex, halg]

namespace DigestSet

theorem atLeast_iff {alg val : String} {e : DigestEntry} : atLeast alg val e = true ↔ toLex (val, alg) ≤ e.key := by
  rw [atLeast, DigestEntry.key, Prod.Lex.toLex_le_toLex]
  split_ifs with h
  · simp [h]
  · rw [decide_eq_true_eq, le_iff_lt_or_eq]
    simp [Ne.symm h]

/-- The entries are in their order, and are those of valid digests. -/
structure Ordered (s : DigestSet) : Prop where
  sorted : s.entries.Pairwise fun e e' => e.key < e'.key
  parts : ∀ e ∈ s.entries, e = newEntry e.digest ∧ validate e.digest = .ok ()

def digests (s : DigestSet) : Finset String := (s.entries.map DigestEntry.digest).toFinset

variable {s : DigestSet} {d alg val : String}

theorem mem_digests : d ∈ s.digests ↔ ∃ e ∈ s.entries, e.digest = d := by
  rw [digests, List.mem_toFinset, List.mem_map]

/-- Where the search ends. -/
theorem Ordered.split (hs : s.Ordered) (alg val : String) :
    ∃ l r, s.entries = l ++ r ∧ search (atLeast alg val) s.entries = l.length ∧ (∀ e ∈ l, e.key < toLex (val, alg)) ∧
      ∀ e ∈ r, toLex (val, alg) ≤ e.key := by
  have hmono : s.entries.Pairwise fun e e' => atLeast alg val e = true → atLeast alg val e' = true := by
    refine hs.sorted.imp fun hlt h => ?_
    rw [atLeast_iff] at h ⊢
    exact h.trans hlt.le
  obtain ⟨l, r, happend, hsearch, hl, hr⟩ := search_split hmono
  refine ⟨l, r, happend, hsearch, fun e he => ?_, fun e he => atLeast_iff.mp (hr e he)⟩
  rw [← not_le, ← atLeast_iff, hl e he]
  simp

theorem Ordered.key_digest (hs : s.Ordered) {e : DigestEntry} (he : e ∈ s.entries) : e.key = (newEntry e.digest).key :=
  congrArg DigestEntry.key (hs.parts e he).1

theorem getElem?_split {l r : List DigestEntry} (i : ℕ) : (l ++ r)[l.length + i]? = r[i]? := by
  rw [List.getElem?_append_right (by omega), Nat.add_sub_cancel_left]

/-- The entry of a digest goes between the two parts. -/
theorem Ordered.insert {l r : List DigestEntry} (hs : s.Ordered) (happend : s.entries = l ++ r) (hd : validate d = .ok ())
    (hl : ∀ e ∈ l, e.key < (newEntry d).key) (hr : ∀ e ∈ r, (newEntry d).key < e.key) :
    (⟨l ++ newEntry d :: r⟩ : DigestSet).Ordered := by
  have hsorted := hs.sorted
  have hparts := hs.parts
  rw [happend] at hsorted hparts
  rw [List.pairwise_append] at hsorted
  refine ⟨?_, fun e he => ?_⟩
  · refine List.pairwise_append.mpr ⟨hsorted.1, List.pairwise_cons.mpr ⟨hr, hsorted.2.1⟩, fun e he e' he' => ?_⟩
    rcases List.mem_cons.mp he' with rfl | he'
    · exact hl e he
    · exact hsorted.2.2 e he e' he'
  · rcases List.mem_append.mp he with he | he
    · exact hparts e (List.mem_append_left r he)
    · rcases List.mem_cons.mp he with rfl | he
      · exact ⟨rfl, hd⟩
      · exact hparts e (List.mem_append_right l he)

theorem digests_insert {l r : List DigestEntry} (happend : s.entries = l ++ r) :
    (⟨l ++ newEntry d :: r⟩ : DigestSet).digests = insert d s.digests := by
  ext x
  simp [digests, happend, newEntry]

theorem Ordered.sublist (hs : s.Ordered) {l : List DigestEntry} (hl : l.Sublist s.entries) : (⟨l⟩ : DigestSet).Ordered :=
  ⟨hs.sorted.sublist hl, fun e he => hs.parts e (hl.subset he)⟩

/-- Only the first entry that is not before a digest can be its entry. -/
theorem Ordered.key_lt {l r : List DigestEntry} {e : DigestEntry} (hs : s.Ordered) (happend : s.entries = l ++ e :: r)
    (hd : validate d = .ok ()) (hle : (newEntry d).key ≤ e.key) (hne : e.digest ≠ d) :
    ∀ e' ∈ e :: r, (newEntry d).key < e'.key := by
  have he : e ∈ s.entries := happend ▸ List.mem_append_right l (List.mem_cons_self ..)
  have hlt : (newEntry d).key < e.key := by
    refine hle.lt_of_ne fun h => hne ?_
    rw [hs.key_digest he] at h
    exact (eq_of_key hd (hs.parts e he).2 h).symm
  have hsorted := hs.sorted
  rw [happend, List.pairwise_append, List.pairwise_cons] at hsorted
  intro e' he'
  rcases List.mem_cons.mp he' with rfl | he'
  · exact hlt
  · exact hlt.trans (hsorted.2.1.1 e' he')

theorem add_spec (hs : s.Ordered) (hd : validate d = .ok ()) :
    (s.add d).2.Ordered ∧ (s.add d).2.digests = insert d s.digests := by
  obtain ⟨l, r, happend, hsearch, hl, hr⟩ := hs.split (algorithm d) (hex d)
  have hindex : s.entries[l.length]? = r[0]? := happend ▸ getElem?_split 0
  simp only [add, hd, newEntry, hsearch, hindex]
  cases r with
  | nil =>
    have := hs.insert happend hd hl (by simp)
    rw [happend, List.append_nil]
    exact ⟨this, digests_insert happend⟩
  | cons e r =>
    simp only [List.getElem?_cons_zero]
    split_ifs with hdigest
    · refine ⟨hs, (Finset.insert_eq_of_mem (mem_digests.mpr ⟨e, ?_, hdigest⟩)).symm⟩
      exact happend ▸ List.mem_append_right l (List.mem_cons_self ..)
    · have hgt := hs.key_lt happend hd (hr e (List.mem_cons_self ..)) hdigest
      have := hs.insert happend hd hl hgt
      rw [happend, List.take_left, List.drop_left]
      exact ⟨this, digests_insert happend⟩

/-- A digest has no entry where all keys are before or after its own. -/
theorem Ordered.notMem (hs : s.Ordered) (h : ∀ e ∈ s.entries, e.key ≠ (newEntry d).key) : d ∉ s.digests := by
  rw [mem_digests]
  rintro ⟨e, he, rfl⟩
  exact h e he (hs.key_digest he)

theorem remove_spec (hs : s.Ordered) (hd : validate d = .ok ()) :
    (s.remove d).2.Ordered ∧ (s.remove d).2.digests = s.digests.erase d := by
  obtain ⟨l, r, happend, hsearch, hl, hr⟩ := hs.split (algorithm d) (hex d)
  have hindex : s.entries[l.length]? = r[0]? := happend ▸ getElem?_split 0
  simp only [remove, hd, newEntry, hsearch, hindex]
  cases r with
  | nil =>
    refine ⟨hs, (Finset.erase_eq_of_notMem (hs.notMem fun e he => ?_)).symm⟩
    rw [happend, List.append_nil] at he
    exact (hl e he).ne
  | cons e r =>
    simp only [List.getElem?_cons_zero]
    split_ifs with hdigest
    · refine ⟨hs, (Finset.erase_eq_of_notMem (hs.notMem fun e' he' => ?_)).symm⟩
      rw [happend] at he'
      rcases List.mem_append.mp he' with he' | he'
      · exact (hl e' he').ne
      · exact (hs.key_lt happend hd (hr e (List.mem_cons_self ..)) hdigest e' he').ne'
    · rw [not_not] at hdigest
      subst hdigest
      have hdrop : s.entries.take l.length ++ s.entries.drop (l.length + 1) = l ++ r := by
        rw [happend, List.take_left, List.drop_append]
        simp
      rw [hdrop]
      have hrest : (⟨l ++ r⟩ : DigestSet).Ordered :=
        hs.sublist (happend ▸ (List.Sublist.refl l).append (List.sublist_cons_self e r))
      have hnot : e.digest ∉ (⟨l ++ r⟩ : DigestSet).digests := by
        have hsorted := hs.sorted
        rw [happend, List.pairwise_append, List.pairwise_cons] at hsorted
        refine hrest.notMem fun e' he' => ?_
        rw [← hs.key_digest (happend ▸ List.mem_append_right l (List.mem_cons_self ..))]
        rcases List.mem_append.mp he' with he' | he'
        · exact (hsorted.2.2 e' he' e (List.mem_cons_self ..)).ne
        · exact (hsorted.2.1.1 e' he').ne'
      have hdigests : s.digests = insert e.digest (⟨l ++ r⟩ : DigestSet).digests := by
        ext x
        simp [digests, happend]
      exact ⟨hrest, by rw [hdigests, Finset.erase_insert hnot]⟩

theorem exec_spec (hs : s.Ordered) (c : Call) : (s.exec c).Ordered ∧ (s.exec c).digests = c.on s.digests := by
  cases c with
  | add d =>
    rw [exec, Call.on]
    split_ifs with hd
    · exact add_spec hs hd
    · have : (s.add d).2 = s := by
        rw [add]
        split
        · rfl
        · exact absurd ‹_› hd
      rw [this]
      exact ⟨hs, rfl⟩
  | remove d =>
    rw [exec, Call.on]
    split_ifs with hd
    · exact remove_spec hs hd
    · have : (s.remove d).2 = s := by
        rw [remove]
        split
        · rfl
        · exact absurd ‹_› hd
      rw [this]
      exact ⟨hs, rfl⟩

/-- After any calls the entries are in order, and hold the digests that are left. -/
theorem run_spec (cs : List Call) : (run cs).Ordered ∧ (run cs).digests = contents cs := by
  induction cs using List.reverseRecOn with
  | nil => exact ⟨⟨List.Pairwise.nil, by simp [run, new]⟩, rfl⟩
  | append_singleton cs c ih =>
    obtain ⟨hs, hdigests⟩ := ih
    rw [run, contents, List.foldl_append, List.foldl_append]
    change ((run cs).exec c).Ordered ∧ ((run cs).exec c).digests = c.on (contents cs)
    rw [← hdigests]
    exact exec_spec hs c

/-! ## Lookups -/

/-- The algorithm and the hexadecimal part that are looked for. -/
def target (d : String) : String × String :=
  if parseDigest d = .error .invalidFormat then ("", d) else (algorithm d, hex d)

theorem atLeast_empty (d : String) : atLeast "" d = fun e => decide (d ≤ e.val) := by
  funext e
  rw [atLeast]
  split_ifs with h
  · simpa [h] using le_of_hasPrefix (p := "") (a := e.alg) (by simp [hasPrefix])
  · rfl

theorem lookup_eq (s : DigestSet) (d : String) :
    s.lookup d = s.resolve (target d).1 (target d).2 (atLeast (target d).1 (target d).2) := by
  rw [lookup]
  split_ifs with hempty hformat
  · simp [resolve, List.length_eq_zero_iff.mp hempty]
  · rw [target, if_pos hformat, atLeast_empty]
  · rw [target, if_neg hformat]

theorem matches_iff {x : String} : Matches d x ↔ checkShortMatch (algorithm x) (hex x) (target d).1 (target d).2 = true := by
  rw [checkShortMatch_iff, Matches, target]
  split_ifs with hformat
  · simp
  · simp [(mem_of_format hformat).2, and_comm]

theorem Ordered.matches_iff (hs : s.Ordered) {e : DigestEntry} (he : e ∈ s.entries) :
    checkShortMatch e.alg e.val (target d).1 (target d).2 = true ↔ Matches d e.digest := by
  rw [DigestSet.matches_iff, (hs.parts e he).1]
  rfl

/-- No entry before the one that is found matches. -/
theorem Ordered.not_matches_before (hs : s.Ordered) {e : DigestEntry} (he : e ∈ s.entries)
    (hlt : e.key < toLex ((target d).2, (target d).1)) : ¬ Matches d e.digest := by
  rw [← hs.matches_iff he, checkShortMatch_iff]
  rintro ⟨hp, halg⟩
  rw [DigestEntry.key, Prod.Lex.toLex_lt_toLex] at hlt
  rcases hlt with hlt | ⟨-, hlt⟩
  · exact absurd (le_of_hasPrefix hp) (not_le.mpr hlt)
  · rcases halg with halg | halg
    · rw [halg] at hlt
      exact absurd (le_of_hasPrefix (by simp [hasPrefix])) (not_le.mpr hlt)
    · exact absurd halg hlt.ne

/-- A whole digest is matched by itself only. -/
theorem eq_of_matches {x : String} (hd : validate d = .ok ()) (hx : validate x = .ok ()) (h : Matches d x) : x = d := by
  rw [Matches, if_neg (format_of_validate hd)] at h
  obtain ⟨halg, hp⟩ := h
  have hhex := eq_of_hasPrefix hp (length_hex_eq hd hx halg)
  refine eq_of_key hx hd ?_
  rw [DigestEntry.key, DigestEntry.key, newEntry, newEntry, halg, hhex]

/-- The entries that match stand together, from the one that is found on. -/
theorem Ordered.matches_of_lt (hs : s.Ordered) (h : Precise s.digests d) {e e' : DigestEntry} (he : e ∈ s.entries)
    (he' : e' ∈ s.entries) (hle : toLex ((target d).2, (target d).1) ≤ e.key) (hlt : e.key < e'.key) (hm : Matches d e'.digest) :
    Matches d e.digest := by
  have hm' := hm
  rw [← hs.matches_iff he', checkShortMatch_iff] at hm'
  rw [← hs.matches_iff he, checkShortMatch_iff]
  have hval : (target d).2 ≤ e.val := (Prod.Lex.monotone_fst _ _ hle : _)
  have hval' : e.val ≤ e'.val := (Prod.Lex.monotone_fst _ _ hlt.le : _)
  refine ⟨hasPrefix_of_between hval hval' hm'.1, ?_⟩
  rcases h with hformat | hvalid | ⟨alg, halg⟩
  · left
    rw [target, if_pos hformat]
  · have hd := eq_of_matches hvalid (hs.parts e' he').2 hm
    rw [target, if_neg (format_of_validate hvalid), ← hd] at hle
    exact absurd (hle.trans_lt hlt) (by rw [hs.key_digest he']; exact lt_irrefl _)
  · refine hm'.2.imp id fun h => ?_
    rw [← h]
    rw [(hs.parts e he).1, (hs.parts e' he').1]
    exact (halg _ (mem_digests.mpr ⟨e, he, rfl⟩)).trans (halg _ (mem_digests.mpr ⟨e', he', rfl⟩)).symm

/-- If the entry that is found matches, it is the answer as long as no other one after it does. -/
theorem answers_ok {l r : List DigestEntry} {e : DigestEntry} (happend : s.entries = l ++ e :: r)
    (hl : ∀ e' ∈ l, ¬ Matches d e'.digest) (hm : Matches d e.digest) (hr : ∀ e' ∈ r, ¬ Matches d e'.digest) :
    Answers s.digests d (.ok e.digest) := by
  refine .found _ (mem_digests.mpr ⟨e, happend ▸ List.mem_append_right l (List.mem_cons_self ..), rfl⟩) hm fun y hy hmy => ?_
  obtain ⟨e', he', rfl⟩ := mem_digests.mp hy
  rw [happend] at he'
  rcases List.mem_append.mp he' with he' | he'
  · exact absurd hmy (hl e' he')
  · rcases List.mem_cons.mp he' with rfl | he'
    · rfl
    · exact absurd hmy (hr e' he')

theorem Ordered.digest_ne (hs : s.Ordered) {e e' : DigestEntry} (he : e ∈ s.entries) (he' : e' ∈ s.entries)
    (hlt : e.key < e'.key) : e.digest ≠ e'.digest := fun h => by
  rw [hs.key_digest he, hs.key_digest he', h] at hlt
  exact lt_irrefl _ hlt

/-- The entry whose parts are what is looked for is that of the whole digest. -/
theorem Ordered.digest_eq (hs : s.Ordered) {e : DigestEntry} (he : e ∈ s.entries) (halg : e.alg = (target d).1)
    (hval : e.val = (target d).2) : e.digest = d := by
  obtain ⟨hparts, hvalid⟩ := hs.parts e he
  have hform := mem_of_format (format_of_validate hvalid)
  rw [hparts] at halg hval
  rw [target] at halg hval
  split_ifs at halg hval with hformat
  · exact absurd halg hform.2
  · rw [← newDigestFromHex_parts hform.1, ← newDigestFromHex_parts (mem_of_format hformat).1]
    exact congrArg₂ newDigestFromHex halg hval

theorem Ordered.answers_lookup (hs : s.Ordered) (h : Precise s.digests d) : Answers s.digests d (s.lookup d) := by
  obtain ⟨l, r, happend, hsearch, hlow, hhigh⟩ := hs.split (target d).1 (target d).2
  have hleft : ∀ e ∈ l, e ∈ s.entries := fun e he => happend ▸ List.mem_append_left r he
  have hright : ∀ e ∈ r, e ∈ s.entries := fun e he => happend ▸ List.mem_append_right l he
  have hl : ∀ e ∈ l, ¬ Matches d e.digest := fun e he => hs.not_matches_before (hleft e he) (hlow e he)
  have hindex (i : ℕ) : s.entries[l.length + i]? = r[i]? := happend ▸ getElem?_split i
  have hsorted := hs.sorted
  rw [happend, List.pairwise_append] at hsorted
  simp only [lookup_eq, resolve, hsearch, hindex 1, show s.entries[l.length]? = r[0]? from hindex 0]
  cases r with
  | nil =>
    refine .notFound fun x hx => ?_
    obtain ⟨e, he, rfl⟩ := mem_digests.mp hx
    rw [happend, List.append_nil] at he
    exact hl e he
  | cons e r =>
    have he := hright e (List.mem_cons_self ..)
    have hlater : ∀ e' ∈ r, Matches d e'.digest → Matches d e.digest := fun e' he' =>
      hs.matches_of_lt h he (hright e' (List.mem_cons_of_mem e he')) (hhigh e (List.mem_cons_self ..))
        ((List.pairwise_cons.mp hsorted.2.1).1 e' he')
    simp only [List.getElem?_cons_zero, List.getElem?_cons_succ]
    split_ifs with hno hexact
    · rw [Bool.not_eq_true', ← Bool.not_eq_true, hs.matches_iff he] at hno
      refine .notFound fun x hx => ?_
      obtain ⟨e', he', rfl⟩ := mem_digests.mp hx
      rw [happend] at he'
      rcases List.mem_append.mp he' with he' | he'
      · exact hl e' he'
      · rcases List.mem_cons.mp he' with rfl | he'
        · exact hno
        · exact fun hm => hno (hlater e' he' hm)
    · rw [Bool.not_eq_true', Bool.not_eq_false, hs.matches_iff he] at hno
      refine answers_ok happend hl hno fun e' he' hm => ?_
      have hd := hs.digest_eq he hexact.1 hexact.2
      have he'' := hright e' (List.mem_cons_of_mem e he')
      refine hs.digest_ne he he'' ((List.pairwise_cons.mp hsorted.2.1).1 e' he') (hd.trans (eq_of_matches ?_ ?_ hm).symm)
      · exact hd ▸ (hs.parts e he).2
      · exact (hs.parts e' he'').2
    · rw [Bool.not_eq_true', Bool.not_eq_false, hs.matches_iff he] at hno
      cases r with
      | nil => exact answers_ok happend hl hno (by simp)
      | cons e' r =>
        have he' := hright e' (List.mem_cons_of_mem e (List.mem_cons_self ..))
        rw [List.pairwise_cons, List.pairwise_cons] at hsorted
        simp only [List.getElem?_cons_zero]
        split_ifs with hnext
        · have hne := hs.digest_ne he he' (hsorted.2.1.1 e' (List.mem_cons_self ..))
          rw [hs.matches_iff he'] at hnext
          exact .ambiguous _ _ (mem_digests.mpr ⟨e, he, rfl⟩) (mem_digests.mpr ⟨e', he', rfl⟩) hne hno hnext
        · rw [hs.matches_iff he'] at hnext
          refine answers_ok happend hl hno fun e'' he'' hm => ?_
          rcases List.mem_cons.mp he'' with rfl | hmem
          · exact hnext hm
          · refine hnext (hs.matches_of_lt h he' (hright e'' (List.mem_cons_of_mem e he'')) ?_ (hsorted.2.1.2.1 e'' hmem) hm)
            exact hhigh e' (List.mem_cons_of_mem e (List.mem_cons_self ..))

/-- After any calls, a lookup finds a digest just if it is the only one that matches, and tells no match from more
than one. -/
theorem lookup_run (cs : List Call) (d : String) (h : Precise (contents cs) d) :
    Answers (contents cs) d ((run cs).lookup d) := by
  obtain ⟨hs, hdigests⟩ := run_spec cs
  rw [← hdigests] at h ⊢
  exact hs.answers_lookup h

/-- A beginning of two of three digests. -/
theorem lookup_run_two :
    parseDigest "ab" = .error .invalidFormat ∧
    Answers (contents [.add "sha256:ab00000000000000000000000000000000000000000000000000000000000000",
        .add "sha256:cd00000000000000000000000000000000000000000000000000000000000000",
        .add "sha256:abab000000000000000000000000000000000000000000000000000000000000"]) "ab"
      ((run [.add "sha256:ab00000000000000000000000000000000000000000000000000000000000000",
        .add "sha256:cd00000000000000000000000000000000000000000000000000000000000000",
        .add "sha256:abab000000000000000000000000000000000000000000000000000000000000"]).lookup "ab") :=
  ⟨by decide, lookup_run _ "ab" (.inl (by decide))⟩

/-- The entries in their order are those that the finite set gives. -/
theorem Ordered.entries_eq (hs : s.Ordered) : Digest.entries s.digests = s.entries.map fun e => (e.val, e.alg) := by
  have hsort : sortPairs (s.digests.image fun d => toLex (hex d, algorithm d)) = s.entries.map DigestEntry.key := by
    refine (Finset.sortedLT_sort _).eq_of_mem_iff (List.pairwise_map.mpr hs.sorted).sortedLT fun p => ?_
    rw [Finset.mem_sort, Finset.mem_image, List.mem_map]
    constructor
    · rintro ⟨d, hd, rfl⟩
      obtain ⟨e, he, rfl⟩ := mem_digests.mp hd
      exact ⟨e, he, hs.key_digest he⟩
    · rintro ⟨e, he, rfl⟩
      exact ⟨e.digest, mem_digests.mpr ⟨e, he, rfl⟩, (hs.key_digest he).symm⟩
  rw [Digest.entries, hsort, List.map_map]
  rfl

theorem not_atLeast (alg val : String) (e : DigestEntry) :
    (if e.val = val then decide (e.alg < alg) else decide (e.val < val)) = !atLeast alg val e := by
  rw [atLeast]
  split_ifs with h
  · rw [← decide_not]
    exact decide_eq_decide.mpr not_le.symm
  · rw [← decide_not]
    exact decide_eq_decide.mpr not_le.symm

/-- Where the search ends is where a scan of the finite set ends. -/
theorem Ordered.dropWhile_entries {l r : List DigestEntry} (hs : s.Ordered) (happend : s.entries = l ++ r)
    (hl : ∀ e ∈ l, e.key < toLex (val, alg)) (hr : ∀ e ∈ r, toLex (val, alg) ≤ e.key) :
    (Digest.entries s.digests).dropWhile (fun (val', alg') =>
      if val' = val then decide (alg' < alg) else decide (val' < val)) = r.map fun e => (e.val, e.alg) := by
  rw [hs.entries_eq, List.dropWhile_map, happend]
  refine congrArg _ ?_
  rw [List.dropWhile_append_of_pos fun e he => ?_]
  · cases r with
    | nil => rfl
    | cons e r =>
      refine List.dropWhile_cons_of_neg ?_
      simp only [Function.comp_apply, not_atLeast, atLeast_iff.mpr (hr e (List.mem_cons_self ..))]
      simp
  · simp only [Function.comp_apply, not_atLeast]
    rw [Bool.not_eq_true', ← Bool.not_eq_true, atLeast_iff, not_le]
    exact hl e he

/-- A lookup in the slice gives what it gives in the finite set. -/
theorem Ordered.lookup_toOption (hs : s.Ordered) (d : String) : (s.lookup d).toOption = Digest.lookup s.digests d := by
  obtain ⟨l, r, happend, hsearch, hlow, hhigh⟩ := hs.split (target d).1 (target d).2
  have hindex (i : ℕ) : s.entries[l.length + i]? = r[i]? := happend ▸ getElem?_split i
  have hdrop := hs.dropWhile_entries happend hlow hhigh
  have hdigest : ∀ e ∈ r, newDigestFromHex e.alg e.val = e.digest := fun e he => by
    obtain ⟨hparts, hvalid⟩ := hs.parts e (happend ▸ List.mem_append_right l he)
    rw [hparts]
    exact newDigestFromHex_parts (mem_of_format (format_of_validate hvalid)).1
  simp only [lookup_eq, resolve, hsearch, hindex 1, show s.entries[l.length]? = r[0]? from hindex 0]
  rw [Digest.lookup, show (if parseDigest d = .error .invalidFormat then ("", d) else (algorithm d, hex d)) = target d from rfl]
  generalize target d = t at hdrop ⊢
  obtain ⟨alg, val⟩ := t
  simp only at hdrop ⊢
  rw [hdrop]
  cases r with
  | nil => rfl
  | cons e r =>
    have he := hdigest e (List.mem_cons_self ..)
    simp only [List.getElem?_cons_zero, List.getElem?_cons_succ, List.map_cons, he]
    split_ifs with hno hexact
    · rfl
    · rfl
    · cases r with
      | nil => rfl
      | cons e' r =>
        simp only [List.getElem?_cons_zero, List.map_cons]
        split_ifs <;> rfl

/-- After any calls, a lookup in the sorted slice gives what it gives in the finite set of digests that are left. -/
theorem lookup_run_eq (cs : List Call) (d : String) : ((run cs).lookup d).toOption = Digest.lookup (contents cs) d := by
  obtain ⟨hs, hdigests⟩ := run_spec cs
  rw [← hdigests]
  exact hs.lookup_toOption d

end DigestSet

end Moby.Digest
