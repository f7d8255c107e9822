import Mathlib.Data.List.Nodup
import Mathlib.Logic.Function.Basic
import Moby.Framework.Slice

/-!
# The lists of names that are given out (pkg/registrar)

`Moby.Daemon.Registrar` has the names of a key as a list. Here they are a slice, as in the source, and
`GetNames` and `GetAll` give out the slices of the index. `Reserve` writes behind a slice or moves it to
a new array; `Release` moves the names behind the released one forward, in the array that all slices
share that were given out for the key. So a list that was given out stays as it is while none of its
names is released (`names_stay`).
-/

namespace Moby.Daemon.NameLists

open Moby.Framework

structure Registrar where
  heap : Heap String
  idx : String → Option Slice
  names : String → Option String

namespace Registrar

/-- `NewRegistrar`. -/
def new : Registrar := { heap := [], idx := fun _ => none, names := fun _ => none }

/-- `r.idx[key]`, which is nil if the key is not known. -/
def slice (r : Registrar) (key : String) : Slice := (r.idx key).getD .nil

/-- The names of a key. -/
def list (r : Registrar) (key : String) : List String := (r.slice key).read r.heap

/-- `r.idx[key] = append(s, xs...)`. The runtime chooses how much larger than needed a new array is. -/
def put (spare : ℕ → ℕ → ℕ) (r : Registrar) (key : String) (s : Slice) (xs : List String) : Registrar :=
  let a := Slice.append spare "" r.heap s xs
  { r with heap := a.1, idx := Function.update r.idx key (some a.2) }

def reserve (spare : ℕ → ℕ → ℕ) (r : Registrar) (name key : String) : Registrar :=
  match r.names name with
  | some _ => r
  | none => { r.put spare key (r.slice key) [name] with names := Function.update r.names name (some key) }

/-- `Release`; the loop ends at the first name that is the one. -/
def release (spare : ℕ → ℕ → ℕ) (r : Registrar) (name : String) : Registrar :=
  match r.names name with
  | none => r
  | some key =>
    let i := (r.list key).idxOf name
    let r :=
      if i < (r.list key).length then r.put spare key { r.slice key with len := i } ((r.list key).drop (i + 1)) else r
    let r := { r with names := Function.update r.names name none }
    if (r.slice key).len = 0 then { r with idx := Function.update r.idx key none } else r

def delete (r : Registrar) (key : String) : Registrar :=
  { r with names := fun name => if name ∈ r.list key then none else r.names name, idx := Function.update r.idx key none }

/-- `GetNames`, and none for `ErrNoSuchKey`; `GetAll` gives out the same for each key. -/
def getNames (r : Registrar) (key : String) : Option Slice := r.idx key

end Registrar

inductive Call
  | reserve (name key : String)
  | release (name : String)
  | delete (key : String)
  deriving DecidableEq

namespace Registrar

def step (spare : ℕ → ℕ → ℕ) (r : Registrar) : Call → Registrar
  | .reserve name key => r.reserve spare name key
  | .release name => r.release spare name
  | .delete key => r.delete key

def run (spare : ℕ → ℕ → ℕ) (r : Registrar) (calls : List Call) : Registrar := calls.foldl (step spare) r

/-! ## Slices that do not meet -/

/-- The slices of the index lie in arrays of their own. -/
structure Apart (r : Registrar) : Prop where
  mem : ∀ k s, r.idx k = some s → s.In r.heap
  placed : ∀ k s, r.idx k = some s → s.array ≠ none
  apart : ∀ k k' s s', k ≠ k' → r.idx k = some s → r.idx k' = some s' → s.array ≠ s'.array

/-- A list that was given out: it has the names `xs`, and if it is in the array of a slice of the
index, it is a beginning of that slice. -/
structure GivenOut (r : Registrar) (t : Slice) (xs : List String) : Prop where
  mem : t.In r.heap
  placed : t.array ≠ none
  read : t.read r.heap = xs
  first : ∀ k s, r.idx k = some s → s.array = t.array → t.offset = s.offset ∧ t.len ≤ s.len

variable {spare : ℕ → ℕ → ℕ} {r : Registrar} {key name : String} {s t : Slice} {xs ys : List String}

theorem array_ne_none {heap : Heap String} (h : s.read heap ≠ []) : s.array ≠ none := by
  intro hnone
  unfold Slice.read at h
  rw [hnone] at h
  exact h rfl

theorem Apart.in_slice (h : r.Apart) (key : String) : (r.slice key).In r.heap := by
  rw [slice]
  cases hs : r.idx key with
  | none => exact Slice.in_nil _
  | some s => exact h.mem key s hs

/-- The slices of the other keys are not in the array of a key. -/
theorem Apart.ne_slice (h : r.Apart) {k : String} (hk : k ≠ key) (hs : r.idx k = some s) : s.array ≠ (r.slice key).array := by
  rw [slice]
  cases hkey : r.idx key with
  | none => exact h.placed k s hs
  | some s' => exact h.apart k key s s' hk hs hkey

theorem put_idx (spare : ℕ → ℕ → ℕ) (r : Registrar) (key : String) (s : Slice) (xs : List String) :
    (r.put spare key s xs).idx = Function.update r.idx key (some (Slice.append spare "" r.heap s xs).2) := rfl

theorem slice_put (spare : ℕ → ℕ → ℕ) (r : Registrar) (key : String) (s : Slice) (xs : List String) :
    (r.put spare key s xs).slice key = (Slice.append spare "" r.heap s xs).2 := by
  rw [slice, put_idx, Function.update_self]
  rfl

theorem put_cases {k : String} {s' : Slice} (hk : (r.put spare key s xs).idx k = some s') :
    k = key ∧ s' = (Slice.append spare "" r.heap s xs).2 ∨ k ≠ key ∧ r.idx k = some s' := by
  rw [put_idx] at hk
  by_cases hkey : k = key
  · rw [hkey, Function.update_self, Option.some_inj] at hk
    exact .inl ⟨hkey, hk.symm⟩
  · rw [Function.update_of_ne hkey] at hk
    exact .inr ⟨hkey, hk⟩

section Put

variable (h : r.Apart) (hs : s.In r.heap) (hothers : ∀ k s', k ≠ key → r.idx k = some s' → s'.array ≠ s.array)

include h hs hothers

/-- Writing at one key, the slices of the others stay. -/
theorem Apart.append : Slice.Appended r.heap (Slice.append spare "" r.heap s xs).1
    (fun t => ∃ k ≠ key, r.idx k = some t) s (Slice.append spare "" r.heap s xs).2 xs := by
  have hsafe : Slice.Safe r.heap (fun t => ∃ k ≠ key, r.idx k = some t) s := by
    refine ⟨hs, fun t ht => ?_⟩
    obtain ⟨k, hk, ht⟩ := ht
    exact ⟨h.mem k t ht, .of_ne (hothers k t hk ht)⟩
  exact hsafe.append spare "" xs

theorem list_put (k : String) : (r.put spare key s xs).list k = if k = key then s.read r.heap ++ xs else r.list k := by
  have happ := @Apart.append spare r key s xs h hs hothers
  rw [list, slice]
  by_cases hk : k = key
  · subst hk
    rw [if_pos rfl]
    simpa [put] using happ.read
  · rw [if_neg hk]
    have hidx : (r.put spare key s xs).idx k = r.idx k := Function.update_of_ne hk ..
    rw [hidx, list, slice]
    cases hk' : r.idx k with
    | none => rfl
    | some s' => exact happ.frame.read s' ⟨k, hk, hk'⟩

theorem Apart.put (hne : s.read r.heap ++ xs ≠ []) : (r.put spare key s xs).Apart := by
  have happ := @Apart.append spare r key s xs h hs hothers
  have hplaced : (Slice.append spare "" r.heap s xs).2.array ≠ none := array_ne_none (happ.read ▸ hne)
  have hnew (k : String) (s' : Slice) (hk : k ≠ key) (hs' : r.idx k = some s') :
      s'.array ≠ (Slice.append spare "" r.heap s xs).2.array := by
    intro heq
    rcases happ.place with ⟨hsame, -, -⟩ | hnew
    · exact hothers k s' hk hs' (heq.trans hsame)
    · exact h.placed k s' hs' ((h.mem k s' hs').ne_of_new hnew heq)
  refine ⟨fun k s' hk => ?_, fun k s' hk => ?_, fun k k' s₁ s₂ hkk hk hk' => ?_⟩
  · obtain ⟨-, rfl⟩ | ⟨-, hk⟩ := put_cases hk
    · exact happ.safe.mem
    · exact happ.frame.others s' (h.mem k s' hk)
  · obtain ⟨-, rfl⟩ | ⟨-, hk⟩ := put_cases hk
    · exact hplaced
    · exact h.placed k s' hk
  · obtain ⟨hkey, rfl⟩ | ⟨hne₁, hk⟩ := put_cases hk
    · obtain ⟨hkey', -⟩ | ⟨hne₂, hk'⟩ := put_cases hk'
      · exact absurd (hkey.trans hkey'.symm) hkk
      · exact (hnew k' s₂ hne₂ hk').symm
    · obtain ⟨-, rfl⟩ | ⟨-, hk'⟩ := put_cases hk'
      · exact hnew k s₁ hne₁ hk
      · exact h.apart k k' s₁ s₂ hkk hk hk'

/-- The list of the key has become empty, and the key is forgotten. -/
theorem Apart.put_erase (names : String → Option String) : Apart
    { r.put spare key s xs with names := names, idx := Function.update (r.put spare key s xs).idx key none } := by
  have happ := @Apart.append spare r key s xs h hs hothers
  have hidx {k : String} {s' : Slice} (hk : Function.update (r.put spare key s xs).idx key none k = some s') :
      r.idx k = some s' := by
    by_cases hkey : k = key
    · rw [hkey, Function.update_self] at hk
      cases hk
    · rw [Function.update_of_ne hkey, put_idx, Function.update_of_ne hkey] at hk
      exact hk
  exact ⟨fun k s' hk => happ.frame.others s' (h.mem k s' (hidx hk)), fun k s' hk => h.placed k s' (hidx hk),
    fun k k' s₁ s₂ hkk hk hk' => h.apart k k' s₁ s₂ hkk (hidx hk) (hidx hk')⟩

end Put

/-! ## The names of the keys -/

/-- The two indexes say the same. -/
structure Ok (r : Registrar) : Prop where
  apart : r.Apart
  agree : ∀ key name, name ∈ r.list key ↔ r.names name = some key
  nodup : ∀ key, (r.list key).Nodup

theorem ok_new : new.Ok where
  apart := ⟨fun k s h => (by cases h), fun k s h => (by cases h), fun k k' s s' _ h => (by cases h)⟩
  agree key name := by simp [new, list, slice, Slice.nil, Slice.read]
  nodup key := by simp [new, list, slice, Slice.nil, Slice.read]

theorem Apart.erase (h : r.Apart) (key : String) (names : String → Option String) :
    Apart { r with names := names, idx := Function.update r.idx key none } := by
  have hidx {k : String} {s : Slice} (hk : Function.update r.idx key none k = some s) : r.idx k = some s := by
    by_cases hkey : k = key
    · rw [hkey, Function.update_self] at hk
      cases hk
    · rwa [Function.update_of_ne hkey] at hk
  exact ⟨fun k s hk => h.mem k s (hidx hk), fun k s hk => h.placed k s (hidx hk),
    fun k k' s s' hkk hk hk' => h.apart k k' s s' hkk (hidx hk) (hidx hk')⟩

theorem list_erase (key : String) (names : String → Option String) (k : String) :
    list { r with names := names, idx := Function.update r.idx key none } k = if k = key then [] else r.list k := by
  show ((Function.update r.idx key none k).getD .nil).read r.heap = _
  by_cases hk : k = key
  · rw [if_pos hk, hk, Function.update_self]
    rfl
  · rw [if_neg hk, Function.update_of_ne hk]
    rfl

/-- The names that a key has after its list has changed. -/
theorem Ok.of_list {r' : Registrar} (h : r.Ok) (key : String) (hapart : r'.Apart) {l : List String} (hnodup : l.Nodup)
    (hlist : ∀ k, r'.list k = if k = key then l else r.list k)
    (hnames : ∀ name k, r'.names name = some k ↔ if k = key then name ∈ l else r.names name = some k) : r'.Ok := by
  refine ⟨hapart, fun k name => ?_, fun k => ?_⟩
  · rw [hlist, hnames]
    split
    · exact Iff.rfl
    · exact h.agree k name
  · rw [hlist]
    split
    · exact hnodup
    · exact h.nodup k

theorem Ok.reserve (h : r.Ok) (spare : ℕ → ℕ → ℕ) (name key : String) : (r.reserve spare name key).Ok := by
  rw [Registrar.reserve]
  split
  · exact h
  · rename_i hnone
    have hothers (k : String) (s' : Slice) (hk : k ≠ key) (hs' : r.idx k = some s') := h.apart.ne_slice hk hs'
    have hput := @Apart.put spare r key _ [name] h.apart (h.apart.in_slice key) hothers (by simp)
    have hnew : name ∉ r.list key := fun hmem => by
      rw [(h.agree key name).mp hmem] at hnone
      cases hnone
    refine h.of_list key (l := r.list key ++ [name]) ⟨hput.mem, hput.placed, hput.apart⟩ ?_
      (list_put h.apart (h.apart.in_slice key) hothers) fun name' k => ?_
    · exact (h.nodup key).append (List.nodup_singleton name) (by simpa using hnew)
    · by_cases hname : name' = name
      · subst hname
        simp [hnone, eq_comm]
      · have hagree := h.agree key name'
        by_cases hk : k = key
        · simp [hname, hk, hagree]
        · simp [hname, hk]

/-- A name that is taken is in the slice of its key, and what is before it is a slice. -/
theorem Ok.before (h : r.Ok) (hname : r.names name = some key) :
    (r.list key).idxOf name < (r.list key).length ∧ (r.list key).idxOf name ≤ (r.slice key).len ∧
      ({ r.slice key with len := (r.list key).idxOf name } : Slice).In r.heap := by
  have hlt := List.idxOf_lt_length_iff.mpr ((h.agree key name).mpr hname)
  have hle : (r.list key).idxOf name ≤ (r.slice key).len := by
    rw [← (h.apart.in_slice key).length_read]
    exact Nat.le_of_lt hlt
  exact ⟨hlt, hle, (h.apart.in_slice key).take hle⟩

/-- What `Release` writes: the names behind the released one, over it. -/
theorem list_put_release (h : r.Ok) (hname : r.names name = some key) (k : String) :
    (r.put spare key { r.slice key with len := (r.list key).idxOf name } ((r.list key).drop ((r.list key).idxOf name + 1))).list k =
      if k = key then (r.list key).erase name else r.list k := by
  obtain ⟨-, hle, hin⟩ := h.before hname
  rw [list_put h.apart hin fun k s' hk hs' => h.apart.ne_slice hk hs', Slice.read_take hle,
    ← List.eraseIdx_idxOf_eq_erase, List.eraseIdx_eq_take_drop_succ]
  rfl

theorem Ok.release (h : r.Ok) (spare : ℕ → ℕ → ℕ) (name : String) : (r.release spare name).Ok := by
  rw [Registrar.release]
  split
  · exact h
  · rename_i key hname
    obtain ⟨hlt, -, hin⟩ := h.before hname
    have hothers (k : String) (s' : Slice) (hk : k ≠ key) (hs' : r.idx k = some s') := h.apart.ne_slice hk hs'
    have hlist := @list_put_release spare r key name h hname
    have hnodup := (h.nodup key).erase name
    have hnames (name' k : String) : Function.update r.names name none name' = some k ↔
        if k = key then name' ∈ (r.list key).erase name else r.names name' = some k := by
      by_cases hn : name' = name
      · rw [hn, Function.update_self]
        by_cases hk : k = key
        · simp [hk, (h.nodup key).not_mem_erase]
        · simp [hk, hname, Ne.symm hk]
      · rw [Function.update_of_ne hn, List.mem_erase_of_ne hn, h.agree key name']
        split
        · rename_i hk
          rw [hk]
        · exact Iff.rfl
    dsimp only
    rw [if_pos hlt]
    have happ := @Apart.append spare r key _ ((r.list key).drop ((r.list key).idxOf name + 1)) h.apart hin hothers
    generalize hr : r.put spare key { r.slice key with len := (r.list key).idxOf name }
      ((r.list key).drop ((r.list key).idxOf name + 1)) = r₁ at hlist ⊢
    have hlen₁ : (r₁.list key).length = (r₁.slice key).len := by
      rw [← hr, list, slice_put]
      exact happ.safe.mem.length_read
    split
    · -- It was the last name of the key.
      rename_i hzero
      have hnil : (r.list key).erase name = [] := by
        have hl := hlist key
        rw [if_pos rfl] at hl
        rw [← hl]
        exact List.length_eq_zero_iff.mp (hlen₁.trans hzero)
      refine h.of_list key (l := []) ?_ List.nodup_nil (fun k => ?_) fun name' k => ?_
      · rw [← hr]
        exact h.apart.put_erase hin hothers _
      · refine (list_erase (r := r₁) key _ k).trans ?_
        rw [hlist]
        split <;> rfl
      · rw [← hnil, ← hnames, ← hr]
        rfl
    · rename_i hpos
      have hput : r₁.Apart := by
        rw [← hr]
        refine h.apart.put hin hothers fun hnil => hpos ?_
        have hl : r₁.list key = [] := by
          rw [← hr, list_put h.apart hin hothers, if_pos rfl]
          exact hnil
        show (r₁.slice key).len = 0
        rw [← hlen₁, hl]
        rfl
      refine h.of_list key ⟨hput.mem, hput.placed, hput.apart⟩ hnodup hlist fun name' k => ?_
      rw [← hnames, ← hr]
      rfl

theorem Ok.delete (h : r.Ok) (key : String) : (r.delete key).Ok := by
  refine h.of_list key (l := []) (h.apart.erase key _) List.nodup_nil (list_erase key _) fun name k => ?_
  have hagree := h.agree key name
  show (if name ∈ r.list key then none else r.names name) = some k ↔ _
  by_cases hmem : name ∈ r.list key
  · rw [if_pos hmem, hagree.mp hmem]
    by_cases hk : k = key
    · simp [hk]
    · simp [hk, Ne.symm hk]
  · rw [if_neg hmem]
    by_cases hk : k = key
    · rw [hk, if_pos rfl, ← hagree]
      simpa using hmem
    · rw [if_neg hk]

theorem Ok.step (h : r.Ok) (c : Call) : (r.step spare c).Ok := by
  cases c with
  | reserve name key => exact h.reserve spare name key
  | release name => exact h.release spare name
  | delete key => exact h.delete key

theorem Ok.run (h : r.Ok) (calls : List Call) : (r.run spare calls).Ok := by
  induction calls generalizing r with
  | nil => exact h
  | cons c calls ih => exact ih (h.step c)

/-! ## Lists that were given out -/

namespace GivenOut

variable (hg : r.GivenOut t xs)

include hg

theorem put (hs : s.In r.heap) (hfirst : s.array = t.array → t.offset = s.offset ∧ t.len ≤ s.len)
    (names : String → Option String) : GivenOut { r.put spare key s ys with names := names } t xs := by
  have hsafe : Slice.Safe r.heap (· = t) s := by
    refine ⟨hs, fun t' ht' => ?_⟩
    rw [ht']
    refine ⟨hg.mem, fun heq _ => ?_⟩
    have := hfirst heq.symm
    omega
  have happ := hsafe.append spare "" ys
  refine ⟨happ.frame.others t hg.mem, hg.placed, (happ.frame.read t rfl).trans hg.read, fun k s' hk heq => ?_⟩
  obtain ⟨-, rfl⟩ | ⟨-, hk⟩ := put_cases (r := r) hk
  · rcases happ.place with ⟨harray, hoffset, hlen⟩ | hnew
    · have := hfirst (harray.symm.trans heq)
      omega
    · exact absurd (hg.mem.ne_of_new hnew heq.symm) hg.placed
  · exact hg.first k s' hk heq

theorem erase (key : String) (names : String → Option String) :
    GivenOut { r with names := names, idx := Function.update r.idx key none } t xs := by
  refine ⟨hg.mem, hg.placed, hg.read, fun k s hk => hg.first k s ?_⟩
  change Function.update r.idx key none k = some s at hk
  by_cases hkey : k = key
  · rw [hkey, Function.update_self] at hk
    cases hk
  · rwa [Function.update_of_ne hkey] at hk

theorem first_slice (heq : (r.slice key).array = t.array) : t.offset = (r.slice key).offset ∧ t.len ≤ (r.slice key).len := by
  rw [slice] at heq ⊢
  cases hs : r.idx key with
  | none =>
    rw [hs] at heq
    exact absurd heq.symm hg.placed
  | some s =>
    rw [hs] at heq
    exact hg.first key s hs heq

/-- A name that is not in the list stands behind it. -/
theorem le_idxOf (hin : (r.slice key).In r.heap) (heq : (r.slice key).array = t.array) (hname : name ∉ xs) :
    t.len ≤ (r.list key).idxOf name := by
  obtain ⟨hoffset, hlen⟩ := hg.first_slice heq
  have hstart : xs = (r.list key).take t.len := by
    rw [← hg.read, list, ← Slice.read_take hlen]
    unfold Slice.read
    rw [← heq, hoffset]
  by_contra hlt
  have hlist : (r.list key).idxOf name < (r.list key).length := by
    have hl : (r.list key).length = (r.slice key).len := hin.length_read
    omega
  refine hname ?_
  rw [hstart, List.mem_take_iff_getElem]
  exact ⟨_, by omega, List.getElem_idxOf hlist⟩

theorem release (h : r.Ok) (hname : name ∉ xs) : (r.release spare name).GivenOut t xs := by
  rw [Registrar.release]
  split
  · exact hg
  · rename_i key hkey
    obtain ⟨hlt, -, hin⟩ := h.before hkey
    have hfirst (heq : (r.slice key).array = t.array) : t.offset = (r.slice key).offset ∧ t.len ≤ (r.list key).idxOf name :=
      ⟨(hg.first_slice heq).1, hg.le_idxOf (h.apart.in_slice key) heq hname⟩
    have hput := @put spare r key _ t xs ((r.list key).drop ((r.list key).idxOf name + 1)) hg hin hfirst
      (Function.update r.names name none)
    dsimp only
    rw [if_pos hlt]
    split
    · exact hput.erase key _
    · exact hput

theorem step (h : r.Ok) {c : Call} (hkeep : ∀ name ∈ xs, c ≠ .release name) : (r.step spare c).GivenOut t xs := by
  cases c with
  | reserve name key =>
    show (r.reserve spare name key).GivenOut t xs
    rw [reserve]
    split
    · exact hg
    · exact hg.put (h.apart.in_slice key) hg.first_slice _
  | release name => exact hg.release h fun hmem => hkeep name hmem rfl
  | delete key => exact hg.erase key _

theorem run (h : r.Ok) {calls : List Call} (hkeep : ∀ name ∈ xs, .release name ∉ calls) : (r.run spare calls).GivenOut t xs := by
  induction calls generalizing r with
  | nil => exact hg
  | cons c calls ih =>
    refine ih (hg.step h fun name hmem hc => ?_) (h.step c) fun name hmem hc => ?_
    · exact hkeep name hmem (hc ▸ List.mem_cons_self)
    · exact hkeep name hmem (List.mem_cons_of_mem c hc)

end GivenOut

theorem Ok.givenOut (h : r.Ok) (ht : r.getNames key = some t) : r.GivenOut t (r.list key) := by
  have hslice : r.slice key = t := by
    rw [slice]
    exact congrArg (Option.getD · .nil) ht
  refine ⟨h.apart.mem key t ht, h.apart.placed key t ht, by rw [list, hslice], fun k s hk heq => ?_⟩
  by_cases hkey : k = key
  · subst hkey
    obtain rfl : s = t := Option.some_inj.mp (hk.symm.trans ht)
    exact ⟨rfl, Nat.le_refl _⟩
  · exact absurd heq (h.apart.apart k key s t hkey hk ht)

/-- A list that was given out has the names that were reserved to its key then, and it has them as long
as none of them is released. -/
theorem names_stay {before after : List Call} (ht : (new.run spare before).getNames key = some t)
    (hkeep : ∀ name ∈ t.read (new.run spare before).heap, .release name ∉ after) :
    (∀ name, name ∈ t.read (new.run spare before).heap ↔ (new.run spare before).names name = some key) ∧
      t.read ((new.run spare before).run spare after).heap = t.read (new.run spare before).heap := by
  have h := @Ok.run spare new ok_new before
  have hg := h.givenOut ht
  rw [hg.read] at hkeep ⊢
  exact ⟨h.agree key, (hg.run h hkeep).read⟩

/-- A name is reserved and another key's name is released. -/
theorem names_stay_two : ∃ t, (new.run (fun _ _ => 1) [.reserve "a" "k", .reserve "b" "l"]).getNames "k" = some t ∧
    t.read ((new.run (fun _ _ => 1) [.reserve "a" "k", .reserve "b" "l"]).run (fun _ _ => 1)
      [.reserve "c" "k", .release "c", .release "b"]).heap = ["a"] := by
  refine ⟨⟨some 0, 0, 1, 2⟩, by decide +kernel, ?_⟩
  exact (@names_stay _ "k" _ _ _ (by decide +kernel) (by decide +kernel)).2.trans (by decide +kernel)

/-- The first of two names is released, and the list that was given out has the second one twice. -/
theorem names_change : ∃ t, (new.run (fun _ _ => 1) [.reserve "a" "k", .reserve "b" "k"]).getNames "k" = some t ∧
    t.read (new.run (fun _ _ => 1) [.reserve "a" "k", .reserve "b" "k"]).heap = ["a", "b"] ∧
    t.read (new.run (fun _ _ => 1) [.reserve "a" "k", .reserve "b" "k", .release "a"]).heap = ["b", "b"] :=
  ⟨⟨some 0, 0, 2, 2⟩, by decide +kernel⟩

end Registrar

end Moby.Daemon.NameLists
