import Mathlib.Data.Finset.Basic
import Moby.Framework.Machine
import Moby.Framework.Nested

/-!
# The index of links

`linkIndex`: the children of a container by the aliases it has for them (`idx`), and the aliases of
a container by its parents (`childIdx`). The two say the same (`Inverse`) as long as an alias is not
given to another child, as a link that is removed is the only one between its two containers, and
as a container that is deleted has no parent: `unlink` drops all aliases of the pair from
`childIdx`, and `delete` leaves those of its parents in `idx` (`links_inverse_iff`).
-/

namespace Moby.Daemon

open Moby.Framework

variable {K : Type} [DecidableEq K]

/-- `linkIndex`, for containers that are pointers of `K`. -/
structure LinkIndex (K : Type) where
  /-- Parent, alias, child. -/
  idx : Nested K String K
  /-- Child, parent, aliases. -/
  childIdx : Nested K K (Finset String)

namespace LinkIndex

/-- `newLinkIndex`. -/
def new : LinkIndex K := ⟨∅, ∅⟩

/-- `l.childIdx[child][parent]`. -/
def aliases (l : LinkIndex K) (child parent : K) : Finset String := (l.childIdx.at? child parent).getD ∅

/-- `link`. -/
def link (l : LinkIndex K) (parent child : K) (name : String) : LinkIndex K where
  idx := l.idx.set parent name child
  childIdx := l.childIdx.set child parent (insert name (l.aliases child parent))

/-- `unlink`. -/
def unlink (l : LinkIndex K) (name : String) (child parent : K) : LinkIndex K where
  idx := l.idx.drop parent name
  childIdx := l.childIdx.drop child parent

/-- `children`. -/
def children (l : LinkIndex K) (parent : K) : Map String K := (l.idx.lookup parent).getD ∅

/-- `delete`, where the children are visited in the order of `children`. -/
def delete (l : LinkIndex K) (container : K) (children : List K) : LinkIndex K where
  idx := l.idx.erase container
  childIdx := (children.foldl (fun m child => m.drop child container) l.childIdx).erase container

/-- An operation. -/
inductive Op (K : Type)
  | link (parent child : K) (name : String)
  | unlink (name : String) (child parent : K)
  | delete (container : K) (children : List K)

/-- The index after an operation. `delete` visits each child. -/
def exec (l : LinkIndex K) : Op K → Option (LinkIndex K)
  | .link parent child name => some (l.link parent child name)
  | .unlink name child parent => some (l.unlink name child parent)
  | .delete container children =>
    if (children : Multiset K) = (l.children container).values then some (l.delete container children) else none

/-! ## What the two maps say -/

/-- The maps are inverses of each other. -/
def Inverse (l : LinkIndex K) : Prop := ∀ p c a, l.idx.at? p a = some c ↔ a ∈ l.aliases c p

/-- A container is in an index, as a key or as a value. -/
def Mentions (l : LinkIndex K) (x : K) : Prop :=
  x ∈ l.idx ∨ (∃ p a, l.idx.at? p a = some x) ∨ x ∈ l.childIdx ∨ ∃ c s, l.childIdx.at? c x = some s

/-- What is removed is there. -/
def Linked (l : LinkIndex K) : Op K → Prop
  | .unlink name child parent => l.idx.at? parent name = some child
  | _ => True

instance (l : LinkIndex K) : (op : Op K) → Decidable (l.Linked op)
  | .link .. => .isTrue trivial
  | .unlink name child parent => inferInstanceAs (Decidable (l.idx.at? parent name = some child))
  | .delete .. => .isTrue trivial

/-- What is asked of an operation: an alias is not given to another child, it is the only one of its
child that is removed, and a container that is deleted has no parent but itself. -/
def Clear (l : LinkIndex K) : Op K → Prop
  | .link parent child name => ∀ c, l.idx.at? parent name = some c → c = child
  | .unlink name child parent => ∀ a, l.idx.at? parent a = some child → a = name
  | .delete container _ => ∀ p a, l.idx.at? p a = some container → p = container

section

variable {l l' : LinkIndex K} {p c x : K} {a : String}

theorem mem_children : c ∈ (l.children p).values ↔ ∃ a, l.idx.at? p a = some c := by
  rw [Finmap.mem_values]
  simp only [children, Nested.lookup_getD]

theorem mem_aliases : a ∈ l.aliases c p ↔ ∃ s, l.childIdx.at? c p = some s ∧ a ∈ s := by
  unfold aliases
  cases l.childIdx.at? c p <;> simp

/-! ## A step -/

/-- The maps are inverses, and no set of aliases is empty. -/
structure Exact (l : LinkIndex K) : Prop where
  inverse : l.Inverse
  filled : ∀ c p s, l.childIdx.at? c p = some s → s ≠ ∅

theorem exact_new : (new : LinkIndex K).Exact where
  inverse p c a := by simp [new, aliases, Nested.at?_empty]
  filled c p s h := by cases h

theorem aliases_link (p' c' : K) : (l.link p c a).aliases c' p' =
    if c' = c ∧ p' = p then insert a (l.aliases c p) else l.aliases c' p' := by
  rw [aliases, link, Nested.at?_set]
  split <;> rfl

theorem aliases_unlink (p' c' : K) : (l.unlink a c p).aliases c' p' =
    if c' = c ∧ p' = p then ∅ else l.aliases c' p' := by
  rw [aliases, unlink, Nested.at?_drop]
  split <;> rfl

theorem at?_delete {children : List K} (hx : (children : Multiset K) = (l.children x).values) (p' c' : K) :
    (l.delete x children).childIdx.at? c' p' =
      if c' = x ∨ p' = x ∧ c' ∈ (l.children x).values then none else l.childIdx.at? c' p' := by
  simp only [delete, Nested.at?_erase, Nested.at?_foldl_drop, ← hx, Multiset.mem_coe]
  by_cases hc : c' = x
  · rw [if_pos hc, if_pos (.inl hc)]
  · simp only [hc, if_false, false_or, and_comm]

/-- `link` of an alias that no other child has. -/
theorem Exact.link (h : l.Exact) (hc : l.Clear (.link p c a)) : (l.link p c a).Exact where
  inverse p' c' a' := by
    have hinv := h.inverse p' c' a'
    rw [aliases_link, LinkIndex.link, Nested.at?_set]
    by_cases hp : p' = p
    · subst hp
      by_cases ha : a' = a
      · subst ha
        simp only [and_self, if_true, Option.some.injEq, and_true]
        constructor
        · intro hcc
          rw [if_pos hcc.symm]
          exact Finset.mem_insert_self _ _
        · intro hm
          by_contra hne
          rw [if_neg fun h => hne h.symm] at hm
          exact hne (hc c' (hinv.mpr hm)).symm
      · simp only [ha, and_false, if_false, and_true]
        rw [hinv]
        split
        · rename_i hcc
          rw [hcc, Finset.mem_insert, or_iff_right ha]
        · rfl
    · simp only [hp, false_and, and_false, if_false]
      exact hinv
  filled c' p' s hs := by
    rw [LinkIndex.link, Nested.at?_set] at hs
    split at hs
    · cases hs
      exact Finset.insert_ne_empty _ _
    · exact h.filled c' p' s hs

/-- `unlink` of the only alias of a child. -/
theorem Exact.unlink (h : l.Exact) (hl : l.idx.at? p a = some c) (hc : l.Clear (.unlink a c p)) :
    (l.unlink a c p).Exact where
  inverse p' c' a' := by
    have hinv := h.inverse p' c' a'
    rw [aliases_unlink, LinkIndex.unlink, Nested.at?_drop]
    by_cases hp : p' = p
    · subst hp
      by_cases ha : a' = a
      · -- the alias that is removed is of no other child
        subst ha
        simp only [and_self, if_true, and_true]
        by_cases hcc : c' = c
        · simp [hcc]
        · rw [if_neg hcc, ← hinv, hl]
          exact ⟨(fun h => by cases h), fun h => absurd (Option.some.inj h).symm hcc⟩
      · simp only [ha, and_false, if_false, and_true]
        by_cases hcc : c' = c
        · subst hcc
          rw [if_pos rfl]
          exact ⟨fun hm => absurd (hc a' hm) ha, fun hm => by cases hm⟩
        · rw [if_neg hcc]
          exact hinv
    · simp only [hp, false_and, and_false, if_false]
      exact hinv
  filled c' p' s hs := by
    rw [LinkIndex.unlink, Nested.at?_drop] at hs
    split at hs
    · cases hs
    · exact h.filled c' p' s hs

section

variable {children : List K} (hx : (children : Multiset K) = (l.children x).values)

include hx

/-- `delete` of a container with no parent but itself. -/
theorem Exact.delete (h : l.Exact) (hc : l.Clear (.delete x children)) : (l.delete x children).Exact where
  inverse p' c' a' := by
    have hinv := h.inverse p' c' a'
    rw [aliases, at?_delete hx]
    simp only [LinkIndex.delete, Nested.at?_erase]
    by_cases hp : p' = x
    · subst hp
      rw [if_pos rfl]
      refine ⟨(fun h => by cases h), fun hm => ?_⟩
      split at hm
      · cases hm
      · rename_i hn
        exact absurd (.inr ⟨rfl, mem_children.mpr ⟨a', hinv.mpr hm⟩⟩) hn
    · rw [if_neg hp]
      by_cases hcx : c' = x
      · subst hcx
        rw [if_pos (.inl rfl)]
        exact ⟨fun hm => absurd (hc p' a' hm) hp, fun hm => by cases hm⟩
      · rw [if_neg fun h => h.elim hcx fun h => hp h.1]
        exact hinv
  filled c' p' s hs := by
    rw [at?_delete hx] at hs
    split at hs
    · cases hs
    · exact h.filled c' p' s hs

/-- Nothing is left of it. -/
theorem Exact.not_mentions_delete (h : l.Exact) (hc : l.Clear (.delete x children)) :
    ¬ (l.delete x children).Mentions x := by
  rintro (hm | ⟨p', a', hm⟩ | hm | ⟨c', s, hm⟩)
  · exact Finmap.notMem_erase_self hm
  · rw [LinkIndex.delete, Nested.at?_erase] at hm
    split at hm
    · cases hm
    · rename_i hp
      exact hp (hc p' a' hm)
  · exact Finmap.notMem_erase_self hm
  · rw [at?_delete hx] at hm
    split at hm
    · cases hm
    · rename_i hn
      -- a set of aliases is not empty, so that the container has a child there
      obtain ⟨a', ha'⟩ := Finset.nonempty_iff_ne_empty.mpr (h.filled c' x s hm)
      exact hn (.inr ⟨rfl, mem_children.mpr ⟨a', (h.inverse x c' a').mpr (mem_aliases.mpr ⟨s, hm, ha'⟩)⟩⟩)

end

theorem Exact.exec (h : l.Exact) {op : Op K} (hl : l.Linked op) (hc : l.Clear op) (he : exec l op = some l') :
    l'.Exact := by
  cases op with
  | link p c a => cases he; exact h.link hc
  | unlink a c p => cases he; exact h.unlink hl hc
  | delete x cs =>
    rw [LinkIndex.exec] at he
    split at he
    · rename_i hx
      cases he
      exact h.delete hx hc
    · cases he

/-- What an operation that is not clear breaks. -/
theorem Exact.clear (h : l.Exact) {op : Op K} (he : LinkIndex.exec l op = some l') (hi : l'.Inverse)
    (hd : ∀ x cs, op = .delete x cs → ¬ l'.Mentions x) : l.Clear op := by
  cases op with
  | link p c a =>
    cases he
    intro c' hc'
    by_contra hne
    have hm := (h.inverse p c' a).mp hc'
    have hm' := (hi p c' a).mpr (by rw [aliases_link, if_neg fun h => hne h.1]; exact hm)
    rw [LinkIndex.link, Nested.at?_set, if_pos ⟨rfl, rfl⟩] at hm'
    exact hne (Option.some.inj hm').symm
  | unlink a c p =>
    cases he
    intro a' ha'
    by_contra hne
    have hm := (hi p c a').mp (by rw [LinkIndex.unlink, Nested.at?_drop, if_neg fun h => hne h.2]; exact ha')
    rw [aliases_unlink, if_pos ⟨rfl, rfl⟩] at hm
    cases hm
  | delete x cs =>
    intro p a ha
    by_contra hne
    have hidx : l'.idx = l.idx.erase x := by
      rw [LinkIndex.exec] at he
      split at he
      · cases he; rfl
      · cases he
    exact hd x cs rfl (.inr (.inl ⟨p, a, by rw [hidx, Nested.at?_erase, if_neg hne]; exact ha⟩))

/-! ## Runs -/

/-- In every run of operations that are clear the maps are inverses of each other and a container that
is deleted is in neither, and an operation that is not clear breaks one of the two. -/
theorem links_inverse_iff (h : ReachesIf exec (fun l op => l.Linked op ∧ l.Clear op) (new : LinkIndex K) l) :
    l.Inverse ∧ ∀ op l', l.Linked op → exec l op = some l' →
      ((l'.Inverse ∧ ∀ x cs, op = .delete x cs → ¬ l'.Mentions x) ↔ l.Clear op) := by
  have hl : l.Exact := h.inv exact_new fun _ _ _ _ hs hop he => hs.exec hop.1 hop.2 he
  refine ⟨hl.inverse, fun op l' hop he => ⟨fun hok => hl.clear he hok.1 hok.2, fun hc => ?_⟩⟩
  refine ⟨(hl.exec hop hc he).inverse, ?_⟩
  rintro x cs rfl
  rw [exec] at he
  split at he
  · rename_i hx
    cases he
    exact hl.not_mentions_delete hx hc
  · cases he

/-- The only alias of a child is removed. -/
theorem links_inverse_unlink : ((new : LinkIndex ℕ).link 0 1 "db").Inverse ∧
    (((new : LinkIndex ℕ).link 0 1 "db").unlink "db" 1 0).Inverse := by
  have hreach : ReachesIf exec (fun l op => l.Linked op ∧ l.Clear op) (new : LinkIndex ℕ)
      ((new : LinkIndex ℕ).link 0 1 "db") :=
    .tail .refl (e := .link 0 1 "db") ⟨trivial, fun c h => by cases h⟩ rfl
  obtain ⟨hi, hnext⟩ := links_inverse_iff hreach
  refine ⟨hi, ((hnext (.unlink "db" 1 0) _ (by decide) rfl).mpr fun a ha => ?_).1⟩
  by_contra hne
  rw [link, Nested.at?_set, if_neg fun h => hne h.2] at ha
  cases ha

/-- An alias is given to a second child, one of two aliases is removed, and a child is deleted. -/
theorem links_not_inverse :
    (∃ l, ReachesIf exec Linked (new : LinkIndex ℕ) l ∧ l.idx.at? 0 "db" = some 2 ∧ ¬ l.Inverse) ∧
    (∃ l, ReachesIf exec Linked (new : LinkIndex ℕ) l ∧ l.idx.at? 0 "sql" = some 1 ∧ ¬ l.Inverse) ∧
    ∃ l l', ReachesIf exec Linked (new : LinkIndex ℕ) l ∧ exec l (.delete 1 []) = some l' ∧ l'.Mentions 1 := by
  refine ⟨?_, ?_, ?_⟩
  · obtain ⟨l, hl, hv⟩ := ReachesIf.of_view exec Linked (new : LinkIndex ℕ) [.link 0 1 "db", .link 0 2 "db"]
      (fun l => (l.idx.at? 0 "db", decide ("db" ∈ l.aliases 1 0))) (b := (some 2, true)) (by decide +kernel)
    simp only [Prod.mk.injEq, decide_eq_true_eq] at hv
    refine ⟨l, hl, hv.1, fun hi => ?_⟩
    cases hv.1.symm.trans ((hi 0 1 "db").mpr hv.2)
  · obtain ⟨l, hl, hv⟩ := ReachesIf.of_view exec Linked (new : LinkIndex ℕ)
      [.link 0 1 "db", .link 0 1 "sql", .unlink "db" 1 0]
      (fun l => (l.idx.at? 0 "sql", decide ("sql" ∈ l.aliases 1 0))) (b := (some 1, false)) (by decide +kernel)
    simp only [Prod.mk.injEq, decide_eq_false_iff_not] at hv
    exact ⟨l, hl, hv.1, fun hi => hv.2 ((hi 0 1 "sql").mp hv.1)⟩
  · obtain ⟨l, hl, hv⟩ := ReachesIf.of_view exec Linked (new : LinkIndex ℕ) [.link 0 1 "db"]
      (fun l => (exec l (.delete 1 [])).map fun l' => l'.idx.at? 0 "db") (b := some (some 1)) (by decide +kernel)
    obtain ⟨l', hl', hm⟩ := Option.map_eq_some_iff.mp hv
    exact ⟨l, l', hl, hl', .inr (.inl ⟨0, "db", hm⟩)⟩

end

end LinkIndex

end Moby.Daemon
