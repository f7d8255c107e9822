import Moby.Framework.Text

/-!
# Regular expressions

Expressions of Go's `regexp` that match a whole text, with the groups that
they capture. A match is searched for as Go describes it: of two alternatives
the first is preferred, and one more repetition to no more. `run` lists what
can be left of a text, the preferred match first, and `findSubmatch` takes the
first that leaves nothing.
-/

namespace Moby.Framework

/-- The text that each group has captured. -/
abbrev Captures := List (Nat × List Char)

/-- A regular expression; `group` captures what it matches. No group is
repeated in the expressions that are used here. -/
inductive Regexp where
  | empty
  | one (p : Char → Bool)
  | seq (a b : Regexp)
  | alt (a b : Regexp)
  | star (a : Regexp)
  | group (i : Nat) (a : Regexp)

namespace Regexp

/-- A literal character. -/
def char (c : Char) : Regexp := one (· = c)

/-- `a?`. -/
def opt (a : Regexp) : Regexp := alt a empty

/-- `a+`. -/
def plus (a : Regexp) : Regexp := seq a (star a)

/-- `a{n}`. -/
def times (a : Regexp) : Nat → Regexp
  | 0 => empty
  | n + 1 => seq a (a.times n)

/-- `a{0,n}`. -/
def upTo (a : Regexp) : Nat → Regexp
  | 0 => empty
  | n + 1 => opt (seq a (a.upTo n))

/-! ## Searching -/

/-- What can be left of a text after some repetitions of `f`, none of them
empty, and at most `n`. -/
def repetitions (f : List Char → List (List Char × Captures)) : Nat → List Char → List (List Char × Captures)
  | 0, s => [(s, [])]
  | n + 1, s =>
    ((f s).flatMap fun (t, x) =>
      if t.length < s.length then (repetitions f n t).map fun (u, y) => (u, x ++ y) else []) ++ [(s, [])]

/-- What can be left of a text after a match of its beginning, and the
captures, in order of preference. -/
def run : Regexp → List Char → List (List Char × Captures)
  | empty, s => [(s, [])]
  | one _, [] => []
  | one p, c :: s => if p c then [(s, [])] else []
  | seq a b, s => (a.run s).flatMap fun (t, x) => (b.run t).map fun (u, y) => (u, x ++ y)
  | alt a b, s => a.run s ++ b.run s
  | star a, s => repetitions a.run s.length s
  | group i a, s => (a.run s).map fun (t, x) => (t, (i, s.take (s.length - t.length)) :: x)

/-- `FindStringSubmatch` of the expression between `^` and `$`. -/
def findSubmatch (r : Regexp) (s : String) : Option Captures :=
  ((r.run s.toList).find? (·.1 = [])).map (·.2)

/-- `MatchString` of the expression between `^` and `$`. -/
def matchString (r : Regexp) (s : String) : Bool := (r.findSubmatch s).isSome

/-- What a group has captured, the empty text if nothing. -/
def submatch (x : Captures) (i : Nat) : String := .ofList ((x.lookup i).getD [])

/-! ## What is matched -/

/-- Repetitions of matches, none of them empty. -/
inductive Star (M : List Char → Captures → Prop) : List Char → Captures → Prop
  | nil : Star M [] []
  | cons {s t x y} (hs : s ≠ []) (h : M s x) (ht : Star M t y) : Star M (s ++ t) (x ++ y)

/-- `r` matches the text and captures `x`. -/
def Matches : Regexp → List Char → Captures → Prop
  | empty, s, x => s = [] ∧ x = []
  | one p, s, x => ∃ c, p c = true ∧ s = [c] ∧ x = []
  | seq a b, s, x => ∃ s₁ s₂ x₁ x₂, s = s₁ ++ s₂ ∧ x = x₁ ++ x₂ ∧ a.Matches s₁ x₁ ∧ b.Matches s₂ x₂
  | alt a b, s, x => a.Matches s x ∨ b.Matches s x
  | star a, s, x => Star a.Matches s x
  | group i a, s, x => ∃ y, x = (i, s) :: y ∧ a.Matches s y

theorem repetitions_sound {M : List Char → Captures → Prop} {f : List Char → List (List Char × Captures)}
    (hf : ∀ s t x, (t, x) ∈ f s → ∃ u, s = u ++ t ∧ M u x) {n : Nat} {s t : List Char} {x : Captures}
    (h : (t, x) ∈ repetitions f n s) : ∃ u, s = u ++ t ∧ Star M u x := by
  induction n generalizing s t x with
  | zero => cases List.mem_singleton.mp h; exact ⟨[], rfl, .nil⟩
  | succ n ih =>
    simp only [repetitions, List.mem_append, List.mem_flatMap, List.mem_singleton] at h
    rcases h with ⟨⟨t₁, x₁⟩, hm, h⟩ | h
    · split at h
      · rename_i hlen
        simp only [List.mem_map, Prod.mk.injEq, Prod.exists] at h
        obtain ⟨t, y, hr, rfl, rfl⟩ := h
        obtain ⟨u₁, rfl, hu₁⟩ := hf _ _ _ hm
        obtain ⟨u₂, rfl, hu₂⟩ := ih hr
        have hne : u₁ ≠ [] := by rintro rfl; simp at hlen
        exact ⟨u₁ ++ u₂, (List.append_assoc ..).symm, .cons hne hu₁ hu₂⟩
      · cases h
    · cases h; exact ⟨[], rfl, .nil⟩

/-- The length of the text is enough repetitions. -/
theorem repetitions_complete {M : List Char → Captures → Prop} {f : List Char → List (List Char × Captures)}
    (hf : ∀ u t x, M u x → (t, x) ∈ f (u ++ t)) {n : Nat} {u t : List Char} {x : Captures} (h : Star M u x)
    (hn : (u ++ t).length ≤ n) : (t, x) ∈ repetitions f n (u ++ t) := by
  induction h generalizing n with
  | nil => cases n <;> simp [repetitions]
  | @cons u₁ u₂ x y hne h₁ _ ih =>
    have hpos := List.length_pos_iff.mpr hne
    rw [List.append_assoc] at hn ⊢
    simp only [List.length_append] at hn
    cases n with
    | zero => omega
    | succ n =>
      simp only [repetitions, List.mem_append, List.mem_flatMap, Prod.exists]
      refine .inl ⟨u₂ ++ t, x, hf _ _ _ h₁, ?_⟩
      rw [if_pos (by simp only [List.length_append]; omega)]
      exact List.mem_map.mpr ⟨(t, y), ih (by simp only [List.length_append]; omega), rfl⟩

theorem run_sound {r : Regexp} {s t : List Char} {x : Captures} (h : (t, x) ∈ r.run s) :
    ∃ u, s = u ++ t ∧ r.Matches u x := by
  induction r generalizing s t x with
  | empty => cases List.mem_singleton.mp h; exact ⟨[], rfl, rfl, rfl⟩
  | one p =>
    cases s with
    | nil => cases h
    | cons c s =>
      simp only [run] at h
      split at h
      · cases List.mem_singleton.mp h
        exact ⟨[c], rfl, c, ‹_›, rfl, rfl⟩
      · cases h
  | seq a b iha ihb =>
    simp only [run, List.mem_flatMap, List.mem_map, Prod.exists, Prod.mk.injEq] at h
    obtain ⟨t₁, x₁, ha, t₂, x₂, hb, rfl, rfl⟩ := h
    obtain ⟨u₁, rfl, hu₁⟩ := iha ha
    obtain ⟨u₂, rfl, hu₂⟩ := ihb hb
    exact ⟨u₁ ++ u₂, (List.append_assoc ..).symm, u₁, u₂, x₁, x₂, rfl, rfl, hu₁, hu₂⟩
  | alt a b iha ihb =>
    rcases List.mem_append.mp h with h | h
    · obtain ⟨u, e, hu⟩ := iha h; exact ⟨u, e, .inl hu⟩
    · obtain ⟨u, e, hu⟩ := ihb h; exact ⟨u, e, .inr hu⟩
  | star a ih => exact repetitions_sound (fun _ _ _ => ih) h
  | group i a ih =>
    simp only [run, List.mem_map, Prod.exists, Prod.mk.injEq] at h
    obtain ⟨t, y, ha, rfl, rfl⟩ := h
    obtain ⟨u, rfl, hu⟩ := ih ha
    exact ⟨u, rfl, y, by simp, hu⟩

theorem run_complete {r : Regexp} {u t : List Char} {x : Captures} (h : r.Matches u x) : (t, x) ∈ r.run (u ++ t) := by
  induction r generalizing u t x with
  | empty => obtain ⟨rfl, rfl⟩ := h; exact List.mem_singleton_self _
  | one p => obtain ⟨c, hc, rfl, rfl⟩ := h; simp [run, hc]
  | seq a b iha ihb =>
    obtain ⟨u₁, u₂, x₁, x₂, rfl, rfl, ha, hb⟩ := h
    rw [List.append_assoc]
    exact List.mem_flatMap.mpr ⟨_, iha ha, List.mem_map.mpr ⟨_, ihb hb, rfl⟩⟩
  | alt a b iha ihb =>
    rcases h with h | h
    · exact List.mem_append_left _ (iha h)
    · exact List.mem_append_right _ (ihb h)
  | star a ih => exact repetitions_complete (fun _ _ _ => ih) h (Nat.le_refl _)
  | group i a ih =>
    obtain ⟨y, rfl, ha⟩ := h
    exact List.mem_map.mpr ⟨_, ih ha, by simp⟩

section

variable {r : Regexp} {s : String} {x : Captures}

/-- What is found is a match. -/
theorem findSubmatch_some (h : r.findSubmatch s = some x) : r.Matches s.toList x := by
  obtain ⟨⟨t, y⟩, hfind, rfl⟩ := Option.map_eq_some_iff.mp h
  have ht : t = [] := by simpa using List.find?_some hfind
  obtain ⟨u, hu, hm⟩ := run_sound (List.mem_of_find?_eq_some hfind)
  rw [hu, ht, List.append_nil]
  exact hm

/-- If there is a match, one is found. -/
theorem findSubmatch_isSome (h : r.Matches s.toList x) : ∃ y, r.findSubmatch s = some y := by
  have hmem : ([], x) ∈ r.run s.toList := by simpa using run_complete (t := []) h
  have hfind : ((r.run s.toList).find? (·.1 = [])).isSome = true := by
    rw [List.find?_isSome]
    exact ⟨_, hmem, by simp⟩
  obtain ⟨y, hy⟩ := Option.isSome_iff_exists.mp hfind
  exact ⟨y.2, by rw [findSubmatch, hy]; rfl⟩

/-- The only match is found. -/
theorem findSubmatch_eq (h : r.Matches s.toList x) (hu : ∀ y, r.Matches s.toList y → y = x) :
    r.findSubmatch s = some x := by
  obtain ⟨y, hy⟩ := findSubmatch_isSome h
  rw [hy, hu y (findSubmatch_some hy)]

end

/-! ## Texts that are matched -/

/-- `r` matches the text. -/
def Accepts (r : Regexp) (s : List Char) : Prop := ∃ x, r.Matches s x

theorem matchString_iff {r : Regexp} {s : String} : r.matchString s = true ↔ r.Accepts s.toList := by
  rw [matchString, Option.isSome_iff_exists]
  exact ⟨fun ⟨x, h⟩ => ⟨x, findSubmatch_some h⟩, fun ⟨_, h⟩ => findSubmatch_isSome h⟩

section

variable {a b : Regexp} {s : List Char}

@[simp] theorem accepts_empty : empty.Accepts s ↔ s = [] := by simp [Accepts, Matches]

@[simp] theorem accepts_one {p : Char → Bool} : (one p).Accepts s ↔ ∃ c, p c = true ∧ s = [c] := by
  simp [Accepts, Matches]

@[simp] theorem accepts_char {c : Char} : (char c).Accepts s ↔ s = [c] := by simp [char]

@[simp] theorem accepts_seq : (seq a b).Accepts s ↔ ∃ s₁ s₂, s = s₁ ++ s₂ ∧ a.Accepts s₁ ∧ b.Accepts s₂ := by
  constructor
  · rintro ⟨_, s₁, s₂, x₁, x₂, rfl, -, ha, hb⟩
    exact ⟨s₁, s₂, rfl, ⟨x₁, ha⟩, ⟨x₂, hb⟩⟩
  · rintro ⟨s₁, s₂, rfl, ⟨x₁, ha⟩, ⟨x₂, hb⟩⟩
    exact ⟨x₁ ++ x₂, s₁, s₂, x₁, x₂, rfl, rfl, ha, hb⟩

@[simp] theorem accepts_alt : (alt a b).Accepts s ↔ a.Accepts s ∨ b.Accepts s := exists_or

@[simp] theorem accepts_group {i : Nat} : (group i a).Accepts s ↔ a.Accepts s :=
  ⟨fun ⟨_, y, _, h⟩ => ⟨y, h⟩, fun ⟨y, h⟩ => ⟨_, y, rfl, h⟩⟩

@[simp] theorem accepts_opt : (opt a).Accepts s ↔ a.Accepts s ∨ s = [] := by simp [opt]

/-- A repetition is some texts, one after the other. -/
theorem accepts_star : (star a).Accepts s ↔ ∃ l : List (List Char), s = l.flatten ∧ ∀ u ∈ l, a.Accepts u := by
  constructor
  · rintro ⟨x, h⟩
    replace h : Star a.Matches s x := h
    induction h with
    | nil => exact ⟨[], rfl, nofun⟩
    | @cons u t x y _ hu _ ih =>
      obtain ⟨l, rfl, hl⟩ := ih
      exact ⟨u :: l, rfl, List.forall_mem_cons.mpr ⟨⟨x, hu⟩, hl⟩⟩
  · rintro ⟨l, rfl, hl⟩
    induction l with
    | nil => exact ⟨[], .nil⟩
    | cons u l ih =>
      obtain ⟨⟨x, hx⟩, hl⟩ := List.forall_mem_cons.mp hl
      obtain ⟨y, hy⟩ := ih hl
      rw [List.flatten_cons]
      by_cases hu : u = []
      · exact ⟨y, by rw [hu]; exact hy⟩
      · exact ⟨x ++ y, .cons hu hx hy⟩

end

/-- No class of `r` has the character `c`. -/
def excludes (c : Char) : Regexp → Bool
  | empty => true
  | one p => !p c
  | seq a b => a.excludes c && b.excludes c
  | alt a b => a.excludes c && b.excludes c
  | star a => a.excludes c
  | group _ a => a.excludes c

theorem excludes_upTo {c : Char} {a : Regexp} (h : a.excludes c = true) (n : Nat) : (a.upTo n).excludes c = true := by
  induction n with
  | zero => rfl
  | succ n ih => simp [upTo, opt, excludes, h, ih]

/-- A character that no class has is in no text. -/
theorem notMem_of_excludes {c : Char} {r : Regexp} (hr : r.excludes c = true) {s : List Char} (h : r.Accepts s) :
    c ∉ s := by
  induction r generalizing s with
  | empty => rw [accepts_empty.mp h]; exact List.not_mem_nil
  | one p =>
    obtain ⟨d, hd, rfl⟩ := accepts_one.mp h
    rintro hc
    cases List.mem_singleton.mp hc
    rw [excludes, hd] at hr
    cases hr
  | seq a b iha ihb =>
    obtain ⟨ha, hb⟩ := Bool.and_eq_true_iff.mp hr
    obtain ⟨u, v, rfl, hu, hv⟩ := accepts_seq.mp h
    exact fun hc => (List.mem_append.mp hc).elim (iha ha hu) (ihb hb hv)
  | alt a b iha ihb =>
    obtain ⟨ha, hb⟩ := Bool.and_eq_true_iff.mp hr
    exact (accepts_alt.mp h).elim (iha ha) (ihb hb)
  | star a ih =>
    obtain ⟨l, rfl, hl⟩ := accepts_star.mp h
    intro hc
    obtain ⟨u, hu, hc⟩ := List.mem_flatten.mp hc
    exact ih hr (hl u hu) hc
  | group i a ih => exact ih hr (accepts_group.mp h)

/-- `r` may match the empty text. -/
def nullable : Regexp → Bool
  | empty => true
  | one _ => false
  | seq a b => a.nullable && b.nullable
  | alt a b => a.nullable || b.nullable
  | star _ => true
  | group _ a => a.nullable

theorem ne_nil_of_accepts {r : Regexp} (hr : r.nullable = false) {s : List Char} (h : r.Accepts s) : s ≠ [] := by
  induction r generalizing s with
  | empty => cases hr
  | one p => obtain ⟨c, -, rfl⟩ := accepts_one.mp h; exact nofun
  | seq a b iha ihb =>
    obtain ⟨u, v, rfl, hu, hv⟩ := accepts_seq.mp h
    rcases Bool.and_eq_false_iff.mp hr with ha | hb
    · exact List.append_ne_nil_of_left_ne_nil (iha ha hu) v
    · exact List.append_ne_nil_of_right_ne_nil u (ihb hb hv)
  | alt a b iha ihb =>
    obtain ⟨ha, hb⟩ := Bool.or_eq_false_iff.mp hr
    exact (accepts_alt.mp h).elim (iha ha) (ihb hb)
  | star a => cases hr
  | group i a ih => exact ih hr (accepts_group.mp h)

/-- `r` has no group. -/
def noGroup : Regexp → Bool
  | empty => true
  | one _ => true
  | seq a b => a.noGroup && b.noGroup
  | alt a b => a.noGroup && b.noGroup
  | star a => a.noGroup
  | group _ _ => false

theorem noGroup_upTo {a : Regexp} (h : a.noGroup = true) (n : Nat) : (a.upTo n).noGroup = true := by
  induction n with
  | zero => rfl
  | succ n ih => simp [upTo, opt, noGroup, h, ih]

/-- Without a group, nothing is captured. -/
theorem matches_noGroup {r : Regexp} (hr : r.noGroup = true) {s : List Char} {x : Captures} (h : r.Matches s x) :
    x = [] := by
  induction r generalizing s x with
  | empty => exact h.2
  | one p => obtain ⟨_, _, _, hx⟩ := h; exact hx
  | seq a b iha ihb =>
    obtain ⟨ha, hb⟩ := Bool.and_eq_true_iff.mp hr
    obtain ⟨_, _, _, _, _, rfl, h₁, h₂⟩ := h
    rw [iha ha h₁, ihb hb h₂]; rfl
  | alt a b iha ihb =>
    obtain ⟨ha, hb⟩ := Bool.and_eq_true_iff.mp hr
    exact h.elim (iha ha) (ihb hb)
  | star a ih =>
    replace h : Star a.Matches s x := h
    induction h with
    | nil => rfl
    | cons _ h₁ _ ih₂ => rw [ih hr h₁, ih₂]; rfl
  | group i a => cases hr

theorem matches_group {r : Regexp} (hr : r.noGroup = true) {i : Nat} {s : List Char} {x : Captures} :
    (group i r).Matches s x ↔ r.Accepts s ∧ x = [(i, s)] := by
  constructor
  · rintro ⟨y, rfl, h⟩
    exact ⟨⟨y, h⟩, by rw [matches_noGroup hr h]⟩
  · rintro ⟨⟨y, h⟩, rfl⟩
    exact ⟨y, by rw [matches_noGroup hr h], h⟩

/-- A part that may be missing, behind the character that marks it. -/
def marked (c : Char) (t : Option (List Char)) : List Char := (t.map (c :: ·)).getD []

theorem matches_marked {r : Regexp} (hr : r.noGroup = true) {c : Char} {i : Nat} {s : List Char} {x : Captures} :
    (opt (seq (char c) (group i r))).Matches s x ↔
      ∃ t : Option (List Char), (∀ u ∈ t, r.Accepts u) ∧ s = marked c t ∧ x = (t.map (i, ·)).toList := by
  constructor
  · rintro (⟨_, s₂, _, x₂, rfl, rfl, ⟨c', hc, rfl, rfl⟩, h⟩ | ⟨rfl, rfl⟩)
    · obtain ⟨ha, rfl⟩ := (matches_group hr).mp h
      cases of_decide_eq_true hc
      exact ⟨some s₂, fun u hu => by cases hu; exact ha, rfl, rfl⟩
    · exact ⟨none, nofun, rfl, rfl⟩
  · rintro ⟨t, ht, rfl, rfl⟩
    cases t with
    | none => exact .inr ⟨rfl, rfl⟩
    | some u =>
      exact .inl ⟨[c], u, [], [(i, u)], rfl, rfl, ⟨c, decide_eq_true rfl, rfl, rfl⟩,
        (matches_group hr).mpr ⟨ht u rfl, rfl⟩⟩

/-- Where a part that may be missing begins is known by its mark. -/
theorem marked_inj {c : Char} {s s' : List Char} {t t' : Option (List Char)} (hs : c ∉ s) (hs' : c ∉ s')
    (h : s ++ marked c t = s' ++ marked c t') : s = s' ∧ t = t' := by
  cases t with
  | none =>
    cases t' with
    | none => exact ⟨by simpa [marked] using h, rfl⟩
    | some u =>
      have : s = s' ++ c :: u := by simpa [marked] using h
      exact absurd (by simp [this]) hs
  | some u =>
    cases t' with
    | none =>
      have : s' = s ++ c :: u := by simpa [marked] using h.symm
      exact absurd (by simp [this]) hs'
    | some u' =>
      obtain ⟨rfl, rfl⟩ := append_cons_inj hs hs' h
      exact ⟨rfl, rfl⟩

end Regexp

end Moby.Framework
