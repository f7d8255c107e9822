import Moby.Framework.GoString
import Moby.Framework.Text

/-!
# Slash-separated paths

What the code uses of Go's `path` and, on Linux, `path/filepath`: `Clean`,
`Join`, `Dir`, `Base`, `Split` and `Rel`. A path is taken apart at its slashes
(`elems`, `join`); `Clean` then goes through the elements with a stack (`push`,
`norm`), and most of what it does is said of that stack.
-/

namespace Moby.Framework.Path

open Moby.Framework

def slash : UInt8 := 47

def dot : GoString := [46]

def dotDot : GoString := [46, 46]

/-! ## Elements -/

/-- `strings.Split(p, "/")`. -/
def elems : GoString → List GoString
  | [] => [[]]
  | b :: p =>
    if b = slash then [] :: elems p
    else
      match elems p with
      | [] => [[b]]
      | e :: es => (b :: e) :: es

/-- `strings.Join(es, "/")`. -/
def join : List GoString → GoString
  | [] => []
  | [e] => e
  | e :: e' :: es => e ++ slash :: join (e' :: es)

theorem elems_ne_nil (p : GoString) : elems p ≠ [] := by
  cases p with
  | nil => exact List.cons_ne_nil _ _
  | cons b p =>
    rw [elems]
    split
    · exact List.cons_ne_nil _ _
    · split <;> exact List.cons_ne_nil _ _

theorem elems_cons_slash (p : GoString) : elems (slash :: p) = [] :: elems p := by
  rw [elems, if_pos rfl]

theorem elems_cons {b : UInt8} (hb : b ≠ slash) (p : GoString) :
    ∃ e es, elems p = e :: es ∧ elems (b :: p) = (b :: e) :: es := by
  cases h : elems p with
  | nil => exact absurd h (elems_ne_nil p)
  | cons e es => exact ⟨e, es, rfl, by rw [elems, if_neg hb, h]⟩

theorem join_cons_cons (e e' : GoString) (es : List GoString) : join (e :: e' :: es) = e ++ slash :: join (e' :: es) := rfl

theorem join_cons (e : GoString) {es : List GoString} (h : es ≠ []) : join (e :: es) = e ++ slash :: join es := by
  cases es with
  | nil => exact absurd rfl h
  | cons e' es => rfl

theorem slash_notMem_of_mem_elems {p e : GoString} (h : e ∈ elems p) : slash ∉ e := by
  induction p generalizing e with
  | nil =>
    rw [elems, List.mem_singleton] at h
    rw [h]
    exact List.not_mem_nil
  | cons b p ih =>
    by_cases hb : b = slash
    · rw [hb, elems_cons_slash] at h
      rcases List.mem_cons.mp h with rfl | h
      · exact List.not_mem_nil
      · exact ih h
    · obtain ⟨e', es, he, hbe⟩ := elems_cons hb p
      rw [hbe] at h
      rcases List.mem_cons.mp h with rfl | h
      · rintro (_ | ⟨_, hs⟩)
        · exact hb rfl
        · exact ih (by rw [he]; exact List.mem_cons_self) hs
      · exact ih (by rw [he]; exact List.mem_cons_of_mem _ h)

theorem elems_append_slash (u v : GoString) : elems (u ++ slash :: v) = elems u ++ elems v := by
  induction u with
  | nil => exact elems_cons_slash v
  | cons b u ih =>
    by_cases hb : b = slash
    · rw [hb, List.cons_append, elems_cons_slash, elems_cons_slash, ih, List.cons_append]
    · obtain ⟨e, es, he, hbe⟩ := elems_cons hb u
      obtain ⟨e', es', he', hbe'⟩ := elems_cons hb (u ++ slash :: v)
      rw [ih, he, List.cons_append, List.cons.injEq] at he'
      rw [List.cons_append, hbe', hbe, List.cons_append, he'.1, he'.2]

theorem elems_of_notMem {e : GoString} (h : slash ∉ e) : elems e = [e] := by
  induction e with
  | nil => rfl
  | cons b e ih =>
    rw [List.mem_cons, not_or] at h
    rw [elems, if_neg (Ne.symm h.1), ih h.2]

theorem elems_join {es : List GoString} (hne : es ≠ []) (h : ∀ e ∈ es, slash ∉ e) : elems (join es) = es := by
  induction es with
  | nil => exact absurd rfl hne
  | cons e es ih =>
    cases es with
    | nil => exact elems_of_notMem (h e List.mem_cons_self)
    | cons e' es =>
      rw [join_cons_cons, elems_append_slash, elems_of_notMem (h e List.mem_cons_self),
        ih (List.cons_ne_nil _ _) fun x hx => h x (List.mem_cons_of_mem _ hx), List.singleton_append]

/-! ## Clean -/

/-- One element of a path, after those on the stack (its last one the top). -/
def push (rooted : Bool) (st : List GoString) (e : GoString) : List GoString :=
  if e = [] ∨ e = dot then st
  else if e = dotDot then
    match st.getLast? with
    | none => if rooted then [] else [dotDot]
    | some x => if x = dotDot then st ++ [dotDot] else st.dropLast
  else st ++ [e]

/-- The elements that are left. -/
def norm (rooted : Bool) (es : List GoString) : List GoString := es.foldl (push rooted) []

/-- A path from the elements left of it. -/
def render (rooted : Bool) (st : List GoString) : GoString :=
  if rooted then slash :: join st else if st = [] then dot else join st

/-- `filepath.IsAbs`. -/
def isAbs (p : GoString) : Bool := p.head? = some slash

/-- `filepath.Clean` (and `path.Clean`). -/
def clean (p : GoString) : GoString := render (isAbs p) (norm (isAbs p) (elems p))

/-- A name that an entry of a directory may have. -/
def Proper (e : GoString) : Prop := e ≠ [] ∧ e ≠ dot ∧ e ≠ dotDot ∧ slash ∉ e

instance (e : GoString) : Decidable (Proper e) := inferInstanceAs (Decidable (_ ∧ _ ∧ _ ∧ _))

theorem push_nil (rooted : Bool) (st : List GoString) : push rooted st [] = st := if_pos (.inl rfl)

theorem push_dot (rooted : Bool) (st : List GoString) : push rooted st dot = st := if_pos (.inr rfl)

theorem push_of_proper (rooted : Bool) (st : List GoString) {e : GoString} (h : Proper e) :
    push rooted st e = st ++ [e] := by
  rw [push, if_neg (not_or.mpr ⟨h.1, h.2.1⟩), if_neg h.2.2.1]

theorem dotDot_ne : ¬ (dotDot = [] ∨ dotDot = dot) := by decide

/-- `..` of a stack of names takes the last one off. -/
theorem push_dotDot {st : List GoString} (h : ∀ e ∈ st, Proper e) : push true st dotDot = st.dropLast := by
  rw [push, if_neg dotDot_ne, if_pos rfl]
  cases hl : st.getLast? with
  | none => rw [List.getLast?_eq_none_iff.mp hl]; rfl
  | some x => simp only [if_neg (h x (List.mem_of_getLast? hl)).2.2.1]

theorem norm_append (rooted : Bool) (es es' : List GoString) :
    norm rooted (es ++ es') = es'.foldl (push rooted) (norm rooted es) := List.foldl_append

theorem proper_push {st : List GoString} (h : ∀ e ∈ st, Proper e) {e : GoString} (he : slash ∉ e) :
    ∀ x ∈ push true st e, Proper x := by
  by_cases h₁ : e = []
  · rw [h₁, push_nil]; exact h
  by_cases h₂ : e = dot
  · rw [h₂, push_dot]; exact h
  by_cases h₃ : e = dotDot
  · rw [h₃, push_dotDot h]
    exact fun x hx => h x ((List.dropLast_sublist st).subset hx)
  · have hp : Proper e := ⟨h₁, h₂, h₃, he⟩
    rw [push_of_proper _ _ hp]
    intro x hx
    rcases List.mem_append.mp hx with hx | hx
    · exact h x hx
    · rw [List.mem_singleton.mp hx]; exact hp

theorem proper_foldl_push {es st : List GoString} (h : ∀ e ∈ st, Proper e) (hes : ∀ e ∈ es, slash ∉ e) :
    ∀ x ∈ es.foldl (push true) st, Proper x := by
  induction es generalizing st with
  | nil => exact h
  | cons e es ih =>
    exact ih (proper_push h (hes e List.mem_cons_self)) fun x hx => hes x (List.mem_cons_of_mem _ hx)

/-- The elements left of a rooted path are names. -/
theorem norm_proper {es : List GoString} (h : ∀ e ∈ es, slash ∉ e) : ∀ x ∈ norm true es, Proper x :=
  proper_foldl_push (fun _ hx => absurd hx List.not_mem_nil) h

theorem foldl_push_of_proper (rooted : Bool) {es : List GoString} (h : ∀ e ∈ es, Proper e) (st : List GoString) :
    es.foldl (push rooted) st = st ++ es := by
  induction es generalizing st with
  | nil => exact (List.append_nil st).symm
  | cons e es ih =>
    rw [List.foldl_cons, push_of_proper _ _ (h e List.mem_cons_self),
      ih fun x hx => h x (List.mem_cons_of_mem _ hx), List.append_assoc, List.singleton_append]

/-! ## Rooted paths -/

theorem join_append {es es' : List GoString} (h : es ≠ []) (h' : es' ≠ []) :
    join (es ++ es') = join es ++ slash :: join es' := by
  induction es with
  | nil => exact absurd rfl h
  | cons e es ih =>
    by_cases hes : es = []
    · rw [hes, List.singleton_append, join_cons e h']
      rfl
    · have happ : es ++ es' ≠ [] := fun he => hes (List.append_eq_nil_iff.mp he).1
      rw [List.cons_append, join_cons e happ, join_cons e hes, ih hes, List.append_assoc, List.cons_append]

theorem isAbs_render (st : List GoString) : isAbs (render true st) = true := rfl

theorem clean_of_isAbs {p : GoString} (h : isAbs p = true) : clean p = render true (norm true (elems p)) := by
  rw [clean, h]

theorem proper_norm_elems (p : GoString) : ∀ x ∈ norm true (elems p), Proper x :=
  norm_proper fun _ => slash_notMem_of_mem_elems

/-- A path behind another goes on its stack. -/
theorem norm_elems_append (u v : GoString) :
    norm true (elems (u ++ slash :: v)) = (elems v).foldl (push true) (norm true (elems u)) := by
  rw [elems_append_slash, norm_append]

theorem foldl_push_elems_join {es : List GoString} (h : ∀ e ∈ es, Proper e) (st : List GoString) :
    (elems (join es)).foldl (push true) st = st ++ es := by
  by_cases hes : es = []
  · rw [hes, List.append_nil]
    exact push_nil true st
  · rw [elems_join hes fun e he => (h e he).2.2.2, foldl_push_of_proper true h]

theorem norm_elems_render {st : List GoString} (h : ∀ e ∈ st, Proper e) : norm true (elems (render true st)) = st :=
  (norm_elems_append [] (join st)).trans (foldl_push_elems_join h [])

theorem clean_render {st : List GoString} (h : ∀ e ∈ st, Proper e) : clean (render true st) = render true st := by
  rw [clean_of_isAbs (isAbs_render st), norm_elems_render h]

theorem render_injective {st st' : List GoString} (h : ∀ e ∈ st, Proper e) (h' : ∀ e ∈ st', Proper e)
    (heq : render true st = render true st') : st = st' := by
  rw [← norm_elems_render h, heq, norm_elems_render h']

/-- One rooted path behind another. -/
theorem clean_render_append {st st' : List GoString} (h : ∀ e ∈ st, Proper e) (h' : ∀ e ∈ st', Proper e) :
    clean (render true st ++ render true st') = render true (st ++ st') := by
  have habs : isAbs (render true st ++ render true st') = true := rfl
  rw [clean_of_isAbs habs]
  have happ : render true st ++ render true st' = render true st ++ slash :: join st' := rfl
  rw [happ, norm_elems_append, norm_elems_render h, foldl_push_elems_join h']

/-! ## The other functions -/

/-- `filepath.Split`: up to the last slash, and behind it. -/
def split (p : GoString) : GoString × GoString :=
  ((p.reverse.dropWhile (· ≠ slash)).reverse, (p.reverse.takeWhile (· ≠ slash)).reverse)

/-- `filepath.Base`. -/
def base (p : GoString) : GoString :=
  if p = [] then dot
  else if (p.reverse.dropWhile (· = slash)).reverse = [] then [slash]
  else (split (p.reverse.dropWhile (· = slash)).reverse).2

/-- The names of a rooted path. -/
def names (p : GoString) : List GoString := norm true (elems p)

end Moby.Framework.Path
