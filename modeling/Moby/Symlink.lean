import Moby.Framework.Path
import Moby.Framework.Text

/-!
# Symlinks in a scope (pkg/symlink/fs.go)

`evalSymlinksInScope` resolves the symlinks of a path as if a directory `root` of
it were `/`. It works on texts: the path still to go, whose first component is
taken off and replaced by the target if it is a symlink, and a buffer of the
components passed, which is cleaned each time. What it does is told by a stack of
names and a list of components (`eval_eq_run`).
-/

namespace Moby.Symlink

open Moby.Framework Moby.Framework.Path

/-! ## The code -/

/-- What `os.Lstat` returns. -/
inductive Lstat
  | notExist
  | failed (err : GoString)
  | found (symlink : Bool)
  deriving DecidableEq

/-- A snapshot of a file system, through `os.Lstat` and `os.Readlink`. -/
structure Snapshot where
  lstat : GoString → Lstat
  readlink : GoString → Except GoString GoString

def maxIter : ℕ := 255

def notIn (path root : GoString) : GoString := bytesOf "evalSymlinksInScope: " ++ path ++ bytesOf " is not in " ++ root

def tooManyLinks (path : GoString) : GoString := bytesOf "evalSymlinksInScope: too many links in " ++ path

/-- The next component, and the path behind it. -/
def next (path : GoString) : GoString × GoString :=
  (path.takeWhile (· ≠ slash), (path.dropWhile (· ≠ slash)).drop 1)

/-- One iteration: the path still to go and the buffer after it. -/
def iter (fs : Snapshot) (root path b : GoString) : Except GoString (GoString × GoString) :=
  if (next path).1 = [] then .ok ((next path).2, b)
  else if clean (slash :: (b ++ (next path).1)) = [slash] then .ok ((next path).2, [])
  else
    match fs.lstat (clean (root ++ clean (slash :: (b ++ (next path).1)))) with
    | .notExist => .ok ((next path).2, b ++ (next path).1 ++ [slash])
    | .failed err => .error err
    | .found false => .ok ((next path).2, b ++ (next path).1 ++ [slash])
    | .found true =>
      match fs.readlink (clean (root ++ clean (slash :: (b ++ (next path).1)))) with
      | .error err => .error err
      | .ok dest => .ok (dest ++ slash :: (next path).2, if isAbs dest then [] else b)

/-- The loop, with as many iterations left as are allowed. -/
def loop (fs : Snapshot) (root originalPath : GoString) : ℕ → GoString → GoString → Except GoString GoString
  | _, [], b => .ok (clean (root ++ clean (slash :: b)))
  | 0, _ :: _, _ => .error (tooManyLinks originalPath)
  | k + 1, c :: path, b =>
    match iter fs root (c :: path) b with
    | .error err => .error err
    | .ok (path', b') => loop fs root originalPath k path' b'

/-- The part of the path behind `root`. -/
def behind (path root : GoString) : GoString :=
  if root = [slash] then slash :: path.drop root.length else path.drop root.length

def evalSymlinksInScope (fs : Snapshot) (path root : GoString) : Except GoString GoString :=
  if path = clean root then .ok path
  else if ¬ clean root <+: path then .error (notIn path (clean root))
  else if ¬ [slash] <+: behind path (clean root) then .error (notIn (behind path (clean root)) (clean root))
  else loop fs (clean root) path (maxIter + 1) (clean (behind path (clean root))) []

/-! ## Components and a stack -/

/-- The components that the loop takes off a path, one after the other. -/
def comps (path : GoString) : List GoString :=
  if (elems path).getLast? = some [] then (elems path).dropLast else elems path

theorem comps_nil : comps [] = [] := rfl

theorem comps_append_slash (d r : GoString) : comps (d ++ slash :: r) = elems d ++ comps r := by
  have hlast : (elems d ++ elems r).getLast? = (elems r).getLast? := by
    rw [List.getLast?_append, Option.or_of_isSome]
    rw [List.getLast?_isSome]
    exact elems_ne_nil r
  rw [comps, elems_append_slash, hlast, comps]
  split
  · rw [List.dropLast_append_of_ne_nil (elems_ne_nil r)]
  · rfl

theorem comps_of_notMem {p : GoString} (hne : p ≠ []) (h : slash ∉ p) : comps p = [p] := by
  rw [comps, elems_of_notMem h, if_neg]
  rw [List.getLast?_singleton]
  exact fun hs => hne (Option.some.inj hs)

theorem comps_eq_next {path : GoString} (hne : path ≠ []) : comps path = (next path).1 :: comps (next path).2 := by
  have htake : slash ∉ (next path).1 := fun h => by simpa using List.mem_takeWhile_imp h
  have happ : (next path).1 ++ path.dropWhile (· ≠ slash) = path := List.takeWhile_append_dropWhile
  cases hd : path.dropWhile (· ≠ slash) with
  | nil =>
    rw [hd, List.append_nil] at happ
    have hnext : (next path).2 = [] := by rw [next, hd]; rfl
    rw [hnext, comps_nil, happ]
    exact comps_of_notMem hne (happ ▸ htake)
  | cons c r =>
    have hc : c = slash := by
      have := List.head?_dropWhile_not (p := fun b => decide (b ≠ slash)) path
      rw [hd] at this
      simpa using this
    have hnext : (next path).2 = r := by rw [next, hd]; rfl
    have hpath : comps path = comps ((next path).1 ++ slash :: r) := by rw [← hc, ← hd, happ]
    rw [hpath, comps_append_slash, elems_of_notMem htake, hnext]
    rfl

/-- The buffer that holds the given components. -/
def buffer (pieces : List GoString) : GoString := pieces.flatMap (· ++ [slash])

theorem buffer_append_singleton (pieces : List GoString) (p : GoString) :
    buffer (pieces ++ [p]) = buffer pieces ++ p ++ [slash] := by
  rw [buffer, List.flatMap_append, List.flatMap_singleton, List.append_assoc, buffer]

theorem elems_buffer_append {pieces : List GoString} (h : ∀ e ∈ pieces, slash ∉ e) (v : GoString) :
    elems (buffer pieces ++ v) = pieces ++ elems v := by
  induction pieces with
  | nil => rfl
  | cons e pieces ih =>
    rw [List.forall_mem_cons] at h
    have happ : buffer (e :: pieces) ++ v = e ++ slash :: (buffer pieces ++ v) := by simp [buffer]
    rw [happ, elems_append_slash, elems_of_notMem h.1, ih h.2]
    rfl

/-- What the cleaned buffer is. -/
theorem clean_buffer {pieces : List GoString} (h : ∀ e ∈ pieces, slash ∉ e) {p : GoString} (hp : slash ∉ p) :
    clean (slash :: (buffer pieces ++ p)) = render true (push true (norm true pieces) p) := by
  have habs : isAbs (slash :: (buffer pieces ++ p)) = true := rfl
  rw [clean_of_isAbs habs, elems_cons_slash, elems_buffer_append h, elems_of_notMem hp]
  have hnil : norm true ([] :: (pieces ++ [p])) = norm true (pieces ++ [p]) := by
    show List.foldl (push true) (push true [] []) (pieces ++ [p]) = _
    rw [push_nil, Path.norm]
  rw [hnil, norm_append]
  rfl

theorem clean_buffer_end {pieces : List GoString} (h : ∀ e ∈ pieces, slash ∉ e) :
    clean (slash :: buffer pieces) = render true (norm true pieces) := by
  have hend := clean_buffer h (List.not_mem_nil : slash ∉ [])
  rwa [List.append_nil, push_nil] at hend

/-- One iteration with a stack of names, in place of the buffer, and the list of the
components to come; `rc` are the names of `root`. -/
def visit (fs : Snapshot) (rc : List GoString) (p : GoString) (todo st : List GoString) :
    Except GoString (List GoString × List GoString) :=
  if p = [] ∨ push true st p = [] then .ok (todo, push true st p)
  else
    match fs.lstat (render true (rc ++ push true st p)) with
    | .notExist => .ok (todo, push true st p)
    | .failed err => .error err
    | .found false => .ok (todo, push true st p)
    | .found true =>
      match fs.readlink (render true (rc ++ push true st p)) with
      | .error err => .error err
      | .ok dest => .ok (elems dest ++ todo, if isAbs dest then [] else st)

def run (fs : Snapshot) (rc : List GoString) (originalPath : GoString) :
    ℕ → List GoString → List GoString → Except GoString (List GoString)
  | _, [], st => .ok st
  | 0, _ :: _, _ => .error (tooManyLinks originalPath)
  | k + 1, p :: todo, st =>
    match visit fs rc p todo st with
    | .error err => .error err
    | .ok (todo', st') => run fs rc originalPath k todo' st'

variable {fs : Snapshot} {rc : List GoString} {originalPath : GoString}

theorem slash_notMem_next (path : GoString) : slash ∉ (next path).1 := fun h => by simpa using List.mem_takeWhile_imp h

theorem slash_notMem_nil : ∀ e ∈ ([] : List GoString), slash ∉ e := fun _ he => absurd he List.not_mem_nil

/-- An iteration is one with a stack. -/
theorem iter_visit (fs : Snapshot) (hrc : ∀ e ∈ rc, Proper e) (path : GoString) {pieces : List GoString}
    (h : ∀ e ∈ pieces, slash ∉ e) :
    (∃ err, iter fs (render true rc) path (buffer pieces) = .error err ∧
      visit fs rc (next path).1 (comps (next path).2) (norm true pieces) = .error err) ∨
    ∃ path' pieces', (∀ e ∈ pieces', slash ∉ e) ∧
      iter fs (render true rc) path (buffer pieces) = .ok (path', buffer pieces') ∧
      visit fs rc (next path).1 (comps (next path).2) (norm true pieces) = .ok (comps path', norm true pieces') := by
  have hp := slash_notMem_next path
  rw [iter]
  generalize next path = split at hp ⊢
  obtain ⟨p, rest⟩ := split
  simp only at hp ⊢
  have hst := proper_push (norm_proper h) hp
  have hpieces : ∀ e ∈ pieces ++ [p], slash ∉ e := by
    intro e he
    rcases List.mem_append.mp he with he | he
    · exact h e he
    · rw [List.mem_singleton.mp he]; exact hp
  have hnorm : norm true (pieces ++ [p]) = push true (norm true pieces) p := norm_append true pieces [p]
  have hfull : clean (render true rc ++ clean (slash :: (buffer pieces ++ p))) =
      render true (rc ++ push true (norm true pieces) p) := by
    rw [clean_buffer h hp, clean_render_append hrc hst]
  have hroot : clean (slash :: (buffer pieces ++ p)) = [slash] ↔ push true (norm true pieces) p = [] := by
    rw [clean_buffer h hp]
    refine ⟨fun he => render_injective hst (fun _ hx => absurd hx List.not_mem_nil) he, fun he => ?_⟩
    rw [he]
    rfl
  rw [visit, hfull]
  by_cases hempty : p = []
  · rw [if_pos hempty, if_pos (.inl hempty), hempty, push_nil]
    exact .inr ⟨rest, pieces, h, rfl, rfl⟩
  rw [if_neg hempty]
  by_cases hnil : push true (norm true pieces) p = []
  · rw [if_pos (hroot.mpr hnil), if_pos (.inr hnil), hnil]
    exact .inr ⟨rest, [], slash_notMem_nil, rfl, rfl⟩
  rw [if_neg (mt hroot.mp hnil), if_neg (not_or.mpr ⟨hempty, hnil⟩), ← buffer_append_singleton, ← hnorm]
  cases fs.lstat (render true (rc ++ norm true (pieces ++ [p]))) with
  | notExist => exact .inr ⟨rest, pieces ++ [p], hpieces, rfl, rfl⟩
  | failed err => exact .inl ⟨err, rfl, rfl⟩
  | found symlink =>
    cases symlink with
    | false => exact .inr ⟨rest, pieces ++ [p], hpieces, rfl, rfl⟩
    | true =>
      simp only
      cases fs.readlink (render true (rc ++ norm true (pieces ++ [p]))) with
      | error err => exact .inl ⟨err, rfl, rfl⟩
      | ok dest =>
        simp only [← comps_append_slash]
        cases isAbs dest with
        | true => exact .inr ⟨_, [], slash_notMem_nil, rfl, rfl⟩
        | false => exact .inr ⟨_, pieces, h, rfl, rfl⟩

theorem loop_eq_run (hrc : ∀ e ∈ rc, Proper e) {k : ℕ} {path : GoString} {pieces : List GoString}
    (h : ∀ e ∈ pieces, slash ∉ e) :
    loop fs (render true rc) originalPath k path (buffer pieces) =
      (run fs rc originalPath k (comps path) (norm true pieces)).map fun st => render true (rc ++ st) := by
  induction k generalizing path pieces with
  | zero =>
    cases path with
    | nil =>
      rw [loop, comps_nil, run, clean_buffer_end h, clean_render_append hrc (norm_proper h)]
      rfl
    | cons c path =>
      rw [comps_eq_next (List.cons_ne_nil c path), loop, run]
      rfl
  | succ k ih =>
    cases path with
    | nil =>
      rw [loop, comps_nil, run, clean_buffer_end h, clean_render_append hrc (norm_proper h)]
      rfl
    | cons c path =>
      rw [comps_eq_next (List.cons_ne_nil c path), loop, run]
      rcases iter_visit fs hrc (c :: path) h with ⟨err, hi, hv⟩ | ⟨path', pieces', h', hi, hv⟩
      · rw [hi, hv]
        rfl
      · rw [hi, hv]
        exact ih h'

theorem visit_nil (todo st : List GoString) : visit fs rc [] todo st = .ok (todo, st) := by
  rw [visit, if_pos (.inl rfl), push_nil]

theorem comps_render {cs : List GoString} (hne : cs ≠ []) (hcs : ∀ c ∈ cs, Proper c) : comps (render true cs) = [] :: cs := by
  have helems : elems (render true cs) = [] :: cs := by
    show elems (slash :: join cs) = _
    rw [elems_cons_slash, elems_join hne fun c hc => (hcs c hc).2.2.2]
  rw [comps, helems, if_neg]
  rw [List.getLast?_cons_of_ne_nil hne]
  exact fun hlast => (hcs [] (List.mem_of_getLast? hlast)).1 rfl

theorem behind_render {rc cs : List GoString} (hrc : ∀ c ∈ rc, Proper c) (hne : cs ≠ []) :
    render true rc <+: render true (rc ++ cs) ∧ behind (render true (rc ++ cs)) (render true rc) = render true cs := by
  by_cases hrc0 : rc = []
  · have hroot : render true ([] : List GoString) = [slash] := rfl
    rw [hrc0, behind, if_pos hroot]
    exact ⟨⟨join cs, rfl⟩, rfl⟩
  · have hroot : render true rc ≠ [slash] := fun he =>
      hrc0 (render_injective hrc (fun _ hx => absurd hx List.not_mem_nil) he)
    have happ : render true (rc ++ cs) = render true rc ++ render true cs := congrArg (slash :: ·) (join_append hrc0 hne)
    rw [behind, if_neg hroot, happ, List.drop_left]
    exact ⟨List.prefix_append _ _, rfl⟩

/-- The code on a path below `root`. -/
theorem eval_eq_run {root : GoString} (hroot : isAbs root = true) {cs : List GoString} (hcs : ∀ c ∈ cs, Proper c) :
    evalSymlinksInScope fs (render true (names root ++ cs)) root =
      (run fs (names root) (render true (names root ++ cs)) maxIter cs []).map
        fun st => render true (names root ++ st) := by
  have hrc : ∀ c ∈ names root, Proper c := proper_norm_elems root
  have hclean : clean root = render true (names root) := clean_of_isAbs hroot
  have hall : ∀ c ∈ names root ++ cs, Proper c := by
    intro c hc
    rcases List.mem_append.mp hc with hc | hc
    · exact hrc c hc
    · exact hcs c hc
  rw [evalSymlinksInScope, hclean]
  by_cases hne : cs = []
  · rw [hne, List.append_nil, if_pos rfl, run, Except.map, List.append_nil]
  · obtain ⟨hpre, hbehind⟩ := behind_render hrc hne
    have hpath : render true (names root ++ cs) ≠ render true (names root) := fun he =>
      hne (List.append_right_eq_self.mp (render_injective hall hrc he))
    have hslash : [slash] <+: render true cs := ⟨join cs, rfl⟩
    rw [if_neg hpath, if_neg (not_not.mpr hpre), hbehind, if_neg (not_not.mpr hslash), clean_render hcs]
    refine (loop_eq_run hrc slash_notMem_nil).trans ?_
    rw [comps_render hne hcs, run, visit_nil]
    rfl

/-! ## What has been passed -/

/-- Nothing there, or something that is no symlink. -/
def Lstat.passes : Lstat → Bool
  | .notExist => true
  | .failed _ => false
  | .found symlink => !symlink

/-- A stack of names below `root`, all of them passed. -/
structure Passed (fs : Snapshot) (rc st : List GoString) : Prop where
  proper : ∀ e ∈ st, Proper e
  passes : ∀ q, q ≠ [] → q <+: st → (fs.lstat (render true (rc ++ q))).passes = true

theorem Passed.nil : Passed fs rc [] where
  proper _ he := absurd he List.not_mem_nil
  passes _ hne hq := absurd (List.prefix_nil.mp hq) hne

theorem Passed.of_isPrefix {st st' : List GoString} (h : Passed fs rc st) (hp : st' <+: st) : Passed fs rc st' where
  proper e he := h.proper e (hp.subset he)
  passes q hne hq := h.passes q hne (hq.trans hp)

theorem Passed.append {st : List GoString} {p : GoString} (h : Passed fs rc st) (hp : Proper p)
    (hl : (fs.lstat (render true (rc ++ (st ++ [p])))).passes = true) : Passed fs rc (st ++ [p]) where
  proper e he := by
    rcases List.mem_append.mp he with he | he
    · exact h.proper e he
    · rw [List.mem_singleton.mp he]; exact hp
  passes q hne hq := by
    rcases List.prefix_concat_iff.mp hq with rfl | hq
    · exact hl
    · exact h.passes q hne hq

/-- A component leads up, or nowhere, or to an entry. -/
theorem push_cases {st : List GoString} (h : ∀ e ∈ st, Proper e) {p : GoString} (hp : slash ∉ p) :
    push true st p <+: st ∨ Proper p ∧ push true st p = st ++ [p] := by
  by_cases h₁ : p = []
  · rw [h₁, push_nil]
    exact .inl (List.prefix_refl st)
  by_cases h₂ : p = dot
  · rw [h₂, push_dot]
    exact .inl (List.prefix_refl st)
  by_cases h₃ : p = dotDot
  · rw [h₃, push_dotDot h]
    exact .inl (List.dropLast_prefix st)
  · exact .inr ⟨⟨h₁, h₂, h₃, hp⟩, push_of_proper true st ⟨h₁, h₂, h₃, hp⟩⟩

theorem Passed.push {st : List GoString} {p : GoString} (h : Passed fs rc st) (hp : slash ∉ p)
    (hl : Path.push true st p = [] ∨ (fs.lstat (render true (rc ++ Path.push true st p))).passes = true) :
    Passed fs rc (Path.push true st p) := by
  rcases push_cases h.proper hp with hpre | ⟨hproper, happ⟩
  · exact h.of_isPrefix hpre
  · rw [happ] at hl ⊢
    exact h.append hproper (hl.resolve_left (List.append_ne_nil_of_right_ne_nil _ (List.cons_ne_nil _ _)))

/-- What an iteration does that does not fail. -/
theorem visit_cases {p : GoString} {todo st todo' st' : List GoString} (h : visit fs rc p todo st = .ok (todo', st')) :
    (todo' = todo ∧ st' = push true st p ∧
      (p = [] ∨ push true st p = [] ∨ (fs.lstat (render true (rc ++ push true st p))).passes = true)) ∨
    ∃ dest, todo' = elems dest ++ todo ∧ st' = if isAbs dest then [] else st := by
  rw [visit] at h
  split at h
  · rename_i hnil
    cases h
    exact .inl ⟨rfl, rfl, hnil.imp_right .inl⟩
  · cases hl : fs.lstat (render true (rc ++ push true st p)) with
    | notExist =>
      rw [hl] at h
      cases h
      exact .inl ⟨rfl, rfl, .inr (.inr rfl)⟩
    | failed err =>
      rw [hl] at h
      cases h
    | found symlink =>
      rw [hl] at h
      cases symlink with
      | false =>
        cases h
        exact .inl ⟨rfl, rfl, .inr (.inr rfl)⟩
      | true =>
        simp only at h
        cases hr : fs.readlink (render true (rc ++ push true st p)) with
        | error err =>
          rw [hr] at h
          cases h
        | ok dest =>
          rw [hr] at h
          cases h
          exact .inr ⟨dest, rfl, rfl⟩

theorem length_push_le {st : List GoString} (h : ∀ e ∈ st, Proper e) {p : GoString} (hp : slash ∉ p) :
    (push true st p).length ≤ st.length + 1 := by
  rcases push_cases h hp with hpre | ⟨-, happ⟩
  · exact Nat.le_succ_of_le hpre.length_le
  · rw [happ, List.length_append, List.length_singleton]

/-- One iteration keeps the stack passed. -/
theorem Passed.visit {p : GoString} {todo st todo' st' : List GoString} (h : Passed fs rc st) (hp : slash ∉ p)
    (htodo : ∀ e ∈ todo, slash ∉ e) (hv : visit fs rc p todo st = .ok (todo', st')) :
    Passed fs rc st' ∧ (∀ e ∈ todo', slash ∉ e) ∧ st'.length ≤ st.length + 1 := by
  rcases visit_cases hv with ⟨rfl, rfl, hl⟩ | ⟨dest, rfl, rfl⟩
  · refine ⟨?_, htodo, length_push_le h.proper hp⟩
    rcases hl with rfl | hl
    · rw [push_nil]
      exact h
    · exact h.push hp hl
  · have hels : ∀ e ∈ elems dest ++ todo, slash ∉ e := by
      intro e he
      rcases List.mem_append.mp he with he | he
      · exact slash_notMem_of_mem_elems he
      · exact htodo e he
    split
    · exact ⟨.nil, hels, Nat.zero_le _⟩
    · exact ⟨h, hels, Nat.le_succ _⟩

theorem Passed.run {k : ℕ} {todo st st' : List GoString} (h : Passed fs rc st) (htodo : ∀ e ∈ todo, slash ∉ e)
    (hr : run fs rc originalPath k todo st = .ok st') : Passed fs rc st' ∧ st'.length ≤ st.length + k := by
  induction k generalizing todo st with
  | zero =>
    cases todo with
    | nil =>
      cases hr
      exact ⟨h, Nat.le_refl _⟩
    | cons p todo => cases hr
  | succ k ih =>
    cases todo with
    | nil =>
      cases hr
      exact ⟨h, Nat.le_add_right _ _⟩
    | cons p todo =>
      rw [List.forall_mem_cons] at htodo
      rw [Symlink.run] at hr
      split at hr
      · cases hr
      · rename_i todo' st'' hv
        obtain ⟨hpassed, htodo', hlen⟩ := h.visit htodo.1 htodo.2 hv
        obtain ⟨hpassed', hlen'⟩ := ih hpassed htodo' hr
        exact ⟨hpassed', by omega⟩

theorem visit_of_passes {p : GoString} {todo st : List GoString}
    (h : push true st p = [] ∨ (fs.lstat (render true (rc ++ push true st p))).passes = true) :
    visit fs rc p todo st = .ok (todo, push true st p) := by
  rw [visit]
  split
  · rfl
  · rename_i hne
    have hpass := h.resolve_left fun hnil => hne (.inr hnil)
    cases hl : fs.lstat (render true (rc ++ push true st p)) with
    | notExist => rfl
    | failed err =>
      rw [hl] at hpass
      cases hpass
    | found symlink =>
      rw [hl] at hpass
      cases symlink with
      | false => rfl
      | true => cases hpass

/-- Names that have been passed are passed again. -/
theorem run_of_passed {k : ℕ} {st st' : List GoString} (h : Passed fs rc (st ++ st')) (hk : st'.length ≤ k) :
    run fs rc originalPath k st' st = .ok (st ++ st') := by
  induction st' generalizing k st with
  | nil =>
    rw [run, List.append_nil]
  | cons p st' ih =>
    obtain ⟨k, rfl⟩ := Nat.exists_eq_add_of_le' hk
    have happ : st ++ p :: st' = st ++ [p] ++ st' := List.append_cons st p st'
    have hp : Proper p := h.proper p (List.mem_append_right _ List.mem_cons_self)
    have hpush : push true st p = st ++ [p] := push_of_proper true st hp
    have hpass : (fs.lstat (render true (rc ++ push true st p))).passes = true := by
      rw [hpush]
      refine h.passes _ (List.append_ne_nil_of_right_ne_nil _ (List.cons_ne_nil _ _)) ?_
      rw [happ]
      exact List.prefix_append _ _
    rw [List.length_cons, ← Nat.add_assoc, run, visit_of_passes (.inr hpass), hpush]
    rw [happ] at h ⊢
    exact ih h (Nat.le_add_left _ _)

/-! ## The resolution -/

/-- `Resolves fs rc st todo m e r`: in a file system whose `/` is `root`, the
components `todo` lead from the directory `st` to `r`, through `m` components that
exist and `e` empty ones. -/
inductive Resolves (fs : Snapshot) (rc : List GoString) : List GoString → List GoString → ℕ → ℕ → List GoString → Prop
  | done {st : List GoString} : Resolves fs rc st [] 0 0 st
  | empty {st todo r : List GoString} {m e : ℕ} (h : Resolves fs rc st todo m e r) :
      Resolves fs rc st ([] :: todo) m (e + 1) r
  | dot {st todo r : List GoString} {m e : ℕ} (h : Resolves fs rc st todo m e r) :
      Resolves fs rc st (dot :: todo) (m + 1) e r
  | dotDot {st todo r : List GoString} {m e : ℕ} (h : Resolves fs rc st.dropLast todo m e r) :
      Resolves fs rc st (dotDot :: todo) (m + 1) e r
  | entry {st todo r : List GoString} {m e : ℕ} {p : GoString} (hp : Proper p)
      (hl : fs.lstat (render true (rc ++ (st ++ [p]))) = .found false) (h : Resolves fs rc (st ++ [p]) todo m e r) :
      Resolves fs rc st (p :: todo) (m + 1) e r
  | link {st todo r : List GoString} {m e : ℕ} {p dest : GoString} (hp : Proper p)
      (hl : fs.lstat (render true (rc ++ (st ++ [p]))) = .found true)
      (hr : fs.readlink (render true (rc ++ (st ++ [p]))) = .ok dest)
      (h : Resolves fs rc (if isAbs dest then [] else st) (elems dest ++ todo) m e r) :
      Resolves fs rc st (p :: todo) (m + 1) e r

theorem Passed.passes_of_isPrefix {st q : List GoString} (h : Passed fs rc st) (hq : q <+: st) :
    q = [] ∨ (fs.lstat (render true (rc ++ q))).passes = true := by
  by_cases hne : q = []
  · exact .inl hne
  · exact .inr (h.passes q hne hq)

/-- The loop follows the resolution, one iteration for each component. -/
theorem Resolves.run {st todo r : List GoString} {m e : ℕ} (h : Resolves fs rc st todo m e r) (hst : Passed fs rc st)
    {k : ℕ} (hk : m + e ≤ k) : run fs rc originalPath k todo st = .ok r := by
  induction h generalizing k with
  | done => rw [Symlink.run]
  | empty h ih =>
    obtain ⟨k, rfl⟩ := Nat.exists_eq_add_of_le' (Nat.le_trans (Nat.le_add_left 1 _) hk)
    rw [Symlink.run, visit_nil]
    exact ih hst (by omega)
  | @dot st todo r m e h ih =>
    obtain ⟨k, rfl⟩ := Nat.exists_eq_add_of_le' (Nat.le_trans (Nat.le_add_left 1 _) (Nat.le_of_add_right_le hk))
    have hpush := push_dot true st
    rw [Symlink.run, visit_of_passes (by rw [hpush]; exact hst.passes_of_isPrefix (List.prefix_refl st)), hpush]
    exact ih hst (by omega)
  | @dotDot st todo r m e h ih =>
    obtain ⟨k, rfl⟩ := Nat.exists_eq_add_of_le' (Nat.le_trans (Nat.le_add_left 1 _) (Nat.le_of_add_right_le hk))
    have hpush := push_dotDot hst.proper
    have hpre := List.dropLast_prefix st
    rw [Symlink.run, visit_of_passes (by rw [hpush]; exact hst.passes_of_isPrefix hpre), hpush]
    exact ih (hst.of_isPrefix hpre) (by omega)
  | @entry st todo r m e p hp hl h ih =>
    obtain ⟨k, rfl⟩ := Nat.exists_eq_add_of_le' (Nat.le_trans (Nat.le_add_left 1 _) (Nat.le_of_add_right_le hk))
    have hpush := push_of_proper true st hp
    have hpass : (fs.lstat (render true (rc ++ (st ++ [p])))).passes = true := by rw [hl]; rfl
    rw [Symlink.run, visit_of_passes (by rw [hpush]; exact .inr hpass), hpush]
    exact ih (hst.append hp hpass) (by omega)
  | @link st todo r m e p dest hp hl hr h ih =>
    obtain ⟨k, rfl⟩ := Nat.exists_eq_add_of_le' (Nat.le_trans (Nat.le_add_left 1 _) (Nat.le_of_add_right_le hk))
    have hpush := push_of_proper true st hp
    have hne : ¬ (p = [] ∨ st ++ [p] = []) :=
      not_or.mpr ⟨hp.1, List.append_ne_nil_of_right_ne_nil _ (List.cons_ne_nil _ _)⟩
    have hvisit : visit fs rc p todo st = .ok (elems dest ++ todo, if isAbs dest then [] else st) := by
      rw [visit, hpush, if_neg hne, hl]
      simp only [hr]
    rw [Symlink.run, hvisit]
    refine ih ?_ (by omega)
    split
    · exact .nil
    · exact hst

/-! ## The whole function -/

/-- A cleaned absolute path that is `root` or lexically below it. -/
structure Below (root path : GoString) : Prop where
  abs : isAbs path = true
  cleaned : clean path = path
  within : names root <+: names path

theorem below_render (root : GoString) {cs : List GoString} (hcs : ∀ c ∈ cs, Proper c) :
    Below root (render true (names root ++ cs)) ∧ names (render true (names root ++ cs)) = names root ++ cs := by
  have hall : ∀ c ∈ names root ++ cs, Proper c := by
    intro c hc
    rcases List.mem_append.mp hc with hc | hc
    · exact proper_norm_elems root c hc
    · exact hcs c hc
  have hnames : names (render true (names root ++ cs)) = names root ++ cs := norm_elems_render hall
  refine ⟨⟨rfl, clean_render hall, ?_⟩, hnames⟩
  rw [hnames]
  exact List.prefix_append _ _

theorem Below.exists_names {root path : GoString} (h : Below root path) :
    ∃ cs, (∀ c ∈ cs, Proper c) ∧ names path = names root ++ cs ∧ path = render true (names root ++ cs) := by
  obtain ⟨cs, hcs⟩ := h.within
  refine ⟨cs, fun c hc => ?_, hcs.symm, ?_⟩
  · have hmem : c ∈ names path := by
      rw [← hcs]
      exact List.mem_append_right _ hc
    exact proper_norm_elems path c hmem
  · rw [hcs]
    exact h.cleaned.symm.trans (clean_of_isAbs h.abs)

/-- For an absolute `root` and a path below it: what the code returns is below `root`,
has no symlink below `root` in it and is left as it is when evaluated again; and
the code returns the resolution of the path, if that has no more than 255
components with the empty ones of the symlinks. -/
theorem evalSymlinksInScope_spec (fs : Snapshot) {root path : GoString} (hroot : isAbs root = true)
    (hpath : Below root path) :
    (∀ r, evalSymlinksInScope fs path root = .ok r →
      Below root r ∧
      (∀ q, names root <+: q → q ≠ names root → q <+: names r → fs.lstat (render true q) ≠ .found true) ∧
      evalSymlinksInScope fs r root = .ok r) ∧
    ∀ m e st, Resolves fs (names root) [] ((names path).drop (names root).length) m e st → m + e ≤ maxIter →
      evalSymlinksInScope fs path root = .ok (render true (names root ++ st)) := by
  obtain ⟨cs, hcs, hnames, rfl⟩ := hpath.exists_names
  constructor
  · intro r hr
    rw [eval_eq_run hroot hcs] at hr
    cases hrun : run fs (names root) (render true (names root ++ cs)) maxIter cs [] with
    | error err =>
      rw [hrun] at hr
      cases hr
    | ok st =>
      rw [hrun] at hr
      cases hr
      obtain ⟨hst, hlen⟩ := Passed.nil.run (fun c hc => (hcs c hc).2.2.2) hrun
      obtain ⟨hbelow, hnames'⟩ := below_render root hst.proper
      refine ⟨hbelow, fun q hq hne hqr hlink => ?_, ?_⟩
      · rw [hnames'] at hqr
        obtain ⟨q', rfl⟩ := hq
        have hpass := hst.passes q' (fun hnil => hne (by rw [hnil, List.append_nil]))
          ((List.prefix_append_right_inj _).mp hqr)
        rw [hlink] at hpass
        cases hpass
      · rw [List.length_nil, Nat.zero_add] at hlen
        have hagain : run fs (names root) (render true (names root ++ st)) maxIter st [] = .ok ([] ++ st) :=
          run_of_passed hst hlen
        rw [eval_eq_run hroot hst.proper, hagain]
        rfl
  · intro m e st hres hle
    rw [hnames, List.drop_left] at hres
    rw [eval_eq_run hroot hcs, hres.run .nil hle]
    rfl

/-- A link `l` that climbs out of the directory `r`. -/
def climbing : Snapshot where
  lstat p := if p = bytesOf "/r/l" then .found true else if p = bytesOf "/r/x" then .found false else .notExist
  readlink p := if p = bytesOf "/r/l" then .ok (bytesOf "/../x") else .error (bytesOf "invalid argument")

theorem evalSymlinksInScope_climbing :
    evalSymlinksInScope climbing (bytesOf "/r/l") (bytesOf "/r") = .ok (bytesOf "/r/x") := by
  have hpath : Below (bytesOf "/r") (bytesOf "/r/l") := ⟨by decide, by decide +kernel, by decide +kernel⟩
  have hres : Resolves climbing [bytesOf "r"] [] [bytesOf "l"] 3 1 [bytesOf "x"] := by
    refine .link (by decide) (by decide +kernel) rfl ?_
    have htodo : elems (bytesOf "/../x") ++ [] = [[], dotDot, bytesOf "x"] := by decide +kernel
    have habs : isAbs (bytesOf "/../x") = true := by decide +kernel
    rw [htodo, if_pos habs]
    exact .empty (.dotDot (.entry (by decide) (by decide +kernel) .done))
  exact (evalSymlinksInScope_spec climbing (by decide) hpath).2 3 1 [bytesOf "x"] hres (by decide)

/-- A link `l` whose target is `x` behind many slashes, in a directory `r`. -/
def slashes : Snapshot where
  lstat p := if p = bytesOf "/r/l" then .found true else if p = bytesOf "/r/x" then .found false else .notExist
  readlink p :=
    if p = bytesOf "/r/l" then .ok (List.replicate 256 slash ++ bytesOf "x") else .error (bytesOf "invalid argument")

theorem elems_replicate_append (n : ℕ) (v : GoString) :
    elems (List.replicate n slash ++ v) = List.replicate n [] ++ elems v := by
  induction n with
  | zero => rfl
  | succ n ih => rw [List.replicate_succ, List.cons_append, elems_cons_slash, ih, List.replicate_succ, List.cons_append]

theorem Resolves.replicate {st todo r : List GoString} {m e : ℕ} (h : Resolves fs rc st todo m e r) (n : ℕ) :
    Resolves fs rc st (List.replicate n [] ++ todo) m (e + n) r := by
  induction n with
  | zero => exact h
  | succ n ih => exact ih.empty

/-- Two components, but too many links. -/
theorem too_many_slashes :
    Resolves slashes (names (bytesOf "/r")) [] ((names (bytesOf "/r/l")).drop (names (bytesOf "/r")).length) 2 256
        [bytesOf "x"] ∧
      evalSymlinksInScope slashes (bytesOf "/r/l") (bytesOf "/r") = .error (tooManyLinks (bytesOf "/r/l")) := by
  constructor
  · have hdrop : (names (bytesOf "/r/l")).drop (names (bytesOf "/r")).length = [bytesOf "l"] := by decide +kernel
    have habs : isAbs (List.replicate 256 slash ++ bytesOf "x") = true := rfl
    have helems : elems (bytesOf "x") = [bytesOf "x"] := by decide
    rw [hdrop]
    refine .link (by decide) (by decide +kernel) rfl ?_
    rw [if_pos habs, elems_replicate_append, List.append_assoc, helems]
    exact (Resolves.entry (by decide) (by decide +kernel) .done).replicate 256
  · decide +kernel

end Moby.Symlink
