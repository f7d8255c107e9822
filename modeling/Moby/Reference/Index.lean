import Moby.Reference.Store

/-!
# The two maps and the file of the reference store

* `references_indexed`: in every run, whatever calls and writes fail, the map
  by image is the inverse of the one by repository, neither has an empty inner
  map, and only a forced `AddTag` binds a reference to another image.
* `repositories_saved`: in the runs in which every write succeeds, the file has
  what the map has, and a call that fails changes nothing.
* `newReferenceStore_restores`: in the runs in which the string of every
  reference that is added is read back, a store that is built from the file is
  the same.
-/

namespace Moby.Reference

open Moby.Framework

/-- The repository name of a reference string. -/
def repoName (s : String) : Option String := (referenceRegexp.findSubmatch s).map (Regexp.submatch · 1)

theorem repoName_string (r : Named) : repoName r.string = some r.name := by
  obtain ⟨m, hm, hname, -⟩ := r.isText.findSubmatch
  rw [repoName, hm, Option.map_some, hname]

/-! ## The inverse -/

/-- A reference is in the map of its image if and only if it is bound to it in
its repository, and no inner map is empty. -/
structure Indexed (repositories : Repositories) (cache : Nested ID String Named) : Prop where
  repo : ∀ repo str id, repositories.at? repo str = some id → repoName str = some repo
  inverse : ∀ id str, (cache.at? id str).isSome ↔ ∃ repo, repositories.at? repo str = some id
  filledRepositories : repositories.Filled
  filledCache : cache.Filled

namespace Indexed

variable {m : Repositories} {cache : Nested ID String Named} {ref : Named}

/-- A reference is bound in its own repository only. -/
theorem at?_eq (h : Indexed m cache) {repo : String} {id : ID} (hat : m.at? repo ref.string = some id) :
    repo = ref.name := by
  have := h.repo repo ref.string id hat
  rw [repoName_string] at this
  cases this
  rfl

/-- What is taken from the map of an image, if the reference is bound. -/
theorem cache_none (h : Indexed m cache) {id : ID} (hid : m.at? ref.name ref.string ≠ some id) :
    cache.at? id ref.string = none := by
  rw [← Option.not_isSome_iff_eq_none, h.inverse]
  rintro ⟨repo, hat⟩
  rw [h.at?_eq hat] at hat
  exact hid hat

/-- A binding is added, where the reference is in no map of an image. -/
theorem set (h : Indexed m cache) (id : ID) {c : Nested ID String Named} (hc : c.Filled)
    (hnone : ∀ id', c.at? id' ref.string = none)
    (hother : ∀ id' str, str ≠ ref.string → c.at? id' str = cache.at? id' str) :
    Indexed (m.set ref.name ref.string id) (c.set id ref.string ref) := by
  refine ⟨fun repo str id' => ?_, fun id' str => ?_, h.filledRepositories.set _ _ _, hc.set _ _ _⟩
  · rw [Nested.at?_set]
    split
    · rename_i he
      rw [he.1, he.2]
      exact fun _ => repoName_string ref
    · exact h.repo repo str id'
  · simp only [Nested.at?_set]
    by_cases hs : str = ref.string
    · subst hs
      simp only [and_true, hnone]
      constructor
      · intro hc
        split at hc
        · rename_i he
          exact ⟨ref.name, by rw [if_pos rfl, he]⟩
        · cases hc
      · rintro ⟨repo, hr⟩
        split at hr
        · cases hr
          rw [if_pos rfl]
          rfl
        · rename_i hne
          exact absurd (h.at?_eq hr) hne
    · simp only [hs, and_false, if_false]
      rw [hother id' str hs]
      exact h.inverse id' str

theorem change {s s₁ : Store} {q : Request} (h : Indexed s.repositories s.cache) (hc : Change s q s₁) :
    Indexed s₁.repositories s₁.cache := by
  cases hc with
  | bind hq hat => exact h.set _ h.filledCache (fun id' => h.cache_none (by simp [hat])) fun _ _ _ => rfl
  | @rebind ref id oldID hq hd hat =>
    refine h.set _ (h.filledCache.unset _ _) (fun id' => ?_) fun id' str hs => ?_
    · rw [Nested.at?_unset]
      split
      · rfl
      · rename_i hne
        refine h.cache_none fun he => hne ⟨?_, rfl⟩
        cases hat.symm.trans he
        rfl
    · rw [Nested.at?_unset, if_neg fun he => hs he.2]
  | @remove ref id hat =>
    refine ⟨fun repo str id' => ?_, fun id' str => ?_, h.filledRepositories.unset _ _, h.filledCache.unset _ _⟩
    · rw [Nested.at?_unset]
      split
      · rintro ⟨⟩
      · exact h.repo repo str id'
    · simp only [Nested.at?_unset]
      by_cases hs : str = ref.string
      · subst hs
        simp only [and_true]
        refine iff_of_false (fun hc => ?_) ?_
        · split at hc
          · cases hc
          · rename_i hne
            rw [h.cache_none fun he => hne (by cases hat.symm.trans he; rfl)] at hc
            cases hc
        · rintro ⟨repo, hr⟩
          split at hr
          · cases hr
          · rename_i hne
            exact hne (h.at?_eq hr)
      · simp only [hs, and_false, if_false]
        exact h.inverse id' str

end Indexed

/-- A file whose references are in the repositories of their names, and can be
read. -/
structure Repositories.Readable (m : Repositories) : Prop where
  filled : m.Filled
  repo : ∀ repo str id, m.at? repo str = some id → repoName str = some repo
  reads : ∀ repo str id, m.at? repo str = some id → ∃ ref, parseNamed str = .ok ref

theorem isSome_toOption {ε α : Type} {x : Except ε α} : x.toOption.isSome ↔ ∃ a, x = .ok a := by
  cases x <;> simp [Except.toOption]

/-- What is cached of the references `entries` of a file that can be read. -/
theorem at?_reload {m : Repositories} {entries : List (String × ID)}
    (hreads : ∀ repo str id, m.at? repo str = some id → ∃ ref, parseNamed str = .ok ref) (hl : m.Lists entries)
    (id : ID) (str : String) : (∃ repo, m.at? repo str = some id) ∧
      (entries.foldl Store.cacheReference ∅).at? id str = (parseNamed str).toOption ∧
      (parseNamed str).toOption.isSome ∨
    (¬ ∃ repo, m.at? repo str = some id) ∧ (entries.foldl Store.cacheReference ∅).at? id str = none := by
  rw [at?_foldl_cacheReference, ← hl str id]
  by_cases he : (str, id) ∈ entries
  · obtain ⟨repo, hat⟩ := (hl str id).mp he
    have hp := isSome_toOption.mpr (hreads repo str id hat)
    exact .inl ⟨he, if_pos ⟨he, hp⟩, hp⟩
  · exact .inr ⟨he, if_neg fun h => he h.1⟩

theorem Indexed.start {env : Nat → Bool} {file : Option Repositories} {entries : List (String × ID)} {s : Store}
    (hfile : ∀ m, file = some m → m.Readable ∧ m.Lists entries) (h : newReferenceStore env file entries = .ok s) :
    Indexed s.repositories s.cache := by
  obtain ⟨-, ⟨-, hr, hc⟩ | ⟨hf, hc⟩⟩ := newReferenceStore_ok h
  · rw [hr, hc]
    exact ⟨nofun, fun _ _ => ⟨nofun, nofun⟩, Nested.filled_empty, Nested.filled_empty⟩
  · obtain ⟨hr, hl⟩ := hfile _ hf
    rw [hc]
    refine ⟨hr.repo, fun id str => ?_, hr.filled, filled_foldl_cacheReference Nested.filled_empty⟩
    rcases at?_reload hr.reads hl id str with ⟨hy, he, hp⟩ | ⟨hn, he⟩
    · rw [he]
      exact iff_of_true hp hy
    · rw [he]
      exact iff_of_false nofun hn

/-- Only a forced `AddTag` binds a reference to another image. -/
theorem apply_rebinds {s : Store} {q : Request} {repo str : String} {id id' : ID}
    (h : s.repositories.at? repo str = some id) (h' : (q.apply s).2.repositories.at? repo str = some id')
    (hne : id' ≠ id) : ∃ ref, q = .addTag ref id' true ∧ ref.digest? = none ∧ str = ref.withDefaultTag.string := by
  have same : ∀ {x : Option ID}, x = some id → x = some id' → False := fun h₁ h₂ =>
    hne (Option.some.inj (h₂.symm.trans h₁))
  rcases q.apply_cases s with ⟨-, e, he⟩ | ⟨-, s₁, hc, he⟩
  · rw [he] at h'
    exact (same h h').elim
  · rw [he, s₁.save_maps.1] at h'
    cases hc with
    | @bind ref _ _ _ hat =>
      rw [Nested.at?_set] at h'
      split at h'
      · rename_i hk
        rw [← hk.1, ← hk.2, h] at hat
        cases hat
      · exact (same h h').elim
    | @rebind ref x oldID hq hd _ =>
      rw [Nested.at?_set] at h'
      split at h'
      · rename_i hk
        cases h'
        cases q with
        | addTag r i f =>
          obtain ⟨hd', rfl, rfl, rfl⟩ := hq
          exact ⟨r, rfl, hd', hk.2⟩
        | addDigest r hcan i f =>
          obtain ⟨rfl, -⟩ := hq
          rw [hd] at hcan
          cases hcan
        | delete r => exact hq.elim
      · exact (same h h').elim
    | remove _ =>
      rw [Nested.at?_unset] at h'
      split at h'
      · cases h'
      · exact (same h h').elim

/-- In every state that calls reach, whatever calls and writes fail: a
reference is in the map of an image if and only if it is bound to it in its
repository, neither map has an empty inner map, and only a forced `AddTag`
binds a reference to another image, and never a digest. -/
theorem references_indexed {env : Nat → Bool} {file : Option Repositories} {entries : List (String × ID)}
    {s₀ s : Store} (hfile : ∀ m, file = some m → m.Readable ∧ m.Lists entries)
    (h₀ : newReferenceStore env file entries = .ok s₀) (hs : Reaches (fun _ _ => True) s₀ s) :
    (∀ id str, (s.cache.at? id str).isSome ↔
      ∃ repo, repoName str = some repo ∧ s.repositories.at? repo str = some id) ∧
    s.repositories.Filled ∧ s.cache.Filled ∧
    ∀ q repo str id id', s.repositories.at? repo str = some id →
      (Request.apply s q).2.repositories.at? repo str = some id' → id' ≠ id →
      ∃ ref, q = .addTag ref id' true ∧ ref.digest? = none ∧ str = ref.withDefaultTag.string := by
  have h : Indexed s.repositories s.cache :=
    Reaches.maps (I := Indexed) (Indexed.start hfile h₀) (fun _ _ _ _ hc h => h.change hc) hs
  refine ⟨fun id str => (h.inverse id str).trans ?_, h.filledRepositories, h.filledCache, fun _ _ _ _ _ => apply_rebinds⟩
  exact ⟨fun ⟨repo, hat⟩ => ⟨repo, h.repo repo str id hat, hat⟩, fun ⟨repo, _, hat⟩ => ⟨repo, hat⟩⟩

/-- A repository name. -/
def sampleRef : Named where
  name := "a"
  suffix := .nameOnly
  isNormal :=
    { size := by decide +kernel
      accepts := Regexp.matchString_iff.mp (by decide +kernel)
      normal := ⟨"a", by decide +kernel⟩
      notID := by decide +kernel }
  valid := trivial

/-- A store on a file that does not exist yet. -/
def emptyStore (env : Nat → Bool) : Store := { env, clock := 1, file := some ∅ }

theorem newReferenceStore_empty (env : Nat → Bool) (h : env 0 = true) :
    newReferenceStore env none [] = .ok (emptyStore env) := by
  simp only [newReferenceStore, Store.reload, Store.save, h, if_true]
  rfl

/-- A tag, in a state that is reached. -/
theorem references_indexed_of_addTag : ∃ s₀ s, newReferenceStore (fun _ => true) none [] = .ok s₀ ∧
    Reaches (fun _ _ => True) s₀ s ∧ s.repositories.at? "a" "a:latest" = some "x" ∧
    (s.cache.at? "x" "a:latest").isSome := by
  have h₀ := newReferenceStore_empty (fun _ => true) rfl
  have hs : Reaches (fun _ _ => True) (emptyStore fun _ => true)
      (Request.apply (emptyStore fun _ => true) (.addTag sampleRef "x" false)).2 :=
    .single ⟨_, trivial, rfl⟩
  have hat : (Request.apply (emptyStore fun _ => true) (.addTag sampleRef "x" false)).2.repositories.at? "a" "a:latest" =
      some "x" := by decide +kernel
  refine ⟨_, _, h₀, hs, hat, ((references_indexed (fun _ h => by cases h) h₀ hs).1 "x" "a:latest").mpr ⟨"a", ?_, hat⟩⟩
  decide +kernel

/-! ## The file -/

/-- In every state that calls reach, none of which has a write fail: the file
has what the map has, and a call that fails changes nothing, if its write does
not fail. -/
theorem repositories_saved {env : Nat → Bool} {file : Option Repositories} {entries : List (String × ID)}
    {s₀ s : Store} (h₀ : newReferenceStore env file entries = .ok s₀)
    (hs : Reaches (fun s q => q.Writes s → s.env s.clock = true) s₀ s) : s.file = some s.repositories ∧
    ∀ q, (Request.Writes s q → s.env s.clock = true) → ∀ e, (q.apply s).1 = .error e → (q.apply s).2 = s := by
  refine ⟨Reaches.inv (I := fun s => s.file = some s.repositories) (newReferenceStore_ok h₀).1
    (fun s q hC hI => ?_) hs, fun q hq e hfail => ?_⟩
  · rcases q.apply_cases s with ⟨-, e, he⟩ | ⟨hw, s₁, hc, he⟩
    · rw [he]; exact hI
    · rcases s₁.save_cases with ⟨-, hsave⟩ | ⟨hno, -⟩
      · rw [he, hsave]
      · rw [hc.same.1, hc.same.2, hC hw] at hno
        cases hno
  · rcases q.apply_cases s with ⟨-, e, he⟩ | ⟨hw, s₁, hc, he⟩
    · rw [he]
    · rcases s₁.save_cases with ⟨-, hsave⟩ | ⟨hno, -⟩
      · rw [he, hsave] at hfail
        cases hfail
      · rw [hc.same.1, hc.same.2, hq hw] at hno
        cases hno

/-- A tag that is saved. -/
theorem repositories_saved_of_addTag : ∃ s₀ s, newReferenceStore (fun _ => true) none [] = .ok s₀ ∧
    Reaches (fun s q => q.Writes s → s.env s.clock = true) s₀ s ∧ s.repositories.at? "a" "a:latest" = some "x" ∧
    s.file = some s.repositories := by
  have h₀ := newReferenceStore_empty (fun _ => true) rfl
  have hs : Reaches (fun s q => q.Writes s → s.env s.clock = true) (emptyStore fun _ => true)
      (Request.apply (emptyStore fun _ => true) (.addTag sampleRef "x" false)).2 :=
    .single ⟨_, fun _ => rfl, rfl⟩
  exact ⟨_, _, h₀, hs, by decide +kernel, (repositories_saved h₀ hs).1⟩

/-- A tag whose write fails is in the store, and not in the file. -/
theorem addTag_unsaved : ∃ env s₀, newReferenceStore env none [] = .ok s₀ ∧
    (s₀.addTag sampleRef "x" false).1 = .error .writeFailed ∧
    (s₀.addTag sampleRef "x" false).2.file ≠ some (s₀.addTag sampleRef "x" false).2.repositories ∧
    s₀.get sampleRef = .error .doesNotExist ∧ (s₀.addTag sampleRef "x" false).2.get sampleRef = .ok "x" := by
  refine ⟨(· = 0), _, newReferenceStore_empty _ rfl, by decide +kernel, fun h => ?_, by decide +kernel, by decide +kernel⟩
  have hfile : ((emptyStore (· = 0)).addTag sampleRef "x" false).2.file.map (·.at? "a" "a:latest") = some none := by
    decide +kernel
  have hmap : ((emptyStore (· = 0)).addTag sampleRef "x" false).2.repositories.at? "a" "a:latest" = some "x" := by
    decide +kernel
  rw [h, Option.map_some, hmap] at hfile
  cases hfile

/-! ## A new store -/

/-- Every string that the call adds is read back. -/
def Request.ReadsBack (q : Request) : Prop := ∀ ref id force, q.Adds ref id force → parseNamed ref.string = .ok ref

/-- The references of the images are those that their strings are read as. -/
def Exact (cache : Nested ID String Named) : Prop :=
  ∀ id str ref, cache.at? id str = some ref → ref.string = str ∧ parseNamed str = .ok ref

theorem exact_empty : Exact ∅ := by
  intro id str ref hat
  rw [Nested.at?_empty] at hat
  cases hat

theorem Exact.set {cache : Nested ID String Named} (h : Exact cache) {ref : Named} (hp : parseNamed ref.string = .ok ref)
    (id : ID) : Exact (cache.set id ref.string ref) := by
  intro id' str r hat
  rw [Nested.at?_set] at hat
  split at hat
  · rename_i hk
    cases hat
    rw [hk.2]
    exact ⟨rfl, hp⟩
  · exact h id' str r hat

theorem Exact.unset {cache : Nested ID String Named} (h : Exact cache) (id : ID) (str : String) :
    Exact (cache.unset id str) := by
  intro id' str' r hat
  rw [Nested.at?_unset] at hat
  split at hat
  · cases hat
  · exact h id' str' r hat

theorem Exact.change {s s₁ : Store} {q : Request} (h : Exact s.cache) (hq : q.ReadsBack) (hc : Change s q s₁) :
    Exact s₁.cache := by
  cases hc with
  | bind hadd _ => exact h.set (hq _ _ _ hadd) _
  | rebind hadd _ _ => exact (h.unset _ _).set (hq _ _ _ hadd) _
  | remove _ => exact h.unset _ _

theorem exists_sorted {α : Type} (m : Multiset α) (f : α → String) :
    ∃ l : List α, (l : Multiset α) = m ∧ l.Pairwise (f · ≤ f ·) := by
  refine ⟨m.toList.mergeSort fun a b => decide (f a ≤ f b), ?_, ?_⟩
  · rw [Multiset.coe_eq_coe.mpr (List.mergeSort_perm _ _), Multiset.coe_toList]
  · have htrans : ∀ a b c, decide (f a ≤ f b) = true → decide (f b ≤ f c) = true → decide (f a ≤ f c) = true :=
      fun a b c hab hbc => decide_eq_true (String.le_trans (of_decide_eq_true hab) (of_decide_eq_true hbc))
    have htotal : ∀ a b, (decide (f a ≤ f b) || decide (f b ≤ f a)) = true := fun a b => by
      simpa using String.le_total (f a) (f b)
    exact (List.pairwise_mergeSort htrans htotal m.toList).imp fun h => of_decide_eq_true h

/-- What `ReferencesByName` returns for a reference of a store whose references
are read back. -/
theorem referencesByName_of_at? {s : Store} (h : Indexed s.repositories s.cache) (he : Exact s.cache) {ref : Named}
    {id : ID} (hat : s.repositories.at? ref.name ref.string = some id) :
    (∃ l, s.ReferencesByName ref l) ∧ ∀ l, s.ReferencesByName ref l → (ref, id) ∈ l := by
  have reads : ∀ {repo str i}, s.repositories.at? repo str = some i → ∃ r, r.string = str ∧ parseNamed str = .ok r := by
    intro repo str i hi
    obtain ⟨r, hr⟩ := Option.isSome_iff_exists.mp ((h.inverse i str).mpr ⟨repo, hi⟩)
    exact ⟨r, he i str r hr⟩
  cases hl : s.repositories.lookup ref.name with
  | none => rw [Nested.at?_of_lookup_none hl] at hat; cases hat
  | some repository =>
    have hall : ∀ e ∈ repository.entries, (parseNamed e.1).toOption.isSome := by
      intro e hmem
      have hlookup : repository.lookup e.1 = some e.2 := Finmap.mem_entries.mp hmem
      rw [← Nested.at?_of_lookup hl] at hlookup
      obtain ⟨r, -, hr⟩ := reads hlookup
      exact isSome_toOption.mpr ⟨r, hr⟩
    simp only [Store.ReferencesByName, hl, if_pos hall]
    refine ⟨exists_sorted _ fun p : Named × ID => p.1.string, fun l ⟨hentries, _⟩ => ?_⟩
    obtain ⟨r, hr, hp⟩ := reads hat
    cases Named.string_inj hr
    rw [← Multiset.mem_coe, hentries, Multiset.mem_filterMap]
    refine ⟨⟨ref.string, id⟩, Finmap.mem_entries.mpr ?_, by rw [hp]; rfl⟩
    rw [← Nested.at?_of_lookup hl, hat]

/-- In every state that calls reach, each of which adds only a reference whose
string is read back: a store that is built from what `save` writes has the same
references, by repository and by image, and lists each in its repository. -/
theorem newReferenceStore_restores {env : Nat → Bool} {s₀ s : Store} {entries : List (String × ID)}
    (h₀ : newReferenceStore env none [] = .ok s₀) (hs : Reaches (fun _ q => q.ReadsBack) s₀ s)
    (hl : s.repositories.Lists entries) (env' : Nat → Bool) :
    ∃ s', newReferenceStore env' (some s.repositories) entries = .ok s' ∧
      s'.repositories = s.repositories ∧ (∀ id l, s'.References id l ↔ s.References id l) ∧
      ∀ ref id, s.repositories.at? ref.name ref.string = some id →
        (∃ l, s'.ReferencesByName ref l) ∧ ∀ l, s'.ReferencesByName ref l → (ref, id) ∈ l := by
  have h : Indexed s.repositories s.cache ∧ Exact s.cache := by
    refine Reaches.maps (I := fun m c => Indexed m c ∧ Exact c) ⟨Indexed.start (fun _ h => by cases h) h₀, ?_⟩
      (fun _ _ _ hq hc h => ⟨h.1.change hc, h.2.change hq hc⟩) hs
    obtain ⟨-, ⟨-, -, hc⟩ | ⟨hf, -⟩⟩ := newReferenceStore_ok h₀
    · rw [hc]; exact exact_empty
    · cases hf
  obtain ⟨h, he⟩ := h
  have hreads : ∀ repo str id, s.repositories.at? repo str = some id → ∃ ref, parseNamed str = .ok ref := by
    intro repo str id hat
    obtain ⟨r, hr⟩ := Option.isSome_iff_exists.mp ((h.inverse id str).mpr ⟨repo, hat⟩)
    exact ⟨r, (he id str r hr).2⟩
  have hcache : entries.foldl Store.cacheReference ∅ = s.cache := by
    refine (filled_foldl_cacheReference Nested.filled_empty).ext h.filledCache fun id str => ?_
    rcases at?_reload hreads hl id str with ⟨hy, heq, -⟩ | ⟨hn, heq⟩
    · obtain ⟨r, hr⟩ := Option.isSome_iff_exists.mp ((h.inverse id str).mpr hy)
      rw [heq, hr, (he id str r hr).2]
      rfl
    · rw [heq, eq_comm, ← Option.not_isSome_iff_eq_none, h.inverse]
      exact hn
  refine ⟨_, rfl, rfl, fun id l => ?_, ?_⟩
  · simp only [Store.References, hcache]
  · intro ref id hat
    exact referencesByName_of_at? (by rw [hcache]; exact h) (by rw [hcache]; exact he) hat

/-- A tag that a new store has too. -/
theorem newReferenceStore_restores_tag : ∃ s₀ s s', newReferenceStore (fun _ => true) none [] = .ok s₀ ∧
    Reaches (fun _ q => q.ReadsBack) s₀ s ∧
    newReferenceStore (fun _ => true) (some s.repositories) [("a:latest", "x")] = .ok s' ∧
    s'.repositories.at? "a" "a:latest" = some "x" := by
  have h₀ := newReferenceStore_empty (fun _ => true) rfl
  have hq : (Request.addTag sampleRef "x" false).ReadsBack := by
    rintro ref id force ⟨-, rfl, -⟩
    decide +kernel
  have hs : Reaches (fun _ q => q.ReadsBack) (emptyStore fun _ => true)
      (Request.apply (emptyStore fun _ => true) (.addTag sampleRef "x" false)).2 :=
    .single ⟨_, hq, rfl⟩
  have hrepo : (Request.apply (emptyStore fun _ => true) (.addTag sampleRef "x" false)).2.repositories =
      Nested.set ∅ "a" "a:latest" "x" := by decide +kernel
  have hl : Repositories.Lists (Nested.set ∅ "a" "a:latest" "x") [("a:latest", "x")] := by
    intro refStr id
    simp [Nested.at?_set, Nested.at?_empty, eq_comm]
  obtain ⟨s', hs', hsame, -⟩ := newReferenceStore_restores h₀ hs (hrepo ▸ hl) fun _ => true
  refine ⟨_, _, s', h₀, hs, hs', ?_⟩
  rw [hsame, hrepo, Nested.at?_set, if_pos ⟨rfl, rfl⟩]

/-- What `library/library/a` is read as. -/
def libraryRef : Named where
  name := "library/a"
  suffix := .nameOnly
  isNormal :=
    { size := by decide +kernel
      accepts := Regexp.matchString_iff.mp (by decide +kernel)
      normal := ⟨"library/library/a", by decide +kernel⟩
      notID := by decide +kernel }
  valid := trivial

theorem libraryRef_added : ∃ s, Store.addTag (emptyStore fun _ => true) libraryRef "x" false = (.ok (), s) ∧
    s.repositories = Nested.set ∅ "library/a" "library/a:latest" "x" ∧
    s.cache = Nested.set ∅ "x" "library/a:latest" libraryRef.withDefaultTag :=
  ⟨(Store.addTag (emptyStore fun _ => true) libraryRef "x" false).2, Prod.ext (by decide +kernel) rfl,
    by decide +kernel, by decide +kernel⟩

/-- The image of a tag of `library/a` has another reference in a new store. -/
theorem newReferenceStore_changes_reference : ∃ s₀ s s' l,
    newReferenceStore (fun _ => true) none [] = .ok s₀ ∧ s₀.addTag libraryRef "x" false = (.ok (), s) ∧
    s.repositories.Lists [("library/a:latest", "x")] ∧
    newReferenceStore (fun _ => true) (some s.repositories) [("library/a:latest", "x")] = .ok s' ∧
    s.References "x" l ∧ "library/a:latest" ∈ l.map Named.string ∧
    ∀ l', s'.References "x" l' → "library/a:latest" ∉ l'.map Named.string := by
  obtain ⟨s, hs, hrepo, hcache⟩ := libraryRef_added
  refine ⟨_, s, _, [libraryRef.withDefaultTag], newReferenceStore_empty _ rfl, hs, ?_, rfl, ?_,
    by decide +kernel, fun l' hl' => ?_⟩
  · rw [hrepo]
    intro refStr id
    simp [Nested.at?_set, Nested.at?_empty, eq_comm]
  · refine ⟨?_, List.pairwise_singleton _ _⟩
    rw [hcache]
    decide +kernel
  · have hno : "library/a:latest" ∉ Multiset.map Named.string ((Finmap.lookup "x"
        ([("library/a:latest", "x")].foldl Store.cacheReference ∅)).getD ∅).values := by decide +kernel
    rw [← hl'.1] at hno
    simpa using hno

end Moby.Reference
