import Moby.Reference.Grammar

/-!
# Named references

The package `reference`: references whose names are without the default
hostname and, for official images, without `library/`. `splitHostname` puts
both back, when a reference is asked for its host and its path.
-/

namespace Moby.Reference

open Moby.Framework Moby.Digest

/-- `DefaultTag`. -/
def defaultTag : String := "latest"

/-- `DefaultHostname`. -/
def defaultHostname : String := "docker.io"

/-- `LegacyDefaultHostname`. -/
def legacyDefaultHostname : String := "index.docker.io"

/-- `DefaultRepoPrefix`. -/
def defaultRepoPrefix : String := "library/"

inductive Err where
  | notValidRepositoryTag (s : String)
  | notLowercase
  | hexadecimalName (name : String)
  | dist (e : DistErr)
  deriving DecidableEq

/-! ## Names -/

/-- The part before the first slash of a name is a hostname. -/
def isHostname (a : String) : Bool := '.' ∈ a.toList || ':' ∈ a.toList || a = "localhost"

/-- `splitHostname`. -/
def splitHostname (name : String) : String × String :=
  let (hostname, remoteName) :=
    match cut '/' name with
    | none => (defaultHostname, name)
    | some (a, b) => if !isHostname a then (defaultHostname, name) else (a, b)
  let hostname := if hostname = legacyDefaultHostname then defaultHostname else hostname
  let remoteName :=
    if hostname = defaultHostname ∧ '/' ∉ remoteName.toList then defaultRepoPrefix ++ remoteName else remoteName
  (hostname, remoteName)

/-- `normalize`. -/
def normalize (name : String) : Except Err String :=
  let (host, remoteName) := splitHostname name
  if toLower remoteName ≠ remoteName then .error .notLowercase
  else if host = defaultHostname then
    if hasPrefix remoteName defaultRepoPrefix then .ok (trimPrefix remoteName defaultRepoPrefix)
    else .ok remoteName
  else .ok name

/-- `validateName`: a name is not the hexadecimal part of an image ID. -/
def validateName (name : String) : Except Err Unit :=
  if IsHex64 name then .error (.hexadecimalName name) else .ok ()

/-! ## References -/

/-- The tag or the digest of a reference: those of `namedRef`, `taggedRef` and
`canonicalRef`. -/
inductive Suffix where
  | nameOnly
  | tag (tag : String)
  | digest (digest : String)
  deriving DecidableEq

/-- What `WithTag` and `WithDigest` check. -/
def Suffix.Valid : Suffix → Prop
  | nameOnly => True
  | tag t => tagRegexp.matchString t = true
  | digest d => digestRegexp.matchString d = true

/-- The names that `WithName` returns. -/
structure IsNormal (name : String) : Prop extends IsName name where
  normal : ∃ n, normalize n = .ok name
  notID : validateName name = .ok ()

/-- `Named`: what `WithName`, `WithTag` and `WithDigest` return. -/
structure Named where
  name : String
  suffix : Suffix
  isNormal : IsNormal name
  valid : suffix.Valid
  deriving DecidableEq

/-- `distreference.WithName`, of a normal name. -/
def distWithName (name : String) (normal : ∃ n, normalize n = .ok name) (notID : validateName name = .ok ()) :
    Except Err Named :=
  if hs : name.utf8ByteSize > nameTotalLengthMax then .error (.dist .nameTooLong)
  else if ha : anchoredNameRegexp.matchString name = true then
    .ok { name, suffix := .nameOnly, valid := trivial, isNormal :=
      { size := Nat.not_lt.mp hs
        accepts := accepts_anchoredNameRegexp.mp (Regexp.matchString_iff.mp ha)
        normal, notID } }
  else .error (.dist .referenceInvalidFormat)

/-- `WithName`. -/
def withName (name : String) : Except Err Named :=
  match h : normalize name with
  | .error e => .error e
  | .ok name' =>
    match h' : validateName name' with
    | .error e => .error e
    | .ok () => distWithName name' ⟨name, h⟩ h'

namespace Named

/-- `WithTag`. -/
def withTag (r : Named) (tag : String) : Except Err Named :=
  if h : Regexp.matchString tagRegexp tag = true then .ok { r with suffix := .tag tag, valid := h }
  else .error (.dist .tagInvalidFormat)

/-- `WithDigest`. -/
def withDigest (r : Named) (digest : String) : Except Err Named :=
  if h : Regexp.matchString digestRegexp digest = true then .ok { r with suffix := .digest digest, valid := h }
  else .error (.dist .digestInvalidFormat)

/-- `String`. -/
def string (r : Named) : String :=
  match r.suffix with
  | .nameOnly => r.name
  | .tag t => r.name ++ ":" ++ t
  | .digest d => r.name ++ "@" ++ d

/-- `FullName`. -/
def fullName (r : Named) : String := (splitHostname r.name).1 ++ "/" ++ (splitHostname r.name).2

/-- `Hostname`. -/
def hostname (r : Named) : String := (splitHostname r.name).1

/-- `RemoteName`. -/
def remoteName (r : Named) : String := (splitHostname r.name).2

/-- `Digest`, if the reference is `Canonical`. -/
def digest? (r : Named) : Option String :=
  match r.suffix with
  | .digest d => some d
  | _ => none

/-- `IsNameOnly`. -/
def isNameOnly (r : Named) : Bool := r.suffix = .nameOnly

/-- `WithDefaultTag`. -/
def withDefaultTag (r : Named) : Named :=
  if r.isNameOnly then
    match r.withTag defaultTag with
    | .ok r => r
    | .error _ => r
  else r

end Named

/-- `ParseNamed`. -/
def parseNamed (s : String) : Except Err Named :=
  match distParseNamed s with
  | .error _ => .error (.notValidRepositoryTag s)
  | .ok named =>
    match withName named.name with
    | .error e => .error e
    | .ok r =>
      match named.digest?, named.tag? with
      | some d, _ => r.withDigest d
      | none, some t => r.withTag t
      | none, none => .ok r

/-! ## What normal forms denote -/

section

variable {name a b : String}

theorem splitHostname_of_none (h : cut '/' name = none) :
    splitHostname name = (defaultHostname, defaultRepoPrefix ++ name) := by
  have hc := cut_eq_none.mp h
  simp only [splitHostname, h]
  rw [if_neg (by decide), if_pos ⟨rfl, hc⟩]

theorem slash_mem (h : cut '/' name = some (a, b)) : '/' ∈ name.toList := by
  rw [(cut_eq_some.mp h).1]; simp

theorem splitHostname_of_not_hostname (h : cut '/' name = some (a, b)) (ha : isHostname a = false) :
    splitHostname name = (defaultHostname, name) := by
  have hc := slash_mem h
  simp only [splitHostname, h, ha, Bool.not_false, if_true]
  rw [if_neg (by decide), if_neg fun hs => hs.2 hc]

/-- The registry that a hostname denotes. -/
def registry (host : String) : String := if host = legacyDefaultHostname then defaultHostname else host

theorem splitHostname_of_hostname (h : cut '/' name = some (a, b)) (ha : isHostname a = true) :
    splitHostname name = (registry a,
      if registry a = defaultHostname ∧ '/' ∉ b.toList then defaultRepoPrefix ++ b else b) := by
  simp only [splitHostname, h, ha, Bool.not_true, Bool.false_eq_true, if_false]
  rfl

/-- On the default host, a path has a slash. -/
theorem slash_of_default (h : (splitHostname name).1 = defaultHostname) : '/' ∈ (splitHostname name).2.toList := by
  have hprefix : ∀ s : String, '/' ∈ (defaultRepoPrefix ++ s).toList := fun s => by
    rw [String.toList_append]
    exact List.mem_append_left _ (by decide)
  cases hc : cut '/' name with
  | none => rw [splitHostname_of_none hc]; exact hprefix name
  | some p =>
    cases ha : isHostname p.1 with
    | false => rw [splitHostname_of_not_hostname hc ha]; exact slash_mem hc
    | true =>
      rw [splitHostname_of_hostname hc ha] at h ⊢
      by_cases hs : '/' ∈ p.2.toList
      · simp [hs]
      · simpa [hs, show registry p.1 = defaultHostname from h] using hprefix p.2

/-- What is split off is shorter, up to `library/`. -/
theorem splitHostname_ne_of_slash (h : cut '/' name = some (a, b)) :
    (splitHostname name).2 ≠ defaultRepoPrefix ++ name := by
  intro he
  have hlen := congrArg (·.toList.length) he
  have hname := congrArg List.length (cut_eq_some.mp h).1
  cases ha : isHostname a with
  | false =>
    rw [splitHostname_of_not_hostname h ha] at hlen
    simp [defaultRepoPrefix] at hlen
    omega
  | true =>
    rw [splitHostname_of_hostname h ha] at hlen
    simp only [List.length_append, List.length_cons] at hname
    split at hlen <;> simp only [String.toList_append, List.length_append] at hlen <;> omega

/-- The normal form denotes what the name does: if the name is one of the
default host, only an official image is under `library`, and the first
component of the path does not look like a hostname. -/
def Keeps (name : String) : Prop :=
  (splitHostname name).1 = defaultHostname → ∀ a b, cut '/' (splitHostname name).2 = some (a, b) →
    if a = "library" then '/' ∉ b.toList else isHostname a = false

/-- The path of an official image. -/
theorem hasPrefix_iff (h : cut '/' name = some (a, b)) : hasPrefix name defaultRepoPrefix = true ↔ a = "library" := by
  obtain ⟨hs, ha⟩ := cut_eq_some.mp h
  constructor
  · intro hp
    obtain ⟨t, ht⟩ := List.isPrefixOf_iff_prefix.mp hp
    have he : "library".toList ++ '/' :: t = a.toList ++ '/' :: b.toList := by rw [← hs, ← ht]; rfl
    exact (String.toList_inj.mp (append_cons_inj (by decide) ha he).1).symm
  · rintro rfl
    refine List.isPrefixOf_iff_prefix.mpr ⟨b.toList, ?_⟩
    rw [hs]
    rfl

theorem eq_append_of_cut (h : cut '/' name = some (a, b)) : name = a ++ "/" ++ b := by
  refine String.toList_inj.mp ?_
  rw [(cut_eq_some.mp h).1, String.toList_append, String.toList_append, List.append_assoc]
  rfl

/-- An official image is found again. -/
theorem splitHostname_library_iff (h : cut '/' name = some ("library", b)) :
    splitHostname b = (defaultHostname, name) ↔ '/' ∉ b.toList := by
  have hname : name = defaultRepoPrefix ++ b := eq_append_of_cut h
  constructor
  · intro he hs
    obtain ⟨p, hp⟩ := Option.ne_none_iff_exists'.mp fun hn => cut_eq_none.mp hn hs
    exact splitHostname_ne_of_slash hp (by rw [he, hname])
  · intro hs
    rw [splitHostname_of_none (cut_eq_none.mpr hs), hname]

/-- A path whose first component looks like a hostname is taken for another. -/
theorem splitHostname_path_iff (h : cut '/' name = some (a, b)) (hlib : a ≠ "library") :
    splitHostname name = (defaultHostname, name) ↔ isHostname a = false := by
  refine ⟨fun he => ?_, splitHostname_of_not_hostname h⟩
  by_contra ha
  rw [Bool.not_eq_false] at ha
  rw [splitHostname_of_hostname h ha, Prod.mk.injEq] at he
  have hname := eq_append_of_cut h
  have hlen := congrArg List.length (cut_eq_some.mp h).1
  simp only [List.length_append, List.length_cons] at hlen
  split at he
  · rw [hname] at he
    have happ : defaultRepoPrefix.toList ++ b.toList = (a ++ "/").toList ++ b.toList := by
      rw [← String.toList_append, ← String.toList_append, he.2]
    have heq : "library" ++ "/" = a ++ "/" := String.toList_inj.mp (List.append_cancel_right happ)
    exact hlib ((String.append_left_inj "/").mp heq).symm
  · rw [← he.2] at hlen
    omega

/-- The normal form denotes what the name does, or `Keeps` fails. -/
theorem splitHostname_normalize_iff {name' : String} (h : normalize name = .ok name') :
    splitHostname name' = splitHostname name ↔ Keeps name := by
  unfold normalize at h
  by_cases hd : (splitHostname name).1 = defaultHostname
  · rcases hc : cut '/' (splitHostname name).2 with _ | ⟨a, b⟩
    · exact absurd (slash_of_default hd) (cut_eq_none.mp hc)
    · have hkeeps : Keeps name ↔ if a = "library" then '/' ∉ b.toList else isHostname a = false :=
        ⟨fun hk => hk hd a b hc, fun hk _ a' b' hc' => by cases hc.symm.trans hc'; exact hk⟩
      have hp : splitHostname name = (defaultHostname, (splitHostname name).2) := Prod.ext hd rfl
      rw [hkeeps, hp]
      simp only [hd, if_true] at h
      by_cases ha : a = "library"
      · subst ha
        have hb : trimPrefix (splitHostname name).2 defaultRepoPrefix = b := by
          rw [eq_append_of_cut hc]; exact trimPrefix_append defaultRepoPrefix b
        rw [if_pos ((hasPrefix_iff hc).mpr rfl), hb] at h
        split at h <;> cases h
        rw [if_pos rfl]
        exact splitHostname_library_iff hc
      · rw [if_neg fun hl => ha ((hasPrefix_iff hc).mp hl)] at h
        split at h <;> cases h
        rw [if_neg ha]
        exact splitHostname_path_iff hc ha
  · have hkeeps : Keeps name := fun he => absurd he hd
    have hname : name' = name := by
      simp only [if_neg hd] at h
      split at h <;> cases h
      rfl
    rw [hname]
    exact iff_of_true rfl hkeeps

/-- A name that denotes what its normal form does has a normal form that is
its own. -/
theorem normalize_of_keeps {name' : String} (h : normalize name = .ok name') (hk : Keeps name) :
    normalize name' = .ok name' := by
  have hs := (splitHostname_normalize_iff h).mpr hk
  unfold normalize at h ⊢
  rw [hs]
  simp only at h ⊢
  split_ifs at h ⊢
  · exact h
  · exact h
  · rfl

end

/-! ## Strings of references -/

theorem withName_ok {n : String} {r : Named} (h : withName n = .ok r) : normalize n = .ok r.name ∧ r.suffix = .nameOnly := by
  unfold withName at h
  split at h
  · cases h
  · rename_i name hn
    split at h
    · cases h
    · unfold distWithName at h
      split_ifs at h
      cases h
      exact ⟨hn, rfl⟩

/-- `WithName` of a name that is its own normal form. -/
theorem withName_of_normalize {r : Named} (h : normalize r.name = .ok r.name) :
    withName r.name = .ok { r with suffix := .nameOnly, valid := trivial } := by
  unfold withName
  split
  · rename_i he; cases h.symm.trans he
  · rename_i name' he
    cases h.symm.trans he
    split
    · rename_i e he; cases r.isNormal.notID.symm.trans he
    · rw [distWithName, dif_neg (Nat.not_lt.mpr r.isNormal.size),
        dif_pos (Regexp.matchString_iff.mpr (accepts_anchoredNameRegexp.mpr r.isNormal.accepts))]

namespace Suffix

/-- The tag, or the empty string. -/
def tagText : Suffix → String
  | tag t => t
  | _ => ""

/-- The digest, or the empty string. -/
def digestText : Suffix → String
  | digest d => d
  | _ => ""

theorem tag_ne {t : String} (h : (tag t).Valid) : t ≠ "" := by
  rintro rfl
  exact Regexp.ne_nil_of_accepts (by decide) (Regexp.matchString_iff.mp h) rfl

theorem digest_ne {d : String} (h : (digest d).Valid) : d ≠ "" := by
  rintro rfl
  exact Regexp.ne_nil_of_accepts (by decide) (Regexp.matchString_iff.mp h) rfl

theorem eq_of_text {x y : Suffix} (hx : x.Valid) (hy : y.Valid) (ht : x.tagText = y.tagText)
    (hd : x.digestText = y.digestText) : x = y := by
  cases x with
  | nameOnly =>
    cases y with
    | nameOnly => rfl
    | tag t => exact absurd ht.symm (tag_ne hy)
    | digest d => exact absurd hd.symm (digest_ne hy)
  | tag t =>
    cases y with
    | nameOnly => exact absurd ht (tag_ne hx)
    | tag t' => exact congrArg tag ht
    | digest d => exact absurd ht (tag_ne hx)
  | digest d =>
    cases y with
    | nameOnly => exact absurd hd (digest_ne hx)
    | tag t => exact absurd hd (digest_ne hx)
    | digest d' => exact congrArg digest hd

end Suffix

/-- The string of a reference is the text of its parts. -/
theorem Named.isText (r : Named) : IsText r.string r.name r.suffix.tagText r.suffix.digestText := by
  obtain ⟨name, suffix, hname, hvalid⟩ := r
  cases suffix with
  | nameOnly =>
    refine ⟨?_, hname.toIsName, fun h => absurd rfl h, fun h => absurd rfl h⟩
    simp [string, text, part, Suffix.tagText, Suffix.digestText, Regexp.marked]
  | tag t =>
    refine ⟨?_, hname.toIsName, fun _ => Regexp.matchString_iff.mp hvalid, fun h => absurd rfl h⟩
    simp only [string, text, Suffix.tagText, Suffix.digestText, String.toList_append]
    simp [part, Suffix.tag_ne hvalid, Regexp.marked]
  | digest d =>
    refine ⟨?_, hname.toIsName, fun h => absurd rfl h, fun _ => Regexp.matchString_iff.mp hvalid⟩
    simp only [string, text, Suffix.tagText, Suffix.digestText, String.toList_append]
    simp [part, Suffix.digest_ne hvalid, Regexp.marked]

/-- A string is that of one reference. -/
theorem Named.string_inj {r r' : Named} (h : r.string = r'.string) : r = r' := by
  obtain ⟨hn, ht, hd⟩ := r.isText.unique (h ▸ r'.isText)
  have hs : r.suffix = r'.suffix := Suffix.eq_of_text r.valid r'.valid ht hd
  cases r; cases r'; cases hn; cases hs
  rfl

theorem parseNamed_ok {s : String} {r : Named} (h : parseNamed s = .ok r) : ∃ named,
    distParseNamed s = .ok named ∧ normalize named.name = .ok r.name ∧
    ∀ d, r.digest? = some d → validate d = .ok () := by
  unfold parseNamed at h
  cases hp : distParseNamed s with
  | error e => simp only [hp] at h; cases h
  | ok named =>
    simp only [hp] at h
    refine ⟨named, rfl, ?_⟩
    obtain ⟨tag, digest, -, hvalid, hd, ht⟩ := distParseNamed_ok hp
    cases hw : withName named.name with
    | error e => simp only [hw] at h; cases h
    | ok r₀ =>
      obtain ⟨hname, hsuffix⟩ := withName_ok hw
      simp only [hw, hd, ht] at h
      split at h
      · rename_i d _ he
        unfold Named.withDigest at h
        split at h <;> cases h
        split at he <;> cases he
        exact ⟨hname, fun d' hd' => by cases hd'; exact hvalid ‹_›⟩
      · unfold Named.withTag at h
        split at h <;> cases h
        exact ⟨hname, nofun⟩
      · cases h
        exact ⟨hname, fun d hd' => by simp [Named.digest?, hsuffix] at hd'⟩

/-- The references whose string is read back. -/
theorem parseNamed_string_iff {r : Named} : parseNamed r.string = .ok r ↔
    normalize r.name = .ok r.name ∧ ∀ d, r.digest? = some d → validate d = .ok () := by
  constructor
  · intro h
    obtain ⟨named, hp, hn, hd⟩ := parseNamed_ok h
    obtain ⟨tag, digest, ht, -⟩ := distParseNamed_ok hp
    rw [(ht.unique r.isText).1] at hn
    exact ⟨hn, hd⟩
  · rintro ⟨hn, hd⟩
    obtain ⟨name, suffix, hname, hok⟩ := r
    cases suffix with
    | nameOnly =>
      obtain ⟨named, hp, rfl, hdigest, htag⟩ := Named.isText ⟨name, .nameOnly, hname, hok⟩ |>.distParseNamed
        fun h => absurd rfl h
      replace hdigest : named.digest? = none := hdigest
      replace htag : named.tag? = none := htag
      simp only [parseNamed, hp, withName_of_normalize hn, hdigest, htag]
    | tag t =>
      obtain ⟨named, hp, rfl, hdigest, htag⟩ := Named.isText ⟨name, .tag t, hname, hok⟩ |>.distParseNamed
        fun h => absurd rfl h
      replace hdigest : named.digest? = none := hdigest
      replace htag : named.tag? = some t := htag.trans (if_neg (Suffix.tag_ne hok))
      simp only [parseNamed, hp, withName_of_normalize hn, hdigest, htag]
      exact dif_pos hok
    | digest d =>
      obtain ⟨named, hp, rfl, hdigest, htag⟩ := Named.isText ⟨name, .digest d, hname, hok⟩ |>.distParseNamed
        fun _ => hd d rfl
      replace hdigest : named.digest? = some d := hdigest.trans (if_neg (Suffix.digest_ne hok))
      simp only [parseNamed, hp, withName_of_normalize hn, hdigest]
      exact dif_pos hok

/-- A reference that is read from `s`: its string is read back, as a reference
with the same name, host and path, and it denotes what the name of `s` does. -/
structure Denotes (s : String) (r : Named) : Prop where
  reads : ∃ r', parseNamed r.string = .ok r' ∧ r'.string = r.string ∧ r'.name = r.name ∧
    r'.fullName = r.fullName ∧ r'.hostname = r.hostname ∧ r'.remoteName = r.remoteName
  denotes : ∀ named, distParseNamed s = .ok named → (r.hostname, r.remoteName) = splitHostname named.name

/-- What `ParseNamed` accepts denotes what the name did, and is read back, if
`Keeps` holds of the name, and otherwise not. -/
theorem parseNamed_denotes_iff {s : String} {r : Named} (h : parseNamed s = .ok r) :
    Denotes s r ↔ ∀ named, distParseNamed s = .ok named → Keeps named.name := by
  obtain ⟨named, hp, hn, hd⟩ := parseNamed_ok h
  constructor
  · rintro ⟨-, hdenotes⟩ _ hp'
    cases hp.symm.trans hp'
    exact (splitHostname_normalize_iff hn).mp (hdenotes named hp)
  · intro hk
    have hk := hk named hp
    refine ⟨⟨r, parseNamed_string_iff.mpr ⟨normalize_of_keeps hn hk, hd⟩, rfl, rfl, rfl, rfl, rfl⟩, fun _ hp' => ?_⟩
    cases hp.symm.trans hp'
    exact (splitHostname_normalize_iff hn).mpr hk

theorem exists_ok_of_any {ε α : Type} {x : Except ε α} {p : α → Bool} (h : x.toOption.any p = true) :
    ∃ a, x = .ok a ∧ p a = true := by
  cases x with
  | error e => cases h
  | ok a => exact ⟨a, rfl, h⟩

/-- An official image, with the default host. -/
theorem parseNamed_denotes_official : ∃ r, parseNamed "docker.io/library/a:1" = .ok r ∧ r.string = "a:1" ∧
    Denotes "docker.io/library/a:1" r := by
  obtain ⟨r, hr, hs⟩ : ∃ r, parseNamed "docker.io/library/a:1" = .ok r ∧ decide (r.string = "a:1") = true :=
    exists_ok_of_any (by decide +kernel)
  refine ⟨r, hr, of_decide_eq_true hs, (parseNamed_denotes_iff hr).mpr fun named hp => ?_⟩
  have hnamed : distParseNamed "docker.io/library/a:1" = .ok (.tagged "docker.io/library/a" "1") := by
    decide +kernel
  cases hnamed.symm.trans hp
  intro _ a b hc
  have hcut : cut '/' (splitHostname "docker.io/library/a").2 = some ("library", "a") := by decide +kernel
  cases hcut.symm.trans hc
  decide

/-- `library/library/a` is read as `library/a`, and that as `a`. -/
theorem parseNamed_library_library : ∃ r r', parseNamed "library/library/a" = .ok r ∧
    parseNamed r.string = .ok r' ∧ r'.string ≠ r.string ∧
    (r.hostname, r.remoteName) ≠ splitHostname "library/library/a" := by
  obtain ⟨r, hr, h⟩ : ∃ r, parseNamed "library/library/a" = .ok r ∧
      ((parseNamed r.string).toOption.any fun r' => r'.string ≠ r.string ∧
        (r.hostname, r.remoteName) ≠ splitHostname "library/library/a") = true :=
    exists_ok_of_any (by decide +kernel)
  obtain ⟨r', hr', h⟩ := exists_ok_of_any h
  exact ⟨r, r', hr, hr', of_decide_eq_true h⟩

/-- A path under the default host is taken for another host. -/
example : ((parseNamed "docker.io/localhost/a").toOption.any fun r =>
    (r.hostname, r.remoteName) = ("localhost", "a")) = true := by decide +kernel

end Moby.Reference
