import Moby.Digest
import Moby.Framework.Regexp

/-!
# The grammar of references

The vendored package `distribution/reference`: a reference is a name, a tag
and a digest, the last two of which may be missing. Its expressions are built
as there, and `parse` reads a text with them.
-/

namespace Moby.Reference

open Moby.Framework Moby.Digest Regexp

/-! ## Expressions -/

/-- `[a-z0-9]`. -/
def isLowerAlphaNumeric (c : Char) : Bool := ('a' ≤ c && c ≤ 'z') || ('0' ≤ c && c ≤ '9')

/-- `[a-zA-Z0-9]`. -/
def isAlphaNumeric (c : Char) : Bool := isLowerAlphaNumeric c || ('A' ≤ c && c ≤ 'Z')

/-- `[A-Za-z]`. -/
def isLetter (c : Char) : Bool := ('A' ≤ c && c ≤ 'Z') || ('a' ≤ c && c ≤ 'z')

/-- `\w`. -/
def isWord (c : Char) : Bool := isAlphaNumeric c || c = '_'

def alphaNumericRegexp : Regexp := plus (one isLowerAlphaNumeric)

/-- `(?:[._]|__|[-]*)`. -/
def separatorRegexp : Regexp :=
  alt (one fun c => c = '.' || c = '_') (alt (seq (char '_') (char '_')) (star (char '-')))

def nameComponentRegexp : Regexp :=
  seq alphaNumericRegexp (opt (plus (seq separatorRegexp alphaNumericRegexp)))

/-- `(?:[a-zA-Z0-9]|[a-zA-Z0-9][a-zA-Z0-9-]*[a-zA-Z0-9])`. -/
def hostnameComponentRegexp : Regexp :=
  alt (one isAlphaNumeric)
    (seq (one isAlphaNumeric) (seq (star (one fun c => isAlphaNumeric c || c = '-')) (one isAlphaNumeric)))

def hostnameRegexp : Regexp :=
  seq hostnameComponentRegexp (seq (opt (plus (seq (char '.') hostnameComponentRegexp)))
    (opt (seq (char ':') (plus (one Char.isDigit)))))

/-- `[\w][\w.-]{0,127}`. -/
def tagRegexp : Regexp := seq (one isWord) (upTo (one fun c => isWord c || c = '.' || c = '-') 127)

/-- `[A-Za-z][A-Za-z0-9]*`. -/
def digestComponentRegexp : Regexp := seq (one isLetter) (star (one isAlphaNumeric))

/-- `[A-Za-z][A-Za-z0-9]*(?:[-_+.][A-Za-z][A-Za-z0-9]*)*[:][[:xdigit:]]{32,}`. -/
def digestRegexp : Regexp :=
  seq digestComponentRegexp
    (seq (star (seq (one fun c => c = '-' || c = '_' || c = '+' || c = '.') digestComponentRegexp))
      (seq (char ':') (seq (times (one isHex) 32) (star (one isHex)))))

/-- The components of a name without its hostname. -/
def pathRegexp : Regexp := seq nameComponentRegexp (opt (plus (seq (char '/') nameComponentRegexp)))

def nameRegexp : Regexp := seq (opt (seq hostnameRegexp (char '/'))) pathRegexp

def anchoredNameRegexp : Regexp := seq (opt (seq (group 1 hostnameRegexp) (char '/'))) (group 2 pathRegexp)

def referenceRegexp : Regexp :=
  seq (group 1 nameRegexp) (seq (opt (seq (char ':') (group 2 tagRegexp)))
    (opt (seq (char '@') (group 3 digestRegexp))))

/-! ## Parsing -/

/-- `NameTotalLengthMax`. -/
def nameTotalLengthMax : Nat := 255

inductive DistErr where
  | referenceInvalidFormat
  | tagInvalidFormat
  | digestInvalidFormat
  | nameEmpty
  | nameTooLong
  | hasNoName
  | digest (e : Digest.Err)
  deriving DecidableEq

/-- The types of references: `repository`, `taggedReference`,
`canonicalReference`, `reference` and `digestReference`. -/
inductive DistRef where
  | repository (name : String)
  | tagged (name tag : String)
  | canonical (name digest : String)
  | reference (name tag digest : String)
  | digest (digest : String)
  deriving DecidableEq

/-- `getBestReferenceType`. -/
def getBestReferenceType (name tag digest : String) : Option DistRef :=
  if name = "" then
    if digest ≠ "" then some (.digest digest) else none
  else if tag = "" then
    if digest ≠ "" then some (.canonical name digest) else some (.repository name)
  else if digest = "" then some (.tagged name tag)
  else some (.reference name tag digest)

/-- `Parse`. -/
def parse (s : String) : Except DistErr DistRef :=
  match referenceRegexp.findSubmatch s with
  | none => if s = "" then .error .nameEmpty else .error .referenceInvalidFormat
  | some m =>
    if (submatch m 1).utf8ByteSize > nameTotalLengthMax then .error .nameTooLong
    else
      match (if submatch m 3 = "" then .ok "" else parseDigest (submatch m 3)) with
      | .error e => .error (.digest e)
      | .ok digest =>
        match getBestReferenceType (submatch m 1) (submatch m 2) digest with
        | none => .error .nameEmpty
        | some r => .ok r

/-- `ParseNamed`. -/
def distParseNamed (s : String) : Except DistErr DistRef :=
  match parse s with
  | .error e => .error e
  | .ok (.digest _) => .error .hasNoName
  | .ok r => .ok r

namespace DistRef

/-- `Name`, of a reference that has one. -/
def name : DistRef → String
  | repository n => n
  | tagged n _ => n
  | canonical n _ => n
  | reference n _ _ => n
  | digest _ => ""

/-- `Digest`, if the reference is `Canonical`. -/
def digest? : DistRef → Option String
  | canonical _ d => some d
  | reference _ _ d => some d
  | _ => none

/-- `Tag`, if the reference is `NamedTagged`. -/
def tag? : DistRef → Option String
  | tagged _ t => some t
  | reference _ t _ => some t
  | _ => none

end DistRef

/-! ## Names -/

theorem accepts_anchoredNameRegexp {s : List Char} : anchoredNameRegexp.Accepts s ↔ nameRegexp.Accepts s := by
  simp only [anchoredNameRegexp, nameRegexp, accepts_seq, accepts_opt, accepts_group]

/-- A name is a path, or a hostname and a path behind a slash. -/
theorem accepts_nameRegexp {s : List Char} : nameRegexp.Accepts s ↔ pathRegexp.Accepts s ∨
    ∃ u v, s = u ++ '/' :: v ∧ hostnameRegexp.Accepts u ∧ pathRegexp.Accepts v := by
  constructor
  · intro h
    obtain ⟨u, v, rfl, hu, hv⟩ := accepts_seq.mp h
    rcases accepts_opt.mp hu with hu | rfl
    · obtain ⟨u, _, rfl, hu, hc⟩ := accepts_seq.mp hu
      rw [accepts_char.mp hc]
      exact .inr ⟨u, v, by simp, hu, hv⟩
    · exact .inl hv
  · rintro (h | ⟨u, v, rfl, hu, hv⟩)
    · exact accepts_seq.mpr ⟨[], s, rfl, accepts_opt.mpr (.inr rfl), h⟩
    · exact accepts_seq.mpr ⟨u ++ ['/'], v, by simp,
        accepts_opt.mpr (.inl (accepts_seq.mpr ⟨u, ['/'], rfl, hu, accepts_char.mpr rfl⟩)), hv⟩

/-- A colon in a name has a slash behind it. -/
theorem slash_of_colon {u v : List Char} (h : nameRegexp.Accepts (u ++ ':' :: v)) : '/' ∈ v := by
  rcases accepts_nameRegexp.mp h with h | ⟨u', v', he, -, hv'⟩
  · exact absurd (by simp) (notMem_of_excludes (c := ':') (by decide) h)
  · rcases List.append_eq_append_iff.mp he with ⟨w, -, hw⟩ | ⟨w, -, hw⟩
    · cases w with
      | nil => cases hw
      | cons c w => rw [(List.cons.inj hw).2]; simp
    · have hmem : ':' ∈ '/' :: v' := by rw [hw]; simp
      exact absurd ((List.mem_cons.mp hmem).resolve_left (by decide)) (notMem_of_excludes (by decide) hv')

theorem notMem_tag {c : Char} (hc : (isWord c || c = '.' || c = '-') = false) {u : List Char}
    (h : tagRegexp.Accepts u) : c ∉ u := by
  refine notMem_of_excludes (r := tagRegexp) (Bool.and_eq_true_iff.mpr ⟨?_, excludes_upTo ?_ 127⟩) h <;>
    simp_all [excludes]

/-! ## Texts of references -/

/-- The text of a name, a tag and a digest. -/
def text (n : List Char) (t d : Option (List Char)) : List Char := n ++ marked ':' t ++ marked '@' d

/-- What `referenceRegexp` captures of it. -/
def captures (n : List Char) (t d : Option (List Char)) : Captures :=
  (1, n) :: ((t.map (2, ·)).toList ++ (d.map (3, ·)).toList)

theorem matches_referenceRegexp {s : List Char} {x : Captures} : referenceRegexp.Matches s x ↔
    ∃ n t d, nameRegexp.Accepts n ∧ (∀ u ∈ t, tagRegexp.Accepts u) ∧ (∀ u ∈ d, digestRegexp.Accepts u) ∧
      s = text n t d ∧ x = captures n t d := by
  have hname : nameRegexp.noGroup = true := by decide
  have htag : tagRegexp.noGroup = true := Bool.and_eq_true_iff.mpr ⟨rfl, noGroup_upTo rfl 127⟩
  have hdigest : digestRegexp.noGroup = true := by decide
  constructor
  · rintro ⟨n, _, _, _, rfl, rfl, h₁, _, _, _, _, rfl, rfl, h₂, h₃⟩
    obtain ⟨hn, rfl⟩ := (matches_group hname).mp h₁
    obtain ⟨t, ht, rfl, rfl⟩ := (matches_marked htag).mp h₂
    obtain ⟨d, hd, rfl, rfl⟩ := (matches_marked hdigest).mp h₃
    exact ⟨n, t, d, hn, ht, hd, (List.append_assoc ..).symm, rfl⟩
  · rintro ⟨n, t, d, hn, ht, hd, rfl, rfl⟩
    exact ⟨n, _, [(1, n)], _, List.append_assoc .., rfl, (matches_group hname).mpr ⟨hn, rfl⟩, _, _, _, _, rfl,
      rfl, (matches_marked htag).mpr ⟨t, ht, rfl, rfl⟩, (matches_marked hdigest).mpr ⟨d, hd, rfl, rfl⟩⟩

theorem at_notMem {n : List Char} {t : Option (List Char)} (hn : nameRegexp.Accepts n)
    (ht : ∀ u ∈ t, tagRegexp.Accepts u) : '@' ∉ n ++ marked ':' t := by
  rw [List.mem_append, not_or]
  refine ⟨notMem_of_excludes (by decide) hn, ?_⟩
  cases t with
  | none => exact List.not_mem_nil
  | some u => exact fun h => notMem_tag (by decide) (ht u rfl) ((List.mem_cons.mp h).resolve_left (by decide))

/-- A text has one name, one tag and one digest. -/
theorem text_inj {n n' : List Char} {t t' d d' : Option (List Char)} (hn : nameRegexp.Accepts n)
    (hn' : nameRegexp.Accepts n') (ht : ∀ u ∈ t, tagRegexp.Accepts u) (ht' : ∀ u ∈ t', tagRegexp.Accepts u)
    (h : text n t d = text n' t' d') : n = n' ∧ t = t' ∧ d = d' := by
  obtain ⟨hnt, rfl⟩ := marked_inj (at_notMem hn ht) (at_notMem hn' ht') h
  cases t with
  | none =>
    cases t' with
    | none => exact ⟨by simpa [marked] using hnt, rfl, rfl⟩
    | some u =>
      have he : n = n' ++ ':' :: u := by simpa [marked] using hnt
      exact absurd (slash_of_colon (he ▸ hn)) (notMem_tag (by decide) (ht' u rfl))
  | some u =>
    cases t' with
    | none =>
      have he : n' = n ++ ':' :: u := by simpa [marked] using hnt.symm
      exact absurd (slash_of_colon (he ▸ hn')) (notMem_tag (by decide) (ht u rfl))
    | some u' =>
      obtain ⟨rfl, rfl⟩ := append_cons_inj_last (notMem_tag (by decide) (ht u rfl))
        (notMem_tag (by decide) (ht' u' rfl)) hnt
      exact ⟨rfl, rfl, rfl⟩

/-- The name, the tag and the digest of a text are found. -/
theorem findSubmatch_text {s : String} {n : List Char} {t d : Option (List Char)} (hs : s.toList = text n t d)
    (hn : nameRegexp.Accepts n) (ht : ∀ u ∈ t, tagRegexp.Accepts u) (hd : ∀ u ∈ d, digestRegexp.Accepts u) :
    referenceRegexp.findSubmatch s = some (captures n t d) := by
  refine findSubmatch_eq (matches_referenceRegexp.mpr ⟨n, t, d, hn, ht, hd, hs, rfl⟩) fun y hy => ?_
  obtain ⟨n', t', d', hn', ht', -, hs', rfl⟩ := matches_referenceRegexp.mp hy
  obtain ⟨rfl, rfl, rfl⟩ := text_inj hn hn' ht ht' (hs.symm.trans hs')
  rfl

/-- A part of a reference that is missing is the empty string. -/
def part (x : String) : Option (List Char) := if x = "" then none else some x.toList

theorem part_ofList {t : Option (List Char)} (ht : ∀ u ∈ t, u ≠ []) : part (.ofList (t.getD [])) = t := by
  cases t with
  | none => rfl
  | some u =>
    have hne : String.ofList u ≠ "" := fun h => ht u rfl (by simpa using h)
    rw [Option.getD_some, part, if_neg hne, String.toList_ofList]

theorem ofList_part (x : String) : String.ofList ((part x).getD []) = x := by
  unfold part
  split
  · rename_i h; rw [h]; rfl
  · exact String.ofList_toList

/-- A name that is not too long. -/
structure IsName (name : String) : Prop where
  size : name.utf8ByteSize ≤ nameTotalLengthMax
  accepts : nameRegexp.Accepts name.toList

/-- What `parse` reads are a name, a tag and a digest, of which the last two may
be missing. -/
structure IsText (s name tag digest : String) : Prop where
  text : s.toList = text name.toList (part tag) (part digest)
  name : IsName name
  tag : tag ≠ "" → tagRegexp.Accepts tag.toList
  digest : digest ≠ "" → digestRegexp.Accepts digest.toList

theorem mem_part {x : String} {u : List Char} : u ∈ part x ↔ x ≠ "" ∧ u = x.toList := by
  unfold part
  split <;> simp_all [eq_comm]

theorem submatch_captures (n : List Char) (t d : Option (List Char)) : submatch (captures n t d) 1 = .ofList n ∧
    submatch (captures n t d) 2 = .ofList (t.getD []) ∧ submatch (captures n t d) 3 = .ofList (d.getD []) := by
  cases t <;> cases d <;> exact ⟨rfl, rfl, rfl⟩

namespace IsText

variable {s name tag digest : String}

/-- The parts of a text are found in it. -/
theorem findSubmatch (h : IsText s name tag digest) : ∃ m, referenceRegexp.findSubmatch s = some m ∧
    submatch m 1 = name ∧ submatch m 2 = tag ∧ submatch m 3 = digest := by
  obtain ⟨h₁, h₂, h₃⟩ := submatch_captures name.toList (part tag) (part digest)
  rw [String.ofList_toList] at h₁
  rw [ofList_part] at h₂ h₃
  refine ⟨_, findSubmatch_text h.text h.name.accepts (fun u hu => ?_) fun u hu => ?_, h₁, h₂, h₃⟩
  · obtain ⟨hne, rfl⟩ := mem_part.mp hu; exact h.tag hne
  · obtain ⟨hne, rfl⟩ := mem_part.mp hu; exact h.digest hne

/-- A text has these parts only. -/
theorem unique {name' tag' digest' : String} (h : IsText s name tag digest) (h' : IsText s name' tag' digest') :
    name = name' ∧ tag = tag' ∧ digest = digest' := by
  obtain ⟨m, hm, rfl, rfl, rfl⟩ := h.findSubmatch
  obtain ⟨m', hm', rfl, rfl, rfl⟩ := h'.findSubmatch
  cases hm.symm.trans hm'
  exact ⟨rfl, rfl, rfl⟩

theorem name_ne (h : IsText s name tag digest) : name ≠ "" := by
  rintro rfl
  exact ne_nil_of_accepts (by decide) h.name.accepts rfl

end IsText

theorem checkDigest_ok {x d : String} (h : (if x = "" then .ok "" else parseDigest x) = .ok d) :
    d = x ∧ (d ≠ "" → validate d = .ok ()) := by
  split at h
  · rename_i hx; cases h; exact ⟨hx.symm, fun h => absurd rfl h⟩
  · unfold parseDigest at h
    split at h <;> cases h
    exact ⟨rfl, fun _ => ‹_›⟩

/-- What `parse` reads, and from what. -/
theorem parse_ok_iff {s : String} {r : DistRef} : parse s = .ok r ↔ ∃ name tag digest, IsText s name tag digest ∧
    (digest ≠ "" → validate digest = .ok ()) ∧ getBestReferenceType name tag digest = some r := by
  constructor
  · intro h
    unfold parse at h
    cases hm : referenceRegexp.findSubmatch s with
    | none => simp only [hm] at h; split at h <;> cases h
    | some m =>
      obtain ⟨n, t, d, hn, ht, hd, hs, rfl⟩ := matches_referenceRegexp.mp (findSubmatch_some hm)
      obtain ⟨h₁, h₂, h₃⟩ := submatch_captures n t d
      simp only [hm, h₁, h₂, h₃] at h
      split at h
      · cases h
      · rename_i hsize
        split at h
        · cases h
        · rename_i digest hdigest
          obtain ⟨rfl, hvalid⟩ := checkDigest_ok hdigest
          split at h <;> cases h
          have htag : part (.ofList (t.getD [])) = t :=
            part_ofList fun u hu => ne_nil_of_accepts (by decide) (ht u hu)
          have hdigest : part (.ofList (d.getD [])) = d :=
            part_ofList fun u hu => ne_nil_of_accepts (by decide) (hd u hu)
          refine ⟨.ofList n, .ofList (t.getD []), .ofList (d.getD []), ⟨?_, ⟨Nat.not_lt.mp hsize, ?_⟩, ?_, ?_⟩,
            hvalid, ‹_›⟩
          · rw [hs, htag, hdigest, String.toList_ofList]
          · rwa [String.toList_ofList]
          · exact fun hne => ht _ ((congrArg (_ ∈ ·) htag).mp (mem_part.mpr ⟨hne, rfl⟩))
          · exact fun hne => hd _ ((congrArg (_ ∈ ·) hdigest).mp (mem_part.mpr ⟨hne, rfl⟩))
  · rintro ⟨name, tag, digest, ht, hd, hr⟩
    obtain ⟨m, hm, h₁, h₂, h₃⟩ := ht.findSubmatch
    have hdigest : (if digest = "" then .ok "" else parseDigest digest) = .ok digest := by
      split
      · rename_i he; rw [he]
      · rename_i he; rw [parseDigest, hd he]
    simp only [parse, hm, h₁, h₂, h₃, if_neg (Nat.not_lt.mpr ht.name.size), hdigest, hr]

/-- The name, the tag and the digest of the best type. -/
theorem getBestReferenceType_some {name tag digest : String} {r : DistRef} (hname : name ≠ "")
    (h : getBestReferenceType name tag digest = some r) : r.name = name ∧
    r.digest? = (if digest = "" then none else some digest) ∧ r.tag? = (if tag = "" then none else some tag) := by
  simp only [getBestReferenceType, if_neg hname] at h
  split_ifs at h <;> cases h <;> simp_all [DistRef.name, DistRef.digest?, DistRef.tag?]

/-- `parse_ok_iff`, for the parts of a reference with a name. -/
theorem distParseNamed_ok {s : String} {r : DistRef} (h : distParseNamed s = .ok r) : ∃ tag digest,
    IsText s r.name tag digest ∧ (digest ≠ "" → validate digest = .ok ()) ∧
    r.digest? = (if digest = "" then none else some digest) ∧ r.tag? = (if tag = "" then none else some tag) := by
  have hp : parse s = .ok r := by
    unfold distParseNamed at h
    split at h <;> cases h
    assumption
  obtain ⟨name, tag, digest, ht, hd, hr⟩ := parse_ok_iff.mp hp
  obtain ⟨rfl, hdigest, htag⟩ := getBestReferenceType_some ht.name_ne hr
  exact ⟨tag, digest, ht, hd, hdigest, htag⟩

theorem IsText.distParseNamed {s name tag digest : String} (h : IsText s name tag digest)
    (hd : digest ≠ "" → validate digest = .ok ()) : ∃ r, distParseNamed s = .ok r ∧ r.name = name ∧
    r.digest? = (if digest = "" then none else some digest) ∧ r.tag? = (if tag = "" then none else some tag) := by
  obtain ⟨r, hr⟩ : ∃ r, getBestReferenceType name tag digest = some r := by
    simp only [getBestReferenceType, if_neg h.name_ne]
    split_ifs <;> exact ⟨_, rfl⟩
  have hbest := getBestReferenceType_some h.name_ne hr
  have hp : parse s = .ok r := parse_ok_iff.mpr ⟨name, tag, digest, h, hd, hr⟩
  refine ⟨r, ?_, hbest⟩
  unfold Reference.distParseNamed
  cases r with
  | digest d => exact absurd hbest.1.symm h.name_ne
  | _ => rw [hp]

end Moby.Reference
