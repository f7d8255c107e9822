import Moby.Framework.Text
import Moby.Framework.GoString
import Moby.Framework.Marker
import Mathlib.Data.List.Nodup

/-!
# The checksum of one file (pkg/tarsum/tarsum.go, versioning.go)

`encodeHeader` writes the names and values of the selected header fields one
after the other, with nothing between them, and the contents follow. A name that
goes on with `mode` reads as a shorter name and the next field, so different
files may give the same bytes (`checksum_collides`). The bytes give the fields and
the contents but for two files where a string goes on with the next field's name
and the bytes behind it are the same, and two that differ only in what stands
behind the last name (`checksum_determines`).
-/

namespace Moby.Tarsum

open Moby.Framework

/-- Numbers as `strconv.FormatInt` writes them, in base 10. -/
def format (n : Int64) : GoString := (formatInt n).toList.map fun c => c.toNat.toUInt8

/-- The ASCII bytes of a name in the source. -/
def ascii (s : String) : GoString := s.toList.map fun c => c.toNat.toUInt8

/-- A `map[string]string`, by its entries in the order of the keys. -/
structure Xattrs where
  entries : List (GoString × GoString)
  sorted : (entries.map Prod.fst).Pairwise (· < ·)
  deriving DecidableEq

def Xattrs.empty : Xattrs := ⟨[], .nil⟩

/-- `m[k]`, empty if there is no such entry. -/
def Xattrs.get (m : Xattrs) (k : GoString) : GoString := ((m.entries.find? (·.1 = k)).map Prod.snd).getD []

/-- What TarSum reads of a `tar.Header`; `modTime` are the seconds of
`ModTime.UTC().Unix()`. -/
structure Header where
  name : GoString
  mode : Int64
  uid : Int64
  gid : Int64
  size : Int64
  modTime : Int64
  typeflag : UInt8
  linkname : GoString
  uname : GoString
  gname : GoString
  devmajor : Int64
  devminor : Int64
  xattrs : Xattrs
  deriving DecidableEq

inductive Version
  | version0 | version1 | versionDev
  deriving DecidableEq

def v0TarHeaderSelect (h : Header) : List (GoString × GoString) :=
  [(ascii "name", h.name),
    (ascii "mode", format h.mode),
    (ascii "uid", format h.uid),
    (ascii "gid", format h.gid),
    (ascii "size", format h.size),
    (ascii "mtime", format h.modTime),
    (ascii "typeflag", [h.typeflag]),
    (ascii "linkname", h.linkname),
    (ascii "uname", h.uname),
    (ascii "gname", h.gname),
    (ascii "devmajor", format h.devmajor),
    (ascii "devminor", format h.devminor)]

/-- `xAttrKeys`: made with as many empty strings as there are attributes, to which
the keys are appended; `sort.Strings` sorts them. -/
def xAttrKeys (m : Xattrs) : List GoString :=
  (List.replicate m.entries.length [] ++ m.entries.map Prod.fst).mergeSort fun a b => decide (a ≤ b)

def v1TarHeaderSelect (h : Header) : List (GoString × GoString) :=
  (v0TarHeaderSelect h).take 5 ++ (v0TarHeaderSelect h).drop 6 ++ (xAttrKeys h.xattrs).map fun k => (k, h.xattrs.get k)

def selectHeaders : Version → Header → List (GoString × GoString)
  | .version0 => v0TarHeaderSelect
  | .version1 => v1TarHeaderSelect
  | .versionDev => v1TarHeaderSelect

/-- What `encodeHeader` writes to the hash. -/
def encodeHeader (v : Version) (h : Header) : List UInt8 := (selectHeaders v h).flatMap fun e => e.1 ++ e.2

def hexDigit (n : ℕ) : UInt8 := if n < 10 then (48 + n).toUInt8 else (87 + n).toUInt8

/-- `hex.EncodeToString`. -/
def encodeToString (b : List UInt8) : GoString := b.flatMap fun x => [hexDigit (x.toNat / 16), hexDigit (x.toNat % 16)]

/-- How much content the tar reader gives for a header: none for links, devices,
directories and fifos. -/
def Header.payload (h : Header) : ℕ := if 49 ≤ h.typeflag.toNat ∧ h.typeflag.toNat ≤ 54 then 0 else h.size.toInt.toNat

/-- An entry of an archive: a header and as much content as it says. -/
structure Entry where
  header : Header
  content : List UInt8
  fits : content.length = header.payload

/-- The checksum of a file, for a hash function. -/
def fileSum (H : List UInt8 → List UInt8) (v : Version) (e : Entry) : GoString :=
  encodeToString (H (encodeHeader v e.header ++ e.content))

/-! ## The numbers -/

theorem char_formatInt {n : Int64} {c : Char} (h : c ∈ (formatInt n).toList) : c = '-' ∨ c.isDigit = true := by
  rw [formatInt] at h
  cases hn : n.toInt with
  | ofNat k =>
    rw [hn, Int.repr, Nat.toList_repr] at h
    exact .inr (Nat.isDigit_of_mem_toDigits (by decide) (by decide) h)
  | negSucc k =>
    rw [hn, Int.repr, String.toList_append, Nat.toList_repr] at h
    rcases List.mem_append.mp h with h | h
    · exact .inl (List.mem_singleton.mp h)
    · exact .inr (Nat.isDigit_of_mem_toDigits (by decide) (by decide) h)

theorem toNat_formatInt {n : Int64} {c : Char} (h : c ∈ (formatInt n).toList) :
    c.toNat = 45 ∨ 48 ≤ c.toNat ∧ c.toNat ≤ 57 := by
  rcases char_formatInt h with rfl | hd
  · exact .inl rfl
  · rw [Char.isDigit, Bool.and_eq_true, decide_eq_true_eq, decide_eq_true_eq] at hd
    exact .inr hd

theorem format_injective {n n' : Int64} (h : format n = format n') : n = n' := by
  have hback : ∀ m, (format m).map (fun b => Char.ofNat b.toNat) = (formatInt m).toList := by
    intro m
    rw [format, List.map_map]
    refine (List.map_congr_left fun c hc => ?_).trans (List.map_id _)
    have hn := toNat_formatInt hc
    show Char.ofNat (c.toNat.toUInt8).toNat = c
    rw [UInt8.toNat_ofNat', Nat.mod_eq_of_lt (by omega), Char.ofNat_toNat]
  have hlist : (formatInt n).toList = (formatInt n').toList := by rw [← hback n, ← hback n', h]
  have hstr : formatInt n = formatInt n' := String.toList_injective hlist
  have hp := parseInt_formatInt n
  rw [hstr, parseInt_formatInt] at hp
  exact (Option.some.inj hp).symm

/-! ## The hexadecimal checksum -/

theorem hexDigit_injective : ∀ n < 16, ∀ m < 16, hexDigit n = hexDigit m → n = m := by decide

theorem encodeToString_injective {b b' : List UInt8} (h : encodeToString b = encodeToString b') : b = b' := by
  induction b generalizing b' with
  | nil =>
    cases b' with
    | nil => rfl
    | cons y b' => cases h
  | cons x b ih =>
    cases b' with
    | nil => cases h
    | cons y b' =>
      simp only [encodeToString, List.flatMap_cons, List.cons_append, List.nil_append, List.cons.injEq] at h
      have hx := x.toNat_lt
      have hy := y.toNat_lt
      have h₁ := hexDigit_injective _ (by omega) _ (by omega) h.1
      have h₂ := hexDigit_injective _ (by omega) _ (by omega) h.2.1
      have hxy : x = y := UInt8.toNat_inj.mp (by omega)
      rw [hxy, ih h.2.2]

/-! ## The extended attributes -/

theorem Xattrs.keys_nodup (m : Xattrs) : (m.entries.map Prod.fst).Nodup := by
  refine List.Pairwise.imp (fun {k k'} hlt hk => ?_) m.sorted
  rw [hk] at hlt
  exact List.lt_irrefl _ hlt

theorem Xattrs.get_of_mem {m : Xattrs} {e : GoString × GoString} (h : e ∈ m.entries) : m.get e.1 = e.2 := by
  rw [get]
  cases hf : m.entries.find? (·.1 = e.1) with
  | none => exact absurd (List.find?_eq_none.mp hf e h) (by simp)
  | some x =>
    have hx : x.1 = e.1 := by simpa using List.find?_some hf
    rw [List.inj_on_of_nodup_map m.keys_nodup (List.mem_of_find?_eq_some hf) h hx]
    rfl

/-- The empty strings stay at the front. -/
theorem xAttrKeys_eq (m : Xattrs) : xAttrKeys m = List.replicate m.entries.length [] ++ m.entries.map Prod.fst := by
  refine List.mergeSort_of_pairwise ?_
  rw [List.pairwise_append]
  refine ⟨List.pairwise_replicate.mpr (.inr (by decide)), ?_, ?_⟩
  · exact m.sorted.imp fun h => decide_eq_true (List.le_of_lt h)
  · intro a ha b _
    rw [List.eq_of_mem_replicate ha]
    exact decide_eq_true (List.nil_le b)

/-- What the extended attributes add to the hash. -/
def Xattrs.bytes (m : Xattrs) : List UInt8 :=
  (List.replicate m.entries.length (m.get [])).flatten ++ m.entries.flatMap fun e => e.1 ++ e.2

theorem flatMap_xAttrKeys (m : Xattrs) :
    ((xAttrKeys m).map fun k => (k, m.get k)).flatMap (fun e => e.1 ++ e.2) = m.bytes := by
  have hentries : (m.entries.map Prod.fst).flatMap (fun k => k ++ m.get k) = m.entries.flatMap fun e => e.1 ++ e.2 := by
    rw [List.flatMap_map, List.flatMap_def, List.flatMap_def]
    congr 1
    exact List.map_congr_left fun e he => by rw [Xattrs.get_of_mem he]
  rw [xAttrKeys_eq, List.flatMap_map, List.flatMap_append, hentries, Xattrs.bytes, List.flatMap_replicate,
    List.nil_append]

/-! ## The fields -/

/-- What both selectors cover. -/
@[mk_iff]
structure Header.Agree (h h' : Header) : Prop where
  name : h.name = h'.name
  mode : h.mode = h'.mode
  uid : h.uid = h'.uid
  gid : h.gid = h'.gid
  size : h.size = h'.size
  typeflag : h.typeflag = h'.typeflag
  linkname : h.linkname = h'.linkname
  uname : h.uname = h'.uname
  gname : h.gname = h'.gname
  devmajor : h.devmajor = h'.devmajor
  devminor : h.devminor = h'.devminor

/-- The headers agree on what the version's selector covers. -/
def Covered : Version → Header → Header → Prop
  | .version0, h, h' => h.Agree h' ∧ h.modTime = h'.modTime
  | .version1, h, h' => h.Agree h' ∧ h.xattrs.entries = h'.xattrs.entries
  | .versionDev, h, h' => h.Agree h' ∧ h.xattrs.entries = h'.xattrs.entries

/-- The fields of two headers side by side, but for the last one, each with the name of the next field. -/
def fields (v : Version) (h h' : Header) : List (Framework.Field UInt8) :=
  [⟨h.name, h'.name, ascii "mode"⟩,
    ⟨format h.mode, format h'.mode, ascii "uid"⟩,
    ⟨format h.uid, format h'.uid, ascii "gid"⟩,
    ⟨format h.gid, format h'.gid, ascii "size"⟩] ++
  (if v = .version0 then
    [⟨format h.size, format h'.size, ascii "mtime"⟩, ⟨format h.modTime, format h'.modTime, ascii "typeflag"⟩]
  else [⟨format h.size, format h'.size, ascii "typeflag"⟩]) ++
  [⟨[h.typeflag], [h'.typeflag], ascii "linkname"⟩,
    ⟨h.linkname, h'.linkname, ascii "uname"⟩,
    ⟨h.uname, h'.uname, ascii "gname"⟩,
    ⟨h.gname, h'.gname, ascii "devmajor"⟩,
    ⟨format h.devmajor, format h'.devmajor, ascii "devminor"⟩]

/-- What stands behind the last name: the last number and the extended attributes. -/
def tail (v : Version) (h : Header) : List UInt8 :=
  format h.devminor ++ if v = .version0 then [] else h.xattrs.bytes

/-- Two files with the same contents that differ only in what stands behind the last name, in the same bytes. -/
def Blurred (v : Version) (e e' : Entry) : Prop :=
  (∀ f ∈ fields v e.header e'.header, f.left = f.right) ∧ tail v e.header = tail v e'.header ∧ e.content = e'.content ∧
    ¬ (e.header.devminor = e'.header.devminor ∧
      (v ≠ .version0 → e.header.xattrs.entries = e'.header.xattrs.entries))

theorem encodeHeader_eq (v : Version) (h h' : Header) :
    encodeHeader v h = ascii "name" ++ (lefts (fields v h h') ++ tail v h) ∧
    encodeHeader v h' = ascii "name" ++ (rights (fields v h h') ++ tail v h') := by
  cases v <;>
    simp [encodeHeader, selectHeaders, v1TarHeaderSelect, flatMap_xAttrKeys, v0TarHeaderSelect, lefts, rights, fields, tail]

/-- The names that stand behind a field. -/
def names : List String :=
  ["mode", "uid", "gid", "size", "mtime", "typeflag", "linkname", "uname", "gname", "devmajor", "devminor"]

theorem key_of_mem_fields {v : Version} {h h' : Header} {f : Framework.Field UInt8} (hf : f ∈ fields v h h') :
    Unbordered f.key ∧ f.key ≠ [] := by
  have hnames : ∀ k ∈ names, Unbordered (ascii k) ∧ ascii k ≠ [] := by decide
  have hkeys : (fields v h h').map Field.key = (if v = .version0 then names else names.erase "mtime").map ascii := by
    cases v <;> rfl
  obtain ⟨k, hk, hkey⟩ := List.mem_map.mp (hkeys ▸ List.mem_map_of_mem hf : f.key ∈ _)
  rw [← hkey]
  refine hnames k ?_
  split_ifs at hk
  · exact hk
  · exact List.mem_of_mem_erase hk

theorem format_inj {n n' : Int64} : format n = format n' ↔ n = n' := ⟨format_injective, fun h => h ▸ rfl⟩

theorem covered_iff {v : Version} {h h' : Header} : Covered v h h' ↔ (∀ f ∈ fields v h h', f.left = f.right) ∧
    h.devminor = h'.devminor ∧ (v ≠ .version0 → h.xattrs.entries = h'.xattrs.entries) := by
  constructor
  · intro hc
    cases v <;> obtain ⟨hagree, hlast⟩ := hc <;> rw [Header.agree_iff] at hagree <;> simp [fields, hagree, hlast]
  · rintro ⟨hall, hminor, hxattrs⟩
    cases v <;> simp [fields, format_inj] at hall hxattrs <;> simp [Covered, Header.agree_iff, hall, hminor, hxattrs]

theorem Entry.length_content {e e' : Entry} (hs : e.header.size = e'.header.size)
    (ht : e.header.typeflag = e'.header.typeflag) : e.content.length = e'.content.length := by
  rw [e.fits, e'.fits, Header.payload, Header.payload, hs, ht]

/-- The bytes that are hashed are the same just for files that agree and for those that are told above. -/
theorem bytes_eq_iff {v : Version} {e e' : Entry} :
    encodeHeader v e.header ++ e.content = encodeHeader v e'.header ++ e'.content ↔
      ((∀ f ∈ fields v e.header e'.header, f.left = f.right) ∧
        tail v e.header = tail v e'.header ∧ e.content = e'.content) ∨
      Shifted (tail v e.header ++ e.content) (tail v e'.header ++ e'.content) (fields v e.header e'.header) := by
  obtain ⟨hleft, hright⟩ := encodeHeader_eq v e.header e'.header
  rw [hleft, hright]
  simp only [List.append_assoc, List.append_cancel_left_eq]
  rw [written_eq_iff fun f hf => (key_of_mem_fields hf).1]
  refine or_congr_left (and_congr_right fun hall => ⟨fun h => ?_, fun h => by rw [h.1, h.2]⟩)
  refine List.append_inj' h (Entry.length_content ?_ ?_)
  · cases v <;> simp [fields, format_inj] at hall <;> simp [hall]
  · cases v <;> simp [fields, format_inj] at hall <;> simp [hall]

/-! ## The checksum -/

/-- If the hash has no collisions, two files that have the same checksum are the same, as far as the version looks at
them, exactly if they are neither shifted nor blurred. -/
theorem checksum_determines {H : List UInt8 → List UInt8} (hH : H.Injective) (v : Version) (e e' : Entry) :
    (fileSum H v e = fileSum H v e' → Covered v e.header e'.header ∧ e.content = e'.content) ↔
      ¬ Shifted (tail v e.header ++ e.content) (tail v e'.header ++ e'.content) (fields v e.header e'.header) ∧
      ¬ Blurred v e e' := by
  have hsum : fileSum H v e = fileSum H v e' ↔
      encodeHeader v e.header ++ e.content = encodeHeader v e'.header ++ e'.content :=
    ⟨fun h => hH (encodeToString_injective h), fun h => by rw [fileSum, h, fileSum]⟩
  rw [hsum, bytes_eq_iff]
  constructor
  · intro h
    refine ⟨fun hshift => ?_, fun ⟨hall, htail, hcontent, hnot⟩ => hnot ?_⟩
    · obtain ⟨f, hf, hne⟩ := hshift.exists_ne fun f hf => (key_of_mem_fields hf).2
      exact hne ((covered_iff.mp (h (.inr hshift)).1).1 f hf)
    · exact (covered_iff.mp (h (.inl ⟨hall, htail, hcontent⟩)).1).2
  · rintro ⟨hshift, hblurred⟩ (⟨hall, htail, hcontent⟩ | h)
    · refine ⟨covered_iff.mpr ⟨hall, ?_⟩, hcontent⟩
      exact by_contra fun hnot => hblurred ⟨hall, htail, hcontent, hnot⟩
    · exact absurd h hshift

/-- A small file with the given owner, time and extended attributes. -/
def file (uname gname : String) (modTime : Int64) (xattrs : Xattrs) : Entry where
  header :=
    { name := ascii "a", mode := 420, uid := 0, gid := 0, size := 1, modTime := modTime, typeflag := 48, linkname := [],
      uname := ascii uname, gname := ascii gname, devmajor := 0, devminor := 0, xattrs := xattrs }
  content := [120]
  fits := rfl

def oneXattr (key value : String) : Xattrs := ⟨[(ascii key, ascii value)], List.pairwise_singleton _ _⟩

/-- Files of two times have the same checksum, as they should, and files with the attributes a=b and c=d have not. -/
theorem checksum_determines_files :
    (file "u" "g" 0 .empty).header ≠ (file "u" "g" 1 .empty).header ∧
    Covered .version1 (file "u" "g" 0 .empty).header (file "u" "g" 1 .empty).header ∧
    fileSum id .version1 (file "u" "g" 0 (oneXattr "a" "b")) ≠ fileSum id .version1 (file "u" "g" 0 (oneXattr "c" "d")) := by
  refine ⟨by decide, ?_, fun h => ?_⟩
  · exact ((checksum_determines Function.injective_id .version1 (file "u" "g" 0 .empty) (file "u" "g" 1 .empty)).mpr
      ⟨by decide +kernel, by unfold Blurred; decide +kernel⟩ rfl).1
  · have hcov := ((checksum_determines Function.injective_id .version1 _ _).mpr
      ⟨by decide +kernel, by unfold Blurred; decide +kernel⟩ h).1.2
    revert hcov
    decide

/-- The user `gname` in the group `x`, and no user in the group `gnamex`: the bytes that
are hashed are the same. -/
theorem checksum_collides :
    fileSum id .version1 (file "gname" "x" 0 .empty) = fileSum id .version1 (file "" "gnamex" 0 .empty) ∧
      ¬ Covered .version1 (file "gname" "x" 0 .empty).header (file "" "gnamex" 0 .empty).header := by
  have hname : (file "gname" "x" 0 .empty).header.uname ≠ (file "" "gnamex" 0 .empty).header.uname := by decide
  exact ⟨rfl, fun hcov => hname hcov.1.uname⟩

end Moby.Tarsum
