import Mathlib.Data.List.Infix
import Mathlib.Data.List.TakeWhile
import Mathlib.Order.WellFounded

/-!
# The detach keys of an attached stream

`copyEscapable` of `container/container.go` copies a stream until it meets
the detach keys. A byte that breaks off a partial match is written with it
and not tried as the first of another one, so that the keys are found exactly
if what is before them can be cut into partial matches that were broken off
(`copyEscapable_correct_iff`).
-/

namespace Moby.Container.Escape

abbrev Bytes := List UInt8

/-- What the loop over the keys comes to: the keys, or bytes to be written and the reads that are left. -/
inductive Scan where
  | detach
  | flush (preservBuf : Bytes) (src : List Bytes)
  deriving DecidableEq

/-- The loop over the keys. `cur` is what the last `Read` returned, nothing at the end of the stream, and `src`
what the next ones will. -/
def scan : Bytes → Bytes → List Bytes → Bytes → Scan
  | [], _, src, preservBuf => .flush preservBuf src
  | key :: keys, cur, src, preservBuf =>
    let preservBuf := preservBuf ++ cur
    if cur ≠ [key] then .flush preservBuf src
    else if keys = [] then .detach
    else scan keys (src.headD []) src.tail preservBuf

theorem length_of_scan {keys cur preservBuf : Bytes} {src : List Bytes} {buf : Bytes} {rest : List Bytes}
    (h : scan keys cur src preservBuf = .flush buf rest) : rest.length ≤ src.length := by
  induction keys generalizing cur src preservBuf with
  | nil =>
    cases h
    exact Nat.le_refl _
  | cons key keys ih =>
    rw [scan] at h
    split at h
    · cases h
      exact Nat.le_refl _
    · split at h
      · cases h
      · exact Nat.le_trans (ih h) (by rw [List.length_tail]; exact Nat.sub_le _ _)

/-- What was written, and whether `DetachError` is returned. -/
structure Copied where
  written : Bytes
  detached : Bool
  deriving DecidableEq

/-- The loop of `copyEscapable`, over the reads of the stream. No write fails. -/
def copyLoop (keys : Bytes) (src : List Bytes) (written : Bytes) : Copied :=
  match src with
  | [] => ⟨written, false⟩
  | cur :: src =>
    if cur = [] then copyLoop keys src written
    else
      match _h : scan keys cur src [] with
      | .detach => ⟨written, true⟩
      | .flush buf rest => copyLoop keys rest (written ++ buf)
termination_by src.length
decreasing_by
  · exact Nat.lt_succ_self _
  · exact Nat.lt_succ_of_le (length_of_scan _h)

/-- `copyEscapable`. The default keys are ctrl-p ctrl-q. -/
def copyEscapable (src : List Bytes) (keys : Bytes) : Copied :=
  copyLoop (if keys = [] then [16, 17] else keys) src []

/-- A stream of one byte a read. -/
def byByte (stream : Bytes) : List Bytes := stream.map fun b => [b]

/-! ## One byte a read -/

/-- The loop over the keys, on the bytes that are left. -/
def scanBytes : Bytes → Bytes → Bytes → Option (Bytes × Bytes)
  | [], stream, preservBuf => some (preservBuf, stream)
  | _ :: _, [], preservBuf => some (preservBuf, [])
  | key :: keys, b :: stream, preservBuf =>
    if b ≠ key then some (preservBuf ++ [b], stream)
    else if keys = [] then none
    else scanBytes keys stream (preservBuf ++ [b])

/-- The outcome of a scan over bytes. -/
def Scan.ofBytes : Option (Bytes × Bytes) → Scan
  | none => .detach
  | some (buf, rest) => .flush buf (byByte rest)

theorem scan_byByte {keys : Bytes} (hne : keys ≠ []) (stream preservBuf : Bytes) :
    scan keys ((byByte stream).headD []) (byByte stream).tail preservBuf = .ofBytes (scanBytes keys stream preservBuf) := by
  induction keys generalizing stream preservBuf with
  | nil => exact absurd rfl hne
  | cons key keys ih =>
    cases stream with
    | nil => simp [byByte, scan, scanBytes, Scan.ofBytes]
    | cons b stream =>
      show scan (key :: keys) [b] (byByte stream) preservBuf = _
      rw [scan, scanBytes]
      by_cases hb : b = key
      · rw [if_neg (by simp [hb]), if_neg (not_not_intro hb)]
        by_cases hkeys : keys = []
        · rw [if_pos hkeys, if_pos hkeys]
          rfl
        · rw [if_neg hkeys, if_neg hkeys]
          exact ih hkeys stream _
      · rw [if_pos (by simp [hb]), if_pos hb]
        rfl

/-- The loop on the bytes of a stream. -/
theorem copyLoop_cons {keys : Bytes} (hne : keys ≠ []) (b : UInt8) (stream written : Bytes) :
    copyLoop keys (byByte (b :: stream)) written =
      match scanBytes keys (b :: stream) [] with
      | none => ⟨written, true⟩
      | some (buf, rest) => copyLoop keys (byByte rest) (written ++ buf) := by
  have hscan := scan_byByte hne (b :: stream) []
  show copyLoop keys ([b] :: byByte stream) written = _
  have hscan : scan keys [b] (byByte stream) [] = .ofBytes (scanBytes keys (b :: stream) []) := hscan
  rw [copyLoop, if_neg (List.cons_ne_nil b [])]
  split
  · rename_i h
    rw [hscan] at h
    cases hs : scanBytes keys (b :: stream) [] with
    | none => rfl
    | some r =>
      rw [hs] at h
      cases h
  · rename_i buf rest h
    rw [hscan] at h
    cases hs : scanBytes keys (b :: stream) [] with
    | none =>
      rw [hs] at h
      cases h
    | some r =>
      rw [hs] at h
      cases h
      rfl

theorem scanBytes_none {keys : Bytes} (hne : keys ≠ []) (stream preservBuf : Bytes) :
    scanBytes keys stream preservBuf = none ↔ keys <+: stream := by
  induction keys generalizing stream preservBuf with
  | nil => exact absurd rfl hne
  | cons key keys ih =>
    cases stream with
    | nil => simp [scanBytes]
    | cons b stream =>
      rw [scanBytes, List.cons_prefix_cons]
      by_cases hb : b = key
      · rw [if_neg (not_not_intro hb)]
        by_cases hkeys : keys = []
        · simp [hkeys, hb]
        · rw [if_neg hkeys, ih hkeys]
          exact (and_iff_right hb.symm).symm
      · rw [if_pos hb]
        simp [Ne.symm hb]

/-- What is flushed: a proper prefix of the keys, and the byte that is not the next key, unless the stream is at its
end. -/
theorem scanBytes_some {keys stream preservBuf buf rest : Bytes} (hne : keys ≠ [])
    (h : scanBytes keys stream preservBuf = some (buf, rest)) : ∃ p key tail, keys = p ++ key :: tail ∧
      (stream = p ∧ buf = preservBuf ++ p ∧ rest = [] ∨
        ∃ b, b ≠ key ∧ stream = p ++ b :: rest ∧ buf = preservBuf ++ (p ++ [b])) := by
  induction keys generalizing stream preservBuf with
  | nil => exact absurd rfl hne
  | cons key keys ih =>
    cases stream with
    | nil =>
      cases h
      exact ⟨[], key, keys, rfl, .inl ⟨rfl, by simp, rfl⟩⟩
    | cons b stream =>
      rw [scanBytes] at h
      split at h
      · rename_i hb
        cases h
        exact ⟨[], key, keys, rfl, .inr ⟨b, hb, rfl, rfl⟩⟩
      · rename_i hb
        rw [not_not] at hb
        split at h
        · cases h
        · rename_i hkeys
          obtain ⟨p, key', tail, hp, hrest⟩ := ih hkeys h
          refine ⟨key :: p, key', tail, by rw [hp]; rfl, ?_⟩
          rcases hrest with ⟨hs, hbuf, hnil⟩ | ⟨b', hne', hs, hbuf⟩
          · exact .inl ⟨by rw [hs, hb], by rw [hbuf, hb, List.append_assoc]; rfl, hnil⟩
          · exact .inr ⟨b', hne', by rw [hs, hb]; rfl, by rw [hbuf, hb, List.append_assoc]; rfl⟩

theorem length_lt_of_scanBytes {keys stream : Bytes} {b : UInt8} {r : Bytes × Bytes} (hne : keys ≠ [])
    (h : scanBytes keys (b :: stream) [] = some r) : r.2.length < (b :: stream).length := by
  obtain ⟨p, key, tail, -, ⟨-, -, hrest⟩ | ⟨b', -, hstream, -⟩⟩ := scanBytes_some hne h
  · rw [hrest]
    exact Nat.succ_pos _
  · rw [hstream, List.length_append, List.length_cons]
    omega

/-! ## What is asked of it -/

/-- The keys are in the stream, after `pre`. -/
def At (keys stream pre : Bytes) : Prop := pre ++ keys <+: stream

/-- The first place at which they are. -/
def First (keys stream pre : Bytes) : Prop :=
  At keys stream pre ∧ ∀ pre', At keys stream pre' → pre.length ≤ pre'.length

/-- The outcome `r` of the copying of `stream`, after `written`. -/
structure Copies (keys stream written : Bytes) (r : Copied) : Prop where
  detached : r.detached = true ↔ keys <:+: stream
  before : ∀ pre, First keys stream pre → r.written = written ++ pre
  all : ¬ keys <:+: stream → r.written = written ++ stream

/-- `copyEscapable` returns `DetachError` exactly if the keys are in the stream, and has written what is before them,
or else all of it. -/
def Correct (keys stream : Bytes) : Prop := Copies keys stream [] (copyEscapable (byByte stream) keys)

theorem infix_iff_at {keys stream : Bytes} : keys <:+: stream ↔ ∃ pre, At keys stream pre := Iff.rfl

/-- The keys are found where the stream begins with them. -/
theorem Copies.found {keys stream : Bytes} (h : keys <+: stream) (written : Bytes) :
    Copies keys stream written ⟨written, true⟩ where
  detached := iff_of_true rfl h.isInfix
  before pre hpre := by
    have hnil : pre.length ≤ 0 := hpre.2 [] h
    rw [List.length_eq_zero_iff.mp (Nat.le_zero.mp hnil), List.append_nil]
  all hnot := absurd h.isInfix hnot

theorem at_append_iff {mid keys rest pre : Bytes} : At keys (mid ++ rest) (mid ++ pre) ↔ At keys rest pre := by
  rw [At, At, List.append_assoc]
  exact List.prefix_append_right_inj mid

theorem first_of_append {mid keys rest pre : Bytes} (h : First keys (mid ++ rest) (mid ++ pre)) : First keys rest pre := by
  refine ⟨at_append_iff.mp h.1, fun q hq => ?_⟩
  have hle := h.2 (mid ++ q) (at_append_iff.mpr hq)
  rw [List.length_append, List.length_append] at hle
  exact Nat.le_of_add_le_add_left hle

theorem exists_first {keys stream : Bytes} {n : ℕ} (h : ∃ pre, At keys stream pre ∧ pre.length < n) :
    ∃ pre, First keys stream pre ∧ pre.length < n := by
  obtain ⟨pre, hpre, hlt⟩ := h
  obtain ⟨m, hm, hmin⟩ := (measure (List.length : Bytes → ℕ)).wf.has_min {pre | At keys stream pre} ⟨pre, hpre⟩
  have hle (q : Bytes) (hq : At keys stream q) : m.length ≤ q.length := Nat.not_lt.mp (hmin q hq)
  exact ⟨m, ⟨hm, hle⟩, Nat.lt_of_le_of_lt (hle pre hpre) hlt⟩

section

variable {mid keys rest written : Bytes}
  (hmid : ∀ pre, At keys (mid ++ rest) pre → ∃ pre', pre = mid ++ pre' ∧ At keys rest pre')

include hmid

theorem first_append {pre : Bytes} (h : First keys rest pre) : First keys (mid ++ rest) (mid ++ pre) := by
  refine ⟨at_append_iff.mpr h.1, fun q hq => ?_⟩
  obtain ⟨q', rfl, hq'⟩ := hmid q hq
  rw [List.length_append, List.length_append]
  exact Nat.add_le_add_left (h.2 q' hq') _

/-- Bytes in which the keys do not begin are passed. -/
theorem copies_pass_iff {r : Copied} :
    Copies keys (mid ++ rest) written r ↔ Copies keys rest (written ++ mid) r := by
  have hoccurs : keys <:+: mid ++ rest ↔ keys <:+: rest := by
    rw [infix_iff_at, infix_iff_at]
    constructor
    · rintro ⟨pre, hpre⟩
      obtain ⟨pre', -, hpre'⟩ := hmid pre hpre
      exact ⟨pre', hpre'⟩
    · rintro ⟨pre, hpre⟩
      exact ⟨mid ++ pre, at_append_iff.mpr hpre⟩
  constructor
  · intro h
    refine ⟨h.detached.trans hoccurs, fun pre hpre => ?_, fun hnot => ?_⟩
    · rw [h.before (mid ++ pre) (first_append hmid hpre), List.append_assoc]
    · rw [h.all fun hin => hnot (hoccurs.mp hin), List.append_assoc]
  · intro h
    refine ⟨h.detached.trans hoccurs.symm, fun pre hpre => ?_, fun hnot => ?_⟩
    · obtain ⟨pre', rfl, -⟩ := hmid pre hpre.1
      rw [h.before pre' (first_of_append hpre), List.append_assoc]
    · rw [h.all fun hin => hnot (hoccurs.mpr hin), List.append_assoc]

end

/-- The keys are not in a stream that is shorter. -/
theorem copies_short {keys : Bytes} (stream : Bytes) (h : stream.length < keys.length) (written : Bytes) :
    ¬ keys <:+: stream ∧ Copies keys stream written ⟨written ++ stream, false⟩ := by
  have hnot : ¬ keys <:+: stream := fun hin => absurd hin.length_le (Nat.not_le.mpr h)
  exact ⟨hnot, iff_of_false Bool.false_ne_true hnot, fun pre hpre => absurd ⟨pre, hpre.1⟩ hnot, fun _ => rfl⟩

/-! ## Partial matches that are broken off -/

/-- The beginning of the keys, and a byte that is not the next one. -/
structure Piece (keys s : Bytes) : Prop where
  length : s.length ≤ keys.length
  begins : s.dropLast <+: keys
  ends : ¬ s <+: keys

/-- What is before the keys can be cut into such pieces. -/
def Cut (keys pre : Bytes) : Prop := ∃ pieces : List Bytes, pieces.flatten = pre ∧ ∀ s ∈ pieces, Piece keys s

theorem Piece.ne_nil {keys s : Bytes} (h : Piece keys s) : s ≠ [] := by
  rintro rfl
  exact h.ends List.nil_prefix

/-- No piece begins with another one. -/
theorem Piece.eq_of_le {keys s s' : Bytes} (h : Piece keys s) (h' : Piece keys s') (hp : s <+: s') : s = s' := by
  by_contra hne
  have hlt : s.length < s'.length := lt_of_le_of_ne hp.length_le fun hl => hne (hp.eq_of_length hl)
  have hshort : s <+: s'.dropLast :=
    List.prefix_of_prefix_length_le hp (List.dropLast_prefix s') (by rw [List.length_dropLast]; omega)
  exact h.ends (hshort.trans h'.begins)

theorem cut_append_iff {keys s pre : Bytes} (h : Piece keys s) : Cut keys (s ++ pre) ↔ Cut keys pre := by
  constructor
  · rintro ⟨pieces, hflat, hpieces⟩
    cases pieces with
    | nil => exact absurd (List.append_eq_nil_iff.mp hflat.symm).1 h.ne_nil
    | cons s' pieces =>
      have hs' := hpieces s' List.mem_cons_self
      rw [List.flatten_cons] at hflat
      have hsame : s' = s := by
        have hp' : s' <+: s ++ pre := hflat ▸ List.prefix_append s' _
        rcases Nat.le_total s'.length s.length with hle | hle
        · exact hs'.eq_of_le h (List.prefix_of_prefix_length_le hp' (List.prefix_append s pre) hle)
        · exact (h.eq_of_le hs' (List.prefix_of_prefix_length_le (List.prefix_append s pre) hp' hle)).symm
      rw [hsame] at hflat
      exact ⟨pieces, List.append_cancel_left hflat, fun x hx => hpieces x (List.mem_cons_of_mem _ hx)⟩
  · rintro ⟨pieces, rfl, hpieces⟩
    exact ⟨s :: pieces, rfl, fun x hx => (List.mem_cons.mp hx).elim (fun e => e ▸ h) (hpieces x)⟩

/-- What is shorter than a piece that it begins cannot be cut. -/
theorem eq_nil_of_cut {keys s pre : Bytes} (h : Piece keys s) (hpre : pre <+: s) (hlt : pre.length < s.length)
    (hcut : Cut keys pre) : pre = [] := by
  obtain ⟨pieces, rfl, hpieces⟩ := hcut
  cases pieces with
  | nil => rfl
  | cons s' pieces =>
    rw [List.flatten_cons] at hpre hlt
    have he := (hpieces s' List.mem_cons_self).eq_of_le h ((List.prefix_append s' _).trans hpre)
    rw [he, List.length_append] at hlt
    omega

/-! ## The loop -/

theorem prefix_written {keys : Bytes} (hne : keys ≠ []) (stream written : Bytes) :
    written <+: (copyLoop keys (byByte stream) written).written := by
  induction hk : stream.length using Nat.strong_induction_on generalizing stream written with
  | _ k ih =>
    subst hk
    cases stream with
    | nil => rw [byByte, List.map_nil, copyLoop]
    | cons b stream =>
      rw [copyLoop_cons hne]
      cases hs : scanBytes keys (b :: stream) [] with
      | none => exact List.prefix_rfl
      | some r =>
        exact (List.prefix_append written r.1).trans (ih _ (length_lt_of_scanBytes hne hs) _ _ rfl)

/-- A piece is written, and the rest of the stream gone through. -/
theorem copies_piece_iff {keys s rest : Bytes} (hne : keys ≠ []) (hpiece : Piece keys s) (hnot : ¬ keys <+: s ++ rest)
    (written : Bytes) (hrest : Copies keys rest (written ++ s) (copyLoop keys (byByte rest) (written ++ s)) ↔
      ∀ pre, First keys rest pre → Cut keys pre) :
    Copies keys (s ++ rest) written (copyLoop keys (byByte rest) (written ++ s)) ↔
      ∀ pre, First keys (s ++ rest) pre → Cut keys pre := by
  by_cases hin : ∀ pre, At keys (s ++ rest) pre → s.length ≤ pre.length
  -- the keys begin behind the piece
  · have hmid (pre : Bytes) (hpre : At keys (s ++ rest) pre) : ∃ pre', pre = s ++ pre' ∧ At keys rest pre' := by
      obtain ⟨pre', rfl⟩ := List.prefix_of_prefix_length_le (List.prefix_append s rest)
        ((List.prefix_append pre keys).trans hpre) (hin pre hpre)
      rw [At, List.append_assoc] at hpre
      exact ⟨pre', rfl, (List.prefix_append_right_inj s).mp hpre⟩
    rw [copies_pass_iff hmid, hrest]
    constructor
    · intro h pre hpre
      obtain ⟨pre', rfl, -⟩ := hmid pre hpre.1
      exact (cut_append_iff hpiece).mpr (h pre' (first_of_append hpre))
    · exact fun h pre hpre => (cut_append_iff hpiece).mp (h _ (first_append hmid hpre))
  -- they begin in it: what is before them is neither written alone nor cut
  · simp only [not_forall, not_le, exists_prop] at hin
    obtain ⟨pre, hpre, hshort⟩ := exists_first hin
    have hpre' : pre <+: s := List.prefix_of_prefix_length_le
      ((List.prefix_append pre keys).trans hpre.1) (List.prefix_append s rest) hshort.le
    refine iff_of_false (fun h => ?_) fun h => ?_
    · have hle := (prefix_written hne rest (written ++ s)).length_le
      rw [h.before pre hpre, List.length_append, List.length_append] at hle
      omega
    · have hnil := eq_nil_of_cut hpiece hpre' hshort (h pre hpre)
      rw [hnil] at hpre
      exact hnot hpre.1

theorem copies_iff {keys : Bytes} (hne : keys ≠ []) (stream written : Bytes) :
    Copies keys stream written (copyLoop keys (byByte stream) written) ↔
      ∀ pre, First keys stream pre → Cut keys pre := by
  -- on the length of what is left of the stream
  induction hk : stream.length using Nat.strong_induction_on generalizing stream written with
  | _ k ih =>
    subst hk
    cases stream with
    | nil =>
      obtain ⟨hnot, hcopies⟩ := copies_short [] (List.length_pos_iff.mpr hne) written
      rw [List.append_nil] at hcopies
      rw [byByte, List.map_nil, copyLoop]
      exact iff_of_true hcopies fun pre hpre => absurd ⟨pre, hpre.1⟩ hnot
    | cons b stream =>
      rw [copyLoop_cons hne]
      cases hs : scanBytes keys (b :: stream) [] with
      | none =>
        have hfound := (scanBytes_none hne _ _).mp hs
        refine iff_of_true (.found hfound written) fun pre hpre => ?_
        rw [List.length_eq_zero_iff.mp (Nat.le_zero.mp (hpre.2 [] hfound))]
        exact ⟨[], rfl, nofun⟩
      | some r =>
        obtain ⟨buf, rest⟩ := r
        have hnot : ¬ keys <+: b :: stream := fun h => by rw [(scanBytes_none hne _ []).mpr h] at hs; cases hs
        have hlt := length_lt_of_scanBytes hne hs
        obtain ⟨p, key, tail, hkeys, ⟨hstream, hbuf, rfl⟩ | ⟨b', hb', hstream, rfl⟩⟩ := scanBytes_some hne hs
        -- the stream ends in the partial match
        · have hlen : p.length < keys.length := by rw [hkeys, List.length_append, List.length_cons]; omega
          obtain ⟨hnot', hcopies⟩ := copies_short p hlen written
          simp only [hbuf, List.nil_append, hstream, byByte, List.map_nil, copyLoop]
          exact iff_of_true hcopies fun pre hpre => absurd ⟨pre, hpre.1⟩ hnot'
        -- another byte ends it
        · have hpiece : Piece keys (p ++ [b']) := by
            refine ⟨by rw [hkeys]; simp, by rw [hkeys, List.dropLast_concat]; exact List.prefix_append .., fun h => ?_⟩
            rw [hkeys, List.prefix_append_right_inj, List.cons_prefix_cons] at h
            exact hb' h.1
          have happ : b :: stream = (p ++ [b']) ++ rest := by rw [hstream, List.append_assoc]; rfl
          rw [happ] at hnot ⊢
          exact copies_piece_iff hne hpiece hnot written (ih rest.length hlt rest (written ++ (p ++ [b'])) rfl)

/-- The keys are found in a stream, of one byte a read, exactly if what is before the first place at which they are
can be cut into partial matches that are broken off. -/
theorem copyEscapable_correct_iff {keys : Bytes} (hne : keys ≠ []) (stream : Bytes) :
    Correct keys stream ↔ ∀ pre, First keys stream pre → Cut keys pre := by
  rw [Correct, copyEscapable, if_neg hne]
  exact copies_iff hne stream []

/-- The default keys after another ctrl-p: they are written, and nothing is detached. -/
theorem copyEscapable_misses : [16, 17] <:+: ([16, 16, 17] : Bytes) ∧
    copyEscapable (byByte [16, 16, 17]) [16, 17] = ⟨[16, 16, 17], false⟩ := by
  refine ⟨⟨[16], [], rfl⟩, ?_⟩
  simp [copyEscapable, byByte, copyLoop, scan]

/-- The default keys after a partial match that another byte ends: `16, 97` is one piece. -/
theorem copyEscapable_correct_default : ([16, 17] : Bytes) ≠ [] ∧ [16, 17] <:+: ([16, 97, 16, 17] : Bytes) ∧
    Correct [16, 17] [16, 97, 16, 17] := by
  have hne : ([16, 17] : Bytes) ≠ [] := List.cons_ne_nil 16 [17]
  refine ⟨hne, ⟨[16, 97], [], rfl⟩, (copyEscapable_correct_iff hne _).mpr fun pre hpre => ?_⟩
  have hle := hpre.2 [16, 97] List.prefix_rfl
  have hat : pre <+: [16, 97] := List.prefix_of_prefix_length_le
    ((List.prefix_append pre [16, 17]).trans hpre.1) (List.prefix_append [16, 97] [16, 17]) hle
  have hcases := List.mem_inits pre [16, 97] |>.mpr hat
  simp only [List.inits, List.map_cons, List.map_nil, List.mem_cons, List.not_mem_nil, or_false] at hcases
  have hfirst : pre ++ [16, 17] <+: [16, 97, 16, 17] := hpre.1
  rcases hcases with rfl | rfl | rfl
  · exact absurd hfirst (by decide)
  · exact absurd hfirst (by decide)
  · exact ⟨[[16, 97]], rfl, by simpa using ⟨by decide, by decide, by decide⟩⟩

end Moby.Container.Escape
