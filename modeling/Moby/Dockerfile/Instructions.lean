import Moby.Dockerfile.Lines

/-!
# The instructions of a Dockerfile

What the lines of an input say, against what `Parse` makes of them. A line that
is neither blank nor a comment starts an instruction or continues the one that
is open, and a marker at its end leaves the instruction open (`Joining.line`).
-/

namespace Moby.Dockerfile

open Framework (GoString bytesOf)
open Framework.GoString

variable {e : UInt8}

/-! ## What the lines say -/

def linesAux : ℕ → GoString → List GoString
  | 0, _ => []
  | n + 1, s =>
    if s = [] then []
    else
      s.takeWhile (· ≠ 0x0A) ::
        match s.dropWhile (· ≠ 0x0A) with
        | [] => []
        | _ :: s => linesAux n s

/-- The input, cut at the newlines. -/
def cutLines (input : GoString) : List GoString := linesAux input.length input

def trimFirst : List GoString → List GoString
  | [] => []
  | l :: ls => trimBOM l :: ls

/-- The lines of an input. -/
def lines (input : GoString) : List GoString := trimFirst ((cutLines input).map dropCR)

/-- A line with text. -/
def hasText (line : GoString) : Bool := stripComments (trimLeft line) ≠ []

/-- The instructions that the lines so far have closed, and the text of the one
that is open. -/
structure Joining where
  closed : List GoString := []
  text : Option GoString := none

/-- The instructions, if no line follows. -/
def Joining.texts (j : Joining) : List GoString := j.closed ++ j.text.toList

/-- One more line. A line that is just a marker starts no instruction. -/
def Joining.line (e : UInt8) (j : Joining) (l : GoString) : Joining :=
  if hasText l then
    match j.text with
    | none =>
      match stripMarker e (trimLeft l) with
      | none => { closed := j.closed ++ [trimLeft l] }
      | some [] => j
      | some (b :: t) => { j with text := some (b :: t) }
    | some text =>
      match stripMarker e l with
      | none => { closed := j.closed ++ [text ++ l] }
      | some t => { j with text := some (text ++ t) }
  else j

def joining (e : UInt8) (ls : List GoString) : Joining := ls.foldl (Joining.line e) {}

/-- The texts of the instructions in the lines. -/
def instructions (e : UInt8) (ls : List GoString) : List GoString := (joining e ls).texts

/-! ## Every line is in one instruction -/

/-- The text of an instruction on some lines. -/
def groupText (e : UInt8) : List GoString → GoString
  | [] => []
  | l :: ls => unmarked e (trimLeft l) ++ ls.flatMap (unmarked e)

/-- A line that is not blank, not a comment and not just a marker. -/
def contributes (e : UInt8) (l : GoString) : Bool := hasText l && (stripMarker e (trimLeft l) ≠ some [])

/-- Texts that hold all the lines that contribute, in their order, each of them
once. -/
def Grouped (e : UInt8) (ls texts : List GoString) : Prop :=
  ∃ groups : List (List GoString), texts = groups.map (groupText e) ∧ (∀ g ∈ groups, g ≠ []) ∧
    groups.flatten.filter (contributes e) = ls.filter (contributes e)

theorem groupText_append (g : List GoString) (l : GoString) (hg : g ≠ []) :
    groupText e (g ++ [l]) = groupText e g ++ unmarked e l := by
  cases g with
  | nil => exact absurd rfl hg
  | cons a g => simp [groupText, List.append_assoc]

/-- The lines of the instructions that are closed, and of the one that is open. -/
structure Groups (e : UInt8) (ls : List GoString) (j : Joining) (closed : List (List GoString)) (last : List GoString) :
    Prop where
  closed_ne : ∀ g ∈ closed, g ≠ []
  closed_eq : j.closed = closed.map (groupText e)
  last_eq : j.text = if last = [] then none else some (groupText e last)
  all : (closed.flatten ++ last).filter (contributes e) = ls.filter (contributes e)

theorem Groups.line {ls : List GoString} {j : Joining} {closed : List (List GoString)} {last : List GoString}
    (h : Groups e ls j closed last) (l : GoString) : ∃ closed last, Groups e (ls ++ [l]) (j.line e l) closed last := by
  obtain ⟨hne, hcl, hlast, hall⟩ := h
  have hfilter (s : List GoString) : (closed.flatten ++ last ++ s).filter (contributes e) =
      ls.filter (contributes e) ++ s.filter (contributes e) := by rw [List.filter_append, hall]
  have hskip (hc : contributes e l = false) : ∃ closed last, Groups e (ls ++ [l]) j closed last := by
    refine ⟨closed, last, hne, hcl, hlast, ?_⟩
    rw [hall, List.filter_append]
    simp [hc]
  -- The line closes an instruction on the lines `g`.
  have hclose (g : List GoString) (hg : g ≠ []) (ht : last ++ [l] = g) :
      ∃ closed last, Groups e (ls ++ [l]) { closed := j.closed ++ [groupText e g] } closed last := by
    refine ⟨closed ++ [g], [], ?_, ?_, rfl, ?_⟩
    · intro g' hg'
      rcases List.mem_append.mp hg' with hg' | hg'
      · exact hne g' hg'
      · rw [List.mem_singleton.mp hg']; exact hg
    · rw [hcl, List.map_append, List.map_singleton]
    · rw [List.flatten_append, List.flatten_singleton, ← ht, List.append_nil, ← List.append_assoc, hfilter,
        List.filter_append]
  have hopen (g : List GoString) (hg : g ≠ []) (ht : last ++ [l] = g) :
      ∃ closed last, Groups e (ls ++ [l]) { j with text := some (groupText e g) } closed last := by
    refine ⟨closed, g, hne, hcl, (if_neg hg).symm, ?_⟩
    rw [← ht, ← List.append_assoc, hfilter, List.filter_append]
  unfold Joining.line
  split_ifs with hl
  · rw [hlast]
    by_cases hn : last = []
    · rw [if_pos hn]
      subst hn
      have hg : groupText e [l] = unmarked e (trimLeft l) := by simp [groupText]
      rcases hm : stripMarker e (trimLeft l) with _ | _ | ⟨b, t⟩
      · have := hclose [l] (List.cons_ne_nil _ _) rfl
        rwa [hg, unmarked, hm, Option.getD_none] at this
      · refine hskip ?_
        simp [contributes, hm]
      · have := hopen [l] (List.cons_ne_nil _ _) rfl
        rwa [hg, unmarked, hm, Option.getD_some] at this
    · rw [if_neg hn]
      have hg : groupText e (last ++ [l]) = groupText e last ++ unmarked e l := groupText_append last l hn
      rcases hm : stripMarker e l with _ | t
      · have := hclose (last ++ [l]) (by simp) rfl
        rwa [hg, unmarked, hm, Option.getD_none] at this
      · have := hopen (last ++ [l]) (by simp) rfl
        rwa [hg, unmarked, hm, Option.getD_some] at this
  · exact hskip (by simp [contributes, hl])

theorem groups_joining (ls : List GoString) : ∃ closed last, Groups e ls (joining e ls) closed last := by
  induction ls using List.reverseRecOn with
  | nil => exact ⟨[], [], by simp, rfl, rfl, rfl⟩
  | append_singleton ls l ih =>
    obtain ⟨closed, last, h⟩ := ih
    rw [joining, List.foldl_append]
    exact h.line l

/-- Every line with text is in one instruction, and they are in order. -/
theorem instructions_grouped (ls : List GoString) : Grouped e ls (instructions e ls) := by
  obtain ⟨closed, last, hne, hcl, hlast, hall⟩ := groups_joining (e := e) ls
  unfold instructions Joining.texts
  rw [hcl, hlast]
  by_cases hn : last = []
  · subst hn
    rw [List.append_nil] at hall
    exact ⟨closed, by simp, hne, hall⟩
  · refine ⟨closed ++ [last], by simp [hn], ?_, ?_⟩
    · intro g hg
      rcases List.mem_append.mp hg with hg | hg
      · exact hne g hg
      · rw [List.mem_singleton.mp hg]; exact hn
    · rw [List.flatten_append, List.flatten_singleton, hall]

/-! ## What the scanner gives -/

/-- A line that fits into the scanner's buffer. -/
def fits (l : GoString) : Bool := l.length < maxScanTokenSize

/-- The lines that are scanned. -/
def scannedLines (input : GoString) : List GoString := trimFirst (((cutLines input).takeWhile fits).map dropCR)

/-- The start of the first line that is too long. -/
def leftover (input : GoString) : Option GoString :=
  ((cutLines input).dropWhile fits).head?.map fun l => dropCR (l.take maxScanTokenSize)

/-- What the scanner gives behind the lines that fit. -/
def ending : Option GoString → List (Option GoString)
  | none => []
  | some l => [none, some l]

theorem scansAux_eq (n : ℕ) (s : GoString) :
    scansAux n s = ((linesAux n s).takeWhile fits).map (some ∘ dropCR) ++
      ending (((linesAux n s).dropWhile fits).head?.map fun l => dropCR (l.take maxScanTokenSize)) := by
  induction n generalizing s with
  | zero => rfl
  | succ n ih =>
    rw [scansAux, linesAux]
    split_ifs with hs hlong
    · rfl
    · have hf : ¬ fits (s.takeWhile (· ≠ 0x0A)) := by simpa [fits] using hlong
      have htake : (s.takeWhile (· ≠ 0x0A)).take maxScanTokenSize = s.take maxScanTokenSize := by
        conv_rhs => rw [← List.takeWhile_append_dropWhile (p := (· ≠ (0x0A : UInt8))) (l := s)]
        rw [List.take_append_of_le_length hlong]
      rw [List.takeWhile_cons_of_neg hf, List.dropWhile_cons_of_neg hf, List.head?_cons, Option.map_some, htake]
      rfl
    · have hf : fits (s.takeWhile (· ≠ 0x0A)) := by simpa [fits] using hlong
      rw [List.takeWhile_cons_of_pos hf, List.dropWhile_cons_of_pos hf]
      cases s.dropWhile (· ≠ 0x0A) with
      | nil => rfl
      | cons b s => simp only [ih]; rfl

/-- What the scanner gives of an input. -/
theorem scans_eq (input : GoString) :
    scans input = ((cutLines input).takeWhile fits).map (some ∘ dropCR) ++ ending (leftover input) := scansAux_eq _ _

/-! ## What `Parse` makes of it -/

/-- The texts that `Parse` makes instructions of, from some point on. -/
def Joining.rest (e : UInt8) (j : Joining) (ss : List (Option GoString)) : List GoString :=
  j.closed ++
    match j.text with
    | none => joinLines e false ss
    | some text => joinRest e text ss

/-- While lines come `Parse` joins them as they say. -/
theorem Joining.rest_line (j : Joining) (l : GoString) (ss : List (Option GoString)) :
    j.rest e (some l :: ss) = (j.line e l).rest e ss := by
  obtain ⟨closed, text⟩ := j
  unfold Joining.line hasText Joining.rest
  cases text with
  | none =>
    rw [joinLines]
    by_cases hl : stripComments (trimLeft l) = []
    · simp [hl]
    · rcases hm : stripMarker e (trimLeft l) with _ | _ | ⟨b, t⟩ <;> simp [hl, hm]
  | some text =>
    simp only [joinRest]
    by_cases hl : stripComments (trimLeft l) = []
    · simp [hl, (stripComments_trimSpace l).mpr hl]
    · have hn : stripComments (trimSpace l) ≠ [] := fun h => hl ((stripComments_trimSpace l).mp h)
      simp only [hn, if_false, hl, ne_eq, not_false_eq_true, decide_true, if_true]
      rw [stripMarker_join hn]
      rcases hm : stripMarker e l with _ | t <;> simp

theorem Joining.rest_lines (ls : List GoString) (j : Joining) (ss : List (Option GoString)) :
    j.rest e (ls.map some ++ ss) = (ls.foldl (Joining.line e) j).rest e ss := by
  induction ls generalizing j with
  | nil => rfl
  | cons l ls ih => rw [List.map_cons, List.cons_append, Joining.rest_line, ih, List.foldl_cons]

theorem joinLines_trimFirst (ls : List GoString) (left : Option GoString) :
    joinLines e true (ls.map some ++ ending left) = joinLines e false ((trimFirst ls).map some ++ ending left) := by
  cases ls with
  | nil => cases left <;> rfl
  | cons l ls => simp [trimFirst, joinLines]

/-- The instructions that `Parse` finds. -/
theorem parse_texts {lib : Lib} {d d' : Directive} {input : GoString} {children : List Node}
    (h : parse lib d input = .ok (d', children)) :
    children.map Node.original =
      (joining (escapeTokenOf lib d input).byte (scannedLines input)).rest (escapeTokenOf lib d input).byte
        (ending (leftover input)) := by
  rw [parse_originals h, scans_eq, ← List.map_map, joinLines_trimFirst]
  exact Joining.rest_lines (scannedLines input) {} _

/-! ## How instructions grow -/

theorem isPrefix_unmarked (l : GoString) : unmarked e l <+: l := by
  unfold unmarked
  cases hm : stripMarker e l with
  | none => exact List.prefix_refl l
  | some t => exact isPrefix_of_stripMarker hm

theorem Joining.line_closed (closed : List GoString) (text : Option GoString) (l : GoString) :
    Joining.line e ⟨closed, text⟩ l =
      ⟨closed ++ (Joining.line e ⟨[], text⟩ l).closed, (Joining.line e ⟨[], text⟩ l).text⟩ := by
  unfold Joining.line
  split_ifs with hl
  · cases text with
    | none => rcases hm : stripMarker e (trimLeft l) with _ | _ | ⟨b, t⟩ <;> simp
    | some text => rcases hm : stripMarker e l with _ | t <;> simp
  · simp

/-- The instructions that are closed stay as they are. -/
theorem Joining.lines_closed (ls closed : List GoString) (text : Option GoString) :
    (ls.foldl (Joining.line e) ⟨closed, text⟩).texts = closed ++ (ls.foldl (Joining.line e) ⟨[], text⟩).texts := by
  induction ls generalizing closed text with
  | nil => rfl
  | cons l ls ih =>
    rw [List.foldl_cons, List.foldl_cons, Joining.line_closed, ih, List.append_assoc]
    congr 1
    exact (ih _ _).symm

/-- An instruction that is open grows with a line that has text. -/
theorem Joining.line_open {l : GoString} (h : hasText l) (text : GoString) :
    Joining.line e ⟨[], some text⟩ l =
      if stripMarker e l = none then ⟨[text ++ unmarked e l], none⟩ else ⟨[], some (text ++ unmarked e l)⟩ := by
  unfold Joining.line unmarked
  rw [if_pos h]
  cases hm : stripMarker e l <;> simp

theorem hasText_ne_nil {l : GoString} (h : hasText l) : l ≠ [] := by
  rintro rfl
  exact absurd h (by decide)

/-- The instruction that is open comes first, with what the lines add to it. -/
theorem texts_of_open (ls : List GoString) (text : GoString) :
    ∃ y ys, (ls.foldl (Joining.line e) ⟨[], some text⟩).texts = y :: ys ∧ text <+: y ∧ (y = text → ys = []) := by
  induction ls generalizing text with
  | nil => exact ⟨text, [], rfl, List.prefix_refl text, fun _ => rfl⟩
  | cons l ls ih =>
    rw [List.foldl_cons]
    by_cases hl : hasText l
    · rw [Joining.line_open hl]
      split_ifs with hm
      · rw [Joining.lines_closed]
        refine ⟨_, _, rfl, List.prefix_append _ _, fun hy => ?_⟩
        have hu : unmarked e l = [] := List.append_cancel_left (hy.trans (List.append_nil text).symm)
        rw [unmarked, hm, Option.getD_none] at hu
        exact absurd hu (hasText_ne_nil hl)
      · obtain ⟨y, ys, hys, hpre, hnil⟩ := ih (text ++ unmarked e l)
        refine ⟨y, ys, hys, (List.prefix_append _ _).trans hpre, fun hy => ?_⟩
        subst hy
        have hlen := hpre.length_le
        rw [List.length_append] at hlen
        have hu : unmarked e l = [] := List.length_eq_zero_iff.mp (by omega)
        exact hnil (by rw [hu, List.append_nil])
    · obtain ⟨y, ys, hys, hpre, hnil⟩ := ih text
      refine ⟨y, ys, ?_, hpre, hnil⟩
      rw [Joining.line, if_neg hl]
      exact hys

theorem texts_of_line {l : GoString} (hl : hasText l) (ls : List GoString) (text : GoString) :
    ∃ y ys, ((l :: ls).foldl (Joining.line e) ⟨[], some text⟩).texts = y :: ys ∧ text ++ unmarked e l <+: y := by
  rw [List.foldl_cons, Joining.line_open hl]
  split_ifs with hm
  · rw [Joining.lines_closed]
    exact ⟨_, _, rfl, List.prefix_refl _⟩
  · obtain ⟨y, ys, hys, hpre, -⟩ := texts_of_open (e := e) ls (text ++ unmarked e l)
    exact ⟨y, ys, hys, hpre⟩

/-- The instructions that are closed have no marker, and the one that is open has
text. -/
structure Joining.Ok (e : UInt8) (j : Joining) : Prop where
  closed : ∀ text ∈ j.closed, stripMarker e text = none
  text : ∀ text, j.text = some text → stripComments text ≠ []

theorem Joining.Ok.line {j : Joining} (h : j.Ok e) (l : GoString) : (j.line e l).Ok e := by
  have hclose {text : GoString} (ht : stripMarker e text = none) : Joining.Ok e { closed := j.closed ++ [text] } := by
    refine ⟨fun s hs => ?_, fun s hs => nomatch hs⟩
    rcases List.mem_append.mp hs with hs | hs
    · exact h.closed s hs
    · rw [List.mem_singleton.mp hs]; exact ht
  have hopen {text : GoString} (ht : stripComments text ≠ []) : Joining.Ok e { j with text := some text } :=
    ⟨h.closed, fun s hs => by cases hs; exact ht⟩
  unfold Joining.line
  split_ifs with hl
  · have hc : stripComments (trimLeft l) ≠ [] := by simpa [hasText] using hl
    split
    · split
      · rename_i hm; exact hclose hm
      · exact h
      · rename_i b t hm; exact hopen (stripComments_of_isPrefix (isPrefix_of_stripMarker hm) (List.cons_ne_nil b t) hc)
    · rename_i text htext
      split
      · rename_i hm
        refine hclose ?_
        rw [stripMarker_append (exists_not_isBlank hc), hm, Option.map_none]
      · exact hopen (stripComments_append (h.text text htext) _)
  · exact h

theorem joining_ok (ls : List GoString) : (joining e ls).Ok e := by
  induction ls using List.reverseRecOn with
  | nil => exact ⟨fun _ h => (nomatch h), fun _ h => (nomatch h)⟩
  | append_singleton ls l ih =>
    rw [joining, List.foldl_append]
    exact ih.line l

/-! ## The start of a line that is too long -/

theorem mem_of_stripMarker {s t : GoString} (h : stripMarker e s = some t) : e ∈ s := by
  obtain ⟨bl, -, -, rfl⟩ := stripMarker_eq_some.mp h
  exact List.mem_append_right t List.mem_cons_self

theorem hasText_iff {l : GoString} : hasText l ↔ trimLeft l ≠ [] ∧ (trimLeft l).head? ≠ some 0x23 := by
  simp [hasText, stripComments_eq_nil]

theorem not_hasText_hash (s : GoString) : ¬ hasText (0x23 :: s) := by
  have hself : trimLeft (0x23 :: s) = 0x23 :: s :=
    trimLeft_append_of_not_isSpace (c := '#') (by decide) s
  rw [hasText_iff, hself]
  exact fun h => h.2 rfl

theorem not_hasText_of_isPrefix {p l : GoString} (hp : p <+: l) (hself : trimLeft l = l) (hl : ¬ hasText l) :
    ¬ hasText p := by
  intro ht
  rw [hasText_iff, hself, not_and_or, not_not, not_not] at hl
  cases p with
  | nil => exact hasText_ne_nil ht rfl
  | cons b p =>
    obtain ⟨r, rfl⟩ := hp
    rcases hl with hl | hl
    · cases hl
    · cases hl
      exact not_hasText_hash p ht

/-- Where a start of a line has text and the line has not, the start ends within
a character. -/
theorem le_of_mem_trimLeft {p l : GoString} (hp : p <+: l) (hl : ¬ hasText l) (ht : hasText p) :
    ∀ b ∈ trimLeft p, 128 ≤ b.toNat := by
  induction l using runes_induction generalizing p with
  | nil =>
    rw [List.prefix_nil.mp hp] at ht
    exact absurd rfl (hasText_ne_nil ht)
  | char c s ih =>
    by_cases hc : isSpace c
    · obtain ⟨r, hr⟩ := hp
      have hself : trimLeft (String.utf8EncodeChar c) = [] := by
        rw [← List.append_nil (String.utf8EncodeChar c), trimLeft_append_of_isSpace hc]; rfl
      rcases List.append_eq_append_iff.mp hr with ⟨r', hr', -⟩ | ⟨p', rfl, rfl⟩
      · have hsub : ∀ b ∈ trimLeft p, b ∈ String.utf8EncodeChar c := by
          intro b hb
          rw [hr']
          exact List.mem_append_left _ ((trimLeft_suffix p).subset hb)
        by_cases hlt : c.toNat < 128
        · -- An ASCII space is one byte, which is all of the start or not in it.
          rw [utf8EncodeChar_of_lt hlt] at hself hr'
          cases p with
          | nil => exact absurd rfl (hasText_ne_nil ht)
          | cons b p =>
            obtain ⟨rfl, hnil⟩ := List.cons.inj hr'
            obtain ⟨rfl, -⟩ := List.append_eq_nil_iff.mp hnil.symm
            exact absurd hself (hasText_iff.mp ht).1
        · exact fun b hb => le_of_mem_utf8EncodeChar (Nat.not_lt.mp hlt) (hsub b hb)
      · have hl' : ¬ hasText (p' ++ r) := by
          rwa [hasText_iff, ← trimLeft_append_of_isSpace hc, ← hasText_iff]
        have ht' : hasText p' := by
          rwa [hasText_iff, ← trimLeft_append_of_isSpace hc, ← hasText_iff]
        rw [trimLeft_append_of_isSpace hc]
        exact ih (List.prefix_append p' r) hl' ht'
    · exact absurd ht (not_hasText_of_isPrefix hp (trimLeft_append_of_not_isSpace hc s) hl)
  | byte b s hd _ => exact absurd ht (not_hasText_of_isPrefix hp (trimLeft_cons_of_none hd) hl)

/-- What is left of the start of a line is not longer than what is left of the
line. -/
theorem length_unmarked_le {p l : GoString} (h : p <+: l) : (unmarked e p).length ≤ (unmarked e l).length := by
  cases hm : stripMarker e l with
  | none =>
    have hl : unmarked e l = l := by rw [unmarked, hm, Option.getD_none]
    rw [hl]
    exact (isPrefix_unmarked p).length_le.trans h.length_le
  | some t =>
    have hl : unmarked e l = t := by rw [unmarked, hm, Option.getD_some]
    obtain ⟨bl, hbl, he, rfl⟩ := stripMarker_eq_some.mp hm
    obtain ⟨r, hr⟩ := h
    rw [hl]
    rcases List.append_eq_append_iff.mp hr with ⟨u, rfl, -⟩ | ⟨u, rfl, hu⟩
    · exact (isPrefix_unmarked p).length_le.trans (by simp)
    · cases u with
      | nil => exact (isPrefix_unmarked _).length_le.trans (by simp)
      | cons b u =>
        obtain ⟨rfl, rfl⟩ := List.cons.inj hu
        have hp : stripMarker e (t ++ e :: u) = some t :=
          stripMarker_eq_some.mpr ⟨u, fun b hb => hbl b (List.mem_append_left r hb), he, rfl⟩
        rw [unmarked, hp, Option.getD_some]

/-- The text of a line on its own. -/
theorem length_le_of_mem_joinLines {p x : GoString} (h : x ∈ joinLines e false [some p]) :
    hasText p ∧ x <+: trimLeft p ∧ x.length ≤ (unmarked e p).length := by
  by_cases hp : hasText p
  · have hc : stripComments (trimLeft p) ≠ [] := by simpa [hasText] using hp
    obtain ⟨sp, hsp⟩ := trimLeft_suffix p
    -- The marker is that of the text without the blanks in front of it.
    have hjoin : stripMarker e p = (stripMarker e (trimLeft p)).map (sp ++ ·) := by
      conv_lhs => rw [← hsp]
      refine stripMarker_append (exists_not_isBlank ?_)
      rwa [trimLeft_trimLeft]
    cases hm : stripMarker e (trimLeft p) with
    | none =>
      rw [hm, Option.map_none] at hjoin
      have hx : x = trimLeft p := by simpa [joinLines, hc, hm] using h
      rw [hx, unmarked, hjoin, Option.getD_none]
      exact ⟨hp, List.prefix_refl _, length_trimLeft_le p⟩
    | some t =>
      rw [hm, Option.map_some] at hjoin
      have hx : x = t := by
        cases t with
        | nil => simp [joinLines, hc, hm] at h
        | cons b t =>
          have h' : complete e (b :: t) ∧ x = b :: t := by simpa [joinLines, hc, hm, joinRest] using h
          exact h'.2
      rw [hx, unmarked, hjoin, Option.getD_some]
      exact ⟨hp, isPrefix_of_stripMarker hm, by simp⟩
  · have hc : stripComments (trimLeft p) = [] := by simpa [hasText] using hp
    simp [joinLines, hc] at h

/-! ## When no text is lost -/

/-- An instruction that is open when the scanner stops: the start of the line that
is too long is not taken for the whole instruction. -/
theorem rest_ne_texts {text p l : GoString} {ls : List GoString} (he : e.toNat < 128) (hp : p <+: l)
    (ht : stripMarker e text ≠ none) :
    joinLines e false [some p] ≠ ((l :: ls).foldl (Joining.line e) ⟨[], some text⟩).texts := by
  intro heq
  obtain ⟨t, hm⟩ := Option.ne_none_iff_exists'.mp ht
  obtain ⟨y, ys, hys, hpre, -⟩ := texts_of_open (e := e) (l :: ls) text
  have hy : y ∈ joinLines e false [some p] := by rw [heq, hys]; exact List.mem_cons_self
  obtain ⟨hp', hyp, hlen⟩ := length_le_of_mem_joinLines hy
  by_cases hl : hasText l
  · obtain ⟨y', ys', hys', hpre'⟩ := texts_of_line (e := e) hl ls text
    obtain ⟨rfl, -⟩ := List.cons.inj (hys.symm.trans hys')
    have hle := length_unmarked_le (e := e) hp
    have hpos := List.length_pos_of_mem (mem_of_stripMarker hm)
    have := hpre'.length_le
    rw [List.length_append] at this
    omega
  · have := le_of_mem_trimLeft hp hl hp' e (hyp.subset (hpre.subset (mem_of_stripMarker hm)))
    omega

/-- `Parse` from some point on: `left` is the start of the first of the lines that
follow. -/
theorem rest_eq_texts_iff {j : Joining} {left : Option GoString} {ls : List GoString} (he : e.toNat < 128)
    (hj : j.Ok e) (hnone : left = none → ls = []) (hsome : j.text ≠ none → ∀ p, left = some p → ∃ l r, ls = l :: r ∧ p <+: l) :
    j.rest e (ending left) = (ls.foldl (Joining.line e) j).texts ↔
      (∀ text ∈ (ls.foldl (Joining.line e) j).texts, stripMarker e text = none) ∧
        (ls.foldl (Joining.line e) j).texts = j.texts ∧
        (j.text ≠ none → ∀ p, left = some p → joinLines e false [some p] = []) := by
  obtain ⟨closed, text⟩ := j
  have htexts : Joining.texts ⟨closed, text⟩ = closed ++ text.toList := rfl
  rw [Joining.lines_closed, htexts, Joining.rest, List.append_cancel_left_eq, List.append_cancel_left_eq,
    List.forall_mem_append]
  cases text with
  | none =>
    have hnil : joinLines e false (ending left) = [] := by cases left <;> rfl
    simp only [hnil]
    constructor
    · intro h
      rw [← h]
      exact ⟨⟨hj.closed, by simp⟩, rfl, fun hn => absurd rfl hn⟩
    · exact fun h => h.2.1.symm
  | some text =>
    have ht := hj.text text rfl
    obtain ⟨y, ys, hys, -, hnil⟩ := texts_of_open (e := e) ls text
    simp only [Option.toList_some]
    by_cases hm : stripMarker e text = none
    · -- The open instruction is kept, so the rest of the input must be without text.
      have hrest : joinRest e text (ending left) = text :: joinLines e false (ending left).tail := by
        have hc : complete e text := complete_iff.mpr ⟨ht, hm⟩
        cases left <;> simp [ending, joinRest, hc, joinLines]
      rw [hrest]
      constructor
      · intro h
        rw [hys] at h
        obtain ⟨rfl, rfl⟩ := List.cons.inj h
        have hnil := hnil rfl
        rw [hys, hnil, List.forall_mem_singleton]
        refine ⟨⟨hj.closed, hm⟩, rfl, fun _ p hp => ?_⟩
        rw [hp] at hnil
        exact hnil
      · rintro ⟨-, h, hleft⟩
        rw [h]
        congr 1
        cases left with
        | none => rfl
        | some p => exact hleft (by simp) p rfl
    · have hrest : joinRest e text (ending left) = joinLines e false (ending left).tail := by
        have hc : ¬ complete e text := fun hc => hm (complete_iff.mp hc).2
        cases left <;> simp [ending, joinRest, hc, joinLines]
      rw [hrest]
      constructor
      · intro h
        exfalso
        cases left with
        | none =>
          rw [hnone rfl] at h
          cases h
        | some p =>
          obtain ⟨l, r, rfl, hp⟩ := hsome (by simp) p rfl
          exact rest_ne_texts he hp hm h
      · rintro ⟨⟨-, hall⟩, h, -⟩
        rw [h] at hall
        exact absurd (hall text List.mem_cons_self) hm

theorem isPrefix_dropCR (l : GoString) : dropCR l <+: l := by
  unfold dropCR
  split_ifs
  · exact List.dropLast_prefix l
  · exact List.prefix_refl l

theorem isPrefix_dropCR_take (l : GoString) (n : ℕ) : dropCR (l.take n) <+: dropCR l := by
  by_cases hn : l.length ≤ n
  · have htake : dropCR l = dropCR (l.take n) := by rw [List.take_of_length_le hn]
    exact htake ▸ List.prefix_refl _
  · have htake : l.take n <+: l.dropLast := by
      rw [List.dropLast_eq_take]
      exact List.take_prefix_take_left (by omega)
    have hdrop : l.dropLast <+: dropCR l := by
      unfold dropCR
      split_ifs
      · exact List.prefix_refl _
      · exact List.dropLast_prefix l
    exact (isPrefix_dropCR _).trans (htake.trans hdrop)

/-- The lines that are scanned, and the others. -/
theorem lines_eq (input : GoString) :
    ∃ ls, lines input = scannedLines input ++ ls ∧ (leftover input = none → ls = []) ∧
      (scannedLines input ≠ [] → ∀ p, leftover input = some p → ∃ l r, ls = l :: r ∧ p <+: l) := by
  have hraw := List.takeWhile_append_dropWhile (p := fits) (l := cutLines input)
  unfold lines scannedLines leftover
  cases hpre : (cutLines input).takeWhile fits with
  | nil =>
    refine ⟨_, rfl, fun h => ?_, fun h => absurd rfl h⟩
    rw [hpre, List.nil_append] at hraw
    rw [hraw, Option.map_eq_none_iff, List.head?_eq_none_iff] at h
    rw [h]
    rfl
  | cons a pre =>
    refine ⟨((cutLines input).dropWhile fits).map dropCR, ?_, fun h => ?_, fun _ p h => ?_⟩
    · conv_lhs => rw [← hraw, hpre]
      simp [trimFirst]
    · rw [Option.map_eq_none_iff, List.head?_eq_none_iff] at h
      rw [h]
      rfl
    · obtain ⟨l, hl, rfl⟩ := Option.map_eq_some_iff.mp h
      obtain ⟨r, hr⟩ := List.head?_eq_some_iff.mp hl
      rw [hr]
      exact ⟨dropCR l, r.map dropCR, rfl, isPrefix_dropCR_take l _⟩

theorem EscapeToken.byte_lt (e : EscapeToken) : e.byte.toNat < 128 := by cases e <;> decide

/-- The texts of the children are the instructions of the input, with every line
that contributes in one of them, just if no instruction ends in a marker, and a
line that is too long for the scanner comes behind all text: if an instruction
is open there, the start of the line makes no instruction either. -/
theorem parse_keeps_iff {lib : Lib} {d d' : Directive} {input : GoString} {children : List Node}
    (h : parse lib d input = .ok (d', children)) :
    (children.map Node.original = instructions (escapeTokenOf lib d input).byte (lines input) ∧
        Grouped (escapeTokenOf lib d input).byte (lines input) (children.map Node.original)) ↔
      (∀ text ∈ instructions (escapeTokenOf lib d input).byte (lines input),
          stripMarker (escapeTokenOf lib d input).byte text = none) ∧
        instructions (escapeTokenOf lib d input).byte (lines input) =
          instructions (escapeTokenOf lib d input).byte (scannedLines input) ∧
        ((joining (escapeTokenOf lib d input).byte (scannedLines input)).text ≠ none →
          ∀ p, leftover input = some p → joinLines (escapeTokenOf lib d input).byte false [some p] = []) := by
  rw [parse_texts h]
  have he := (escapeTokenOf lib d input).byte_lt
  generalize (escapeTokenOf lib d input).byte = e at he ⊢
  obtain ⟨ls, hls, hnone, hsome⟩ := lines_eq input
  have hne (hopen : (joining e (scannedLines input)).text ≠ none) : scannedLines input ≠ [] := by
    intro hn
    rw [hn] at hopen
    exact hopen rfl
  have hall : instructions e (lines input) = (ls.foldl (Joining.line e) (joining e (scannedLines input))).texts := by
    rw [hls, instructions, joining, List.foldl_append]
    rfl
  have hiff := rest_eq_texts_iff he (joining_ok (scannedLines input)) hnone fun hopen => hsome (hne hopen)
  rw [← hall] at hiff
  refine Iff.trans ⟨fun hk => hk.1, fun hk => ⟨hk, ?_⟩⟩ hiff
  rw [hk]
  exact instructions_grouped (lines input)

theorem parse_keeps_iff_joined :
    ∃ d' children, parse asciiLib {} (bytesOf "# x\n RUN a \\\n\n  b\nCMD c") = .ok (d', children) ∧
      children.map Node.original = [bytesOf "RUN a   b", bytesOf "CMD c"] := by
  have hok : (parse asciiLib {} (bytesOf "# x\n RUN a \\\n\n  b\nCMD c")).isOk := by decide +kernel
  cases hp : parse asciiLib {} (bytesOf "# x\n RUN a \\\n\n  b\nCMD c") with
  | error err => rw [hp] at hok; cases hok
  | ok r =>
    refine ⟨r.1, r.2, rfl, ((parse_keeps_iff hp).mpr ⟨?_, ?_, ?_⟩).1.trans ?_⟩ <;> decide +kernel

/-- Two markers at the end of the input: the instruction is lost. -/
theorem parse_drops : ∃ d' children, parse asciiLib {} (bytesOf "RUN echo foo \\\\") = .ok (d', children) ∧
    ¬ Grouped (escapeTokenOf asciiLib {} (bytesOf "RUN echo foo \\\\")).byte (lines (bytesOf "RUN echo foo \\\\"))
      (children.map Node.original) := by
  have hok : (parse asciiLib {} (bytesOf "RUN echo foo \\\\")).toOption.map (·.2.length) = some 0 := by decide +kernel
  cases hp : parse asciiLib {} (bytesOf "RUN echo foo \\\\") with
  | error err => rw [hp] at hok; cases hok
  | ok r =>
    rw [hp] at hok
    have hnil : r.2 = [] := List.length_eq_zero_iff.mp (Option.some.inj hok)
    refine ⟨r.1, r.2, rfl, ?_⟩
    rintro ⟨groups, hg, -, hall⟩
    rw [hnil, List.map_nil, eq_comm, List.map_eq_nil_iff] at hg
    rw [hg] at hall
    exact absurd hall (by decide +kernel)

end Moby.Dockerfile
