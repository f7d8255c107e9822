import Moby.Dockerfile.Lines

/-!
# The lines of the instructions

`Parse` numbers the lines that it reads: a child of the root has the first and
the last line of its text, and the root those of all. The numbers of the
children are right (`parse_spans`); the first line of the root is the last one
of its first child, so it is right if that is on one line (`parse_line_numbers`).
-/

namespace Moby.Dockerfile

open Framework (GoString bytesOf)
open Framework.GoString

variable {lib : Lib}

namespace Node

def startLine : Node → ℕ
  | mk _ _ _ _ _ _ a _ => a

def endLine : Node → ℕ
  | mk _ _ _ _ _ _ _ b => b

@[simp] theorem startLine_atLines (n : Node) (a b : ℕ) : (n.atLines a b).startLine = a := by cases n; rfl

@[simp] theorem endLine_atLines (n : Node) (a b : ℕ) : (n.atLines a b).endLine = b := by cases n; rfl

@[simp] theorem original_atLines (n : Node) (a b : ℕ) : (n.atLines a b).original = n.original := by cases n; rfl

end Node

/-! ## The root -/

/-- The lines of the root, as `Parse` has them. -/
structure RootLines where
  startLine : ℤ := -1
  endLine : ℕ := 0

/-- A child is added, when `currentLine` is its last line. -/
def RootLines.add (r : RootLines) (child : Node) : RootLines :=
  { startLine := if r.startLine < 0 then child.endLine else r.startLine
    endLine := child.endLine }

/-- The lines of a root with these children. -/
def rootLines (children : List Node) : RootLines := children.foldl RootLines.add {}

theorem rootLines_later {r : RootLines} (h : 0 ≤ r.startLine) (children : List Node) :
    (children.foldl RootLines.add r).startLine = r.startLine := by
  induction children generalizing r with
  | nil => rfl
  | cons child children ih =>
    have hadd : (r.add child).startLine = r.startLine := if_neg (Int.not_lt.mpr h)
    rw [List.foldl_cons, ih (hadd ▸ h), hadd]

theorem rootLines_startLine (child : Node) (children : List Node) :
    (rootLines (child :: children)).startLine = child.endLine := by
  have hfirst : (RootLines.add {} child).startLine = child.endLine := rfl
  rw [rootLines, List.foldl_cons, rootLines_later (hfirst ▸ Int.natCast_nonneg _), hfirst]

theorem rootLines_endLine (children : List Node) (last : Node) :
    (rootLines (children ++ [last])).endLine = last.endLine := by
  rw [rootLines, List.foldl_append]
  rfl

/-! ## The children -/

/-- The lines that are read, by their numbers. A line that does not fit into the buffer counts when what is in the
buffer is read. -/
def lineAt (input : GoString) : ℕ → Option GoString
  | 0 => none
  | k + 1 => ((scans input).filterMap id)[k]?

/-- The text of a line without the blanks before it. -/
def textAt (L : ℕ → Option GoString) (k : ℕ) : Option GoString :=
  (L k).map fun line => trimLeft (if k = 1 then trimBOM line else line)

/-- The text of a child begins with the text of its first line, which is no comment. -/
def BeginsAt (L : ℕ → Option GoString) (e : UInt8) (child : Node) : Prop :=
  ∃ text, textAt L child.startLine = some text ∧ stripComments text ≠ [] ∧ unmarked e text ≠ [] ∧
    unmarked e text <+: child.original

/-- The lines of the children, after the line `n`: one after the other, each where its text begins. -/
def Spans (L : ℕ → Option GoString) (e : UInt8) : ℕ → List Node → Prop
  | _, [] => True
  | n, child :: children =>
    n < child.startLine ∧ child.startLine ≤ child.endLine ∧ BeginsAt L e child ∧ Spans L e child.endLine children

mutual

/-- Whether the first instruction is on one line: its first line is not continued, or nothing more is read. -/
def oneLine (e : UInt8) (atStart : Bool) : List (Option GoString) → Bool
  | [] => true
  | none :: _ => true
  | some scanned :: rest =>
    let line := trimLeft (if atStart then trimBOM scanned else scanned)
    if stripComments line = [] then oneLine e false rest
    else
      match stripMarker e line with
      | none => true
      | some [] => oneLine e false rest
      | some (b :: text) => oneLineRest e true (b :: text) rest

/-- The same, within an instruction whose text so far is `text`, on one line or on more. -/
def oneLineRest (e : UInt8) (one : Bool) (text : GoString) : List (Option GoString) → Bool
  | [] => one
  | none :: rest => if complete e text then one else oneLine e false rest
  | some newline :: rest =>
    if stripComments (trimSpace newline) = [] then oneLineRest e false text rest
    else
      match stripMarker e (text ++ newline) with
      | none => false
      | some text => oneLineRest e false text rest

end

variable {L : ℕ → Option GoString} {ss : List (Option GoString)} {e : UInt8} {m n a : ℕ} {text : GoString}

theorem Spans.mono (hmn : m ≤ n) {children : List Node}
    (h : Spans L e n children) : Spans L e m children := by
  cases children with
  | nil => trivial
  | cons child children => exact ⟨Nat.lt_of_le_of_lt hmn h.1, h.2⟩

/-- The lines from the number `n + 1` on are those of `ss`. -/
def Ahead (L : ℕ → Option GoString) (n : ℕ) (ss : List (Option GoString)) : Prop :=
  ∀ k, L (n + 1 + k) = (ss.filterMap id)[k]?

theorem Ahead.none (h : Ahead L n (none :: ss)) : Ahead L n ss := h

theorem Ahead.some {line : GoString} (h : Ahead L n (some line :: ss)) : L (n + 1) = some line ∧ Ahead L (n + 1) ss := by
  refine ⟨h 0, fun k => ?_⟩
  have hk := h (k + 1)
  rw [show n + 1 + (k + 1) = n + 1 + 1 + k by omega] at hk
  exact hk

/-- The children that a loop of `Parse` adds, after the line `n`; `one` tells whether the first is on one line. -/
def AddsSpans (L : ℕ → Option GoString) (one : UInt8 → Bool) (n : ℕ) (children : List Node) (r : Directive × List Node) :
    Prop :=
  ∃ new, r.2 = children ++ new ∧ Spans L r.1.escapeToken.byte n new ∧
    ∀ child ∈ new.head?, child.startLine = child.endLine ↔ one r.1.escapeToken.byte = true

namespace AddsSpans

variable {one one' : UInt8 → Bool} {children : List Node} {r : Directive × List Node}

theorem nil {d : Directive} : AddsSpans L one n children (d, children) :=
  ⟨[], (List.append_nil _).symm, trivial, by rintro _ ⟨⟩⟩

theorem mono (hmn : m ≤ n) (h : AddsSpans L one n children r) : AddsSpans L one m children r := by
  obtain ⟨new, hr, hnew, hone⟩ := h
  exact ⟨new, hr, hnew.mono hmn, hone⟩

theorem congr (h : AddsSpans L one n children r) (heq : one' r.1.escapeToken.byte = one r.1.escapeToken.byte) :
    AddsSpans L one' n children r := by
  obtain ⟨new, hr, hnew, hone⟩ := h
  exact ⟨new, hr, hnew, heq ▸ hone⟩

end AddsSpans

/-- What is left of a text that begins at the line `a`. -/
structure Begun (L : ℕ → Option GoString) (e : UInt8) (a : ℕ) (text : GoString) : Prop where
  ne : stripComments text ≠ []
  line : ∃ t, textAt L a = some t ∧ stripComments t ≠ [] ∧ unmarked e t ≠ [] ∧ unmarked e t <+: text

theorem Begun.ne_nil (h : Begun L e a text) : text ≠ [] :=
  fun hn => h.ne (stripComments_eq_nil.mpr (.inl hn))

theorem Begun.append (h : Begun L e a text) (newline : GoString) : Begun L e a (text ++ newline) := by
  obtain ⟨t, ht, hc, hne, hp⟩ := h.line
  exact ⟨stripComments_append h.ne newline, t, ht, hc, hne, hp.trans (List.prefix_append _ _)⟩

/-- The first line of a text that is not continued. -/
theorem Begun.of_none (ht : textAt L a = some text) (hc : stripComments text ≠ []) (hm : stripMarker e text = none) :
    Begun L e a text := by
  have hline : unmarked e text = text := by rw [unmarked, hm, Option.getD_none]
  refine ⟨hc, text, ht, hc, ?_, [], by rw [hline, List.append_nil]⟩
  rw [hline]
  exact fun hn => hc (stripComments_eq_nil.mpr (.inl hn))

theorem Begun.of_some {t : GoString} (ht : textAt L a = some t) (hc : stripComments t ≠ [])
    (hm : stripMarker e t = some text) (hne : text ≠ []) : Begun L e a text := by
  have hline : unmarked e t = text := by rw [unmarked, hm, Option.getD_some]
  refine ⟨stripComments_of_isPrefix (isPrefix_of_stripMarker hm) hne hc, t, ht, hc, hline ▸ hne, ?_⟩
  exact hline ▸ List.prefix_refl _

/-- A node of a text is added, with the lines that it has. -/
theorem AddsSpans.child {one : UInt8 → Bool} {b : ℕ} {node : Node} {children : List Node} {r : Directive × List Node}
    (hm : m < a) (hab : a ≤ b) (hb : Begun L r.1.escapeToken.byte a text)
    (hp : parseInstruction lib e text = .ok ([], some node)) (h : AddsSpans L one b (children ++ [node.atLines a b]) r) :
    AddsSpans L (fun _ => a = b) m children r := by
  obtain ⟨new, hr, hnew, -⟩ := h
  have horiginal : node.original = text := by
    rcases parseInstruction_ok hp with ⟨-, -, hn⟩ | ⟨-, -, hn⟩ | ⟨-, -, node', hn, ho⟩
    · cases hn
    · cases hn
    · cases hn
      exact ho
  have hbegins : BeginsAt L r.1.escapeToken.byte (node.atLines a b) := by
    rw [BeginsAt, Node.startLine_atLines, Node.original_atLines, horiginal]
    exact hb.line
  refine ⟨node.atLines a b :: new, by rw [hr, List.append_assoc, List.singleton_append], ?_, ?_⟩
  · rw [Spans, Node.startLine_atLines, Node.endLine_atLines]
    exact ⟨hm, hab, hbegins, hnew⟩
  · rintro _ ⟨⟩
    simp

/-- The text of an instruction at the end of the input is looked at again. -/
theorem addsSpans_last {one : UInt8 → Bool} {b : ℕ} {d d' : Directive} {children : List Node} {line : GoString}
    {child : Option Node} {r : Directive × List Node} (hm : m < a) (hab : a ≤ b) (he : r.1.escapeToken = d.escapeToken)
    (hb : Begun L r.1.escapeToken.byte a text) (hp : parseLine lib d text = .ok (d', line, child))
    (h : AddsSpans L one b (addChild children a b child) r) :
    AddsSpans L (fun e => if complete e text then a = b else one e) m children r := by
  obtain ⟨-, -, ⟨hmark, rfl⟩ | ⟨hmark, node, rfl, hnode⟩⟩ := parseLine_text hp hb.ne
  · have hc : ¬ complete r.1.escapeToken.byte text := by
      rw [complete_iff, he, hmark]; exact fun hc => nomatch hc.2
    exact (h.mono (Nat.le_trans (Nat.le_of_lt hm) hab)).congr (if_neg hc)
  · have hc : complete r.1.escapeToken.byte text := complete_iff.mpr ⟨hb.ne, he ▸ hmark⟩
    exact (AddsSpans.child hm hab hb hnode h).congr (if_pos hc)

/-- The loop of `Parse` over these lines, where `n` lines have been read. -/
def LinesSpan (lib : Lib) (L : ℕ → Option GoString) (ss : List (Option GoString)) : Prop :=
  ∀ d n children r, Ahead L n ss → parseLines lib d n children ss = .ok r → AddsSpans L (oneLine · (n = 0) ss) n children r

/-- Its inner loop, where the text that is continued began at the line `a`. -/
def RestSpans (lib : Lib) (L : ℕ → Option GoString) (ss : List (Option GoString)) : Prop :=
  ∀ d m n children a text r, Ahead L n ss → m < a → a ≤ n → d.fixed → Begun L d.escapeToken.byte a text →
    continueLine lib d n children a text ss = .ok r → AddsSpans L (oneLineRest · (a = n) text ss) m children r

theorem LinesSpan.cons (ihl : LinesSpan lib L ss) (ihr : RestSpans lib L ss) (s : Option GoString) :
    LinesSpan lib L (s :: ss) := by
  intro d n children r hL h
  cases s with
  | none =>
    cases h
    exact .nil
  | some scanned =>
    obtain ⟨hline, hL⟩ := hL.some
    rw [parseLines] at h
    split at h
    · cases h
    · rename_i d₁ line child hp
      have htext : textAt L (n + 1) = some (trimLeft (if n = 0 then trimBOM scanned else scanned)) := by
        rw [textAt, hline, Option.map_some]
        simp only [Nat.add_eq_right]
      by_cases hc : stripComments (trimLeft (if n = 0 then trimBOM scanned else scanned)) = []
      · obtain ⟨rfl, rfl, -⟩ := parseLine_comment hp hc
        rw [if_neg (by simp)] at h
        exact ((ihl _ _ _ _ hL h).mono (Nat.le_succ n)).congr (by simp [oneLine, hc])
      · obtain ⟨hl, he, ⟨hm, rfl⟩ | ⟨hm, node, rfl, hinst⟩⟩ := parseLine_text hp hc
        · cases line with
          | nil =>
            rw [if_neg (by simp)] at h
            have he₁ : r.1.escapeToken = d.escapeToken := (((loops_add ss).1 _ _ _ _ h).1 hl).trans he
            exact ((ihl _ _ _ _ hL h).mono (Nat.le_succ n)).congr (by simp [oneLine, hc, he₁, hm])
          | cons b text =>
            rw [if_pos (by simp)] at h
            have hb : Begun L d₁.escapeToken.byte (n + 1) (b :: text) :=
              .of_some htext hc (he ▸ hm) (List.cons_ne_nil b text)
            have he₁ : r.1.escapeToken = d.escapeToken := ((loops_add ss).2 _ _ _ _ _ _ hl hb.ne h).1.trans he
            have hrest := ihr d₁ n (n + 1) children (n + 1) _ r hL (Nat.lt_succ_self n) (Nat.le_refl _) hl hb h
            exact hrest.congr (by simp [oneLine, hc, he₁, hm])
        · rw [if_neg (by simp)] at h
          have he₁ : r.1.escapeToken = d.escapeToken := (((loops_add ss).1 _ _ _ _ h).1 hl).trans he
          have hb : Begun L r.1.escapeToken.byte (n + 1) _ := .of_none htext hc (he₁ ▸ hm)
          refine (AddsSpans.child (Nat.lt_succ_self n) (Nat.le_refl _) hb hinst (ihl _ _ _ _ hL h)).congr ?_
          simp [oneLine, hc, he₁, hm]

theorem RestSpans.nil : RestSpans lib L [] := by
  intro d m n children a text r _ hm han hd hb h
  obtain ⟨n, rfl⟩ : ∃ k, n = k + 1 := ⟨n - 1, by omega⟩
  have he := ((loops_add []).2 d n children a text r hd hb.ne h).1
  rw [continueLine, if_neg hb.ne_nil] at h
  split at h
  · cases h
  · rename_i d₁ line child hp
    cases h
    have hnil {cs : List Node} : AddsSpans L (fun _ => a = n + 1) (n + 1) cs (d₁, cs) := .nil
    exact (addsSpans_last hm han he (he ▸ hb) hp hnil).congr (by simp [oneLineRest])

theorem RestSpans.cons (ihl : LinesSpan lib L ss) (ihr : RestSpans lib L ss) (s : Option GoString) :
    RestSpans lib L (s :: ss) := by
  intro d m n children a text r hL hm han hd hb h
  obtain ⟨n, rfl⟩ : ∃ k, n = k + 1 := ⟨n - 1, by omega⟩
  have he := ((loops_add (s :: ss)).2 d n children a text r hd hb.ne h).1
  cases s with
  | none =>
    rw [continueLine, if_neg hb.ne_nil] at h
    split at h
    · cases h
    · rename_i d₁ line child hp
      exact (addsSpans_last hm han he (he ▸ hb) hp (ihl _ _ _ _ hL.none h)).congr (by simp [oneLineRest])
  | some newline =>
    obtain ⟨-, hL⟩ := hL.some
    have han' : a ≤ n + 1 + 1 := Nat.le_succ_of_le han
    have hlt : ¬ a = n + 1 + 1 := Nat.ne_of_lt (Nat.lt_succ_of_le han)
    rw [continueLine] at h
    split_ifs at h with hblank
    · exact (ihr d m _ children a text r hL hm han' hd hb h).congr (by simp [oneLineRest, hblank, hlt])
    · have hb' := hb.append newline
      split at h
      · cases h
      · rename_i d₁ line hp
        obtain ⟨hl, he', ⟨hmark, -⟩ | ⟨-, node, hnode, -⟩⟩ := parseLine_text hp hb'.ne
        · have hmark' := hmark
          rw [stripMarker_join hblank, Option.map_eq_some_iff] at hmark'
          obtain ⟨u, -, rfl⟩ := hmark'
          have hrest := ihr d₁ m _ children a _ r hL hm han' hl (he' ▸ hb.append u) h
          exact hrest.congr (by simp [oneLineRest, hblank, hlt, he, hmark])
        · cases hnode
      · rename_i d₁ line child hp
        obtain ⟨-, -, ⟨-, hc⟩ | ⟨hmark, node, hnode, hinst⟩⟩ := parseLine_text hp hb'.ne
        · cases hc
        · cases hnode
          refine (AddsSpans.child hm han' (he ▸ hb') hinst (ihl _ _ _ _ hL h)).congr ?_
          simp [oneLineRest, hblank, hlt, he, hmark]

theorem loops_spans (L : ℕ → Option GoString) (ss : List (Option GoString)) : LinesSpan lib L ss ∧ RestSpans lib L ss := by
  induction ss with
  | nil => exact ⟨fun d n children r _ h => by cases h; exact .nil, .nil⟩
  | cons s ss ih => exact ⟨.cons ih.1 ih.2 s, .cons ih.1 ih.2 s⟩

theorem parse_spans {d d' : Directive} {input : GoString} {children : List Node}
    (h : parse lib d input = .ok (d', children)) :
    Spans (lineAt input) (escapeTokenOf lib d input).byte 0 children ∧ ∀ child ∈ children.head?,
      child.startLine = child.endLine ↔ oneLine (escapeTokenOf lib d input).byte true (scans input) = true := by
  have hL : Ahead (lineAt input) 0 (scans input) := fun k => by rw [Nat.zero_add, Nat.add_comm]; rfl
  obtain ⟨new, hr, hnew⟩ := (loops_spans (lineAt input) (scans input)).1 d 0 [] _ hL h
  rw [List.nil_append] at hr
  cases hr
  rw [← parse_escapeToken h]
  exact hnew

/-- The lines of an input that has an instruction. Those of the children are in their order, and each begins where
its text does; the last line of the root is that of its last child; and the first line of the root is that of its
first child exactly if the first instruction of the input is on one line. -/
theorem parse_line_numbers {d d' : Directive} {input : GoString} {first : Node} {children : List Node}
    (h : parse lib d input = .ok (d', first :: children)) :
    Spans (lineAt input) (escapeTokenOf lib d input).byte 0 (first :: children) ∧
    (∀ last ∈ (first :: children).getLast?, (rootLines (first :: children)).endLine = last.endLine) ∧
    ((rootLines (first :: children)).startLine = first.startLine ↔
      oneLine (escapeTokenOf lib d input).byte true (scans input) = true) := by
  obtain ⟨hspans, hone⟩ := parse_spans h
  refine ⟨hspans, fun last hlast => ?_, ?_⟩
  · obtain ⟨pre, hpre⟩ := List.getLast?_eq_some_iff.mp hlast
    rw [hpre, rootLines_endLine]
  · rw [rootLines_startLine, Int.natCast_inj, eq_comm]
    exact hone first rfl

/-- The lines of an outcome, for an input that is fixed. -/
theorem parse_view {input : GoString} {lines : List (ℕ × ℕ)}
    (h : (parse asciiLib {} input).toOption.map (fun r => r.2.map fun c => (c.startLine, c.endLine)) = some lines) :
    ∃ d' children, parse asciiLib {} input = .ok (d', children) ∧
      children.map (fun c => (c.startLine, c.endLine)) = lines := by
  cases hp : parse asciiLib {} input with
  | error e =>
    rw [hp] at h
    cases h
  | ok r =>
    rw [hp] at h
    exact ⟨r.1, r.2, rfl, Option.some.inj h⟩

/-- An instruction on two lines: the root begins at the second. -/
theorem parse_root_begins_late : ∃ d' first, parse asciiLib {} (bytesOf "RUN a \\\n b") = .ok (d', [first]) ∧
    first.startLine = 1 ∧ (rootLines [first]).startLine = 2 := by
  obtain ⟨d', children, hp, hlines⟩ := @parse_view (bytesOf "RUN a \\\n b") [(1, 2)] (by decide +kernel)
  obtain ⟨first, rfl, hfirst⟩ := List.map_eq_singleton_iff.mp hlines
  rw [Prod.mk.injEq] at hfirst
  refine ⟨d', first, hp, hfirst.1, ?_⟩
  rw [rootLines_startLine, hfirst.2]
  rfl

/-- A comment, an instruction on one line, and one on two lines. -/
def threeLines : GoString := bytesOf "# a\n RUN a\nRUN b \\\n c"

theorem parse_line_numbers_three : ∃ d' first second, parse asciiLib {} threeLines = .ok (d', [first, second]) ∧
    (first.startLine, first.endLine) = (2, 2) ∧ (second.startLine, second.endLine) = (3, 4) ∧
    Spans (lineAt threeLines) (escapeTokenOf asciiLib {} threeLines).byte 0 [first, second] ∧
    (rootLines [first, second]).startLine = first.startLine := by
  obtain ⟨d', children, hp, hlines⟩ := @parse_view threeLines [(2, 2), (3, 4)] (by decide +kernel)
  obtain ⟨first, rest, rfl, hfirst, hrest⟩ := List.map_eq_cons_iff.mp hlines
  obtain ⟨second, rfl, hsecond⟩ := List.map_eq_singleton_iff.mp hrest
  obtain ⟨hspans, -, hroot⟩ := parse_line_numbers hp
  exact ⟨d', first, second, hp, hfirst, hsecond, hspans, hroot.mpr (by decide +kernel)⟩

end Moby.Dockerfile
