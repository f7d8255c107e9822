import Moby.Dockerfile.Parser

/-!
# The lines of a Dockerfile

Which text every instruction of a parsed Dockerfile comes from.

* `parseInstruction_eq`: the recursion of `ParseLine`.
* `joinLines`: the texts that `Parse` makes instructions of.
* `parse_children`: the children of the root are these texts, parsed.
-/

namespace Moby.Dockerfile

open Framework (GoString bytesOf)
open Framework.GoString

variable {lib : Lib} {e : UInt8}

/-! ## The recursion of `ParseLine` -/

/-- What `extractBuilderFlags` leaves is an end of the line. -/
theorem flagsLoop_suffix (st : Scan UInt8) (line : GoString) : (flagsLoop st line).1 <:+ line := by
  have hcons {s t : GoString} {b : UInt8} (h : s <:+ t) : s <:+ b :: t := h.trans (List.suffix_cons b t)
  fun_induction flagsLoop st line
  -- The loop ends at the end of the line or in front of a rune, or goes on behind one or two of them.
  all_goals
    first
    | exact List.nil_suffix
    | exact List.suffix_refl _
    | (rename_i ih; exact hcons ih)
    | (rename_i ih; exact hcons (hcons ih))

theorem length_splitFirst_lt {s w t : GoString} (h : splitFirst s = (w, some t)) : t.length < s.length := by
  have hlen := congrArg List.length (List.takeWhile_append_dropWhile (p := (!isToken ·)) (l := s))
  rw [List.length_append] at hlen
  unfold splitFirst at h
  split at h
  · cases h
  · rename_i b u hd
    cases h
    have hu := (List.dropWhile_sublist isToken (l := u)).length_le
    rw [hd, List.length_cons] at hlen
    omega

/-- The arguments of an instruction are shorter than its line. -/
theorem length_splitCommand_lt {line cmd args : GoString} {flags : List GoString}
    (h : splitCommand lib line = (cmd, flags, args)) (hargs : args ≠ []) : args.length < line.length := by
  unfold splitCommand at h
  split at h
  · cases h; exact absurd rfl hargs
  · rename_i w rest hs
    cases h
    have h₁ := length_splitFirst_lt hs
    have h₂ := length_trimSpace_le line
    have h₃ := (flagsLoop_suffix { quote := 0 } rest).length_le
    have h₄ := length_trimSpace_le (extractBuilderFlags rest).1
    unfold extractBuilderFlags at h₄ ⊢
    omega

theorem fullDispatch_congr {f g : GoString → Except Err (GoString × Option Node)} {cmd args : GoString}
    (h : args ≠ [] → f args = g args) : fullDispatch lib e f cmd args = fullDispatch lib e g cmd args := by
  unfold fullDispatch
  split
  all_goals first | rfl | skip
  unfold parseSubCommand
  split
  · rfl
  · rename_i hargs; rw [h hargs]

theorem parseInstructionWith_congr {f g : GoString → Except Err (GoString × Option Node)} {line : GoString}
    (h : ∀ s, s.length < line.length → f s = g s) :
    parseInstructionWith lib e f line = parseInstructionWith lib e g line := by
  unfold parseInstructionWith
  split
  · rfl
  · split
    · rfl
    · rcases hs : splitCommand lib line with ⟨cmd, flags, args⟩
      simp only
      rw [fullDispatch_congr fun hargs => h args (length_splitCommand_lt hs hargs)]

theorem parseInstructionAux_eq {n : ℕ} {line : GoString} (h : line.length < n) :
    parseInstructionAux lib e n line = parseInstruction lib e line := by
  induction n using Nat.strong_induction_on generalizing line with
  | _ n ih =>
    obtain ⟨n, rfl⟩ : ∃ m, n = m + 1 := ⟨n - 1, by omega⟩
    rw [parseInstruction, parseInstructionAux, parseInstructionAux]
    refine parseInstructionWith_congr fun s hs => ?_
    rw [ih n (by omega) (by omega)]
    by_cases hn : line.length = n
    · rw [hn, ih n (by omega) (by omega)]
    · rw [ih line.length (by omega) hs]

/-- `ParseLine` behind the directives calls itself for the argument of
`ONBUILD`. -/
theorem parseInstruction_eq (line : GoString) :
    parseInstruction lib e line = parseInstructionWith lib e (parseInstruction lib e) line := by
  rw [parseInstruction, parseInstructionAux]
  exact parseInstructionWith_congr fun s hs => parseInstructionAux_eq hs

/-! ## Markers and comments -/

theorem stripComments_eq_nil {s : GoString} : stripComments s = [] ↔ s = [] ∨ s.head? = some 0x23 := by
  unfold stripComments
  split_ifs with h
  · simp [h]
  · simp [h]

theorem stripComments_trimSpace (s : GoString) : stripComments (trimSpace s) = [] ↔ stripComments (trimLeft s) = [] := by
  rw [stripComments_eq_nil, stripComments_eq_nil, head?_trimSpace, ← List.head?_eq_none_iff, head?_trimSpace,
    List.head?_eq_none_iff]

theorem stripComments_append {s : GoString} (h : stripComments s ≠ []) (t : GoString) : stripComments (s ++ t) ≠ [] := by
  rw [ne_eq, stripComments_eq_nil, not_or] at h ⊢
  rw [List.head?_append_of_ne_nil _ h.1]
  exact ⟨fun hn => h.1 (List.append_eq_nil_iff.mp hn).1, h.2⟩

theorem isSpace_of_isBlank {b : UInt8} (h : isBlank b) : b.toNat < 128 ∧ isSpace (Char.ofNat b.toNat) := by
  simp only [isBlank, Bool.or_eq_true, decide_eq_true_eq] at h
  rcases h with rfl | rfl <;> decide

theorem trimLeft_blanks {s : GoString} (h : ∀ b ∈ s, isBlank b) : trimLeft s = [] := by
  have hspace : ∀ p ∈ runes s, isSpace p.1 := by
    induction s with
    | nil => rintro _ ⟨⟩
    | cons b s ih =>
      have hb := isSpace_of_isBlank (h b List.mem_cons_self)
      rw [runes_cons_of_lt hb.1, List.forall_mem_cons]
      exact ⟨hb.2, ih fun b hb => h b (List.mem_cons_of_mem _ hb)⟩
  rw [trimLeft, List.dropWhile_eq_nil_iff.mpr hspace, raw_nil]

/-- A line that is neither blank nor a comment is not all blanks. -/
theorem exists_not_isBlank {s : GoString} (h : stripComments (trimLeft s) ≠ []) : ∃ b ∈ s, ¬ isBlank b := by
  by_contra hall
  simp only [not_exists, not_and, not_not] at hall
  exact h (stripComments_eq_nil.mpr (.inl (trimLeft_blanks hall)))

/-- The marker of a line that is joined to a text is the marker of the line. -/
theorem stripMarker_append {t l : GoString} (h : ∃ b ∈ l, ¬ isBlank b) :
    stripMarker e (t ++ l) = (stripMarker e l).map (t ++ ·) := by
  obtain ⟨b, hb, hblank⟩ := h
  unfold stripMarker
  rw [List.reverse_append, List.dropWhile_append]
  cases hd : l.reverse.dropWhile isBlank with
  | nil => exact absurd (List.dropWhile_eq_nil_iff.mp hd b (List.mem_reverse.mpr hb)) hblank
  | cons x s =>
    simp only [List.isEmpty_cons, Bool.false_eq_true, if_false, List.cons_append]
    split_ifs <;> simp

/-- The marker at the end of a line. -/
theorem stripMarker_eq_some {s t : GoString} :
    stripMarker e s = some t ↔ ∃ bl, (∀ b ∈ bl, isBlank b) ∧ ¬ isBlank e ∧ s = t ++ e :: bl := by
  unfold stripMarker
  constructor
  · intro h
    have hs := List.takeWhile_append_dropWhile (p := isBlank) (l := s.reverse)
    split at h
    · rename_i b u hd
      split_ifs at h with hb
      cases h
      subst hb
      have hblank : ¬ isBlank b := by
        have := List.head_dropWhile_not isBlank (l := s.reverse) (by rw [hd]; exact List.cons_ne_nil b u)
        simp only [hd, List.head_cons] at this
        rw [this]; exact Bool.false_ne_true
      refine ⟨(s.reverse.takeWhile isBlank).reverse, ?_, hblank, ?_⟩
      · exact fun x hx => List.mem_takeWhile_imp (List.mem_reverse.mp hx)
      · rw [hd] at hs
        rw [← List.reverse_inj, ← hs]
        simp [hs]
    · cases h
  · rintro ⟨bl, hbl, he, rfl⟩
    rw [List.reverse_append, List.reverse_cons, List.append_assoc, List.singleton_append,
      List.dropWhile_append_of_pos fun b hb => hbl b (List.mem_reverse.mp hb), List.dropWhile_cons_of_neg he]
    simp

theorem isPrefix_of_stripMarker {s t : GoString} (h : stripMarker e s = some t) : t <+: s := by
  obtain ⟨bl, -, -, rfl⟩ := stripMarker_eq_some.mp h
  exact List.prefix_append t _

theorem stripComments_of_isPrefix {s t : GoString} (h : t <+: s) (ht : t ≠ []) (hs : stripComments s ≠ []) :
    stripComments t ≠ [] := by
  obtain ⟨u, rfl⟩ := h
  rw [ne_eq, stripComments_eq_nil, not_or, List.head?_append_of_ne_nil _ ht] at hs
  rw [ne_eq, stripComments_eq_nil, not_or]
  exact ⟨ht, hs.2⟩

/-! ## The texts of the instructions -/

/-- A line without the marker at its end. -/
def unmarked (e : UInt8) (line : GoString) : GoString := (stripMarker e line).getD line

/-- A text that `ParseLine` has a node for: no comment, and not continued. -/
def complete (e : UInt8) (text : GoString) : Bool := stripComments text ≠ [] ∧ stripMarker e text = none

mutual

/-- The texts that the loops of `Parse` make instructions of. -/
def joinLines (e : UInt8) (atStart : Bool) : List (Option GoString) → List GoString
  | [] => []
  | none :: _ => []
  | some scanned :: rest =>
    let line := trimLeft (if atStart then trimBOM scanned else scanned)
    if stripComments line = [] then joinLines e false rest
    else
      match stripMarker e line with
      | none => line :: joinLines e false rest
      | some [] => joinLines e false rest
      | some (b :: text) => joinRest e (b :: text) rest

/-- The same, within an instruction whose text so far is `text`. -/
def joinRest (e : UInt8) (text : GoString) : List (Option GoString) → List GoString
  | [] => if complete e text then [text] else []
  | none :: rest => (if complete e text then [text] else []) ++ joinLines e false rest
  | some newline :: rest =>
    if stripComments (trimSpace newline) = [] then joinRest e text rest
    else
      match stripMarker e (text ++ newline) with
      | none => (text ++ newline) :: joinLines e false rest
      | some text => joinRest e text rest

end

/-- The node of a text, at some lines. -/
def IsNode (lib : Lib) (e : UInt8) (text : GoString) (child : Node) : Prop :=
  ∃ node startLine endLine, parseInstruction lib e text = .ok ([], some node) ∧ child = node.atLines startLine endLine

/-- What `ParseLine` does behind the directives. -/
theorem parseInstruction_ok {text line : GoString} {child : Option Node}
    (h : parseInstruction lib e text = .ok (line, child)) :
    (stripComments text = [] ∧ line = [] ∧ child = none) ∨
      (stripComments text ≠ [] ∧ stripMarker e text = some line ∧ child = none) ∨
      complete e text ∧ line = [] ∧ ∃ node, child = some node ∧ node.original = text := by
  rw [parseInstruction_eq] at h
  unfold parseInstructionWith at h
  split at h
  · rename_i hc; cases h; exact .inl ⟨hc, rfl, rfl⟩
  · rename_i hc
    split at h
    · rename_i hm; cases h; exact .inr (.inl ⟨hc, hm, rfl⟩)
    · rename_i hm
      have hcomplete : complete e text := by simp [complete, hc, hm]
      simp only at h
      split at h
      · cases h
      · cases h; exact .inr (.inr ⟨hcomplete, rfl, _, rfl, rfl⟩)

/-- The escape token will not change any more. -/
def Directive.fixed (d : Directive) : Bool := !d.lookingForDirectives || d.escapeSeen

/-- The escape token behind a line. -/
def directiveToken (lib : Lib) (d : Directive) (line : GoString) : EscapeToken :=
  if d.fixed then d.escapeToken
  else
    match escapeCommand (toLower lib.lower line) with
    | some [0x60] => .backquote
    | some [0x5C] => .backslash
    | _ => d.escapeToken

theorem escapeCommand_head? {s t : GoString} (h : escapeCommand s = some t) : s.head? = some 0x23 := by
  unfold escapeCommand at h
  split at h
  · rfl
  · cases h

theorem Lib.lower_hash (lib : Lib) (c : Char) (h : (lib.lower c).toNat = (0x23 : UInt8).toNat) : lib.lower c = c := by
  have hhash : lib.lower c = '#' := Char.toNat_inj.mp h
  exact lib.eq_of_lower c (by rw [hhash]; decide) (by rw [hhash]; decide)

/-- Only a comment is a directive. -/
theorem head?_of_escapeCommand {text s : GoString} (h : escapeCommand (toLower lib.lower text) = some s) :
    text.head? = some 0x23 :=
  head?_of_toLower (by decide) lib.lower_hash (escapeCommand_head? h)

/-- What `ParseLine` does: the line is a directive, and a comment, or it is
looked at with the directives behind it. -/
theorem parseLine_ok {d d' : Directive} {text line : GoString} {child : Option Node}
    (h : parseLine lib d text = .ok (d', line, child)) :
    d'.fixed ∧ d'.escapeToken = directiveToken lib d text ∧
      ((d.fixed = false ∧ text.head? = some 0x23 ∧ line = [] ∧ child = none) ∨
        d'.escapeToken = d.escapeToken ∧ parseInstruction lib d.escapeToken.byte text = .ok (line, child)) := by
  unfold parseLine at h
  unfold directiveToken
  split at h
  · rename_i s hs
    rw [Option.ite_none_right_eq_some] at hs
    obtain ⟨hl, hs⟩ := hs
    split_ifs at h with hseen
    have hf : d.fixed = false := by simp [Directive.fixed, hl, hseen]
    split at h
    · cases h
    · rename_i d₁ hset
      cases h
      refine ⟨by simp [Directive.fixed], ?_, .inl ⟨hf, head?_of_escapeCommand hs, rfl, rfl⟩⟩
      rw [hf, hs]
      unfold setEscapeToken at hset
      split_ifs at hset with h₁ h₂
      · cases hset; subst h₁; rfl
      · cases hset; subst h₂; rfl
  · rename_i hs
    split at h
    · cases h
    · rename_i hp
      cases h
      refine ⟨rfl, ?_, .inr ⟨rfl, hp⟩⟩
      split_ifs with hf
      · rfl
      · have hl : d.lookingForDirectives := by
          by_contra hn
          exact hf (by simp [Directive.fixed, hn])
        rw [if_pos hl] at hs
        rw [hs]

theorem complete_iff {text : GoString} : complete e text ↔ stripComments text ≠ [] ∧ stripMarker e text = none := by
  simp [complete]

/-- A text that is continued goes on with the line that is joined to it. -/
theorem stripMarker_join {text newline : GoString} (hn : stripComments (trimSpace newline) ≠ []) :
    stripMarker e (text ++ newline) = (stripMarker e newline).map (text ++ ·) :=
  stripMarker_append (exists_not_isBlank fun h => hn ((stripComments_trimSpace newline).mpr h))

/-- `ParseLine` on a comment or an empty line; only a directive changes the escape
token. -/
theorem parseLine_comment {d d' : Directive} {text line : GoString} {child : Option Node}
    (h : parseLine lib d text = .ok (d', line, child)) (ht : stripComments text = []) :
    line = [] ∧ child = none ∧ (d.fixed → d'.escapeToken = d.escapeToken) := by
  obtain ⟨-, -, ⟨hf, -, rfl, rfl⟩ | ⟨he, hp⟩⟩ := parseLine_ok h
  · exact ⟨rfl, rfl, fun hd => absurd hd (by rw [hf]; exact Bool.false_ne_true)⟩
  · rcases parseInstruction_ok hp with ⟨-, rfl, rfl⟩ | ⟨hne, -⟩ | ⟨hc, -⟩
    · exact ⟨rfl, rfl, fun _ => he⟩
    · exact absurd ht hne
    · exact absurd ht (complete_iff.mp hc).1

/-- `ParseLine` on other text: it is continued, or it is an instruction. -/
theorem parseLine_text {d d' : Directive} {text line : GoString} {child : Option Node}
    (h : parseLine lib d text = .ok (d', line, child)) (ht : stripComments text ≠ []) :
    d'.fixed ∧ d'.escapeToken = d.escapeToken ∧
      (stripMarker d.escapeToken.byte text = some line ∧ child = none ∨
        stripMarker d.escapeToken.byte text = none ∧
          ∃ node, child = some node ∧ parseInstruction lib d.escapeToken.byte text = .ok ([], some node)) := by
  rw [ne_eq, stripComments_eq_nil, not_or] at ht
  obtain ⟨hf, -, ⟨-, hhead, -⟩ | ⟨he, hp⟩⟩ := parseLine_ok h
  · exact absurd hhead ht.2
  · refine ⟨hf, he, ?_⟩
    rcases parseInstruction_ok hp with ⟨hc, -⟩ | ⟨-, hm, rfl⟩ | ⟨hc, rfl, node, rfl, -⟩
    · exact absurd (stripComments_eq_nil.mp hc) (not_or.mpr ht)
    · exact .inl ⟨hm, rfl⟩
    · exact .inr ⟨(complete_iff.mp hc).2, node, rfl, hp⟩

/-- The children that a loop of `Parse` adds. -/
def Adds (lib : Lib) (texts : UInt8 → List GoString) (children : List Node) (r : Directive × List Node) : Prop :=
  ∃ new, r.2 = children ++ new ∧ List.Forall₂ (IsNode lib r.1.escapeToken.byte) (texts r.1.escapeToken.byte) new

theorem Adds.child {texts : UInt8 → List GoString} {children : List Node} {r : Directive × List Node} {text : GoString}
    {node : Node} {a b : ℕ} (hp : parseInstruction lib r.1.escapeToken.byte text = .ok ([], some node))
    (h : Adds lib texts (children ++ [node.atLines a b]) r) : Adds lib (fun e => text :: texts e) children r := by
  obtain ⟨new, hr, hnew⟩ := h
  exact ⟨node.atLines a b :: new, by rw [hr, List.append_assoc, List.singleton_append], .cons ⟨node, a, b, hp, rfl⟩ hnew⟩

theorem Adds.congr {texts texts' : UInt8 → List GoString} {children : List Node} {r : Directive × List Node}
    (h : Adds lib texts children r) (heq : texts' r.1.escapeToken.byte = texts r.1.escapeToken.byte) :
    Adds lib texts' children r := by
  unfold Adds
  rw [heq]
  exact h

/-- The text of an instruction at the end of the input is looked at again. -/
theorem adds_last {d d' : Directive} {children : List Node} {a b : ℕ} {text line : GoString} {child : Option Node}
    {r : Directive × List Node} (rest : UInt8 → List GoString) (hp : parseLine lib d text = .ok (d', line, child))
    (ht : stripComments text ≠ []) (he : r.1.escapeToken = d.escapeToken)
    (h : Adds lib rest (addChild children a b child) r) :
    Adds lib (fun e => (if complete e text then [text] else []) ++ rest e) children r := by
  obtain ⟨-, -, ⟨hm, rfl⟩ | ⟨hm, node, rfl, hnode⟩⟩ := parseLine_text hp ht
  · have hc : ¬ complete r.1.escapeToken.byte text := by
      rw [complete_iff, he, hm]; exact fun hc => nomatch hc.2
    exact h.congr (by simp [hc])
  · have hc : complete r.1.escapeToken.byte text := complete_iff.mpr ⟨ht, he ▸ hm⟩
    exact (Adds.child (he ▸ hnode) h).congr (by simp [hc])

/-- The two loops of `Parse`. While a directive may come the escape token may
change, and only then. -/
theorem loops_add (ss : List (Option GoString)) :
    (∀ d n children r, parseLines lib d n children ss = .ok r →
      (d.fixed → r.1.escapeToken = d.escapeToken) ∧
      Adds lib (joinLines · (n = 0) ss) children r) ∧
    ∀ d n children a text r, d.fixed → stripComments text ≠ [] →
      continueLine lib d (n + 1) children a text ss = .ok r →
      r.1.escapeToken = d.escapeToken ∧ Adds lib (joinRest · text ss) children r := by
  induction ss with
  | nil =>
    refine ⟨fun d n children r h => ?_, fun d n children a text r hd ht h => ?_⟩
    · cases h; exact ⟨fun _ => rfl, [], (List.append_nil _).symm, .nil⟩
    · have hne : text ≠ [] := fun hn => ht (stripComments_eq_nil.mpr (.inl hn))
      rw [continueLine, if_neg hne] at h
      split at h
      · cases h
      · rename_i d₁ line child hp
        cases h
        obtain ⟨-, he, -⟩ := parseLine_text hp ht
        refine ⟨he, (adds_last (fun _ => []) hp ht he ⟨[], (List.append_nil _).symm, .nil⟩).congr ?_⟩
        rw [joinRest, List.append_nil]
  | cons s ss ih =>
    obtain ⟨ihl, ihr⟩ := ih
    refine ⟨fun d n children r h => ?_, fun d n children a text r hd ht h => ?_⟩
    · cases s with
      | none => cases h; exact ⟨fun _ => rfl, [], (List.append_nil _).symm, .nil⟩
      | some scanned =>
        rw [parseLines] at h
        split at h
        · cases h
        · rename_i d₁ line child hp
          by_cases hc : stripComments (trimLeft (if n = 0 then trimBOM scanned else scanned)) = []
          · obtain ⟨rfl, rfl, hd⟩ := parseLine_comment hp hc
            rw [if_neg (by simp)] at h
            obtain ⟨he, hadds⟩ := ihl _ _ _ _ h
            refine ⟨fun hl => (he (parseLine_ok hp).1).trans (hd hl), hadds.congr ?_⟩
            simp [joinLines, hc]
          · obtain ⟨hl, he, ⟨hm, rfl⟩ | ⟨hm, node, rfl, hinst⟩⟩ := parseLine_text hp hc
            · cases line with
              | nil =>
                rw [if_neg (by simp)] at h
                obtain ⟨he', hadds⟩ := ihl _ _ _ _ h
                have he₁ : r.1.escapeToken = d.escapeToken := (he' hl).trans he
                refine ⟨fun _ => he₁, hadds.congr ?_⟩
                simp [joinLines, hc, he₁, hm]
              | cons b text =>
                rw [if_pos (by simp)] at h
                have htext := stripComments_of_isPrefix (isPrefix_of_stripMarker hm) (List.cons_ne_nil b text) hc
                obtain ⟨he', hadds⟩ := ihr d₁ n children _ _ r hl htext h
                have he₁ : r.1.escapeToken = d.escapeToken := he'.trans he
                refine ⟨fun _ => he₁, hadds.congr ?_⟩
                simp [joinLines, hc, he₁, hm]
            · rw [if_neg (by simp)] at h
              obtain ⟨he', hadds⟩ := ihl _ _ _ _ h
              have he₁ : r.1.escapeToken = d.escapeToken := (he' hl).trans he
              refine ⟨fun _ => he₁, (Adds.child (he₁ ▸ hinst) hadds).congr ?_⟩
              simp [joinLines, hc, he₁, hm]
    · have hne : text ≠ [] := fun hn => ht (stripComments_eq_nil.mpr (.inl hn))
      cases s with
      | none =>
        rw [continueLine, if_neg hne] at h
        split at h
        · cases h
        · rename_i d₁ line child hp
          obtain ⟨hl, he, -⟩ := parseLine_text hp ht
          obtain ⟨he', hadds⟩ := ihl _ _ _ _ h
          have he₁ : r.1.escapeToken = d.escapeToken := (he' hl).trans he
          refine ⟨he₁, (adds_last _ hp ht he₁ hadds).congr ?_⟩
          rw [joinRest]; simp
      | some newline =>
        rw [continueLine] at h
        split_ifs at h with hblank
        · obtain ⟨he, hadds⟩ := ihr d (n + 1) children a text r hd ht h
          exact ⟨he, hadds.congr (by rw [joinRest, if_pos hblank])⟩
        · have ht' := stripComments_append ht newline
          split at h
          · cases h
          · rename_i d₁ line hp
            obtain ⟨hl, he, ⟨hm, -⟩ | ⟨-, node, hnode, -⟩⟩ := parseLine_text hp ht'
            · have hline : stripComments line ≠ [] := by
                rw [stripMarker_join hblank, Option.map_eq_some_iff] at hm
                obtain ⟨u, -, rfl⟩ := hm
                exact stripComments_append ht u
              obtain ⟨he', hadds⟩ := ihr d₁ (n + 1) children a line r hl hline h
              refine ⟨he'.trans he, hadds.congr ?_⟩
              rw [joinRest, if_neg hblank, he'.trans he, hm]
            · cases hnode
          · rename_i d₁ line child hp
            obtain ⟨hl, he, ⟨-, hc⟩ | ⟨hm, node, hnode, hinst⟩⟩ := parseLine_text hp ht'
            · cases hc
            · cases hnode
              obtain ⟨he', hadds⟩ := ihl _ _ _ _ h
              have he₁ : r.1.escapeToken = d.escapeToken := (he' hl).trans he
              refine ⟨he₁, (Adds.child (he₁ ▸ hinst) hadds).congr ?_⟩
              rw [joinRest, if_neg hblank, he₁, hm]
              simp

/-- The escape token that a Dockerfile is read with, its first line may give it. -/
def escapeTokenOf (lib : Lib) (d : Directive) (input : GoString) : EscapeToken :=
  match scans input with
  | some line :: _ => directiveToken lib d (trimLeft (trimBOM line))
  | _ => d.escapeToken

theorem parse_escapeToken {d d' : Directive} {input : GoString} {children : List Node}
    (h : parse lib d input = .ok (d', children)) : d'.escapeToken = escapeTokenOf lib d input := by
  unfold parse at h
  unfold escapeTokenOf
  split
  · rename_i line rest hs
    rw [hs, parseLines] at h
    split at h
    · cases h
    · rename_i d₁ text child hp
      obtain ⟨hf, he, -⟩ := parseLine_ok hp
      rw [if_pos rfl] at he
      rw [← he]
      split_ifs at h with hc
      · have ht : stripComments (trimLeft (if 0 = 0 then trimBOM line else line)) ≠ [] :=
          fun ht => hc.1 (parseLine_comment hp ht).1
        obtain ⟨-, -, ⟨hm, -⟩ | ⟨-, node, rfl, -⟩⟩ := parseLine_text hp ht
        · exact ((loops_add rest).2 _ _ _ _ _ _ hf (stripComments_of_isPrefix (isPrefix_of_stripMarker hm) hc.1 ht) h).1
        · cases hc.2
      · exact ((loops_add rest).1 _ _ _ _ h).1 hf
  · rename_i hs
    cases hss : scans input with
    | nil => rw [hss] at h; cases h; rfl
    | cons s ss =>
      cases s with
      | none => rw [hss] at h; cases h; rfl
      | some line => exact absurd hss (hs line ss)

/-- The children of the root are the joined lines, parsed one by one. -/
theorem parse_children {d d' : Directive} {input : GoString} {children : List Node}
    (h : parse lib d input = .ok (d', children)) :
    List.Forall₂ (IsNode lib (escapeTokenOf lib d input).byte)
      (joinLines (escapeTokenOf lib d input).byte true (scans input)) children := by
  obtain ⟨-, new, hr, hnew⟩ := (loops_add (scans input)).1 d 0 [] _ h
  rw [List.nil_append] at hr
  cases hr
  rw [← parse_escapeToken h]
  simpa using hnew

theorem IsNode.original {text : GoString} {child : Node} (h : IsNode lib e text child) : child.original = text := by
  obtain ⟨node, a, b, hp, rfl⟩ := h
  rcases parseInstruction_ok hp with ⟨-, -, hn⟩ | ⟨-, -, hn⟩ | ⟨-, -, node', hn, ho⟩
  · cases hn
  · cases hn
  · cases hn
    rw [← ho]
    cases node; rfl

/-- The texts of the children, in their order, are the joined lines. -/
theorem parse_originals {d d' : Directive} {input : GoString} {children : List Node}
    (h : parse lib d input = .ok (d', children)) :
    children.map Node.original = joinLines (escapeTokenOf lib d input).byte true (scans input) := by
  have hch := parse_children h
  clear h
  generalize joinLines (escapeTokenOf lib d input).byte true (scans input) = texts at hch ⊢
  induction hch with
  | nil => rfl
  | cons hn _ ih => rw [List.map_cons, hn.original, ih]

end Moby.Dockerfile
