import Moby.Dockerfile.Parser

/-!
# The flags of an instruction, character by character

`extractBuilderFlags` goes through the bytes of a line and takes each for a character of its own:
the two bytes of `é` in a flag become `Ã` and `©`, and a byte `0x85` or `0xA0` within a character
ends the word. What the flags of a line are, in characters, is `leadingFlags`: words that begin with
`--`, without their quotes and escapes, up to a word that reads `--` or the first other word.
The code finds these flags if the characters that it goes through are ASCII (`extractBuilderFlags_eq`).
-/

namespace Moby.Dockerfile

open Framework (GoString bytesOf)
open Framework.GoString

/-! ## The flags of a line of characters -/

/-- A word without its quotes and escapes, and the text behind it. `q` is the quote that is open. -/
def readWord : Option Char → List Char → List Char × List Char
  | _, [] => ([], [])
  | none, c :: cs =>
    if isSpace c then ([], c :: cs)
    else if c = '\'' ∨ c = '"' then readWord (some c) cs
    else if c = '\\' then
      match cs with
      | [] => ([], [])
      | d :: cs => (d :: (readWord none cs).1, (readWord none cs).2)
    else (c :: (readWord none cs).1, (readWord none cs).2)
  | some q, c :: cs =>
    if c = q then readWord none cs
    else if c = '\\' then
      match cs with
      | [] => ([], [])
      | d :: cs => (d :: (readWord (some q) cs).1, (readWord (some q) cs).2)
    else (c :: (readWord (some q) cs).1, (readWord (some q) cs).2)

theorem readWord_suffix (q : Option Char) (cs : List Char) : (readWord q cs).2 <:+ cs := by
  fun_induction readWord q cs with
  | case1 | case2 => exact List.suffix_rfl
  | case4 | case8 => exact List.nil_suffix
  | case5 _ _ _ _ ih | case9 _ _ _ _ ih =>
    exact ih.trans ((List.suffix_cons _ _).trans (List.suffix_cons _ _))
  | case3 c cs _ _ ih | case6 c cs _ _ _ ih | case7 q cs ih | case10 q c cs _ _ ih =>
    exact ih.trans (List.suffix_cons _ cs)

/-- The flags at the beginning of a line, and what follows them. -/
def leadingFlags (cs : List Char) : List (List Char) × List Char :=
  match _h : cs.dropWhile isSpace with
  | '-' :: '-' :: ds =>
    if (readWord none ds).1 = [] then ([], (readWord none ds).2)
    else
      (('-' :: '-' :: (readWord none ds).1) :: (leadingFlags (readWord none ds).2).1,
        (leadingFlags (readWord none ds).2).2)
  | rest => ([], rest)
  termination_by cs.length
  decreasing_by
    all_goals
      have hlen := (readWord_suffix none ds).length_le
      have hdrop : (cs.dropWhile isSpace).length ≤ cs.length := (List.dropWhile_suffix isSpace).length_le
      rw [_h] at hdrop
      simp only [List.length_cons] at hdrop
      omega

/-! ## ASCII -/

/-- The characters of `cs` before `rest` are ASCII. -/
def AsciiTo (cs rest : List Char) : Prop := ∃ p, cs = p ++ rest ∧ ∀ c ∈ p, c.toNat < 128

theorem AsciiTo.cons {c : Char} {cs rest : List Char} (h : AsciiTo (c :: cs) rest) (hrest : rest <:+ cs) :
    c.toNat < 128 ∧ AsciiTo cs rest := by
  obtain ⟨p, heq, hp⟩ := h
  cases p with
  | nil =>
    have hlen := hrest.length_le
    rw [← heq.trans (List.nil_append rest), List.length_cons] at hlen
    omega
  | cons d p =>
    obtain ⟨rfl, hcs⟩ := List.cons.inj heq
    obtain ⟨hd, hp⟩ := List.forall_mem_cons.mp hp
    exact ⟨hd, p, hcs, hp⟩

theorem AsciiTo.append {a b rest : List Char} (h : AsciiTo (a ++ b) rest) (hrest : rest <:+ b) :
    (∀ c ∈ a, c.toNat < 128) ∧ AsciiTo b rest := by
  induction a with
  | nil => exact ⟨by simp, h⟩
  | cons c a ih =>
    obtain ⟨hc, h⟩ := h.cons (hrest.trans (List.suffix_append a b))
    obtain ⟨ha, hb⟩ := ih h
    exact ⟨List.forall_mem_cons.mpr ⟨hc, ha⟩, hb⟩

/-- The characters before `mid`, and those between it and `rest`. -/
theorem AsciiTo.split {cs mid rest : List Char} (h : AsciiTo cs rest) (hmid : mid <:+ cs) (hrest : rest <:+ mid) :
    AsciiTo cs mid ∧ AsciiTo mid rest := by
  obtain ⟨a, rfl⟩ := hmid
  obtain ⟨ha, hb⟩ := h.append hrest
  exact ⟨⟨a, rfl, ha⟩, hb⟩

/-- The byte of an ASCII character. -/
def charByte (c : Char) : UInt8 := c.toNat.toUInt8

theorem encode_cons {c : Char} (hc : c.toNat < 128) (cs : List Char) : encode (c :: cs) = charByte c :: encode cs := by
  rw [encode, List.flatMap_cons, utf8EncodeChar_of_lt hc]
  rfl

theorem byteRune_charByte {c : Char} (hc : c.toNat < 128) : byteRune (charByte c) = c := by
  rw [byteRune, charByte, Nat.toUInt8_eq, UInt8.toNat_ofNat', Nat.mod_eq_of_lt (by omega), Char.ofNat_toNat]

theorem charByte_inj {c d : Char} (hc : c.toNat < 128) (hd : d.toNat < 128) : charByte c = charByte d ↔ c = d := by
  refine ⟨fun h => ?_, congrArg charByte⟩
  rw [← byteRune_charByte hc, h, byteRune_charByte hd]

theorem encode_singleton (c : Char) : encode [c] = String.utf8EncodeChar c := by
  rw [encode, List.flatMap_cons, List.flatMap_nil, List.append_nil]

theorem append_encode_cons (w : GoString) (c : Char) (cs : List Char) : w ++ encode [c] ++ encode cs = w ++ encode (c :: cs) := by
  rw [List.append_assoc, encode_singleton]
  rfl

/-! ## One word -/

theorem isSpace_of_readWord {q : Option Char} {cs rest : List Char} {c : Char} (h : (readWord q cs).2 = c :: rest) :
    isSpace c := by
  fun_induction readWord q cs with
  | case1 | case4 | case8 => cases h
  | case2 c' cs hsp =>
    cases h
    exact hsp
  | case5 _ _ _ _ ih | case9 _ _ _ _ ih => exact ih h
  | case3 c cs _ _ ih | case6 c cs _ _ _ ih | case7 q cs ih | case10 q c cs _ _ ih => exact ih h

/-- What the loop does at the end of a word. -/
def afterWord (quote : UInt8) (words : List GoString) (word : GoString) : List Char → GoString × List GoString
  | [] => ([], if word = dashes then words else words ++ [word])
  | c :: cs =>
    if word = dashes then (encode (c :: cs), words)
    else flagsLoop { words := words ++ [word], quote } (encode cs)

/-- The phase in a word. -/
def phaseOf : Option Char → Phase
  | none => .inWord
  | some _ => .inQuote

theorem phaseOf_ne (q : Option Char) : phaseOf q ≠ .inSpaces := by
  cases q with
  | none => decide
  | some q =>
    intro h
    cases h

/-- The quote that is open is the one of the loop. -/
def QuoteIs (q : Option Char) (st : Scan UInt8) : Prop := ∀ c, q = some c → c.toNat < 128 ∧ st.quote = charByte c

theorem charByte_eq_iff {c : Char} (hc : c.toNat < 128) :
    (charByte c = 0x27 ↔ c = '\'') ∧ (charByte c = 0x22 ↔ c = '"') ∧ (charByte c = 0x5C ↔ c = '\\') ∧
      (charByte c = 0x2D ↔ c = '-') :=
  ⟨charByte_inj hc (d := '\'') (by decide), charByte_inj hc (d := '"') (by decide),
    charByte_inj hc (d := '\\') (by decide), charByte_inj hc (d := '-') (by decide)⟩

/-- A round of the loop in a word, for an ASCII character. -/
theorem flagsLoop_inWord {st : Scan UInt8} (hphase : st.phase = .inWord) {c : Char} (hc : c.toNat < 128)
    (line : GoString) :
    flagsLoop st (charByte c :: line) =
      if isSpace c then
        if st.word = dashes then (charByte c :: line, st.words)
        else flagsLoop { st with phase := .inSpaces, words := st.endWord, word := [], blankOK := false } line
      else if c = '\'' ∨ c = '"' then
        flagsLoop { st with phase := .inQuote, quote := charByte c, blankOK := true } line
      else if c = '\\' then
        match line with
        | [] => flagsLoop st []
        | ch' :: line => flagsLoop { st with word := st.word ++ String.utf8EncodeChar (byteRune ch') } line
      else flagsLoop { st with word := st.word ++ encode [c] } line := by
  obtain ⟨hquote, hdquote, hback, -⟩ := charByte_eq_iff hc
  conv_lhs => unfold flagsLoop
  simp only [hphase, byteRune_charByte hc, hquote, hdquote, hback, encode_singleton]
  rfl

/-- A round of the loop in quotes, for an ASCII character. -/
theorem flagsLoop_inQuote {st : Scan UInt8} (hphase : st.phase = .inQuote) {c q : Char} (hc : c.toNat < 128)
    (hq : q.toNat < 128) (hst : st.quote = charByte q) (line : GoString) :
    flagsLoop st (charByte c :: line) =
      if c = q then flagsLoop { st with phase := .inWord } line
      else if c = '\\' then
        match line with
        | [] => flagsLoop { st with phase := .inWord } []
        | ch' :: line => flagsLoop { st with word := st.word ++ String.utf8EncodeChar (byteRune ch') } line
      else flagsLoop { st with word := st.word ++ encode [c] } line := by
  obtain ⟨-, -, hback, -⟩ := charByte_eq_iff hc
  conv_lhs => unfold flagsLoop
  simp only [hphase, hst, charByte_inj hc hq, hback, byteRune_charByte hc, encode_singleton]
  rfl

theorem flagsLoop_end {st : Scan UInt8} (hphase : st.phase ≠ .inSpaces) (hword : st.word ≠ []) :
    flagsLoop st [] = ([], if st.word = dashes then st.words else st.words ++ [st.word]) := by
  have hend : st.endWord = st.words ++ [st.word] := if_pos (.inr hword)
  rw [flagsLoop, hend]
  simp only [hphase, false_or]

theorem flagsLoop_word {q : Option Char} {cs : List Char} {st : Scan UInt8} (hphase : st.phase = phaseOf q)
    (hquote : QuoteIs q st) (hword : st.word ≠ []) (hascii : AsciiTo cs (readWord q cs).2)
    (hhead : ∀ c rest, (readWord q cs).2 = c :: rest → c.toNat < 128) :
    ∃ quote, flagsLoop st (encode cs) =
      afterWord quote st.words (st.word ++ encode (readWord q cs).1) (readWord q cs).2 := by
  fun_induction readWord q cs generalizing st with
  | case1 q =>
    refine ⟨0, (flagsLoop_end (hphase ▸ phaseOf_ne q) hword).trans ?_⟩
    rw [afterWord, encode, List.flatMap_nil, List.append_nil]
  | case2 c cs hsp =>
    refine ⟨st.quote, ?_⟩
    have hc := hhead c cs rfl
    have hend : st.endWord = st.words ++ [st.word] := if_pos (.inr hword)
    rw [encode_cons hc, flagsLoop_inWord hphase hc, if_pos hsp, afterWord, encode_cons hc, hend,
      show encode [] = [] from rfl, List.append_nil]
  | case3 c cs hsp hq ih =>
    obtain ⟨hc, hascii⟩ := hascii.cons (readWord_suffix _ cs)
    rw [encode_cons hc, flagsLoop_inWord hphase hc, if_neg hsp, if_pos hq]
    refine ih rfl ?_ hword hascii hhead
    rintro d ⟨⟩
    exact ⟨hc, rfl⟩
  | case4 hsp hq =>
    obtain ⟨hc, -⟩ := hascii.cons List.nil_suffix
    refine ⟨0, ?_⟩
    rw [encode_cons hc, flagsLoop_inWord hphase hc, if_neg hsp, if_neg hq, if_pos rfl]
    refine (flagsLoop_end (hphase ▸ phaseOf_ne none) hword).trans ?_
    rw [afterWord, show encode [] = [] from rfl, List.append_nil]
  | case5 d cs hsp hq ih =>
    obtain ⟨hc, hascii⟩ := hascii.cons ((readWord_suffix _ cs).trans (List.suffix_cons d cs))
    obtain ⟨hd, hascii⟩ := hascii.cons (readWord_suffix _ cs)
    rw [encode_cons hc, encode_cons hd, flagsLoop_inWord hphase hc, if_neg hsp, if_neg hq, if_pos rfl]
    simp only [byteRune_charByte hd, ← encode_singleton]
    obtain ⟨quote, ih⟩ := @ih { st with word := st.word ++ encode [d] } hphase hquote
      (List.append_ne_nil_of_left_ne_nil hword _) hascii hhead
    exact ⟨quote, ih.trans (by rw [append_encode_cons])⟩
  | case6 c cs hsp hq hback ih =>
    obtain ⟨hc, hascii⟩ := hascii.cons (readWord_suffix _ cs)
    rw [encode_cons hc, flagsLoop_inWord hphase hc, if_neg hsp, if_neg hq, if_neg hback]
    obtain ⟨quote, ih⟩ := @ih { st with word := st.word ++ encode [c] } hphase hquote
      (List.append_ne_nil_of_left_ne_nil hword _) hascii hhead
    exact ⟨quote, ih.trans (by rw [append_encode_cons])⟩
  | case7 q cs ih =>
    obtain ⟨hq, hst⟩ := hquote q rfl
    obtain ⟨hc, hascii⟩ := hascii.cons (readWord_suffix _ cs)
    rw [encode_cons hc, flagsLoop_inQuote hphase hc hq hst, if_pos rfl]
    refine ih rfl ?_ hword hascii hhead
    rintro d ⟨⟩
  | case8 q hne =>
    obtain ⟨hq, hst⟩ := hquote q rfl
    obtain ⟨hc, -⟩ := hascii.cons List.nil_suffix
    refine ⟨0, ?_⟩
    rw [encode_cons hc, flagsLoop_inQuote hphase hc hq hst, if_neg hne, if_pos rfl]
    refine (@flagsLoop_end { st with phase := .inWord } (phaseOf_ne none) hword).trans ?_
    rw [afterWord, show encode [] = [] from rfl, List.append_nil]
  | case9 q d cs hne ih =>
    obtain ⟨hq, hst⟩ := hquote q rfl
    obtain ⟨hc, hascii⟩ := hascii.cons ((readWord_suffix _ cs).trans (List.suffix_cons d cs))
    obtain ⟨hd, hascii⟩ := hascii.cons (readWord_suffix _ cs)
    rw [encode_cons hc, encode_cons hd, flagsLoop_inQuote hphase hc hq hst, if_neg hne, if_pos rfl]
    simp only [byteRune_charByte hd, ← encode_singleton]
    obtain ⟨quote, ih⟩ := @ih { st with word := st.word ++ encode [d] } hphase hquote
      (List.append_ne_nil_of_left_ne_nil hword _) hascii hhead
    exact ⟨quote, ih.trans (by rw [append_encode_cons])⟩
  | case10 q c cs hne hback ih =>
    obtain ⟨hq, hst⟩ := hquote q rfl
    obtain ⟨hc, hascii⟩ := hascii.cons (readWord_suffix _ cs)
    rw [encode_cons hc, flagsLoop_inQuote hphase hc hq hst, if_neg hne, if_neg hback]
    obtain ⟨quote, ih⟩ := @ih { st with word := st.word ++ encode [c] } hphase hquote
      (List.append_ne_nil_of_left_ne_nil hword _) hascii hhead
    exact ⟨quote, ih.trans (by rw [append_encode_cons])⟩

/-! ## The flags -/

theorem suffix_of_dashes {cs ds : List Char} (h : cs.dropWhile isSpace = '-' :: '-' :: ds) : ds <:+ cs :=
  ((List.suffix_cons '-' ds).trans (List.suffix_cons '-' _)).trans (h ▸ List.dropWhile_suffix isSpace)

theorem leadingFlags_suffix (cs : List Char) : (leadingFlags cs).2 <:+ cs := by
  fun_induction leadingFlags cs with
  | case1 cs ds h hnil => exact (readWord_suffix none ds).trans (suffix_of_dashes h)
  | case2 cs ds h hnil ih => exact ih.trans ((readWord_suffix none ds).trans (suffix_of_dashes h))
  | case3 cs h => exact List.dropWhile_suffix isSpace

theorem leadingFlags_cons {c : Char} (hc : isSpace c) (cs : List Char) : leadingFlags (c :: cs) = leadingFlags cs := by
  have hdrop : (c :: cs).dropWhile isSpace = cs.dropWhile isSpace := List.dropWhile_cons_of_pos hc
  rw [leadingFlags, leadingFlags, hdrop]

/-- A round of the loop between words. -/
theorem flagsLoop_inSpaces {st : Scan UInt8} (hphase : st.phase = .inSpaces) (ch : UInt8) (line : GoString) :
    flagsLoop st (ch :: line) =
      if isSpace (byteRune ch) then flagsLoop st line
      else if ch ≠ 0x2D ∨ line.head? ≠ some 0x2D then (ch :: line, st.words)
      else flagsLoop { st with phase := .inWord, word := st.word ++ [ch] } line := by
  conv_lhs => unfold flagsLoop
  simp only [hphase]

theorem flagsLoop_spaces {st : Scan UInt8} (hphase : st.phase = .inSpaces) {sp : List Char} (hsp : ∀ c ∈ sp, isSpace c)
    (hascii : ∀ c ∈ sp, c.toNat < 128) (cs : List Char) : flagsLoop st (encode (sp ++ cs)) = flagsLoop st (encode cs) := by
  induction sp with
  | nil => rfl
  | cons c sp ih =>
    obtain ⟨hc, hsp⟩ := List.forall_mem_cons.mp hsp
    obtain ⟨hlt, hascii⟩ := List.forall_mem_cons.mp hascii
    rw [List.cons_append, encode_cons hlt, flagsLoop_inSpaces hphase, byteRune_charByte hlt, if_pos hc]
    exact ih hsp hascii

/-- The first two bytes of a flag. -/
theorem flagsLoop_dashes (words : List GoString) (quote : UInt8) (ds : List Char) :
    flagsLoop { words, quote } (encode ('-' :: '-' :: ds)) =
      flagsLoop { phase := .inWord, words, word := dashes, quote } (encode ds) := by
  have hdash : ¬ (charByte '-' ≠ 0x2D ∨ (charByte '-' :: encode ds).head? ≠ some 0x2D) := by
    rw [List.head?_cons]
    decide
  rw [encode_cons (by decide), encode_cons (by decide), flagsLoop_inSpaces rfl, if_neg (by decide), if_neg hdash,
    flagsLoop_inWord rfl (by decide), if_neg (by decide), if_neg (by decide), if_neg (by decide)]
  rfl

/-- The first byte of a character that is not white space is none. -/
theorem not_isSpace_head {c : Char} {b : UInt8} {bs : List UInt8} (h : String.utf8EncodeChar c = b :: bs)
    (hc : ¬ isSpace c) : ¬ isSpace (byteRune b) := by
  by_cases hlt : c.toNat < 128
  · rw [utf8EncodeChar_of_lt hlt] at h
    cases h
    rw [show c.toNat.toUInt8 = charByte c from rfl, byteRune_charByte hlt]
    exact hc
  · have hb : 0xC0 ≤ b.toNat := by
      have hv : ¬ c.val.toNat ≤ 127 := fun hle => hlt (Nat.lt_succ_iff.mpr hle)
      unfold String.utf8EncodeChar at h
      simp only [hv, if_false] at h
      split_ifs at h
      all_goals
        cases h
        rw [UInt8.toNat_ofNat']
        omega
    have hlt := b.toNat_lt
    have hn : (byteRune b).toNat = b.toNat := by
      have hv : b.toNat.isValidChar := .inl (by omega)
      rw [byteRune, Char.ofNat, dif_pos hv]
      rfl
    intro hspace
    rw [isSpace, hn] at hspace
    have hmem := of_decide_eq_true hspace
    simp only [List.mem_cons, List.not_mem_nil, or_false] at hmem
    omega

/-- Only `-` begins with its byte. -/
theorem eq_dash_of_head {cs : List Char} (h : (encode cs).head? = some 0x2D) : ∃ ds, cs = '-' :: ds := by
  cases cs with
  | nil => cases h
  | cons c cs =>
    rw [encode, List.flatMap_cons, List.head?_append_of_ne_nil _ (utf8EncodeChar_ne_nil c)] at h
    have hc : c.toNat = '-'.toNat := toNat_of_head h (by decide)
    refine ⟨cs, ?_⟩
    rw [← Char.ofNat_toNat c, hc, Char.ofNat_toNat]

/-- The loop returns where the first word is not a flag. -/
theorem flagsLoop_other (words : List GoString) (quote : UInt8) {cs : List Char}
    (hsp : ∀ c, cs.head? = some c → ¬ isSpace c) (hcs : ∀ ds, cs ≠ '-' :: '-' :: ds) :
    flagsLoop { words, quote } (encode cs) = (encode cs, words) := by
  cases cs with
  | nil => rfl
  | cons c cs =>
    obtain ⟨b, bs, hb⟩ := List.exists_cons_of_ne_nil (utf8EncodeChar_ne_nil c)
    have htext : encode (c :: cs) = b :: (bs ++ encode cs) := by
      rw [encode, List.flatMap_cons, hb]
      rfl
    have hother : b ≠ 0x2D ∨ (bs ++ encode cs).head? ≠ some 0x2D := by
      by_contra hno
      obtain ⟨hdash, hhead⟩ := not_or.mp hno
      rw [not_not] at hdash hhead
      obtain ⟨ds, hds⟩ := @eq_dash_of_head (c :: cs) (by rw [htext, hdash, List.head?_cons])
      obtain ⟨rfl, rfl⟩ := List.cons.inj hds
      cases hb
      obtain ⟨ds, rfl⟩ := eq_dash_of_head hhead
      exact hcs ds rfl
    rw [htext, flagsLoop_inSpaces rfl, if_neg (not_isSpace_head hb (hsp c rfl)), if_pos hother]

/-- The characters that are gone through are ASCII: those of the flags, and the one behind a word
that reads `--`. -/
structure AsciiFlags (cs : List Char) : Prop where
  before : AsciiTo cs (leadingFlags cs).2
  behind : ∀ c rest, (leadingFlags cs).2 = c :: rest → isSpace c → c.toNat < 128

theorem afterWord_dashes (quote : UInt8) (words : List GoString) (rest : List Char) :
    afterWord quote words dashes rest = (encode rest, words) := by
  cases rest with
  | nil => rfl
  | cons c rest => rw [afterWord, if_pos rfl]

theorem flagsLoop_skip {cs rest : List Char} (h : AsciiTo cs rest) (hrest : rest <:+ cs.dropWhile isSpace)
    (words : List GoString) (quote : UInt8) :
    flagsLoop { words, quote } (encode cs) = flagsLoop { words, quote } (encode (cs.dropWhile isSpace)) := by
  have hcs := List.takeWhile_append_dropWhile (p := isSpace) (l := cs)
  rw [← hcs] at h
  conv_lhs => rw [← hcs]
  exact flagsLoop_spaces rfl (fun c hc => List.mem_takeWhile_imp hc) (h.append hrest).1 _

/-- The loop up to the end of the first flag. -/
theorem flagsLoop_flag {cs ds : List Char} (h : cs.dropWhile isSpace = '-' :: '-' :: ds)
    (hascii : AsciiTo cs (readWord none ds).2) (hhead : ∀ c rest, (readWord none ds).2 = c :: rest → c.toNat < 128)
    (words : List GoString) (quote : UInt8) :
    ∃ quote', flagsLoop { words, quote } (encode cs) =
      afterWord quote' words (dashes ++ encode (readWord none ds).1) (readWord none ds).2 := by
  have hsuffix : (readWord none ds).2 <:+ cs.dropWhile isSpace := by
    rw [h]
    exact ((readWord_suffix none ds).trans (List.suffix_cons '-' ds)).trans (List.suffix_cons '-' _)
  rw [flagsLoop_skip hascii hsuffix, h, flagsLoop_dashes]
  have hds : AsciiTo ds (readWord none ds).2 := (hascii.split (suffix_of_dashes h) (readWord_suffix none ds)).2
  apply flagsLoop_word rfl ?_ (List.cons_ne_nil _ _) hds hhead
  rintro c ⟨⟩

theorem flagsLoop_flags {cs : List Char} (h : AsciiFlags cs) (words : List GoString) (quote : UInt8) :
    flagsLoop { words, quote } (encode cs) = (encode (leadingFlags cs).2, words ++ (leadingFlags cs).1.map encode) := by
  obtain ⟨hbefore, hbehind⟩ := h
  fun_induction leadingFlags cs generalizing words quote with
  | case1 cs ds h hnil =>
    obtain ⟨quote', hflag⟩ := flagsLoop_flag h hbefore
      (fun c rest hrest => hbehind c rest hrest (isSpace_of_readWord hrest)) words quote
    rw [hflag, hnil, show encode [] = [] from rfl, List.append_nil, afterWord_dashes, List.map_nil, List.append_nil]
  | case2 cs ds h hnil ih =>
    obtain ⟨hword, hrest⟩ := hbefore.split ((readWord_suffix none ds).trans (suffix_of_dashes h)) (leadingFlags_suffix _)
    -- A character behind the word is white space, which is gone through as well.
    have hhead : ∀ c rest, (readWord none ds).2 = c :: rest → c.toNat < 128 := by
      intro c rest hcons
      rw [hcons] at hrest
      refine (hrest.cons ?_).1
      rw [leadingFlags_cons (isSpace_of_readWord hcons)]
      exact leadingFlags_suffix rest
    obtain ⟨quote', hflag⟩ := flagsLoop_flag h hword hhead words quote
    have hne : dashes ++ encode (readWord none ds).1 ≠ dashes := by
      intro he
      have htext : encode (readWord none ds).1 = [] := List.append_right_eq_self.mp he
      rw [encode, List.flatMap_eq_nil_iff] at htext
      obtain ⟨c, w, hw⟩ := List.exists_cons_of_ne_nil hnil
      exact utf8EncodeChar_ne_nil c (htext c (hw ▸ List.mem_cons_self))
    have ih := ih (words ++ [dashes ++ encode (readWord none ds).1]) quote' hrest hbehind
    rw [hflag, List.map_cons, List.append_cons]
    refine Eq.trans ?_ ih
    cases hcons : (readWord none ds).2 with
    | nil => rw [afterWord, if_neg hne]; rfl
    | cons c rest =>
      have hc := hhead c rest hcons
      rw [afterWord, if_neg hne, encode_cons hc, flagsLoop_inSpaces rfl, byteRune_charByte hc,
        if_pos (isSpace_of_readWord hcons)]
  | case3 cs h =>
    rw [flagsLoop_skip hbefore List.suffix_rfl, List.map_nil, List.append_nil]
    refine flagsLoop_other words quote ?_ h
    intro c hc
    have hnot := List.head?_dropWhile_not isSpace cs
    rw [hc] at hnot
    exact Bool.eq_false_iff.mp hnot

/-- The flags that `extractBuilderFlags` finds and the rest of the line, if the characters gone through
are ASCII. -/
theorem extractBuilderFlags_eq (cs : List Char) (h : AsciiFlags cs) :
    extractBuilderFlags (encode cs) = (encode (leadingFlags cs).2, (leadingFlags cs).1.map encode) ∧
      (leadingFlags cs).2 <:+ cs :=
  ⟨flagsLoop_flags h [] 0, leadingFlags_suffix cs⟩

theorem leadingFlags_flag {cs ds w rest : List Char} (h : cs.dropWhile isSpace = '-' :: '-' :: ds)
    (hw : readWord none ds = (w, rest)) (hne : w ≠ []) :
    leadingFlags cs = (('-' :: '-' :: w) :: (leadingFlags rest).1, (leadingFlags rest).2) := by
  rw [leadingFlags]
  split
  · rename_i ds' h'
    cases h.symm.trans h'
    rw [hw, if_neg hne]
  · rename_i hno
    exact absurd h (hno ds)

theorem leadingFlags_other {cs : List Char} (h : ∀ ds, cs.dropWhile isSpace ≠ '-' :: '-' :: ds) :
    leadingFlags cs = ([], cs.dropWhile isSpace) := by
  rw [leadingFlags]
  split
  · rename_i ds h'
    exact absurd h' (h ds)
  · rfl

theorem leadingFlags_sample : leadingFlags ['-', '-', 'a', ' ', 'b'] = ([['-', '-', 'a']], ['b']) := by
  have hrest : leadingFlags [' ', 'b'] = ([], ['b']) := by
    apply leadingFlags_other
    rintro ds ⟨⟩
  rw [@leadingFlags_flag _ _ ['a'] [' ', 'b'] rfl rfl (by decide), hrest]

theorem extractBuilderFlags_eq_sample :
    AsciiFlags ['-', '-', 'a', ' ', 'b'] ∧
      extractBuilderFlags (encode ['-', '-', 'a', ' ', 'b']) =
        (encode (leadingFlags ['-', '-', 'a', ' ', 'b']).2, (leadingFlags ['-', '-', 'a', ' ', 'b']).1.map encode) := by
  have hascii : AsciiFlags ['-', '-', 'a', ' ', 'b'] := by
    constructor
    · rw [leadingFlags_sample]
      exact ⟨['-', '-', 'a', ' '], rfl, Framework.forall_mem_of_all (by decide)⟩
    · rw [leadingFlags_sample]
      rintro c rest ⟨⟩ -
      decide
  exact ⟨hascii, (extractBuilderFlags_eq _ hascii).1⟩

/-- The flag `--é` comes out as `--Ã©`. -/
theorem extractBuilderFlags_latin :
    (leadingFlags ['-', '-', 'é']).1 = [['-', '-', 'é']] ∧
      (extractBuilderFlags (encode ['-', '-', 'é'])).2 = [encode ['-', '-', 'Ã', '©']] ∧
      encode ['-', '-', 'Ã', '©'] ≠ encode ['-', '-', 'é'] := by
  refine ⟨?_, by decide, by decide⟩
  have hrest : leadingFlags [] = ([], []) := by
    apply leadingFlags_other
    rintro ds ⟨⟩
  rw [@leadingFlags_flag _ _ ['é'] [] rfl rfl (by decide), hrest]

end Moby.Dockerfile
