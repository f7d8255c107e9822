import Moby.Dockerfile.Parser

/-!
# The words of an argument list, read again

`parseWords` splits a text at its blanks and keeps quotes and escapes. A word
is read again as it was (`Replays`), so that the words, joined by spaces or
taken one by one, are found again, and all that is lost of the text are the
blanks between them and an escape token at its end (`parseWords_rejoin`).
-/

namespace Moby.Dockerfile

open Framework (GoString bytesOf)
open Framework.GoString

theorem encode_append (a b : List Char) : encode (a ++ b) = encode a ++ encode b := List.flatMap_append

theorem encode_eq_nil {cs : List Char} : encode cs = [] ↔ cs = [] := by
  cases cs with
  | nil => exact iff_of_true rfl rfl
  | cons c cs =>
    refine iff_of_false (fun h => ?_) (List.cons_ne_nil c cs)
    exact utf8EncodeChar_ne_nil c (List.append_eq_nil_iff.mp h).1

/-! ## The items of a text -/

/-- What the loop comes to in a text: a blank outside of quotes and escapes; a character of a word, or an escape
token with the one behind it, and the quote that is open after it; or an escape token at the end. -/
inductive Item where
  | blank (rest : List Char)
  | text (chars : List Char) (quote : Option Char) (rest : List Char)
  | stop

/-- An escape token. -/
def escaped (ch : Char) (quote : Option Char) : List Char → Item
  | [] => .stop
  | ch' :: rest => .text [ch, ch'] quote rest

/-- The first item of `ch :: rest`, where `quote` is open. -/
def item (e : Char) (quote : Option Char) (ch : Char) (rest : List Char) : Item :=
  match quote with
  | none =>
    if isSpace ch then .blank rest
    else if ch = e then escaped ch none rest
    else .text [ch] (if ch = '\'' ∨ ch = '"' then some ch else none) rest
  | some q =>
    if ch = e ∧ q ≠ '\'' then escaped ch (some q) rest
    else .text [ch] (if ch = q then none else some q) rest

/-- The item `i` is at the start of `ch :: rest`. -/
def Item.Starts (ch : Char) (rest : List Char) : Item → Prop
  | .blank r => r = rest
  | .text u _ r => u ≠ [] ∧ ch :: rest = u ++ r
  | .stop => rest = []

theorem starts_escaped (ch : Char) (quote : Option Char) (rest : List Char) : (escaped ch quote rest).Starts ch rest := by
  cases rest with
  | nil => rfl
  | cons ch' rest => exact ⟨List.cons_ne_nil _ _, rfl⟩

theorem starts_item (e : Char) (quote : Option Char) (ch : Char) (rest : List Char) :
    (item e quote ch rest).Starts ch rest := by
  unfold item
  cases quote with
  | none =>
    dsimp only
    split
    · rfl
    · split
      · exact starts_escaped ch none rest
      · exact ⟨List.cons_ne_nil _ _, rfl⟩
  | some q =>
    dsimp only
    split
    · exact starts_escaped ch (some q) rest
    · exact ⟨List.cons_ne_nil _ _, rfl⟩

theorem length_of_blank {e : Char} {quote : Option Char} {ch : Char} {rest r : List Char}
    (h : item e quote ch rest = .blank r) : r.length < (ch :: rest).length := by
  have hs := starts_item e quote ch rest
  rw [h] at hs
  rw [show r = rest from hs]
  exact Nat.lt_succ_self _

theorem length_of_text {e : Char} {quote quote' : Option Char} {ch : Char} {rest u r : List Char}
    (h : item e quote ch rest = .text u quote' r) : r.length < (ch :: rest).length := by
  have hs := starts_item e quote ch rest
  rw [h] at hs
  rw [hs.2, List.length_append]
  have := List.length_pos_iff.mpr hs.1
  omega

/-- A text item is the same in front of any text. -/
theorem item_text {e : Char} {quote quote' : Option Char} {ch : Char} {rest u r : List Char}
    (h : item e quote ch rest = .text u quote' r) (r' : List Char) :
    ∃ ch' rest', u ++ r' = ch' :: rest' ∧ item e quote ch' rest' = .text u quote' r' := by
  have hesc {q : Option Char} (hi : escaped ch q rest = .text u quote' r) :
      ∃ c, u = [ch, c] ∧ quote' = q := by
    cases rest with
    | nil => cases hi
    | cons c rest => cases hi; exact ⟨c, rfl, rfl⟩
  unfold item at h
  cases quote with
  | none =>
    dsimp only at h
    split at h
    · cases h
    · rename_i hspace
      split at h
      · rename_i he
        obtain ⟨c, rfl, rfl⟩ := hesc h
        exact ⟨ch, c :: r', rfl, by simp only [item]; rw [if_neg hspace, if_pos he]; rfl⟩
      · rename_i he
        cases h
        exact ⟨ch, r', rfl, by simp only [item]; rw [if_neg hspace, if_neg he]⟩
  | some q =>
    dsimp only at h
    split at h
    · rename_i he
      obtain ⟨c, rfl, rfl⟩ := hesc h
      exact ⟨ch, c :: r', rfl, by simp only [item]; rw [if_pos he]; rfl⟩
    · rename_i he
      cases h
      exact ⟨ch, r', rfl, by simp only [item]; rw [if_neg he]⟩

/-- The characters that go into words: all but the blanks outside of quotes and escapes, and an escape token at the
end. -/
def kept (e : Char) (quote : Option Char) : List Char → List Char
  | [] => []
  | ch :: rest =>
    match _h : item e quote ch rest with
    | .blank r => kept e none r
    | .text u quote' r => u ++ kept e quote' r
    | .stop => []
termination_by s => s.length
decreasing_by
  · exact length_of_blank _h
  · exact length_of_text _h

/-- A word, unless it is empty. -/
def oneWord (word : List Char) : List (List Char) := if word = [] then [] else [word]

/-- The words of a text, as characters; `word` is the one that the loop is in. -/
def wordChars (e : Char) (quote : Option Char) (word : List Char) : List Char → List (List Char)
  | [] => oneWord word
  | ch :: rest =>
    match _h : item e quote ch rest with
    | .blank r => oneWord word ++ wordChars e none [] r
    | .text u quote' r => wordChars e quote' (word ++ u) r
    | .stop => oneWord word
termination_by s => s.length
decreasing_by
  · exact length_of_blank _h
  · exact length_of_text _h

section

variable {e : Char} {quote quote' : Option Char} {ch : Char} {word rest u r : List Char}

theorem wordChars_nil : wordChars e quote word [] = oneWord word := by rw [wordChars]

theorem wordChars_blank (h : item e quote ch rest = .blank r) :
    wordChars e quote word (ch :: rest) = oneWord word ++ wordChars e none [] r := by
  rw [wordChars]
  split <;> rename_i h' <;> rw [h] at h' <;> cases h'
  rfl

theorem wordChars_text (h : item e quote ch rest = .text u quote' r) :
    wordChars e quote word (ch :: rest) = wordChars e quote' (word ++ u) r := by
  rw [wordChars]
  split <;> rename_i h' <;> rw [h] at h' <;> cases h'
  rfl

theorem wordChars_stop (h : item e quote ch rest = .stop) : wordChars e quote word (ch :: rest) = oneWord word := by
  rw [wordChars]
  split <;> rename_i h' <;> first | rfl | (rw [h] at h'; cases h')

theorem flatten_oneWord (word : List Char) : (oneWord word).flatten = word := by
  unfold oneWord
  split
  · rename_i h
    rw [h]
    rfl
  · simp

/-- Nothing else is lost. -/
theorem flatten_wordChars (e : Char) (quote : Option Char) (word s : List Char) :
    (wordChars e quote word s).flatten = word ++ kept e quote s := by
  induction hn : s.length using Nat.strong_induction_on generalizing quote word s with
  | _ n ih =>
    subst hn
    cases s with
    | nil => rw [wordChars_nil, kept, flatten_oneWord, List.append_nil]
    | cons ch rest =>
      rw [kept]
      cases h : item e quote ch rest with
      | blank r =>
        rw [wordChars_blank h, List.flatten_append, flatten_oneWord, ih _ (length_of_blank h) none [] r rfl,
          List.nil_append]
      | text u quote' r =>
        rw [wordChars_text h, ih _ (length_of_text h) quote' (word ++ u) r rfl, List.append_assoc]
      | stop => rw [wordChars_stop h, flatten_oneWord, List.append_nil]

/-! ## Reading a word again -/

/-- The characters `word` are read again as they were, with `quote` open after them. -/
def Replays (e : Char) (quote : Option Char) (word : List Char) : Prop :=
  ∀ rest, wordChars e none [] (word ++ rest) = wordChars e quote word rest

theorem Replays.nil : Replays e none [] := fun _ => rfl

theorem Replays.text (hw : Replays e quote word) (h : item e quote ch rest = .text u quote' r) :
    Replays e quote' (word ++ u) := by
  intro r'
  obtain ⟨ch', rest', hu, hi⟩ := item_text h r'
  rw [List.append_assoc, hw, hu, wordChars_text hi]

/-- Words that are read again: all but the last end outside of quotes. -/
def Stable (e : Char) : List (List Char) → Prop
  | [] => True
  | [w] => w ≠ [] ∧ ∃ quote, Replays e quote w
  | w :: ws => w ≠ [] ∧ Replays e none w ∧ Stable e ws

theorem stable_oneWord (hw : Replays e quote word) : Stable e (oneWord word) := by
  unfold oneWord
  split
  · trivial
  · rename_i hne
    exact ⟨hne, quote, hw⟩

theorem Stable.cons {w : List Char} {ws : List (List Char)} (hne : w ≠ []) (hw : Replays e none w) (h : Stable e ws) :
    Stable e (w :: ws) := by
  cases ws with
  | nil => exact ⟨hne, none, hw⟩
  | cons v vs => exact ⟨hne, hw, h⟩

/-- Only outside of quotes is an item a blank. -/
theorem quote_of_blank (h : item e quote ch rest = .blank r) : quote = none := by
  cases quote with
  | none => rfl
  | some q =>
    unfold item at h
    dsimp only at h
    split at h
    · cases rest <;> cases h
    · cases h

theorem stable_wordChars (hw : Replays e quote word) (s : List Char) : Stable e (wordChars e quote word s) := by
  induction hn : s.length using Nat.strong_induction_on generalizing quote word s with
  | _ n ih =>
    subst hn
    cases s with
    | nil =>
      rw [wordChars_nil]
      exact stable_oneWord hw
    | cons ch rest =>
      cases h : item e quote ch rest with
      | blank r =>
        have hrest := ih _ (length_of_blank h) .nil r rfl
        rw [wordChars_blank h]
        obtain rfl := quote_of_blank h
        unfold oneWord
        split
        · exact hrest
        · rename_i hne
          exact .cons hne hw hrest
      | text u quote' r =>
        rw [wordChars_text h]
        exact ih _ (length_of_text h) (hw.text h) r rfl
      | stop =>
        rw [wordChars_stop h]
        exact stable_oneWord hw

theorem Replays.alone (hw : Replays e quote word) (hne : word ≠ []) : wordChars e none [] word = [word] := by
  have h := hw []
  rw [List.append_nil, wordChars_nil, oneWord, if_neg hne] at h
  exact h

theorem Stable.alone {ws : List (List Char)} (h : Stable e ws) {w : List Char} (hw : w ∈ ws) :
    wordChars e none [] w = [w] := by
  induction ws with
  | nil => exact absurd hw List.not_mem_nil
  | cons v vs ih =>
    cases vs with
    | nil =>
      obtain ⟨hne, quote, hv⟩ := h
      rw [List.mem_singleton.mp hw]
      exact hv.alone hne
    | cons v' vs =>
      obtain ⟨hne, hv, hrest⟩ := h
      rcases List.mem_cons.mp hw with rfl | hw
      · exact hv.alone hne
      · exact ih hrest hw

theorem item_space (rest : List Char) : item e none ' ' rest = .blank rest := by
  have hspace : isSpace ' ' = true := by decide
  simp [item, hspace]

theorem Stable.joined {ws : List (List Char)} (h : Stable e ws) :
    wordChars e none [] ([' '].intercalate ws) = ws := by
  induction ws with
  | nil => rw [List.intercalate_nil, wordChars_nil]; rfl
  | cons w ws ih =>
    cases ws with
    | nil =>
      obtain ⟨hne, quote, hw⟩ := h
      rw [List.intercalate_singleton]
      exact hw.alone hne
    | cons v vs =>
      obtain ⟨hne, hw, hrest⟩ := h
      rw [List.intercalate_cons_cons, List.append_assoc, hw, List.singleton_append,
        wordChars_blank (item_space _), ih hrest, oneWord, if_neg hne]
      rfl

end

/-! ## The loop -/

/-- The state of the loop in the word `word`, after `words`, with `quote` open. -/
structure Sits (st : Scan Char) (quote : Option Char) (words : List GoString) (word : List Char) : Prop where
  before : st.words = words
  current : st.word = encode word
  closed : quote = none → st.phase ≠ .inQuote
  opened : ∀ q, quote = some q → st.phase = .inQuote ∧ st.quote = q ∧ (q = '\'' ∨ q = '"')
  spaces : st.phase = .inSpaces → word = []
  blank : word = [] → st.blankOK = false

theorem Sits.endWord {st : Scan Char} {quote : Option Char} {words : List GoString} {word : List Char}
    (h : Sits st quote words word) : st.endWord = words ++ (oneWord word).map encode := by
  unfold Scan.endWord oneWord
  rw [h.before, h.current]
  by_cases hw : word = []
  · rw [if_pos hw, hw, if_neg, List.map_nil, List.append_nil]
    rintro (hblank | hne)
    · rw [h.blank hw] at hblank
      cases hblank
    · exact hne rfl
  · rw [if_neg hw, if_pos (.inr fun hn => hw (encode_eq_nil.mp hn))]
    rfl

theorem encode_concat (word : List Char) (ch : Char) : encode (word ++ [ch]) = encode word ++ String.utf8EncodeChar ch := by
  rw [encode_append]
  simp [encode]

theorem encode_pair (word : List Char) (ch ch' : Char) :
    encode (word ++ [ch, ch']) = encode word ++ String.utf8EncodeChar ch ++ String.utf8EncodeChar ch' := by
  rw [encode_append]
  simp [encode]

namespace Sits

variable {words : List GoString} {word : List Char} {q : Char} {b : Bool}

theorem inSpaces : Sits ⟨.inSpaces, words, [], q, false⟩ none words [] where
  before := rfl
  current := rfl
  closed _ h := by cases h
  opened _ h := by cases h
  spaces _ := rfl
  blank _ := rfl

theorem inWord (hne : word ≠ []) : Sits ⟨.inWord, words, encode word, q, b⟩ none words word where
  before := rfl
  current := rfl
  closed _ h := by cases h
  opened _ h := by cases h
  spaces h := by cases h
  blank h := absurd h hne

theorem inQuote (hne : word ≠ []) (hq : q = '\'' ∨ q = '"') :
    Sits ⟨.inQuote, words, encode word, q, b⟩ (some q) words word where
  before := rfl
  current := rfl
  closed h := by cases h
  opened q' h := by
    cases h
    exact ⟨rfl, rfl, hq⟩
  spaces h := by cases h
  blank h := absurd h hne

end Sits

section

variable {e : Char} (he : e ≠ '\'' ∧ e ≠ '"')

include he

/-- The loop reads the words of the text. -/
theorem wordsLoop_eq {st : Scan Char} {quote : Option Char} {words : List GoString} {word : List Char}
    (h : Sits st quote words word) (s : List Char) :
    wordsLoop e st s = words ++ (wordChars e quote word s).map encode := by
  induction hn : s.length using Nat.strong_induction_on generalizing st quote words word s with
  | _ n ih =>
    subst hn
    have hend := h.endWord
    obtain ⟨phase, words', word', q₀, b⟩ := st
    obtain rfl : words' = words := h.before
    obtain rfl : word' = encode word := h.current
    have hone (ch : Char) : word ++ [ch] ≠ [] := by simp
    have htwo (ch ch' : Char) : word ++ [ch, ch'] ≠ [] := by simp
    cases s with
    | nil =>
      rw [wordChars_nil, wordsLoop]
      by_cases hp : phase = .inSpaces
      · rw [if_pos hp, h.spaces hp]
        exact (List.append_nil _).symm
      · rw [if_neg hp, hend]
    | cons ch rest =>
      have hlt : rest.length < (ch :: rest).length := Nat.lt_succ_self _
      cases quote with
      | some q =>
        obtain ⟨hphase, hquote, hq⟩ := h.opened q rfl
        obtain rfl : phase = .inQuote := hphase
        obtain rfl : q₀ = q := hquote
        unfold wordsLoop
        simp only
        by_cases hesc : ch = e ∧ q₀ ≠ '\''
        · have hne : ch ≠ q₀ := by
            rw [hesc.1]
            rcases hq with rfl | rfl
            · exact he.1
            · exact he.2
          rw [if_pos hesc, if_neg hne]
          cases rest with
          | nil =>
            have hi : item e (some q₀) ch [] = .stop := by simp only [item]; rw [if_pos hesc]; rfl
            rw [wordChars_stop hi, ← hend]
            rfl
          | cons ch' rest =>
            have hi : item e (some q₀) ch (ch' :: rest) = .text [ch, ch'] (some q₀) rest := by
              simp only [item]; rw [if_pos hesc]; rfl
            rw [wordChars_text hi]
            simp only [← encode_pair]
            exact ih _ (length_of_text hi) (.inQuote (htwo ch ch') hq) rest rfl
        · have hi : item e (some q₀) ch rest = .text [ch] (if ch = q₀ then none else some q₀) rest := by
            simp only [item]; rw [if_neg hesc]
          rw [if_neg hesc, wordChars_text hi, ← encode_concat]
          by_cases hcq : ch = q₀
          · rw [if_pos hcq, if_pos hcq]
            exact ih _ hlt (.inWord (hone ch)) rest rfl
          · rw [if_neg hcq, if_neg hcq]
            exact ih _ hlt (.inQuote (hone ch) hq) rest rfl
      | none =>
        have hclosed := h.closed rfl
        by_cases hspace : isSpace ch = true
        · have hi : item e none ch rest = .blank rest := by simp only [item]; rw [if_pos hspace]
          rw [wordChars_blank hi, List.map_append, ← List.append_assoc, ← hend]
          cases phase with
          | inQuote => exact absurd rfl hclosed
          | inSpaces =>
            obtain rfl : word = [] := h.spaces rfl
            obtain rfl : b = false := h.blank rfl
            unfold wordsLoop
            simp only [hspace, if_true]
            exact ih _ hlt .inSpaces rest rfl
          | inWord =>
            unfold wordsLoop
            simp only [hspace, if_true]
            exact ih _ hlt .inSpaces rest rfl
        -- a word begins or goes on, in either phase
        · have hloop : wordsLoop e ⟨phase, words', encode word, q₀, b⟩ (ch :: rest) =
              wordsLoop e ⟨.inWord, words', encode word, q₀, b⟩ (ch :: rest) := by
            cases phase with
            | inQuote => exact absurd rfl hclosed
            | inSpaces =>
              unfold wordsLoop
              simp only [hspace, Bool.false_eq_true, if_false]
            | inWord => rfl
          rw [hloop]
          unfold wordsLoop
          simp only [hspace, Bool.false_eq_true, if_false]
          by_cases hesc : ch = e
          · have hquote : ¬ (ch = '\'' ∨ ch = '"') := by
              rw [hesc]
              exact not_or.mpr he
            rw [if_neg hquote, if_pos hesc]
            cases rest with
            | nil =>
              have hi : item e none ch [] = .stop := by simp only [item]; rw [if_neg hspace, if_pos hesc]; rfl
              rw [wordChars_stop hi, ← hend]
              rfl
            | cons ch' rest =>
              have hi : item e none ch (ch' :: rest) = .text [ch, ch'] none rest := by
                simp only [item]; rw [if_neg hspace, if_pos hesc]; rfl
              rw [wordChars_text hi]
              simp only [← encode_pair]
              exact ih _ (length_of_text hi) (.inWord (htwo ch ch')) rest rfl
          · have hi : item e none ch rest = .text [ch] (if ch = '\'' ∨ ch = '"' then some ch else none) rest := by
              simp only [item]; rw [if_neg hspace, if_neg hesc]
            rw [wordChars_text hi, if_neg hesc, ← encode_concat]
            by_cases hquote : ch = '\'' ∨ ch = '"'
            · rw [if_pos hquote, if_pos hquote]
              exact ih _ hlt (.inQuote (hone ch) hquote) rest rfl
            · rw [if_neg hquote, if_neg hquote]
              exact ih _ hlt (.inWord (hone ch)) rest rfl

end

theorem parseWords_encode (token : EscapeToken) (cs : List Char) :
    parseWords token.byte (encode cs) = (wordChars (byteRune token.byte) none [] cs).map encode := by
  have he : byteRune token.byte ≠ '\'' ∧ byteRune token.byte ≠ '"' := by cases token <;> decide
  rw [parseWords, encode, runes_flatMap]
  exact wordsLoop_eq he .inSpaces cs

theorem encode_intercalate (ws : List (List Char)) : encode ([' '].intercalate ws) = [0x20].intercalate (ws.map encode) := by
  induction ws with
  | nil => rfl
  | cons w ws ih =>
    cases ws with
    | nil => simp
    | cons v vs =>
      have hspace : encode [' '] = [0x20] := by decide
      rw [List.map_cons] at ih
      rw [List.intercalate_cons_cons, encode_append, encode_append, ih, hspace, List.map_cons, List.map_cons,
        List.intercalate_cons_cons]

theorem encode_flatten (ws : List (List Char)) : encode ws.flatten = (ws.map encode).flatten := by
  induction ws with
  | nil => rfl
  | cons w ws ih => rw [List.flatten_cons, encode_append, ih, List.map_cons, List.flatten_cons]

/-- The words of a text, joined by single spaces, are read again, and so is each one alone; and together they are the
text without its blanks outside of quotes and escapes and without an escape token at its end. -/
theorem parseWords_rejoin (token : EscapeToken) (cs : List Char) :
    parseWords token.byte ([0x20].intercalate (parseWords token.byte (encode cs))) = parseWords token.byte (encode cs) ∧
    (∀ w ∈ parseWords token.byte (encode cs), parseWords token.byte w = [w]) ∧
    (parseWords token.byte (encode cs)).flatten = encode (kept (byteRune token.byte) none cs) := by
  have hstable := stable_wordChars (e := byteRune token.byte) .nil cs
  rw [parseWords_encode]
  refine ⟨?_, fun w hw => ?_, ?_⟩
  · rw [← encode_intercalate, parseWords_encode, hstable.joined]
  · obtain ⟨v, hv, rfl⟩ := List.mem_map.mp hw
    rw [parseWords_encode, hstable.alone hv]
    rfl
  · have hflat := flatten_wordChars (byteRune token.byte) none [] cs
    rw [List.nil_append] at hflat
    rw [← hflat, encode_flatten]

end Moby.Dockerfile
