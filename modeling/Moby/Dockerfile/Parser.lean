import Moby.Framework.GoString
import Moby.Framework.Text

/-!
# Parsing Dockerfiles

`Parse` and `ParseLine` of `builder/dockerfile/parser`, with the parsers of the
arguments of every instruction. Texts are Go strings, so bytes that are no UTF-8
are there too, and a part of the code (`extractBuilderFlags`,
`parseHealthConfig`) takes bytes for runes.
-/

namespace Moby.Dockerfile

open Framework (GoString bytesOf)
open Framework.GoString

/-- What is outside of the package: `unicode.ToLower` and `unicode.ToUpper`, and
the decoder of JSON arrays, with the elements that are strings. Of ASCII only
letters are the lower case of another character; U+FEFF and U+FFFD have no case. -/
structure Lib where
  lower : Char → Char
  upper : Char → Char
  json : GoString → Option (List (Option GoString))
  lower_ascii : ∀ c, c.toNat < 128 → lower c = c.toLower
  upper_ascii : ∀ c, c.toNat < 128 → upper c = c.toUpper
  eq_of_lower : ∀ c, (lower c).toNat < 128 → (lower c).isLower = false → lower c = c
  lower_caseless : ∀ c, c = '\uFEFF' ∨ c = runeError → lower c = c

/-! ## The tree -/

/-- `Node`; of its attributes the code only knows `json`. A child may be nil. -/
inductive Node where
  | mk (value : GoString) (next : Option Node) (children : List (Option Node)) (json : Bool) (original : GoString)
    (flags : List GoString) (startLine endLine : ℕ)

namespace Node

def value : Node → GoString
  | mk v _ _ _ _ _ _ _ => v

def next : Node → Option Node
  | mk _ n _ _ _ _ _ _ => n

def children : Node → List (Option Node)
  | mk _ _ c _ _ _ _ _ => c

def original : Node → GoString
  | mk _ _ _ _ o _ _ _ => o

/-- The node of one token. -/
def leaf (value : GoString) (next : Option Node) : Node := mk value next [] false [] [] 0 0

/-- The node with the lines it was read from. -/
def atLines (startLine endLine : ℕ) : Node → Node
  | mk v n c j o f _ _ => mk v n c j o f startLine endLine

end Node

/-- The tokens of an argument list, linked by `Next`. -/
def chain : List GoString → Option Node
  | [] => none
  | w :: ws => some (.leaf w (chain ws))

/-! ## Directives and errors -/

/-- The escape tokens that `SetEscapeToken` allows. -/
inductive EscapeToken
  | backslash
  | backquote
  deriving DecidableEq

def EscapeToken.byte : EscapeToken → UInt8
  | backslash => 0x5C
  | backquote => 0x60

/-- `Directive`; `LineContinuationRegex` goes with the escape token. -/
structure Directive where
  escapeToken : EscapeToken := .backslash
  lookingForDirectives : Bool := true
  escapeSeen : Bool := false
  deriving DecidableEq

inductive Err
  | repeatedEscape
  | invalidEscape (s : GoString)
  | twoArguments (key : String)
  | missingEquals (word : GoString)
  | notStringArray
  deriving DecidableEq

def isBlank (b : UInt8) : Bool := b = 0x20 || b = 0x09

/-- The character that `tokenEscapeCommand` finds in a line. -/
def escapeCommand (line : GoString) : Option GoString :=
  match line with
  | 0x23 :: s =>
    let s := s.dropWhile isBlank
    if (bytesOf "escape").isPrefixOf s then
      match (s.drop 6).dropWhile isBlank with
      | 0x3D :: s =>
        match runes (s.dropWhile isBlank) with
        | (_, e) :: _ => some e
        -- Only blanks: the last of them is the character.
        | [] => s.getLast?.map ([·])
      | _ => none
    else none
  | _ => none

/-- `SetEscapeToken`. -/
def setEscapeToken (s : GoString) (d : Directive) : Except Err Directive :=
  if s = [0x60] then .ok { d with escapeToken := .backquote }
  else if s = [0x5C] then .ok { d with escapeToken := .backslash }
  else .error (.invalidEscape s)

/-- `stripComments`. -/
def stripComments (line : GoString) : GoString := if line.head? = some 0x23 then [] else line

/-- The line without the marker of a continuation at its end, if it has one:
`LineContinuationRegex`. -/
def stripMarker (escapeToken : UInt8) (line : GoString) : Option GoString :=
  match line.reverse.dropWhile isBlank with
  | b :: s => if b = escapeToken then some s.reverse else none
  | [] => none

/-! ## Words -/

/-- `tokenWhitespace`. -/
def isToken (b : UInt8) : Bool := b = 0x09 || b = 0x0B || b = 0x0C || b = 0x0D || b = 0x20

/-- `tokenWhitespace.Split(s, 2)`: the text before the first white space, and the
text behind it. -/
def splitFirst (s : GoString) : GoString × Option GoString :=
  (s.takeWhile (!isToken ·),
    match s.dropWhile (!isToken ·) with
    | [] => none
    | _ :: t => some (t.dropWhile isToken))

def splitAux : ℕ → GoString → List GoString
  | 0, s => [s]
  | n + 1, s =>
    match splitFirst s with
    | (w, none) => [w]
    | (w, some t) => w :: splitAux n t

/-- `tokenWhitespace.Split(s, -1)`. -/
def splitAll (s : GoString) : List GoString := splitAux s.length s

/-- `rune(line[pos])`. -/
def byteRune (b : UInt8) : Char := Char.ofNat b.toNat

inductive Phase
  | inSpaces
  | inWord
  | inQuote
  deriving DecidableEq

/-- The word that a loop over a text has read, and the words before it. -/
structure Scan (α : Type) where
  phase : Phase := .inSpaces
  words : List GoString := []
  word : GoString := []
  quote : α
  blankOK : Bool := false

/-- The word ends: it is kept unless it is empty and was not quoted. -/
def Scan.endWord {α : Type} (st : Scan α) : List GoString :=
  if st.blankOK ∨ st.word ≠ [] then st.words ++ [st.word] else st.words

def dashes : GoString := [0x2D, 0x2D]

/-- The loop of `extractBuilderFlags`. -/
def flagsLoop (st : Scan UInt8) : GoString → GoString × List GoString
  | [] => ([], if st.phase = .inSpaces ∨ st.word = dashes then st.words else st.endWord)
  | ch :: line =>
    match st.phase with
    | .inSpaces =>
      if isSpace (byteRune ch) then flagsLoop st line
      else if ch ≠ 0x2D ∨ line.head? ≠ some 0x2D then (ch :: line, st.words)
      else flagsLoop { st with phase := .inWord, word := st.word ++ [ch] } line
    | .inWord =>
      if isSpace (byteRune ch) then
        if st.word = dashes then (ch :: line, st.words)
        else flagsLoop { st with phase := .inSpaces, words := st.endWord, word := [], blankOK := false } line
      else if ch = 0x27 ∨ ch = 0x22 then flagsLoop { st with phase := .inQuote, quote := ch, blankOK := true } line
      else if ch = 0x5C then
        match line with
        | [] => flagsLoop st []
        | ch' :: line => flagsLoop { st with word := st.word ++ String.utf8EncodeChar (byteRune ch') } line
      else flagsLoop { st with word := st.word ++ String.utf8EncodeChar (byteRune ch) } line
    | .inQuote =>
      if ch = st.quote then flagsLoop { st with phase := .inWord } line
      else if ch = 0x5C then
        match line with
        | [] => flagsLoop { st with phase := .inWord } []
        | ch' :: line => flagsLoop { st with word := st.word ++ String.utf8EncodeChar (byteRune ch') } line
      else flagsLoop { st with word := st.word ++ String.utf8EncodeChar (byteRune ch) } line

/-- `extractBuilderFlags`: the rest of the line, and the flags before it. -/
def extractBuilderFlags (line : GoString) : GoString × List GoString := flagsLoop { quote := 0 } line

/-- `splitCommand`: the command, the flags and the arguments. -/
def splitCommand (lib : Lib) (line : GoString) : GoString × List GoString × GoString :=
  match splitFirst (trimSpace line) with
  | (cmd, none) => (toLower lib.lower cmd, [], [])
  | (cmd, some rest) =>
    (toLower lib.lower cmd, (extractBuilderFlags rest).2, trimSpace (extractBuilderFlags rest).1)

/-- The loop of `parseWords`. -/
def wordsLoop (escapeToken : Char) (st : Scan Char) : List Char → List GoString
  | [] => if st.phase = .inSpaces then st.words else st.endWord
  | ch :: rest =>
    match st.phase with
    | .inQuote =>
      let st' := if ch = st.quote then { st with phase := .inWord } else st
      if ch = escapeToken ∧ st.quote ≠ '\'' then
        match rest with
        | [] => wordsLoop escapeToken { st' with phase := .inWord } []
        | ch' :: rest =>
          wordsLoop escapeToken
            { st' with word := st.word ++ String.utf8EncodeChar ch ++ String.utf8EncodeChar ch' } rest
      else wordsLoop escapeToken { st' with word := st.word ++ String.utf8EncodeChar ch } rest
    | _ =>
      if isSpace ch then
        if st.phase = .inSpaces then wordsLoop escapeToken st rest
        else wordsLoop escapeToken { st with phase := .inSpaces, words := st.endWord, word := [], blankOK := false } rest
      else
        let st' : Scan Char :=
          if ch = '\'' ∨ ch = '"' then { st with phase := .inQuote, quote := ch, blankOK := true }
          else { st with phase := .inWord }
        if ch = escapeToken then
          match rest with
          | [] => wordsLoop escapeToken st' []
          | ch' :: rest =>
            wordsLoop escapeToken
              { st' with word := st.word ++ String.utf8EncodeChar ch ++ String.utf8EncodeChar ch' } rest
        else wordsLoop escapeToken { st' with word := st.word ++ String.utf8EncodeChar ch } rest

/-- `parseWords`. -/
def parseWords (escapeToken : UInt8) (rest : GoString) : List GoString :=
  wordsLoop (byteRune escapeToken) { quote := Char.ofNat 0 } ((runes rest).map (·.1))

/-! ## The parsers of the arguments -/

/-- What a parser of arguments returns: the first token, and whether the
arguments were JSON. -/
abbrev Parsed := Option Node × Bool

/-- `parseIgnore`. -/
def parseIgnore (_ : GoString) : Except Err Parsed := .ok (some (.leaf [] none), false)

/-- `strings.SplitN(word, "=", 2)`, if there is a `=`. -/
def splitEquals (word : GoString) : Option (GoString × GoString) :=
  match word.dropWhile (· ≠ 0x3D) with
  | [] => none
  | _ :: value => some (word.takeWhile (· ≠ 0x3D), value)

/-- The words `name=value` of `parseNameVal`, as names and values in turn. -/
def nameValues : List GoString → Except Err (List GoString)
  | [] => .ok []
  | word :: words =>
    match splitEquals word with
    | none => .error (.missingEquals word)
    | some (name, value) =>
      match nameValues words with
      | .error e => .error e
      | .ok ws => .ok (name :: value :: ws)

/-- `parseNameVal`. -/
def parseNameVal (escapeToken : UInt8) (key : String) (rest : GoString) : Except Err Parsed :=
  match parseWords escapeToken rest with
  | [] => .ok (none, false)
  | word :: words =>
    if 0x3D ∉ word then
      match splitFirst rest with
      | (_, none) => .error (.twoArguments key)
      | (name, some value) => .ok (chain [name, value], false)
    else
      match nameValues (word :: words) with
      | .error e => .error e
      | .ok ws => .ok (chain ws, false)

/-- `parseNameOrNameVal`. -/
def parseNameOrNameVal (escapeToken : UInt8) (rest : GoString) : Except Err Parsed :=
  .ok (chain (parseWords escapeToken rest), false)

/-- `parseStringsWhitespaceDelimited`. -/
def parseStringsWhitespaceDelimited (rest : GoString) : Except Err Parsed :=
  if rest = [] then .ok (none, false) else .ok (chain (splitAll rest), false)

/-- `parseString`. -/
def parseString (rest : GoString) : Except Err Parsed :=
  if rest = [] then .ok (none, false) else .ok (chain [rest], false)

/-- What `parseJSON` makes of a text: it is no JSON array, or one of other
things than strings, or the strings. -/
inductive JSONResult
  | notArray
  | notStrings
  | strings (ss : List GoString)

/-- `parseJSON`. -/
def parseJSON (lib : Lib) (rest : GoString) : JSONResult :=
  if (trimLeft rest).head? ≠ some 0x5B then .notArray
  else
    match lib.json (trimLeft rest) with
    | none => .notArray
    | some elems =>
      match elems.mapM id with
      | none => .notStrings
      | some ss => .strings ss

/-- `parseMaybeJSON`. -/
def parseMaybeJSON (lib : Lib) (rest : GoString) : Except Err Parsed :=
  if rest = [] then .ok (none, false)
  else
    match parseJSON lib rest with
    | .strings ss => .ok (chain ss, true)
    | .notStrings => .error .notStringArray
    | .notArray => .ok (chain [rest], false)

/-- `parseMaybeJSONToList`. -/
def parseMaybeJSONToList (lib : Lib) (rest : GoString) : Except Err Parsed :=
  match parseJSON lib rest with
  | .strings ss => .ok (chain ss, true)
  | .notStrings => .error .notStringArray
  | .notArray => parseStringsWhitespaceDelimited rest

/-- `parseHealthConfig`. -/
def parseHealthConfig (lib : Lib) (rest : GoString) : Except Err Parsed :=
  let typ := rest.takeWhile fun b => !isSpace (byteRune b)
  if typ = [] then .ok (none, false)
  else
    match parseMaybeJSON lib ((rest.drop typ.length).dropWhile fun b => isSpace (byteRune b)) with
    | .error e => .error e
    | .ok (cmd, json) => .ok (some (.leaf typ cmd), json)

/-! ## Instructions -/

/-- The instructions of the dispatch table. -/
inductive Command
  | add | arg | cmd | copy | entrypoint | env | expose | from | healthcheck | label | maintainer | onbuild | run
  | shell | stopSignal | user | volume | workdir
  deriving DecidableEq

namespace Command

def name : Command → String
  | add => "add"
  | arg => "arg"
  | cmd => "cmd"
  | copy => "copy"
  | entrypoint => "entrypoint"
  | env => "env"
  | expose => "expose"
  | «from» => "from"
  | healthcheck => "healthcheck"
  | label => "label"
  | maintainer => "maintainer"
  | onbuild => "onbuild"
  | run => "run"
  | shell => "shell"
  | stopSignal => "stopsignal"
  | user => "user"
  | volume => "volume"
  | workdir => "workdir"

def all : List Command :=
  [add, arg, cmd, copy, entrypoint, env, expose, «from», healthcheck, label, maintainer, onbuild, run, shell,
    stopSignal, user, volume, workdir]

/-- The entry of the dispatch table for a command. -/
def of? (cmd : GoString) : Option Command := all.find? fun c => bytesOf c.name = cmd

end Command

/-- `parseSubCommand`, with `ParseLine` as `parseLine`. -/
def parseSubCommand (parseLine : GoString → Except Err (GoString × Option Node)) (rest : GoString) :
    Except Err Parsed :=
  if rest = [] then .ok (none, false)
  else
    match parseLine rest with
    | .error e => .error e
    | .ok (_, child) => .ok (some (.mk [] none [child] false [] [] 0 0), false)

/-- `fullDispatch`. -/
def fullDispatch (lib : Lib) (escapeToken : UInt8) (parseLine : GoString → Except Err (GoString × Option Node))
    (cmd args : GoString) : Except Err Parsed :=
  match Command.of? cmd with
  | none => parseIgnore args
  | some .add | some .copy | some .volume => parseMaybeJSONToList lib args
  | some .arg => parseNameOrNameVal escapeToken args
  | some .cmd | some .entrypoint | some .run | some .shell => parseMaybeJSON lib args
  | some .env => parseNameVal escapeToken "ENV" args
  | some .label => parseNameVal escapeToken "LABEL" args
  | some .expose => parseStringsWhitespaceDelimited args
  | some .from | some .maintainer | some .stopSignal | some .user | some .workdir => parseString args
  | some .healthcheck => parseHealthConfig lib args
  | some .onbuild => parseSubCommand parseLine args

/-- `ParseLine` behind the directives: the text of a line that is continued, or
the instruction of one that is not. -/
def parseInstructionWith (lib : Lib) (escapeToken : UInt8)
    (parseLine : GoString → Except Err (GoString × Option Node)) (line : GoString) :
    Except Err (GoString × Option Node) :=
  if stripComments line = [] then .ok ([], none)
  else
    match stripMarker escapeToken line with
    | some line => .ok (line, none)
    | none =>
      match splitCommand lib line with
      | (cmd, flags, args) =>
        match fullDispatch lib escapeToken parseLine cmd args with
        | .error e => .error e
        | .ok (sexp, attrs) => .ok ([], some (.mk cmd sexp [] attrs line flags 0 0))

def parseInstructionAux (lib : Lib) (escapeToken : UInt8) : ℕ → GoString → Except Err (GoString × Option Node)
  | 0, _ => .ok ([], none)
  | n + 1, line => parseInstructionWith lib escapeToken (parseInstructionAux lib escapeToken n) line

def parseInstruction (lib : Lib) (escapeToken : UInt8) (line : GoString) : Except Err (GoString × Option Node) :=
  parseInstructionAux lib escapeToken (line.length + 1) line

/-- `ParseLine`. -/
def parseLine (lib : Lib) (d : Directive) (line : GoString) : Except Err (Directive × GoString × Option Node) :=
  match if d.lookingForDirectives then escapeCommand (toLower lib.lower line) else none with
  | some e =>
    if d.escapeSeen then .error .repeatedEscape
    else
      match setEscapeToken e d with
      | .error e => .error e
      | .ok d => .ok ({ d with escapeSeen := true }, [], none)
  | none =>
    match parseInstruction lib d.escapeToken.byte line with
    | .error e => .error e
    | .ok (line, child) => .ok ({ d with lookingForDirectives := false }, line, child)

/-! ## Parse -/

/-- `bufio.MaxScanTokenSize`. -/
def maxScanTokenSize : ℕ := 65536

/-- The carriage return at the end of a line is dropped. -/
def dropCR (s : GoString) : GoString := if s.getLast? = some 0x0D then s.dropLast else s

def scansAux : ℕ → GoString → List (Option GoString)
  | 0, _ => []
  | n + 1, s =>
    if s = [] then []
    else if maxScanTokenSize ≤ (s.takeWhile (· ≠ 0x0A)).length then [none, some (dropCR (s.take maxScanTokenSize))]
    else
      some (dropCR (s.takeWhile (· ≠ 0x0A))) ::
        match s.dropWhile (· ≠ 0x0A) with
        | [] => []
        | _ :: s => scansAux n s

/-- What the calls of `Scan` give, one after the other, and nothing from then on.
A line that does not fit into the buffer ends the input; but the next call
finds the buffer and gives what is in it. -/
def scans (input : GoString) : List (Option GoString) := scansAux input.length input

def utf8bom : GoString := [0xEF, 0xBB, 0xBF]

/-- `bytes.TrimPrefix(s, utf8bom)`. -/
def trimBOM (s : GoString) : GoString := if utf8bom.isPrefixOf s then s.drop 3 else s

/-- A child at the end of the list of them. -/
def addChild (children : List Node) (startLine endLine : ℕ) : Option Node → List Node
  | none => children
  | some child => children ++ [child.atLines startLine endLine]

mutual

/-- The loop of `Parse`; `currentLine` lines have been read. -/
def parseLines (lib : Lib) (d : Directive) (currentLine : ℕ) (children : List Node) :
    List (Option GoString) → Except Err (Directive × List Node)
  | [] => .ok (d, children)
  | none :: _ => .ok (d, children)
  | some scanned :: rest =>
    match parseLine lib d (trimLeft (if currentLine = 0 then trimBOM scanned else scanned)) with
    | .error e => .error e
    | .ok (d, line, child) =>
      if line ≠ [] ∧ child.isNone then
        continueLine lib d (currentLine + 1) children (currentLine + 1) line rest
      else parseLines lib d (currentLine + 1) (addChild children (currentLine + 1) (currentLine + 1) child) rest

/-- The inner loop of `Parse`: the lines that continue `line`. -/
def continueLine (lib : Lib) (d : Directive) (currentLine : ℕ) (children : List Node) (startLine : ℕ)
    (line : GoString) : List (Option GoString) → Except Err (Directive × List Node)
  | [] =>
    if line = [] then .ok (d, children)
    else
      match parseLine lib d line with
      | .error e => .error e
      | .ok (d, _, child) => .ok (d, addChild children startLine currentLine child)
  | none :: rest =>
    if line = [] then parseLines lib d currentLine children rest
    else
      match parseLine lib d line with
      | .error e => .error e
      | .ok (d, _, child) => parseLines lib d currentLine (addChild children startLine currentLine child) rest
  | some newline :: rest =>
    if stripComments (trimSpace newline) = [] then
      continueLine lib d (currentLine + 1) children startLine line rest
    else
      match parseLine lib d (line ++ newline) with
      | .error e => .error e
      | .ok (d, line, none) => continueLine lib d (currentLine + 1) children startLine line rest
      | .ok (d, _, some child) =>
        parseLines lib d (currentLine + 1) (addChild children startLine (currentLine + 1) (some child)) rest

end

/-- `Parse`: the directive after it, and the children of the root. -/
def parse (lib : Lib) (d : Directive) (input : GoString) : Except Err (Directive × List Node) :=
  parseLines lib d 0 [] (scans input)

/-- Only a letter is the lower case of another character. -/
theorem toLower_eq_of_not_isLower (c : Char) (h : c.toLower.isLower = false) : c.toLower = c := by
  unfold Char.toLower at h ⊢
  split_ifs at h ⊢ with hc
  · have hlow : ¬ (97 ≤ (c.val + 32).toNat ∧ (c.val + 32).toNat ≤ 122) := by
      intro hb
      delta Char.isLower at h
      rw [Bool.and_eq_false_iff] at h
      simp only [ge_iff_le, decide_eq_false_iff_not, UInt32.le_iff_toNat_le] at h
      exact h.elim (fun h => h hb.1) (fun h => h hb.2)
    have h₁ : 65 ≤ c.val.toNat := UInt32.le_iff_toNat_le.mp hc.1
    have h₂ : c.val.toNat ≤ 90 := UInt32.le_iff_toNat_le.mp hc.2
    have hadd : (c.val + 32).toNat = c.val.toNat + 32 := by
      rw [UInt32.toNat_add, Nat.mod_eq_of_lt]
      · rfl
      · exact Nat.lt_of_le_of_lt (Nat.add_le_add_right h₂ _) (by decide)
    omega
  · rfl

/-- ASCII letters, and no JSON. -/
def asciiLib : Lib where
  lower := Char.toLower
  upper := Char.toUpper
  json _ := none
  lower_ascii _ _ := rfl
  upper_ascii _ _ := rfl
  lower_caseless _ h := by rcases h with rfl | rfl <;> decide
  eq_of_lower c _ h := toLower_eq_of_not_isLower c h

end Moby.Dockerfile
