import Moby.Dockerfile.Lines

/-!
# Walking the tree of a Dockerfile

What `Builder.dispatch` follows of a parsed instruction: the tokens behind it,
and for `ONBUILD` those of the instruction that is its argument. `ParseLine` has
no node for a comment or a line that is continued, and `parseSubCommand` does
not look whether it got one.
-/

namespace Moby.Dockerfile

open Framework (GoString bytesOf)
open Framework.GoString

variable {lib : Lib} {e : UInt8}

/-- The values of the tokens behind a node. -/
def Node.args : Node → List GoString
  | .mk _ none _ _ _ _ _ _ => []
  | .mk _ (some n) _ _ _ _ _ _ => n.value :: n.args

def onbuildName : GoString := bytesOf Command.onbuild.name

/-- What `dispatch` reads of an instruction: a nil node or no node where it
needs one, the error that `ONBUILD` has no argument, or the words. -/
inductive Visit
  | nilNode
  | noArgument
  | words (strList : List GoString)
  deriving DecidableEq

/-- The walk of `dispatch`. -/
def dispatchVisit (ast : Node) : Visit :=
  if ast.value = onbuildName then
    match ast.next with
    | none => .noArgument
    | some arg =>
      match arg.children with
      | some child :: _ => .words (child.value :: child.args)
      | _ => .nilNode
  else .words ast.args

/-- An instruction is walked without a nil node, and so is the argument of an
`ONBUILD`. -/
inductive Walks : Node → Prop
  | plain {n : Node} (h : n.value ≠ onbuildName) : Walks n
  | bare {n : Node} (h : n.next = none) : Walks n
  | onbuild {n arg child : Node} (ha : n.next = some arg) (hc : arg.children.head? = some (some child))
    (h : Walks child) : Walks n

theorem Walks.dispatchVisit_ne {n : Node} (h : Walks n) : dispatchVisit n ≠ .nilNode := by
  unfold dispatchVisit
  cases h with
  | plain h => rw [if_neg h]; rintro ⟨⟩
  | bare h =>
    split
    · rw [h]; rintro ⟨⟩
    · rintro ⟨⟩
  | @onbuild _ arg child ha hc h =>
    split
    · obtain ⟨r, hr⟩ : ∃ r, arg.children = some child :: r := List.head?_eq_some_iff.mp hc
      rw [ha]
      simp only [hr]
      rintro ⟨⟩
    · rintro ⟨⟩

theorem walks_atLines {n : Node} {a b : ℕ} : Walks (n.atLines a b) ↔ Walks n := by
  have hv : (n.atLines a b).value = n.value := by cases n; rfl
  have hn : (n.atLines a b).next = n.next := by cases n; rfl
  constructor
  · intro h
    cases h with
    | plain h => exact .plain (hv ▸ h)
    | bare h => exact .bare (hn ▸ h)
    | onbuild ha hc h => exact .onbuild (hn ▸ ha) hc h
  · intro h
    cases h with
    | plain h => exact .plain (hv ▸ h)
    | bare h => exact .bare (hn ▸ h)
    | onbuild ha hc h => exact .onbuild (hn ▸ ha) hc h

/-- What the node of a text is made of. -/
theorem parseInstruction_node {text line : GoString} {node : Node}
    (h : parseInstruction lib e text = .ok (line, some node)) :
    ∃ cmd flags args sexp attrs, complete e text ∧ splitCommand lib text = (cmd, flags, args) ∧
      fullDispatch lib e (parseInstruction lib e) cmd args = .ok (sexp, attrs) ∧
      node = .mk cmd sexp [] attrs text flags 0 0 := by
  rw [parseInstruction_eq] at h
  unfold parseInstructionWith at h
  split at h
  · cases h
  · rename_i hc
    split at h
    · cases h
    · rename_i hm
      rcases hs : splitCommand lib text with ⟨cmd, flags, args⟩
      rw [hs] at h
      simp only at h
      split at h
      · cases h
      · rename_i sexp attrs hd
        cases h
        exact ⟨cmd, flags, args, sexp, attrs, complete_iff.mpr ⟨hc, hm⟩, rfl, hd, rfl⟩

/-- The argument of an `ONBUILD` in a text, also of one that is itself such an
argument, is neither a comment nor continued. -/
inductive Filled (lib : Lib) (e : UInt8) : GoString → Prop
  | other {text : GoString} (h : (splitCommand lib text).1 ≠ onbuildName) : Filled lib e text
  | bare {text : GoString} (h : (splitCommand lib text).2.2 = []) : Filled lib e text
  | onbuild {text : GoString} (hc : complete e (splitCommand lib text).2.2)
    (h : Filled lib e (splitCommand lib text).2.2) : Filled lib e text

theorem walks_iff_filled {text line : GoString} {node : Node}
    (h : parseInstruction lib e text = .ok (line, some node)) : Walks node ↔ Filled lib e text := by
  -- By induction on the length of the text: the argument of `ONBUILD` is shorter.
  induction hn : text.length using Nat.strong_induction_on generalizing text line node with
  | _ n ih =>
    obtain ⟨cmd, flags, args, sexp, attrs, -, hs, hd, rfl⟩ := parseInstruction_node h
    by_cases hcmd : cmd = onbuildName
    · subst hcmd
      have hdisp : fullDispatch lib e (parseInstruction lib e) onbuildName args =
          parseSubCommand (parseInstruction lib e) args := rfl
      rw [hdisp] at hd
      unfold parseSubCommand at hd
      split at hd
      · rename_i hargs
        cases hd
        exact ⟨fun _ => .bare (by rw [hs]; exact hargs), fun _ => .bare rfl⟩
      · rename_i hargs
        split at hd
        · cases hd
        · rename_i l child hp
          cases hd
          have hlen := length_splitCommand_lt hs hargs
          cases child with
          | none =>
            -- The argument has no node: it is a comment or continued.
            have hnc : ¬ complete e args := by
              intro hc
              rcases parseInstruction_ok hp with ⟨hc', -⟩ | ⟨-, hm, -⟩ | ⟨-, -, node, hn, -⟩
              · exact (complete_iff.mp hc).1 hc'
              · rw [(complete_iff.mp hc).2] at hm; cases hm
              · cases hn
            constructor
            · intro hw
              cases hw with
              | plain hv => exact absurd rfl hv
              | bare hn => cases hn
              | onbuild ha hc _ => cases ha; cases hc
            · intro hf
              cases hf with
              | other ho => rw [hs] at ho; exact absurd rfl ho
              | bare hb => rw [hs] at hb; exact absurd hb hargs
              | onbuild hc _ => rw [hs] at hc; exact absurd hc hnc
          | some child =>
            have hih := ih args.length (hn ▸ hlen) hp rfl
            obtain ⟨_, _, _, _, _, hc, -⟩ := parseInstruction_node hp
            constructor
            · intro hw
              cases hw with
              | plain hv => exact absurd rfl hv
              | bare hn => cases hn
              | onbuild ha hch hw =>
                cases ha
                cases hch
                exact .onbuild (by rw [hs]; exact hc) (by rw [hs]; exact hih.mp hw)
            · intro hf
              cases hf with
              | other ho => rw [hs] at ho; exact absurd rfl ho
              | bare hb => rw [hs] at hb; exact absurd hb hargs
              | onbuild _ hf => rw [hs] at hf; exact .onbuild rfl rfl (hih.mpr hf)
    · exact ⟨fun _ => .other (by rw [hs]; exact hcmd), fun _ => .plain hcmd⟩

/-- A parsed Dockerfile is walked without a nil node just if the arguments of
`ONBUILD` in the texts of its instructions are neither comments nor continued. -/
theorem parse_walks_iff {d d' : Directive} {input : GoString} {children : List Node}
    (h : parse lib d input = .ok (d', children)) :
    (∀ child ∈ children, Walks child) ↔
      ∀ text ∈ joinLines (escapeTokenOf lib d input).byte true (scans input),
        Filled lib (escapeTokenOf lib d input).byte text := by
  have hch := parse_children h
  clear h
  generalize joinLines (escapeTokenOf lib d input).byte true (scans input) = texts at hch
  induction hch with
  | nil => simp
  | @cons text child _ _ hn _ ih =>
    obtain ⟨node, a, b, hp, rfl⟩ := hn
    rw [List.forall_mem_cons, List.forall_mem_cons, walks_atLines, walks_iff_filled hp]
    exact and_congr_right fun _ => ih

theorem parse_walks_iff_run : ∃ d' children, parse asciiLib {} (bytesOf "ONBUILD RUN x") = .ok (d', children) ∧
    (∀ child ∈ children, Walks child) := by
  have hok : (parse asciiLib {} (bytesOf "ONBUILD RUN x")).isOk := by decide +kernel
  cases hp : parse asciiLib {} (bytesOf "ONBUILD RUN x") with
  | error err => rw [hp] at hok; cases hok
  | ok r =>
    refine ⟨r.1, r.2, rfl, (parse_walks_iff hp).mpr ?_⟩
    have htexts : joinLines (escapeTokenOf asciiLib {} (bytesOf "ONBUILD RUN x")).byte true
        (scans (bytesOf "ONBUILD RUN x")) = [bytesOf "ONBUILD RUN x"] := by decide +kernel
    rw [htexts, List.forall_mem_singleton]
    exact .onbuild (by decide +kernel) (.other (by decide +kernel))

/-- The tree of a comment behind `ONBUILD`. -/
theorem onbuild_nil : ∃ d' children, parse asciiLib {} (bytesOf "ONBUILD # x") = .ok (d', children) ∧
    ∃ child ∈ children, dispatchVisit child = .nilNode ∧ ¬ Walks child := by
  have hok : (parse asciiLib {} (bytesOf "ONBUILD # x")).toOption.map (·.2.map dispatchVisit) = some [.nilNode] := by
    decide +kernel
  cases hp : parse asciiLib {} (bytesOf "ONBUILD # x") with
  | error err => rw [hp] at hok; cases hok
  | ok r =>
    rw [hp] at hok
    have hv : r.2.map dispatchVisit = [.nilNode] := Option.some.inj hok
    obtain ⟨child, hc, hvisit⟩ := List.mem_map.mp (hv ▸ List.mem_singleton.mpr rfl : Visit.nilNode ∈ r.2.map dispatchVisit)
    exact ⟨r.1, r.2, rfl, child, hc, hvisit, fun hw => hw.dispatchVisit_ne hvisit⟩

end Moby.Dockerfile
