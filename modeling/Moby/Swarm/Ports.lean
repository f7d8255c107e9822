import Moby.Framework.Range
import Moby.Framework.Sort
import Moby.Framework.Text
import Moby.Swarm.Types

/-!
# The published ports of a service

`updatePorts` merges the ports that `--publish-add` names into those of a service, in a map with
the published port and the protocol as the key, and drops those whose target port `--publish-rm`
names. Ports whose published port is still to be chosen all have the port 0, so that only one of
each protocol is left of them, and a protocol that is not given is `tcp` for the key only
(`updatePorts_iff`).
-/

namespace Moby.Swarm

open Moby.Framework

/-! ## Ports in text -/

/-- The digits of a number that has to be below 65536, after those whose value is `n`: what
`strconv.ParseUint` returns, and whether it is without an error. -/
def parseUint16From : ℕ → List Char → ℕ × Bool
  | n, [] => (n, true)
  | n, c :: cs =>
    if ¬ c.isDigit then (0, false)
    else
      let n' := n * 10 + (c.toNat - '0'.toNat)
      if 65535 < n' then (2 ^ 64 - 1, false) else parseUint16From n' cs

/-- `strconv.ParseUint(s, 10, 16)`. -/
def parseUint16 (s : String) : ℕ × Bool :=
  if s = "" then (0, false) else parseUint16From 0 s.toList

/-- `strings.Split(s, sep)`. -/
def split (s : String) (sep : Char) : List String := (s.toList.splitOn sep).map .ofList

/-- `SplitProtoPort`. -/
def splitProtoPort (rawPort : String) : String × String :=
  match split rawPort '/' with
  | [] => ("", "")
  | [port] => if port = "" then ("", "") else ("tcp", rawPort)
  | port :: proto :: _ =>
    if port = "" then ("", "") else if proto = "" then ("tcp", port) else (proto, port)

/-- `Port.Proto`. -/
def proto (p : String) : String := (splitProtoPort p).1

/-- `Port.Int`, as a number without a sign. -/
def int (p : String) : ℕ :=
  let port := (splitProtoPort p).2
  if port = "" then 0 else (parseUint16 port).1

/-- `ParsePortRange`. -/
def parsePortRange (ports : String) : Option (ℕ × ℕ) :=
  if ports = "" then none
  else
    match split ports '-' with
    | start :: stop :: _ =>
      let (start, ok) := parseUint16 start
      let (stop, ok') := parseUint16 stop
      if ¬ ok ∨ ¬ ok' then none else if stop < start then none else some (start, stop)
    | _ =>
      let (start, ok) := parseUint16 ports
      if ok then some (start, start) else none

/-- `NewPort`. -/
def newPort (proto port : String) : Option String :=
  let range := if port = "" then some (0, 0) else parsePortRange port
  range.map fun (start, stop) =>
    if start = stop then toString start ++ "/" ++ proto else toString start ++ "-" ++ toString stop ++ "/" ++ proto

/-- `PortBinding`. -/
structure PortBinding where
  hostIP : String
  hostPort : String

/-- `rawPort` without what follows its last slash, and that, `tcp` if there is no slash. -/
def splitProto (rawPort : String) : String × String :=
  let (proto, rest) := rawPort.toList.reverse.span (· ≠ '/')
  match rest with
  | [] => (rawPort, "tcp")
  | _ :: rest => (.ofList rest.reverse, .ofList proto.reverse)

/-- `ParsePortSpec`, where `parseIP` says whether `net.ParseIP` accepts an address. -/
def parsePortSpec (parseIP : String → Bool) (rawPort : String) : Option (List (String × PortBinding)) :=
  let (rawPort, proto) := splitProto rawPort
  let parts := match split rawPort ':' with
    | [port] => some ("", "", port)
    | [host, port] => some ("", host, port)
    | [ip, host, port] => some (ip, host, port)
    | _ => none
  parts.bind fun (rawIP, hostPort, containerPort) =>
    if rawIP ≠ "" ∧ ¬ parseIP rawIP then none
    else if containerPort = "" then none
    else
      (parsePortRange containerPort).bind fun (startPort, endPort) =>
      (if hostPort = "" then some (0, 0) else parsePortRange hostPort).bind fun (startHostPort, endHostPort) =>
      if hostPort ≠ "" ∧ endPort - startPort ≠ endHostPort - startHostPort ∧ endPort ≠ startPort then none
      else if toLower proto ≠ "tcp" ∧ toLower proto ≠ "udp" then none
      else
        (List.range (endPort - startPort + 1)).mapM fun i =>
          let hostPort := if hostPort = "" then "" else toString (startHostPort + i)
          -- a range is left to choose from where there is a single port
          let hostPort := if startPort = endPort ∧ startHostPort ≠ endHostPort
            then hostPort ++ "-" ++ toString endHostPort else hostPort
          (newPort (toLower proto) (toString (startPort + i))).map fun port => (port, ⟨rawIP, hostPort⟩)

/-- The bindings of a port, with one more. -/
def bind (bindings : Map String (List PortBinding)) (mapping : String × PortBinding) : Map String (List PortBinding) :=
  bindings.insert mapping.1 ((bindings.lookup mapping.1).getD [] ++ [mapping.2])

/-- The port mappings of `ParsePortSpecs`, none if one of the ports has an error. -/
def portMappings (parseIP : String → Bool) (ports : List String) : List (String × PortBinding) :=
  ((ports.mapM (parsePortSpec parseIP)).getD []).flatten

/-- `ParsePortSpecs`, whose error is not looked at: the ports and their bindings. -/
def parsePortSpecs (parseIP : String → Bool) (ports : List String) :
    Map String Unit × Map String (List PortBinding) :=
  (portMappings parseIP ports).foldl (fun r mapping => (r.1.insert mapping.1 (), bind r.2 mapping)) (∅, ∅)

/-! ## The update -/

/-- The protocol of a port, `tcp` if there is none. -/
def orTCP (protocol : String) : String := if protocol = "" then "tcp" else protocol

/-- `portConfigToString`. -/
def portConfigToString (portConfig : PortConfig) : String :=
  toString portConfig.publishedPort.toNat ++ "/" ++ orTCP portConfig.protocol

/-- The port of a mapping. -/
def toPortConfig (port : String) (binding : PortBinding) : PortConfig where
  protocol := toLower (proto port)
  targetPort := .ofNat (int port)
  publishedPort := .ofNat (parseUint16 binding.hostPort).1

/-- `convertPortToPortConfig`. -/
def convertPortToPortConfig (port : String) (portBindings : Map String (List PortBinding)) : List PortConfig :=
  ((portBindings.lookup port).getD []).map (toPortConfig port)

/-- `equalPort`. -/
def equalPort (targetPort : String) (port : PortConfig) : Bool :=
  port.protocol = proto targetPort ∧ port.targetPort = .ofNat (int targetPort)

/-- An entry that is added to `portSet`. -/
def addPort (portSet : Map String PortConfig) (entry : PortConfig) : Except String (Map String PortConfig) :=
  match portSet.lookup (portConfigToString entry) with
  | none => .ok (portSet.insert (portConfigToString entry) entry)
  | some v =>
    if v ≠ entry then
      .error ("conflicting port mapping between " ++
        toString entry.publishedPort ++ ":" ++ toString entry.targetPort ++ "/" ++ entry.protocol ++ " and " ++
        toString v.publishedPort ++ ":" ++ toString v.targetPort ++ "/" ++ v.protocol)
    else .ok (portSet.insert (portConfigToString entry) entry)

/-- An entry of the service, where no added port has its key. -/
def keepPort (portSet : Map String PortConfig) (entry : PortConfig) : Map String PortConfig :=
  if portConfigToString entry ∈ portSet then portSet else portSet.insert (portConfigToString entry) entry

/-- What the loops over maps, `sort.Sort` and `net.ParseIP` do. -/
structure Runtime where
  parseIP : String → Bool
  ports : Range String Unit
  portSet : Range String PortConfig
  sort : (PortConfig → PortConfig → Bool) → List PortConfig → List PortConfig
  sorts : Sorts sort

/-- The ports of the loop over the values of `--publish-add`, if it is given. -/
def newConfigs (rt : Runtime) : Option (List String) → List PortConfig
  | none => []
  | some values =>
    let (ports, portBindings) := parsePortSpecs rt.parseIP values
    (rt.ports.list ports).flatMap fun port => convertPortToPortConfig port.1 portBindings

/-- `updatePorts`, with the value of `--publish-add`, if it is given, and that of `--publish-rm`. -/
def updatePorts (rt : Runtime) (publishAdd : Option (List String)) (toRemove : List String)
    (portConfig : List PortConfig) : Except String (List PortConfig) := do
  let portSet ← (newConfigs rt publishAdd).foldlM addPort ∅
  let portSet := portConfig.foldl keepPort portSet
  let newPorts := (rt.portSet.list portSet).map Sigma.snd
  return rt.sort (fun x y => portConfigToString x < portConfigToString y)
    (newPorts.filter fun port => ¬ toRemove.any (equalPort · port))

/-! ## What is asked for -/

/-- The ports that `--publish-add` names. -/
def added (parseIP : String → Bool) (publishAdd : Option (List String)) : List PortConfig :=
  (portMappings parseIP (publishAdd.getD [])).map fun mapping => toPortConfig mapping.1 mapping.2

/-- The two have the same published port and the same protocol. -/
def SamePublished (x y : PortConfig) : Prop :=
  x.publishedPort = y.publishedPort ∧ orTCP x.protocol = orTCP y.protocol

/-- A port's target port and protocol are in a list. -/
def Listed (toRemove : List String) (x : PortConfig) : Prop :=
  ∃ r ∈ toRemove, x.targetPort = .ofNat (int r) ∧ orTCP x.protocol = orTCP (proto r)

/-- A port that should be there after an update. -/
def Wanted (adds : List PortConfig) (toRemove : List String) (portConfig : List PortConfig) (x : PortConfig) : Prop :=
  (x ∈ adds ∨ x ∈ portConfig ∧ ¬ ∃ y ∈ adds, y.publishedPort ≠ 0 ∧ SamePublished y x) ∧ ¬ Listed toRemove x

/-- No two ports have the same key. -/
def Unambiguous (l : List PortConfig) : Prop :=
  ∀ x ∈ l, ∀ y ∈ l, portConfigToString x = portConfigToString y → x = y

/-- What the update takes for granted. Two ports that are added do not have the same key, also where the
published port is still to be chosen. Of several ports with such a key, all but the first are to be
removed. And the first port of a key that is to be removed has its protocol as it is listed. -/
def Distinct (adds : List PortConfig) (toRemove : List String) (portConfig : List PortConfig) : Prop :=
  Unambiguous adds ∧
  ∀ x ∈ adds ++ portConfig,
    ∀ w ∈ (adds ++ portConfig).find? fun w => portConfigToString w = portConfigToString x,
      (x.publishedPort = 0 → x = w ∨ Listed toRemove x) ∧
      (Listed toRemove w → ∃ r ∈ toRemove, equalPort r w)

instance : DecidablePred Unambiguous := fun l => inferInstanceAs (Decidable (∀ x ∈ l, ∀ y ∈ l, _ → _))

instance : DecidableRel SamePublished := fun _ _ => inferInstanceAs (Decidable (_ ∧ _))

instance (toRemove : List String) : DecidablePred (Listed toRemove) := fun _ =>
  inferInstanceAs (Decidable (∃ r ∈ toRemove, _))

instance (adds : List PortConfig) (toRemove : List String) (portConfig : List PortConfig) :
    Decidable (Distinct adds toRemove portConfig) :=
  inferInstanceAs (Decidable (_ ∧ _))

/-! ## The set of ports -/

/-- The key says the published port and the protocol. -/
theorem portConfigToString_eq {x y : PortConfig} :
    portConfigToString x = portConfigToString y ↔ SamePublished x y := by
  have hdigits : ∀ n : ℕ, '/' ∉ (toString n).toList := by
    intro n h
    have := Nat.isDigit_of_mem_toDigits (b := 10) (n := n) (by decide) (by decide) (by simpa using h)
    revert this
    decide
  unfold portConfigToString SamePublished
  constructor
  · intro h
    have h := congrArg String.toList h
    simp only [String.toList_append, List.append_assoc] at h
    obtain ⟨hport, hproto⟩ := append_cons_inj (hdigits _) (hdigits _) h
    refine ⟨UInt32.toNat_inj.mp ?_, String.toList_inj.mp hproto⟩
    simpa [parseDigits_toDigits] using congrArg parseDigits hport
  · rintro ⟨hport, hproto⟩
    rw [hport, hproto]

/-- What is in the two maps of `ParsePortSpecs`. -/
theorem foldl_parse (port : String) (l : List (String × PortBinding)) (ports : Map String Unit)
    (bindings : Map String (List PortBinding)) :
    let r := l.foldl (fun r mapping => (r.1.insert mapping.1 (), bind r.2 mapping)) (ports, bindings)
    (port ∈ r.1 ↔ port ∈ ports ∨ ∃ b, (port, b) ∈ l) ∧
    (r.2.lookup port).getD [] = (bindings.lookup port).getD [] ++ (l.filter (·.1 = port)).map Prod.snd := by
  induction l generalizing ports bindings with
  | nil => simp
  | cons mapping l ih =>
    obtain ⟨hp, hb⟩ := ih (ports.insert mapping.1 ()) (bind bindings mapping)
    refine ⟨?_, ?_⟩
    · rw [List.foldl_cons, hp, Finmap.mem_insert]
      constructor
      · rintro ((h | h) | ⟨b, h⟩)
        · exact .inr ⟨mapping.2, by rw [h]; exact List.mem_cons_self⟩
        · exact .inl h
        · exact .inr ⟨b, List.mem_cons_of_mem _ h⟩
      · rintro (h | ⟨b, h⟩)
        · exact .inl (.inr h)
        · rcases List.mem_cons.mp h with h | h
          · exact .inl (.inl (congrArg Prod.fst h))
          · exact .inr ⟨b, h⟩
    · rw [List.foldl_cons, hb, bind, Finmap.lookup_insert']
      by_cases h : port = mapping.1
      · subst h
        simp
      · rw [if_neg h, List.filter_cons_of_neg (by simpa using fun h' => h h'.symm)]

/-- The loop over the ports visits those that are added. -/
theorem mem_newConfigs {rt : Runtime} {publishAdd : Option (List String)} {x : PortConfig} :
    x ∈ newConfigs rt publishAdd ↔ x ∈ added rt.parseIP publishAdd := by
  cases publishAdd with
  | none => rfl
  | some values =>
  have hspec := fun port => foldl_parse port (portMappings rt.parseIP values) ∅ ∅
  simp only [newConfigs, List.mem_flatMap, convertPortToPortConfig, List.mem_map, parsePortSpecs, added,
    Option.getD_some]
  constructor
  · rintro ⟨⟨port, u⟩, -, b, hb, rfl⟩
    rw [(hspec port).2] at hb
    obtain ⟨⟨port', b'⟩, hm, rfl⟩ := List.mem_map.mp ((List.mem_append.mp hb).resolve_left (by simp))
    obtain ⟨hmap, hport⟩ := List.mem_filter.mp hm
    obtain rfl : port' = port := by simpa using hport
    exact ⟨(port', b'), hmap, rfl⟩
  · rintro ⟨⟨port, b⟩, hm, rfl⟩
    have hport := (hspec port).1.mpr (.inr ⟨b, hm⟩)
    refine ⟨⟨port, ()⟩, rt.ports.mem_list.mpr ?_, b, ?_, rfl⟩
    · obtain ⟨u, hu⟩ := Finmap.mem_iff.mp hport
      exact hu
    · rw [(hspec port).2]
      exact List.mem_append_right _ (List.mem_map.mpr ⟨(port, b), List.mem_filter.mpr ⟨hm, by simp⟩, rfl⟩)

section

variable {l : List PortConfig} {m m' : Map String PortConfig} {x : PortConfig} {k : String}

theorem addPort_eq_ok : addPort m x = .ok m' ↔
    (∀ v, m.lookup (portConfigToString x) = some v → v = x) ∧ m' = m.insert (portConfigToString x) x := by
  unfold addPort
  cases h : m.lookup (portConfigToString x) with
  | none => simp [eq_comm]
  | some v =>
    by_cases hv : v = x
    · simp [hv, eq_comm]
    · simp [hv]

/-- The added ports are under their keys, and no two of them have the same. -/
theorem foldlM_addPort_eq_ok : l.foldlM addPort m = .ok m' ↔
    (∀ x ∈ l, ∀ v, m.lookup (portConfigToString x) = some v → v = x) ∧
    Unambiguous l ∧ m' = l.foldl (fun m x => m.insert (portConfigToString x) x) m := by
  induction l generalizing m with
  | nil => simp [eq_comm, pure, Except.pure, Unambiguous]
  | cons z l ih =>
    rw [List.foldlM_cons, List.foldl_cons]
    constructor
    · intro h
      cases hz : addPort m z with
      | error e =>
        rw [hz] at h
        cases h
      | ok m₁ =>
        rw [hz] at h
        obtain ⟨hv, rfl⟩ := addPort_eq_ok.mp hz
        obtain ⟨hm, hl, rfl⟩ := ih.mp h
        have hlz : ∀ x ∈ l, portConfigToString x = portConfigToString z → z = x := fun x hx he =>
          hm x hx z (by rw [he]; exact Finmap.lookup_insert m)
        refine ⟨?_, ?_, rfl⟩
        · intro x hx v hxv
          rcases List.mem_cons.mp hx with rfl | hx
          · exact hv v hxv
          · by_cases he : portConfigToString x = portConfigToString z
            · rw [← hlz x hx he]
              exact hv v (he ▸ hxv)
            · exact hm x hx v (by rwa [Finmap.lookup_insert_of_ne m he])
        · intro x hx y hy he
          rcases List.mem_cons.mp hx with hxz | hx'
          · rcases List.mem_cons.mp hy with hyz | hy'
            · rw [hxz, hyz]
            · rw [hxz, hlz y hy' (by rw [← he, hxz])]
          · rcases List.mem_cons.mp hy with hyz | hy'
            · rw [hyz, hlz x hx' (by rw [he, hyz])]
            · exact hl x hx' y hy' he
    · rintro ⟨hm, hl, rfl⟩
      rw [addPort_eq_ok.mpr ⟨hm z List.mem_cons_self, rfl⟩]
      refine ih.mpr ⟨fun x hx v hv => ?_, fun x hx y hy => hl x (.tail _ hx) y (.tail _ hy), rfl⟩
      rw [Finmap.lookup_insert'] at hv
      split at hv
      · rename_i he
        rw [← Option.some.inj hv]
        exact hl z List.mem_cons_self x (.tail _ hx) he.symm
      · exact hm x (.tail _ hx) v hv

/-- Where no two have the same key, the order in which they were put does not show. -/
theorem lookup_foldl_insert (h : Unambiguous l) :
    (l.foldl (fun m x => m.insert (portConfigToString x) x) m).lookup k =
      (l.find? fun x => portConfigToString x = k).or (m.lookup k) := by
  induction l generalizing m with
  | nil => rfl
  | cons z l ih =>
    rw [List.foldl_cons, ih fun x hx y hy => h x (.tail _ hx) y (.tail _ hy), Finmap.lookup_insert', List.find?_cons]
    by_cases hk : k = portConfigToString z
    · subst hk
      simp only [if_true, decide_true]
      cases hf : l.find? fun x => portConfigToString x = portConfigToString z with
      | none => rfl
      | some y =>
        have hy := List.find?_some hf
        rw [h y (.tail _ (List.mem_of_find?_eq_some hf)) z List.mem_cons_self (by simpa using hy)]
        rfl
    · rw [if_neg hk, decide_eq_false fun h => hk h.symm]

theorem lookup_foldl_keepPort : (l.foldl keepPort m).lookup k =
    (m.lookup k).or (l.find? fun x => portConfigToString x = k) := by
  induction l generalizing m with
  | nil => simp
  | cons z l ih =>
    rw [List.foldl_cons, ih, List.find?_cons, keepPort]
    by_cases hk : portConfigToString z = k
    · subst hk
      simp only [decide_true]
      split
      · rename_i hm
        obtain ⟨v, hv⟩ := Finmap.mem_iff.mp hm
        rw [hv]
        rfl
      · rename_i hm
        rw [Finmap.lookup_insert, Finmap.lookup_eq_none.mpr hm]
        rfl
    · rw [decide_eq_false hk]
      split
      · rfl
      · rw [Finmap.lookup_insert_of_ne m fun h => hk h.symm]

theorem find?_key (h : Unambiguous l) :
    (l.find? fun y => portConfigToString y = k) = some x ↔ x ∈ l ∧ portConfigToString x = k := by
  constructor
  · intro hf
    exact ⟨List.mem_of_find?_eq_some hf, by simpa using List.find?_some hf⟩
  · rintro ⟨hx, rfl⟩
    cases hf : l.find? fun y => portConfigToString y = portConfigToString x with
    | none => simpa using List.find?_eq_none.mp hf x hx
    | some y => rw [h y (List.mem_of_find?_eq_some hf) x hx (by simpa using List.find?_some hf)]

end

section

variable {rt : Runtime} {publishAdd : Option (List String)} {toRemove : List String} {portConfig out : List PortConfig}
  {x : PortConfig}

/-- Where no two of the added ports have the same key, those are left that are the first of their
key and that are not removed. -/
theorem updatePorts_of_unambiguous (toRemove : List String) (portConfig : List PortConfig)
    (h : Unambiguous (added rt.parseIP publishAdd)) :
    ∃ out, updatePorts rt publishAdd toRemove portConfig = .ok out ∧ ∀ x, x ∈ out ↔
      (added rt.parseIP publishAdd ++ portConfig).find? (fun w => portConfigToString w = portConfigToString x) = some x ∧
        ¬ ∃ r ∈ toRemove, equalPort r x := by
  have hnew : Unambiguous (newConfigs rt publishAdd) := fun x hx y hy =>
    h x (mem_newConfigs.mp hx) y (mem_newConfigs.mp hy)
  have hok := (foldlM_addPort_eq_ok (m := ∅)).mpr ⟨(fun x _ v hv => by cases hv), hnew, rfl⟩
  have hfind : ∀ k, (newConfigs rt publishAdd).find? (fun w => portConfigToString w = k) =
      (added rt.parseIP publishAdd).find? fun w => portConfigToString w = k := by
    intro k
    ext x
    rw [find?_key h, find?_key hnew, mem_newConfigs]
  have hset : ∀ k, (portConfig.foldl keepPort
      ((newConfigs rt publishAdd).foldl (fun m x => m.insert (portConfigToString x) x) ∅)).lookup k =
      (added rt.parseIP publishAdd ++ portConfig).find? fun w => portConfigToString w = k := by
    intro k
    rw [lookup_foldl_keepPort, lookup_foldl_insert hnew, hfind, List.find?_append]
    cases (added rt.parseIP publishAdd).find? fun w => portConfigToString w = k <;> rfl
  refine ⟨_, by rw [updatePorts, hok]; rfl, fun x => ?_⟩
  simp only [(rt.sorts.perm _ _).mem_iff, List.mem_filter, List.mem_map, decide_eq_true_eq, List.any_eq_true]
  refine and_congr_left fun _ => ?_
  constructor
  · rintro ⟨⟨k, v⟩, hv, rfl⟩
    rw [rt.portSet.mem_list, hset] at hv
    have hk : portConfigToString v = k := by simpa using List.find?_some hv
    rw [hk]
    exact hv
  · intro hx
    exact ⟨⟨portConfigToString x, x⟩, rt.portSet.mem_list.mpr (by rw [hset]; exact hx), rfl⟩

theorem unambiguous_of_updatePorts (h : updatePorts rt publishAdd toRemove portConfig = .ok out) :
    Unambiguous (added rt.parseIP publishAdd) := by
  rw [updatePorts] at h
  cases hf : (newConfigs rt publishAdd).foldlM addPort ∅ with
  | error e =>
    rw [hf] at h
    cases h
  | ok m =>
    have hnew := (foldlM_addPort_eq_ok.mp hf).2.1
    exact fun x hx y hy => hnew x (mem_newConfigs.mpr hx) y (mem_newConfigs.mpr hy)

/-- A port that the code removes is listed. -/
theorem listed_of_equalPort {r : String} (hr : r ∈ toRemove) (h : equalPort r x) : Listed toRemove x := by
  obtain ⟨hproto, hport⟩ := decide_eq_true_eq.mp h
  exact ⟨r, hr, hport, by rw [hproto]⟩

/-- Two ports of a service with the same published port are one, if each pair occurs at most once. -/
theorem eq_of_samePublished (hport : portConfig.Pairwise fun x y => x.publishedPort ≠ 0 → ¬ SamePublished x y)
    {y : PortConfig} (hx : x ∈ portConfig) (hy : y ∈ portConfig) (h0 : x.publishedPort ≠ 0) (h : SamePublished x y) :
    x = y := by
  by_contra hne
  have : Std.Symm fun x y : PortConfig => x.publishedPort ≠ 0 → ¬ SamePublished x y :=
    ⟨fun x y hxy hy0 hyx => hxy (hyx.1 ▸ hy0) ⟨hyx.1.symm, hyx.2.symm⟩⟩
  exact hport.forall hx hy hne h0 h

end

/-- Maps are visited in the order of their keys, and an address is four numbers. -/
def Runtime.byKey : Runtime where
  parseIP s := (split s '.').length = 4 ∧ ∀ n ∈ split s '.', (parseUint16 n).2 ∧ (parseUint16 n).1 < 256
  ports := Range.sorted
  portSet := Range.sorted
  sort := insertionSort
  sorts := sorts_insertionSort

end Moby.Swarm
