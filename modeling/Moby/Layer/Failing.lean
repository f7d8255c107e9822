import Moby.Layer.Presence

/-!
# Calls that run alone while one step fails

`FailsOnly`: of the calls of the environment, those of one step fail.
`Tries`: a program that takes some steps, fails if one of them is the one that
fails, and changes the world only as a frame says. `StoreState` is what is
assumed of the state in which such a call starts, and holds in every reachable
state.
-/

namespace Moby.Layer

open Moby.Framework Moby.Digest

/-- What holds of the layer store in every state, where the calls in flight
have the layers `K` in hand: the reference counts are those of the holders,
and the random IDs whose layers are in the driver have been drawn. -/
structure StoreState (w : World) (K : Multiset RoLayer) : Prop where
  refs : RefInv w.ls K
  drawn : ∀ x ∈ w.driver, ∀ id, IsRandomID id → Names id x → id ∈ w.issued

/-- The calls of the environment that fail are those of `f`. -/
def FailsOnly (env : Nat → Op → Answer) (f : Option Op) : Prop :=
  ∀ n op, (env n op).ok = false ↔ f = some op

theorem ask_triple {op : Op} {onOk onFail : Answer → World × Call → World × Call} {w : World} {c : Call}
    {f : Option Op} (hf : FailsOnly w.env f) {Q : Except Err Answer → World × Call → Prop}
    (ok : ∀ a, f ≠ some op → Q (.ok a) (onOk a (w.tick, c)))
    (fail : f = some op → Q (.error (.failed op)) (onFail (w.answer op) (w.tick, c))) :
    Triple (ask op onOk onFail).run (w, c) Q := by
  refine Triple.step fun r s' h => ?_
  have hop : (w.answer op).ok = false ↔ f = some op := hf w.clock op
  simp only at h
  split at h
  · rename_i hok
    cases h
    exact ok _ fun e => by rw [hop.mpr e] at hok; cases hok
  · rename_i hok
    cases h
    exact fail (hop.mp (by simpa using hok))

theorem FailsOnly.ok {env : Nat → Op → Answer} {f : Option Op} (h : FailsOnly env f) {op : Op}
    (hop : f ≠ some op) (n : Nat) : (env n op).ok = true := by
  cases hn : (env n op).ok with
  | true => rfl
  | false => exact absurd ((h n op).mp hn) hop

/-! ## Steps in a frame -/

/-- What a program may change of the world. -/
class WorldFrame (R : World → World → Prop) : Prop where
  refl : ∀ w, R w w
  trans : ∀ w w₁ w₂, R w w₁ → R w₁ w₂ → R w w₂
  env : ∀ w w₁, R w w₁ → w₁.env = w.env
  tick : ∀ w, R w w.tick

/-- `x` takes the steps `ops`, and fails if one of them does; it changes the
world as `R` says. -/
def Tries {α : Type} (R : World → World → Prop) (f : Option Op) (ops : List Op) (x : LS α)
    (Q : α → Prop) : Prop :=
  ∀ w c, FailsOnly w.env f → Triple x.run (w, c) fun r s => R w s.1 ∧ match r with
    | .ok a => Q a ∧ ∀ o ∈ ops, f ≠ some o
    | .error e => ∃ o ∈ ops, f = some o ∧ e = .failed o

namespace Tries

variable {α β : Type} {R : World → World → Prop} {f : Option Op} {ops ops₁ ops₂ : List Op}

theorem pure [WorldFrame R] {a : α} {Q : α → Prop} (h : Q a) :
    Tries R f [] (Pure.pure a) Q := fun w _ _ => Triple.ret ⟨WorldFrame.refl w, h, nofun⟩

theorem bind [WorldFrame R] {x : LS α} {g : α → LS β} {P : α → Prop} {Q : β → Prop}
    (hx : Tries R f ops₁ x P) (hg : ∀ a, P a → Tries R f ops₂ (g a) Q) :
    Tries R f (ops₁ ++ ops₂) (x >>= g) Q := by
  intro w c hf
  refine Triple.bindE ((hx w c hf).mono fun r s hr => ?_)
  obtain ⟨ht, hr⟩ := hr
  cases r with
  | error e =>
    obtain ⟨o, ho, he⟩ := hr
    exact ⟨ht, o, List.mem_append_left _ ho, he⟩
  | ok a =>
    have henv := WorldFrame.env _ _ ht
    refine (hg a hr.1 s.1 s.2 (henv ▸ hf)).mono fun r s' hr' =>
      ⟨WorldFrame.trans _ _ _ ht hr'.1, ?_⟩
    cases r with
    | error e =>
      obtain ⟨o, ho, he⟩ := hr'.2
      exact ⟨o, List.mem_append_right _ ho, he⟩
    | ok b =>
      refine ⟨hr'.2.1, fun o ho => ?_⟩
      rcases List.mem_append.mp ho with ho | ho
      · exact hr.2 o ho
      · exact hr'.2.2 o ho

/-- A call of the environment, whose effects are within the frame. -/
theorem ask {op : Op} {onOk onFail : Answer → World × Call → World × Call}
    (ok : ∀ w c a, R w (onOk a (w.tick, c)).1) (fail : ∀ w c a, R w (onFail a (w.tick, c)).1) :
    Tries R f [op] (ask op onOk onFail) fun _ => True := fun w c hf =>
  ask_triple hf (fun a h => ⟨ok w c a, trivial, by simpa using h⟩)
    fun h => ⟨fail w c _, op, by simp, h, rfl⟩

theorem noEffect [WorldFrame R] {op : Op} :
    Tries R f [op] (Layer.ask op Layer.noEffect Layer.noEffect) fun _ => True :=
  ask (fun w _ _ => WorldFrame.tick w) fun w _ _ => WorldFrame.tick w

end Tries

/-- The worlds differ in the clock and the IDs drawn only. -/
structure Same (w w' : World) : Prop where
  env : w'.env = w.env
  ls : w'.ls = w.ls
  driver : w'.driver = w.driver
  store : w'.store = w.store

theorem Same.trans {w w₁ w₂ : World} (h₁ : Same w w₁) (h₂ : Same w₁ w₂) : Same w w₂ :=
  ⟨h₂.env.trans h₁.env, h₂.ls.trans h₁.ls, h₂.driver.trans h₁.driver, h₂.store.trans h₁.store⟩

/-- Both drivers get the same layer. -/
theorem Same.insertDriver {w w' : World} {id : String} (h : Same w w') :
    Same { w with driver := insert id w.driver } { w' with driver := insert id w'.driver } :=
  ⟨h.env, h.ls, by simp only [h.driver], h.store⟩

section

variable {w : World} {c : Call}

theorem generateRandomID_triple : Triple generateRandomID.run (w, c) fun r s =>
    ∃ id, r = .ok id ∧ IsRandomID id ∧ id ∉ w.issued ∧ Same w s.1 ∧ s.1.clock = w.clock + 1 := by
  refine Triple.step fun r s h => ?_
  simp only at h
  split at h
  · rename_i hid
    cases h
    exact ⟨_, rfl, hid.1, hid.2, ⟨rfl, rfl, rfl, rfl⟩, rfl⟩
  · cases h

end

/-! ## The release of the parent -/

section

variable {w : World} {p l : RoLayer} {K : Multiset RoLayer}

/-- A layer in hand that something else holds is let go. -/
theorem releaseLayer_of_held (h : RefInv w.ls (p ::ₘ K)) (hc : 1 < w.ls.referenceCount p) :
    (w.releaseLayer p).2 = w.unretain p := by
  have e : ∀ {depth removed}, (removed.length = 0 → depth = 0) →
      w.releaseOne p depth removed = (.inl (.ok removed), w.unretain p) := fun hd =>
    ((World.releaseOne_cases h hd).resolve_right fun hr => by omega).2
  unfold World.releaseLayer
  cases p <;> rw [World.releaseLoop, e fun _ => rfl]

/-- A layer in hand that nothing else holds is removed from the map, if the
removals of its data succeed. -/
theorem releaseLayer_of_unheld (h : RefInv w.ls (p ::ₘ K)) (hc : w.ls.referenceCount p = 1)
    (hr : ∀ n, (w.env n .driverRemove).ok = true) (hs : ∀ n, (w.env n .storeRemove).ok = true) :
    p.chainID ∉ (w.releaseLayer p).2.ls.layerMap := by
  have ok : ∃ m w', (w.unretain p).deleteLayer p = (.ok m, w') := by
    rcases World.deleteLayer_cases (w.unretain p) p with ⟨hf, -⟩ | ⟨⟨hf, -⟩, -⟩ | ⟨hf, -⟩ | e
    · rw [show ((w.unretain p).answer .driverRemove).ok = true from hr _] at hf; cases hf
    · rw [show ((w.unretain p).answer .driverRemove).ok = true from hr _] at hf; cases hf
    · rw [show ((w.unretain p).tick.answer .storeRemove).ok = true from hs _] at hf; cases hf
    · exact ⟨_, _, e⟩
  obtain ⟨m, w', hdel⟩ := ok
  have hinv := World.deleteLayer_refInv h hc
  have hone := ((@World.releaseOne_cases w p K h 0 [] fun _ => rfl).resolve_left fun hr => by omega).2
  simp only [hdel] at hinv hone
  have gone : p.chainID ∉ w'.ls.layerMap.erase p.chainID := Finmap.notMem_erase_self
  unfold World.releaseLayer
  cases p with
  | base a i => simp only [World.releaseLoop, hone]; exact gone
  | child a i q =>
    simp only [World.releaseLoop, hone]
    -- the rounds that follow only take layers from the map
    refine (World.releaseLoop_rule (J := fun w => (RoLayer.child a i q).chainID ∉ w.ls.layerMap)
      (fun _ _ _ _ _ hJ => hJ) (fun w₁ l₁ _ _ _ hJ => ?_) (by simp) hinv gone).2
    have hls := World.deleteLayer_ls (w₁.unretain l₁) l₁
    split <;> rename_i e <;> rw [e] at hls <;> simp only at hls ⊢ <;> rw [hls]
    · exact hJ
    · exact fun hmem => hJ (Finmap.mem_erase.mp hmem).2

theorem referenceCount_retain (s : LayerStore) (p : RoLayer) :
    (s.retain p).referenceCount p = s.referenceCount p + 1 := by
  simp [LayerStore.retain, LayerStore.modify, LayerStore.referenceCount]

/-- A reference to a layer counts for it and for no other. -/
theorem referenceCount_reference {s : LayerStore} (h : RefInv s K) (hp : s.Live p) (hl : s.Live l) :
    ((s.retain l).getReference l).2.referenceCount p =
      s.referenceCount p + if l = p then 1 else 0 := by
  have hptr : p.ptr = l.ptr ↔ l = p := ⟨fun e => h.ptr_inj _ _ hl hp e.symm, fun e => by rw [e]⟩
  simp only [LayerStore.getReference, LayerStore.retain, LayerStore.modify, LayerStore.referenceCount,
    Function.update_apply, hptr]
  split
  · rename_i e; subst e; simp
  · simp

end

/-! ## Parents -/

/-- The parent that a registration takes: none, or a layer that is there. -/
def parentOf (s : LayerStore) (parent : ChainID) : Option (Option RoLayer) :=
  if parent = "" then some none else (s.layerMap.lookup parent).map some

theorem parentOf_some {s : LayerStore} {parent : ChainID} {p : RoLayer} (h : parentOf s parent = some (some p)) :
    s.layerMap.lookup parent = some p := by
  unfold parentOf at h
  split at h
  · cases h
  · obtain ⟨q, hq, e⟩ := Option.map_eq_some_iff.mp h
    rw [hq]; exact e

/-- The parent taken, in the map. -/
def retained (w : World) : Option RoLayer → World
  | none => w
  | some l => { w with ls := w.ls.retain l }

/-- The state after a call on its parent: with the parent released, if it
failed. -/
def afterRelease {α : Type} (r : Except Err α) (p : Option RoLayer) (w : World) : World :=
  match r, p with
  | .error _, some l => (w.releaseLayer l).2
  | _, _ => w

/-- A call that takes its parent, goes on with it, and releases it if it fails. -/
theorem onParent_triple {α : Type} {w : World} {c : Call} {parent : ChainID} {x : RoLayer → LS α} {y : LS α}
    {Q : Option RoLayer → Except Err α → World → Prop} (hnone : Triple y.run (w, c) fun r s => Q none r s.1)
    (hsome : ∀ p c', w.ls.layerMap.lookup parent = some p →
      Triple (x p).run (retained w (some p), c') fun r s => Q (some p) r s.1) :
    Triple (if parent ≠ "" then getParent parent >>= fun p => Prog.onError (releaseParentOnError p) (x p) else y).run (w, c)
      fun r s => parentOf w.ls parent = none ∧ r = .error .layerDoesNotExist ∧ s.1 = w ∨
        ∃ p w₁, parentOf w.ls parent = some p ∧ Q p r w₁ ∧ s.1 = afterRelease r p w₁ := by
  unfold parentOf
  by_cases hp : parent = ""
  · simp only [hp, ne_eq, not_true_eq_false, if_false, if_true]
    refine hnone.mono fun r s h => .inr ⟨none, s.1, rfl, h, ?_⟩
    cases r <;> rfl
  · simp only [hp, ne_eq, not_false_eq_true, if_true, if_false]
    refine Triple.bindE (Triple.step fun r s h => ?_)
    cases hl : w.ls.layerMap.lookup parent with
    | none =>
      simp only [LayerStore.getWithoutLock, hl] at h
      cases h
      exact .inl ⟨rfl, rfl, rfl⟩
    | some p =>
      simp only [LayerStore.getWithoutLock, hl] at h
      cases h
      refine Triple.onError ((hsome p _ hl).mono fun r s h => ?_)
      cases r with
      | ok h' => exact .inr ⟨some p, s.1, rfl, h, rfl⟩
      | error e =>
        refine Triple.bind (Triple.step fun _ s' h' => ?_)
        cases h'
        exact Triple.ret (.inr ⟨some p, s.1, rfl, h, rfl⟩)

/-! ## Samples -/

/-- An environment in which only the calls of `f` fail. -/
def failing (f : Op) (n : Nat) (op : Op) : Answer :=
  { sampleEnv n op with ok := !decide (op = f) }

theorem failsOnly_failing (f : Op) : FailsOnly (failing f) (some f) := by
  intro n op
  rw [failing, Bool.not_eq_false', decide_eq_true_iff]
  exact ⟨fun e => by rw [e], fun e => (Option.some.inj e).symm⟩

theorem sampleEnv_ok (n : Nat) (op : Op) : (sampleEnv n op).ok = true := by
  cases op <;> simp only [sampleEnv]
  split <;> rfl

theorem storeState_empty (env : Nat → Op → Answer) : StoreState { env } 0 :=
  ⟨RefInv.empty, fun _ h => absurd h (Finset.notMem_empty _)⟩

end Moby.Layer
