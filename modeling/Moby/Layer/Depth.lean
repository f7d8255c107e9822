import Moby.Layer.Migration
import Moby.Layer.Register
import Moby.Layer.Create

/-!
# How deep layers get

`Register` lets no layer be deeper than `maxLayerDepth` (`reaches_depth`).
`RegisterByGraphID` does not look at the depth of its parent: with it, layers
are that deep only in runs in which it finds no parent of `maxLayerDepth`
layers (`migrated_depth`), and deeper ones in others (`migrated_too_deep`).
-/

namespace Moby.Layer

open Moby.Framework Moby.Digest

/-- No layer of the map is too deep. -/
def DepthInv (w : World) : Prop := ∀ l, w.ls.Live l → l.depth ≤ maxLayerDepth

section

variable {H : Hash} {ff : Prop} {w w' : World} {c c' : Call} {F : Multiset Call}

theorem DepthInv.of_eq (h : DepthInv w) (e : w'.ls.layerMap = w.ls.layerMap) : DepthInv w' := fun l hl =>
  h l (by rw [LayerStore.Live, ← e]; exact hl)

/-- A new layer on a parent that is not too deep. -/
theorem DepthInv.addLayer {i : LayerInfo} (h : DepthInv w)
    (e : w'.ls.layerMap = w.ls.layerMap.insert i.chainID (.make w.ls.nextPtr i c.parent))
    (hp : ∀ p, c.parent = some p → p.depth < maxLayerDepth) : DepthInv w' := by
  intro l hl
  rw [LayerStore.Live, e, Finmap.lookup_insert'] at hl
  split at hl
  · obtain rfl := Option.some.inj hl
    cases hc : c.parent with
    | none => show 1 ≤ maxLayerDepth; decide
    | some p => exact hp p hc
  · exact h l hl

theorem DepthInv.releaseLayer {l : RoLayer} {K : Multiset RoLayer} (hr : RefInv w.ls (l ::ₘ K)) (h : DepthInv w) :
    DepthInv (w.releaseLayer l).2 := by
  intro l' hl'
  have hmem := Multiset.mem_of_le (World.releaseLayer_le hr).1 (mem_values_of_live hl')
  obtain ⟨k, hk⟩ := Finmap.mem_values.mp hmem
  exact h l' (hr.live_of_lookup hk)

theorem DepthInv.action (ha : Action H ff (w, c) (w', c')) (hr : RefInv w.ls (inHand (c ::ₘ F)))
    (h : DepthInv w) : DepthInv w' := by
  rw [inHand_cons] at hr
  cases ha with
  | skip | tick | generateRandomID | driverCreate | driverCreateMount | startTransaction | writeTx | cancel
  | driverRemoveCreated | getParent | reference | lockMount | unlockMount | references | writeMount | mkdirMount
  | publishMount | driverRemoveMount | removeMount | deleteMount => exact h.of_eq rfl
  | releaseParent hc =>
    rw [hc, holds, Multiset.singleton_add] at hr
    exact h.releaseLayer hr
  | release hl hr' =>
    exact DepthInv.releaseLayer (w := { w with ls := _ }) (hr.deleteReference (hr.live_of_lookup hl) hr') h
  | publish _ _ _ depth => exact h.addLayer rfl depth

theorem DepthInv.migrationAction (ha : MigrationAction H (fun p => p.depth < maxLayerDepth) (w, c) (w', c'))
    (hr : RefInv w.ls (inHand (c ::ₘ F))) (h : DepthInv w) : DepthInv w' := by
  cases ha with
  | action ha => exact h.action ha hr
  | transaction hls => exact h.of_eq (by rw [hls])
  | publish hD _ hls => exact h.addLayer (by rw [hls]; rfl) hD

end

section

variable {H : Hash} {env : Nat → Op → Answer} {x : Config World Call}

/-- In the runs of a layer store without migrated layers, no layer is too
deep. -/
theorem reaches_depth (hx : Reaches H env x) : DepthInv x.1 :=
  reachable_inv_of (A := Assumes False) (R := Action H False) (D := Call.At none none)
    (K := fun w F => RefInv w.ls (inHand F) ∧ LockInv w F) (I := fun w _ => DepthInv w) Request.follows
    (fun _ hx => reaches_inv hx) (fun _ _ _ _ h => h.elim) (fun _ h => by cases h) (fun _ _ h => h)
    (fun _ _ _ _ h => h) (fun _ _ _ _ _ hK _ ha h => h.action ha hK.1) hx

/-- In every run in which the parents that `RegisterByGraphID` finds have less
than `maxLayerDepth` layers, no layer of the map has more than
`maxLayerDepth`. -/
theorem migrated_depth (hx : MigratesIf H env (fun p => p.depth < maxLayerDepth) x) (k : ChainID) (l : RoLayer)
    (hl : x.1.ls.layerMap.lookup k = some l) : l.depth ≤ maxLayerDepth := by
  have h : DepthInv x.1 :=
    reachable_inv_of (A := Assumes False) (R := MigrationAction H fun p => p.depth < maxLayerDepth)
      (D := Call.At none none) (K := fun w F => RefInv w.ls (inHand F) ∧ LockInv w F)
      (I := fun w _ => DepthInv w) (Migration.follows fun p hp => of_decide_eq_true hp)
      (fun _ hx => migrates_inv hx) (fun _ _ _ _ h => h.elim) (fun _ h => by cases h) (fun _ _ h => h)
      (fun _ _ _ _ h => h) (fun _ _ _ _ _ hK _ ha h => h.migrationAction ha hK.1) hx
  exact h l ((migrates_inv hx).1.live_of_lookup hl)

end

/-- A migrated layer on another one, in a run that meets the condition. -/
theorem migrated_depth_of_child : ∃ x k l,
    MigratesIf sampleHash sampleEnv (fun p => p.depth < maxLayerDepth) x ∧
    x.1.ls.layerMap.lookup k = some l ∧ l.depth = 2 ∧ l.depth ≤ maxLayerDepth := by
  have hrun : ((runAll (Migration.progIf sampleHash fun p => p.depth < maxLayerDepth) {}
      [.registerByGraphID "base" "" sampleID 0, .registerByGraphID "child" sampleID sampleID 0]
      { env := sampleEnv }).any fun w =>
      (w.ls.layerMap.lookup (createChainIDFromParent sampleHash sampleID [sampleID])).any fun l =>
        l.depth = 2) = true := by decide +kernel
  simp only [Option.any_eq_true, decide_eq_true_eq] at hrun
  obtain ⟨w, hw, l, hl, hd⟩ := hrun
  have hx : MigratesIf sampleHash sampleEnv (fun p => p.depth < maxLayerDepth) (w, 0) :=
    Reachable.runAll .refl hw
  exact ⟨(w, 0), _, l, hx, hl, hd, migrated_depth hx _ _ hl⟩

/-! ## A chain of migrated layers -/

section

variable {H : Hash} {w : World} {c : Call} {i : LayerInfo} {parent : Option RoLayer}

theorem Tries.copyLayer {f : Option Op} {tx : String} :
    Tries (TmpOnly tx) f (.tarSplitWriter :: .openTarData :: .copyTarData :: storeOps parent i.descriptor)
      (copyLayer i parent tx) fun _ => True :=
  writeTx.bind fun _ _ => noEffect.bind fun _ _ => noEffect.bind fun _ _ => storeLayer

theorem commit_ok {tx : String} {id : ChainID} {d : Dir} (hd : w.store.tmp.lookup tx = some d)
    (hn : id ∉ w.store.layers) (hok : (w.answer .commit).ok = true) :
    w.commit tx id = (true, { w.tick with store := { w.store with
      tmp := w.store.tmp.erase tx, layers := w.store.layers.insert id d } }) := by
  simp only [World.commit, hd, hn, if_false, World.request, hok, if_true]
  rfl

/-- What the critical section of `RegisterByGraphID` does with a new layer if
nothing fails. -/
theorem registerByGraphIDLocked_ok (hf : FailsOnly w.env none) (hnew : i.chainID ∉ w.ls.layerMap)
    (hs : i.chainID ∉ w.store.layers) :
    Triple (registerByGraphIDLocked i parent).run (w, c) fun r s => ∃ h d, r = .ok h ∧ s.1.env = w.env ∧
      s.1.ls.layerMap = w.ls.layerMap.insert i.chainID (.make w.ls.nextPtr i parent) ∧
      s.1.store.layers = w.store.layers.insert i.chainID d ∧ s.1.store.tmp = w.store.tmp := by
  refine Triple.bindE (Triple.step fun r s₁ h₁ => ?_)
  simp only [LayerStore.getWithoutLock, Finmap.lookup_eq_none.mpr hnew] at h₁
  cases h₁
  refine Triple.bindE ((startTransaction_triple hf).mono fun r s₂ h₂ => ?_)
  cases r with
  | error e => cases h₂.1
  | ok tx =>
    obtain ⟨-, htx, h₂⟩ := h₂
    refine Triple.onError (Triple.bindE ((Tries.copyLayer s₂.1 s₂.2 (h₂.env ▸ hf)).mono fun r s₃ h₃ => ?_))
    obtain ⟨h₃, hr⟩ := h₃
    cases r with
    | error e =>
      obtain ⟨o, -, ho, -⟩ := hr
      cases ho
    | ok _ =>
      refine Triple.step fun r s₄ h₄ => ?_
      have hstore := h₂.store
      simp only at hstore
      have hmem : tx ∈ s₃.1.store.tmp := h₃.mem (by rw [hstore]; exact Finmap.mem_insert.mpr (.inl rfl))
      obtain ⟨d, hd⟩ := Option.isSome_iff_exists.mp (Finmap.lookup_isSome.mpr hmem)
      have hlayers : s₃.1.store.layers = w.store.layers := by rw [h₃.layers, hstore]
      have henv : s₃.1.env = w.env := h₃.env.trans h₂.env
      have hls : s₃.1.ls = w.ls := h₃.ls.trans h₂.ls
      have hok : (s₃.1.answer .commit).ok = true := by
        rw [World.answer, henv]
        exact hf.ok (by rintro ⟨⟩) _
      simp only [commit_ok hd (hlayers ▸ hs) hok] at h₄
      cases h₄
      refine ⟨_, d, rfl, henv, ?_, by rw [← hlayers], ?_⟩
      · show s₃.1.ls.layerMap.insert _ (.make s₃.1.ls.nextPtr i parent) = _
        rw [hls]
      · show s₃.1.store.tmp.erase tx = _
        rw [h₃.tmp, hstore, Finmap.erase_insert, Finmap.erase_of_notMem htx]

theorem writeTx_ends {op : Op} {tx : String} {f : FileName} {x : File} {s : World × Call} :
    Ends (writeTx op tx f x).run s := Ends.bindE ask_ends fun _ _ _ => Ends.ret

theorem storeLayer_ends {tx : String} {s : World × Call} : Ends (storeLayer tx i parent).run s :=
  storeLayer_rule (Q := fun x => ∀ s, Ends x.run s) (fun _ _ _ _ => writeTx_ends) (fun _ => Ends.ret)
    (fun _ _ hx hf s => Ends.bindE (hx s) fun u s' _ => hf u s') i parent s

theorem registerByGraphIDIn_ends {tx : String} {s : World × Call} :
    Ends (registerByGraphIDIn i parent tx).run s := by
  refine Ends.bindE ?_ fun _ s _ => Ends.step ?_
  · refine Ends.bindE writeTx_ends fun _ _ _ => Ends.bindE ask_ends fun _ _ _ => ?_
    exact Ends.bindE ask_ends fun _ _ _ => storeLayer_ends
  · simp only
    split <;> exact ⟨_, _, rfl⟩

/-- With no transaction open, the critical section of `RegisterByGraphID`
comes to its end. -/
theorem registerByGraphIDLocked_ends (parent : Option RoLayer) (c : Call) (htmp : w.store.tmp = ∅)
    (hnew : i.chainID ∉ w.ls.layerMap) :
    Ends (registerByGraphIDLocked i parent).run (w, c) := by
  have hfind : (findLayer i.chainID).run.run (w, c) = some (.ok (), w, c) := by
    rw [findLayer, ExceptT.run_mk, Prog.run_step, LayerStore.getWithoutLock, Finmap.lookup_eq_none.mpr hnew]
  refine Ends.bindE ⟨_, _, hfind⟩ fun _ s hs => ?_
  cases hfind.symm.trans hs
  refine Ends.bindE (Ends.step ?_) fun tx s _ => Ends.onError registerByGraphIDIn_ends fun _ => ?_
  · simp only [htmp, Finmap.notMem_empty, if_false]
    split <;> exact ⟨_, _, rfl⟩
  · exact Ends.bind ask_ends fun _ _ _ => Ends.ret

/-- What a registration of a new layer leaves. -/
structure Registered (i : LayerInfo) (parent : Option RoLayer) (w w' : World) : Prop where
  env : w'.env = w.env
  layerMap : ∃ a, w'.ls.layerMap = w.ls.layerMap.insert i.chainID (.make a i parent)
  layers : ∃ d, w'.store.layers = w.store.layers.insert i.chainID d
  tmp : w'.store.tmp = w.store.tmp

theorem run_registerByGraphIDLocked (parent : Option RoLayer) (c : Call) (hf : FailsOnly w.env none)
    (htmp : w.store.tmp = ∅) (hnew : i.chainID ∉ w.ls.layerMap) (hs : i.chainID ∉ w.store.layers) :
    ∃ h w' c', (registerByGraphIDLocked i parent).run.atomic.run (w, c) = some (.ok h, w', c') ∧
      Registered i parent w w' := by
  obtain ⟨r, s, hrun⟩ := Ends.atomic (registerByGraphIDLocked_ends parent c htmp hnew)
  obtain ⟨h, d, rfl, henv, hmap, hlayers, htmp'⟩ := (registerByGraphIDLocked_ok hf hnew hs).atomic _ _ hrun
  exact ⟨h, s.1, s.2, hrun, henv, ⟨_, hmap⟩, ⟨d, hlayers⟩, htmp'⟩

/-- A call of `RegisterByGraphID` in which nothing fails registers a new layer
on its parent, however deep that is. -/
theorem run_registerByGraphID (graphID : String) {p : ChainID} (diffID : DiffID) (size : Int64)
    (hi : i = ⟨createChainIDFromParent H p [diffID], diffID, graphID, size, {}⟩)
    (hf : FailsOnly w.env none) (htmp : w.store.tmp = ∅) (hp : parentOf w.ls p = some parent)
    (hnew : i.chainID ∉ w.ls.layerMap) (hs : i.chainID ∉ w.store.layers) :
    ∃ w' c', ((Migration.registerByGraphID graphID p diffID size).prog H).run (w, {}) = some ((), w', c') ∧
      Registered i parent w w' := by
  subst hi
  suffices h : ∃ h w' c', (registerByGraphIDOrUndo H graphID p diffID size).run.run (w, {}) =
      some (.ok h, w', c') ∧ Registered _ parent w w' by
    obtain ⟨h, w', c', hrun, hr⟩ := h
    refine ⟨w', c', ?_, hr⟩
    rw [Migration.prog, registerByGraphID, Prog.run_bind, orExisting, Prog.run_bind, hrun]
    rfl
  unfold registerByGraphIDOrUndo
  unfold parentOf at hp
  by_cases hne : p = ""
  · rw [if_pos hne] at hp
    cases hp
    simp only [hne, ne_eq, not_true_eq_false, if_false]
    exact run_registerByGraphIDLocked none {} hf htmp (hne ▸ hnew) (hne ▸ hs)
  · rw [if_neg hne] at hp
    obtain ⟨l, hl, rfl⟩ := Option.map_eq_some_iff.mp hp
    simp only [hne, ne_eq, not_false_eq_true, if_true]
    obtain ⟨h, w', c', hrun, hr⟩ := run_registerByGraphIDLocked (w := { w with ls := w.ls.retain l })
      (some l) { parent := some l } hf htmp hnew hs
    refine ⟨h, w', c', ?_, hr.env, hr.layerMap, hr.layers, hr.tmp⟩
    have hget := run_getParent p w {}
    rw [hl] at hget
    exact (Prog.run_bindE_ok hget).trans (Prog.run_onError_ok hrun)

end

/-- A state with a chain of `n` layers and no others, the ones with the chain
IDs `id 1`, …, `id n`. -/
structure Chain (H : Hash) (env : Nat → Op → Answer) (id : Nat → ChainID) (n : Nat) (w : World) : Prop where
  reached : Migrates H env (w, 0)
  env : w.env = env
  top : ∃ p, parentOf w.ls (id n) = some p ∧ p.elim 0 RoLayer.depth = n
  layerMap : ∀ k ∈ w.ls.layerMap, ∃ m ≤ n, k = id m
  layers : ∀ k ∈ w.store.layers, ∃ m ≤ n, k = id m
  tmp : w.store.tmp = ∅

section

variable {H : Hash} {env : Nat → Op → Answer} {id : Nat → ChainID} {n : Nat} {w : World}

theorem Chain.empty (h : id 0 = "") : Chain H env id 0 { env } where
  reached := .refl
  env := rfl
  top := ⟨none, by rw [h]; rfl, rfl⟩
  layerMap k hk := absurd hk Finmap.notMem_empty
  layers k hk := absurd hk Finmap.notMem_empty
  tmp := rfl

/-- One more layer on the chain, if its chain ID is a new one. -/
theorem Chain.succ (hw : Chain H env id n w) (hf : FailsOnly env none) {d : DiffID}
    (hid : id (n + 1) = createChainIDFromParent H (id n) [d]) (hnew : ∀ m ≤ n, id m ≠ id (n + 1))
    (hne : id (n + 1) ≠ "") : ∃ w', Chain H env id (n + 1) w' := by
  obtain ⟨p, hp, hdepth⟩ := hw.top
  have fresh {k : ChainID} : (∃ m ≤ n, k = id m) → k ≠ createChainIDFromParent H (id n) [d] := by
    rintro ⟨m, hm, rfl⟩
    exact hid ▸ hnew m hm
  obtain ⟨w', c', hrun, henv, ⟨a, hmap⟩, ⟨x, hlayers⟩, htmp⟩ :=
    run_registerByGraphID (H := H) "" d 0 rfl (hw.env ▸ hf) hw.tmp hp
      (fun h => fresh (hw.layerMap _ h) rfl) fun h => fresh (hw.layers _ h) rfl
  have grown {α : Type} {t : Map ChainID α} {b : α} (h : ∀ k ∈ t, ∃ m ≤ n, k = id m) (k : ChainID)
      (hk : k ∈ t.insert (createChainIDFromParent H (id n) [d]) b) : ∃ m ≤ n + 1, k = id m := by
    rcases Finmap.mem_insert.mp hk with rfl | hk
    · exact ⟨n + 1, le_refl _, hid.symm⟩
    · obtain ⟨m, hm, rfl⟩ := h k hk
      exact ⟨m, Nat.le_succ_of_le hm, rfl⟩
  refine ⟨w', hw.reached.run _ hrun, henv.trans hw.env, ?_, ?_, ?_, htmp.trans hw.tmp⟩
  · refine ⟨some (.make a ⟨createChainIDFromParent H (id n) [d], d, "", 0, {}⟩ p), ?_, ?_⟩
    · rw [parentOf, if_neg hne, hmap, hid, Finmap.lookup_insert]
      rfl
    · rw [← hdepth]
      exact RoLayer.depth_make ..
  · rw [hmap]; exact grown hw.layerMap
  · rw [hlayers]; exact grown hw.layers

/-- Migrated layers form chains of any depth that their chain IDs allow. -/
theorem exists_chain (hf : FailsOnly env none) {d : Nat → DiffID} {N : Nat} (h₀ : id 0 = "")
    (hid : ∀ n, id (n + 1) = createChainIDFromParent H (id n) [d n])
    (hnew : ∀ m n, m < n → n ≤ N → id m ≠ id n) (hn : n ≤ N) : ∃ w, Chain H env id n w := by
  induction n with
  | zero => exact ⟨_, Chain.empty h₀⟩
  | succ n ih =>
    obtain ⟨w, hw⟩ := ih (Nat.le_of_succ_le hn)
    have hne := hnew 0 (n + 1) (Nat.succ_pos n) hn
    exact hw.succ hf (hid n) (fun m hm => hnew m _ (Nat.lt_succ_of_le hm) hn) fun e => hne (h₀.trans e.symm)

end

/-! ## A layer that is too deep -/

/-- 62 zeros. -/
def zeros : String := "00000000000000000000000000000000000000000000000000000000000000"

/-- 62 zeros and the digits `x` and `y`. -/
def twoDigits (x y : Char) : String := zeros ++ .ofList [x, y]

theorem twoDigits_hex {x y : Char} (hx : isHexLower x = true) (hy : isHexLower y = true) :
    IsHex64 (twoDigits x y) := by
  have hz : zeros.length = 62 ∧ zeros.toList.all isHexLower = true := by decide
  refine ⟨by rw [twoDigits, String.length_append, hz.1, String.length_ofList]; rfl, fun c hc => ?_⟩
  rw [twoDigits, String.toList_append, String.toList_ofList] at hc
  rcases List.mem_append.mp hc with hc | hc
  · exact List.all_eq_true.mp hz.2 c hc
  · simp only [List.mem_cons, List.not_mem_nil, or_false] at hc
    rcases hc with rfl | rfl
    · exact hx
    · exact hy

/-- A hash function: the sum of a text that ends in two hexadecimal digits
ends in the same digits. -/
def lastDigits : Hash where
  sum b := match b.reverse with
    | y :: x :: _ =>
      if isHexLower (.ofNat x.toNat) ∧ isHexLower (.ofNat y.toNat) then twoDigits (.ofNat x.toNat) (.ofNat y.toNat)
      else twoDigits '0' '0'
    | _ => twoDigits '0' '0'
  sum_hex b := by
    have zeros : IsHex64 (twoDigits '0' '0') := twoDigits_hex rfl rfl
    split
    · split
      · rename_i h
        exact twoDigits_hex h.1 h.2
      · exact zeros
    · exact zeros

/-- The diff IDs of the chain. -/
def sampleDiffID (n : Nat) : DiffID :=
  newDigestFromHex "sha256" (twoDigits (n / 16 % 16).digitChar (n % 16).digitChar)

/-- Their chain IDs. -/
def sampleChainID : Nat → ChainID
  | 0 => ""
  | n + 1 => sampleDiffID n

/-- A hexadecimal digit is one byte. -/
theorem digitChar_byte : ∀ k < 16, isHexLower k.digitChar = true ∧
    String.utf8EncodeChar k.digitChar = [.ofNat k.digitChar.toNat] ∧
    Char.ofNat (UInt8.ofNat k.digitChar.toNat).toNat = k.digitChar := by
  decide

theorem fromBytes_lastDigits (s : String) (n : Nat) :
    lastDigits.fromBytes (bytesOf (s ++ sampleDiffID n)) = sampleDiffID n := by
  obtain ⟨hx, ex, ecx⟩ := digitChar_byte _ (Nat.mod_lt (n / 16) (by decide : 16 > 0))
  obtain ⟨hy, ey, ecy⟩ := digitChar_byte _ (Nat.mod_lt n (by decide : 16 > 0))
  have hb : ∀ t, lastDigits.sum (t ++ bytesOf (.ofList [(n / 16 % 16).digitChar, (n % 16).digitChar])) =
      twoDigits (n / 16 % 16).digitChar (n % 16).digitChar := by
    intro t
    simp only [bytesOf, String.toList_ofList, List.flatMap_cons, List.flatMap_nil, ex, ey, lastDigits,
      List.reverse_append, List.reverse_cons, List.reverse_nil, List.nil_append, List.cons_append, List.append_nil,
      ecx, ecy, hx, hy, and_self, if_true]
  rw [Hash.fromBytes, sampleDiffID]
  conv in bytesOf _ =>
    rw [newDigestFromHex, twoDigits, ← String.append_assoc, ← String.append_assoc, bytesOf_append]
  rw [hb]

theorem sampleDiffID_ne_empty (n : Nat) : sampleDiffID n ≠ "" := by
  rw [← fromBytes_lastDigits "" n]
  exact fromBytes_ne_empty _ _

theorem sampleChainID_succ (n : Nat) :
    sampleChainID (n + 1) = createChainIDFromParent lastDigits (sampleChainID n) [sampleDiffID n] := by
  cases n with
  | zero => rfl
  | succ n =>
    simp only [sampleChainID, createChainIDFromParent, sampleDiffID_ne_empty, if_false]
    exact (fromBytes_lastDigits _ _).symm

theorem digitChar_inj : ∀ j < 16, ∀ k < 16, j.digitChar = k.digitChar → j = k := by decide

theorem sampleDiffID_inj {m n : Nat} (hm : m < 256) (hn : n < 256) (h : sampleDiffID m = sampleDiffID n) : m = n := by
  have h := congrArg hex h
  simp only [sampleDiffID, hex_newDigestFromHex, twoDigits] at h
  have h := congrArg String.toList h
  simp only [String.toList_append, List.append_cancel_left_eq, String.toList_ofList, List.cons.injEq, and_true] at h
  have h₁ := digitChar_inj _ (Nat.mod_lt _ (by decide)) _ (Nat.mod_lt _ (by decide)) h.1
  have h₂ := digitChar_inj _ (Nat.mod_lt _ (by decide)) _ (Nat.mod_lt _ (by decide)) h.2
  omega

theorem sampleChainID_ne {m n : Nat} (h : m < n) (hn : n ≤ 256) : sampleChainID m ≠ sampleChainID n := by
  cases n with
  | zero => omega
  | succ n =>
    cases m with
    | zero => exact (sampleDiffID_ne_empty n).symm
    | succ m =>
      intro e
      have := sampleDiffID_inj (by omega) (by omega) e
      omega

/-- After 126 calls of `RegisterByGraphID`, each on the layer of the one before
it, there is a layer that is too deep. -/
theorem migrated_too_deep : ∃ x k l, Migrates lastDigits sampleEnv x ∧ x.1.ls.layerMap.lookup k = some l ∧
    maxLayerDepth < l.depth := by
  have hf : FailsOnly sampleEnv none := fun n op => by simp [sampleEnv_ok]
  obtain ⟨w, hw⟩ := exists_chain (n := maxLayerDepth + 1) hf rfl sampleChainID_succ
    (fun m n hm hn => sampleChainID_ne hm hn) (by decide)
  obtain ⟨p, hp, hdepth⟩ := hw.top
  cases p with
  | none => cases hdepth
  | some l => exact ⟨_, _, l, hw.reached, parentOf_some hp, by rw [show l.depth = _ from hdepth]; exact Nat.lt_succ_self _⟩

end Moby.Layer
