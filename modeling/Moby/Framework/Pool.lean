import Mathlib.Data.Finset.Card
import Mathlib.Tactic.SplitIfs

/-!
# A pool of slots

At most `limit` users hold a slot at a time (any number, for a limit of 0);
who comes when none is free waits in a queue, and who leaves hands the slot
over to the head of the queue. The limit can be changed at any time.
-/

namespace Moby.Framework

variable {ι : Type}

@[ext]
structure Pool (ι : Type) where
  limit : ℤ
  /-- Those who hold a slot. -/
  active : Finset ι
  /-- Those who wait for one, in the order they came. -/
  queue : List ι

namespace Pool

/-- A slot is free. -/
def Free (p : Pool ι) : Prop := p.limit = 0 ∨ (p.active.card : ℤ) < p.limit

instance (p : Pool ι) : Decidable p.Free := inferInstanceAs (Decidable (_ ∨ _))

variable [DecidableEq ι]

def arrive (p : Pool ι) (x : ι) : Pool ι :=
  if p.Free then { p with active := insert x p.active } else { p with queue := p.queue ++ [x] }

def leave (p : Pool ι) (x : ι) : Pool ι :=
  match p.queue with
  | [] => { p with active := p.active.erase x }
  | y :: rest => { p with active := insert y (p.active.erase x), queue := rest }

theorem leave_nil {p : Pool ι} (h : p.queue = []) (x : ι) :
    p.leave x = { p with active := p.active.erase x } := by
  unfold leave; rw [h]

theorem leave_cons {p : Pool ι} {y : ι} {rest : List ι} (h : p.queue = y :: rest) (x : ι) :
    p.leave x = { p with active := insert y (p.active.erase x), queue := rest } := by
  unfold leave; rw [h]

/-- What can happen to a pool, if `G` says which limits may be set. -/
inductive Move (G : Pool ι → ℤ → Prop) : Pool ι → Pool ι → Prop
  | rest (p : Pool ι) : Move G p p
  | arrive {p : Pool ι} {x : ι} (hx : x ∉ p.active) (hq : x ∉ p.queue) : Move G p (p.arrive x)
  | leave {p : Pool ι} {x : ι} (hx : x ∈ p.active) : Move G p (p.leave x)
  | setLimit {p : Pool ι} {n : ℤ} (hn : G p n) : Move G p { p with limit := n }

variable {p p' : Pool ι} {x : ι} {G : Pool ι → ℤ → Prop}

/-! ## Nobody is in a pool twice -/

structure Sound (p : Pool ι) : Prop where
  nodup : p.queue.Nodup
  disjoint : ∀ x ∈ p.queue, x ∉ p.active

/-- A slot that is handed over changes nothing in their number. -/
theorem Sound.card_handover (h : p.Sound) {y : ι} {rest : List ι} (hq : p.queue = y :: rest)
    (hx : x ∈ p.active) : (insert y (p.active.erase x)).card = p.active.card := by
  have hy : y ∉ p.active := h.disjoint y (by rw [hq]; exact List.mem_cons_self)
  rw [Finset.card_insert_of_notMem fun hm => hy (Finset.mem_of_mem_erase hm), Finset.card_erase_of_mem hx]
  have := Finset.card_pos.mpr ⟨x, hx⟩
  omega

/-! ## Who waits, waits for somebody -/

/-- A limit below zero leaves no slot to anybody. -/
structure Busy (p : Pool ι) : Prop where
  limit_nonneg : 0 ≤ p.limit
  card_pos : p.queue ≠ [] → 1 ≤ p.active.card

theorem Busy.move (h : p.Busy) (hs : p.Sound) (hG : ∀ p n, G p n → 0 ≤ n) (hm : Move G p p') : p'.Busy := by
  obtain ⟨hl, hc⟩ := h
  cases hm with
  | rest => exact ⟨hl, hc⟩
  | setLimit hn => exact ⟨hG _ _ hn, hc⟩
  | @arrive x hx _ =>
    unfold arrive
    split_ifs with hf
    · refine ⟨hl, fun _ => ?_⟩
      rw [Finset.card_insert_of_notMem hx]; omega
    · refine ⟨hl, fun _ => ?_⟩
      simp only [Free, not_or, not_lt] at hf
      show 1 ≤ p.active.card
      omega
  | @leave x hx =>
    unfold leave
    split
    · rename_i hq; exact ⟨hl, fun h => absurd hq h⟩
    · rename_i y rest hq
      refine ⟨hl, fun _ => ?_⟩
      rw [hs.card_handover hq hx]
      exact hc (by rw [hq]; exact List.cons_ne_nil _ _)

/-! ## The limit is kept, and slots are not left free -/

/-- A pool whose limit is not zero. -/
structure Tight (p : Pool ι) : Prop where
  limit_ne_zero : p.limit ≠ 0
  card_le : (p.active.card : ℤ) ≤ p.limit ∨ p.active = ∅
  le_card : p.queue ≠ [] → p.limit ≤ p.active.card

/-- The limits that keep a pool tight. -/
def Fits (p : Pool ι) (n : ℤ) : Prop :=
  n ≠ 0 ∧ ((p.active.card : ℤ) ≤ n ∨ p.active = ∅) ∧ (p.queue ≠ [] → n ≤ p.active.card)

instance (p : Pool ι) (n : ℤ) : Decidable (p.Fits n) := inferInstanceAs (Decidable (_ ∧ (_ ∨ _) ∧ (_ → _)))

omit [DecidableEq ι] in
theorem Tight.card_le_of_mem (h : p.Tight) (hx : x ∈ p.active) : (p.active.card : ℤ) ≤ p.limit :=
  h.card_le.resolve_right (Finset.ne_empty_of_mem hx)

theorem Tight.move (h : p.Tight) (hs : p.Sound) (hG : ∀ p n, G p n → p.Fits n) (hm : Move G p p') :
    p'.Tight := by
  obtain ⟨hl, hle, hge⟩ := id h
  cases hm with
  | rest => exact h
  | setLimit hn => exact ⟨(hG _ _ hn).1, (hG _ _ hn).2.1, (hG _ _ hn).2.2⟩
  | @arrive x hx _ =>
    unfold arrive
    split_ifs with hf
    · have hlt := hf.resolve_left hl
      refine ⟨hl, .inl ?_, fun hq => ?_⟩
      · rw [Finset.card_insert_of_notMem hx]; push_cast; omega
      · exact absurd (hge hq) (by omega)
    · simp only [Free, not_or, not_lt] at hf
      exact ⟨hl, hle, fun _ => hf.2⟩
  | @leave x hx =>
    have hle := h.card_le_of_mem hx
    unfold leave
    split
    · rename_i hq
      refine ⟨hl, .inl ?_, fun h => absurd hq h⟩
      have := Finset.card_erase_le (s := p.active) (a := x)
      show ((p.active.erase x).card : ℤ) ≤ p.limit
      omega
    · rename_i y rest hq
      refine ⟨hl, .inl ?_, fun _ => ?_⟩
      · show ((insert y (p.active.erase x)).card : ℤ) ≤ p.limit
        rw [hs.card_handover hq hx]; exact hle
      · show p.limit ≤ ((insert y (p.active.erase x)).card : ℤ)
        rw [hs.card_handover hq hx]; exact hge (by rw [hq]; exact List.cons_ne_nil _ _)

/-- Who no longer waits has been handed a slot. -/
theorem Move.mem_active (h : Move G p p') (hx : x ∈ p.queue) (hx' : x ∉ p'.queue) : x ∈ p'.active := by
  cases h with
  | rest => exact absurd hx hx'
  | setLimit => exact absurd hx hx'
  | arrive =>
    refine absurd hx' (not_not_intro ?_)
    unfold Pool.arrive
    split_ifs
    · exact hx
    · exact List.mem_append_left _ hx
  | leave =>
    cases hq : p.queue with
    | nil => rw [hq] at hx; cases hx
    | cons y rest =>
      rw [leave_cons hq] at hx' ⊢
      rw [hq] at hx
      rcases List.mem_cons.mp hx with rfl | hr
      · exact Finset.mem_insert_self _ _
      · exact absurd hr hx'

end Pool

end Moby.Framework
