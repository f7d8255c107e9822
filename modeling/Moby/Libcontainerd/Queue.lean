import Mathlib.Data.List.Range
import Mathlib.Logic.Function.Basic
import Moby.Framework.Machine

/-!
# The queue of events (libcontainerd/queue_linux.go)

The events of a container are handed to the daemon by goroutines, one for each event. `append` makes a
channel for the new goroutine and leaves it in a map under the ID of the container; the goroutine waits
for the channel that was there before, runs its function and closes its own channel. So the functions of
one ID run one after the other in the order in which they were appended (`phases_eq`), whatever the
scheduler does and also where functions append others, and if every function returns then every function
runs (`leadsTo_closed`).
-/

namespace Moby.Libcontainerd

open Moby.Framework Behavior

variable {Id : Type}

/-- Where a goroutine is. -/
inductive Phase
  /-- `<-fn`, or before `f` if there is no channel to wait for. -/
  | waiting
  /-- In `f`. -/
  | running
  /-- Before `close(done)`. -/
  | returned
  /-- `done` is closed. -/
  | closed
  deriving DecidableEq

/-- The phase that a goroutine goes on to. -/
def Phase.next : Phase → Phase
  | waiting => running
  | running => returned
  | returned => closed
  | closed => closed

/-- The goroutines are numbered as they were started, and so are their channels `done`. -/
structure Queue (Id : Type) where
  fns : Id → Option ℕ
  /-- The ID of each goroutine and the channel `fn` it waits for. -/
  jobs : List (Id × Option ℕ)
  phase : ℕ → Phase

inductive Event (Id : Type)
  /-- A call of `append`, by anybody. -/
  | append (id : Id)
  | start (j : ℕ)
  | finish (j : ℕ)
  | close (j : ℕ)

namespace Queue

def empty : Queue Id := ⟨fun _ => none, [], fun _ => .waiting⟩

variable [DecidableEq Id]

def append (q : Queue Id) (id : Id) : Queue Id :=
  { q with fns := Function.update q.fns id (some q.jobs.length), jobs := q.jobs ++ [(id, q.fns id)] }

/-- A goroutine goes on. -/
def move (q : Queue Id) (j : ℕ) (p : Phase) : Queue Id := { q with phase := Function.update q.phase j p }

@[simp]
theorem fns_append_self (q : Queue Id) (id : Id) : (q.append id).fns id = some q.jobs.length := Function.update_self _ _ _

theorem fns_append_of_ne (q : Queue Id) {id id' : Id} (h : id' ≠ id) : (q.append id).fns id' = q.fns id' :=
  Function.update_of_ne h _ _

omit [DecidableEq Id] in
@[simp]
theorem phase_move_self (q : Queue Id) (j : ℕ) (p : Phase) : (q.move j p).phase j = p := Function.update_self _ _ _

omit [DecidableEq Id] in
theorem phase_move_of_ne (q : Queue Id) {i j : ℕ} (h : i ≠ j) (p : Phase) : (q.move j p).phase i = q.phase i :=
  Function.update_of_ne h _ _

/-- `fn` is closed, or there is none. -/
def Ready (q : Queue Id) (j : ℕ) : Prop := ∀ i ∈ (q.jobs[j]?).bind Prod.snd, q.phase i = .closed

instance (q : Queue Id) (j : ℕ) : Decidable (q.Ready j) :=
  inferInstanceAs (Decidable (∀ i ∈ (q.jobs[j]?).bind Prod.snd, q.phase i = .closed))

def exec (q : Queue Id) : Event Id → Option (Queue Id)
  | .append id => some (q.append id)
  | .start j => if j < q.jobs.length ∧ q.phase j = .waiting ∧ q.Ready j then some (q.move j .running) else none
  | .finish j => if q.phase j = .running then some (q.move j .returned) else none
  | .close j => if q.phase j = .returned then some (q.move j .closed) else none

/-- What an event lets a goroutine do. -/
inductive Moves (q : Queue Id) (j : ℕ) : Event Id → Phase → Prop
  | start (hj : j < q.jobs.length) (hphase : q.phase j = .waiting) (hready : q.Ready j) : Moves q j (.start j) .running
  | finish (hphase : q.phase j = .running) : Moves q j (.finish j) .returned
  | close (hphase : q.phase j = .returned) : Moves q j (.close j) .closed

variable {q q' : Queue Id} {e : Event Id} {id : Id} {i j : ℕ}

theorem exec_cases (h : q.exec e = some q') :
    (∃ id, e = .append id ∧ q' = q.append id) ∨ ∃ j p, Moves q j e p ∧ q' = q.move j p := by
  cases e with
  | append id =>
    cases h
    exact .inl ⟨id, rfl, rfl⟩
  | start j =>
    rw [exec, Option.ite_none_right_eq_some] at h
    obtain ⟨⟨hj, hphase, hready⟩, ⟨⟩⟩ := h
    exact .inr ⟨j, _, .start hj hphase hready, rfl⟩
  | finish j =>
    rw [exec, Option.ite_none_right_eq_some] at h
    obtain ⟨hphase, ⟨⟩⟩ := h
    exact .inr ⟨j, _, .finish hphase, rfl⟩
  | close j =>
    rw [exec, Option.ite_none_right_eq_some] at h
    obtain ⟨hphase, ⟨⟩⟩ := h
    exact .inr ⟨j, _, .close hphase, rfl⟩

/-! ## Order -/

/-- The ID of a goroutine. -/
def idAt (q : Queue Id) (i : ℕ) : Option Id := (q.jobs[i]?).map Prod.fst

/-- The last goroutine before `n` with an ID. -/
def Last (q : Queue Id) (n : ℕ) (id : Id) : Option ℕ → Prop
  | none => ∀ k < n, q.idAt k ≠ some id
  | some i => i < n ∧ q.idAt i = some id ∧ ∀ k, i < k → k < n → q.idAt k ≠ some id

theorem idAt_append (h : i < q.jobs.length) : (q.append id).idAt i = q.idAt i := by
  rw [idAt, append, List.getElem?_append_left h, idAt]

theorem idAt_append_self : (q.append id).idAt q.jobs.length = some id := by
  rw [idAt, append, List.getElem?_append_right (le_refl _), Nat.sub_self]
  rfl

theorem Last.append {n : ℕ} {fn : Option ℕ} (h : q.Last n id fn) (hn : n ≤ q.jobs.length) (id' : Id) :
    (q.append id').Last n id fn := by
  cases fn with
  | none =>
    intro k hk
    rw [idAt_append (hk.trans_le hn)]
    exact h k hk
  | some i =>
    obtain ⟨hi, hid, hno⟩ := h
    refine ⟨hi, by rw [idAt_append (hi.trans_le hn), hid], fun k hik hk => ?_⟩
    rw [idAt_append (hk.trans_le hn)]
    exact hno k hik hk

omit [DecidableEq Id] in
/-- Another goroutine with another ID changes nothing. -/
theorem Last.succ {n : ℕ} {fn : Option ℕ} (h : q.Last n id fn) (hne : q.idAt n ≠ some id) : q.Last (n + 1) id fn := by
  cases fn with
  | none =>
    intro k hk
    rcases Nat.lt_succ_iff_lt_or_eq.mp hk with hk | rfl
    · exact h k hk
    · exact hne
  | some i =>
    obtain ⟨hi, hid, hno⟩ := h
    refine ⟨by omega, hid, fun k hik hk => ?_⟩
    rcases Nat.lt_succ_iff_lt_or_eq.mp hk with hk | rfl
    · exact hno k hik hk
    · exact hne

/-- Every goroutine waits for the last one before it with its ID, and if one has started then those before it
have closed their channels. -/
structure Inv (q : Queue Id) : Prop where
  fns id : q.Last q.jobs.length id (q.fns id)
  waits j id fn : q.jobs[j]? = some (id, fn) → q.Last j id fn
  order i j id : i < j → q.idAt i = some id → q.idAt j = some id → q.phase j ≠ .waiting → q.phase i = .closed
  unborn j : q.jobs.length ≤ j → q.phase j = .waiting

omit [DecidableEq Id] in
theorem inv_empty : Inv (empty : Queue Id) := by
  refine ⟨?_, ?_, ?_, fun j _ => rfl⟩
  · intro id k hk
    cases hk
  · intro j id fn h
    cases h
  · intro i j id _ h
    cases h

theorem Inv.append (h : q.Inv) (id : Id) : (q.append id).Inv := by
  have hlength : (q.append id).jobs.length = q.jobs.length + 1 := by simp [Queue.append]
  refine ⟨fun id' => ?_, fun j id' fn hj => ?_, fun i j id' hij hi hj hphase => ?_, fun j hj => ?_⟩
  · rw [hlength]
    by_cases hid : id' = id
    · subst hid
      rw [fns_append_self]
      exact ⟨Nat.lt_succ_self _, idAt_append_self, fun k hk hk' => absurd hk' (by omega)⟩
    · rw [fns_append_of_ne q hid]
      refine ((h.fns id').append (le_refl _) id).succ ?_
      rw [idAt_append_self]
      exact fun he => hid (Option.some.inj he).symm
  · rcases Nat.lt_or_ge j q.jobs.length with hlt | hge
    · rw [Queue.append, List.getElem?_append_left hlt] at hj
      exact (h.waits j id' fn hj).append hlt.le id
    · rw [Queue.append, List.getElem?_append_right hge, List.getElem?_singleton, Option.ite_none_right_eq_some] at hj
      obtain ⟨hj, ⟨⟩⟩ := hj
      obtain rfl : j = q.jobs.length := by omega
      exact (h.fns id).append (le_refl _) id
  · have hj' : j < q.jobs.length := by
      by_contra hge
      exact hphase (h.unborn j (by omega))
    rw [idAt_append (hij.trans hj')] at hi
    rw [idAt_append hj'] at hj
    exact h.order i j id' hij hi hj hphase
  · rw [hlength] at hj
    exact h.unborn j (by omega)

omit [DecidableEq Id] in
/-- A goroutine that goes on is not before one that has started, unless it has closed its channel. -/
theorem Inv.move {p : Phase} (h : q.Inv) (hm : Moves q j e p) : (q.move j p).Inv := by
  have hj : j < q.jobs.length := by
    by_contra hge
    have hwaiting := h.unborn j (by omega)
    cases hm with
    | start hj => omega
    | finish hphase | close hphase =>
      rw [hwaiting] at hphase
      cases hphase
  refine ⟨h.fns, h.waits, fun i k id hik hi hk hphase => ?_, fun k hk => ?_⟩
  · change q.idAt i = some id at hi
    change q.idAt k = some id at hk
    by_cases hkj : k = j
    · subst hkj
      rw [phase_move_of_ne q (Nat.ne_of_lt hik)]
      cases hm with
      | finish hold | close hold => exact h.order i k id hik hi hk (by rw [hold]; exact Phase.noConfusion)
      | start hk' hwaiting hready =>
        -- the one it waits for has closed its channel, and those before that one with it
        obtain ⟨⟨id', fn⟩, hget, ⟨⟩⟩ := Option.map_eq_some_iff.mp hk
        have hlast := h.waits k _ fn hget
        rw [Ready, hget] at hready
        cases fn with
        | none => exact absurd hi (hlast i hik)
        | some w =>
          obtain ⟨hwk, hw, hno⟩ := hlast
          have hclosed : q.phase w = .closed := hready w rfl
          rcases Nat.lt_trichotomy i w with hiw | rfl | hwi
          · exact h.order i w _ hiw hi hw (by rw [hclosed]; exact Phase.noConfusion)
          · exact hclosed
          · exact absurd hi (hno i hwi hik)
    · rw [phase_move_of_ne q hkj] at hphase
      have hclosed := h.order i k id hik hi hk hphase
      by_cases hij : i = j
      · subst hij
        cases hm with
        | start hlt hold hready | finish hold | close hold =>
          rw [hold] at hclosed
          cases hclosed
      · rw [phase_move_of_ne q hij]
        exact hclosed
  · have hkj : k ≠ j := by
      rintro rfl
      exact absurd hj (Nat.not_lt.mpr hk)
    rw [phase_move_of_ne q hkj]
    exact h.unborn k hk

theorem inv_of_reaches (h : Reaches exec empty q) : q.Inv := by
  refine h.inv inv_empty fun s e s' _ ih _ he => ?_
  obtain ⟨id, -, rfl⟩ | ⟨j, p, hm, rfl⟩ := exec_cases he
  · exact ih.append id
  · exact ih.move hm

/-- The phases of the goroutines of an ID, in the order in which they were started. -/
def phases (q : Queue Id) (id : Id) : List Phase := ((List.range q.jobs.length).filter fun i => q.idAt i = some id).map q.phase

/-- Closed ones, then one that is on, then waiting ones. -/
theorem exists_phases {l : List Phase} (h : l.Pairwise fun p p' => p' ≠ .waiting → p = .closed) :
    ∃ done now later, l = List.replicate done .closed ++ now ++ List.replicate later .waiting ∧
      now ∈ [[], [Phase.running], [.returned]] := by
  have hwaiting : ∀ {p l}, p ≠ Phase.closed → (p :: l).Pairwise (fun p p' => p' ≠ .waiting → p = .closed) →
      l = List.replicate l.length .waiting := by
    intro p l hp hl
    refine List.eq_replicate_iff.mpr ⟨rfl, fun p' hp' => ?_⟩
    by_contra hne
    exact hp ((List.pairwise_cons.mp hl).1 p' hp' hne)
  induction l with
  | nil => exact ⟨0, [], 0, rfl, by simp⟩
  | cons p l ih =>
    cases p with
    | closed =>
      obtain ⟨done, now, later, hl, hnow⟩ := ih h.of_cons
      exact ⟨done + 1, now, later, by rw [hl, List.replicate_succ, List.cons_append, List.cons_append], hnow⟩
    | waiting => exact ⟨0, [], l.length + 1, by rw [List.replicate_succ, ← hwaiting Phase.noConfusion h]; rfl, by simp⟩
    | running => exact ⟨0, [.running], l.length, by rw [← hwaiting Phase.noConfusion h]; rfl, by simp⟩
    | returned => exact ⟨0, [.returned], l.length, by rw [← hwaiting Phase.noConfusion h]; rfl, by simp⟩

/-- The functions of an ID run one at a time, in the order in which they were appended. -/
theorem phases_eq (h : Reaches exec empty q) (id : Id) :
    ∃ done now later, q.phases id = List.replicate done .closed ++ now ++ List.replicate later .waiting ∧
      now ∈ [[], [Phase.running], [.returned]] := by
  refine exists_phases (List.pairwise_map.mpr ?_)
  refine List.Pairwise.imp_of_mem (fun hi hj hlt hphase => ?_) (List.pairwise_lt_range.filter _)
  have hi := of_decide_eq_true (List.mem_filter.mp hi).2
  have hj := of_decide_eq_true (List.mem_filter.mp hj).2
  exact (inv_of_reaches h).order _ _ id hlt hi hj hphase

/-- Two functions of one container, the first of which has appended the second. -/
theorem phases_eq_two : ∃ done now later,
    ((((empty : Queue Bool).append true).move 0 .running).append true).phases true =
      List.replicate done .closed ++ now ++ List.replicate later .waiting ∧ now ∈ [[], [Phase.running], [.returned]] :=
  phases_eq (ReachesIf.of_execAll (l := [.append true, .start 0, .append true]) rfl) true

/-! ## Progress -/

/-- What an event makes of the phase of a goroutine. -/
theorem phase_of_exec {p : Phase} (h : q.exec e = some q') (hp : q.phase j = p) : q'.phase j = p ∨ q'.phase j = p.next := by
  subst hp
  obtain ⟨id, -, rfl⟩ | ⟨k, p', hm, rfl⟩ := exec_cases h
  · exact .inl rfl
  · by_cases hk : j = k
    · subst hk
      rw [phase_move_self]
      cases hm with
      | start hj hphase hready => exact .inr (by rw [hphase]; rfl)
      | finish hphase | close hphase => exact .inr (by rw [hphase]; rfl)
    · exact .inl (phase_move_of_ne q hk p')

theorem jobs_of_exec (h : q.exec e = some q') (hj : j < q.jobs.length) : q'.jobs[j]? = q.jobs[j]? := by
  obtain ⟨id, -, rfl⟩ | ⟨k, p, hm, rfl⟩ := exec_cases h
  · exact List.getElem?_append_left hj
  · rfl

theorem length_of_exec (h : q.exec e = some q') : q.jobs.length ≤ q'.jobs.length := by
  obtain ⟨id, -, rfl⟩ | ⟨k, p, hm, rfl⟩ := exec_cases h
  · simp [Queue.append]
  · exact le_refl _

theorem closed_of_exec (h : q.exec e = some q') (hj : q.phase j = .closed) : q'.phase j = .closed :=
  (phase_of_exec h hj).elim id id

section

variable {b : Behavior exec (empty : Queue Id)}

/-- A goroutine that can go on does so. -/
theorem leadsTo_move {p : Phase} {P : Queue Id → Prop} (hfair : b.Fair e)
    (hexec : ∀ q, P q → q.exec e = some (q.move j p))
    (hkeep : ∀ q e q', P q → q.exec e = some q' → P q' ∨ q'.phase j = p) : b.LeadsTo P fun q => q.phase j = p := by
  refine hfair.leadsTo_of_enabled (fun s e s' _ => hkeep s e s') (fun s s' _ hP he => ?_) fun s _ hP => ?_
  · rw [hexec s hP] at he
    cases he
    exact phase_move_self _ _ _
  · rw [hexec s hP]
    rfl

theorem leadsTo_returned (hfinish : b.Fair (.finish j)) :
    b.LeadsTo (fun q => q.phase j = .running) fun q => q.phase j = .returned :=
  leadsTo_move hfinish (fun _ hP => if_pos hP) fun _ _ _ hP he => phase_of_exec he hP

theorem leadsTo_closed_of_returned (hclose : b.Fair (.close j)) :
    b.LeadsTo (fun q => q.phase j = .returned) fun q => q.phase j = .closed :=
  leadsTo_move hclose (fun _ hP => if_pos hP) fun _ _ _ hP he => phase_of_exec he hP

theorem leadsTo_running (hstart : b.Fair (.start j)) :
    b.LeadsTo (fun q => j < q.jobs.length ∧ q.phase j = .waiting ∧ q.Ready j) fun q => q.phase j = .running := by
  refine leadsTo_move hstart (fun _ hP => if_pos hP) fun q e q' hP he => ?_
  obtain ⟨hj, hphase, hready⟩ := hP
  refine (phase_of_exec he hphase).imp_left fun heq => ⟨hj.trans_le (length_of_exec he), heq, fun i hi => ?_⟩
  rw [jobs_of_exec he hj] at hi
  exact closed_of_exec he (hready i hi)

/-- If every function that is started returns, every function that is appended is run, and its channel is closed. -/
theorem leadsTo_closed (hstart : ∀ j, b.Fair (.start j)) (hfinish : ∀ j, b.Fair (.finish j)) (hclose : ∀ j, b.Fair (.close j))
    (j : ℕ) : b.LeadsTo (fun q => j < q.jobs.length) fun q => q.phase j = .closed := by
  induction j using Nat.strong_induction_on with
  | _ j ih =>
    have hreturned := leadsTo_closed_of_returned (hclose j)
    have hrunning := (leadsTo_returned (hfinish j)).trans hreturned
    have hready := (leadsTo_running (hstart j)).trans hrunning
    intro n hn
    -- first the goroutine that it waits for has to close its channel
    obtain ⟨m, hm, hlt, hprior⟩ : ∃ m ≥ n, j < (b.states m).jobs.length ∧ (b.states m).Ready j := by
      obtain ⟨⟨id, fn⟩, hget⟩ : ∃ job, (b.states n).jobs[j]? = some job := ⟨_, List.getElem?_eq_getElem hn⟩
      have hlast := (inv_of_reaches (b.reaches n)).waits j id fn hget
      -- what it waits for stays the same
      have hkeep : ∀ m ≥ n, (b.states m).jobs[j]? = some (id, fn) := by
        refine lasts (P := fun q : Queue Id => q.jobs[j]? = some (id, fn)) (Q := fun _ => False)
          (fun s e s' _ hP he => ?_) hget fun _ _ h => h
        exact .inl ((jobs_of_exec he (List.getElem?_eq_some_iff.mp hP).1).trans hP)
      cases fn with
      | none =>
        refine ⟨n, le_refl n, hn, fun i hi => ?_⟩
        rw [hget] at hi
        cases hi
      | some w =>
        obtain ⟨hwj, -, -⟩ := hlast
        obtain ⟨m, hm, hclosed⟩ := ih w hwj n (hwj.trans hn)
        refine ⟨m, hm, (List.getElem?_eq_some_iff.mp (hkeep m hm)).1, fun i hi => ?_⟩
        rw [hkeep m hm] at hi
        cases hi
        exact hclosed
    obtain ⟨k, hk, hclosed⟩ : ∃ k ≥ m, (b.states k).phase j = .closed := by
      cases hphase : (b.states m).phase j with
      | waiting => exact hready m ⟨hlt, hphase, hprior⟩
      | running => exact hrunning m hphase
      | returned => exact hreturned m hphase
      | closed => exact ⟨m, le_refl m, hphase⟩
    exact ⟨k, le_trans hm hk, hclosed⟩

end

/-- Two functions of one ID run to their end. -/
theorem leadsTo_closed_two : ∃ m ≥ 2, ((Behavior.ofList exec (empty : Queue Bool) [.append true, .append true, .start 0,
    .finish 0, .close 0, .start 1, .finish 1, .close 1]).states m).phase 1 = .closed := by
  obtain ⟨q, hq, hlength, hphase⟩ : ∃ q, execAll exec (empty : Queue Bool) [.append true, .append true, .start 0,
      .finish 0, .close 0, .start 1, .finish 1, .close 1] = some q ∧ q.jobs.length = 2 ∧
      ∀ j, q.phase j = .closed ∨ 2 ≤ j ∧ q.phase j = .waiting := by
    refine ⟨_, rfl, rfl, fun j => ?_⟩
    rcases j with _ | _ | j
    · exact .inl rfl
    · exact .inl rfl
    · exact .inr ⟨by omega, rfl⟩
  refine leadsTo_closed (fun j => ofList_fair ?_) (fun j => ofList_fair ?_) (fun j => ofList_fair ?_) 1 2 (by decide)
  · rw [hq, Option.map_some, exec, if_neg]
    rintro ⟨hj, hwaiting, -⟩
    rcases hphase j with hclosed | ⟨hj', -⟩
    · rw [hclosed] at hwaiting
      cases hwaiting
    · omega
  all_goals
    rw [hq, Option.map_some, exec, if_neg]
    intro hp
    rcases hphase j with h | ⟨-, h⟩ <;> rw [h] at hp <;> cases hp

end Queue

end Moby.Libcontainerd
