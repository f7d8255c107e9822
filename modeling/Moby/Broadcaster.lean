import Mathlib.Data.List.Induction
import Mathlib.Data.List.Nodup

/-!
# Writing to several writers at once (pkg/broadcaster)

`Unbuffered` has the writers that get the output of a container. `Write` writes to each of them and notes the indexes
of those that fail; then it takes these out of the slice, where each index has moved by the number of those taken out
before it. Here the n-th writer that is added has the number n, and whether a writer takes what is written to it is
part of the call. What a writer gets is what it would get alone: every text from the moment on when it is added up to
the first that it does not take, or to `Clean` (`writer_run`).
-/

namespace Moby.Broadcaster

/-! ## Taking writers out -/

section

variable {α : Type} (takes : α → Bool)

/-- The loop of `Write` over the writers: the indexes of those that fail. -/
def evict : ℕ → List α → List ℕ
  | _, [] => []
  | i, w :: ws => if !takes w then i :: evict (i + 1) ws else evict (i + 1) ws

/-- The loop over the indexes: `n` have been taken out. -/
def remove : ℕ → List ℕ → List α → List α
  | _, [], ws => ws
  | n, i :: is, ws => remove (n + 1) is (ws.take (i - n) ++ ws.drop (i - n + 1))

variable {takes}

/-- The loops agree on the index of a writer: those before it that are left, and those that have been taken out. -/
theorem remove_evict (kept ws : List α) (n : ℕ) :
    remove n (evict takes (kept.length + n) ws) (kept ++ ws) = kept ++ ws.filter takes := by
  induction ws generalizing kept n with
  | nil => simp [evict, remove]
  | cons w ws ih =>
    rw [evict]
    cases hw : takes w with
    | true =>
      have := ih (kept ++ [w]) n
      rw [List.length_append, List.length_singleton, Nat.add_right_comm, List.append_assoc, List.singleton_append] at this
      simpa [hw] using this
    | false =>
      have hdrop : (kept ++ w :: ws).take kept.length ++ (kept ++ w :: ws).drop (kept.length + 1) = kept ++ ws := by
        rw [List.take_left, List.drop_append]
        simp
      have := ih kept (n + 1)
      simp only [Bool.not_false, if_true, remove, Nat.add_sub_cancel, hdrop]
      rw [Nat.add_assoc, this, List.filter_cons_of_neg (by simp [hw])]

end

/-! ## The writers -/

/-- `Unbuffered`, with what its writers have got. -/
structure Unbuffered where
  writers : List ℕ := []
  /-- How many have been added. -/
  next : ℕ := 0
  got : ℕ → List (List UInt8) := fun _ => []
  closes : ℕ → ℕ := fun _ => 0

/-- A call, under the lock. -/
inductive Call
  | add
  /-- The texts that a writer takes are written in full and without an error. -/
  | write (p : List UInt8) (takes : ℕ → Bool)
  | clean

namespace Unbuffered

def exec (s : Unbuffered) : Call → Unbuffered
  | .add => { s with writers := s.writers ++ [s.next], next := s.next + 1 }
  | .write p takes =>
    { s with
      writers := remove 0 (evict takes 0 s.writers) s.writers
      got := s.writers.foldl (fun got w => Function.update got w (got w ++ [p])) s.got }
  | .clean =>
    { s with
      writers := []
      closes := s.writers.foldl (fun closes w => Function.update closes w (closes w + 1)) s.closes }

def run (calls : List Call) : Unbuffered := calls.foldl exec {}

end Unbuffered

/-! ## One writer alone -/

/-- A writer without any others. -/
structure Writer where
  /-- How many writers have been added. -/
  next : ℕ := 0
  present : Bool := false
  got : List (List UInt8) := []
  closes : ℕ := 0
  deriving DecidableEq

namespace Writer

/-- What a call does to the writer with the number `w`. -/
def exec (w : ℕ) (s : Writer) : Call → Writer
  | .add => { s with next := s.next + 1, present := s.present || s.next = w }
  | .write p takes => if s.present then { s with got := s.got ++ [p], present := takes w } else s
  | .clean => if s.present then { s with present := false, closes := s.closes + 1 } else s

def run (w : ℕ) (calls : List Call) : Writer := calls.foldl (exec w) {}

end Writer

namespace Unbuffered

/-- Each writer is in the slice once. -/
structure Inv (s : Unbuffered) : Prop where
  nodup : s.writers.Nodup
  lt : ∀ w ∈ s.writers, w < s.next

/-- What can be seen of one writer. -/
def view (s : Unbuffered) (w : ℕ) : Writer :=
  { next := s.next, present := decide (w ∈ s.writers), got := s.got w, closes := s.closes w }

theorem foldl_update {β : Type} {ws : List ℕ} (hws : ws.Nodup) (f : β → β) (g : ℕ → β) (w : ℕ) :
    ws.foldl (fun g w => Function.update g w (f (g w))) g w = if w ∈ ws then f (g w) else g w := by
  induction ws generalizing g with
  | nil => rfl
  | cons v ws ih =>
    rw [List.nodup_cons] at hws
    rw [List.foldl_cons, ih hws.2]
    by_cases hw : w = v
    · subst hw
      simp [hws.1]
    · simp [hw]

theorem writers_write (s : Unbuffered) (p : List UInt8) (takes : ℕ → Bool) :
    (s.exec (.write p takes)).writers = s.writers.filter takes := remove_evict [] s.writers 0

theorem Inv.exec {s : Unbuffered} (hs : s.Inv) (call : Call) : (s.exec call).Inv := by
  cases call with
  | add =>
    have hnext : s.next ∉ s.writers := fun h => Nat.lt_irrefl _ (hs.lt _ h)
    refine ⟨hs.nodup.append (List.nodup_singleton _) (by simpa using hnext), fun w hw => ?_⟩
    rcases List.mem_append.mp hw with hw | hw
    · exact Nat.lt_succ_of_lt (hs.lt w hw)
    · exact (List.mem_singleton.mp hw) ▸ Nat.lt_succ_self _
  | write p takes =>
    constructor
    · rw [writers_write]
      exact hs.nodup.filter _
    · rw [writers_write]
      exact fun w hw => hs.lt w (List.mem_of_mem_filter hw)
  | clean => exact ⟨List.nodup_nil, by simp [Unbuffered.exec]⟩

theorem Inv.view_exec {s : Unbuffered} (hs : s.Inv) (call : Call) (w : ℕ) : (s.exec call).view w = (s.view w).exec w call := by
  cases call with
  | add => simp [Unbuffered.exec, view, Writer.exec, eq_comm]
  | write p takes =>
    have hgot : (s.exec (.write p takes)).got w = if w ∈ s.writers then s.got w ++ [p] else s.got w :=
      foldl_update hs.nodup (· ++ [p]) s.got w
    rw [view, hgot, writers_write, Writer.exec]
    by_cases hw : w ∈ s.writers
    · simp [view, hw, Unbuffered.exec]
    · simp [view, hw, Unbuffered.exec]
  | clean =>
    have hcloses : (s.exec .clean).closes w = if w ∈ s.writers then s.closes w + 1 else s.closes w :=
      foldl_update hs.nodup (· + 1) s.closes w
    rw [view, hcloses, Writer.exec]
    by_cases hw : w ∈ s.writers
    · simp [view, hw, Unbuffered.exec]
    · simp [view, hw, Unbuffered.exec]

/-- What a writer gets is what it gets alone, whatever writers there are and whichever of them fail. -/
theorem writer_run (calls : List Call) (w : ℕ) : (run calls).view w = Writer.run w calls := by
  suffices h : (run calls).Inv ∧ (run calls).view w = Writer.run w calls from h.2
  induction calls using List.reverseRecOn with
  | nil => exact ⟨⟨List.nodup_nil, by simp [run]⟩, by simp [run, view, Writer.run]⟩
  | append_singleton calls call ih =>
    rw [run, Writer.run, List.foldl_append, List.foldl_append]
    exact ⟨ih.1.exec call, (ih.1.view_exec call w).trans (congrArg (Writer.exec w · call) ih.2)⟩

end Unbuffered

end Moby.Broadcaster
