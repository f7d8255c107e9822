import Mathlib.Data.Fintype.Basic
import Mathlib.Data.Int.Notation
import Mathlib.Data.List.Induction
import Mathlib.Data.List.Nodup
import Mathlib.Data.List.TakeWhile
import Mathlib.Logic.Function.Basic
import Mathlib.Order.Defs.LinearOrder
import Moby.Framework.Machine

/-!
# Events (daemon/events, pkg/pubsub)

`Log` appends an event to a buffer under the lock of the `Events`, and then publishes it
under the read lock of the publisher to the subscribers there are. `SubscribeTopic` reads
the buffer and adds a subscriber to the publisher, under both locks in turn.

`loadBufferedEvents` goes through the buffer from its end and stops at the first event that
is older than what is asked for. `Log` looks at the time before it takes the lock, so that
the buffer need not be in the order of the times (`loadBufferedEvents_ok`).
-/

namespace Moby.Events

open Moby.Framework

/-- An event: its time and what else is in the message. -/
structure Event (α : Type) where
  timeNano : ℤ
  message : α
  deriving DecidableEq

/-- `UnixNano` of a time, given by the nanoseconds since 1970: an `int64`. -/
def unixNano (t : ℤ) : ℤ := t.bmod 18446744073709551616

/-- What `SubscribeTopic` is called with, where a time that is zero is `none`, and a
filter that is empty lets everything pass. -/
structure Query (α : Type) where
  since : Option ℤ
  ending : Option ℤ
  topic : Option (ℤ → α → Bool)

variable {α : Type}

def eventsLimit : ℕ := 64

namespace Query

def sinceNanoUnix (q : Query α) : ℤ := q.since.elim 0 unixNano

def untilNanoUnix (q : Query α) : ℤ := q.ending.elim 0 unixNano

def includes (q : Query α) (ev : Event α) : Bool :=
  match q.topic with
  | none => true
  | some topic => topic ev.timeNano ev.message

/-- A time range has been asked for, and the event is in it. -/
def inRange (q : Query α) (ev : Event α) : Bool :=
  (q.since.isSome || q.ending.isSome) && q.since.all (· ≤ ev.timeNano) && q.ending.all (ev.timeNano ≤ ·)

/-- The loop of `loadBufferedEvents`, from the last event on. -/
def load (q : Query α) : List (Event α) → List (Event α) → List (Event α)
  | [], buffered => buffered
  | ev :: evs, buffered =>
    if ev.timeNano < q.sinceNanoUnix then buffered
    else if q.untilNanoUnix > 0 ∧ ev.timeNano > q.untilNanoUnix then load q evs buffered
    else if q.includes ev then load q evs (ev :: buffered)
    else load q evs buffered

def loadBufferedEvents (q : Query α) (events : List (Event α)) : List (Event α) :=
  if q.since.isNone ∧ q.ending.isNone then [] else q.load events.reverse []

end Query

/-! ## Logs and subscribers -/

/-- A subscriber: what it has asked for, what has been returned to it and what it has
received. -/
structure Subscriber (α : Type) where
  query : Query α
  buffered : List (Event α)
  received : List (Event α)

/-- Where a call is. -/
inductive Point (α : Type)
  | idle
  /-- `Log` has looked at the time. -/
  | stamped (ev : Event α)
  /-- The event is in the buffer. -/
  | appended (ev : Event α)
  /-- `Publish` has the read lock, and has still to send to these subscribers. -/
  | sending (ev : Event α) (subs : List ℕ)
  | subscribing (q : Query α)
  /-- `SubscribeTopic` has the lock of the events and has read the buffer. -/
  | registering (q : Query α) (buffered : List (Event α))
  /-- The subscriber has been added. -/
  | leaving

variable {ι : Type}

structure State (ι α : Type) where
  mu : Option ι
  /-- Who has the read lock of the publisher. -/
  readers : List ι
  events : List (Event α)
  subscribers : List (Subscriber α)
  point : ι → Point α

inductive Action (ι α : Type)
  /-- `Log` is called at the time `now`. -/
  | log (t : ι) (now : ℤ) (message : α)
  | append (t : ι)
  | publish (t : ι)
  | send (t : ι) (k : ℕ)
  | published (t : ι)
  | subscribe (t : ι) (q : Query α)
  | read (t : ι)
  | register (t : ι)
  | unlock (t : ι)

/-- The oldest event goes if there is no room. -/
def push (events : List (Event α)) (ev : Event α) : List (Event α) :=
  if events.length = eventsLimit then events.tail ++ [ev] else events ++ [ev]

def Subscriber.send (sub : Subscriber α) (ev : Event α) : Subscriber α :=
  if sub.query.includes ev then { sub with received := sub.received ++ [ev] } else sub

namespace State

def init : State ι α :=
  { mu := none, readers := [], events := [], subscribers := [], point := fun _ => .idle }

variable [DecidableEq ι]

def move (s : State ι α) (t : ι) (p : Point α) : State ι α := { s with point := Function.update s.point t p }

def exec (s : State ι α) : Action ι α → Option (State ι α)
  | .log t now message =>
    match s.point t with
    | .idle => some (s.move t (.stamped { timeNano := unixNano now, message }))
    | _ => none
  | .append t =>
    match s.point t with
    | .stamped ev => if s.mu = none then some { s.move t (.appended ev) with events := push s.events ev } else none
    | _ => none
  | .publish t =>
    match s.point t with
    | .appended ev =>
      if s.subscribers = [] then some (s.move t .idle)
      else some { s.move t (.sending ev (List.range s.subscribers.length)) with readers := t :: s.readers }
    | _ => none
  | .send t k =>
    match s.point t with
    | .sending ev subs =>
      if k ∈ subs then
        some { s.move t (.sending ev (subs.erase k)) with subscribers := s.subscribers.modify k (·.send ev) }
      else none
    | _ => none
  | .published t =>
    match s.point t with
    | .sending _ [] => some { s.move t .idle with readers := s.readers.erase t }
    | _ => none
  | .subscribe t q =>
    match s.point t with
    | .idle => some (s.move t (.subscribing q))
    | _ => none
  | .read t =>
    match s.point t with
    | .subscribing q =>
      if s.mu = none then some { s.move t (.registering q (q.loadBufferedEvents s.events)) with mu := some t } else none
    | _ => none
  | .register t =>
    match s.point t with
    | .registering q buffered =>
      if s.readers = [] then
        some { s.move t .leaving with subscribers := s.subscribers ++ [⟨q, buffered, []⟩] }
      else none
    | _ => none
  | .unlock t =>
    match s.point t with
    | .leaving => some { s.move t .idle with mu := none }
    | _ => none

end State

theorem mem_push {events : List (Event α)} {ev ev' : Event α} (h : ev' ∈ push events ev) : ev' ∈ events ∨ ev' = ev := by
  unfold push at h
  split at h
  · rcases List.mem_append.mp h with h | h
    · exact .inl (List.mem_of_mem_tail h)
    · exact .inr (List.mem_singleton.mp h)
  · rcases List.mem_append.mp h with h | h
    · exact .inl h
    · exact .inr (List.mem_singleton.mp h)

/-! ## The events of the buffer -/

namespace Query

/-- The event is in the time range that is asked for and matches the topic. -/
def wanted (q : Query α) (ev : Event α) : Bool := q.inRange ev && q.includes ev

/-- Of the events that match the topic, those are in the range that is asked for from which on no
event is before `since`, and that are not after `until`, unless that is not after 1970; both times
as they are in nanoseconds of an `int64`. -/
def Undisturbed (q : Query α) (events : List (Event α)) : Prop :=
  ∀ ev post, ev :: post <:+ events → q.includes ev = true →
    (q.inRange ev = true ↔ (∀ x ∈ ev :: post, q.sinceNanoUnix ≤ x.timeNano) ∧
      (0 < q.untilNanoUnix → ev.timeNano ≤ q.untilNanoUnix))

variable {q : Query α} {events : List (Event α)} {last : Event α}

/-- The loop shows no event that is after `until` or does not match the topic. -/
theorem load_append (q : Query α) (events buffered : List (Event α)) :
    ∃ shown, q.load events buffered = shown ++ buffered ∧
      ∀ ev ∈ shown, q.includes ev = true ∧ (0 < q.untilNanoUnix → ev.timeNano ≤ q.untilNanoUnix) := by
  induction events generalizing buffered with
  | nil => exact ⟨[], rfl, by simp⟩
  | cons ev evs ih =>
    rw [load]
    split_ifs with hold hlate hincl
    · exact ⟨[], rfl, by simp⟩
    · exact ih buffered
    · obtain ⟨shown, heq, hall⟩ := ih (ev :: buffered)
      refine ⟨shown ++ [ev], by rw [heq, List.append_assoc, List.singleton_append], fun x hx => ?_⟩
      rcases List.mem_append.mp hx with hx | hx
      · exact hall x hx
      · rw [List.mem_singleton.mp hx]
        exact ⟨hincl, fun hpos => Int.not_lt.mp fun hlt => hlate ⟨hpos, hlt⟩⟩
    · exact ih buffered

theorem suffix_concat {ev : Event α} {post : List (Event α)} :
    ev :: post <:+ events ++ [last] ↔
      (ev = last ∧ post = []) ∨ ∃ post', post = post' ++ [last] ∧ ev :: post' <:+ events := by
  constructor
  · rintro ⟨pre, h⟩
    rcases List.eq_nil_or_concat post with rfl | ⟨post', x, rfl⟩
    · have hlast := List.append_inj_right' h rfl
      exact .inl ⟨List.singleton_inj.mp hlast, rfl⟩
    · rw [List.concat_eq_append, ← List.cons_append, ← List.append_assoc] at h
      have hx := List.append_inj_right' h rfl
      exact .inr ⟨post', by rw [List.concat_eq_append, List.singleton_inj.mp hx], pre, List.append_inj_left' h rfl⟩
  · rintro (⟨rfl, rfl⟩ | ⟨post', rfl, pre, rfl⟩)
    · exact List.suffix_append _ _
    · exact ⟨pre, by simp⟩

theorem wanted_iff {ev : Event α} : q.wanted ev = true ↔ q.inRange ev = true ∧ q.includes ev = true :=
  Bool.and_eq_true_iff

/-- The loop stops at the last event, and shows none. -/
theorem undisturbed_concat_old (hold : last.timeNano < q.sinceNanoUnix) :
    q.Undisturbed (events ++ [last]) ↔ ∀ ev ∈ events ++ [last], ¬ q.wanted ev = true := by
  have hlast : ∀ ev post, ev :: post <:+ events ++ [last] → ¬ ∀ x ∈ ev :: post, q.sinceNanoUnix ≤ x.timeNano := by
    intro ev post h hall
    have hmem : last ∈ ev :: post := by
      rcases suffix_concat.mp h with ⟨rfl, -⟩ | ⟨post', rfl, -⟩
      · exact List.mem_cons_self
      · simp
    exact absurd (hall last hmem) (Int.not_le.mpr hold)
  constructor
  · intro h ev hev hw
    obtain ⟨pre, post, heq⟩ := List.append_of_mem hev
    have hsuf : ev :: post <:+ events ++ [last] := ⟨pre, heq.symm⟩
    obtain ⟨hrange, hincl⟩ := wanted_iff.mp hw
    exact hlast ev post hsuf ((h ev post hsuf hincl).mp hrange).1
  · intro h ev post hsuf hincl
    refine ⟨fun hrange => ?_, fun hall => absurd hall.1 (hlast ev post hsuf)⟩
    exact absurd (wanted_iff.mpr ⟨hrange, hincl⟩) (h ev (hsuf.subset List.mem_cons_self))

theorem undisturbed_concat (hnew : ¬ last.timeNano < q.sinceNanoUnix) :
    q.Undisturbed (events ++ [last]) ↔ q.Undisturbed events ∧
      (q.includes last = true → (q.inRange last = true ↔ (0 < q.untilNanoUnix → last.timeNano ≤ q.untilNanoUnix))) := by
  have hlast : q.sinceNanoUnix ≤ last.timeNano := Int.not_lt.mp hnew
  constructor
  · intro h
    refine ⟨fun ev post hsuf hincl => ?_, fun hincl => ?_⟩
    · rw [h ev (post ++ [last]) (suffix_concat.mpr (.inr ⟨post, rfl, hsuf⟩)) hincl, ← List.cons_append]
      simp [or_imp, forall_and, hlast]
    · rw [h last [] (suffix_concat.mpr (.inl ⟨rfl, rfl⟩)) hincl]
      simp [hlast]
  · rintro ⟨h, hend⟩ ev post hsuf hincl
    rcases suffix_concat.mp hsuf with ⟨rfl, rfl⟩ | ⟨post', rfl, hsuf'⟩
    · rw [hend hincl]
      simp [hlast]
    · rw [h ev post' hsuf' hincl, ← List.cons_append]
      simp [or_imp, forall_and, hlast]

theorem load_eq_iff (buffered : List (Event α)) :
    q.load events.reverse buffered = events.filter q.wanted ++ buffered ↔ q.Undisturbed events := by
  -- The loop starts with the last event.
  induction events using List.reverseRecOn generalizing buffered with
  | nil => exact ⟨fun _ ev post h => absurd h.length_le (by simp), fun _ => rfl⟩
  | append_singleton events last ih =>
    rw [List.reverse_append, List.reverse_singleton, List.singleton_append, load]
    by_cases hold : last.timeNano < q.sinceNanoUnix
    · rw [if_pos hold, undisturbed_concat_old hold, List.self_eq_append_left, List.filter_eq_nil_iff]
    rw [if_neg hold, undisturbed_concat hold, List.filter_append, List.filter_singleton, List.append_assoc]
    by_cases hincl : q.includes last = true
    · have hwanted : q.wanted last = q.inRange last := by rw [wanted, hincl, Bool.and_true]
      rw [hwanted]
      by_cases hlate : q.untilNanoUnix > 0 ∧ last.timeNano > q.untilNanoUnix
      · rw [if_pos hlate]
        have hnot : ¬ (0 < q.untilNanoUnix → last.timeNano ≤ q.untilNanoUnix) :=
          fun h => absurd (h hlate.1) (Int.not_le.mpr hlate.2)
        cases hrange : q.inRange last with
        | false => simpa [hincl, hnot] using ih buffered
        | true =>
          -- The event is wanted, and the loop has left it out.
          refine ⟨fun heq => ?_, fun h => absurd ((h.2 hincl).mp rfl) hnot⟩
          obtain ⟨shown, happ, hall⟩ := q.load_append events.reverse buffered
          rw [happ, ← List.append_assoc, List.append_cancel_right_eq] at heq
          exact absurd (hall last (by rw [heq]; simp)).2 hnot
      · rw [if_neg hlate, if_pos hincl]
        have hin : 0 < q.untilNanoUnix → last.timeNano ≤ q.untilNanoUnix :=
          fun hpos => Int.not_lt.mp fun hlt => hlate ⟨hpos, hlt⟩
        cases hrange : q.inRange last with
        | true => simpa [hincl, eq_true hin] using ih (last :: buffered)
        | false =>
          -- The event is shown, and not wanted.
          refine ⟨fun heq => ?_, fun h => absurd ((h.2 hincl).mpr hin) (by simp)⟩
          obtain ⟨shown, happ, -⟩ := q.load_append events.reverse (last :: buffered)
          rw [happ, ← List.singleton_append, ← List.append_assoc] at heq
          have hmem : last ∈ events.filter q.wanted := by
            have h := List.append_cancel_right (heq.trans (by simp : _ = events.filter q.wanted ++ buffered))
            rw [← h]; simp
          rw [List.mem_filter, hwanted, hrange] at hmem
          exact absurd hmem.2 (by simp)
    · have hwanted : q.wanted last = false := by rw [wanted, Bool.eq_false_iff.mpr hincl, Bool.and_false]
      rw [if_neg hincl, ite_self, hwanted]
      simpa [hincl] using ih buffered

theorem loadBufferedEvents_eq_iff (hasked : q.since.isSome ∨ q.ending.isSome) :
    q.loadBufferedEvents events = events.filter q.wanted ↔ q.Undisturbed events := by
  have hsome : ¬ (q.since.isNone ∧ q.ending.isNone) := by
    rcases hasked with h | h <;> simp [Option.isNone_iff_eq_none, Option.isSome_iff_ne_none.mp h]
  rw [loadBufferedEvents, if_neg hsome, ← load_eq_iff [], List.append_nil]

/-- The times are such that `UnixNano` is exact, and `until` is after 1970. -/
structure Exact (q : Query α) : Prop where
  since : ∀ t ∈ q.since, unixNano t = t
  ending : ∀ u ∈ q.ending, unixNano u = u ∧ 0 < u

theorem Exact.inRange_iff (h : q.Exact) (hasked : q.since.isSome ∨ q.ending.isSome) {ev : Event α}
    (hpos : 0 ≤ ev.timeNano) :
    q.inRange ev = true ↔ q.sinceNanoUnix ≤ ev.timeNano ∧ (0 < q.untilNanoUnix → ev.timeNano ≤ q.untilNanoUnix) := by
  have hrange : (q.since.isSome || q.ending.isSome) = true := by simpa using hasked
  have hsince : q.since.all (· ≤ ev.timeNano) = true ↔ q.sinceNanoUnix ≤ ev.timeNano := by
    rw [sinceNanoUnix]
    cases hs : q.since with
    | none => simpa using hpos
    | some t => simp [h.since t hs]
  have huntil : q.ending.all (ev.timeNano ≤ ·) = true ↔ (0 < q.untilNanoUnix → ev.timeNano ≤ q.untilNanoUnix) := by
    rw [untilNanoUnix]
    cases hu : q.ending with
    | none => simp
    | some u => simp [(h.ending u hu).1, (h.ending u hu).2]
  rw [inRange, hrange, Bool.true_and, Bool.and_eq_true, hsince, huntil]

/-- A buffer in the order of the times. -/
theorem undisturbed_of_sorted (h : q.Exact) (hasked : q.since.isSome ∨ q.ending.isSome)
    (hsorted : events.Pairwise fun x y => x.timeNano ≤ y.timeNano) (hpos : ∀ ev ∈ events, 0 ≤ ev.timeNano) :
    q.Undisturbed events := by
  intro ev post hsuf _
  rw [h.inRange_iff hasked (hpos ev (hsuf.subset List.mem_cons_self))]
  refine and_congr_left fun _ => ⟨fun hle x hx => ?_, fun hall => hall ev List.mem_cons_self⟩
  rcases List.mem_cons.mp hx with rfl | hx
  · exact hle
  · exact hle.trans (List.rel_of_pairwise_cons (hsorted.sublist hsuf.sublist) hx)

end Query

/-! ## Interleavings -/

/-- No event of the buffer is newer than the one that is to be appended. -/
def Point.Follows (events : List (Event α)) : Point α → Prop
  | .stamped ev => ∀ x ∈ events, x.timeNano ≤ ev.timeNano
  | _ => True

instance (events : List (Event α)) (p : Point α) : Decidable (p.Follows events) :=
  match p with
  | .stamped ev => inferInstanceAs (Decidable (∀ x ∈ events, x.timeNano ≤ ev.timeNano))
  | .idle => .isTrue trivial
  | .appended _ => .isTrue trivial
  | .sending _ _ => .isTrue trivial
  | .subscribing _ => .isTrue trivial
  | .registering _ _ => .isTrue trivial
  | .leaving => .isTrue trivial

namespace State

/-- The events are appended in the order of their times, which are not before 1970. -/
def InOrder (s : State ι α) : Action ι α → Prop
  | .log _ now _ => 0 ≤ unixNano now
  | .append t => (s.point t).Follows s.events
  | _ => True

instance (s : State ι α) (a : Action ι α) : Decidable (s.InOrder a) :=
  match a with
  | .log _ now _ => inferInstanceAs (Decidable (0 ≤ unixNano now))
  | .append t => inferInstanceAs (Decidable ((s.point t).Follows s.events))
  | .publish _ => .isTrue trivial
  | .send _ _ => .isTrue trivial
  | .published _ => .isTrue trivial
  | .subscribe _ _ => .isTrue trivial
  | .read _ => .isTrue trivial
  | .register _ => .isTrue trivial
  | .unlock _ => .isTrue trivial

structure Sorted (s : State ι α) : Prop where
  sorted : s.events.Pairwise fun x y => x.timeNano ≤ y.timeNano
  buffered : ∀ ev ∈ s.events, 0 ≤ ev.timeNano
  stamped : ∀ t ev, s.point t = .stamped ev → 0 ≤ ev.timeNano

variable [DecidableEq ι] {s s' : State ι α} {t : ι}

/-- The call `t` goes on, and no other event is stamped. -/
theorem Sorted.move (h : s.Sorted) {p : Point α} (hp : ∀ ev, p = .stamped ev → 0 ≤ ev.timeNano) (u : ι) (ev : Event α)
    (hu : (s.move t p).point u = .stamped ev) : 0 ≤ ev.timeNano := by
  have hpoint : (s.move t p).point = Function.update s.point t p := rfl
  rw [hpoint] at hu
  by_cases hut : u = t
  · rw [hut, Function.update_self] at hu
    exact hp ev hu
  · rw [Function.update_of_ne hut] at hu
    exact h.stamped u ev hu

theorem Sorted.push {events : List (Event α)} {ev : Event α} (h : events.Pairwise fun x y => x.timeNano ≤ y.timeNano)
    (hle : ∀ x ∈ events, x.timeNano ≤ ev.timeNano) : (push events ev).Pairwise fun x y => x.timeNano ≤ y.timeNano := by
  have hall {l : List (Event α)} (hsub : l.Sublist events) : (l ++ [ev]).Pairwise fun x y => x.timeNano ≤ y.timeNano := by
    refine List.pairwise_append.mpr ⟨h.sublist hsub, List.pairwise_singleton _ _, fun x hx y hy => ?_⟩
    exact List.mem_singleton.mp hy ▸ hle x (hsub.subset hx)
  rw [Events.push]
  split
  · exact hall (List.tail_sublist events)
  · exact hall (List.Sublist.refl events)

theorem Sorted.exec {a : Action ι α} (h : s.Sorted) (hg : s.InOrder a) (he : s.exec a = some s') : s'.Sorted := by
  cases a with
  | log t now message =>
    simp only [State.exec] at he
    split at he
    · cases he
      refine ⟨h.sorted, h.buffered, h.move fun ev hev => ?_⟩
      cases hev
      exact hg
    · cases he
  | append t =>
    simp only [State.exec] at he
    split at he
    · rename_i ev hp
      rw [Option.ite_none_right_eq_some] at he
      cases he.2
      rw [InOrder, hp] at hg
      refine ⟨Sorted.push h.sorted hg, fun x hx => ?_, h.move (by simp)⟩
      rcases mem_push hx with hx | rfl
      · exact h.buffered x hx
      · exact h.stamped t _ hp
    · cases he
  | publish t | send t k | published t | subscribe t q | read t | register t | unlock t =>
    -- These do not change the buffer.
    simp only [State.exec] at he
    split at he
    · try split at he
      all_goals
        cases he
        try exact ⟨h.sorted, h.buffered, h.move (by simp)⟩
    · cases he

/-- What is returned is what is wanted if and only if the buffer is undisturbed for what is asked,
and with times that are exact it is in every interleaving in which the events are appended in the
order of their times. -/
theorem loadBufferedEvents_ok {q : Query α} (hasked : q.since.isSome ∨ q.ending.isSome) (s : State ι α) :
    (q.loadBufferedEvents s.events = s.events.filter q.wanted ↔ q.Undisturbed s.events) ∧
      (q.Exact → ReachesIf exec InOrder init s → q.loadBufferedEvents s.events = s.events.filter q.wanted) := by
  have hiff : q.loadBufferedEvents s.events = s.events.filter q.wanted ↔ q.Undisturbed s.events :=
    q.loadBufferedEvents_eq_iff hasked
  refine ⟨hiff, fun hexact h => hiff.mpr ?_⟩
  have hinit : (init : State ι α).Sorted := ⟨.nil, by simp [init], by simp [init]⟩
  have hs : s.Sorted := h.inv hinit fun _ _ _ _ hs hg he => hs.exec hg he
  exact Query.undisturbed_of_sorted hexact hasked hs.sorted hs.buffered

/-- Two events that are appended in their order, and the second one is asked for. -/
theorem loadBufferedEvents_ok_two : ∃ s : State (Fin 2) ℕ, ReachesIf exec InOrder init s ∧
    s.events.map Event.message = [7, 8] ∧
    (Query.loadBufferedEvents { since := some 20, ending := some 30, topic := none } s.events).map Event.message = [8] ∧
    Query.loadBufferedEvents { since := some 20, ending := some 30, topic := none } s.events =
      s.events.filter (Query.wanted { since := some 20, ending := some 30, topic := none }) := by
  obtain ⟨s, h, hs⟩ := ReachesIf.of_view exec InOrder (init : State (Fin 2) ℕ)
    [.log 0 10 7, .log 1 20 8, .append 0, .append 1]
    (fun s => (s.events.map Event.message,
      (Query.loadBufferedEvents { since := some 20, ending := some 30, topic := none } s.events).map Event.message))
    (b := ([7, 8], [8])) (by decide +kernel)
  have hexact : Query.Exact ({ since := some 20, ending := some 30, topic := none } : Query ℕ) :=
    ⟨by simp [unixNano], by simp [unixNano]⟩
  simp only [Prod.mk.injEq] at hs
  exact ⟨s, h, hs.1, hs.2, (loadBufferedEvents_ok (.inl rfl) s).2 hexact h⟩

/-- The event that has looked at the time first is appended last, and hides the other one. -/
theorem loadBufferedEvents_hides : ∃ s : State (Fin 2) ℕ, Reaches exec init s ∧
    s.events.map (fun ev => (ev.timeNano, ev.message)) = [(20, 8), (10, 7)] ∧
    (Query.loadBufferedEvents { since := some 20, ending := none, topic := none } s.events).length = 0 ∧
    (s.events.filter (Query.wanted { since := some 20, ending := none, topic := none })).map Event.message = [8] := by
  obtain ⟨s, h, hs⟩ := ReachesIf.of_view exec (fun _ _ => True) (init : State (Fin 2) ℕ)
    [.log 0 10 7, .log 1 20 8, .append 1, .append 0]
    (fun s => decide (s.events.map (fun ev => (ev.timeNano, ev.message)) = [(20, 8), (10, 7)] ∧
      (Query.loadBufferedEvents { since := some 20, ending := none, topic := none } s.events).length = 0 ∧
      (s.events.filter (Query.wanted { since := some 20, ending := none, topic := none })).map Event.message = [8]))
    (b := true) (by decide +kernel)
  exact ⟨s, h, of_decide_eq_true hs⟩

end State

end Moby.Events
