import Equijoin.Proofs.Tasks.Progress
import Equijoin.Run

/-! # Reports of tasks side by side

The tasks of a stage report in turn. What is about a task, it has reported itself; and what all have
reported is what each of them has, one report after another.

* `Event.shard?`, `Event.dataset?`: the task that a report is about, if it says so.
* `Woven`: reports of several tasks, each of which has reported its own trace in order.
* `Event.waited`, `waitReport`: the report on what a shard has waited; it does not name the shard.
-/

set_option autoImplicit false

namespace Equijoin

/-- The shard that an event is about. -/
def Event.shard? : Event → Option Nat
  | shardStarted shard => some shard
  | shardFinished shard _ => some shard
  | _ => none

/-- The dataset that an event is about that was reported while datasets were split. -/
def Event.dataset? : Event → Option Nat
  | datasetSharded dataset _ => some dataset
  | _ => none

/-- The events about one number. -/
def eventsOf (about : Event → Option Nat) (i : Nat) (events : List Event) : List Event :=
  events.filter fun e => about e == some i

/-- Tasks have reported in turn: each its trace, in order, and nothing that is about another. -/
inductive Woven (about : Event → Option Nat) (count : Nat) :
    (Nat → List Event) → List Event → Prop
  | nil : Woven about count (fun _ => []) []
  | report {trace : Nat → List Event} {events : List Event} {i : Nat} {e : Event}
    (h : Woven about count trace events) (hi : i < count) (he : ∀ j, about e = some j → j = i) :
    Woven about count (Function.update trace i (trace i ++ [e])) (events ++ [e])

section Woven

variable {about : Event → Option Nat} {count i : Nat} {trace : Nat → List Event}
  {events more : List Event}

theorem eventsOf_append (about : Event → Option Nat) (i : Nat) (events more : List Event) :
    eventsOf about i (events ++ more) = eventsOf about i events ++ eventsOf about i more :=
  List.filter_append events more

theorem woven_nil (h : ∀ i, trace i = []) : Woven about count trace [] := by
  obtain rfl : trace = fun _ => [] := funext h
  exact .nil

theorem Woven.append (h : Woven about count trace events) (hi : i < count)
    (hmore : ∀ e ∈ more, ∀ j, about e = some j → j = i) :
    Woven about count (Function.update trace i (trace i ++ more)) (events ++ more) := by
  induction more generalizing trace events with
  | nil => simpa using h
  | cons e rest ih =>
    have hrest := ih (h.report hi (hmore e (by simp))) fun e' he' => hmore e' (by simp [he'])
    simpa using hrest

/-- What is about a task is in its own trace. -/
theorem Woven.own (h : Woven about count trace events) (i : Nat) :
    eventsOf about i events = eventsOf about i (trace i) := by
  induction h with
  | nil => rfl
  | @report trace events j e _ _ he ih =>
    rw [eventsOf_append, ih]
    by_cases hij : i = j
    · subst hij
      rw [Function.update_self, eventsOf_append]
    · have hnot : eventsOf about i [e] = [] := by
        rw [eventsOf, List.filter_eq_nil_iff]
        intro e' he'
        rw [List.mem_singleton.1 he', beq_iff_eq]
        exact fun h => hij (he i h)
      rw [Function.update_of_ne hij, hnot, List.append_nil]

theorem Woven.mem (h : Woven about count trace events) {e : Event} (he : e ∈ events) :
    ∃ i, i < count ∧ e ∈ trace i := by
  induction h with
  | nil => simp at he
  | @report trace events j e' _ hj _ ih =>
    obtain he | he := List.mem_append.1 he
    · obtain ⟨i, hi, hmem⟩ := ih he
      refine ⟨i, hi, ?_⟩
      by_cases hij : i = j
      · subst hij
        simp [hmem]
      · rwa [Function.update_of_ne hij]
    · exact ⟨j, hj, by rw [Function.update_self]; exact List.mem_append_right _ he⟩

/-- A quantity of events is the sum of what it is in the traces. -/
theorem Woven.sum (h : Woven about count trace events) (quantity : Event → Nat) :
    (events.map quantity).sum = tally count (fun es => (es.map quantity).sum) trace := by
  induction h with
  | nil => exact (tally_eq_zero fun _ _ => rfl).symm
  | @report trace events i e _ hi _ ih =>
    have hsum := tally_update (fun es => (es.map quantity).sum) trace (trace i ++ [e]) hi
    simp only [List.map_append, List.sum_append] at hsum ⊢
    omega

end Woven

/-! ## Waits -/

/-- The nanoseconds of a wait that is reported, as far as a word can hold them. -/
def Event.waited : Event → Nat
  | throttled wait => wait.word.toNat
  | _ => 0

/-- The report on a wait, if there was any. -/
def waitReport (wait : Duration) : List Event :=
  if wait = .zero then [] else [.throttled wait]

theorem waited_waitReport (wait : Duration) :
    ((waitReport wait).map Event.waited).sum = wait.word.toNat := by
  unfold waitReport
  split
  · rename_i hzero
    rw [hzero]
    rfl
  · simp [Event.waited]

theorem shard?_waitReport {wait : Duration} {e : Event} (he : e ∈ waitReport wait) :
    e = .throttled wait := by
  unfold waitReport at he
  split at he
  · simp at he
  · exact List.mem_singleton.1 he

end Equijoin
