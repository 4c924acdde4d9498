import Equijoin.Proofs.Runs.Course
import Equijoin.Proofs.Runs.Refinement

/-! # Shards that are joined at a time

A shard is joined while its task holds a permit, and every permit comes back.

* `Pool.held`: the permits that the tasks of a pool hold.
* `Pool.Returned`: all tasks of a pool have a result.
* `held_eq`: a task holds the permits that its progress says.
* `joining_permits`: permits and counters in every state that the tasks of a run can reach.
-/

set_option autoImplicit false

namespace Equijoin

variable {job : Job} {options : Options} {schedules : Schedules} {s u : Session} {α : Type}

/-! ## Permits that are held -/

/-- The permits that a task holds: those that it gives back if it goes on while none is free. -/
def Member.held (raised : Bool) (s : Session) : Member Session α → Nat
  | .running task => (task.finish raised { s with permits := 0 }).2.permits
  | .ended _ => 0

def Pool.held (p : Pool Session α) : Nat :=
  (p.members.map (Member.held p.raised p.state)).sum

/-- All tasks have a result, observed or not. -/
def Pool.Returned (p : Pool Session α) : Prop :=
  ∀ m ∈ p.members, (m.returned?).isSome

namespace JoinProgress

variable {r : Outcome Part} {a : JoinProgress}

theorem Returns.permits (h : Returns r a) : a.phase.permits = 0 := by
  cases r with
  | ok part => rw [h]; rfl
  | error fault => obtain h | h := h <;> rw [h] <;> rfl

theorem Returns.active (h : Returns r a) : a.phase.active = 0 := by
  have := a.phase.active_le_permits
  have := h.permits
  omega

theorem Returns.starts (h : Returns r a) : a.phase.starts = a.phase.ends := by
  have := a.phase.starts_eq
  have := h.active
  omega

theorem Returns.rows (h : Returns r a) : a.phase.rows = rowsOfPart r := by
  cases r with
  | ok part => rw [h]; rfl
  | error fault => obtain h | h := h <;> rw [h] <;> rfl

end JoinProgress

/-- A task that joins a shard holds the permits that its progress says. -/
theorem held_eq {waits : Nat → Duration} {shard : Nat} {a : JoinProgress}
    {m : Member Session Part} (h : m.Follows (joinProtocol waits shard) JoinProgress.Returns a)
    (raised : Bool) (s : Session) : m.held raised s = a.phase.permits := by
  cases m with
  | ended r => exact (JoinProgress.Returns.permits h).symm
  | running t =>
    have hbalanced : t.Balanced Session.permits a.phase.permits := by
      apply Task.Follows.balanced h
      · exact fun a s b s' hmove => JoinMove.permits hmove
      · rintro a s ⟨hwaiting, hfree⟩
        exact ⟨by rw [hwaiting]; rfl, hfree⟩
      · exact fun r a hr => JoinProgress.Returns.permits hr
    -- if no permit is free, it gives back what it has
    obtain ⟨-, hfree, -⟩ := hbalanced.finish raised { s with permits := 0 }
    simpa [Member.held] using hfree

section Pools

variable {waits : Nat → Duration} {count : Nat} {origin : Session}
  {progress : Nat → JoinProgress} {p p' : Pool Session Part}

/-- The tasks that join shards have come this far. -/
abbrev Joining (waits : Nat → Duration) (origin : Session) (count : Nat)
    (progress : Nat → JoinProgress) (p : Pool Session Part) : Prop :=
  p.Follows (joinProtocol waits) (fun _ => JoinProgress.Returns) count
    (JoinLedger waits origin count) progress

theorem Joining.held (h : Joining waits origin count progress p) :
    p.held = tally count (·.phase.permits) progress := by
  apply Eq.symm
  apply tally_eq_sum h.length
  intro i m hm
  exact (held_eq (h.member i m hm) p.raised p.state).symm

/-- No step takes more than one shard in or out, so the counter of active shards does not wrap. -/
theorem Joining.active_step (h : Joining waits origin count progress p)
    (hlimit : origin.permits < 2 ^ 64) {i : Nat} (hstep : p.step? i = some p') :
    p'.state.metrics.activeShards.toNat ≤ p.state.metrics.activeShards.toNat + 1 ∧
      p.state.metrics.activeShards.toNat ≤ p'.state.metrics.activeShards.toNat + 1 := by
  obtain ⟨hi, b, h'⟩ := h.step (joinLedger_keeps waits origin count) hstep
  have hexact : ∀ {progress : Nat → JoinProgress} {p : Pool Session Part},
      Joining waits origin count progress p →
        p.state.metrics.activeShards.toNat = tally count (·.phase.active) progress := by
    intro progress p h
    have hle := tally_le (fun a : JoinProgress => a.phase.active_le_permits) count progress
    have htotal := h.ledger.permits
    rw [h.ledger.active, UInt64.toNat_ofNat', Nat.mod_eq_of_lt (by omega)]
  rw [hexact h, hexact h']
  have hsum := tally_update (·.phase.active) progress b hi
  have hold := (progress i).phase.active_le_one
  have hnew := b.phase.active_le_one
  omega

/-- The permits and the counters of a pool that has come this far. -/
theorem Joining.permits (h : Joining waits origin count progress p) :
    p.state.permits + p.held = origin.permits ∧
      p.state.metrics.activeShards.toNat ≤ p.held ∧
      p.state.metrics.maxActiveShards.toNat ≤ origin.permits := by
  have htotal := h.ledger.permits
  have hactive := h.ledger.active.toNat_le
  have hle := tally_le (fun a : JoinProgress => a.phase.active_le_permits) count progress
  rw [h.held]
  exact ⟨htotal, by omega, h.ledger.peak⟩

/-- Once all tasks have returned, all permits are free and every shard that started has ended. -/
theorem Joining.returned (h : Joining waits origin count progress p) (hreturned : p.Returned) :
    p.state.permits = origin.permits ∧ p.state.metrics.activeShards = 0 ∧
      p.state.metrics.shardsStarted = p.state.metrics.shardsFinished := by
  have hresult : ∀ i, i < count → ∃ r, JoinProgress.Returns r (progress i) := by
    intro i hi
    rw [← h.length] at hi
    have hm := List.getElem?_eq_getElem hi
    obtain ⟨r, hr⟩ := Option.isSome_iff_exists.1 (hreturned _ (List.mem_of_getElem? hm))
    exact ⟨r, (h.member i _ hm).returned hr⟩
  refine ⟨?_, ?_, ?_⟩
  · have hzero : tally count (·.phase.permits) progress = 0 := by
      apply tally_eq_zero
      intro i hi
      obtain ⟨r, hr⟩ := hresult i hi
      exact hr.permits
    have htotal := h.ledger.permits
    omega
  · have hzero : tally count (·.phase.active) progress = 0 := by
      apply tally_eq_zero
      intro i hi
      obtain ⟨r, hr⟩ := hresult i hi
      exact hr.active
    rw [h.ledger.active, hzero]
    rfl
  · have hsame : tally count (·.phase.starts) progress =
        tally count (·.phase.ends) progress := by
      apply Finset.sum_congr rfl
      intro i hi
      obtain ⟨r, hr⟩ := hresult i (Finset.mem_range.1 hi)
      exact hr.starts
    rw [h.ledger.started, h.ledger.finished, hsame]

end Pools

/-! ## The tasks of a run -/

/-- In every state that the tasks of a run reach while shards are joined, free permits and those
that are held are as many as shards may be joined at a time; no more shards are active than permits
are held, and no step wraps their counter; there never were more than allowed. All tasks return in
the end, and once they have, all permits are free, no shard is active, and as many have finished as
have started. -/
theorem joining_permits {tasks : List (Task Session α)}
    (h : job.Begins options schedules s .shardJoin α tasks u) (schedule : Schedule) :
    let limit := max options.maxInFlight 1
    let p := (Pool.start tasks u).run schedule
    p.state.permits + p.held = limit ∧
      p.state.metrics.activeShards.toNat ≤ p.held ∧
      p.state.metrics.maxActiveShards.toNat ≤ limit ∧
      (limit < 2 ^ 64 → ∀ i p', p.step? i = some p' →
        p'.state.metrics.activeShards.toNat ≤ p.state.metrics.activeShards.toNat + 1 ∧
          p.state.metrics.activeShards.toNat ≤ p'.state.metrics.activeShards.toNat + 1) ∧
      (p.Returned → p.state.permits = limit ∧ p.state.metrics.activeShards = 0 ∧
        p.state.metrics.shardsStarted = p.state.metrics.shardsFinished) ∧
      p.finish.Returned := by
  intro limit p
  obtain ⟨hzero, -, hpermits⟩ := h.counters
  obtain ⟨owns, free, post, horderly, hfree⟩ := h.orderly
  have hfinish : p.finish.Returned := by
    obtain ⟨held, haccounts⟩ := (Pool.accounts_start (s := u) horderly.balanced).run schedule
    intro m hm
    obtain ⟨i, hi⟩ := List.mem_iff_getElem?.1 hm
    have hlt : i < p.members.length := by
      rw [← Pool.length_finish]
      exact (List.getElem?_eq_some_iff.1 hi).1
    obtain ⟨r, hr⟩ := haccounts.ended_finish hfree i hlt
    rw [hi] at hr
    cases hr
    rfl
  cases h with
  | joining =>
    obtain ⟨progress, hjoining⟩ := (joining_follows _ _ _ _ _ hzero).run
      (joinLedger_keeps _ _ _) schedule
    obtain ⟨hsum, hactive, hpeak⟩ := Joining.permits hjoining
    refine ⟨hsum.trans hpermits, hactive, hpeak.trans hpermits.le, ?_, ?_, hfinish⟩
    · intro hlimit i p' hstep
      exact Joining.active_step hjoining (hpermits.trans_lt hlimit) hstep
    · intro hreturned
      obtain ⟨hfree, hnone, heven⟩ := Joining.returned hjoining hreturned
      exact ⟨hfree.trans hpermits, hnone, heven⟩

/-- A run of two shards, one at a time, comes to joining them. After its tasks have taken some steps
there is one permit in all. -/
theorem joining_permits_pair : ∃ (tasks : List (Task Session Part)) (u : Session),
    pairJob.Begins twoShards .sequential (.ofFiles pairFiles) .shardJoin Part tasks u ∧
      ((Pool.start tasks u).run [0, 0, 1, 0]).state.permits +
        ((Pool.start tasks u).run [0, 0, 1, 0]).held = 1 ∧
      ((Pool.start tasks u).run [0, 0, 1, 0]).state.metrics.activeShards.toNat ≤
        ((Pool.start tasks u).run [0, 0, 1, 0]).held ∧
      ((Pool.start tasks u).run [0, 0, 1, 0]).finish.Returned := by
  have hcheck : pairJob.check = .ok () := by decide
  have hcount : pairJob.shardCount twoShards pairFiles = .ok 2 := by decide
  obtain ⟨w, -⟩ : ∃ w : pairJob.Worked twoShards .sequential (.ofFiles pairFiles),
      w.prepared.datasets = pairJob.datasets :=
    worked_of_loads hcheck hcount (plain_pairJob 2) provided_pairJob loads_pairJob
  have hbegins : pairJob.Begins twoShards .sequential (.ofFiles pairFiles) .shardJoin Part _ _ :=
    .joining w.prepares w.creates w.splits
  obtain ⟨hsum, hactive, -, -, -, hreturned⟩ := joining_permits hbegins [0, 0, 1, 0]
  exact ⟨_, _, hbegins, hsum, hactive, hreturned⟩

end Equijoin
