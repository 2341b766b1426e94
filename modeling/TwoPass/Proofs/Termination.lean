import TwoPass.Proofs.Aftermath

/-! The end of every replay. Each call of `step` takes the oldest action from the queue, also
if the action fails, so a driver that is run again after every fault gets done, and the runs
it takes are counted by the actions that failed. -/
namespace TwoPass.Machine

/-- What the next call of `step` takes from the queue. -/
def oldest? (machine : Machine) : Option Action :=
  match machine.phase with
  | .running => machine.session.pending.head?
  | .done => none

/-- Calling `step` for as long as it answers that the machine is running, with what every call
takes from the queue. The relation does not refer to `run`. -/
inductive Loops : Machine → List (Option Action) → Option Fault → Machine → Prop
  | stop {machine last : Machine} {answered : Option Fault}
      (stepped : machine.step = (answered, last)) (ended : machine.answer ≠ .ok .running) :
      Loops machine [machine.oldest?] answered last
  | again {machine next last : Machine} {calls : List (Option Action)} {answered : Option Fault}
      (stepped : machine.step = (none, next)) (running : next.phase = .running)
      (rest : Loops next calls answered last) :
      Loops machine (machine.oldest? :: calls) answered last

/-- Looping again after every fault. There is one loop for each fault and a last one. -/
inductive Retries : Machine → List Fault → List (Option Action) → Machine → Prop
  | finish {machine last : Machine} {calls : List (Option Action)}
      (looped : machine.Loops calls none last) : Retries machine [] calls last
  | again {machine next last : Machine} {calls later : List (Option Action)} {fault : Fault}
      {faults : List Fault} (looped : machine.Loops calls (some fault) next)
      (rest : Retries next faults later last) :
      Retries machine (fault :: faults) (calls ++ later) last

/-- The faults among the answers of `k` calls of `step`. -/
def faults : Machine → Nat → List Fault
  | _, 0 => []
  | machine, k + 1 => machine.step.1.toList ++ machine.step.2.faults k

theorem faults_add (machine : Machine) (j k : Nat) :
    machine.faults (j + k) = machine.faults j ++ (machine.after j).faults k := by
  induction j generalizing machine with
  | zero => simp [faults, after]
  | succ j ih => simp only [Nat.succ_add, faults, after, ih, List.append_assoc]

theorem length_faults_le (machine : Machine) (k : Nat) : (machine.faults k).length ≤ k := by
  induction k generalizing machine with
  | zero => exact Nat.le_refl 0
  | succ k ih =>
    have later := ih machine.step.2
    have first : machine.step.1.toList.length ≤ 1 := by cases machine.step.1 <;> simp
    simp only [faults, List.length_append]
    omega

/-- What the calls of `step` have still to take from the queue: every action, and nothing in the
call that finds the queue empty. -/
def agenda (machine : Machine) : List (Option Action) :=
  match machine.phase with
  | .running => machine.session.pending.map some ++ [none]
  | .done => []

section
variable {machine next last : Machine}

/-- A call takes the oldest action and leaves the machine running, or finds the queue empty
and leaves it done. -/
theorem step_running (running : machine.phase = .running) :
    (∃ action, machine.session.pending = action :: machine.step.2.session.pending ∧
      machine.step.2.phase = .running) ∨
    machine.session.pending = [] ∧ machine.step.1 = none ∧ machine.step.2.phase = .done := by
  rcases stepped : machine.step with ⟨answered, next⟩
  cases step_outcome stepped with
  | idle => contradiction
  | finish => exact .inr ⟨rfl, rfl, rfl⟩
  | push | store | fault => exact .inl ⟨_, rfl, rfl⟩

theorem agenda_step (running : machine.phase = .running) :
    machine.agenda = machine.oldest? :: machine.step.2.agenda := by
  obtain ⟨action, queued, still⟩ | ⟨empty, -, done⟩ := step_running running
  · simp only [agenda, oldest?, running, still, queued, List.map_cons, List.cons_append,
      List.head?_cons]
  · simp only [agenda, oldest?, running, done, empty, List.map_nil, List.nil_append, List.head?_nil]

/-- The first calls take the first actions. -/
theorem after_running (running : machine.phase = .running) {k : Nat}
    (below : k ≤ machine.session.pending.length) :
    (machine.after k).phase = .running ∧
      (machine.after k).session.pending = machine.session.pending.drop k := by
  induction k generalizing machine with
  | zero => exact ⟨running, rfl⟩
  | succ k ih =>
    obtain ⟨action, queued, still⟩ | ⟨empty, -⟩ := step_running running
    · rw [queued] at below ⊢
      exact ih still (Nat.le_of_succ_le_succ below)
    · rw [empty] at below
      contradiction

/-- No fault is left for the call that finds the queue empty. -/
theorem faults_succ (running : machine.phase = .running) :
    machine.faults (machine.session.pending.length + 1) =
      machine.faults machine.session.pending.length := by
  obtain ⟨still, rest⟩ := after_running running (Nat.le_refl _)
  rw [List.drop_length] at rest
  obtain ⟨action, queued, -⟩ | ⟨-, answered, -⟩ := step_running still
  · rw [rest] at queued
    contradiction
  · rw [faults_add, faults, answered]
    exact List.append_nil _

/-- Calls that lead from one machine to another, with what they take and what fails. -/
structure Passes (machine : Machine) (calls : List (Option Action)) (failed : List Fault)
    (last : Machine) : Prop where
  reached : machine.after calls.length = last
  failed : machine.faults calls.length = failed
  taken : machine.agenda = calls ++ last.agenda

theorem Passes.one (running : machine.phase = .running) :
    machine.Passes [machine.oldest?] machine.step.1.toList machine.step.2 :=
  ⟨rfl, List.append_nil _, agenda_step running⟩

theorem Passes.trans {calls later : List (Option Action)} {failed more : List Fault}
    (first : machine.Passes calls failed next) (second : next.Passes later more last) :
    machine.Passes (calls ++ later) (failed ++ more) last := by
  constructor
  · rw [List.length_append, after_add, first.reached, second.reached]
  · rw [List.length_append, faults_add, first.failed, first.reached, second.failed]
  · rw [first.taken, second.taken, List.append_assoc]

namespace Loops
variable {calls : List (Option Action)} {answered : Option Fault}

theorem run_eq (looped : machine.Loops calls answered last) : machine.run = (answered, last) := by
  induction looped with
  | stop stepped ended =>
    cases step_outcome stepped with
    | idle | finish => rfl
    | push | store => exact absurd (by simp only [answer, stepped]) ended
    | fault => exact run_of_step stepped
  | again stepped running rest ih => rw [(Proceeds.one stepped running).run_eq, ih]

theorem passes (looped : machine.Loops calls answered last) (running : machine.phase = .running) :
    machine.Passes calls answered.toList last := by
  induction looped with
  | stop stepped ended =>
    have one := Passes.one running
    rwa [stepped] at one
  | again stepped still rest ih =>
    have one := Passes.one running
    rw [stepped] at one
    exact one.trans (ih still)

/-- Only a fault leaves the machine running. -/
theorem phase (looped : machine.Loops calls answered last) :
    last.phase = answered.elim .done fun _ => .running := by
  induction looped with
  | stop stepped ended =>
    cases step_outcome stepped with
    | idle | finish | fault => rfl
    | push | store => exact absurd (by simp only [answer, stepped]) ended
  | again _ _ _ ih => exact ih

/-- There is one way to loop. -/
theorem calls_eq {others : List (Option Action)} (looped : machine.Loops calls answered last)
    (running : machine.phase = .running) (again : machine.Loops others answered last) : others = calls := by
  have taken := (again.passes running).taken.symm.trans (looped.passes running).taken
  exact List.append_cancel_right taken

theorem length_calls_le (looped : machine.Loops calls answered last) (running : machine.phase = .running) :
    calls.length ≤ machine.session.pending.length + 1 := by
  have whole : machine.agenda.length = machine.session.pending.length + 1 := by simp [agenda, running]
  rw [← whole, (looped.passes running).taken, List.length_append]
  exact Nat.le_add_right _ _

theorem calls_ne_nil (looped : machine.Loops calls answered last) : calls ≠ [] := by
  cases looped <;> exact List.cons_ne_nil _ _

end Loops

theorem exists_loops (machine : Machine) : ∃ calls answered last, machine.Loops calls answered last := by
  induction size : machine.session.pending.length using Nat.strongRecOn generalizing machine with
  | _ n ih =>
    by_cases running : machine.answer = .ok .running
    · rcases stepped : machine.step with ⟨_ | fault, next⟩
      · have still : next.phase = .running := by simpa only [answer, stepped, Except.ok.injEq] using running
        have shorter : next.session.pending.length < n := by
          cases step_outcome stepped with
          | idle | finish => contradiction
          | push | store => exact Nat.lt_of_succ_le (Nat.le_of_eq size)
        obtain ⟨calls, answered, last, looped⟩ := ih _ shorter next rfl
        exact ⟨_, _, _, .again stepped still looped⟩
      · simp only [answer, stepped] at running
        contradiction
    · exact ⟨_, _, _, .stop rfl running⟩

theorem phase_step (machine : Machine) (done : machine.phase = .done) : machine.step.2.phase = .done := by
  obtain ⟨session, stack, _⟩ := machine
  cases done
  rfl

theorem obeyAll_runs (machine : Machine) (j : Nat) :
    machine.obeyAll (List.replicate (j + 1) .run) = machine.run.2.obeyAll (List.replicate j .run) := rfl

namespace Retries
variable {calls : List (Option Action)} {failed : List Fault}

theorem passes (retried : machine.Retries failed calls last) (running : machine.phase = .running) :
    machine.Passes calls failed last := by
  induction retried with
  | finish looped => exact looped.passes running
  | again looped rest ih => exact (looped.passes running).trans (ih looped.phase)

theorem phase (retried : machine.Retries failed calls last) : last.phase = .done := by
  induction retried with
  | finish looped => exact looped.phase
  | again _ _ ih => exact ih

/-- Until it is done, a machine takes every action of its queue. -/
theorem eq_of_running (retried : machine.Retries failed calls last) (running : machine.phase = .running) :
    failed = machine.faults machine.session.pending.length ∧
      calls = machine.session.pending.map some ++ [none] ∧
      last = machine.after (machine.session.pending.length + 1) := by
  obtain ⟨reached, faulty, taken⟩ := retried.passes running
  have whole : calls = machine.session.pending.map some ++ [none] := by
    simpa only [agenda, running, retried.phase, List.append_nil] using taken.symm
  have count : calls.length = machine.session.pending.length + 1 := by simp [whole]
  rw [count] at reached faulty
  rw [faults_succ running] at faulty
  exact ⟨faulty.symm, whole, reached.symm⟩

/-- A driver is done after one run more than there are faults, and not before. -/
theorem done_iff (retried : machine.Retries failed calls last) (running : machine.phase = .running)
    (j : Nat) : (machine.obeyAll (List.replicate j .run)).phase = .done ↔ failed.length < j := by
  induction retried generalizing j with
  | finish looped =>
    cases j with
    | zero => simp [obeyAll, running]
    | succ j =>
      rw [obeyAll_runs, looped.run_eq]
      have done := obeyAll_keep (P := (·.phase = .done)) phase_step (List.replicate j .run) looped.phase
      exact iff_of_true done (Nat.succ_pos j)
  | again looped rest ih =>
    cases j with
    | zero => simp [obeyAll, running]
    | succ j =>
      rw [obeyAll_runs, looped.run_eq, ih looped.phase, List.length_cons, Nat.succ_lt_succ_iff]

end Retries

theorem exists_retries (running : machine.phase = .running) :
    ∃ failed calls last, machine.Retries failed calls last := by
  induction size : machine.session.pending.length using Nat.strongRecOn generalizing machine with
  | _ n ih =>
    obtain ⟨calls, answered, next, looped⟩ := machine.exists_loops
    cases answered with
    | none => exact ⟨_, _, _, .finish looped⟩
    | some fault =>
      have still : next.phase = .running := looped.phase
      have taken := congrArg List.length (looped.passes running).taken
      have some := List.length_pos_iff.mpr looped.calls_ne_nil
      simp only [agenda, running, still, List.length_append, List.length_map, List.length_singleton]
        at taken
      obtain ⟨failed, later, last, retried⟩ := ih _ (by omega) still rfl
      exact ⟨_, _, _, .again looped retried⟩

end

/-- Every replay ends, whatever its actions do. A step takes the oldest action, or finishes
exactly if there is none. A run is a loop of at most one step for each action and one more.
Run again after every fault, the machine gets done with one run more than actions have failed,
after taking every action once, in the order of the queue. -/
theorem replay_terminates (s : Session) (stack : Stack) :
    let machine : Machine := ⟨s, stack, .running⟩
    let count := s.pending.length
    let failed := machine.faults count
    (∀ action rest, s.pending = action :: rest →
      machine.step.2.session.pending = rest ∧ machine.step.2.phase = .running) ∧
    (machine.step.2.phase = .done ↔ s.pending = []) ∧
    (∃ calls, calls.length ≤ count + 1 ∧ ∀ others answered last,
      machine.Loops others answered last ↔ others = calls ∧ machine.run = (answered, last)) ∧
    failed.length + 1 ≤ count + 1 ∧
    (∀ runs, (machine.obeyAll (List.replicate runs .run)).phase = .done ↔ failed.length + 1 ≤ runs) ∧
    ∀ faults calls last, machine.Retries faults calls last ↔
      faults = failed ∧ calls = s.pending.map some ++ [none] ∧ last = machine.after (count + 1) := by
  intro machine count failed
  have running : machine.phase = .running := rfl
  obtain ⟨faults, calls, last, retried⟩ := exists_retries running
  obtain ⟨rfl, rfl, rfl⟩ := retried.eq_of_running running
  refine ⟨?_, ?_, ?_, ?_, ?_, ?_⟩
  · intro action rest queued
    obtain ⟨first, taken, still⟩ | ⟨empty, -⟩ := step_running running
    · cases queued.symm.trans taken
      exact ⟨rfl, still⟩
    · cases queued.symm.trans empty
  · obtain ⟨first, taken, still⟩ | ⟨empty, -, done⟩ := step_running running
    · rw [still]
      exact iff_of_false nofun fun empty => nomatch taken.symm.trans empty
    · exact iff_of_true done empty
  · obtain ⟨calls, answered, last, looped⟩ := machine.exists_loops
    refine ⟨calls, ?_, fun others answered' last' => ⟨fun again => ?_, ?_⟩⟩
    · exact looped.length_calls_le running
    · have result := again.run_eq
      cases looped.run_eq.symm.trans result
      exact ⟨looped.calls_eq running again, result⟩
    · rintro ⟨rfl, result⟩
      cases looped.run_eq.symm.trans result
      exact looped
  · exact Nat.succ_le_succ (machine.length_faults_le count)
  · exact retried.done_iff running
  · intro others calls last
    constructor
    · intro again
      exact again.eq_of_running running
    · rintro ⟨rfl, rfl, rfl⟩
      exact retried

end TwoPass.Machine
