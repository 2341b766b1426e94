import Mathlib.Logic.Relation
import TwoPass.Proofs.Progress
import TwoPass.Recording.Call

/-! Replays in parts. What a step does depends on the oldest action only, so a queue can be
replayed part by part, and a driver that has left nothing on its stack can be dropped and
replaced by another one. -/
namespace TwoPass

/-- Stepping through two parts of a queue is stepping through the first and, unless it
fails, through the second from the stack and the session that the first leaves. -/
theorem Machine.steps_append (s : Session) (first second : List Action) (stack : Stack) :
    steps (first ++ second).length ⟨{ s with pending := first ++ second }, stack, .running⟩ =
      match steps first.length ⟨{ s with pending := first }, stack, .running⟩ with
      | (none, ⟨t, left, _⟩) => steps second.length ⟨{ t with pending := second }, left, .running⟩
      | (some fault, ⟨t, left, _⟩) =>
        (some fault, ⟨{ t with pending := t.pending ++ second }, left, .running⟩) := by
  induction first generalizing s stack with
  | nil => rfl
  | cons action first ih =>
    simp only [List.cons_append, List.length_cons, steps]
    rcases performed : action.perform s.symbols stack with ⟨fault | (v | ⟨m, a, v⟩), left⟩
    · simp only [step_fault performed]
    · simp only [step_push performed]
      exact ih s (v :: left)
    · simp only [step_store performed]
      exact ih ⟨s.sizes, s.program.patch ⟨m, a, v⟩, s.data.patch ⟨m, a, v⟩, s.symbols, s.pending⟩ left

namespace Session

/-- The first `k` calls of `step` on a new driver do not fail. -/
def Succeeds (s : Session) (k : Nat) : Prop :=
  ∀ j < k, ∀ fault, ((Machine.start s).after j).answer ≠ .error fault

/-- A driver replays some of the pending actions, leaves no value and is dropped. -/
def Drains (s t : Session) : Prop :=
  ∃ k ≤ s.pending.length, s.Succeeds k ∧ ((Machine.start s).after k).stack = [] ∧
    ((Machine.start s).after k).session = t

theorem Succeeds.proceeds {s : Session} {k : Nat} (succeeds : s.Succeeds k)
    (below : k ≤ s.pending.length) : (Machine.start s).Proceeds k ((Machine.start s).after k) :=
  Machine.proceeds_of_succeed rfl below succeeds

/-- Only the step after the last action ends the replay. -/
theorem Succeeds.running {s : Session} {k : Nat} (succeeds : s.Succeeds k)
    (below : k ≤ s.pending.length) : ((Machine.start s).after k).phase = .running := by
  obtain ⟨patches, left, -, reached⟩ := (succeeds.proceeds below).replayed
  rw [reached]

/-- With an empty stack, a driver that stopped early is as good as a new one. -/
theorem Drains.resolve_eq {s t : Session} (drains : s.Drains t) : t.resolve = s.resolve := by
  obtain ⟨k, below, succeeds, empty, rfl⟩ := drains
  have running := succeeds.running below
  have continued := (succeeds.proceeds below).run_eq
  have fresh : Machine.start ((Machine.start s).after k).session = (Machine.start s).after k := by
    rcases reached : (Machine.start s).after k with ⟨session, stack, phase⟩
    rw [reached] at empty running
    cases empty
    cases running
    rfl
  rw [resolve, resolve, fresh, continued]

theorem resolve_eq_of_drains {s t : Session} (drained : Relation.ReflTransGen Drains s t) :
    t.resolve = s.resolve := by
  induction drained with
  | refl => rfl
  | tail _ last ih => exact last.resolve_eq.trans ih

/-- A replay can be given up and resumed wherever its stack is empty, up to the last
action and any number of times, without a change to the result. Whatever the stack holds,
a queue is replayed part by part. -/
theorem resolve_resumes (s : Session) :
    (∀ k ≤ s.pending.length, s.Succeeds k →
      ((Machine.start s).after k).phase = .running ∧
      (((Machine.start s).after k).stack = [] →
        ((Machine.start s).after k).session.resolve = s.resolve)) ∧
    (∀ t, Relation.ReflTransGen Drains s t →
      t.resolve = s.resolve ∧ t.resolve.map Images.usage = s.resolve.map Images.usage) ∧
    ∀ (first second : List Action) (stack : Stack),
      Machine.steps (first ++ second).length
        ⟨{ s with pending := first ++ second }, stack, .running⟩ =
      match Machine.steps first.length ⟨{ s with pending := first }, stack, .running⟩ with
      | (none, ⟨t, left, _⟩) =>
        Machine.steps second.length ⟨{ t with pending := second }, left, .running⟩
      | (some fault, ⟨t, left, _⟩) =>
        (some fault, ⟨{ t with pending := t.pending ++ second }, left, .running⟩) := by
  refine ⟨fun k below succeeds => ⟨succeeds.running below, fun empty => ?_⟩, fun t drained => ?_,
    Machine.steps_append s⟩
  · exact Drains.resolve_eq ⟨k, below, succeeds, empty, rfl⟩
  · have same := resolve_eq_of_drains drained
    exact ⟨same, by rw [same]⟩

/-- A driver that is dropped with a value on its stack takes the value with it. -/
example :
    let s := (start {}).calls [.defer ⟨.literal 5, 1⟩, .defer ⟨.store .data 0, 2⟩]
    ((Machine.start s).after 1).stack = [5] ∧
      ((Machine.start s).after 1).session.resolve = .error (.stackUnderflow 2) := ⟨rfl, rfl⟩

end Session
end TwoPass
