import TwoPass.Proofs.CellFormat
import TwoPass.Recording.Call
import TwoPass.Replay.Resolution

/-! Whole histories of a session. Calls and drivers reach a memory only by appending
and storing, so what these two keep holds of all memories that are ever assembled. -/
namespace TwoPass

namespace Image
variable {m : Memory}

inductive Change where
  | append (v : Value) (line : Line)
  | store (a : Address) (v : Value)
  | clear

def change (image : Image m) : Change → Image m
  | .append v line => (image.append v line).2
  | .store a v => image.store a v
  | .clear => image.clear

def after (image : Image m) (changes : List Change) : Image m :=
  changes.foldl change image

theorem after_append (image : Image m) (first second : List Change) :
    image.after (first ++ second) = (image.after first).after second :=
  List.foldl_append

theorem capacity_change (image : Image m) (change : Change) :
    (image.change change).capacity = image.capacity := by
  cases change with
  | append v line => exact image.capacity_append v line
  | store a v => exact image.capacity_store a v
  | clear => exact image.capacity_clear

theorem capacity_after (image : Image m) (changes : List Change) :
    (image.after changes).capacity = image.capacity := by
  induction changes generalizing image with
  | nil => rfl
  | cons change changes ih => exact (ih (image.change change)).trans (image.capacity_change change)

theorem formed_change {image : Image m} (formed : ∀ a, (image.cell a).Formed m) (change : Change)
    (a : Address) : ((image.change change).cell a).Formed m := by
  cases change with
  | append v line =>
    simp only [Image.change]
    cases room : image.next line with
    | error fault =>
      rw [append_of_error room]
      exact formed a
    | ok b =>
      rw [cell_append_of_ok room]
      split
      · exact Cell.formed_placed m v
      · exact formed a
  | store b v =>
    simp only [Image.change, cell_store]
    split
    · exact Cell.formed_patched (formed b) v
    · exact formed a
  | clear =>
    simp only [Image.change, cell_clear]
    exact Cell.formed_free m

theorem formed_after {image : Image m} (formed : ∀ a, (image.cell a).Formed m)
    (changes : List Change) (a : Address) : ((image.after changes).cell a).Formed m := by
  induction changes generalizing image with
  | nil => exact formed a
  | cons change changes ih => exact ih (formed_change formed change)

end Image

def Sizes.size (sizes : Sizes) : (m : Memory) → Size m
  | .program => sizes.program
  | .data => sizes.data

namespace Session

theorem image_start (sizes : Sizes) (m : Memory) :
    (start sizes).image m = .empty m (sizes.size m).count := by
  cases m <;> rfl

/-- A later state of a session: of the same sizes, with changes to its memories. -/
structure Leads (s t : Session) : Prop where
  sizes : t.sizes = s.sizes
  images : ∀ m, ∃ changes, t.image m = (s.image m).after changes

namespace Leads

theorem refl (s : Session) : s.Leads s :=
  ⟨rfl, fun _ => ⟨[], rfl⟩⟩

theorem trans {s t u : Session} (first : s.Leads t) (second : t.Leads u) : s.Leads u := by
  refine ⟨second.sizes.trans first.sizes, fun m => ?_⟩
  obtain ⟨early, fromFirst⟩ := first.images m
  obtain ⟨late, fromSecond⟩ := second.images m
  exact ⟨early ++ late, by rw [fromSecond, fromFirst, Image.after_append]⟩

theorem call (s : Session) (c : Call) : s.Leads (s.call c).2 := by
  cases c with
  | place n v line =>
    refine ⟨by cases n <;> rfl, fun m => ?_⟩
    by_cases here : n = m
    · subst here
      exact ⟨[.append v line], by cases n <;> rfl⟩
    · exact ⟨[], by cases n <;> cases m <;> first | rfl | contradiction⟩
  | define symbol => exact ⟨rfl, fun m => ⟨[], by cases m <;> rfl⟩⟩
  | defer action => exact ⟨rfl, fun m => ⟨[], by cases m <;> rfl⟩⟩

theorem store (s : Session) (n : Memory) (a : Address) (v : Value) : s.Leads (s.store n a v) := by
  refine ⟨by cases n <;> rfl, fun m => ?_⟩
  by_cases here : n = m
  · subst here
    exact ⟨[.store a v], by cases n <;> rfl⟩
  · exact ⟨[], by cases n <;> cases m <;> first | rfl | contradiction⟩

theorem step (machine : Machine) : machine.session.Leads machine.step.2.session := by
  obtain ⟨⟨sizes, program, data, symbols, pending⟩, stack, phase⟩ := machine
  have same : ∀ (others : SymbolTable) (queue : List Action),
      Leads ⟨sizes, program, data, symbols, pending⟩ ⟨sizes, program, data, others, queue⟩ :=
    fun _ _ => ⟨rfl, fun m => ⟨[], by cases m <;> rfl⟩⟩
  cases phase with
  | done => exact same symbols pending
  | running =>
    cases pending with
    | nil => exact same .empty []
    | cons action pending =>
      simp only [Machine.step]
      rcases action.perform symbols stack with ⟨fault | (v | ⟨n, a, v⟩), left⟩
      · exact same symbols pending
      · exact same symbols pending
      · exact (same symbols pending).trans (store _ n a v)

end Leads
end Session

namespace Machine
variable {P : Machine → Prop}

/-- What every step keeps is kept by any number of steps. -/
theorem steps_keep (kept : ∀ machine, P machine → P machine.step.2) (n : Nat) {machine : Machine}
    (holds : P machine) : P (machine.steps n).2 := by
  induction n generalizing machine with
  | zero => exact holds
  | succ n ih =>
    have first := kept machine holds
    simp only [steps]
    cases machine.phase with
    | done => exact holds
    | running =>
      rcases stepped : machine.step with ⟨fault | fault, next⟩
      · rw [stepped] at first
        exact ih first
      · rw [stepped] at first
        exact first

theorem run_keep (kept : ∀ machine, P machine → P machine.step.2) {machine : Machine}
    (holds : P machine) : P machine.run.2 :=
  steps_keep kept _ holds

theorem obey_keep (kept : ∀ machine, P machine → P machine.step.2) (command : Command)
    {machine : Machine} (holds : P machine) : P (machine.obey command).2 := by
  cases command with
  | step => exact kept machine holds
  | run => exact run_keep kept holds

def obeyAll (machine : Machine) (commands : List Command) : Machine :=
  commands.foldl (fun machine command => (machine.obey command).2) machine

theorem obeyAll_keep (kept : ∀ machine, P machine → P machine.step.2) (commands : List Command)
    {machine : Machine} (holds : P machine) : P (machine.obeyAll commands) := by
  induction commands generalizing machine with
  | nil => exact holds
  | cons command commands ih => exact ih (obey_keep kept command holds)

end Machine

/-- What a program can do with a session before it is resolved. -/
inductive Occurrence where
  | call (c : Call)
  /-- A driver is created, obeys some commands and is dropped. -/
  | drive (commands : List Machine.Command)

namespace Session

def occur (s : Session) : Occurrence → Session
  | .call c => (s.call c).2
  | .drive commands => ((Machine.start s).obeyAll commands).session

def after (s : Session) (history : List Occurrence) : Session :=
  history.foldl occur s

def Reachable (s : Session) : Prop :=
  ∃ sizes history, s = (start sizes).after history

namespace Leads

theorem after (s : Session) (history : List Occurrence) : s.Leads (s.after history) := by
  induction history generalizing s with
  | nil => exact refl s
  | cons occurrence history ih =>
    refine trans ?_ (ih (s.occur occurrence))
    cases occurrence with
    | call c => exact call s c
    | drive commands =>
      exact Machine.obeyAll_keep (P := (s.Leads ·.session))
        (fun machine leads => leads.trans (step machine)) commands (refl s)

end Leads

/-- What every step keeps holds of the session whose memories are the result. -/
theorem resolve_keep {P : Session → Prop}
    (kept : ∀ machine : Machine, P machine.session → P machine.step.2.session) {s : Session}
    (holds : P s) {images : Images} (resolved : s.resolve = .ok images) :
    ∃ t, P t ∧ images = ⟨t.sizes, t.program, t.data⟩ := by
  have final : P (Machine.start s).run.2.session := Machine.run_keep (P := (P ·.session)) kept holds
  simp only [resolve] at resolved
  split at resolved
  · contradiction
  · rename_i done
    cases resolved
    rw [done] at final
    exact ⟨_, final, rfl⟩

end Session

/-- The memories have their chosen sizes and every cell has the format of its memory. -/
structure Images.Sound (images : Images) : Prop where
  capacity : ∀ m, (images.image m).capacity = (images.sizes.size m).count
  formed : ∀ m a, ((images.image m).cell a).Formed m

theorem Images.Sound.formed_cellAt {images : Images} (sound : images.Sound) (m : Memory) (a : Nat) :
    ((images.image m).cellAt a).Formed m := by
  by_cases inside : a < 65536
  · have formed := sound.formed m ⟨a, inside⟩
    rw [← Image.cellAt_val] at formed
    exact formed
  · have outside : (images.image m).cellAt a = .free := by
      simp [Image.cellAt, Vector.getElem?_eq_none (Nat.le_of_not_lt inside)]
    rw [outside]
    exact Cell.formed_free m

namespace Session

theorem Leads.sound {sizes : Sizes} {t : Session} (leads : (start sizes).Leads t) :
    (Images.mk t.sizes t.program t.data).Sound := by
  have image : ∀ m, (Images.mk t.sizes t.program t.data).image m = t.image m := by
    intro m
    cases m <;> rfl
  constructor
  · intro m
    obtain ⟨changes, eq⟩ := leads.images m
    rw [image, eq, Image.capacity_after, image_start, leads.sizes]
    exact Nat.min_eq_left (sizes.size m).count_le
  · intro m a
    obtain ⟨changes, eq⟩ := leads.images m
    have free : ∀ b, (((start sizes).image m).cell b).Formed m := by
      intro b
      rw [image_start, Image.cell_empty]
      exact Cell.formed_free m
    rw [image, eq]
    exact Image.formed_after free changes a

theorem Reachable.sound {s : Session} (reachable : s.Reachable) {images : Images}
    (resolved : s.resolve = .ok images) : images.Sound := by
  obtain ⟨sizes, history, rfl⟩ := reachable
  obtain ⟨t, leads, rfl⟩ := resolve_keep (P := (start sizes).Leads)
    (fun machine leads => leads.trans (Leads.step machine)) (Leads.after (start sizes) history) resolved
  exact leads.sound

end Session
end TwoPass
