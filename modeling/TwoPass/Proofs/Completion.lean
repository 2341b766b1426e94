import TwoPass.Invocation.Completion

/-! The files that an assembly leaves. Outputs are written in the order of their formats,
up to the first one whose file cannot be created; paths that name one file overwrite each
other. -/
namespace TwoPass.Invocation

namespace Volume

/-- A volume with some outputs written: a file that their paths name has the text of the
last of these outputs. -/
def holding (volume : Volume) (images : Images) (outputs : List (Listing.Format × String)) : Volume :=
  { volume with contents := fun file =>
      ((outputs.filter fun output => volume.file output.2 = file).getLast?.map fun output =>
        output.1.render images).or (volume.contents file) }

/-- Every one of some outputs can be created once those before it are written. -/
def Accepts (volume : Volume) (images : Images) (outputs : List (Listing.Format × String)) : Prop :=
  ∀ earlier output later, outputs = earlier ++ output :: later →
    (volume.holding images earlier).denial output.2 = none

theorem holding_append (volume : Volume) (images : Images)
    (first second : List (Listing.Format × String)) :
    (volume.holding images first).holding images second = volume.holding images (first ++ second) := by
  simp only [holding, List.filter_append, List.getLast?_append, Option.map_or, Option.or_assoc]
  rfl

theorem write_eq_error {volume : Volume} {path : String} {cause : FileFault}
    (refused : volume.denial path = some cause) (text : String) :
    volume.write path text = .error cause := by
  simp only [write, refused]

theorem write_eq_ok {volume : Volume} {path : String} (images : Images) (format : Listing.Format)
    (room : volume.isFull (volume.file path) = false) (granted : volume.denial path = none) :
    volume.write path (format.render images) = .ok (volume.holding images [(format, path)]) := by
  simp only [write, granted, room, Bool.false_eq_true, if_false, holding, Except.ok.injEq, mk.injEq,
    and_true]
  funext file
  by_cases named : volume.file path = file
  · simp [named]
  · simp [named, Ne.symm named]

namespace Accepts
variable {volume : Volume} {images : Images}

theorem nil : volume.Accepts images [] := by
  intro earlier output later split
  simp at split

theorem cons {output : Listing.Format × String} {rest : List (Listing.Format × String)}
    (granted : volume.denial output.2 = none)
    (accepts : (volume.holding images [output]).Accepts images rest) :
    volume.Accepts images (output :: rest) := by
  intro earlier next later split
  cases earlier with
  | nil =>
    cases split
    exact granted
  | cons first earlier =>
    obtain ⟨rfl, rest⟩ := List.cons.inj split
    have turn := accepts earlier next later rest
    rwa [holding_append] at turn

end Accepts
end Volume

/-- How writing some outputs ends when `rest` is left of them: with none left, or with the
fault of the next one, whose file cannot be created. -/
inductive Ending (volume : Volume) : List (Listing.Format × String) → Option Fault → Prop
  | complete : Ending volume [] none
  | refused (format : Listing.Format) {path : String} (later : List (Listing.Format × String))
      {cause : FileFault} (denied : volume.denial path = some cause) :
      Ending volume ((format, path) :: later) (some (.outputFile path cause))

/-- Outputs are written up to the first that cannot be created. -/
theorem writeOutputs_eq (images : Images) {volume : Volume}
    (writable : ∀ file, volume.isFull file = false) (outputs : List (Listing.Format × String)) :
    ∃ processed rest fault, outputs = processed ++ rest ∧ volume.Accepts images processed ∧
      Ending (volume.holding images processed) rest fault ∧
      writeOutputs Volume.writing images outputs volume =
        ((fault, processed), volume.holding images processed) := by
  induction outputs generalizing volume with
  | nil => exact ⟨[], [], none, rfl, .nil, .complete, rfl⟩
  | cons output outputs ih =>
    obtain ⟨format, path⟩ := output
    cases denied : volume.denial path with
    | some cause =>
      refine ⟨[], (format, path) :: outputs, _, rfl, .nil, .refused format outputs denied, ?_⟩
      simp only [writeOutputs, bind, StateT.bind, Volume.writing, Volume.write_eq_error denied]
      rfl
    | none =>
      have written := Volume.write_eq_ok images format (writable _) denied
      have later : ∀ file, (volume.holding images [(format, path)]).isFull file = false := writable
      obtain ⟨processed, rest, fault, split, accepts, ending, eq⟩ := ih later
      rw [Volume.holding_append] at ending eq
      refine ⟨(format, path) :: processed, rest, fault, ?_, .cons denied accepts, ending, ?_⟩
      · rw [split, List.cons_append]
      · simp only [writeOutputs, bind, StateT.bind, Volume.writing, written]
        rw [eq]
        rfl

/-- The requested outputs stand in the order of their formats. -/
theorem Configuration.outputs_order (c : Configuration) :
    (c.outputs.map Prod.fst).Sublist [.vhdl, .blockRam, .hexDump, .memoryMap] ∧
      ∀ format path, (format, path) ∈ c.outputs ↔ c.output format = some path := by
  constructor
  · have formats : c.outputs.map Prod.fst =
        [.vhdl, .blockRam, .hexDump, .memoryMap].filter fun format => (c.output format).isSome := by
      rw [outputs, List.map_filterMap, ← List.filterMap_eq_filter]
      congr 1
      funext format
      cases requested : c.output format <;> simp [Option.guard, requested]
    rw [formats]
    exact List.filter_sublist
  · intro format path
    have listed : format ∈ [.vhdl, .blockRam, .hexDump, .memoryMap] := by cases format <;> decide
    simp only [outputs, List.mem_filterMap, Option.map_eq_some_iff, Prod.mk.injEq]
    constructor
    · rintro ⟨_, -, _, found, rfl, rfl⟩
      exact found
    · intro found
      exact ⟨format, listed, path, found, rfl, rfl⟩

/-- A failed assembly leaves all files alone. Otherwise the requested outputs are written in
the order of their formats, each while its file can be created; the first one for which
this fails is reported, and none behind it is written. -/
theorem finish_writes_in_order (session : Session) (c : Configuration) (volume : Volume)
    (writable : ∀ file, volume.isFull file = false) :
    let done := finish session c volume
    (∀ fault, session.resolve = .error fault → done.outcome = .error fault ∧ done.volume = volume) ∧
    (c.outputs.map Prod.fst).Sublist [.vhdl, .blockRam, .hexDump, .memoryMap] ∧
    (∀ format path, (format, path) ∈ c.outputs ↔ c.output format = some path) ∧
    ∀ images, session.resolve = .ok images →
      ∃ processed rest, c.outputs = processed ++ rest ∧ volume.Accepts images processed ∧
        done.volume = volume.holding images processed ∧ done.written = processed ∧
        match rest with
        | [] => done.outcome = .ok images.usage
        | (_, path) :: _ => ∃ cause, done.volume.denial path = some cause ∧
            done.outcome = .error (.outputFile path cause) := by
  intro done
  obtain ⟨order, requested⟩ := c.outputs_order
  refine ⟨?_, order, requested, ?_⟩
  · intro fault failed
    simp only [done, finish, conclude, failed]
    exact ⟨rfl, rfl⟩
  · intro images resolved
    obtain ⟨processed, rest, fault, split, accepts, ending, eq⟩ := writeOutputs_eq images writable c.outputs
    refine ⟨processed, rest, split, accepts, ?_⟩
    cases ending with
    | complete =>
      simp only [done, finish, conclude, resolved, StateT.run, bind, StateT.bind, eq]
      exact ⟨rfl, rfl, rfl⟩
    | refused format later denied =>
      simp only [done, finish, conclude, resolved, StateT.run, bind, StateT.bind, eq]
      exact ⟨rfl, rfl, _, denied, rfl⟩

/-- Two paths to one file, and a third one into a directory that does not exist. -/
def overlapping (sizes : Sizes) : Configuration where
  input := "program"
  output
    | .vhdl => some "./memory"
    | .blockRam => none
    | .hexDump => some "memory"
    | .memoryMap => some "missing/map"
  sizes
  verbosity := 0

theorem finish_writes_in_order_overlapping :
    ∃ images, (Session.start {}).resolve = .ok images ∧
      let done := finish (.start {}) (overlapping {}) (.ofDirectories ["."] [])
      done.outcome = .error (.outputFile "missing/map" .notFound) ∧
      done.written = [(.vhdl, "./memory"), (.hexDump, "memory")] ∧
      done.volume.contents "memory" = some (Listing.Format.hexDump.render images) ∧
      done.volume.contents "map" = none := by
  refine ⟨_, rfl, ?_⟩
  intro done
  obtain ⟨-, -, -, successful⟩ := finish_writes_in_order (.start {}) (overlapping {})
    (.ofDirectories ["."] []) fun _ => rfl
  obtain ⟨processed, rest, split, -, files, written, ending⟩ := successful _ rfl
  have first : processed = [(.vhdl, "./memory"), (.hexDump, "memory")] := written.symm.trans rfl
  subst first
  have last : rest = [(.memoryMap, "missing/map")] := List.append_cancel_left (split.symm.trans rfl)
  subst last
  obtain ⟨cause, denied, outcome⟩ := ending
  rw [files] at denied
  have missing : some cause = some .notFound := denied.symm.trans rfl
  cases missing
  refine ⟨outcome, written, ?_, ?_⟩
  · rw [files]
    rfl
  · rw [files]
    rfl

end TwoPass.Invocation
