import Mathlib
import FixTables.CommandLine
import FixTables.Proofs.ArtifactWrites

namespace FixTables

/-- A run takes a dictionary and, if it is to write a file, the path of that file. -/
theorem Invocation.paths_eq_ok_iff {i : Invocation} {input : String} {output : Option String} :
    i.paths = .ok (input, output) ↔ i.arguments = input :: output.toList := by
  unfold paths
  split
  next first h => cases output <;> simp [h]
  next first second h => cases output <;> simp [h]
  next one two => cases output <;> simp_all

theorem Invocation.request_eq_ok_iff {i : Invocation} {input : String} {output : Option String}
    {config : CompilerConfig} :
    i.request = .ok (input, output, config) ↔
      i.arguments = input :: output.toList ∧ i.config = .ok config := by
  simp only [request, except_bind_eq_ok_iff, ← paths_eq_ok_iff]
  constructor
  · rintro ⟨⟨_, _⟩, hp, _, hc, h⟩
    cases h
    exact ⟨hp, hc⟩
  · rintro ⟨hp, hc⟩
    exact ⟨_, hp, _, hc, rfl⟩

namespace FileSystem

variable {unreadable : Option IoError} {faults : Faults} {fs : FileSystem} {i : Invocation}

/-- The text that a run generates for a dictionary, by the settings of its environment. -/
structure Generates (unreadable : Option IoError) (fs : FileSystem) (i : Invocation)
    (input text : String) : Prop where
  readable : unreadable = none
  generated : ∃ config, i.config = .ok config ∧
    (fs.generateFile input config .default).outcome = .ok text

/-- The courses that a run of the command can take: it fails and nothing is written, or it prints
the text that it generates, or it writes it to a file. -/
inductive CommandCourse (unreadable : Option IoError) (faults : Faults) (fs : FileSystem)
    (i : Invocation) : CommandRun → Prop
  | failed (notices : List Notice) (e : CommandError) :
      CommandCourse unreadable faults fs i ⟨"", fs, notices, .error e⟩
  | printed {input text : String} (notices : List Notice) (arguments : i.arguments = [input])
      (generates : Generates unreadable fs i input text) :
      CommandCourse unreadable faults fs i ⟨text, fs, notices, .ok ()⟩
  | written {input path text : String} (notices : List Notice)
      (arguments : i.arguments = [input, path])
      (generates : Generates unreadable fs i input text)
      (writes : (fs.writeArtifact faults path text).outcome = .ok ()) :
      CommandCourse unreadable faults fs i
        ⟨"", (fs.writeArtifact faults path text).final fs, notices, .ok ()⟩

/-- Text comes out only if the dictionary can be read. -/
theorem generateBytes_outcome_eq_ok {input text : String} {config : CompilerConfig}
    (h : (generateBytes input
      (match unreadable with
        | some cause => .error cause
        | none => fs.readBytes input) config .default).outcome = .ok text) :
    unreadable = none ∧ (fs.generateFile input config .default).outcome = .ok text := by
  cases unreadable with
  | some cause => cases h
  | none => exact ⟨rfl, h⟩

theorem runCommandUnder_course (unreadable : Option IoError) (faults : Faults) (fs : FileSystem)
    (i : Invocation) :
    CommandCourse unreadable faults fs i (fs.runCommandUnder unreadable faults i) := by
  unfold runCommandUnder
  split
  next => exact .failed _ _
  next input output config hr =>
    obtain ⟨arguments, hc⟩ := Invocation.request_eq_ok_iff.mp hr
    simp only
    split
    next => exact .failed _ _
    next text hg =>
      obtain ⟨readable, generated⟩ := generateBytes_outcome_eq_ok hg
      exact .printed _ arguments ⟨readable, config, hc, generated⟩
    next text path hg =>
      obtain ⟨readable, generated⟩ := generateBytes_outcome_eq_ok hg
      cases hw : (fs.writeArtifact faults path text).outcome with
      | error cause =>
        rw [(writeArtifact_course faults fs path text).allOrNothing.failed cause hw]
        exact .failed _ _
      | ok _ => exact .written _ arguments ⟨readable, config, hc, generated⟩ hw

/-- A run ends well exactly if the arguments and the settings are right, the dictionary can be read
and compiled and the file, if one is asked for, can be written. -/
theorem runCommandUnder_exitCode_eq_zero_iff :
    (fs.runCommandUnder unreadable faults i).exitCode = 0 ↔
      ∃ input output text, i.arguments = input :: output.toList ∧
        Generates unreadable fs i input text ∧
        ∀ path, output = some path → (fs.writeArtifact faults path text).outcome = .ok () := by
  constructor
  · intro h
    have course := runCommandUnder_course unreadable faults fs i
    generalize fs.runCommandUnder unreadable faults i = run at h course
    cases course with
    | failed notices e => cases h
    | printed notices arguments generates =>
      exact ⟨_, none, _, arguments, generates, nofun⟩
    | @written input path text notices arguments generates writes =>
      refine ⟨input, some path, text, arguments, generates, ?_⟩
      rintro _ ⟨⟩
      exact writes
  · rintro ⟨input, output, text, arguments, ⟨rfl, config, hc, generated⟩, writes⟩
    have hr := Invocation.request_eq_ok_iff.mpr ⟨arguments, hc⟩
    unfold generateFile at generated
    unfold runCommandUnder
    cases output with
    | none => simp [hr, generated, CommandRun.exitCode]
    | some path => simp [hr, generated, writes path rfl, CommandRun.exitCode, Except.mapError]

end FileSystem

end FixTables
