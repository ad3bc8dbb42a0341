import Mathlib
import FixTables.Artifact
import FixTables.Proofs.FilePlaces
import FixTables.Proofs.Identifiers

namespace FixTables

/-- A name made unique goes on after the given one without a slash. -/
theorem uniqueIdentifier_eq_append (taken : List String) (base : String) :
    ∃ suffix, uniqueIdentifier taken base = base ++ suffix ∧ '/' ∉ suffix.toList := by
  unfold uniqueIdentifier
  split
  next =>
    refine ⟨"_" ++ (freeNumber taken base).repr, String.append_assoc, ?_⟩
    simpa using not_mem_repr (c := '/') rfl (freeNumber taken base)
  next => exact ⟨"", by simp⟩

namespace FileSystem

variable {fs : FileSystem} {p : Place} {path contents : String}

theorem namesOf_of_no_slash {name : String} (h : '/' ∉ name.toList) : namesOf name = [name] := by
  have single : name.toList.splitOn '/' = [name.toList] :=
    List.splitOnP_eq_singleton fun c hc => beq_false_of_ne fun e => h (e ▸ hc)
  simp [namesOf, single]

theorem namesOf_append_slash (dir name : String) :
    namesOf (dir ++ "/" ++ name) = namesOf dir ++ namesOf name := by
  simp [namesOf, List.splitOn, List.splitOnP_append_cons]

/-- A path joined to a name ends with that name. -/
theorem namesOf_joinPath {name : String} (h : '/' ∉ name.toList) (dir : String) :
    ∃ names, namesOf (joinPath dir name) = names ++ [name] := by
  have relative : ¬ isAbsolute name := by
    simp only [isAbsolute, decide_eq_true_eq]
    exact fun hh => h (List.mem_of_head? hh)
  unfold joinPath
  rw [if_neg relative]
  split
  next ends =>
    obtain ⟨cs, hcs⟩ := List.getLast?_eq_some_iff.mp ends
    have closed : dir = String.ofList cs ++ "/" := String.toList_injective (by simp [hcs])
    rw [closed, namesOf_append_slash, namesOf_of_no_slash h]
    exact ⟨_, rfl⟩
  next =>
    rw [show s!"{dir}/{name}" = dir ++ "/" ++ name from rfl, namesOf_append_slash,
      namesOf_of_no_slash h]
    exact ⟨_, rfl⟩

/-- The path of the temporary file through which a path is written. -/
def temporaryFor (fs : FileSystem) (path : String) : String :=
  fs.temporaryPath path
    (uniqueIdentifier ((fileName? path).toList ++ fs.usedNames) temporaryName)

/-- A place where nothing is and to which a path does not lead. -/
structure Spare (fs : FileSystem) (path : String) (p : Place) : Prop where
  free : fs.get? p = none
  elsewhere : ∀ q, fs.locate path = .ok q → q ≠ p

/-- Each place with a name that no entry has is free. -/
theorem get?_of_name_not_mem {dir : Place} {name : String} (h : name ∉ fs.usedNames) :
    fs.get? (dir ++ [name]) = none := by
  simp only [usedNames, List.mem_append, not_or] at h
  have outside : ¬ (dir ++ [name]) <+: fs.home :=
    fun hp => h.1 (hp.subset (List.mem_append_right _ List.mem_cons_self))
  rw [get?_of_not_prefix_home outside, List.lookup_eq_none_iff]
  intro entry he
  refine bne_iff_ne.mpr ?_
  intro same
  exact h.2 (List.mem_filterMap.mpr ⟨entry, he, by simp [← same]⟩)

/-- A temporary name with anything after it leads one step further down. -/
theorem step_temporaryName (dir : Place) (suffix : String) :
    step dir (temporaryName ++ suffix) = dir ++ [temporaryName ++ suffix] := by
  have longer (s : String) (h : s.length < 10) : temporaryName ++ suffix ≠ s := by
    rintro rfl
    rw [String.length_append, show temporaryName.length = 10 from rfl] at h
    omega
  simp [step, longer "" (by decide), longer "." (by decide), longer ".." (by decide)]

theorem spare_of_locate_temporaryFor (h : fs.locate (fs.temporaryFor path) = .ok p) :
    fs.Spare path p := by
  unfold temporaryFor temporaryPath at h
  have fresh := uniqueIdentifier_not_mem ((fileName? path).toList ++ fs.usedNames) temporaryName
  obtain ⟨suffix, hname, hsuffix⟩ :=
    uniqueIdentifier_eq_append ((fileName? path).toList ++ fs.usedNames) temporaryName
  rw [hname] at h fresh
  simp only [List.mem_append, Option.mem_toList, not_or] at fresh
  have plain : '/' ∉ (temporaryName ++ suffix).toList := by
    simpa [temporaryName] using hsuffix
  obtain ⟨names, hnames⟩ := namesOf_joinPath plain (fs.absolutePath (parentPath path))
  simp only [locate, except_bind_eq_ok_iff, hnames, follow_concat_eq_ok_iff] at h
  obtain ⟨-, -, dir, -, -, -, rfl⟩ := h
  rw [step_temporaryName]
  have free : fs.get? (dir ++ [temporaryName ++ suffix]) = none := get?_of_name_not_mem fresh.2
  refine ⟨free, ?_⟩
  rintro q hq rfl
  have named := fileName?_of_not_directory hq (by simp [free])
  exact fresh.1 (by simpa using named.symm)

theorem Spare.sameDirectories (h : fs.Spare path p) (bytes : ByteArray) :
    SameDirectories fs (fs.put p (.file bytes)) :=
  SameDirectories.put_file (by simp [h.free]) bytes

/-- Neither a path nor anything that is there sees a file that fills up at a spare place. -/
theorem Spare.kept (h : fs.Spare path p) (filled : List ByteArray) :
    ∀ state ∈ filled.map fun bytes => fs.put p (.file bytes),
      state.entryAt? path = fs.entryAt? path ∧
        ∀ q e, fs.get? q = some e → state.get? q = some e := by
  refine List.forall_mem_map.mpr fun bytes _ => ⟨?_, fun q e hq => ?_⟩
  · exact (h.sameDirectories bytes).entryAt?_eq fun q hq => get?_put_of_ne (h.elsewhere q hq)
  · rw [get?_put_of_ne, hq]
    rintro rfl
    simp [h.free] at hq

/-- The courses that writing a path can take: no temporary file is made, or one is filled and then
removed, or moved over the entry at the path. -/
inductive WriteCourse (fs : FileSystem) (path contents : String) : ArtifactRun → Prop
  | refused (e : ArtifactError) : WriteCourse fs path contents ⟨[], .error e⟩
  | abandoned {temporary : Place} (spare : fs.Spare path temporary) (filled : List ByteArray)
      (e : ArtifactError) :
      WriteCourse fs path contents
        ⟨filled.map (fun bytes => fs.put temporary (.file bytes)) ++ [fs], .error e⟩
  | published {temporary target : Place} (spare : fs.Spare path temporary)
      (filled : List ByteArray) (located : fs.locate path = .ok target)
      (replaceable : fs.get? target ≠ some .directory) :
      WriteCourse fs path contents
        ⟨filled.map (fun bytes => fs.put temporary (.file bytes)) ++
          [fs.put target (.file contents.toUTF8)], .ok ()⟩

theorem writeArtifact_course (faults : Faults) (fs : FileSystem) (path contents : String) :
    WriteCourse fs path contents (fs.writeArtifact faults path contents) := by
  have shown : fs.temporaryPath path
      (uniqueIdentifier ((fileName? path).toList ++ fs.usedNames) temporaryName) =
      fs.temporaryFor path := rfl
  simp only [writeArtifact, shown]
  split
  next => exact .refused _
  next => exact .refused _
  next temporary _ hl =>
    have spare := spare_of_locate_temporaryFor hl
    have emptied (bytes : ByteArray) : (fs.put temporary (.file bytes)).remove temporary = fs := by
      rw [remove_put, remove_of_get?_none spare.free]
    simp only [runSteps, guarded, put_put]
    cases faults .fill with
    | some cause =>
      simp only [emptied]
      exact .abandoned spare [.empty] _
    | none =>
      simp only [Except.mapError]
      cases faults .sync with
      | some cause =>
        simp only [emptied]
        exact .abandoned spare [.empty, contents.toUTF8] _
      | none =>
        simp only
        cases faults .publish with
        | some cause =>
          simp only [emptied]
          exact .abandoned spare [.empty, contents.toUTF8, contents.toUTF8] _
        | none =>
          simp only
          cases ht : (fs.put temporary (.file contents.toUTF8)).targetOf path with
          | error cause =>
            simp only [Except.map, emptied]
            exact .abandoned spare [.empty, contents.toUTF8, contents.toUTF8] _
          | ok target =>
            obtain ⟨located, replaceable⟩ := targetOf_eq_ok_iff.mp ht
            have same := spare.sameDirectories contents.toUTF8
            simp only [Except.map, move_put spare.free]
            exact .published spare [.empty, contents.toUTF8, contents.toUTF8]
              (same.locate_eq_ok_iff.mp located) (mt (same.directory target).mpr replaceable)

/-- Steps end well if each of them does, one after the other. -/
theorem runSteps_outcome (temporary : Place) (fs : FileSystem)
    (steps : List (FileSystem → Except ArtifactError FileSystem)) :
    (runSteps temporary fs steps).outcome =
      Except.map (fun _ => ()) (steps.foldlM (fun fs act => act fs) fs) := by
  induction steps generalizing fs with
  | nil => rfl
  | cons act steps ih =>
    rw [runSteps, List.foldlM_cons]
    cases act fs with
    | error e => rfl
    | ok next => exact ih next

theorem guarded_eq_ok_iff {faults : Faults} {step : WriteStep} {temporary : Option String}
    {act : FileSystem → Except IoError FileSystem} {fs' : FileSystem} :
    guarded faults step temporary act fs = .ok fs' ↔ faults step = none ∧ act fs = .ok fs' := by
  unfold guarded
  cases faults step with
  | some cause => simp
  | none => simp [except_mapError_eq_ok_iff]

/-- A path is written exactly if no step fails, a temporary file can be made beside it and it leads
to a place that is no directory. -/
theorem writeArtifact_ok_iff {faults : Faults} :
    (fs.writeArtifact faults path contents).outcome = .ok () ↔
      (∀ step, faults step = none) ∧ (∃ p, fs.locate (fs.temporaryFor path) = .ok p) ∧
        ∃ target, fs.locate path = .ok target ∧ fs.get? target ≠ some .directory := by
  have shown : fs.temporaryPath path
      (uniqueIdentifier ((fileName? path).toList ++ fs.usedNames) temporaryName) =
      fs.temporaryFor path := rfl
  simp only [writeArtifact, shown]
  split
  next cause hc => simpa using fun h => by simp [h] at hc
  next cause hl => simp [hl]
  next temporary hc hl =>
    have same := (spare_of_locate_temporaryFor hl).sameDirectories contents.toUTF8
    simp only [runSteps_outcome, except_map_eq_ok_iff, List.foldlM_cons, List.foldlM_nil,
      except_bind_eq_ok_iff, guarded_eq_ok_iff, put_put, Except.ok.injEq]
    constructor
    · rintro ⟨-, ⟨-, ⟨hf, rfl⟩, -, ⟨hs, rfl⟩, -, ⟨hp, target, ht, -⟩, -⟩, -⟩
      obtain ⟨located, replaceable⟩ := targetOf_eq_ok_iff.mp ht
      refine ⟨?_, ⟨temporary, hl⟩, target, same.locate_eq_ok_iff.mp located,
        mt (same.directory target).mpr replaceable⟩
      rintro (_ | _ | _ | _)
      · exact hc
      · exact hf
      · exact hs
      · exact hp
    · rintro ⟨none_fails, -, target, located, replaceable⟩
      have ht := targetOf_eq_ok_iff.mpr
        ⟨same.locate_eq_ok_iff.mpr located, mt (same.directory target).mp replaceable⟩
      exact ⟨_, ⟨_, ⟨none_fails _, rfl⟩, _, ⟨none_fails _, rfl⟩, _,
        ⟨none_fails _, target, ht, rfl⟩, rfl⟩, trivial⟩

/-- What a run that writes a path does to a file system: all of its work or none. -/
structure AllOrNothing (fs : FileSystem) (path contents : String) (run : ArtifactRun) : Prop where
  failed : ∀ e, run.outcome = .error e → run.final fs = fs
  succeeded : run.outcome = .ok () → ∃ target, fs.locate path = .ok target ∧
    (run.final fs).locate path = .ok target ∧
    ∀ p, (run.final fs).get? p = if p = target then some (.file contents.toUTF8) else fs.get? p
  between : ∀ state ∈ run.states, state.entryAt? path = fs.entryAt? path ∨
    run.outcome = .ok () ∧ state.entryAt? path = some (.file contents.toUTF8)
  untouched : ∀ state ∈ run.states, ∀ p e, fs.get? p = some e → fs.locate path ≠ .ok p →
    state.get? p = some e

namespace WriteCourse

variable {run : ArtifactRun}

/-- Walks go the same way after a write. -/
theorem sameDirectories (h : WriteCourse fs path contents run) :
    SameDirectories fs (run.final fs) := by
  cases h with
  | refused e => exact ⟨rfl, fun _ => Iff.rfl⟩
  | abandoned spare filled e => simpa [ArtifactRun.final] using ⟨rfl, fun _ => Iff.rfl⟩
  | published spare filled located replaceable =>
    simpa [ArtifactRun.final] using SameDirectories.put_file replaceable contents.toUTF8

theorem allOrNothing (h : WriteCourse fs path contents run) :
    AllOrNothing fs path contents run := by
  have same := h.sameDirectories
  cases h with
  | refused e => exact ⟨fun _ _ => rfl, nofun, nofun, nofun⟩
  | abandoned spare filled e =>
    have kept := spare.kept filled
    refine ⟨fun _ _ => by simp [ArtifactRun.final], nofun, ?_, ?_⟩
    · exact List.forall_mem_append.mpr ⟨fun state hs => .inl (kept state hs).1, by simp⟩
    · refine List.forall_mem_append.mpr ⟨fun state hs p e hp _ => (kept state hs).2 p e hp, ?_⟩
      simp +contextual
  | @published temporary target spare filled located replaceable =>
    have kept := spare.kept filled
    have hfinal : ArtifactRun.final ⟨filled.map (fun bytes => fs.put temporary (.file bytes)) ++
        [fs.put target (.file contents.toUTF8)], .ok ()⟩ fs =
        fs.put target (.file contents.toUTF8) := by simp [ArtifactRun.final]
    rw [hfinal] at same
    have relocated := same.locate_eq_ok_iff.mpr located
    refine ⟨nofun, fun _ => ?_, ?_, ?_⟩
    · rw [hfinal]
      exact ⟨target, located, relocated, get?_put replaceable⟩
    · refine List.forall_mem_append.mpr ⟨fun state hs => .inl (kept state hs).1, ?_⟩
      refine List.forall_mem_singleton.mpr (.inr ⟨rfl, ?_⟩)
      rw [entryAt?_of_locate relocated, get?_put_self replaceable]
    · refine List.forall_mem_append.mpr ⟨fun state hs p e hp _ => (kept state hs).2 p e hp, ?_⟩
      refine List.forall_mem_singleton.mpr fun p e hp elsewhere => ?_
      rw [get?_put_of_ne, hp]
      rintro rfl
      exact elsewhere located

end WriteCourse

/-- A request to write a path, and what fails meanwhile. -/
structure Write where
  faults : Faults
  path : String
  contents : String

def Write.run (w : Write) (fs : FileSystem) : ArtifactRun :=
  fs.writeArtifact w.faults w.path w.contents

/-- What a write put where, if it succeeded. -/
def Write.published? (w : Write) (fs : FileSystem) : Option (Place × ByteArray) :=
  match (w.run fs).outcome, fs.locate w.path with
  | .ok _, .ok target => some (target, w.contents.toUTF8)
  | _, _ => none

/-- What the successful ones among some writes put where, the last one first. -/
def published (fs : FileSystem) : List Write → List (Place × ByteArray)
  | [] => []
  | w :: ws => published ((w.run fs).final fs) ws ++ (w.published? fs).toList

end FileSystem

end FixTables
