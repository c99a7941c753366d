-- The law of runs that fail. A run reads its definition before it does anything
-- else, and saves its text before it tells of it. So a run that fails has
-- printed nothing, and it leaves every file as it was. A run that succeeds
-- has changed one file at most, the one that it was asked to save.
import ModelScribe.Proofs.Runs

namespace ModelScribe

/-! ## Commands that work on a definition -/

namespace Command

/-- The definition that the command reads. -/
def source : Command → Option String
  | .generate definition _ _ _ => some definition
  | .list definition _ => some definition
  | .completions _ => none

/-- The file that the command saves its text in. -/
def output : Command → Option String
  | .generate _ output _ _ => output
  | _ => none

end Command

/-! ## Definitions that cannot be had -/

/-- What can be wrong with the definition under a path. -/
inductive Faulty (t : FileTree) (source : String) : Prop
  /-- The name of the file does not tell a format. -/
  | unsupported (h : Path.format source = none)
  /-- The path leads to no file. -/
  | missing (h : ∀ content access, t.find source ≠ some (.file content access))
  /-- The file is closed to reading. -/
  | closed {content : Content} {access : Access} (h : t.find source = some (.file content access))
    (hclosed : access.readable = false)
  /-- The bytes of the file are no text. -/
  | binary {access : Access} (h : t.find source = some (.file .binary access))
  /-- The text of the file states no definition. -/
  | refused {format : SourceFormat} {text : String} {refusal : Refusal}
    (hformat : Path.format source = some format) (htext : t.readText source = some text)
    (h : Definition.parse format text = .error refusal)

/-- There is no definition exactly where something is wrong with it. -/
theorem Definition.load_eq_error_iff {t : FileTree} {source : String} :
    (∃ e, load t.readText source = .error e) ↔ Faulty t source := by
  unfold load
  cases hformat : Path.format source with
  | none => exact ⟨fun _ => .unsupported hformat, fun _ => ⟨_, rfl⟩⟩
  | some format =>
    cases htext : t.readText source with
    | none =>
      refine ⟨fun _ => ?_, fun _ => ⟨_, rfl⟩⟩
      rcases FileTree.readText_eq_none_iff.mp htext with h | ⟨content, access, h, hclosed⟩ | ⟨_, h⟩
      · exact .missing h
      · exact .closed h hclosed
      · exact .binary h
    | some text =>
      have hread : t.readText source ≠ none := by simp [htext]
      cases hparse : parse format text with
      | error refusal =>
        refine ⟨fun _ => .refused hformat htext hparse, fun _ => ⟨.refused source text refusal, ?_⟩⟩
        simp [parseNamed, hparse, Except.mapError]
      | ok definition =>
        refine ⟨fun ⟨e, he⟩ => ?_, fun hfaulty => ?_⟩
        · simp [parseNamed, hparse, Except.mapError] at he
        · cases hfaulty with
          | unsupported h => rw [hformat] at h; cases h
          | missing h => exact absurd (FileTree.readText_eq_none_iff.mpr (.inl h)) hread
          | closed h hclosed =>
            exact absurd (FileTree.readText_eq_none_iff.mpr (.inr (.inl ⟨_, _, h, hclosed⟩))) hread
          | binary h =>
            exact absurd (FileTree.readText_eq_none_iff.mpr (.inr (.inr ⟨_, h⟩))) hread
          | refused hformat' htext' h =>
            rw [hformat] at hformat'
            rw [htext] at htext'
            cases hformat'
            cases htext'
            rw [hparse] at h
            cases h

/-! ## Plans for a definition -/

section

variable {t : FileTree} {command : Command} {source : String}
  (hsource : command.source = some source)

include hsource

theorem plan_of_faulty (h : Faulty t source) :
    ∃ report, Plan.ofCommand t.readText command = .stop 1 "" report := by
  obtain ⟨e, he⟩ := Definition.load_eq_error_iff.mpr h
  refine ⟨e.report, ?_⟩
  cases command with
  | generate definition output compact tabSize =>
    obtain rfl := Option.some.inj hsource
    simp only [Plan.ofCommand, he]
  | list definition json =>
    obtain rfl := Option.some.inj hsource
    simp only [Plan.ofCommand, he]
  | completions shell => cases hsource

theorem plan_of_sound (h : ¬ Faulty t source) :
    (∃ events text, command.output = none ∧
      Plan.ofCommand t.readText command = .print events text) ∨
    ∃ (program : Program) (path text : String) (manifest : Manifest),
      command.output = some path ∧
        Plan.ofCommand t.readText command = .save program.events path text manifest := by
  cases hload : Definition.load t.readText source with
  | error e => exact absurd (Definition.load_eq_error_iff.mp ⟨e, hload⟩) h
  | ok loaded =>
    cases command with
    | generate definition output compact tabSize =>
      obtain rfl := Option.some.inj hsource
      simp only [Plan.ofCommand, hload]
      cases output with
      | none => exact Or.inl ⟨_, _, rfl, rfl⟩
      | some path => exact Or.inr ⟨_, path, _, _, rfl, rfl⟩
    | list definition json =>
      obtain rfl := Option.some.inj hsource
      simp only [Plan.ofCommand, hload]
      exact Or.inl ⟨_, _, rfl, rfl⟩
    | completions shell => cases hsource

end

/-! ## Failing and succeeding -/

/-- A run that fails leaves no trace. For each command that reads a definition, under all flags and
in every file tree: where something is wrong with the definition, and where the text cannot be
saved, the run ends with code 1 and has printed nothing, and the tree is as it was; nothing tells of
names, since only the log of the generation stands before the report. Otherwise the run succeeds,
and a place where something else stands than before is the one that the text was to be saved at. A
log filter of the environment that breaks the run off leaves no trace either. -/
theorem a_failing_run_leaves_no_trace {args : List String} {verbosity : Nat} {command : Command}
    {source : String} (hrequest : Request.ofArguments args = .run verbosity command)
    (hsource : command.source = some source) (environment : Option String) (t : FileTree) :
    let o := run environment args t
    (∀ filter, LogFilter.ofSettings environment verbosity = some filter →
      (Faulty t source → o.code = 1 ∧ o.stdout = "" ∧ o.files = t) ∧
      (¬ Faulty t source → ∀ output ∈ command.output, ¬ t.Takes output →
        o.code = 1 ∧ o.stdout = "" ∧ o.files = t ∧
          ∃ program : Program, o.stderr = logText filter program.events ++ unsavedReport output) ∧
      (¬ Faulty t source → (∀ output ∈ command.output, t.Takes output) →
        o.code = 0 ∧ o.files.working = t.working ∧
          ∀ place, o.files.nodeAt place ≠ t.nodeAt place →
            ∃ output ∈ command.output, t.resolve output = some place)) ∧
    (LogFilter.ofSettings environment verbosity = none →
      environment ≠ none ∧ o.code = 101 ∧ o.stdout = "" ∧ o.files = t) := by
  intro o
  refine ⟨fun filter hfilter => ?_, fun hnone => ?_⟩
  · have ho : o = (Plan.ofCommand t.readText command).perform filter t :=
      run_of_request hrequest hfilter t
    refine ⟨fun hfaulty => ?_, fun hsound output houtput hrefused => ?_, fun hsound htakes => ?_⟩
    · obtain ⟨report, hplan⟩ := plan_of_faulty hsource hfaulty
      rw [ho, hplan]
      exact ⟨rfl, rfl, rfl⟩
    · obtain ⟨_, _, hprint, -⟩ | ⟨program, path, text, manifest, hsave, hplan⟩ :=
        plan_of_sound hsource hsound
      · rw [hprint] at houtput
        cases houtput
      · obtain rfl : path = output := Option.some.inj (hsave.symm.trans houtput)
        rw [ho, hplan, Plan.perform, FileTree.writeText_eq_none_iff.mpr hrefused]
        exact ⟨rfl, rfl, rfl, program, rfl⟩
    · obtain ⟨events, text, -, hplan⟩ | ⟨program, path, text, manifest, hsave, hplan⟩ :=
        plan_of_sound hsource hsound
      · rw [ho, hplan]
        exact ⟨rfl, rfl, fun place hplace => absurd rfl hplace⟩
      · obtain ⟨after, hafter⟩ := FileTree.exists_writeText (htakes path hsave) text
        rw [ho, hplan, Plan.perform, hafter]
        refine ⟨rfl, FileTree.working_writeText hafter, fun place hplace => ⟨path, hsave, ?_⟩⟩
        by_contra hne
        exact hplace (FileTree.nodeAt_writeText_of_ne hafter hne)
  · have ho : o = Plan.unfiltered.perform [] t := by
      simp only [o, run, hrequest, Request.filter, hnone]
    refine ⟨?_, ?_⟩
    · rintro rfl
      cases hnone
    · rw [ho]
      exact ⟨rfl, rfl, rfl⟩

/-- A definition that is closed to reading, a sound one whose text is to be saved over a file that
is closed to writing, with a log, and one whose text is saved in an empty directory far from the
working place, through a link. -/
theorem two_runs_that_fail_leave_no_trace :
    let t : FileTree := {
      roleFiles with
      entries := [
        (["home", "sealed.json"], .file (.text "\x7b\x7d") { readable := false }),
        (["home", "old.ts"], .file (.text "old") { writable := false }),
        (["srv"], .directory {}),
        (["home", "out"], .link "/srv")] ++ roleFiles.entries }
    let listing := ["list", "--json", "sealed.json"]
    let spoiling := ["generate", "-v", "role.json", "-o", "../home/old.ts", "--compact"]
    let saving := ["generate", "role.json", "-o", "/home/out/role.ts"]
    Request.ofArguments listing = .run 0 (.list "sealed.json" true) ∧
    Request.ofArguments spoiling
      = .run 1 (.generate "role.json" (some "../home/old.ts") true none) ∧
    Request.ofArguments saving
      = .run 0 (.generate "role.json" (some "/home/out/role.ts") false none) ∧
    (Faulty t "sealed.json" ∧ ¬ Faulty t "role.json" ∧ ¬ t.Takes "../home/old.ts" ∧
      t.Takes "/home/out/role.ts") ∧
    ((run none listing t).code = 1 ∧ (run none listing t).stdout = "" ∧
      (run none listing t).files = t) ∧
    ((run none spoiling t).code = 1 ∧ (run none spoiling t).stdout = "" ∧
      (run none spoiling t).files = t) ∧
    (run none saving t).code = 0 ∧
      ∀ place, (run none saving t).files.nodeAt place ≠ t.nodeAt place →
        place = ["srv", "role.ts"] := by
  intro t listing spoiling saving
  have hlisting : Request.ofArguments listing = .run 0 (.list "sealed.json" true) := by
    decide +kernel
  have hspoiling : Request.ofArguments spoiling
      = .run 1 (.generate "role.json" (some "../home/old.ts") true none) := by decide +kernel
  have hsaving : Request.ofArguments saving
      = .run 0 (.generate "role.json" (some "/home/out/role.ts") false none) := by decide +kernel
  have hsealed : Faulty t "sealed.json" :=
    .closed (show t.find "sealed.json" = some (.file (.text "\x7b\x7d") { readable := false }) by
      decide +kernel) rfl
  have hsound : ¬ Faulty t "role.json" := by
    intro hfaulty
    obtain ⟨e, he⟩ := Definition.load_eq_error_iff.mpr hfaulty
    have hload : Definition.load t.readText "role.json" = .ok roleDefinition :=
      eq_ok_of_toOption (by decide +kernel)
    rw [hload] at he
    cases he
  have hclosed : ¬ t.Takes "../home/old.ts" :=
    FileTree.writeText_eq_none_iff.mp (show t.writeText "../home/old.ts" "" = none by
      decide +kernel)
  have hplace : t.resolve "/home/out/role.ts" = some ["srv", "role.ts"] := by decide +kernel
  have htakes : t.Takes "/home/out/role.ts" := ⟨_, hplace, Or.inr (by decide +kernel)⟩
  have hlisted := (a_failing_run_leaves_no_trace hlisting rfl none t).1 _ rfl
  have hspoilt := (a_failing_run_leaves_no_trace hspoiling rfl none t).1 _ rfl
  have hsaved := (a_failing_run_leaves_no_trace hsaving rfl none t).1 _ rfl
  obtain ⟨hcode, hstdout, hsame, -⟩ := hspoilt.2.1 hsound "../home/old.ts" rfl hclosed
  obtain ⟨hdone, -, honly⟩ := hsaved.2.2 hsound fun output houtput => by
    obtain rfl := Option.some.inj houtput
    exact htakes
  refine ⟨hlisting, hspoiling, hsaving, ⟨hsealed, hsound, hclosed, htakes⟩, hlisted.1 hsealed,
    ⟨hcode, hstdout, hsame⟩, hdone, fun place hchanged => ?_⟩
  obtain ⟨output, houtput, hresolve⟩ := honly place hchanged
  obtain rfl := Option.some.inj houtput
  rw [hplace] at hresolve
  exact (Option.some.inj hresolve).symm

end ModelScribe
