-- The laws of a run. A definition can be looked at in three ways: its text is
-- saved in a file, or it is printed, or the names that it exports are listed.
-- The three show one text and one list of names, whatever flags are given.
import ModelScribe.Command.Run
import ModelScribe.Proofs.FileTree
import ModelScribe.Proofs.Tree
import ModelScribe.Proofs.WhiteSpace

namespace ModelScribe

/-! ## Command lines -/

/-- The command line asks for the command, and for no more log than by default. -/
def Asks (args : List String) (command : Command) : Prop :=
  Request.ofArguments args = .run 0 command

/-- The flags that override the options of a definition: a compact layout, an indent width,
or both in any order. -/
inductive OverrideFlags : List String → Bool → Option UInt8 → Prop
  | none : OverrideFlags [] false none
  | compact : OverrideFlags ["--compact"] true none
  | width {w : String} {n : UInt8} (hw : isOption w = false) (hn : parseTabSize w = some n) :
    OverrideFlags ["--tab-size", w] false (some n)
  | compactWidth {w : String} {n : UInt8} (hw : isOption w = false)
    (hn : parseTabSize w = some n) : OverrideFlags ["--compact", "--tab-size", w] true (some n)
  | widthCompact {w : String} {n : UInt8} (hw : isOption w = false)
    (hn : parseTabSize w = some n) : OverrideFlags ["--tab-size", w, "--compact"] true (some n)

/-- The arguments that name a file to save the text in. -/
def outputArguments : Option String → List String
  | none => []
  | some output => ["--output", output]

section

variable {name : CommandName} {f : Findings} {arg value : String} {rest : List String}

theorem ne_dashes (h : isOption arg = false) : arg ≠ "--" := by
  rintro rfl
  rw [show isOption "--" = true by simp [isOption]] at h
  cases h

theorem readArguments_plain (h : isOption arg = false) :
    readArguments (some name) f (arg :: rest) = match f.addPlain name arg with
      | some f => readArguments (some name) f rest
      | none => .error .misuse := by
  rw [readArguments.eq_def]
  simp only [if_neg (ne_dashes h), h]
  rfl

/-- A long option that waits for its value takes the next argument. -/
theorem readArguments_value {o : OptionName} (hdashes : arg ≠ "--")
    (hlong : arg.startsWith "--" = true)
    (hoption : isOption arg = true)
    (ho : longOption (optionsAfter (some name)) (arg.toList.drop 2) = .pending [] o)
    (h : isOption value = false) :
    readArguments (some name) f (arg :: value :: rest) = match f.addAll [(o, value)] with
      | some f => readArguments (some name) f rest
      | none => .error .misuse := by
  rw [readArguments.eq_def]
  simp only [if_neg hdashes, hoption, hlong, if_true, ho, h]
  rfl

theorem readArguments_output (h : isOption value = false) :
    readArguments (some .generate) f ("--output" :: value :: rest)
      = match f.addAll [(.output, value)] with
        | some f => readArguments (some .generate) f rest
        | none => .error .misuse :=
  readArguments_value (by decide) (by simp) (by simp [isOption]) rfl h

theorem readArguments_tabSize (h : isOption value = false) :
    readArguments (some .generate) f ("--tab-size" :: value :: rest)
      = match f.addAll [(.tabSize, value)] with
        | some f => readArguments (some .generate) f rest
        | none => .error .misuse :=
  readArguments_value (by decide) (by simp) (by simp [isOption]) rfl h

theorem readArguments_compact :
    readArguments (some .generate) f ("--compact" :: rest)
      = match f.addAll [(.compact, "")] with
        | some f => readArguments (some .generate) f rest
        | none => .error .misuse := by
  have hlong : "--compact".startsWith "--" = true := by simp
  have hoption : isOption "--compact" = true := by simp [isOption]
  have ho : longOption (optionsAfter (some .generate)) ("--compact".toList.drop 2)
      = .ok [(.compact, "")] := rfl
  rw [readArguments.eq_def]
  cases hadd : f.addAll [(.compact, "")] <;>
    simp only [if_neg (by decide : "--compact" ≠ "--"), hoption, hlong, ho, hadd, if_true]

/-- The name of the command is handed back with what follows it. -/
theorem readArguments_name (h : isOption arg = false) :
    readArguments none f (arg :: rest) = .ok (f, arg :: rest) := by
  rw [readArguments.eq_def]
  simp only [if_neg (ne_dashes h), h]
  rfl

end

/-- What is found behind the name of a command settles the request. -/
theorem asks_of_findings {name : CommandName} {f : Findings} {arg : String} {rest : List String}
    {command : Command} (harg : isOption arg = false) (hhelp : arg ≠ "help")
    (hname : CommandName.ofText arg = some name)
    (hread : readArguments (some name) {} rest = .ok (f, []))
    (hcommand : commandOf name f = some command) (hquiet : f.count .verbose = 0) :
    Asks (arg :: rest) command := by
  rw [Asks, Request.ofArguments, readArguments_name harg]
  simp only [if_neg hhelp, hname, hread, hcommand, hquiet]
  rfl

theorem asks_list {source : String} (h : isOption source = false) (hne : source.isEmpty = false) :
    Asks ["list", source] (.list source false) := by
  have hread : readArguments (some .list) {} [source] = .ok ({ plain := some source }, []) := by
    rw [readArguments_plain h]
    simp [Findings.addPlain, CommandName.accepts, hne, readArguments]
  exact asks_of_findings (by simp [isOption]) (by decide) rfl hread rfl rfl

section

variable {source : String} {output : Option String} {flags : List String} {compact : Bool}
  {tabSize : Option UInt8}

theorem has_concat (f : Findings) (o o' : OptionName) (value : String) :
    Findings.has { f with options := f.options ++ [(o', value)] } o = (f.has o || o' = o) := by
  simp [Findings.has]

/-- The flags are found as they are given, behind what has been found before. -/
theorem readArguments_overrides (hflags : OverrideFlags flags compact tabSize) {f : Findings}
    (hcompact : f.has .compact = false) (hwidth : f.has .tabSize = false) :
    ∃ found, readArguments (some .generate) f flags
        = .ok ({ f with options := f.options ++ found }, []) ∧
      found.any (·.1 = .compact) = compact ∧
      (found.lookup .tabSize).bind parseTabSize = tabSize ∧
      ∀ o ∈ found, o.1 = .compact ∨ o.1 = .tabSize := by
  cases hflags with
  | none => exact ⟨[], by simp [readArguments], rfl, rfl, by simp⟩
  | compact =>
    refine ⟨[(.compact, "")], ?_, rfl, rfl, by simp⟩
    simp [readArguments_compact, Findings.addAll, hcompact, OptionName.accepts, readArguments]
  | @width w n hw hn =>
    refine ⟨[(.tabSize, w)], ?_, rfl, hn, by simp⟩
    simp [readArguments_tabSize hw, Findings.addAll, hwidth, OptionName.accepts, hn, readArguments]
  | @compactWidth w n hw hn =>
    refine ⟨[(.compact, ""), (.tabSize, w)], ?_, rfl, hn, by simp⟩
    simp [readArguments_compact, readArguments_tabSize hw, Findings.addAll, hcompact, hwidth,
      has_concat, OptionName.accepts, hn, readArguments]
  | @widthCompact w n hw hn =>
    refine ⟨[(.tabSize, w), (.compact, "")], ?_, rfl, hn, by simp⟩
    simp [readArguments_compact, readArguments_tabSize hw, Findings.addAll, hcompact, hwidth,
      has_concat, OptionName.accepts, hn, readArguments]

theorem asks_generate (h : isOption source = false) (hne : source.isEmpty = false)
    (houtput : ∀ o ∈ output, isOption o = false ∧ o.isEmpty = false)
    (hflags : OverrideFlags flags compact tabSize) :
    Asks (["generate", source] ++ outputArguments output ++ flags)
      (.generate source output compact tabSize) := by
  have hgenerate : isOption "generate" = false := by simp [isOption]
  have hstart : readArguments (some .generate) {} (source :: (outputArguments output ++ flags))
      = readArguments (some .generate)
          { options := output.toList.map (OptionName.output, ·), plain := some source } flags := by
    rw [readArguments_plain h]
    cases output with
    | none => simp [Findings.addPlain, CommandName.accepts, hne, outputArguments]
    | some o =>
      obtain ⟨ho, hone⟩ := houtput o rfl
      simp [Findings.addPlain, CommandName.accepts, hne, outputArguments, readArguments_output ho,
        Findings.addAll, Findings.has, OptionName.accepts, hone]
  obtain ⟨found, hread, hcompact, hwidth, honly⟩ := readArguments_overrides hflags
    (f := { options := output.toList.map (OptionName.output, ·), plain := some source })
    (by cases output <;> rfl) (by cases output <;> rfl)
  have hquiet : ∀ o ∈ found, o.1 ≠ .verbose ∧ o.1 ≠ .output := by
    intro o ho
    rcases honly o ho with h | h <;> simp [h]
  have hlookup : found.lookup .output = none :=
    List.lookup_eq_none_iff.mpr fun o ho => bne_iff_ne.mpr (hquiet o ho).2.symm
  have hcount : found.filter (·.1 = .verbose) = [] :=
    List.filter_eq_nil_iff.mpr fun o ho => by simpa using (hquiet o ho).1
  refine asks_of_findings hgenerate (by decide) rfl (hstart.trans hread) ?_ ?_
  · have houtput : (output.toList.map (OptionName.output, ·) ++ found).lookup .output = output := by
      cases output with
      | none => exact hlookup
      | some o => rfl
    have htabSize : (output.toList.map (OptionName.output, ·) ++ found).lookup .tabSize
        = found.lookup .tabSize := by cases output <;> rfl
    have hcompact' : (output.toList.map (OptionName.output, ·) ++ found).any (·.1 = .compact)
        = compact := by cases output <;> exact hcompact
    simp only [commandOf, Option.bind_some, Findings.value?, Findings.has, houtput, htabSize,
      hcompact', hwidth]
  · cases output <;> simp [Findings.count, hcount]

end
/-! ## The log -/

/-- The filter of a run that is asked for no more log than by default. -/
def defaultFilter : LogFilter := LogFilter.ofVerbosity 0

theorem shows_defaultFilter (e : LogEvent) : defaultFilter.shows e = decide (e.level.rank ≤ 2) := by
  simp [defaultFilter, LogFilter.ofVerbosity, LogFilter.shows, LogFilter.deciding, LogRule.fits]

theorem logText_eq_empty {events : List LogEvent} (h : ∀ e ∈ events, 2 < e.level.rank) :
    logText defaultFilter events = "" := by
  have hnone : events.filter defaultFilter.shows = [] :=
    List.filter_eq_nil_iff.mpr fun e he => by simpa [shows_defaultFilter] using h e he
  rw [logText, hnone]
  rfl

namespace Program

theorem rank_of_mem_classEvents {classes : List Class} {seen : Bool} {e : LogEvent}
    (he : e ∈ classEvents seen classes) : 2 < e.level.rank := by
  induction classes generalizing seen with
  | nil => cases he
  | cons c rest ih =>
    rw [classEvents, List.mem_append, List.mem_cons] at he
    rcases he with (rfl | he) | he
    · exact (by decide : 2 < LogLevel.debug.rank)
    · split at he
      · rw [List.mem_singleton.mp he]
        exact (by decide : 2 < LogLevel.debug.rank)
      · cases he
    · exact ih he

/-- A generation reports nothing that shows by default. -/
theorem rank_of_mem_events {p : Program} {e : LogEvent} (he : e ∈ p.events) :
    2 < e.level.rank := by
  simp only [events, List.mem_append, List.mem_map, List.mem_singleton] at he
  rcases he with ((⟨_, -, rfl⟩ | ⟨_, -, rfl⟩) | he) | rfl
  · exact (by decide : 2 < LogLevel.debug.rank)
  · exact (by decide : 2 < LogLevel.debug.rank)
  · exact rank_of_mem_classEvents he
  · exact (by decide : 2 < LogLevel.trace.rank)

end Program

/-! ## Views of a definition -/

/-- The definition with the options that the flags give it. -/
def Definition.withFlags (d : Definition) (compact : Bool) (tabSize : Option UInt8) : Definition :=
  { d with
    options := { d.options with
      prettify := if compact then false else d.options.prettify
      tabSize := tabSize.getD d.options.tabSize } }

namespace Definition

variable (d : Definition) {compact : Bool} {tabSize : Option UInt8}

theorem override_eq :
    { d with options := d.options.override compact tabSize } = d.withFlags compact tabSize := by
  cases compact <;> simp [withFlags, Options.override]

/-- The names that are exported have nothing to do with the layout. -/
theorem manifest_withFlags :
    (d.withFlags compact tabSize).program.generate.manifest = d.program.manifest :=
  congrArg Assembly.manifest
    (Program.assembly_withOptions (p := d.program) (o := (d.withFlags compact tabSize).options) rfl)

theorem output_withFlags_compact (tabSize tabSize' : Option UInt8) :
    (d.withFlags true tabSize).program.generate.output
      = (d.withFlags true tabSize').program.generate.output :=
  congrArg (Layout.compact.write ·)
    (Program.doc_withOptions (p := (d.withFlags true tabSize').program)
      (o := (d.withFlags true tabSize).options) rfl)

theorem source_isEmpty {readText : String → Option String} {source : String} {d : Definition}
    (h : load readText source = .ok d) : source.isEmpty = false := by
  refine Bool.eq_false_iff.mpr fun hempty => ?_
  obtain rfl := String.isEmpty_iff.mp hempty
  have hformat : Path.format "" = none := rfl
  rw [load, hformat] at h
  cases h

end Definition

section

variable {t : FileTree} {args : List String} {source output : String} {definition : Definition}
  {compact : Bool} {tabSize : Option UInt8}

theorem run_of_request {environment : Option String} {verbosity : Nat} {command : Command}
    {filter : LogFilter} (h : Request.ofArguments args = .run verbosity command)
    (hfilter : LogFilter.ofSettings environment verbosity = some filter) (t : FileTree) :
    run environment args t = (Plan.ofCommand t.readText command).perform filter t := by
  simp only [run, h, Request.filter, hfilter, Plan.ofRequest]

theorem run_of_asks {command : Command} (h : Asks args command) (t : FileTree) :
    run none args t = (Plan.ofCommand t.readText command).perform defaultFilter t :=
  run_of_request h rfl t

variable (hload : Definition.load t.readText source = .ok definition)

include hload

theorem run_printing (h : Asks args (.generate source none compact tabSize)) :
    run none args t = {
      code := 0
      stdout := (definition.withFlags compact tabSize).program.generate.output ++ "\n"
      stderr := ""
      files := t } := by
  have hquiet := logText_eq_empty fun e =>
    Program.rank_of_mem_events (p := (definition.withFlags compact tabSize).program)
  simp only [run_of_asks h, Plan.ofCommand, hload, Definition.override_eq, Plan.perform, hquiet]

theorem run_listing (h : Asks args (.list source false)) :
    run none args t = {
      code := 0, stdout := definition.program.manifest.listing, stderr := "", files := t } := by
  have hquiet := logText_eq_empty fun e => Program.rank_of_mem_events (p := definition.program)
  simp only [run_of_asks h, Plan.ofCommand, hload, Plan.perform, hquiet, Bool.false_eq_true,
    if_false]

theorem run_saving (houtput : t.Takes output)
    (h : Asks args (.generate source (some output) compact tabSize)) :
    ∃ after,
      t.writeText output (definition.withFlags compact tabSize).program.generate.output
        = some after ∧
      run none args t = {
        code := 0
        stdout := ""
        stderr := savedReport output definition.program.manifest
        files := after } := by
  obtain ⟨after, hafter⟩ := FileTree.exists_writeText houtput
    (definition.withFlags compact tabSize).program.generate.output
  refine ⟨after, hafter, ?_⟩
  have hquiet : ∀ e ∈ (definition.withFlags compact tabSize).program.events ++
      [savedEvent output (definition.withFlags compact tabSize).program.generate.output],
      2 < e.level.rank := by
    intro e he
    rcases List.mem_append.mp he with he | he
    · exact Program.rank_of_mem_events he
    · rw [List.mem_singleton.mp he]
      exact (by decide : 2 < LogLevel.info.rank)
  simp only [run_of_asks h, Plan.ofCommand, hload, Definition.override_eq, Plan.perform, hafter,
    logText_eq_empty hquiet, Definition.manifest_withFlags, String.empty_append]

end

/-- A definition that can be loaded shows the same text and the same names in each of its views:
saved under a path that takes a text, printed, and as a list of names. -/
theorem the_views_of_a_definition_agree {t : FileTree} {source output : String}
    {definition : Definition} (hload : Definition.load t.readText source = .ok definition)
    (houtput : t.Takes output) (compact : Bool) (tabSize : Option UInt8) :
    (∀ flags, OverrideFlags flags compact tabSize → isOption source = false →
      isOption output = false →
        Asks (["generate", source, "--output", output] ++ flags)
          (.generate source (some output) compact tabSize) ∧
        Asks (["generate", source] ++ flags) (.generate source none compact tabSize) ∧
        Asks ["list", source] (.list source false)) ∧
    ∀ saving printing listing,
      Asks saving (.generate source (some output) compact tabSize) →
      Asks printing (.generate source none compact tabSize) →
      Asks listing (.list source false) →
        let text := (definition.withFlags compact tabSize).program.generate.output
        let saved := run none saving t
        let printed := run none printing t
        let listed := run none listing t
        saved.code = 0 ∧ saved.stdout = "" ∧
        (∃ access, saved.files.find output = some (.file (.text text) access)) ∧
        ((∀ content access, t.find output = some (.file content access) →
          access.readable = true) → saved.files.readText output = some text) ∧
        (∀ other, t.resolve other ≠ t.resolve output →
          saved.files.find other = t.find other) ∧
        printed.code = 0 ∧ printed.stdout = text ++ "\n" ∧ printed.files = t ∧
        listed.code = 0 ∧ listed.files = t ∧
        saved.stderr = "Generated " ++ output ++ "\n" ++ listed.stdout ∧
        ∀ tabSize', compact = true →
          (definition.withFlags compact tabSize').program.generate.output = text := by
  constructor
  · intro flags hflags hsource houtput'
    have hne := Definition.source_isEmpty hload
    have hne' : output.isEmpty = false := by
      obtain ⟨place, hplace, -⟩ := houtput
      refine Bool.eq_false_iff.mpr fun hempty => ?_
      rw [FileTree.resolve, hempty] at hplace
      cases hplace
    refine ⟨?_, ?_, asks_list hsource hne⟩
    · have hsome : ∀ o ∈ some output, isOption o = false ∧ o.isEmpty = false :=
        fun o ho => Option.some.inj ho ▸ ⟨houtput', hne'⟩
      exact asks_generate hsource hne hsome hflags
    · have hnone : ∀ o ∈ (none : Option String), isOption o = false ∧ o.isEmpty = false :=
        fun o ho => nomatch ho
      simpa [outputArguments] using asks_generate hsource hne hnone hflags
  · intro saving printing listing hsaving hprinting hlisting text saved printed listed
    obtain ⟨after, hafter, hsaved⟩ := run_saving hload houtput hsaving
    have hprinted : printed = _ := run_printing hload hprinting
    have hlisted : listed = _ := run_listing hload hlisting
    have hsaved : saved = _ := hsaved
    obtain ⟨place, -, hfind⟩ := FileTree.find_writeText hafter
    rw [hprinted, hlisted, hsaved]
    refine ⟨rfl, rfl, ⟨_, hfind⟩, FileTree.readText_writeText hafter,
      fun other hother => FileTree.find_writeText_of_ne hafter hother, rfl, rfl, rfl, rfl, rfl,
      rfl, fun tabSize' hcompact => ?_⟩
    subst hcompact
    exact definition.output_withFlags_compact tabSize' tabSize

/-- A tree with one definition, of an enumeration whose text is to be indented by two. -/
def roleFiles : FileTree := .ofFiles ["home"] [("role.json", .text <|
  "\x7b\"options\":\x7b\"tabSize\":2\x7d,"
    ++ "\"enums\":[\x7b\"name\":\"Role\",\"names\":[\"Admin\"]\x7d]\x7d")]

def roleDefinition : Definition where
  options := { tabSize := 2 }
  enums := [{ name := "Role", names := ["Admin"] }]

theorem the_views_of_an_enumeration_agree :
    Definition.load roleFiles.readText "role.json" = .ok roleDefinition ∧
    roleFiles.Takes "role.ts" ∧ OverrideFlags ["--tab-size", "3"] false (some 3) ∧
    let saved :=
      run none ["generate", "role.json", "--output", "role.ts", "--tab-size", "3"] roleFiles
    let printed := run none ["generate", "role.json", "--tab-size", "3"] roleFiles
    let listed := run none ["list", "role.json"] roleFiles
    saved.files.readText "role.ts" = some "export enum Role \x7b\n   Admin\n\x7d" ∧
    printed.stdout = "export enum Role \x7b\n   Admin\n\x7d\n" ∧
    printed.files = roleFiles ∧ saved.stderr = "Generated role.ts\n" ++ listed.stdout := by
  have hload : Definition.load roleFiles.readText "role.json" = .ok roleDefinition :=
    eq_ok_of_toOption (by decide +kernel)
  have hnew : roleFiles.find "role.ts" = none := by decide +kernel
  have houtput : roleFiles.Takes "role.ts" :=
    ⟨["home", "role.ts"], by decide +kernel, Or.inr (by decide +kernel)⟩
  have hflags : OverrideFlags ["--tab-size", "3"] false (some 3) :=
    .width (by decide +kernel) (by decide +kernel)
  have htext : (roleDefinition.withFlags false (some 3)).program.generate.output
      = "export enum Role \x7b\n   Admin\n\x7d" := by decide +kernel
  obtain ⟨hasks, hviews⟩ := the_views_of_a_definition_agree hload houtput false (some 3)
  obtain ⟨hsaving, hprinting, hlisting⟩ := hasks _ hflags (by decide +kernel) (by decide +kernel)
  obtain ⟨-, -, -, hsaved, -, -, hprinted, hsame, -, -, hreport, -⟩ :=
    hviews _ _ _ hsaving hprinting hlisting
  have hread := hsaved fun content access hfile => by
    rw [hnew] at hfile
    cases hfile
  rw [htext] at hread hprinted
  exact ⟨hload, houtput, hflags, hread, hprinted, hsame, hreport⟩

end ModelScribe
