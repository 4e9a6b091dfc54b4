import RichDoc.Proofs.CommandLine.Stored
import RichDoc.Proofs.Config.Spelled

/-!
# A run does all or nothing

What a run is to do depends on the store and the command line alone: the
configuration that presets it (`Store.Presets`), the text of its input
(`Store.input?`) and what the document in that text is exported as
(`Store.Exports`). The first three stages of a run only look at the store,
and they give a text exactly if there is one to export (`chooseConfig_run`,
`readInput_run`, `exportInput_eq_ok_iff`); the fourth hands it to one
receiver. A configuration file whose text spells a configuration presets
that one and no other (`presets_iff_of_spelledBy`).
-/

namespace RichDoc

namespace Store

variable {store : Store} {arguments : Arguments} {config : Config}

/-- The variables of the environment. -/
def variableNamed (store : Store) (name : String) : Id (Option String) :=
  store.environment.lookup name

/-- Where the configuration is looked for, given the path on the command line. -/
def configPath (store : Store) : Option String → String
  | some given => (Path.expand store.variableNamed given).run.getD given
  | none => (store.environment.lookup "HOME").getD "~" ++ "/.config/nestmark/config.toml"

/-- A configuration presets a run if it is the one in its file. Only where
no path was given the file may be missing, and then nothing is preset. -/
inductive Presets (store : Store) (given : Option String) : Config → Prop
  | found {text : String} {config : Config}
      (hread : store.read? (store.configPath given) = some text)
      (hparse : Config.parse (store.configPath given) text = .ok config) :
      Presets store given config
  | missing (hgiven : given = none) (hmissing : store.exists? (store.configPath given) = false) :
      Presets store given {}

/-- The text of an input: a file's, or with a dash that of the standard input. -/
def input? (store : Store) (name : String) : Option String :=
  if name = "-" then store.input else store.read? name

/-- A text is what a command line asks for: the export of the document in
the input. A version on the command line takes the place of the preset
one, an indent that of the preset one unless the output is to be compact,
and everything else stays as it is preset. -/
inductive Exports (store : Store) (arguments : Arguments) (text : String) : Prop
  | intro {config : Config} {input : String} {root : Node}
      (hpreset : store.Presets arguments.config config)
      (hinput : store.input? arguments.input = some input)
      (hroot : Node.ofText input = .ok root)
      (hexport : root.exportText
        { settings :=
          { apiVersion := arguments.apiVersion.getD (config.apiVersion.getD {})
            indexes := config.indexes
            indent := if arguments.compact then none else arguments.indent.or config.indent } } =
          .ok text)

/-- The one receiver of a text has it and nothing else has changed: a file
has it as its only text, the standard output at its end and as a line. -/
def Receives (store : Store) (output : Option String) (text : String) (after : Store) : Prop :=
  match output with
  | none => after = { store with output := store.output ++ (text ++ "\n") }
  | some path => ∃ location, store.locate? path = some location ∧
      (∀ other, after.text? other = if other = location then some text else store.text? other) ∧
      (∀ other, after.file? other = if other = location then some text else store.file? other) ∧
      after = { store with files := after.files, undecodable := after.undecodable }

/-! ## The stages of a run -/

theorem mapM_expand_run (parts : List Path.Part) (store : Store) :
    (parts.mapM (Path.Part.expand (m := StateM Store) system.lookupVariable)).run store =
      pure ((parts.mapM (Path.Part.expand store.variableNamed)).run, store) := by
  induction parts with
  | nil => rfl
  | cons part rest ih =>
      have hpart : (part.expand (m := StateM Store) system.lookupVariable).run store =
          pure ((part.expand store.variableNamed).run, store) := by
        cases part with
        | text cs => rfl
        | named name standIn =>
            change (match store.environment.lookup name with
              | some value => pure (some value.toList)
              | none => pure standIn : StateM Store _).run store =
                pure ((match store.environment.lookup name with
                  | some value => pure (some value.toList)
                  | none => pure standIn : Id _).run, store)
            cases store.environment.lookup name <;> rfl
      simp only [List.mapM_cons, StateT.run_bind, hpart, ih, pure_bind]
      rfl

theorem expand_run (given : String) (store : Store) :
    (Path.expand (m := StateM Store) system.lookupVariable given).run store =
      ((Path.expand store.variableNamed given).run, store) := by
  simp only [Path.expand, StateT.run_bind, mapM_expand_run, pure_bind]
  rfl

theorem configFile_run (store : Store) :
    (Path.configFile (m := StateM Store) system.lookupVariable).run store =
      (store.configPath none, store) := by
  have hpath (home : Option String) :
      String.ofList (Path.expandTilde home "~/.config/nestmark".toList) ++ "/config.toml" =
        home.getD "~" ++ "/.config/nestmark/config.toml" := by
    cases home with
    | none => rfl
    | some home => simp [← String.toList_inj, Path.expandTilde]
  exact congrArg (·, store) (hpath (store.environment.lookup "HOME"))

/-- The configuration that is chosen, or why there is none. -/
def chosen (store : Store) (given : Option String) : Except RunError Config :=
  match store.loadConfig (store.configPath given) with
  | .error cause => .error cause
  | .ok (some config) => .ok config
  | .ok none => if given = none then .ok {} else .error (.configMissing (store.configPath given))

theorem chooseConfig_run (store : Store) (given : Option String) :
    (chooseConfig system given).run.run store = (store.chosen given, store) := by
  unfold chosen
  cases given with
  | some given =>
      simp only [chooseConfig, run_bind, run_lift, expand_run, loadConfig_run]
      unfold configPath
      cases store.loadConfig _ with
      | error cause => rfl
      | ok found => cases found <;> rfl
  | none =>
      simp only [chooseConfig, run_bind, run_lift, configFile_run, loadConfig_run]
      cases store.loadConfig _ with
      | error cause => rfl
      | ok found => cases found <;> rfl

theorem chosen_eq_ok_iff {given : Option String} :
    store.chosen given = .ok config ↔ store.Presets given config := by
  constructor
  · intro h
    unfold chosen at h
    split at h
    · cases h
    next hload =>
        cases h
        obtain ⟨text, hread, hparse⟩ := loadConfig_eq_some_iff.mp hload
        exact .found hread hparse
    next hload =>
        split at h
        next hgiven =>
            cases h
            exact .missing hgiven (loadConfig_eq_none_iff.mp hload)
        next => cases h
  · rintro (⟨hread, hparse⟩ | ⟨hgiven, hmissing⟩)
    · simp only [chosen, loadConfig_eq_some_iff.mpr ⟨_, hread, hparse⟩]
    · simp only [chosen, loadConfig_eq_none_iff.mpr hmissing, if_pos hgiven]

/-- A configuration that is spelled in its file is what is preset, unless a name is there twice;
then nothing is. -/
theorem presets_iff_of_spelledBy {given : Option String} {text : String} {other : Config}
    (hfits : config.Fits) (hspelled : config.SpelledBy text)
    (hread : store.read? (store.configPath given) = some text) :
    store.Presets given other ↔ other = config ∧ (config.indexes.map (·.name)).Nodup := by
  rw [← Config.parse_eq_ok_iff hfits hspelled]
  constructor
  · rintro (⟨hread', hparse⟩ | ⟨-, hmissing⟩)
    · rw [hread] at hread'
      cases hread'
      exact hparse
    · rw [exists?_of_read? hread] at hmissing
      cases hmissing
  · exact .found hread

theorem readInput_run (store : Store) (name : String) :
    ∃ result, (readInput system name).run.run store = (result, store) ∧
      ∀ text, result = .ok text ↔ store.input? name = some text := by
  unfold readInput input?
  split
  · simp only [run_bind, run_lift, run_readInput]
    cases store.input with
    | none => exact ⟨_, rfl, fun text => by simp⟩
    | some input => exact ⟨_, rfl, fun text => by simp⟩
  · simp only [run_bind, run_lift, run_readFile]
    cases store.read? name with
    | none => exact ⟨_, rfl, fun text => by simp⟩
    | some input => exact ⟨_, rfl, fun text => by simp⟩

end Store

theorem exportInput_eq_ok_iff {settings : Settings} {input text : String} :
    exportInput settings input = .ok text ↔
      ∃ root, Node.ofText input = .ok root ∧ root.exportText { settings } = .ok text := by
  unfold exportInput
  cases hroot : Node.ofText input with
  | error cause => simp [Except.mapError, bind, Except.bind]
  | ok root =>
      cases hexport : root.exportText { settings } <;>
        simp [Except.mapError, bind, Except.bind, hexport]

namespace Store

variable {store : Store} {arguments : Arguments}

/-- The text is handed over, or it could not be written and nothing has changed. -/
theorem writeResult_run (store : Store) (output : Option String) (text : String) :
    (∃ after, (writeResult system output text).run.run store = (.ok (), after) ∧
      store.Receives output text after) ∨
    ∃ path, output = some path ∧ store.write? path text = none ∧
      (writeResult system output text).run.run store =
        (.error (.outputUnwritable path), store) := by
  cases output with
  | none => exact .inl ⟨_, rfl, rfl⟩
  | some path =>
      have hrun := @run_writeFile store path text
      cases hwrite : store.write? path text with
      | none =>
          refine .inr ⟨path, rfl, hwrite, ?_⟩
          simp only [writeResult, run_bind, run_lift, hrun, hwrite]
          rfl
      | some after =>
          obtain ⟨location, hl, -, rfl⟩ := write?_eq_some_iff.mp hwrite
          refine .inl ⟨store.put location text, ?_, location, hl, fun _ => text?_put,
            fun _ => file?_put, rfl⟩
          simp only [writeResult, run_bind, run_lift, hrun, hwrite]
          rfl

/-- The stages in front of the last only look at the store. -/
theorem export_run (store : Store) (arguments : Arguments) :
    ∃ result : Except RunError String, (∀ text, result = .ok text ↔ store.Exports arguments text) ∧
      (run system arguments).run.run store =
        match result with
        | .ok text => (writeResult system arguments.output text).run.run store
        | .error cause => (.error cause, store) := by
  have hchoose := chooseConfig_run store arguments.config
  obtain ⟨given, hinput, hgiven⟩ := readInput_run store arguments.input
  cases hchosen : store.chosen arguments.config with
  | error cause =>
      rw [hchosen] at hchoose
      refine ⟨.error cause, fun text => ⟨nofun, fun ⟨hpreset, _, _, _⟩ => ?_⟩, ?_⟩
      · cases hchosen.symm.trans (chosen_eq_ok_iff.mpr hpreset)
      · simp only [run, run_bind, hchoose]
  | ok config =>
      rw [hchosen] at hchoose
      cases given with
      | error cause =>
          refine ⟨.error cause, fun text => ⟨nofun, fun ⟨_, hread, _, _⟩ => ?_⟩, ?_⟩
          · cases (hgiven _).mpr hread
          · simp only [run, run_bind, hchoose, hinput]
      | ok input =>
          refine ⟨exportInput (arguments.settings config) input, fun text => ⟨fun h => ?_,
            fun ⟨hpreset, hread, hroot, hexport⟩ => ?_⟩, ?_⟩
          · obtain ⟨root, hroot, hexport⟩ := exportInput_eq_ok_iff.mp h
            exact ⟨chosen_eq_ok_iff.mp hchosen, (hgiven _).mp rfl, hroot, hexport⟩
          · cases hchosen.symm.trans (chosen_eq_ok_iff.mpr hpreset)
            cases (hgiven _).mpr hread
            exact exportInput_eq_ok_iff.mpr ⟨_, hroot, hexport⟩
          · simp only [run, run_bind, hchoose, hinput, run_mk]
            cases exportInput (arguments.settings config) input <;> rfl

end Store

/-- **A run does all or nothing.** Either there is exactly one text that is to be exported, and one
receiver gets it; or the run fails and the store is as it was, because there is no such text or
because its file cannot be written. Where the configuration file spells a configuration, this one
presets the run and no other, or nothing does if it has a name twice. -/
theorem run_store (store : Store) (arguments : Arguments) :
    ((∃ text after, (run Store.system arguments).run.run store = (.ok (), after) ∧
      (∀ other, store.Exports arguments other ↔ other = text) ∧
      store.Receives arguments.output text after) ∨
    (∃ cause, (run Store.system arguments).run.run store = (.error cause, store) ∧
      ((∀ text, ¬store.Exports arguments text) ∨
        ∃ path text, arguments.output = some path ∧ cause = .outputUnwritable path ∧
          store.Exports arguments text ∧ store.write? path text = none))) ∧
    ∀ (config : Config) (text : String), config.Fits → config.SpelledBy text →
      store.read? (store.configPath arguments.config) = some text →
      ∀ other, store.Presets arguments.config other ↔
        other = config ∧ (config.indexes.map (·.name)).Nodup := by
  refine ⟨?_, fun config text hfits hspelled hread other =>
    Store.presets_iff_of_spelledBy hfits hspelled hread⟩
  obtain ⟨result, hresult, hrun⟩ := store.export_run arguments
  cases result with
  | error cause =>
      exact .inr ⟨cause, hrun, .inl fun text h => nomatch (hresult text).mpr h⟩
  | ok text =>
      obtain ⟨after, hwrite, hreceives⟩ | ⟨path, houtput, hrefused, hwrite⟩ :=
        store.writeResult_run arguments.output text
      · refine .inl ⟨text, after, hrun.trans hwrite, fun other => ?_, hreceives⟩
        rw [← hresult, Except.ok.injEq, eq_comm]
      · exact .inr ⟨_, hrun.trans hwrite,
          .inr ⟨path, text, houtput, rfl, (hresult text).mp rfl, hrefused⟩⟩

open Toml in
/-- The entries in another order than they are printed in, one of them behind blanks, with a
comment, a list on one line and a string between single quotes. -/
theorem spelledBy_byHand :
    Config.SpelledBy
      { apiVersion := some ⟨1, 22, 2⟩, indent := some 0
        indexes := [{ name := "persons", refClass := some "person-ref" }] }
      ("# defaults\nindent = 0 \napi_version = [1, 22, 2]\n\n" ++
        "[[indexes]]\n  ref_class='person-ref'\nname = \"persons\"\n") := by
  have hcomment : IsGap "# defaults\n".toList :=
    @IsGap.intro [] "# defaults".toList ['\n'] rfl (.inr ⟨_, rfl, by decide⟩) (.inl rfl)
  have hblank : IsGap [' ', '\n'] := @IsGap.intro [' '] [] ['\n'] rfl (.inl rfl) (.inl rfl)
  have hindent : SpellsEntry "indent" (.integer 0) "indent = 0 \n".toList :=
    @SpellsEntry.intro _ _ [] [' '] [' '] _ _ (by decide) rfl rfl rfl
      (@SpellsValue.number 0 (by decide)) hblank
  have hnumbers : SpellsNumbers "1, 22, 2]".toList [1, 22, 2] :=
    @SpellsNumbers.more [] [] _ 1 _ (.blanks rfl) (by decide) (.blanks rfl)
      (@SpellsNumbers.more [' '] [] _ 22 _ (.blanks rfl) (by decide) (.blanks rfl)
        (@SpellsNumbers.last [' '] [] 2 (.blanks rfl) (by decide) (.blanks rfl)))
  have hversion : SpellsEntry "api_version"
      (.array false ([1, 22, 2].map fun n : Nat => .integer n))
      "api_version = [1, 22, 2]\n".toList :=
    @SpellsEntry.intro _ _ [] [' '] [' '] _ _ (by decide) rfl rfl rfl (.numbers hnumbers)
      isGap_newline
  have hvisible : "person-ref".toList.all isVisible = true := by decide
  have hliteral : SpellsString "'person-ref'".toList "person-ref".toList :=
    @SpellsString.line _ _ "person-ref".toList _ .literal
      (shows_self (by decide) fun c hc => .inl (List.all_eq_true.mp hvisible c hc))
  have hrefClass : SpellsEntry "ref_class" (.string "person-ref")
      "  ref_class='person-ref'\n".toList :=
    @SpellsEntry.intro _ _ [' ', ' '] [] [] _ _ (by decide) rfl rfl rfl (.string hliteral)
      isGap_newline
  have hname := spells_stringLine (show IsBareKey "name" by decide) "persons"
  exact .intro (by decide) (.swap _ _ _)
    (.gap hcomment (.entry hindent (.entry hversion (.gap isGap_newline .nil))))
    (.cons (.swap _ _ _) .nil)
    (.table (spells_repeatedHeader (by decide)) (.entry hrefClass (.entry hname .nil)) .nil)

/-- A configuration below the home directory, whether it is named or found, presets a run whose
input is named from the root and whose output stands above the working directory. -/
theorem run_store_above :
    let text := "# defaults\nindent = 0 \napi_version = [1, 22, 2]\n\n" ++
      "[[indexes]]\n  ref_class='person-ref'\nname = \"persons\"\n"
    let config : Config :=
      { apiVersion := some ⟨1, 22, 2⟩, indent := some 0
        indexes := [{ name := "persons", refClass := some "person-ref" }] }
    let input := "\x7b\"type\":\"doc\",\"content\":[\x7b\"type\":\"horizontalRule\"\x7d]\x7d"
    let result := "\x7b\"pandoc-api-version\":[1,22,2],\"meta\":\x7b\x7d," ++
      "\"blocks\":[\x7b\"t\":\"HorizontalRule\"\x7d]\x7d"
    let store : Store :=
      { files := [(["home", "ann", ".config", "nestmark", "config.toml"], text),
          (["home", "ann", "in.json"], input)]
        workingDirectory := ["home", "ann", "notes"]
        environment := [("HOME", "/home/ann"), ("PROGRAM", "nestmark")] }
    let arguments : Arguments :=
      { input := "/home/ann/in.json", output := some "../out.json", compact := true
        config := some "~/.config/$PROGRAM/config.toml" }
    (∀ other, store.Presets none other ↔ other = config) ∧
    (∀ other, store.Presets arguments.config other ↔ other = config) ∧
    ∃ after, (run Store.system arguments).run.run store = (.ok (), after) ∧
      after.output = "" ∧ after.text? ["home", "ann", "out.json"] = some result := by
  intro text config input result store arguments
  have hfits : config.Fits := by
    constructor
    · rintro _ ⟨⟩
      decide
    · rintro _ ⟨⟩
      decide
  have hpresets {given : Option String} (hpath : store.configPath given =
      Store.pathTo ["home", "ann", ".config", "nestmark", "config.toml"]) (other : Config) :
      store.Presets given other ↔ other = config := by
    have hread : store.read? (store.configPath given) = some text := by
      rw [hpath]
      exact Store.read?_pathTo (by decide) (by decide) rfl
    obtain ⟨-, hspelled⟩ := run_store store { arguments with config := given }
    rw [hspelled config text hfits spelledBy_byHand hread]
    exact and_iff_left (by decide)
  have hfound : ∀ other, store.Presets none other ↔ other = config := hpresets <| by
    unfold store text
    decide
  have hnamed : ∀ other, store.Presets arguments.config other ↔ other = config := hpresets <| by
    unfold arguments store text
    decide +kernel
  have hexport : (exportInput (arguments.settings config) input).toOption = some result := by
    unfold arguments config input result
    decide +kernel
  obtain ⟨root, hroot, hresult⟩ : ∃ root, Node.ofText input = .ok root ∧
      root.exportText { settings := arguments.settings config } = .ok result := by
    refine exportInput_eq_ok_iff.mp ?_
    cases h : exportInput (arguments.settings config) input <;> rw [h] at hexport <;> cases hexport
    rfl
  have hexports : store.Exports arguments result :=
    .intro ((hnamed config).mpr rfl) (by unfold store arguments text input; decide) hroot hresult
  have hlocate : store.locate? "../out.json" = some ["home", "ann", "out.json"] := by
    unfold store text
    decide
  refine ⟨hfound, hnamed, ?_⟩
  rcases (run_store store arguments).1 with
    ⟨given, after, hrun, hone, location, hlocation, htext, -, hafter⟩ |
    ⟨cause, -, hnone | ⟨path, given, houtput, -, -, hrefused⟩⟩
  · obtain rfl := (hone result).mp hexports
    cases hlocate.symm.trans hlocation
    exact ⟨after, hrun, by rw [hafter], (htext _).trans (if_pos rfl)⟩
  · exact absurd hexports (hnone result)
  · cases houtput
    have hmay : store.mayWrite ["home", "ann", "out.json"] = true := by
      unfold store text
      decide
    cases hrefused.symm.trans (Store.write?_eq_some_iff.mpr ⟨_, hlocate, hmay, rfl⟩)

end RichDoc
