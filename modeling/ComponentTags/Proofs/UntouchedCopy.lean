import ComponentTags.Proofs.ExitCodes
import ComponentTags.Proofs.LineEnds

/-!
# Templates that are copied

The command makes a copy of a template without tags. The copy is not always exact: the template is read with its line
ends unified, so a carriage return becomes a line feed, or goes away before one. Byte for byte the copy is the template
exactly if the template has no carriage return.

The system around the command is any one that has the template and takes the copy. The paths may be absolute, and may
lead out of the current directory. Flags other than the one for the result's file are not covered, nor is the separator.
-/

namespace ComponentTags.CommandLine

/-- A text that is read from bytes is encoded by these bytes. -/
theorem encodeText_of_decodeText? {bytes : ByteArray} {text : Text} (h : decodeText? bytes = some text) :
    encodeText text = bytes := by
  obtain ⟨s, hs, rfl⟩ := Option.map_eq_some_iff.mp h
  rw [encodeText, String.ofList_toList]
  unfold String.fromUTF8? at hs
  split at hs
  · cases hs
    rfl
  · cases hs

/-- Different texts have different bytes. -/
theorem encodeText_inj {a b : Text} : encodeText a = encodeText b ↔ a = b := by
  rw [encodeText, encodeText, String.toUTF8_eq_toByteArray, String.toUTF8_eq_toByteArray, String.toByteArray_inj,
    String.ofList_inj]

/-- The bytes of a file encode its text with unified line ends exactly if it has no carriage return. -/
theorem encodeText_unifyLineEnds_iff {bytes : ByteArray} {text : Text} (h : decodeText? bytes = some text) :
    encodeText (unifyLineEnds text) = bytes ↔ '\r' ∉ text := by
  rw [← encodeText_of_decodeText? h, encodeText_inj, unifyLineEnds_eq_self_iff]

/-- The separator is not an operand where it stands first. -/
theorem Word.ne_separator {text : Text} (h : Word.ofText text = .ok (.operand text)) :
    (text == ['-', '-']) = false := by
  refine beq_false_of_ne ?_
  rintro rfl
  cases h

/-- An operand, and another one as the value of the flag for the result's file. -/
theorem Arguments.ofTexts_output {input out : Text} (hinput : Word.ofText input = .ok (.operand input))
    (hout : Word.ofText out = .ok (.operand out)) :
    Arguments.ofTexts [input, "-o".toList, out] = .ok { input := input, output := some (.text out) } := by
  have hflag : Word.ofText "-o".toList = .ok (.flags (.ok { wanting := some .output })) := rfl
  have hne : ("-o".toList == ['-', '-']) = false := by decide
  have hwords : Word.ofTexts [input, "-o".toList, out] =
      .ok [.operand input, .flags (.ok { wanting := some .output }), .operand out] := by
    simp only [Word.ofTexts, Word.ne_separator hinput, Word.ne_separator hout, hne, hinput, hflag, hout,
      Bool.false_eq_true, if_false]
  unfold Arguments.ofTexts
  rw [hwords]
  rfl

/-- Good settings in the file are enough for a job, unless an extension is given that is not a text. -/
theorem Arguments.exists_job {arguments : Arguments} {look : Path → Lookup} {file : Toml.Table}
    (hfile : readConfig (look arguments.configPath) = .ok file)
    (hfits : ∀ setting : Setting, setting.fits (settingsIn file) = true)
    (hextension : arguments.extension ≠ some .nothing) :
    ∃ settings, arguments.job look = .ok
      { input := arguments.inputPath, output := pathOf? arguments.output, settings := settings, mode := arguments.mode,
        debug := arguments.debug } := by
  rcases arguments.toChoices.settings_cases file with
    ⟨setting, hunfit, -⟩ | ⟨-, ⟨hnothing, -⟩ | ⟨-, settings, hsettings⟩⟩
  · rw [hfits setting] at hunfit
    cases hunfit
  · exact absurd hnothing hextension
  · refine ⟨settings, ?_⟩
    simp only [job, hfile, hsettings, bind, Except.bind]
    rfl

/-- A template without tags is handed over with its line ends unified. -/
theorem Job.run_untagged {job : Job} (hmode : job.mode = .expand) (hdebug : job.debug = false) {system : System}
    {bytes : ByteArray} {text : Text} (hfile : system.look job.input = .file bytes)
    (htext : decodeText? bytes = some text) (hfailure : (scanText text).failure = none)
    (hnone : ∀ c, .component c ∉ (scanText text).segments) :
    job.run system = deliver system job.output (unifyLineEnds text) := by
  have hread : readTemplate job.input (system.look job.input) = .ok (unifyLineEnds text) := by
    rw [hfile]
    simp only [readTemplate, htext]
  have hexpansion : job.expansion (unifyLineEnds text) = .ok (unifyLineEnds text) := by
    rw [expansion, hmode]
    exact expand_unifyLineEnds hfailure hnone job.settings.options
  rw [run, hmode]
  simp only [hread, hdebug, Bool.false_eq_true, if_false]
  rw [expandTemplate_eq, hexpansion]

/-- A template without tags is copied to the file for the result, with its line ends unified: the command ends with
success, prints nothing and writes that file alone. The file has the bytes of the template exactly if these have no
carriage return. Where the system has the files of a tree, the copy is found there, and no other file has changed. -/
theorem run_copies_unified {input out : Text} {system : System} {file : Toml.Table} {bytes : ByteArray} {text : Text}
    (hinput : Word.ofText input = .ok (.operand input)) (hout : Word.ofText out = .ok (.operand out)) (hne : out ≠ [])
    (hconfig : readConfig (system.look ((Path.ofText input).parent.child settingsFileName)) = .ok file)
    (hfits : ∀ setting : Setting, setting.fits (settingsIn file) = true)
    (hfile : system.look (Path.ofText input) = .file bytes) (htext : decodeText? bytes = some text)
    (hfailure : (scanText text).failure = none) (hnone : ∀ c, .component c ∉ (scanText text).segments)
    (hwrite : system.write (Path.ofText out) (unifyLineEnds text) = .complete) :
    let r := run [input, "-o".toList, out] system
    let copy := encodeText (unifyLineEnds text)
    r = { ending := .code 0, written := some (Path.ofText out, copy) } ∧
    (copy = bytes ↔ '\r' ∉ text) ∧
    ∀ tree, system.On tree → r.Leaves tree (Path.ofText out) copy ∧
      ((r.filesAfter tree).find (Path.ofText out) = .file bytes ↔ '\r' ∉ text) := by
  intro r copy
  have harguments := Arguments.ofTexts_output hinput hout
  obtain ⟨settings, hjob⟩ := Arguments.exists_job
    (show readConfig (system.look (Arguments.configPath { input := input, output := some (.text out) })) = .ok file
      from hconfig) hfits (by simp)
  have hdeliver : r = deliver system (some (Path.ofText out)) (unifyLineEnds text) := by
    have hrun := run_of_job harguments hjob
    rw [Job.run_untagged rfl rfl hfile htext hfailure hnone] at hrun
    exact hrun.trans (by rw [pathOf?_text hne])
  have hresult : r = { ending := .code 0, written := some (Path.ofText out, copy) } := by
    simp only [hdeliver, deliver, hwrite, copy]
  have hbytes := encodeText_unifyLineEnds_iff htext
  refine ⟨hresult, hbytes, fun tree hon => ?_⟩
  have hleaves : r.Leaves tree (Path.ofText out) copy := run_leaves hon (congrArg Result.written hresult)
  refine ⟨hleaves, ?_⟩
  rw [hleaves.find_eq, Lookup.file.injEq]
  exact hbytes

/-- A template without carriage returns, beside a settings file, is copied byte for byte. The copy goes to a directory
that is not below the current one. -/
theorem run_copies_unified_exactly :
    let text := "<p>é < \\<b>\n</p>".toList
    let bytes := encodeText text
    let tree : FileTree := {
      files := [(["work".toList, "page.html".toList], bytes),
        (["work".toList, "jrsx.toml".toList], "[transpile]\nextension = \"j2\"\n".toUTF8)]
      directories := [["out".toList]]
      current := ["work".toList] }
    let r := run ["page.html".toList, "-o".toList, "/out/copy.html".toList] tree.system
    r.ending = .code 0 ∧ '\r' ∉ text ∧
      (r.filesAfter tree).find (Path.ofText "/out/copy.html".toList) = .file bytes := by
  intro text bytes tree r
  have hinput : Word.ofText "page.html".toList = .ok (.operand "page.html".toList) := rfl
  have hout : Word.ofText "/out/copy.html".toList = .ok (.operand "/out/copy.html".toList) := rfl
  have hfile : tree.system.look (Path.ofText "page.html".toList) = .file bytes := by rfl
  have htext : decodeText? bytes = some text := by decide +kernel
  have hfailure : (scanText text).failure = none := by decide +kernel
  have hsegments : (scanText text).segments = [.text text ⟨0, text.length⟩] := by decide +kernel
  have hnone (c : Component) : .component c ∉ (scanText text).segments := by simp [hsegments]
  have hwrite : tree.system.write (Path.ofText "/out/copy.html".toList) (unifyLineEnds text) = .complete := by
    decide +kernel
  have hreturn : '\r' ∉ text := by decide
  let content := readConfig (tree.system.look ((Path.ofText "page.html".toList).parent.child settingsFileName))
  have hsettings : content.toOption.map (fun file =>
      [Setting.extension, .scopeSuffix, .closeSelfClosing].all (·.fits (settingsIn file))) = some true := by
    decide +kernel
  cases hconfig : content with
  | error trouble =>
    rw [hconfig] at hsettings
    cases hsettings
  | ok file =>
    rw [hconfig] at hsettings
    have hfits (setting : Setting) : setting.fits (settingsIn file) = true :=
      List.all_eq_true.mp (Option.some.inj hsettings) setting (by cases setting <;> simp)
    obtain ⟨hresult, -, hcopy⟩ := run_copies_unified hinput hout (by decide) hconfig hfits hfile htext hfailure hnone
      hwrite
    exact ⟨congrArg Result.ending hresult, hreturn, (hcopy tree (System.on_tree tree)).2.mpr hreturn⟩

/-- A template with a carriage return is not copied byte for byte, although it has no tag. -/
theorem carriage_return_not_copied :
    let text := "x\r\ny".toList
    let bytes := encodeText text
    let tree : FileTree := { files := [(["a.html".toList], bytes)] }
    let r := run ["a.html".toList, "-o".toList, "out.html".toList] tree.system
    decodeText? bytes = some text ∧ (scanText text).failure = none ∧
      (scanText text).segments = [.text text ⟨0, text.length⟩] ∧
      r = { ending := .code 0, written := some (Path.ofText "out.html".toList, encodeText "x\ny".toList) } ∧
      encodeText "x\ny".toList ≠ bytes := by
  decide +kernel

end ComponentTags.CommandLine
