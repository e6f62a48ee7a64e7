import ComponentTags.CommandLine.Run

/-!
# Where settings come from

A setting is taken from the arguments if it is given there, else from the settings file if it is there, and else it is
the standard one. A setting in the file whose value is of a wrong kind is refused, also where an argument wins over
it, and the first such setting is named. What stands in the place of the table of settings is not looked at if it is no
table.

There is one exception: an extension that was given as an argument but is not a text makes the command fail, so there
are no settings then.
-/

namespace ComponentTags.CommandLine

/-- A setting can have a value. -/
def Setting.admits : Setting → Toml.Value → Bool
  | closeSelfClosing, .boolean _ => true
  | closeSelfClosing, _ => false
  | _, .string _ => true
  | _, _ => false

/-- A table has a value that a setting can have, or none. -/
def Setting.fits (setting : Setting) (table : Toml.Table) : Bool := (table.get? setting.key).all setting.admits

/-- A file has a table of settings, and there a value stands under the key of a setting. -/
def Setting.HasValue (setting : Setting) (file : Toml.Table) (value : Toml.Value) : Prop :=
  ∃ table : Toml.Table, file.get? settingsTable = some (.table table) ∧ table.get? setting.key = some value

/-- A setting has the value that stands under its key in the table of settings. -/
theorem Setting.hasValue_iff {setting : Setting} {file : Toml.Table} {value : Toml.Value} :
    setting.HasValue file value ↔ (settingsIn file).get? setting.key = some value := by
  unfold HasValue settingsIn
  cases file.get? settingsTable with
  | none => simp [Toml.Table.get?]
  | some found => cases found <;> simp [Toml.Table.get?]

/-- A file has a value of a wrong kind for a setting. -/
def Setting.Misfits (setting : Setting) (file : Toml.Table) : Prop :=
  ∃ value, setting.HasValue file value ∧ setting.admits value = false

/-- A setting misfits exactly if the check of its kind says so. -/
theorem Setting.misfits_iff {setting : Setting} {file : Toml.Table} :
    setting.Misfits file ↔ setting.fits (settingsIn file) = false := by
  unfold Misfits fits
  simp only [hasValue_iff]
  cases (settingsIn file).get? setting.key with
  | none => simp
  | some value => simp

/-- A setting that does not misfit passes the check of its kind. -/
theorem Setting.not_misfits_iff {setting : Setting} {file : Toml.Table} :
    ¬ setting.Misfits file ↔ setting.fits (settingsIn file) = true := by
  rw [misfits_iff, Bool.not_eq_false]

/-- The place of a setting in the order in which settings are checked. -/
def Setting.rank : Setting → Nat
  | extension => 0
  | scopeSuffix => 1
  | closeSelfClosing => 2

/-- The first setting for which a file has a value of a wrong kind. -/
def Setting.FirstMisfit (setting : Setting) (file : Toml.Table) : Prop :=
  setting.Misfits file ∧ ∀ earlier : Setting, earlier.rank < setting.rank → ¬ earlier.Misfits file

/-- There is at most one first misfit. -/
theorem Setting.FirstMisfit.unique {setting other : Setting} {file : Toml.Table} (h : setting.FirstMisfit file)
    (hother : other.FirstMisfit file) : setting = other := by
  have hle : ¬ setting.rank < other.rank := fun hlt => hother.2 setting hlt h.1
  have hge : ¬ other.rank < setting.rank := fun hlt => h.2 other hlt hother.1
  cases setting <;> cases other <;> simp [rank] at hle hge ⊢

/-- The extension is checked first. -/
theorem Setting.firstMisfit_extension {file : Toml.Table} (h : extension.Misfits file) : extension.FirstMisfit file :=
  ⟨h, fun _ hlt => absurd hlt (Nat.not_lt_zero _)⟩

/-- The scope suffix is checked behind the extension. -/
theorem Setting.firstMisfit_scopeSuffix {file : Toml.Table} (hextension : ¬ extension.Misfits file)
    (h : scopeSuffix.Misfits file) : scopeSuffix.FirstMisfit file := by
  refine ⟨h, fun earlier hlt => ?_⟩
  cases earlier with
  | extension => exact hextension
  | scopeSuffix => exact absurd hlt (by decide)
  | closeSelfClosing => exact absurd hlt (by decide)

/-- The choice about self-closing components is checked last. -/
theorem Setting.firstMisfit_closeSelfClosing {file : Toml.Table} (hextension : ¬ extension.Misfits file)
    (hsuffix : ¬ scopeSuffix.Misfits file) (h : closeSelfClosing.Misfits file) :
    closeSelfClosing.FirstMisfit file := by
  refine ⟨h, fun earlier hlt => ?_⟩
  cases earlier with
  | extension => exact hextension
  | scopeSuffix => exact hsuffix
  | closeSelfClosing => exact absurd hlt (by decide)

/-- The text that is read for a setting is the one that the file has for it, unless the setting is refused. -/
theorem Setting.textIn_cases {setting : Setting} (h : setting ≠ .closeSelfClosing) (file : Toml.Table) :
    (¬ setting.Misfits file ∧ ∃ found, setting.textIn (settingsIn file) = .ok found ∧
      ∀ t, found = some t ↔ setting.HasValue file (.string t)) ∨
    (setting.Misfits file ∧ setting.textIn (settingsIn file) = .error (.wrongKind setting)) := by
  simp only [misfits_iff, hasValue_iff, fits, textIn]
  cases (settingsIn file).get? setting.key with
  | none => simp
  | some value => cases setting <;> cases value <;> simp [admits] at h ⊢

/-- A truth value is read from the file, or there is none, or the setting misfits and is named for that. -/
theorem Setting.truthIn_cases (file : Toml.Table) :
    (¬ closeSelfClosing.Misfits file ∧ ∃ found, closeSelfClosing.truthIn (settingsIn file) = .ok found ∧
      ∀ b, found = some b ↔ closeSelfClosing.HasValue file (.boolean b)) ∨
    (closeSelfClosing.Misfits file ∧
      closeSelfClosing.truthIn (settingsIn file) = .error (.wrongKind closeSelfClosing)) := by
  simp only [misfits_iff, hasValue_iff, fits, truthIn]
  cases (settingsIn file).get? closeSelfClosing.key with
  | none => simp
  | some value => cases value <;> simp [admits]

/-- A value by its source: the argument wins over the file, and the file over the standard. -/
inductive Chosen {α : Type} (given : Option α) (inFile : α → Prop) (standard : α) : α → Prop where
  /-- The value was given as an argument. -/
  | argument {value : α} : given = some value → Chosen given inFile standard value
  /-- The value stands in the file, and none was given as an argument. -/
  | file {value : α} : given = none → inFile value → Chosen given inFile standard value
  /-- There is no value but the standard one. -/
  | standard : given = none → (∀ value, ¬ inFile value) → Chosen given inFile standard standard

/-- A value is looked for among the arguments, then in the file, and then comes the default. -/
theorem chosen_getD {α : Type} {given found : Option α} {inFile : α → Prop}
    (h : ∀ value, found = some value ↔ inFile value) (standard : α) :
    Chosen given inFile standard (given.getD (found.getD standard)) := by
  cases given with
  | some value => exact .argument rfl
  | none =>
    cases found with
    | some value => exact .file rfl ((h value).mp rfl)
    | none => exact .standard rfl fun value hvalue => by cases (h value).mpr hvalue

/-- The file has a text for a setting. -/
def Setting.GivesText (setting : Setting) (file : Toml.Table) : Given → Prop
  | .text t => setting.HasValue file (.string t)
  | .nothing => False

/-- Settings that come from the arguments, the file and the standard in this order. The extension has lost all dots in
front. -/
structure Choices.Merges (choices : Choices) (file : Toml.Table) (settings : Settings) : Prop where
  extension : ∃ dots, (∀ c ∈ dots, c = '.') ∧
    Chosen choices.extension (Setting.extension.GivesText file) (.text "html".toList)
      (.text (dots ++ settings.extension))
  extension_head : settings.extension.head? ≠ some '.'
  scopeSuffix : Chosen choices.scopeSuffix (Setting.scopeSuffix.GivesText file) (.text "_scope".toList)
    settings.scopeSuffix
  closeSelfClosing : Chosen (if choices.closeSelfClosing then some true else none)
    (fun b => Setting.closeSelfClosing.HasValue file (.boolean b)) false settings.closeSelfClosing

/-- Dots in front are taken away, and nothing else is. -/
theorem dropDots_eq (extension : Text) :
    ∃ dots, extension = dots ++ dropDots extension ∧ (∀ c ∈ dots, c = '.') ∧ (dropDots extension).head? ≠ some '.' := by
  refine ⟨extension.takeWhile (· == '.'), List.takeWhile_append_dropWhile.symm, fun c hc => ?_, fun hhead => ?_⟩
  · have hall := List.all_takeWhile (p := (· == '.')) (l := extension)
    simpa using List.all_eq_true.mp hall c hc
  · have hnot := List.head?_dropWhile_not (· == '.') extension
    rw [dropDots] at hhead
    rw [hhead] at hnot
    simp at hnot

/-- A text from a file can be compared with what an argument gives. -/
theorem Setting.givesText_iff {setting : Setting} {file : Toml.Table} {found : Option Text}
    (h : ∀ t, found = some t ↔ setting.HasValue file (.string t)) (given : Given) :
    found.map .text = some given ↔ setting.GivesText file given := by
  cases given with
  | text t => simp [GivesText, ← h]
  | nothing => simp [GivesText]

/-- The same for settings that are texts. -/
theorem Setting.chosen_text {setting : Setting} {file : Toml.Table} {found : Option Text}
    (h : ∀ t, found = some t ↔ setting.HasValue file (.string t)) (given : Option Given) (standard : Text) :
    Chosen given (setting.GivesText file) (.text standard) (given.getD (.text (found.getD standard))) := by
  have hchosen : Chosen given (setting.GivesText file) (.text standard)
      (given.getD ((found.map .text).getD (.text standard))) := chosen_getD (givesText_iff h) _
  rwa [Option.getD_map] at hchosen

/-- What is read from the arguments and the file is merged. An argument can only switch the explicit ends on. -/
theorem Choices.merges_of_found {choices : Choices} {file : Toml.Table} {extension suffix : Option Text}
    {close : Option Bool} {t : Text}
    (hextension : ∀ t, extension = some t ↔ Setting.extension.HasValue file (.string t))
    (hsuffix : ∀ t, suffix = some t ↔ Setting.scopeSuffix.HasValue file (.string t))
    (hclose : ∀ b, close = some b ↔ Setting.closeSelfClosing.HasValue file (.boolean b))
    (ht : choices.extension.getD (.text (extension.getD "html".toList)) = .text t) :
    choices.Merges file ⟨dropDots t, choices.scopeSuffix.getD (.text (suffix.getD "_scope".toList)),
      choices.closeSelfClosing || close.getD false⟩ := by
  obtain ⟨dots, htext, hdots, hhead⟩ := dropDots_eq t
  refine ⟨⟨dots, hdots, ?_⟩, hhead, Setting.chosen_text hsuffix _ _, ?_⟩
  · rw [← htext, ← ht]
    exact Setting.chosen_text hextension _ _
  · have hflag : (choices.closeSelfClosing || close.getD false) =
        (if choices.closeSelfClosing then some true else none).getD (close.getD false) := by
      cases choices.closeSelfClosing <;> rfl
    rw [hflag]
    exact chosen_getD hclose _

/-- The settings in a file are checked one by one, the extension given as an argument is checked behind them, and then
arguments and file are merged. -/
theorem Choices.settings_outcome (choices : Choices) (file : Toml.Table) :
    (∃ setting : Setting, setting.FirstMisfit file ∧ choices.settings file = .error (.wrongKind setting)) ∨
    (∀ setting : Setting, ¬ setting.Misfits file) ∧
      ((choices.extension = some .nothing ∧ choices.settings file = .error .noExtension) ∨
        (choices.extension ≠ some .nothing ∧
          ∃ settings, choices.settings file = .ok settings ∧ choices.Merges file settings)) := by
  simp only [settings, bind, Except.bind]
  rcases Setting.extension.textIn_cases (by decide) file with ⟨hfirst, extension, h, hextension⟩ | ⟨hmisfit, h⟩
  · simp only [h]
    rcases Setting.scopeSuffix.textIn_cases (by decide) file with ⟨hsecond, suffix, h, hsuffix⟩ | ⟨hmisfit, h⟩
    · simp only [h]
      rcases Setting.truthIn_cases file with ⟨hthird, close, h, hclose⟩ | ⟨hmisfit, h⟩
      · have hfits (setting : Setting) : ¬ setting.Misfits file := by
          cases setting with
          | extension => exact hfirst
          | scopeSuffix => exact hsecond
          | closeSelfClosing => exact hthird
        simp only [h]
        refine .inr ⟨hfits, ?_⟩
        cases hgiven : choices.extension with
        | none => exact .inr ⟨by simp, _, rfl, merges_of_found hextension hsuffix hclose (by rw [hgiven]; rfl)⟩
        | some given =>
          cases given with
          | text t => exact .inr ⟨by simp, _, rfl, merges_of_found hextension hsuffix hclose (by rw [hgiven]; rfl)⟩
          | nothing => exact .inl ⟨rfl, rfl⟩
      · simp only [h]
        exact .inl ⟨_, Setting.firstMisfit_closeSelfClosing hfirst hsecond hmisfit, rfl⟩
    · simp only [h]
      exact .inl ⟨_, Setting.firstMisfit_scopeSuffix hfirst hmisfit, rfl⟩
  · simp only [h]
    exact .inl ⟨_, Setting.firstMisfit_extension hmisfit, rfl⟩

/-- The setting that is named as one of a wrong kind is the first misfit. -/
theorem Choices.settings_wrongKind_iff {choices : Choices} {file : Toml.Table} {setting : Setting} :
    choices.settings file = .error (.wrongKind setting) ↔ setting.FirstMisfit file := by
  rcases choices.settings_outcome file with
    ⟨first, hfirst, h⟩ | ⟨hfits, ⟨-, h⟩ | ⟨-, settings, h, -⟩⟩
  · rw [h]
    constructor
    · intro he
      cases he
      exact hfirst
    · intro hsetting
      rw [hfirst.unique hsetting]
  · rw [h]
    exact ⟨nofun, fun hsetting => absurd hsetting.1 (hfits setting)⟩
  · rw [h]
    exact ⟨nofun, fun hsetting => absurd hsetting.1 (hfits setting)⟩

/-- Settings are refused for a wrong kind exactly if some setting in the file misfits, whatever the arguments are. -/
theorem Choices.exists_wrongKind_iff {choices : Choices} {file : Toml.Table} :
    (∃ setting, choices.settings file = .error (.wrongKind setting)) ↔ ∃ setting : Setting, setting.Misfits file := by
  constructor
  · rintro ⟨setting, h⟩
    exact ⟨setting, (settings_wrongKind_iff.mp h).1⟩
  · rintro ⟨setting, h⟩
    rcases choices.settings_outcome file with ⟨first, -, hfirst⟩ | ⟨hfits, -⟩
    · exact ⟨first, hfirst⟩
    · exact absurd h (hfits setting)

/-- Under a settings file that can be read, there is no job exactly for the reasons for which there are no settings. -/
theorem Arguments.job_eq_error_iff {arguments : Arguments} {look : Path → Lookup} {file : Toml.Table}
    {trouble : ConfigTrouble} (h : readConfig (look arguments.configPath) = .ok file) :
    arguments.job look = .error trouble ↔ arguments.settings file = .error trouble := by
  simp only [job, h, bind, Except.bind]
  cases arguments.settings file <;> simp [pure, Except.pure]

/-- Good settings are those of the job. -/
theorem Arguments.exists_job_of_settings {arguments : Arguments} {look : Path → Lookup} {file : Toml.Table}
    {settings : Settings} (hfile : readConfig (look arguments.configPath) = .ok file)
    (h : arguments.settings file = .ok settings) : ∃ job, arguments.job look = .ok job ∧ job.settings = settings := by
  simp only [job, hfile, h, bind, Except.bind]
  exact ⟨_, rfl, rfl⟩

/-- The report on a setting of a wrong kind names that setting and no other one. -/
theorem Setting.key_infix_wrongKind_iff (setting other : Setting) :
    other.key <:+: setting.wrongKind ↔ other = setting := by
  cases setting <;> cases other <;> decide +kernel

/-- Whatever the settings file holds, a value of a wrong kind is reported exactly if there is one, for the first setting
that has one, and the report names this setting alone. Otherwise each setting is from the argument, from the file or
the standard one, in this order, unless the extension given as an argument is not a text. -/
theorem Arguments.job_settings_precedence (arguments : Arguments) (look : Path → Lookup) (file : Toml.Table)
    (hfile : readConfig (look arguments.configPath) = .ok file) :
    ((∃ setting, arguments.job look = .error (.wrongKind setting)) ↔ ∃ setting : Setting, setting.Misfits file) ∧
    (∀ setting : Setting, arguments.job look = .error (.wrongKind setting) ↔ setting.FirstMisfit file) ∧
    (∀ setting other : Setting, other.key <:+: setting.wrongKind ↔ other = setting) ∧
    ((∀ setting : Setting, ¬ setting.Misfits file) → arguments.extension = some .nothing →
      arguments.job look = .error .noExtension) ∧
    ((∀ setting : Setting, ¬ setting.Misfits file) → arguments.extension ≠ some .nothing →
      ∃ job, arguments.job look = .ok job ∧ arguments.Merges file job.settings) := by
  simp only [job_eq_error_iff hfile]
  refine ⟨Choices.exists_wrongKind_iff, fun _ => Choices.settings_wrongKind_iff, Setting.key_infix_wrongKind_iff,
    ?_, ?_⟩
  · intro hfits hnothing
    rcases arguments.settings_outcome file with ⟨setting, hfirst, -⟩ | ⟨-, ⟨-, h⟩ | ⟨hsome, -⟩⟩
    · exact absurd hfirst.1 (hfits setting)
    · exact h
    · exact absurd hnothing hsome
  · intro hfits hsome
    rcases arguments.settings_outcome file with ⟨setting, hfirst, -⟩ | ⟨-, ⟨hnothing, -⟩ | ⟨-, settings, h, hmerges⟩⟩
    · exact absurd hfirst.1 (hfits setting)
    · exact absurd hnothing hsome
    · obtain ⟨job, hjob, rfl⟩ := exists_job_of_settings hfile h
      exact ⟨job, hjob, hmerges⟩

/-- For which settings a file has a good value can be found by running the reader. -/
theorem exists_readConfig (found : Lookup) (fitting : Setting → Bool)
    (h : (readConfig found).toOption.map (fun file =>
      [Setting.extension, .scopeSuffix, .closeSelfClosing].all fun setting =>
        setting.fits (settingsIn file) == fitting setting) = some true) :
    ∃ file, readConfig found = .ok file ∧ ∀ setting : Setting, setting.fits (settingsIn file) = fitting setting := by
  cases hread : readConfig found with
  | error trouble =>
    rw [hread] at h
    cases h
  | ok file =>
    rw [hread] at h
    refine ⟨file, rfl, fun setting => ?_⟩
    have hsetting := List.all_eq_true.mp (Option.some.inj h) setting (by cases setting <;> simp)
    exact beq_iff_eq.mp hsetting

/-- A suffix of a wrong kind is reported although an argument gives another one. Once it is mended, the argument wins
for the extension, the file gives the suffix, and the rest is standard. -/
theorem job_settings_precedence_mended :
    let tree (suffix : String) : FileTree := { files := [(["jrsx.toml".toList],
      ("[transpile]\nextension = \"html\"\nscope_suffix = " ++ suffix ++ "\n").toUTF8)] }
    let arguments : Arguments := { input := "page.html".toList, extension := some (.text "..j2".toList) }
    let overriding : Arguments := { arguments with scopeSuffix := some (.text "_s".toList) }
    overriding.job (tree "1").look = .error (.wrongKind .scopeSuffix) ∧
    ∃ file job, readConfig ((tree "\"_x\"").look arguments.configPath) = .ok file ∧
      arguments.job (tree "\"_x\"").look = .ok job ∧ arguments.Merges file job.settings ∧
      job.settings = ⟨"j2".toList, .text "_x".toList, false⟩ := by
  intro tree arguments overriding
  constructor
  · obtain ⟨file, hfile, hfits⟩ := exists_readConfig ((tree "1").look overriding.configPath) (· != .scopeSuffix)
      (by decide +kernel)
    obtain ⟨-, hfirst, -⟩ := Arguments.job_settings_precedence overriding _ file hfile
    have hextension : ¬ Setting.extension.Misfits file := Setting.not_misfits_iff.mpr (hfits _)
    have hsuffix : Setting.scopeSuffix.Misfits file := Setting.misfits_iff.mpr (hfits _)
    exact (hfirst _).mpr (Setting.firstMisfit_scopeSuffix hextension hsuffix)
  · obtain ⟨file, hfile, hfits⟩ := exists_readConfig ((tree "\"_x\"").look arguments.configPath) (fun _ => true)
      (by decide +kernel)
    obtain ⟨-, -, -, -, hmerges⟩ := Arguments.job_settings_precedence arguments _ file hfile
    obtain ⟨job, hjob, hmerged⟩ := hmerges (fun _ => Setting.not_misfits_iff.mpr (hfits _)) (by decide)
    have hsettings : (arguments.job (tree "\"_x\"").look).toOption.map Job.settings =
        some ⟨"j2".toList, .text "_x".toList, false⟩ := by decide +kernel
    rw [hjob] at hsettings
    exact ⟨file, job, hfile, hjob, hmerged, Option.some.inj hsettings⟩

/-- An extension that is attached to its flag can be missing although the flag is given, and then there are no settings
at all. -/
theorem attached_dashes_give_no_settings :
    let arguments : Arguments := { input := "i".toList, extension := some .nothing }
    Arguments.ofTexts ["i".toList, "--ext=--".toList] = .ok arguments ∧
      readConfig Lookup.absent = .ok [] ∧ (∀ setting : Setting, ¬ setting.Misfits []) ∧
      ∀ look, look arguments.configPath = .absent → arguments.job look = .error .noExtension := by
  intro arguments
  refine ⟨rfl, rfl, fun setting => ?_, fun look hlook => ?_⟩
  · rw [Setting.not_misfits_iff]
    rfl
  · have hfile : readConfig (look arguments.configPath) = .ok [] := by rw [hlook]; rfl
    rw [Arguments.job_eq_error_iff hfile]
    rfl

end ComponentTags.CommandLine
