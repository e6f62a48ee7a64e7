import ComponentTags.Proofs.Delivery
import ComponentTags.Proofs.SettingPrecedence

/-!
# Exit codes

Once the arguments are accepted, each way in which the command can end has an exact condition. Faults of the template,
and nothing else, have the exit code 1. Settings that are malformed or of a wrong kind, and a template that is not there
or may not be read, have the exit code 2. But not every trouble has an exit code: the command is aborted by files that
are not UTF-8, by results that cannot be handed over in full, by settings files that may not be read or have a too long
path or number, by null characters in the template's path and by an extension that is not a text.

The conditions are about any system around the command. Arguments that are not accepted are not covered here.
-/

namespace ComponentTags.CommandLine

/-- The settings in a file are checked one by one, and the extension given as an argument is checked behind them. -/
theorem Choices.settings_cases (choices : Choices) (file : Toml.Table) :
    (∃ setting : Setting, setting.fits (settingsIn file) = false ∧
      choices.settings file = .error (.wrongKind setting)) ∨
    (∀ setting : Setting, setting.fits (settingsIn file) = true) ∧
      ((choices.extension = some .nothing ∧ choices.settings file = .error .noExtension) ∨
        (choices.extension ≠ some .nothing ∧ ∃ settings, choices.settings file = .ok settings)) := by
  rcases choices.settings_outcome file with ⟨setting, hfirst, h⟩ | ⟨hfits, hnothing | ⟨hsome, settings, h, -⟩⟩
  · exact .inl ⟨setting, Setting.misfits_iff.mp hfirst.1, h⟩
  · exact .inr ⟨fun setting => Setting.not_misfits_iff.mp (hfits setting), .inl hnothing⟩
  · exact .inr ⟨fun setting => Setting.not_misfits_iff.mp (hfits setting), .inr ⟨hsome, settings, h⟩⟩

/-- Without a settings file that can be read there is no job. -/
theorem Arguments.job_of_config {arguments : Arguments} {look : Path → Lookup} {trouble : ConfigTrouble}
    (h : readConfig (look arguments.configPath) = .error trouble) : arguments.job look = .error trouble := by
  simp only [job, h, bind, Except.bind]

/-- Without good settings there is no job. -/
theorem Arguments.job_of_settings {arguments : Arguments} {look : Path → Lookup} {file : Toml.Table}
    {trouble : ConfigTrouble} (hfile : readConfig (look arguments.configPath) = .ok file)
    (h : arguments.settings file = .error trouble) : arguments.job look = .error trouble :=
  (job_eq_error_iff hfile).mpr h

/-- The ways in which the command ends for want of settings. -/
inductive Arguments.Unsettled (arguments : Arguments) (look : Path → Lookup) : Ending → Prop
  /-- The path of the settings file is too long. -/
  | tooLong (h : look arguments.configPath = .tooLong) : Unsettled arguments look (.abort .nameTooLong)
  /-- The settings file may not be read. -/
  | refused {number : Nat} {name : Text} (h : look arguments.configPath = .refused number name) :
      Unsettled arguments look (.abort .accessRefused)
  /-- The settings file is not UTF-8. -/
  | notText {bytes : ByteArray} (hfile : look arguments.configPath = .file bytes) (h : decodeText? bytes = none) :
      Unsettled arguments look (.abort .notText)
  /-- The settings file has a number that is too long. -/
  | numberTooLong {bytes : ByteArray} {text : Text} (hfile : look arguments.configPath = .file bytes)
      (htext : decodeText? bytes = some text) (h : Toml.parse text = .error .numberTooLong) :
      Unsettled arguments look (.abort .numberTooLong)
  /-- The settings file is not in its format. -/
  | malformed {bytes : ByteArray} {text : Text} (hfile : look arguments.configPath = .file bytes)
      (htext : decodeText? bytes = some text) (h : Toml.parse text = .error .malformed) :
      Unsettled arguments look (.code 2)
  /-- A setting in the file has a value of a wrong kind. -/
  | wrongKind {file : Toml.Table} {setting : Setting} (hfile : readConfig (look arguments.configPath) = .ok file)
      (h : setting.fits (settingsIn file) = false) : Unsettled arguments look (.code 2)
  /-- The settings in the file are good, but the extension given as an argument is not a text. -/
  | noExtension {file : Toml.Table} (hfile : readConfig (look arguments.configPath) = .ok file)
      (hfits : ∀ setting : Setting, setting.fits (settingsIn file) = true) (h : arguments.extension = some .nothing) :
      Unsettled arguments look (.abort .noExtension)

/-- The command has the exit code 2 then, or it is aborted. -/
theorem Arguments.Unsettled.ending_cases {arguments : Arguments} {look : Path → Lookup} {ending : Ending}
    (h : arguments.Unsettled look ending) : ending = .code 2 ∨ ∃ a, ending = .abort a := by
  cases h <;> simp

/-- Trouble with reading the settings file is among the ways. -/
theorem Arguments.unsettled_of_config {arguments : Arguments} {look : Path → Lookup} {trouble : ConfigTrouble}
    (h : readConfig (look arguments.configPath) = .error trouble) :
    arguments.Unsettled look trouble.result.ending := by
  cases hlook : look arguments.configPath with
  | file bytes =>
    rw [hlook] at h
    cases htext : decodeText? bytes with
    | none =>
      simp only [readConfig, htext] at h
      cases h
      exact .notText hlook htext
    | some text =>
      simp only [readConfig, htext] at h
      cases hparse : Toml.parse text with
      | ok file =>
        rw [hparse] at h
        cases h
      | error reason =>
        rw [hparse] at h
        cases h
        cases reason with
        | malformed => exact .malformed hlook htext hparse
        | numberTooLong => exact .numberTooLong hlook htext hparse
  | tooLong =>
    rw [hlook] at h
    cases h
    exact .tooLong hlook
  | refused number name =>
    rw [hlook] at h
    cases h
    exact .refused hlook
  | _ =>
    rw [hlook] at h
    cases h

/-- Arguments that come to no job end the command in one of the ways. -/
theorem Arguments.unsettled_of_job {arguments : Arguments} {look : Path → Lookup} {trouble : ConfigTrouble}
    (h : arguments.job look = .error trouble) : arguments.Unsettled look trouble.result.ending := by
  cases hfile : readConfig (look arguments.configPath) with
  | error reason =>
    rw [job_of_config hfile] at h
    cases h
    exact unsettled_of_config hfile
  | ok file =>
    rcases arguments.toChoices.settings_cases file with
      ⟨setting, hunfit, hsettings⟩ | ⟨hfits, ⟨hnothing, hsettings⟩ | ⟨hsome, settings, hsettings⟩⟩
    · rw [job_of_settings hfile hsettings] at h
      cases h
      exact .wrongKind hfile hunfit
    · rw [job_of_settings hfile hsettings] at h
      cases h
      exact .noExtension hfile hfits hnothing
    · simp only [job, hfile, hsettings, bind, Except.bind] at h
      cases h

/-- In each of the ways the arguments come to no job. Where a setting is of a wrong kind, another one may be the first
of that sort, with the same exit code. -/
theorem Arguments.Unsettled.job_eq {arguments : Arguments} {look : Path → Lookup} {ending : Ending}
    (h : arguments.Unsettled look ending) :
    ∃ trouble, arguments.job look = .error trouble ∧ trouble.result.ending = ending := by
  cases h with
  | tooLong h =>
    have hread : readConfig (look arguments.configPath) = .error .nameTooLong := by rw [h]; rfl
    exact ⟨_, job_of_config hread, rfl⟩
  | refused h =>
    have hread : readConfig (look arguments.configPath) = .error .accessRefused := by rw [h]; rfl
    exact ⟨_, job_of_config hread, rfl⟩
  | notText hfile h =>
    have hread : readConfig (look arguments.configPath) = .error .notText := by simp only [readConfig, hfile, h]
    exact ⟨_, job_of_config hread, rfl⟩
  | numberTooLong hfile htext h =>
    have hread : readConfig (look arguments.configPath) = .error .numberTooLong := by
      simp only [readConfig, hfile, htext, h]
      rfl
    exact ⟨_, job_of_config hread, rfl⟩
  | malformed hfile htext h =>
    have hread : readConfig (look arguments.configPath) = .error .malformed := by
      simp only [readConfig, hfile, htext, h]
      rfl
    exact ⟨_, job_of_config hread, rfl⟩
  | wrongKind hfile h =>
    rename_i file setting
    rcases arguments.toChoices.settings_cases file with ⟨other, -, hsettings⟩ | ⟨hfits, -⟩
    · exact ⟨_, job_of_settings hfile hsettings, rfl⟩
    · rw [hfits setting] at h
      cases h
  | noExtension hfile hfits h =>
    rename_i file
    rcases arguments.toChoices.settings_cases file with
      ⟨setting, hunfit, -⟩ | ⟨-, ⟨-, hsettings⟩ | ⟨hsome, -⟩⟩
    · rw [hfits setting] at hunfit
      cases hunfit
    · exact ⟨_, job_of_settings hfile hsettings, rfl⟩
    · exact absurd h hsome

/-- What keeps a text from coming through in full. -/
def Writing.trouble? {α : Type} : Writing α → Option Abort
  | complete => none
  | refused a | broken _ a => some a

/-- What keeps the result from being printed, or from being written where there is a file for it. -/
def System.trouble? (system : System) (output : Option Path) (out : Text) : Option Abort :=
  match output with
  | none => (system.print out).trouble?
  | some p => (system.write p out).trouble?

/-- The handing over ends with success, or the trouble aborts the command. -/
theorem deliver_ending (system : System) (output : Option Path) (out : Text) :
    (deliver system output out).ending =
      match system.trouble? output out with
      | none => .code 0
      | some a => .abort a := by
  cases output with
  | none => cases hprint : system.print out <;> simp only [deliver, System.trouble?, Writing.trouble?, hprint]
  | some p => cases hwrite : system.write p out <;> simp only [deliver, System.trouble?, Writing.trouble?, hwrite]

/-- The ways in which the command ends once its arguments are accepted. -/
inductive Arguments.Ends (arguments : Arguments) (system : System) : Ending → Prop
  /-- There are no settings. -/
  | unsettled {ending : Ending} (h : arguments.Unsettled system.look ending) : Ends arguments system ending
  /-- No text is made. -/
  | failed {job : Job} {ending : Ending} (hjob : arguments.job system.look = .ok job)
      (h : job.Fails system.look ending) : Ends arguments system ending
  /-- A text is made, but it does not come through. -/
  | undelivered {job : Job} {out : Text} {a : Abort} (hjob : arguments.job system.look = .ok job)
      (hproduct : job.product system.look = .ok out) (h : system.trouble? (pathOf? arguments.output) out = some a) :
      Ends arguments system (.abort a)
  /-- A text is made and handed over. -/
  | delivered {job : Job} {out : Text} (hjob : arguments.job system.look = .ok job)
      (hproduct : job.product system.look = .ok out) (h : system.trouble? (pathOf? arguments.output) out = none) :
      Ends arguments system (.code 0)

/-- How the command ends by the text that a job makes. -/
theorem run_ending_of_job {texts : List Text} {arguments : Arguments} {system : System} {job : Job}
    (h : Arguments.ofTexts texts = .ok arguments) (hjob : arguments.job system.look = .ok job) :
    (run texts system).ending =
      match job.product system.look with
      | .error ending => ending
      | .ok out => (deliver system (pathOf? arguments.output) out).ending := by
  have houtput := (Arguments.job_fields hjob).2.1
  rw [run_of_job h hjob, (job.run_agrees system).ending_eq, Job.handOver, houtput]
  cases job.product system.look <;> rfl

/-- In each of the ways the command ends like that. -/
theorem Arguments.Ends.run_ending {texts : List Text} {arguments : Arguments} {system : System} {ending : Ending}
    (hends : arguments.Ends system ending) (h : Arguments.ofTexts texts = .ok arguments) :
    (run texts system).ending = ending := by
  cases hends with
  | unsettled hunsettled =>
    obtain ⟨trouble, hjob, hending⟩ := hunsettled.job_eq
    rw [run_of_trouble h hjob, hending]
  | failed hjob hfails => rw [run_ending_of_job h hjob, Job.product_eq_error_iff.mpr hfails]
  | undelivered hjob hproduct htrouble =>
    rw [run_ending_of_job h hjob, hproduct]
    simp only [deliver_ending, htrouble]
  | delivered hjob hproduct htrouble =>
    rw [run_ending_of_job h hjob, hproduct]
    simp only [deliver_ending, htrouble]

/-- The command always ends in one of the ways. -/
theorem ends_run {texts : List Text} {arguments : Arguments} (h : Arguments.ofTexts texts = .ok arguments)
    (system : System) : arguments.Ends system (run texts system).ending := by
  cases hjob : arguments.job system.look with
  | error trouble =>
    rw [run_of_trouble h hjob]
    exact .unsettled (Arguments.unsettled_of_job hjob)
  | ok job =>
    rw [run_ending_of_job h hjob]
    cases hproduct : job.product system.look with
    | error ending => exact .failed hjob (Job.product_eq_error_iff.mp hproduct)
    | ok out =>
      dsimp only
      rw [deliver_ending]
      cases htrouble : system.trouble? (pathOf? arguments.output) out with
      | none => exact .delivered hjob hproduct htrouble
      | some a => exact .undelivered hjob hproduct htrouble

/-- A template was read, and it has a fault. -/
def Arguments.Faulty (arguments : Arguments) (look : Path → Lookup) : Prop :=
  arguments.mode ≠ .entry ∧ ∃ job text f, arguments.job look = .ok job ∧
    readTemplate arguments.inputPath (look arguments.inputPath) = .ok text ∧ job.expansion text = .error (.fault f)

/-- How the job of some arguments fails, by their template and mode. -/
theorem Arguments.fails_iff {arguments : Arguments} {look : Path → Lookup} {job : Job} {ending : Ending}
    (hjob : arguments.job look = .ok job) :
    job.Fails look ending ↔ arguments.mode ≠ .entry ∧
      (Unread (look arguments.inputPath) ending ∨ ending = .code 1 ∧ ∃ text f,
        readTemplate arguments.inputPath (look arguments.inputPath) = .ok text ∧
          job.expansion text = .error (.fault f)) := by
  obtain ⟨hinput, -, hmode⟩ := job_fields hjob
  rw [← hinput, ← hmode]
  constructor
  · intro hfails
    cases hfails with
    | unread hentry hunread => exact ⟨hentry, .inl hunread⟩
    | fault hentry hread hfault => exact ⟨hentry, .inr ⟨rfl, _, _, hread, hfault⟩⟩
  · rintro ⟨hentry, hunread | ⟨rfl, text, f, hread, hfault⟩⟩
    · exact .unread hentry hunread
    · exact .fault hentry hread hfault

/-- Only a fault of the template has the exit code 1. -/
theorem Arguments.ends_one_iff {arguments : Arguments} {system : System} :
    arguments.Ends system (.code 1) ↔ arguments.Faulty system.look := by
  constructor
  · intro hends
    cases hends with
    | unsettled hunsettled => simpa using hunsettled.ending_cases
    | failed hjob hfails =>
      obtain ⟨hentry, hunread | ⟨-, text, f, hread, hfault⟩⟩ := (fails_iff hjob).mp hfails
      · simpa using hunread.ending_cases
      · exact ⟨hentry, _, text, f, hjob, hread, hfault⟩
  · rintro ⟨hentry, job, text, f, hjob, hread, hfault⟩
    exact .failed hjob ((fails_iff hjob).mpr ⟨hentry, .inr ⟨rfl, text, f, hread, hfault⟩⟩)

/-- Only settings and templates that cannot be used have the exit code 2. -/
theorem Arguments.ends_two_iff {arguments : Arguments} {system : System} :
    arguments.Ends system (.code 2) ↔
      arguments.Unsettled system.look (.code 2) ∨
        arguments.mode ≠ .entry ∧ (∃ job, arguments.job system.look = .ok job) ∧
          Unread (system.look arguments.inputPath) (.code 2) := by
  constructor
  · intro hends
    cases hends with
    | unsettled hunsettled => exact .inl hunsettled
    | failed hjob hfails =>
      obtain ⟨hentry, hunread | ⟨hone, -⟩⟩ := (fails_iff hjob).mp hfails
      · exact .inr ⟨hentry, ⟨_, hjob⟩, hunread⟩
      · cases hone
  · rintro (hunsettled | ⟨hentry, ⟨job, hjob⟩, hunread⟩)
    · exact .unsettled hunsettled
    · exact .failed hjob ((fails_iff hjob).mpr ⟨hentry, .inl hunread⟩)

/-- The command has an exit code of its own, or it is aborted. -/
theorem Arguments.Ends.ending_cases {arguments : Arguments} {system : System} {ending : Ending}
    (h : arguments.Ends system ending) :
    ending = .code 0 ∨ ending = .code 1 ∨ ending = .code 2 ∨ ∃ a, ending = .abort a := by
  cases h with
  | unsettled hunsettled => exact .inr (.inr hunsettled.ending_cases)
  | failed hjob hfails =>
    cases hfails with
    | unread hentry hunread => exact .inr (.inr hunread.ending_cases)
    | fault => exact .inr (.inl rfl)
  | undelivered => exact .inr (.inr (.inr ⟨_, rfl⟩))
  | delivered => exact .inl rfl

/-- With accepted arguments the command ends in exactly one of the listed ways, in whatever system. The exit code is 1
exactly for a template with a fault, and 2 exactly for settings that are malformed or of a wrong kind and for a template
that is not there or may not be read. Unless something aborts it, the command has one of the exit codes 0, 1 and 2. -/
theorem run_ending_iff {texts : List Text} {arguments : Arguments} (h : Arguments.ofTexts texts = .ok arguments)
    (system : System) :
    (∀ ending, (run texts system).ending = ending ↔ arguments.Ends system ending) ∧
    ((run texts system).ending = .code 1 ↔ arguments.Faulty system.look) ∧
    ((run texts system).ending = .code 2 ↔
      arguments.Unsettled system.look (.code 2) ∨
        arguments.mode ≠ .entry ∧ (∃ job, arguments.job system.look = .ok job) ∧
          Unread (system.look arguments.inputPath) (.code 2)) ∧
    ((∀ a, ¬ arguments.Ends system (.abort a)) →
      (run texts system).ending = .code 0 ∨ (run texts system).ending = .code 1 ∨
        (run texts system).ending = .code 2) := by
  have hends := ends_run h system
  have hiff (ending : Ending) : (run texts system).ending = ending ↔ arguments.Ends system ending := by
    constructor
    · rintro rfl
      exact hends
    · intro hending
      exact hending.run_ending h
  refine ⟨hiff, (hiff _).trans Arguments.ends_one_iff, (hiff _).trans Arguments.ends_two_iff, fun hnone => ?_⟩
  rcases hends.ending_cases with hzero | hone | htwo | ⟨a, ha⟩
  · exact .inl hzero
  · exact .inr (.inl hone)
  · exact .inr (.inr htwo)
  · exact absurd ((hiff _).mp ha) (hnone a)

/-- A template with a tag that never ends, and one that may not be read. -/
theorem run_ending_iff_endless_tag :
    let texts := ["page.html".toList]
    let arguments : Arguments := { input := "page.html".toList }
    let tree : FileTree := { files := [(["page.html".toList], "<Card".toUTF8)] }
    let closed : FileTree := { tree with locked := [["page.html".toList]] }
    Arguments.ofTexts texts = .ok arguments ∧
      ((run texts tree.system).ending = .code 1 ∧ arguments.Faulty tree.look ∧
        ∀ a, ¬ arguments.Ends tree.system (.abort a)) ∧
      (run texts closed.system).ending = .code 2 := by
  intro texts arguments tree closed
  have harguments : Arguments.ofTexts texts = .ok arguments := by decide +kernel
  have hcode : (run texts tree.system).ending = .code 1 := by decide +kernel
  have hclosed : (run texts closed.system).ending = .code 2 := by decide +kernel
  obtain ⟨hiff, hone, -, -⟩ := run_ending_iff harguments tree.system
  refine ⟨harguments, ⟨hcode, hone.mp hcode, fun a ha => ?_⟩, hclosed⟩
  have habort := (hiff _).mpr ha
  rw [hcode] at habort
  cases habort

/-- A good command whose result belongs into a directory that is missing is aborted: it has none of the exit codes. -/
theorem missing_output_directory_aborts :
    let texts := ["a.html".toList, "-o".toList, "missing/out.html".toList]
    let tree : FileTree := { files := [(["a.html".toList], "x".toUTF8)] }
    (∃ arguments, Arguments.ofTexts texts = .ok arguments) ∧ (run texts tree.system).ending = .abort .outputOrphan ∧
      ∀ n, (run texts tree.system).ending ≠ .code n := by
  intro texts tree
  have harguments : Arguments.ofTexts texts =
      .ok { input := "a.html".toList, output := some (.text "missing/out.html".toList) } := by decide +kernel
  have habort : (run texts tree.system).ending = .abort .outputOrphan := by decide +kernel
  refine ⟨⟨_, harguments⟩, habort, fun n hcode => ?_⟩
  rw [habort] at hcode
  cases hcode

end ComponentTags.CommandLine
