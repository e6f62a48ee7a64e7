import ComponentTags.Proofs.DebugFlag
import ComponentTags.Proofs.FileWriting

/-!
# Handing over the result

The command makes a text and hands it over, or it ends before that. Where it does not end with the exit code of success,
it has printed no result and written no file, unless the handing over itself broke off after it had begun: then some of
the text, or an empty file, is left behind. Where the command ends with success, the whole text has gone to one place:
to the file that was named for it, or else to the standard output. This holds with the template itself as the file for
the result, too. A file counts as named only if the name survives the reading of the arguments: one that is attached to
its flag and consists of two dashes does not.

All this holds for any system around the command. Where the system has the files of a tree, the file that was written is
found in the tree, and no other file has changed. What is printed beside a result is not covered here.
-/

namespace ComponentTags.CommandLine

/-- How the command ends for want of a template, by what stands at the template's path. -/
inductive Unread : Lookup → Ending → Prop
  /-- The template is not UTF-8. -/
  | notText {bytes : ByteArray} (h : decodeText? bytes = none) : Unread (.file bytes) (.abort .notText)
  /-- What comes out of a pipe is not UTF-8. -/
  | streamNotText {bytes : ByteArray} (h : decodeText? bytes = none) : Unread (.stream bytes) (.abort .notText)
  /-- No file has such a name. -/
  | unnameable : Unread .unnameable (.abort .unnameable)
  /-- A directory is not a template. -/
  | directory : Unread .directory (.code 2)
  /-- Nothing is there. -/
  | absent : Unread .absent (.code 2)
  /-- Not even the directory is there. -/
  | orphan : Unread .orphan (.code 2)
  /-- A file stands on the way. -/
  | beneathFile : Unread .beneathFile (.code 2)
  /-- Links lead in a circle. -/
  | looped : Unread .looped (.code 2)
  /-- The path is too long. -/
  | tooLong : Unread .tooLong (.code 2)
  /-- The template may not be read. -/
  | refused (number : Nat) (name : Text) : Unread (.refused number name) (.code 2)

/-- Nothing is printed as a result, and no file is written. -/
def Result.Traceless (r : Result) : Prop := r.stdout = [] ∧ r.written = none

/-- What is printed beside a result is no trace. -/
theorem Result.Agrees.traceless {a b : Result} (h : a.Agrees b) (hb : b.Traceless) : a.Traceless :=
  ⟨h.stdout_eq.trans hb.1, h.written_eq.trans hb.2⟩

/-- Without a template the command ends without a trace. -/
theorem readTemplate_error {p : Path} {found : Lookup} {r : Result} (h : readTemplate p found = .error r) :
    Unread found r.ending ∧ r.Traceless := by
  cases found with
  | file bytes | stream bytes =>
    cases htext : decodeText? bytes with
    | none =>
      simp only [readTemplate, htext] at h
      cases h
      exact ⟨by constructor; exact htext, rfl, rfl⟩
    | some text =>
      simp only [readTemplate, htext] at h
      cases h
  | _ =>
    cases h
    exact ⟨by constructor, rfl, rfl⟩

/-- What stands for want of a template is refused as one, with that end. -/
theorem Unread.readTemplate_eq {found : Lookup} {ending : Ending} (h : Unread found ending) (p : Path) :
    ∃ r, readTemplate p found = .error r ∧ r.ending = ending := by
  cases h with
  | notText htext | streamNotText htext =>
    simp only [readTemplate, htext]
    exact ⟨_, rfl, rfl⟩
  | _ => exact ⟨_, rfl, rfl⟩

/-- The command has the exit code 2 then, or it is aborted. -/
theorem Unread.ending_cases {found : Lookup} {ending : Ending} (h : Unread found ending) :
    ending = .code 2 ∨ ∃ a, ending = .abort a := by
  cases h <;> simp

/-- What a template is refused for is a fault. -/
theorem Job.expansion_isFault {job : Job} {text : Text} {e : Failure} (h : job.expansion text = .error e) :
    ∃ f, e = .fault f :=
  course_failure_isFault (expansion_eq_error_iff.mp h)

/-- The text that a job makes, or how the command ends without one. -/
def Job.product (job : Job) (look : Path → Lookup) : Except Ending Text :=
  match job.mode with
  | .entry => .ok (entryStub job.settings.options.toNaming job.input)
  | _ =>
    match readTemplate job.input (look job.input) with
    | .error r => .error r.ending
    | .ok text => (job.expansion text).mapError fun _ => .code 1

/-- An entry stub is made without a template. -/
theorem Job.product_of_entry {job : Job} (h : job.mode = .entry) (look : Path → Lookup) :
    job.product look = .ok (entryStub job.settings.options.toNaming job.input) := by
  rw [product, h]

/-- Without a template no other text is made. -/
theorem Job.product_of_unread {job : Job} (h : job.mode ≠ .entry) {look : Path → Lookup} {r : Result}
    (hread : readTemplate job.input (look job.input) = .error r) : job.product look = .error r.ending := by
  unfold product
  split
  · next hentry => exact absurd hentry h
  · rw [hread]

/-- From a template a text is made, unless the template has a fault. -/
theorem Job.product_of_read {job : Job} (h : job.mode ≠ .entry) {look : Path → Lookup} {text : Text}
    (hread : readTemplate job.input (look job.input) = .ok text) :
    job.product look = (job.expansion text).mapError fun _ => .code 1 := by
  unfold product
  split
  · next hentry => exact absurd hentry h
  · rw [hread]

/-- The ways in which a job makes no text. -/
inductive Job.Fails (job : Job) (look : Path → Lookup) : Ending → Prop
  /-- There is no template to read. -/
  | unread {ending : Ending} (hmode : job.mode ≠ .entry) (h : Unread (look job.input) ending) : Fails job look ending
  /-- The template has a fault. -/
  | fault {text : Text} {f : Fault} (hmode : job.mode ≠ .entry)
      (hread : readTemplate job.input (look job.input) = .ok text) (h : job.expansion text = .error (.fault f)) :
      Fails job look (.code 1)

/-- No text is made in these ways alone. -/
theorem Job.product_eq_error_iff {job : Job} {look : Path → Lookup} {ending : Ending} :
    job.product look = .error ending ↔ job.Fails look ending := by
  constructor
  · intro h
    by_cases hmode : job.mode = .entry
    · rw [product_of_entry hmode] at h
      cases h
    · cases hread : readTemplate job.input (look job.input) with
      | error r =>
        rw [product_of_unread hmode hread] at h
        cases h
        exact .unread hmode (readTemplate_error hread).1
      | ok text =>
        rw [product_of_read hmode hread] at h
        cases hexpansion : job.expansion text with
        | error e =>
          obtain ⟨f, rfl⟩ := expansion_isFault hexpansion
          rw [hexpansion] at h
          cases h
          exact .fault hmode hread hexpansion
        | ok out =>
          rw [hexpansion] at h
          cases h
  · rintro (⟨hmode, hunread⟩ | ⟨hmode, hread, hfault⟩)
    · obtain ⟨r, hread, rfl⟩ := hunread.readTemplate_eq job.input
      exact product_of_unread hmode hread
    · rw [product_of_read hmode hread, hfault]
      rfl

/-- A job that makes no text does not end with success. -/
theorem Job.Fails.ending_ne {job : Job} {look : Path → Lookup} {ending : Ending} (h : job.Fails look ending) :
    ending ≠ .code 0 := by
  cases h with
  | unread hmode hunread => rcases hunread.ending_cases with rfl | ⟨a, rfl⟩ <;> simp
  | fault => simp

/-- Trouble with the settings leaves no trace. -/
theorem ConfigTrouble.result_traceless (trouble : ConfigTrouble) : trouble.result.Traceless := by
  cases trouble <;> exact ⟨rfl, rfl⟩

/-- Trouble with the settings is no success. -/
theorem ConfigTrouble.result_ending_ne (trouble : ConfigTrouble) : trouble.result.ending ≠ .code 0 := by
  cases trouble <;> simp [result]

/-- Arguments that are refused leave no trace. -/
theorem Refusal.result_traceless (refusal : Refusal) : refusal.result.Traceless := by
  cases refusal <;> exact ⟨rfl, rfl⟩

/-- Arguments that are refused are no success. -/
theorem Refusal.result_ending_ne (refusal : Refusal) : refusal.result.ending ≠ .code 0 := by
  cases refusal <;> simp [result]

/-- What is done with what a job makes. -/
def Job.handOver (job : Job) (system : System) : Result :=
  match job.product system.look with
  | .error ending => { ending := ending }
  | .ok out => deliver system job.output out

/-- A template that was read is expanded, and its text is handed over. -/
theorem Job.expandTemplate_agrees {job : Job} (h : job.mode ≠ .entry) {system : System} {text : Text}
    (hread : readTemplate job.input (system.look job.input) = .ok text) :
    (job.expandTemplate system text).Agrees (job.handOver system) := by
  rw [expandTemplate_eq, handOver, product_of_read h hread]
  cases hexpansion : job.expansion text with
  | error e =>
    obtain ⟨f, rfl⟩ := expansion_isFault hexpansion
    exact ⟨rfl, rfl, rfl⟩
  | ok out => exact .refl _

/-- A job is done by handing over what it makes; a dump is printed beside that. -/
theorem Job.run_agrees (job : Job) (system : System) : (job.run system).Agrees (job.handOver system) := by
  unfold run
  split
  · next hmode =>
    rw [handOver, product_of_entry hmode]
    exact .refl _
  · next hmode =>
    cases hread : readTemplate job.input (system.look job.input) with
    | error r =>
      have htrace := (readTemplate_error hread).2
      rw [handOver, product_of_unread hmode hread]
      exact ⟨rfl, htrace.1, htrace.2⟩
    | ok text =>
      have hdump := job.dump_agrees system text
      have hexpand := expandTemplate_agrees hmode hread
      dsimp only
      split
      · exact hdump.trans hexpand
      · exact hexpand

/-- The job that arguments ask for has their template, file for the result and mode. -/
theorem Arguments.job_fields {arguments : Arguments} {look : Path → Lookup} {job : Job}
    (h : arguments.job look = .ok job) :
    job.input = arguments.inputPath ∧ job.output = pathOf? arguments.output ∧ job.mode = arguments.mode := by
  unfold Arguments.job at h
  simp only [bind, Except.bind] at h
  split at h
  · cases h
  · split at h
    · cases h
    · cases h
      exact ⟨rfl, rfl, rfl⟩

/-- The command with arguments that are refused. -/
theorem run_of_refusal {texts : List Text} {refusal : Refusal} (h : Arguments.ofTexts texts = .error refusal)
    (system : System) : run texts system = refusal.result := by
  rw [run, h]

/-- The command with accepted arguments and trouble with the settings. -/
theorem run_of_trouble {texts : List Text} {arguments : Arguments} {system : System} {trouble : ConfigTrouble}
    (h : Arguments.ofTexts texts = .ok arguments) (hjob : arguments.job system.look = .error trouble) :
    run texts system = trouble.result := by
  simp only [run, h, hjob]

/-- The command with accepted arguments and good settings. -/
theorem run_of_job {texts : List Text} {arguments : Arguments} {system : System} {job : Job}
    (h : Arguments.ofTexts texts = .ok arguments) (hjob : arguments.job system.look = .ok job) :
    run texts system = job.run system := by
  simp only [run, h, hjob]

/-- A text is made from accepted arguments and good settings. -/
structure Makes (texts : List Text) (system : System) (arguments : Arguments) (out : Text) : Prop where
  /-- The arguments are accepted. -/
  arguments_eq : Arguments.ofTexts texts = .ok arguments
  /-- The settings are good, and the job that is asked for makes the text. -/
  product_eq : ∃ job, arguments.job system.look = .ok job ∧ job.product system.look = .ok out

/-- The command makes no text and leaves no trace, or it hands over the text that it makes. -/
theorem run_cases (texts : List Text) (system : System) :
    ((run texts system).ending ≠ .code 0 ∧ (run texts system).Traceless) ∨
      ∃ arguments out, Makes texts system arguments out ∧
        (run texts system).Agrees (deliver system (pathOf? arguments.output) out) := by
  cases harguments : Arguments.ofTexts texts with
  | error refusal =>
    rw [run_of_refusal harguments]
    exact .inl ⟨refusal.result_ending_ne, refusal.result_traceless⟩
  | ok arguments =>
    cases hjob : arguments.job system.look with
    | error trouble =>
      rw [run_of_trouble harguments hjob]
      exact .inl ⟨trouble.result_ending_ne, trouble.result_traceless⟩
    | ok job =>
      have hagrees := job.run_agrees system
      have houtput := (Arguments.job_fields hjob).2.1
      rw [run_of_job harguments hjob]
      cases hproduct : job.product system.look with
      | error ending =>
        have hfails := Job.product_eq_error_iff.mp hproduct
        rw [Job.handOver, hproduct] at hagrees
        left
        rw [hagrees.ending_eq]
        exact ⟨hfails.ending_ne, hagrees.traceless ⟨rfl, rfl⟩⟩
      | ok out =>
        rw [Job.handOver, hproduct, houtput] at hagrees
        exact .inr ⟨arguments, out, ⟨harguments, job, hjob, hproduct⟩, hagrees⟩

/-- A text is printed as the result, and no file is written. -/
structure Result.Prints (r : Result) (out : Text) : Prop where
  /-- All of the text is printed. -/
  stdout_eq : r.stdout = out
  /-- No file is written. -/
  written_eq : r.written = none

/-- A text is written to a file, and no result is printed. -/
structure Result.Writes (r : Result) (p : Path) (out : Text) : Prop where
  /-- Nothing is printed. -/
  stdout_eq : r.stdout = []
  /-- The file has all of the text in UTF-8. -/
  written_eq : r.written = some (p, (String.ofList out).toUTF8)

/-- The handing over of a text has begun and then broken off, and what came through is left behind. -/
inductive Result.BreaksOff (r : Result) (system : System) (output : Option Path) (out : Text) : Prop
  /-- Some of the text is printed. -/
  | printing {kept : Text} {a : Abort} (houtput : output = none) (hprint : system.print out = .broken kept a)
      (ending_eq : r.ending = .abort a) (stdout_eq : r.stdout = kept) (written_eq : r.written = none)
  /-- The file for the result is left with the bytes that came through. -/
  | writing {p : Path} {kept : ByteArray} {a : Abort} (houtput : output = some p)
      (hwrite : system.write p out = .broken kept a) (ending_eq : r.ending = .abort a) (stdout_eq : r.stdout = [])
      (written_eq : r.written = some (p, kept))

section Deliver

variable {r : Result} {system : System} {output : Option Path} {out : Text}

/-- A text that is not handed over leaves no trace, or the handing over breaks off. -/
theorem Result.Agrees.traceless_or_breaksOff (h : r.Agrees (deliver system output out)) (hne : r.ending ≠ .code 0) :
    r.Traceless ∨ r.BreaksOff system output out := by
  obtain ⟨hending, hstdout, hwritten⟩ := h
  cases output with
  | none =>
    cases hprint : system.print out with
    | complete =>
      simp only [deliver, hprint] at hending
      exact absurd hending hne
    | refused a =>
      simp only [deliver, hprint] at hstdout hwritten
      exact .inl ⟨hstdout, hwritten⟩
    | broken kept a =>
      simp only [deliver, hprint] at hending hstdout hwritten
      exact .inr (.printing rfl hprint hending hstdout hwritten)
  | some p =>
    cases hwrite : system.write p out with
    | complete =>
      simp only [deliver, hwrite] at hending
      exact absurd hending hne
    | refused a =>
      simp only [deliver, hwrite] at hstdout hwritten
      exact .inl ⟨hstdout, hwritten⟩
    | broken kept a =>
      simp only [deliver, hwrite] at hending hstdout hwritten
      exact .inr (.writing rfl hwrite hending hstdout hwritten)

/-- Without a file for the result, success means that all of the text is printed. -/
theorem Result.Agrees.prints (h : r.Agrees (deliver system none out)) (hcode : r.ending = .code 0) : r.Prints out := by
  obtain ⟨hending, hstdout, hwritten⟩ := h
  cases hprint : system.print out with
  | complete =>
    simp only [deliver, hprint] at hstdout hwritten
    exact ⟨hstdout, hwritten⟩
  | _ =>
    simp only [deliver, hprint] at hending
    rw [hcode] at hending
    cases hending

/-- With a file for the result, success means that all of the text is written to it. -/
theorem Result.Agrees.writes {p : Path} (h : r.Agrees (deliver system (some p) out)) (hcode : r.ending = .code 0) :
    r.Writes p out := by
  obtain ⟨hending, hstdout, hwritten⟩ := h
  cases hwrite : system.write p out with
  | complete =>
    simp only [deliver, hwrite] at hstdout hwritten
    exact ⟨hstdout, hwritten⟩
  | _ =>
    simp only [deliver, hwrite] at hending
    rw [hcode] at hending
    cases hending

/-- A file that was written has been opened: the system has not refused it. -/
theorem Result.Agrees.write_ne_refused {p : Path} {bytes : ByteArray} (h : r.Agrees (deliver system output out))
    (hwritten : r.written = some (p, bytes)) (a : Abort) : system.write p out ≠ .refused a := by
  rw [h.written_eq] at hwritten
  intro hrefused
  cases output with
  | none => cases hprint : system.print out <;> simp [deliver, hprint] at hwritten
  | some q =>
    cases hwrite : system.write q out <;> simp only [deliver, hwrite] at hwritten
    · cases hwritten
      rw [hwrite] at hrefused
      cases hrefused
    · cases hwritten
    · cases hwritten
      rw [hwrite] at hrefused
      cases hrefused

end Deliver

/-- The system has the files of a tree. What comes of writing and printing is left open otherwise. -/
structure System.On (system : System) (tree : FileTree) : Prop where
  /-- What is read at a path is what the tree has there. -/
  look_eq : ∀ p, system.look p = tree.look p
  /-- Files are opened for writing where the tree lets them be opened. -/
  refused_iff : ∀ p out a, system.write p out = .refused a ↔ tree.writeTrouble? p = some a

/-- A tree by itself makes such a system. -/
theorem System.on_tree (tree : FileTree) : tree.system.On tree := by
  refine ⟨fun p => rfl, fun p out a => ?_⟩
  simp only [FileTree.system]
  cases tree.writeTrouble? p <;> simp

/-- The files after a command that found a tree. -/
def Result.filesAfter (r : Result) (tree : FileTree) : FileTree :=
  match r.written with
  | none => tree
  | some (p, bytes) => tree.write p bytes

/-- The file that was written is found in the tree, and all other files are found as before. -/
structure Result.Leaves (r : Result) (tree : FileTree) (p : Path) (bytes : ByteArray) : Prop where
  /-- The file has what was written. -/
  find_eq : (r.filesAfter tree).find p = .file bytes
  /-- A file elsewhere is as it was before. -/
  find_other : ∀ q found, tree.namesOf q ≠ tree.namesOf p →
    ((r.filesAfter tree).find q = .file found ↔ tree.find q = .file found)

/-- Where the system has the files of a tree, the command changes no file but the one that it writes. -/
theorem run_leaves {texts : List Text} {system : System} {tree : FileTree} (hon : system.On tree) {p : Path}
    {bytes : ByteArray} (hwritten : (run texts system).written = some (p, bytes)) :
    (run texts system).Leaves tree p bytes := by
  have hfiles : (run texts system).filesAfter tree = tree.write p bytes := by rw [Result.filesAfter, hwritten]
  have htrouble : tree.writeTrouble? p = none := by
    rcases run_cases texts system with ⟨-, htrace⟩ | ⟨arguments, out, -, hagrees⟩
    · rw [htrace.2] at hwritten
      cases hwritten
    · refine Option.eq_none_iff_forall_ne_some.mpr fun a ha => ?_
      exact hagrees.write_ne_refused hwritten a ((hon.refused_iff p out a).mpr ha)
  constructor
  · rw [hfiles]
    exact FileTree.find_write_self htrouble bytes
  · intro q found hne
    rw [hfiles]
    exact FileTree.find_write_of_ne htrouble hne bytes found

/-- A flag for the result's file counts for nothing if it is not given, or not with a text, or with an empty one. -/
theorem pathOf?_eq_none {value : Option Given} (h : ∀ t, value = some (.text t) → t = []) : pathOf? value = none := by
  unfold pathOf?
  split
  · next c rest => cases h (c :: rest) rfl
  · rfl

/-- A text names a file for the result unless it is empty. -/
theorem pathOf?_text {t : Text} (h : t ≠ []) : pathOf? (some (.text t)) = some (Path.ofText t) := by
  cases t with
  | nil => exact absurd rfl h
  | cons c rest => rfl

/-- Without the exit code of success, the command leaves no trace in its result, unless the handing over of the text
that it made has begun and broken off. With it, the whole text went to one place: to the file for the result alone where
the arguments have a name for that, and else to the standard output alone. Where the system has the files of a tree, a
file that was written is found with its bytes, all other files are as before, and without one the tree is as before. -/
theorem run_delivers_once_or_not (texts : List Text) (system : System) :
    let r := run texts system
    (r.ending ≠ .code 0 → r.Traceless ∨ ∃ arguments out, Makes texts system arguments out ∧
      r.BreaksOff system (pathOf? arguments.output) out) ∧
    (r.ending = .code 0 → ∃ arguments out, Makes texts system arguments out ∧
      ((∀ t, arguments.output = some (.text t) → t = []) → r.Prints out) ∧
      ∀ t, arguments.output = some (.text t) → t ≠ [] → r.Writes (Path.ofText t) out) ∧
    ∀ tree, system.On tree →
      (r.written = none → r.filesAfter tree = tree) ∧
        ∀ p bytes, r.written = some (p, bytes) → r.Leaves tree p bytes := by
  intro r
  refine ⟨fun hne => ?_, fun hcode => ?_, fun tree hon => ⟨fun hnone => ?_, fun p bytes hsome => run_leaves hon hsome⟩⟩
  · rcases run_cases texts system with ⟨-, htrace⟩ | ⟨arguments, out, hmakes, hagrees⟩
    · exact .inl htrace
    · rcases hagrees.traceless_or_breaksOff hne with htrace | hbreaks
      · exact .inl htrace
      · exact .inr ⟨arguments, out, hmakes, hbreaks⟩
  · rcases run_cases texts system with ⟨hne, -⟩ | ⟨arguments, out, hmakes, hagrees⟩
    · exact absurd hcode hne
    · refine ⟨arguments, out, hmakes, fun hnone => ?_, fun t ht hne => ?_⟩
      · rw [pathOf?_eq_none hnone] at hagrees
        exact hagrees.prints hcode
      · rw [ht, pathOf?_text hne] at hagrees
        exact hagrees.writes hcode
  · rw [Result.filesAfter, hnone]

/-- The template is named as the file for the result: a good template is replaced, a faulty one stays, and one that is
opened before the writing breaks off is lost. -/
theorem run_delivers_once_or_not_in_place :
    let texts := ["page.html".toList, "-o".toList, "page.html".toList]
    let page := Path.ofText "page.html".toList
    let card : FileTree := { files := [(["page.html".toList], "<Card/>".toUTF8)] }
    let faulty : FileTree := { files := [(["page.html".toList], "<Card".toUTF8)] }
    let full : System := { card.system with
      write := fun p _ => (card.writeTrouble? p).elim (.broken ByteArray.empty .mediumFailed) .refused }
    let out := "\x7b%- import \"card.html\" as card_scope -%\x7d\n\n\x7b% call card_scope::card() %\x7d".toList
    let good := run texts card.system
    let bad := run texts faulty.system
    let lost := run texts full
    (good.ending = .code 0 ∧ good.Writes page out ∧ good.Leaves card page (String.ofList out).toUTF8) ∧
      (bad.ending = .code 1 ∧ bad.Traceless ∧ bad.filesAfter faulty = faulty) ∧
      lost.ending = .abort .mediumFailed ∧ lost.Leaves card page ByteArray.empty := by
  intro texts page card faulty full out good bad lost
  have hgood : good.ending = .code 0 := by decide +kernel
  have hprinted : good.stdout = [] := by decide +kernel
  have hwritten : good.written = some (page, (String.ofList out).toUTF8) := by decide +kernel
  have hbad : bad.ending = .code 1 := by decide +kernel
  have huntouched : bad.Traceless := ⟨by decide +kernel, by decide +kernel⟩
  have hlost : lost.ending = .abort .mediumFailed := by decide +kernel
  have hemptied : lost.written = some (page, ByteArray.empty) := by decide +kernel
  have hon : full.On card := by
    refine ⟨fun p => rfl, fun p text a => ?_⟩
    simp only [full]
    cases card.writeTrouble? p <;> simp
  have hgoodFiles := (run_delivers_once_or_not texts card.system).2.2 card (System.on_tree card)
  have hbadFiles := (run_delivers_once_or_not texts faulty.system).2.2 faulty (System.on_tree faulty)
  have hlostFiles := (run_delivers_once_or_not texts full).2.2 card hon
  exact ⟨⟨hgood, ⟨hprinted, hwritten⟩, hgoodFiles.2 _ _ hwritten⟩, ⟨hbad, huntouched, hbadFiles.1 huntouched.2⟩, hlost,
    hlostFiles.2 _ _ hemptied⟩

/-- A name that is attached to its flag and consists of two dashes is no name for the result: the command ends with
success, but it prints the result, and no file is written. -/
theorem attached_dashes_print_result :
    let texts := ["a.html".toList, "--output=--".toList]
    let tree : FileTree := { files := [(["a.html".toList], "x".toUTF8)] }
    run texts tree.system = { ending := .code 0, stdout := "x".toList } := by
  decide +kernel

end ComponentTags.CommandLine
