import ComponentTags.CommandLine.Run
import ComponentTags.Proofs.DumpReading

/-!
# The dump beside a result

A dump may be asked for beside the result of a command. It is printed beside the result, and it changes nothing else:
the command ends in the same way, prints the same result and writes the same file. Where the template is at fault the
dump may name another fault than the expansion does, but the exit code is the same.

The flag that asks for a dump can be added in front of all arguments, and at every other place where a flag can stand.
It must not stand behind the separator or in the place of a value, and not between the template and a separator that
belongs to it.
-/

namespace ComponentTags.CommandLine

/-- Two results that differ at most in what is printed beside them. -/
structure Result.Agrees (a b : Result) : Prop where
  ending_eq : a.ending = b.ending
  stdout_eq : a.stdout = b.stdout
  written_eq : a.written = b.written

theorem Result.Agrees.refl (r : Result) : r.Agrees r := ⟨rfl, rfl, rfl⟩

/-- Results that agree with the same one agree with each other. -/
theorem Result.Agrees.trans {a b c : Result} (h : a.Agrees b) (h' : b.Agrees c) : a.Agrees c :=
  ⟨h.ending_eq.trans h'.ending_eq, h.stdout_eq.trans h'.stdout_eq, h.written_eq.trans h'.written_eq⟩

/-- Lines that are printed first make no difference to the rest of a result. -/
theorem Result.after_agrees (lines : Text) (r : Result) : (r.after lines).Agrees r := ⟨rfl, rfl, rfl⟩

/-- Faults of a template are told apart beside the result only. -/
theorem failureResult_agrees (p : Path) (text : Text) (f g : Fault) :
    (failureResult p text (.fault f)).Agrees (failureResult p text (.fault g)) := ⟨rfl, rfl, rfl⟩

/-- What a job makes of the text of its template. -/
def Job.expansion (job : Job) (text : Text) : Except Failure Text :=
  match job.mode with
  | .wrap => wrap job.settings.options job.input text
  | _ => expand job.settings.options text

/-- A template is expanded, and what is made of it is handed over, or its failure is reported. -/
theorem Job.expandTemplate_eq (job : Job) (system : System) (text : Text) :
    job.expandTemplate system text =
      match job.expansion text with
      | .error e => failureResult job.input text e
      | .ok result => deliver system job.output result := rfl

/-- Whatever is made of a template, it is refused for the failure that ends its course, and for nothing else. -/
theorem Job.expansion_eq_error_iff {job : Job} {text : Text} {e : Failure} :
    job.expansion text = .error e ↔ ((Outline.ofText text).course text).failure = some e := by
  have hexpand : expand job.settings.options text = .error e ↔
      ((Outline.ofText text).course text).failure = some e := by
    rw [expand, expandDocument_outcome]
    cases ((Outline.ofText text).course text).failure <;> simp
  have hwrap : wrap job.settings.options job.input text = .error e ↔
      ((Outline.ofText text).course text).failure = some e := by
    rw [wrap, expandBody_eq, Course.expanded]
    cases ((Outline.ofText text).course text).failure <;> simp
  unfold expansion
  cases job.mode with
  | wrap => exact hwrap
  | expand => exact hexpand
  | entry => exact hexpand

/-- A template whose course ends at a failure is refused for it, whatever is made of the template. -/
theorem Job.expandTemplate_of_failure {job : Job} {text : Text} {e : Failure}
    (h : ((Outline.ofText text).course text).failure = some e) (system : System) :
    job.expandTemplate system text = failureResult job.input text e := by
  rw [expandTemplate_eq, expansion_eq_error_iff.mpr h]

/-- A failure that ends the course of a text is a fault. -/
theorem course_failure_isFault {text : Text} {e : Failure}
    (h : ((Outline.ofText text).course text).failure = some e) : ∃ f, e = .fault f := by
  have herror : (expandDocument {} text []).outcome = .error e := by rw [expandDocument_outcome, h]
  obtain ⟨f, hf, -⟩ := expandDocument_error_wellPlaced herror
  exact ⟨f, hf⟩

/-- A template is dumped and then expanded with the result of an expansion alone. Where the template is at fault the
expansion may stop at another fault than the dump does, with the same exit code. -/
theorem Job.dump_agrees (job : Job) (system : System) (text : Text) :
    (Result.after (dumpText text).lines
      (match (dumpText text).failure with
        | some e => failureResult job.input text e
        | none => job.expandTemplate system text)).Agrees (job.expandTemplate system text) := by
  cases hdump : (dumpText text).failure with
  | none => exact Result.after_agrees _ _
  | some e =>
    obtain ⟨f, rfl, -⟩ := dumpText_failure_wellPlaced hdump
    cases hcourse : ((Outline.ofText text).course text).failure with
    | none =>
      have hnone := (dumpText_failure_iff text).mpr hcourse
      rw [hdump] at hnone
      cases hnone
    | some other =>
      obtain ⟨g, rfl⟩ := course_failure_isFault hcourse
      rw [Job.expandTemplate_of_failure hcourse]
      have hfaults := failureResult_agrees job.input text f g
      exact (Result.after_agrees _ _).trans hfaults

/-- A job with a dump and the same job without one. -/
theorem Job.run_debug_agrees (job : Job) (system : System) :
    (Job.run { job with debug := true } system).Agrees (job.run system) := by
  unfold Job.run
  dsimp only
  split
  · exact .refl _
  · split
    · exact .refl _
    · next text _ =>
      have hdump := job.dump_agrees system text
      by_cases hd : job.debug = true
      · rw [if_pos rfl, if_pos hd]
        exact .refl _
      · rw [if_pos rfl, if_neg hd]
        exact hdump

/-- What there is to do for arguments that ask for a dump as well. -/
theorem Arguments.job_debug (arguments : Arguments) (look : Path → Lookup) :
    Arguments.job { arguments with debug := true } look =
      (arguments.job look).map fun job => { job with debug := true } := by
  have hpath : Arguments.configPath { arguments with debug := true } = arguments.configPath := rfl
  have hsettings (file : Toml.Table) :
      Choices.settings { arguments.toChoices with debug := true } file = arguments.settings file := rfl
  unfold job
  rw [hpath]
  cases readConfig (look arguments.configPath) with
  | error trouble => rfl
  | ok file =>
    simp only [bind, Except.bind, hsettings]
    cases arguments.settings file with
    | error trouble => rfl
    | ok settings => rfl

section Reading

variable {α β ε : Type}

/-- A change that commutes with each step commutes with all of them. -/
theorem foldlM_comm {step : β → α → Except ε β} {change : β → β}
    (h : ∀ state input, step (change state) input = (step state input).map change) (inputs : List α) (state : β) :
    inputs.foldlM step (change state) = (inputs.foldlM step state).map change := by
  induction inputs generalizing state with
  | nil => rfl
  | cons input inputs ih =>
    rw [List.foldlM_cons, List.foldlM_cons, h]
    cases step state input with
    | error e => rfl
    | ok next => exact ih next

end Reading

/-- A draft that asks for a dump as well. -/
def Draft.withDebug (d : Draft) : Draft := { d with debug := true }

/-- A mode is chosen in the same way with and without a dump. -/
theorem Draft.choose_withDebug (d : Draft) (mode : Mode) :
    d.withDebug.choose mode = (d.choose mode).map withDebug := by
  have hmode : d.withDebug.mode = d.mode := rfl
  unfold choose
  rw [hmode]
  cases d.mode <;> cases mode <;> rfl

/-- A flag is taken in the same way with and without a dump. -/
theorem Draft.use_withDebug (d : Draft) (use : Use) : d.withDebug.use use = (d.use use).map withDebug := by
  unfold Draft.use
  cases use.flag with
  | wrap => exact d.choose_withDebug .wrap
  | entry => exact d.choose_withDebug .entry
  | _ => rfl

/-- A word that is not a value is taken in the same way with and without a dump. -/
theorem Draft.takeWord_withDebug (d : Draft) (word : Word) :
    d.withDebug.takeWord word = (d.takeWord word).map withDebug := by
  have hinput : d.withDebug.input = d.input := rfl
  have hnamed : d.withDebug.justNamed = d.justNamed := rfl
  cases word with
  | operand text =>
    simp only [takeWord, hinput]
    cases d.input <;> rfl
  | separator =>
    simp only [takeWord, hinput, hnamed]
    split <;> rfl
  | unknown text => rfl
  | flags bundle =>
    cases bundle with
    | error e => rfl
    | ok bundle =>
      simp only [takeWord]
      cases bundle.wanting with
      | some flag => rfl
      | none => exact foldlM_comm use_withDebug bundle.uses { d with justNamed := false }

/-- A word is taken in the same way with and without a dump. -/
theorem Draft.step_withDebug (d : Draft) (word : Word) : d.withDebug.step word = (d.step word).map withDebug := by
  have hwaiting : d.withDebug.waiting = d.waiting := rfl
  unfold step
  rw [hwaiting]
  cases hw : d.waiting with
  | none => exact d.takeWord_withDebug word
  | some waiting =>
    cases word with
    | operand value => exact foldlM_comm use_withDebug _ { d with waiting := none }
    | _ => rfl

/-- A draft is completed in the same way with and without a dump. -/
theorem Draft.complete_withDebug (d : Draft) :
    d.withDebug.complete = d.complete.map fun arguments => { arguments with debug := true } := by
  have hwaiting : d.withDebug.waiting = d.waiting := rfl
  have hinput : d.withDebug.input = d.input := rfl
  have hleft : d.withDebug.leftOver = d.leftOver := rfl
  unfold complete
  rw [hwaiting, hinput, hleft]
  cases d.waiting with
  | some waiting => rfl
  | none =>
    cases d.input with
    | none => rfl
    | some input => cases d.leftOver <;> rfl

/-- What a draft asks for once the words that are left are taken. -/
def Draft.finish (d : Draft) (words : List Word) : Except Refusal Arguments :=
  (words.foldlM step d).bind complete

/-- The words can be taken in two parts. -/
theorem Draft.finish_append (d : Draft) (front back : List Word) :
    d.finish (front ++ back) = (front.foldlM step d).bind fun d => d.finish back := by
  unfold finish
  rw [List.foldlM_append]
  cases front.foldlM step d <;> rfl

/-- All words that are left are taken in the same way with and without a dump. -/
theorem Draft.finish_withDebug (d : Draft) (words : List Word) :
    d.withDebug.finish words = (d.finish words).map fun arguments => { arguments with debug := true } := by
  unfold finish
  rw [foldlM_comm step_withDebug]
  cases words.foldlM step d with
  | error refusal => rfl
  | ok last => exact last.complete_withDebug

/-- That the template was named just before matters to a separator alone. -/
theorem Draft.takeWord_unnamed (d : Draft) {word : Word} (h : word ≠ .separator) :
    Draft.takeWord { d with justNamed := false } word = d.takeWord word := by
  cases word with
  | separator => exact absurd rfl h
  | flags bundle => cases bundle <;> rfl
  | _ => rfl

/-- Whether the template was named just before does not matter unless a separator comes next. -/
theorem Draft.finish_unnamed {d : Draft} (hw : d.waiting = none) {words : List Word}
    (h : d.justNamed = true → words.head? ≠ some .separator) :
    Draft.finish { d with justNamed := false } words = d.finish words := by
  by_cases hnamed : d.justNamed = true
  · cases words with
    | nil => rfl
    | cons word words =>
      have hword : word ≠ .separator := by simpa using h hnamed
      have hstep : Draft.step { d with justNamed := false } word = d.step word := by
        have htake := d.takeWord_unnamed hword
        simpa only [step, hw] using htake
      unfold finish
      rw [List.foldlM_cons, List.foldlM_cons, hstep]
  · have hsame : { d with justNamed := false } = d := by
      rw [← Bool.eq_false_iff.mpr hnamed]
    rw [hsame]

/-- The arguments are cut into words, and an empty draft takes all of them. -/
theorem Arguments.ofTexts_eq (texts : List Text) :
    Arguments.ofTexts texts = ((Word.ofTexts texts).mapError .misuse).bind (Draft.finish {}) := rfl

/-- The word that asks for a dump. -/
def Word.debug : Word := .flags (.ok { uses := [{ flag := .debug }] })

/-- The word for a dump asks for one, and what was named before is no longer just named. -/
theorem Draft.step_debug {d : Draft} (hw : d.waiting = none) :
    d.step Word.debug = .ok (Draft.withDebug { d with justNamed := false }) := by
  have htake : d.takeWord Word.debug = .ok (Draft.withDebug { d with justNamed := false }) := rfl
  rw [← htake]
  simp only [step, hw]

/-- The flag for a dump is read as the word for it. -/
theorem Word.ofText_debug : Word.ofText Flag.debug.long = .ok Word.debug := by
  have htext : Flag.debug.long = ['-', '-', 'd', 'e', 'b', 'u', 'g'] := by decide +kernel
  have hmeant : Flag.meantBy (Flag.debug.long.takeWhile (· != '=')) = [.debug] := by decide +kernel
  have hattached : attachedTo Flag.debug.long = none := by decide +kernel
  rw [htext] at hmeant hattached ⊢
  simp only [ofText, hmeant, hattached]
  rfl

/-- An argument other than the separator is read by itself. -/
theorem Word.ofTexts_cons {text : Text} (h : text ≠ ['-', '-']) (texts : List Text) :
    Word.ofTexts (text :: texts) =
      (Word.ofText text).bind fun word => (Word.ofTexts texts).map (word :: ·) := by
  have hbeq : (text == ['-', '-']) = false := beq_false_of_ne h
  rw [ofTexts, hbeq]
  cases Word.ofText text with
  | error e => rfl
  | ok word => cases Word.ofTexts texts <;> rfl

/-- In front of the separator, arguments are read one by one. -/
theorem Word.ofTexts_append {front : List Text} (h : ['-', '-'] ∉ front) (back : List Text) :
    Word.ofTexts (front ++ back) =
      (Word.ofTexts front).bind fun words => (Word.ofTexts back).map (words ++ ·) := by
  induction front with
  | nil =>
    show Word.ofTexts back = _
    cases hback : Word.ofTexts back <;> simp [ofTexts, Except.bind, Except.map]
  | cons text front ih =>
    obtain ⟨htext, hfront⟩ : ['-', '-'] ≠ text ∧ ['-', '-'] ∉ front := by simpa using h
    rw [List.cons_append, ofTexts_cons htext.symm, ofTexts_cons htext.symm, ih hfront]
    cases Word.ofText text with
    | error e => rfl
    | ok word =>
      cases Word.ofTexts front with
      | error e => rfl
      | ok words => cases Word.ofTexts back <;> rfl

theorem Word.ofOther_ne_separator (text : Text) : Word.ofOther text ≠ .separator := by
  unfold ofOther
  split <;> simp

/-- No argument that is read by itself is taken for a separator. -/
theorem Word.ofText_ne_separator (text : Text) : Word.ofText text ≠ .ok .separator := by
  have hother : Except.ok (Word.ofOther text) ≠ (.ok .separator : Except UsageError Word) := by
    simpa using ofOther_ne_separator text
  unfold ofText
  split
  · split
    · exact hother
    · simp
    · simp
  · split
    · simp
    · exact hother
  · simp

/-- Words begin with a separator only if the arguments do. -/
theorem Word.head?_ofTexts {texts : List Text} {words : List Word} (h : Word.ofTexts texts = .ok words)
    (hhead : texts.head? ≠ some ['-', '-']) : words.head? ≠ some .separator := by
  cases texts with
  | nil =>
    cases h
    simp
  | cons text texts =>
    have htext : text ≠ ['-', '-'] := by simpa using hhead
    rw [ofTexts_cons htext] at h
    cases hword : Word.ofText text with
    | error e =>
      rw [hword] at h
      cases h
    | ok word =>
      have hne : word ≠ .separator := fun hsep => ofText_ne_separator text (hsep ▸ hword)
      rw [hword] at h
      cases hwords : Word.ofTexts texts with
      | error e =>
        rw [hwords] at h
        cases h
      | ok more =>
        rw [hwords] at h
        cases h
        simpa using hne

/-- A flag can be added between arguments. It is not added behind the separator or as the value of another flag, and not
between the template and the separator behind it. -/
structure FlagFits (front back : List Text) : Prop where
  separator_not_mem : ['-', '-'] ∉ front
  waiting_eq_none : ∀ words d, Word.ofTexts front = .ok words → words.foldlM Draft.step {} = .ok d → d.waiting = none
  head?_ne : ∀ words d, Word.ofTexts front = .ok words → words.foldlM Draft.step {} = .ok d → d.justNamed = true →
    back.head? ≠ some ['-', '-']

/-- A flag can be added in front of all arguments. -/
theorem FlagFits.nil (back : List Text) : FlagFits [] back where
  separator_not_mem := List.not_mem_nil
  waiting_eq_none := by
    rintro words d hwords hd
    cases hwords
    cases hd
    rfl
  head?_ne := by
    rintro words d hwords hd hnamed
    cases hwords
    cases hd
    cases hnamed

/-- Words with the one that asks for a dump among them. -/
theorem Draft.finish_debug {front : List Word} (back : List Word)
    (h : ∀ d, front.foldlM Draft.step {} = .ok d →
      d.waiting = none ∧ (d.justNamed = true → back.head? ≠ some .separator)) :
    Draft.finish {} (front ++ Word.debug :: back) =
      (Draft.finish {} (front ++ back)).map fun arguments => { arguments with debug := true } := by
  rw [finish_append, finish_append]
  cases hd : front.foldlM step {} with
  | error refusal => rfl
  | ok d =>
    obtain ⟨hwaiting, hhead⟩ := h d hd
    have hcons : d.finish (Word.debug :: back) = (Draft.withDebug { d with justNamed := false }).finish back := by
      unfold finish
      rw [List.foldlM_cons, step_debug hwaiting]
      rfl
    show d.finish (Word.debug :: back) = _
    rw [hcons, finish_withDebug, finish_unnamed hwaiting hhead]
    rfl

/-- With the flag added, the arguments ask for the same and a dump. -/
theorem Arguments.ofTexts_debug {front back : List Text} (h : FlagFits front back) :
    Arguments.ofTexts (front ++ Flag.debug.long :: back) =
      (Arguments.ofTexts (front ++ back)).map fun arguments => { arguments with debug := true } := by
  have hlong : Flag.debug.long ≠ ['-', '-'] := by decide +kernel
  rw [ofTexts_eq, ofTexts_eq, Word.ofTexts_append h.separator_not_mem, Word.ofTexts_append h.separator_not_mem,
    Word.ofTexts_cons hlong, Word.ofText_debug]
  cases hfront : Word.ofTexts front with
  | error e => rfl
  | ok words =>
    cases hback : Word.ofTexts back with
    | error e => rfl
    | ok more =>
      refine Draft.finish_debug more fun d hd => ⟨h.waiting_eq_none words d hfront hd, fun hnamed => ?_⟩
      exact Word.head?_ofTexts hback (h.head?_ne words d hfront hd hnamed)

/-- The command with the flag for a dump and without it. -/
theorem run_debug_agrees {front back : List Text} (h : FlagFits front back) (system : System) :
    (run (front ++ Flag.debug.long :: back) system).Agrees (run (front ++ back) system) := by
  unfold run
  rw [Arguments.ofTexts_debug h]
  cases Arguments.ofTexts (front ++ back) with
  | error refusal => exact .refl _
  | ok arguments =>
    simp only [Except.map, Arguments.job_debug]
    cases arguments.job system.look with
    | error trouble => exact .refl _
    | ok job => exact job.run_debug_agrees system

/-- A dump comes to its end exactly for texts that can be expanded, and then it shows the components that the body
calls. The flag for a dump changes neither the exit code of the command nor its result. -/
theorem dumpText_agrees_with_expand (text : Text) (options : Options) :
    ((dumpText text).failure = none ↔ ∃ out, expand options text = .ok out) ∧
    ((dumpText text).failure = none →
      let entries := (Outline.ofText text).entries text
      let pieces := (Outline.ofText text).pieces options text
      (dumpText text).lines =
          "Template\n".toList ++ entries.flatMap (·.lines (LineIndex.ofText text)) ∧
        (expandBody options text []).outcome = .ok (pieces.flatMap Piece.written) ∧
        entries.filterMap DumpEntry.called? = (pieces.filterMap Piece.call?).map (·.2)) ∧
    (∀ arguments system, (run ("--debug".toList :: arguments) system).Agrees (run arguments system)) ∧
    ∀ front back system, FlagFits front back →
      (run (front ++ "--debug".toList :: back) system).Agrees (run (front ++ back) system) := by
  refine ⟨?_, fun hdump => ?_, fun arguments system => ?_, fun front back system h => run_debug_agrees h system⟩
  · rw [dumpText_failure_iff]
    constructor
    · intro hcourse
      rw [expand, expandDocument_outcome, hcourse]
      exact ⟨_, rfl⟩
    · rintro ⟨out, hout⟩
      exact course_failure_of_ok hout
  · have hcourse := (dumpText_failure_iff text).mp hdump
    have hbody := expandBody_of_course hcourse options []
    exact ⟨dumpText_lines hdump, congrArg Expanded.outcome hbody, Outline.called_entries options text⟩
  · exact run_debug_agrees (FlagFits.nil arguments) system

/-- A component within another one, and the flag behind the name of the template. -/
theorem dumpText_agrees_with_expand_nested :
    let text := "<Box size=\"1\">a<Item last/></Box>".toList
    let lines := ("Template\n  Tag <Box> paired @1:1\n    Named size=\"1\"\n    Children\n" ++
      "      Text('a')\n      Tag <Item> self-closing @1:16\n        Shorthand last\n").toList
    let body := ("\x7b% call box_scope::box(size=\"1\") %\x7da" ++
      "\x7b% call item_scope::item(last) %\x7d\x7b% endcall %\x7d").toList
    let called : List Called := [⟨"Box".toList, true, [.named "size".toList "\"1\"".toList]⟩,
      ⟨"Item".toList, false, [.shorthand "last".toList]⟩]
    let entries := (Outline.ofText text).entries text
    let pieces := (Outline.ofText text).pieces {} text
    (∃ out, expand {} text = .ok out) ∧
      (dumpText text).lines = lines ∧
      "Template\n".toList ++ entries.flatMap (·.lines (LineIndex.ofText text)) = lines ∧
      (expandBody {} text []).outcome = .ok body ∧ pieces.flatMap Piece.written = body ∧
      entries.filterMap DumpEntry.called? = called ∧ (pieces.filterMap Piece.call?).map (·.2) = called ∧
      ∀ system, (run ["page.html".toList, "--debug".toList] system).Agrees (run ["page.html".toList] system) := by
  intro text lines body called entries pieces
  have hdump : (dumpText text).failure = none := by decide +kernel
  have hlines : (dumpText text).lines = lines := by decide +kernel
  have hbody : (expandBody {} text []).outcome = .ok body := by decide +kernel
  have hcalled : (pieces.filterMap Piece.call?).map (·.2) = called := by decide +kernel
  have hfits : FlagFits ["page.html".toList] [] := by
    refine ⟨by decide +kernel, fun words d hwords hd => ?_, fun words d hwords hd hnamed => by simp⟩
    cases hwords
    cases hd
    rfl
  obtain ⟨hexpand, hshown, -, hrun⟩ := dumpText_agrees_with_expand text {}
  obtain ⟨hspelled, hwritten, hentries⟩ := hshown hdump
  exact ⟨hexpand.mp hdump, hlines, hspelled.symm.trans hlines, hbody,
    Except.ok.inj (hwritten.symm.trans hbody), hentries.trans hcalled, hcalled, fun system => hrun _ _ system hfits⟩

end ComponentTags.CommandLine
