import ComponentTags.Proofs.AttributePrinting

/-!
# The parentheses of a call

The arguments of a call are the attributes of a tag as they were written, with the quotes and the brackets in their
values. Whoever reads the call has to find the parenthesis that ends the arguments. The reader below takes one character
at a time: it skips quoted texts, in which a backslash hides the next character, and it matches brackets by kind. It
shares no part with the readers of attribute lists.

Such a reader passes over every expression and stands behind it as it stood before it. So no argument, and no list of
arguments, ends the call early, leaves a quote open or holds a bracket that does not match.

What the name of the scope does in front of the arguments is not looked at.
-/

namespace ComponentTags

/-- What the reader of a call is in the middle of. -/
inductive ReadingMode where
  /-- Outside of quoted texts. -/
  | code
  /-- In a quoted text that the given quote ends. -/
  | quoted (quote : Char)
  /-- In a quoted text, behind a backslash. -/
  | hidden (quote : Char)
  deriving DecidableEq, Repr

/-- Where the reader of a call stands. -/
structure CallReader where
  /-- The closing brackets that it awaits, the innermost first. -/
  awaited : List Char
  /-- What it is in the middle of. -/
  mode : ReadingMode
  deriving DecidableEq, Repr

/-- The step over one character; there is none over a closing bracket that is not the awaited one. -/
def CallReader.step (r : CallReader) (c : Char) : Option CallReader :=
  match r.mode with
  | .quoted quote =>
    if c == '\\' then some ⟨r.awaited, .hidden quote⟩
    else if c == quote then some ⟨r.awaited, .code⟩
    else some r
  | .hidden quote => some ⟨r.awaited, .quoted quote⟩
  | .code =>
    if isQuote c then some ⟨r.awaited, .quoted c⟩
    else match closerOf? c, r.awaited with
      | some closer, awaited => some ⟨closer :: awaited, .code⟩
      | none, [] => if isCloser c then none else some r
      | none, closer :: outer =>
        if c == closer then some ⟨outer, .code⟩ else if isCloser c then none else some r

/-- How reading a call came out. -/
inductive CallEnd where
  /-- The first of the open brackets was closed by the last of so many characters. -/
  | closed (size : Nat)
  /-- A closing bracket did not match. -/
  | mismatch
  /-- The text ended in a quoted text. -/
  | openQuote
  /-- The text ended between brackets. -/
  | openBracket
  deriving DecidableEq, Repr

/-- The same outcome when `n` characters more were read in front. -/
def CallEnd.skip (n : Nat) : CallEnd → CallEnd
  | closed size => closed (n + size)
  | mismatch => mismatch
  | openQuote => openQuote
  | openBracket => openBracket

@[simp] theorem CallEnd.skip_zero (e : CallEnd) : e.skip 0 = e := by
  cases e <;> simp [skip]

@[simp] theorem CallEnd.skip_skip (m n : Nat) (e : CallEnd) : (e.skip n).skip m = e.skip (m + n) := by
  cases e <;> simp [skip, Nat.add_assoc]

/-- Read on until no bracket is awaited any more. -/
def CallReader.read (r : CallReader) : Text → CallEnd
  | [] => if r.mode = .code then .openBracket else .openQuote
  | c :: rest =>
    match r.step c with
    | none => .mismatch
    | some next => if next.awaited = [] then .closed 1 else (next.read rest).skip 1

/-- A step that leaves a bracket open is followed by others. -/
theorem CallReader.read_step {r next : CallReader} {c : Char} (h : r.step c = some next) (ha : next.awaited ≠ [])
    (rest : Text) : r.read (c :: rest) = (next.read rest).skip 1 := by
  simp only [read, h, if_neg ha]

/-- The rest of a quoted text is passed over up to its closing quote. -/
theorem QuotedRest.read_eq {quote : Char} {body : Text} (h : QuotedRest quote body) {awaited : List Char}
    (ha : awaited ≠ []) (rest : Text) :
    CallReader.read ⟨awaited, .quoted quote⟩ (body ++ rest) =
      (CallReader.read ⟨awaited, .code⟩ rest).skip body.length := by
  induction h with
  | close hq =>
    have hstep : CallReader.step ⟨awaited, .quoted quote⟩ quote = some ⟨awaited, .code⟩ := by
      simp [CallReader.step, hq]
    rw [List.singleton_append, CallReader.read_step hstep ha]
    rfl
  | @escape c body _ ih =>
    have hslash : CallReader.step ⟨awaited, .quoted quote⟩ '\\' = some ⟨awaited, .hidden quote⟩ := rfl
    have hhidden : CallReader.step ⟨awaited, .hidden quote⟩ c = some ⟨awaited, .quoted quote⟩ := rfl
    rw [List.cons_append, List.cons_append, CallReader.read_step hslash ha, CallReader.read_step hhidden ha, ih,
      CallEnd.skip_skip, CallEnd.skip_skip]
    congr 1
    simp only [List.length_cons]
    omega
  | @plain c body hslash hquote _ ih =>
    have hstep : CallReader.step ⟨awaited, .quoted quote⟩ c = some ⟨awaited, .quoted quote⟩ := by
      simp [CallReader.step, hslash, hquote]
    rw [List.cons_append, CallReader.read_step hstep ha, ih, CallEnd.skip_skip, List.length_cons, Nat.add_comm]

section Code

variable {awaited : List Char} {c closer : Char}

/-- A quote in the code of a call opens a string. -/
theorem CallReader.step_quote (hc : isQuote c = true) :
    step ⟨awaited, .code⟩ c = some ⟨awaited, .quoted c⟩ := by
  simp [step, hc]

/-- An opening bracket makes the reader wait for its counterpart. -/
theorem CallReader.step_opener (hc : closerOf? c = some closer) :
    step ⟨awaited, .code⟩ c = some ⟨closer :: awaited, .code⟩ := by
  have hquote := (closerOf?_eq_some hc).1
  simp [step, hquote, hc]

/-- The bracket that is waited for closes the innermost one. -/
theorem CallReader.step_closer (hc : isCloser closer = true) :
    step ⟨closer :: awaited, .code⟩ closer = some ⟨awaited, .code⟩ := by
  have hmarks := isCloser_eq_true hc
  simp [step, hmarks.1, hmarks.2.2]

/-- Any other character is passed over. -/
theorem CallReader.step_character (hq : isQuote c = false) (ho : closerOf? c = none) (hc : isCloser c = false)
    (ha : ∀ closer ∈ awaited, isCloser closer = true) :
    step ⟨awaited, .code⟩ c = some ⟨awaited, .code⟩ := by
  cases awaited with
  | nil => simp [step, hq, ho, hc]
  | cons closer outer =>
    have hne : c ≠ closer := by
      rintro rfl
      rw [ha c List.mem_cons_self] at hc
      cases hc
    simp [step, hq, ho, hc, hne]

end Code

/-- An expression between brackets is passed over, and behind it the same brackets are open. The induction is on the
expression; what it has between brackets of its own is passed with one bracket more. -/
theorem Expression.read_eq {plain : Char → Bool} {v : Text} (h : Expression plain v) {awaited : List Char}
    (hne : awaited ≠ []) (ha : ∀ closer ∈ awaited, isCloser closer = true) (rest : Text) :
    CallReader.read ⟨awaited, .code⟩ (v ++ rest) = (CallReader.read ⟨awaited, .code⟩ rest).skip v.length := by
  induction h generalizing awaited rest with
  | nil => simp
  | @character plain c v hq ho hc _ _ ih =>
    have hstep := CallReader.step_character hq ho hc ha
    rw [List.cons_append, CallReader.read_step hstep hne, ih hne ha, CallEnd.skip_skip, List.length_cons, Nat.add_comm]
  | @quoted plain quote body v hq hbody _ ih =>
    have hstep : CallReader.step ⟨awaited, .code⟩ quote = some ⟨awaited, .quoted quote⟩ := CallReader.step_quote hq
    rw [List.cons_append, List.append_assoc, CallReader.read_step hstep hne, hbody.read_eq hne, ih hne ha,
      CallEnd.skip_skip, CallEnd.skip_skip]
    congr 1
    simp only [List.length_cons, List.length_append]
    omega
  | @bracketed plain opener closer inner v ho _ _ ihi ih =>
    have hcloser : isCloser closer = true := (closerOf?_eq_some ho).2.2
    have hopen : CallReader.step ⟨awaited, .code⟩ opener = some ⟨closer :: awaited, .code⟩ :=
      CallReader.step_opener ho
    have hclose : CallReader.step ⟨closer :: awaited, .code⟩ closer = some ⟨awaited, .code⟩ :=
      CallReader.step_closer hcloser
    have hdeeper : ∀ other ∈ closer :: awaited, isCloser other = true := List.forall_mem_cons.mpr ⟨hcloser, ha⟩
    rw [List.cons_append, List.append_assoc, List.cons_append, CallReader.read_step hopen (List.cons_ne_nil _ _),
      ihi (List.cons_ne_nil _ _) hdeeper, CallReader.read_step hclose hne, ih hne ha, CallEnd.skip_skip,
      CallEnd.skip_skip, CallEnd.skip_skip]
    congr 1
    simp only [List.length_cons, List.length_append]
    omega

/-- Expressions with a comma and a blank between two of them are an expression. -/
theorem Expression.joinWith_commas {parts : List Text} (h : ∀ part ∈ parts, Expression (fun _ => true) part) :
    Expression (fun _ => true) (joinWith ", ".toList parts) := by
  unfold joinWith
  induction parts with
  | nil => exact .nil
  | cons part parts ih =>
    rw [List.forall_mem_cons] at h
    cases parts with
    | nil => simpa using h.1
    | cons next parts =>
      have hcomma : Expression (fun _ => true) ", ".toList :=
        .character (by decide) (by decide) (by decide) rfl (.character (by decide) (by decide) (by decide) rfl .nil)
      rw [List.intercalate_cons_cons]
      exact (h.1.append hcomma).append (ih h.2)

/-- What is read from a stretch of a text is an expression in a call. -/
theorem attributesIn_expression {text : Text} {window : Extent} {found : List (Placed Attribute)}
    (h : attributesIn text window = .ok found) (hlo : window.start ≤ window.stop) (hhi : window.stop ≤ text.length) :
    ∀ a ∈ found, Expression (fun _ => true) a.item.argument := by
  intro a ha
  obtain ⟨written, hwritten⟩ := attributesIn_written h hlo hhi a ha
  have hargument : a.item.Written a.item.argument := hwritten.wellFormed.written fun c hc => by simpa using hc
  exact hargument.expression

/-- The attributes that are read from a window stay between the parentheses of a call. Read from behind its opening
parenthesis on, the call of any component in any scope has no bracket that does not match and no quote that stays open,
and the opening parenthesis is closed by the one that the directive ends with, whatever follows the directive. -/
theorem call_closes_at_its_end {text : Text} {window : Extent} {found : List (Placed Attribute)}
    (hlo : window.start ≤ window.stop) (hhi : window.stop ≤ text.length) (h : attributesIn text window = .ok found)
    (scopeName component : Text) :
    let arguments := joinWith ", ".toList (found.map (·.item.argument))
    Directive.call scopeName component (found.map (·.item)) =
        "\x7b% call ".toList ++ scopeName ++ "::".toList ++ macroName component ++ "(".toList ++
          (arguments ++ ")".toList ++ " %\x7d".toList) ∧
      ∀ rest, CallReader.read ⟨[')'], .code⟩ (arguments ++ ")".toList ++ " %\x7d".toList ++ rest) =
        .closed (arguments ++ ")".toList).length := by
  intro arguments
  have hexpression : Expression (fun _ => true) arguments := by
    refine .joinWith_commas fun part hpart => ?_
    obtain ⟨a, ha, rfl⟩ := List.mem_map.mp hpart
    exact attributesIn_expression h hlo hhi a ha
  have hmap : (found.map (·.item)).map (·.argument) = found.map (·.item.argument) := List.map_map
  constructor
  · delta Directive.call
    rw [hmap]
    simp only [List.append_assoc]
    rfl
  · intro rest
    have hawaited : ∀ closer ∈ [')'], isCloser closer = true := List.forall_mem_singleton.mpr rfl
    rw [List.append_assoc, List.append_assoc, hexpression.read_eq (List.cons_ne_nil _ _) hawaited, List.length_append]
    rfl

/-- One value is a quoted parenthesis, one holds brackets of all kinds and a quote that a backslash hides, and one ends
where the list ends. -/
theorem call_closes_at_its_end_mixed :
    let text := "<X a=')' b = [f(\"\\\")\"), \x7bc\x7d] d e='(' />".toList
    let arguments := "a=')', b=[f(\"\\\")\"), \x7bc\x7d], d, e='('".toList
    ∃ found, attributesIn text ⟨2, 37⟩ = .ok found ∧
      Directive.call "x".toList "X".toList (found.map (·.item)) =
        "\x7b% call x::x(".toList ++ (arguments ++ ")".toList ++ " %\x7d".toList) ∧
      CallReader.read ⟨[')'], .code⟩ (arguments ++ ")".toList ++ " %\x7d".toList) = .closed 35 := by
  intro text arguments
  let found : List (Placed Attribute) :=
    [⟨.named "a".toList "')'".toList, ⟨3, 8⟩⟩, ⟨.named "b".toList "[f(\"\\\")\"), \x7bc\x7d]".toList, ⟨9, 28⟩⟩,
      ⟨.shorthand "d".toList, ⟨29, 30⟩⟩, ⟨.named "e".toList "'('".toList, ⟨31, 36⟩⟩]
  have hread : attributesIn text ⟨2, 37⟩ = .ok found := by decide +kernel
  have harguments : joinWith ", ".toList (found.map (·.item.argument)) = arguments := by decide +kernel
  have hcall := call_closes_at_its_end (by decide) (by decide) hread "x".toList "X".toList
  have hname : macroName "X".toList = "x".toList := by decide +kernel
  dsimp only at hcall
  rw [harguments, hname] at hcall
  refine ⟨found, hread, ?_, ?_⟩
  · rw [hcall.1]
    decide +kernel
  · have hclosed := hcall.2 []
    rw [List.append_nil] at hclosed
    exact hclosed

end ComponentTags
