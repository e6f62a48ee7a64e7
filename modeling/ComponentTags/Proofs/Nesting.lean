import ComponentTags.Proofs.Lexeme
import ComponentTags.Outline

/-!
# Nesting: the cut into segments and one pass with a stack

The cut of a window looks for the closing tag of one component at a time, with a new stack for each. Here it is
compared with a single pass over the lexemes, which keeps one stack of open components from the first lexeme to the
last. Both accept the same windows, those whose tags are well nested, and both meet the same failure first.

The content of a component that the cut has found is well nested and free of faults, also where the cut fails
later on.
-/

namespace ComponentTags

/-- The components that are open behind a lexeme, the innermost first, given those that are open before it. A closing
tag must name the innermost one. -/
def nestStep (stack : List Opened) : Lexeme → Except Failure (List Opened)
  | .character _ => .ok stack
  | .opening name _ extent selfClosing =>
    .ok (if selfClosing then stack else ⟨name, extent.start⟩ :: stack)
  | .closing name extent =>
    match stack with
    | [] => .error (.because (.closesNothing name) extent.start extent.stop)
    | innermost :: outer =>
      if name = innermost.name then .ok outer
      else .error (.because (.closesOther name innermost.name) extent.start extent.stop)

/-- The components that are open behind lexemes, or what is first wrong with their nesting. -/
def nestAll (stack : List Opened) : List Lexeme → Except Failure (List Opened)
  | [] => .ok stack
  | l :: ls =>
    match nestStep stack l with
    | .error e => .error e
    | .ok stack => nestAll stack ls

/-- The first failure of one pass over a whole window that begins with the components of `stack` open: a closing tag
that does not fit, then the fault that ended the lexemes, then the innermost component that is still open. -/
def Lexing.firstFailure (l : Lexing) (stack : List Opened) : Option Failure :=
  match nestAll stack l.lexemes with
  | .error e => some e
  | .ok stack =>
    match l.failure with
    | some e => some e
    | none => stack.head?.map Opened.neverClosed

/-- Lexemes whose opening and closing tags pair up by name, one pair within or behind another. -/
inductive WellNested : List Lexeme → Prop where
  /-- Nothing at all. -/
  | nil : WellNested []
  /-- Text. -/
  | character (c : Char) {rest : List Lexeme} : WellNested rest → WellNested (.character c :: rest)
  /-- A component without content. -/
  | selfClosing (name : Text) (attributes extent : Extent) {rest : List Lexeme} :
      WellNested rest → WellNested (.opening name attributes extent true :: rest)
  /-- A component with its content. -/
  | pair (name : Text) (attributes extent closing : Extent) {inner rest : List Lexeme} :
      WellNested inner → WellNested rest →
        WellNested (.opening name attributes extent false :: (inner ++ .closing name closing :: rest))

/-- Lexemes are nested in two parts, the second one with the tags that the first one leaves open. -/
theorem nestAll_append (stack : List Opened) (front back : List Lexeme) :
    nestAll stack (front ++ back) =
      match nestAll stack front with
      | .error e => .error e
      | .ok stack => nestAll stack back := by
  induction front generalizing stack with
  | nil => rfl
  | cons l front ih =>
    simp only [List.cons_append, nestAll]
    split
    · rfl
    · rw [ih]

/-- Well nested lexemes leave the open components as they were. -/
theorem WellNested.nestAll_eq {ls : List Lexeme} (h : WellNested ls) (stack : List Opened) :
    nestAll stack ls = .ok stack := by
  induction h generalizing stack with
  | nil => rfl
  | character c _ ih => simp [nestAll, nestStep, ih]
  | selfClosing name attributes extent _ ih => simp [nestAll, nestStep, ih]
  | pair name attributes extent closing _ _ ihi ihr =>
    simp [nestAll, nestStep, nestAll_append, ihi, ihr]

/-- Well nested lexemes one behind the other are well nested. -/
theorem WellNested.append {front back : List Lexeme} (hf : WellNested front) (hb : WellNested back) :
    WellNested (front ++ back) := by
  induction hf with
  | nil => exact hb
  | character c _ ih => exact .character c ih
  | selfClosing name attributes extent _ ih => exact .selfClosing name attributes extent ih
  | @pair name attributes extent closing inner rest hi _ _ ih =>
    have hp := WellNested.pair name attributes extent closing hi ih
    simpa using hp

/-- Lexemes that close the components of a stack one after another, the innermost first, and are well nested
between these closing tags. -/
def Closes : List Opened → List Lexeme → Prop
  | [], ls => WellNested ls
  | o :: outer, ls =>
    ∃ inner extent rest, ls = inner ++ .closing o.name extent :: rest ∧ WellNested inner ∧ Closes outer rest

/-- Well nested lexemes may stand in front of the first closing tag. -/
theorem Closes.prepend {stack : List Opened} {front ls : List Lexeme} (h : Closes stack ls)
    (hf : WellNested front) : Closes stack (front ++ ls) := by
  cases stack with
  | nil => exact hf.append h
  | cons o outer =>
    obtain ⟨inner, extent, rest, rfl, hi, hr⟩ := h
    exact ⟨front ++ inner, extent, rest, by simp, hf.append hi, hr⟩

/-- A pass that ends with nothing open has closed what was open at its start. -/
theorem closes_of_nestAll {stack : List Opened} {ls : List Lexeme} (h : nestAll stack ls = .ok []) :
    Closes stack ls := by
  induction ls generalizing stack with
  | nil =>
    obtain rfl : stack = [] := by simpa [nestAll] using h
    exact .nil
  | cons l ls ih =>
    rw [nestAll] at h
    split at h
    · simp at h
    · next next hs =>
      have hi := ih h
      cases l with
      | character c =>
        obtain rfl : stack = next := by simpa [nestStep] using hs
        exact hi.prepend (.character c .nil)
      | opening name attributes extent selfClosing =>
        cases selfClosing with
        | true =>
          obtain rfl : stack = next := by simpa [nestStep] using hs
          exact hi.prepend (.selfClosing name attributes extent .nil)
        | false =>
          obtain rfl : ⟨name, extent.start⟩ :: stack = next := by simpa [nestStep] using hs
          obtain ⟨inner, closing, rest, rfl, hn, hr⟩ := hi
          have hp := hr.prepend (.pair name attributes extent closing hn .nil)
          simpa using hp
      | closing name extent =>
        cases stack with
        | nil => simp [nestStep] at hs
        | cons o outer =>
          simp only [nestStep] at hs
          split at hs
          · next hname =>
            obtain rfl : outer = next := by simpa using hs
            exact ⟨[], extent, ls, by simp [hname], .nil, hi⟩
          · simp at hs

/-- The pass with a stack accepts exactly the well nested lexemes. -/
theorem nestAll_eq_nil_iff {ls : List Lexeme} : nestAll [] ls = .ok [] ↔ WellNested ls :=
  ⟨closes_of_nestAll, fun h => h.nestAll_eq []⟩

/-- A pass over more lexemes in front starts with what these leave open. -/
theorem Lexing.firstFailure_prepend {stack after : List Opened} {front : List Lexeme}
    (h : nestAll stack front = .ok after) (l : Lexing) :
    (l.prepend front).firstFailure stack = l.firstFailure after := by
  unfold firstFailure
  rw [lexemes_prepend, nestAll_append, h]
  rfl

/-- A failure in front is met first. -/
theorem Lexing.firstFailure_prepend_error {stack : List Opened} {front : List Lexeme} {e : Failure}
    (h : nestAll stack front = .error e) (l : Lexing) : (l.prepend front).firstFailure stack = some e := by
  unfold firstFailure
  rw [lexemes_prepend, nestAll_append, h]

/-- A window is accepted by the pass with a stack if its lexemes have no fault and are well nested. -/
theorem Lexing.firstFailure_eq_none_iff (l : Lexing) :
    l.firstFailure [] = none ↔ l.failure = none ∧ WellNested l.lexemes := by
  rw [← nestAll_eq_nil_iff]
  unfold firstFailure
  cases hn : nestAll [] l.lexemes with
  | error e => simp
  | ok stack =>
    cases hf : l.failure with
    | some e => simp
    | none => cases stack <;> simp

/-- The lexemes that follow in the window behind `stop`. -/
def lexBehind (offset left : Nat) (text : Text) (stop : Nat) : Lexing :=
  lexFrom stop (left - (stop - offset)) (text.drop (stop - offset))

/-- What follows behind a later place is the same from the end of a mark on. -/
theorem lexBehind_step (c : Char) {offset left size stop : Nat} {rest : Text} (hs : 0 < size)
    (hstop : offset + size ≤ stop) :
    lexBehind (offset + size) (left - (size - 1)) (rest.drop (size - 1)) stop =
      lexBehind offset (left + 1) (c :: rest) stop := by
  obtain ⟨k, rfl⟩ : ∃ k, stop = offset + size + k := ⟨stop - (offset + size), by omega⟩
  obtain ⟨n, rfl⟩ : ∃ n, size = n + 1 := ⟨size - 1, by omega⟩
  have hl : offset + (n + 1) + k - offset = n + k + 1 := by omega
  have hk : offset + (n + 1) + k - (offset + (n + 1)) = k := by omega
  unfold lexBehind
  rw [hl, hk, List.drop_succ_cons, Nat.add_sub_cancel, List.drop_drop]
  congr 1
  omega

/-- A mark lies in its window, which has `left` places behind the `<`. -/
theorem Mark.size_le {left : Nat} {text : Text} {m : Mark} (h : markAt? left text = .ok (some m)) :
    m.size ≤ left + 1 := by
  obtain ⟨body, rest, -, -, hl, -⟩ := markAt?_eq_some h
  exact hl

/-- The marks of a window are not empty. -/
theorem Mark.size_pos {left : Nat} {text : Text} {m : Mark} (h : markAt? left text = .ok (some m)) :
    0 < m.size := by
  obtain ⟨body, rest, -, hs, -⟩ := markAt?_eq_some h
  omega

/-- A closing mark of the innermost open component closes that one. -/
theorem nestAll_closing {m : ClosingMark} {innermost : Opened} (h : m.name = innermost.name) (offset : Nat)
    (outer : List Opened) : nestAll (innermost :: outer) [.ofMark offset (.closing m)] = .ok outer := by
  simp [nestAll, nestStep, Lexeme.ofMark, h]

/-- A self-closing mark opens nothing. -/
theorem nestAll_selfClosing {m : OpeningMark} (h : m.selfClosing = true) (offset : Nat)
    (stack : List Opened) : nestAll stack [.ofMark offset (.opening m)] = .ok stack := by
  simp [nestAll, nestStep, Lexeme.ofMark, h]

/-- Any other opening mark opens its component. -/
theorem nestAll_opening {m : OpeningMark} (h : m.selfClosing = false) (offset : Nat)
    (stack : List Opened) :
    nestAll stack [.ofMark offset (.opening m)] = .ok (⟨m.name, offset⟩ :: stack) := by
  simp [nestAll, nestStep, Lexeme.ofMark, h]

/-- A search for a closing tag that fails meets the failure that the pass with a stack meets first. -/
theorem findClosing_error {innermost : Opened} {outer : List Opened} {offset left : Nat} {text : Text}
    {e : Failure} (h : findClosing innermost outer offset left text = .error e) :
    (lexFrom offset left text).firstFailure (innermost :: outer) = some e := by
  fun_induction findClosing innermost outer offset left text with
  | case1 innermost outer offset text =>
    obtain rfl : innermost.neverClosed = e := by simpa using h
    simp [lexFrom, Lexing.firstFailure, nestAll]
  | case2 innermost outer offset left =>
    obtain rfl : innermost.neverClosed = e := by simpa using h
    simp [lexFrom, Lexing.firstFailure, nestAll]
  | case3 innermost outer offset left c rest hc failure hm =>
    obtain rfl : failure.shift offset = e := by simpa using h
    rw [lexFrom]
    simp [hc, hm, Lexing.firstFailure, nestAll]
  | case4 innermost outer offset left c rest hc hm ih =>
    obtain rfl : c = '<' := by simpa using hc
    rw [lexFrom_plain hm, Lexing.firstFailure_prepend rfl]
    exact ih h
  | case5 => simp at h
  | case6 innermost offset left c rest hc m hm hname o outer ih =>
    obtain rfl : c = '<' := by simpa using hc
    have hname : m.name = innermost.name := by simpa using hname
    rw [lexFrom_mark hm, Lexing.firstFailure_prepend (nestAll_closing hname offset _)]
    exact ih h
  | case7 innermost outer offset left c rest hc m hm hname =>
    obtain rfl : c = '<' := by simpa using hc
    have hname : ¬m.name = innermost.name := by simpa using hname
    obtain rfl : Failure.because (.closesOther m.name innermost.name) offset (offset + m.size) = e := by
      simpa using h
    rw [lexFrom_mark hm, Lexing.firstFailure_prepend_error]
    simp [nestAll, nestStep, Lexeme.ofMark, hname]
  | case8 innermost outer offset left c rest hc m hm hself ih =>
    obtain rfl : c = '<' := by simpa using hc
    rw [lexFrom_mark hm, Lexing.firstFailure_prepend (nestAll_selfClosing hself offset _)]
    exact ih h
  | case9 innermost outer offset left c rest hc m hm hself ih =>
    obtain rfl : c = '<' := by simpa using hc
    rw [lexFrom_mark hm, Lexing.firstFailure_prepend (nestAll_opening (by simpa using hself) offset _)]
    exact ih h
  | case10 innermost outer offset left c rest hc ih =>
    rw [lexFrom_text (by simpa using hc), Lexing.firstFailure_prepend rfl]
    exact ih h

/-- The closing tag at `e` names `name`, and the lexemes before it close what is on the stack and nothing else. -/
def ClosedAt (stack : List Opened) (name : Text) (offset left : Nat) (text : Text) (e : Extent) : Prop :=
  ∃ inner, lexFrom offset left text =
      (lexBehind offset left text e.stop).prepend (inner ++ [.closing name e]) ∧
    nestAll stack inner = .ok [] ∧ offset ≤ e.start ∧ e.start < e.stop

/-- One lexeme more in front. -/
theorem ClosedAt.step {stack after : List Opened} {name : Text} {offset left size : Nat} {c : Char}
    {rest : Text} {e : Extent} {x : Lexeme}
    (h : ClosedAt after name (offset + size) (left - (size - 1)) (rest.drop (size - 1)) e)
    (hs : 0 < size)
    (hl : lexFrom offset (left + 1) (c :: rest) =
      (lexFrom (offset + size) (left - (size - 1)) (rest.drop (size - 1))).prepend [x])
    (hx : nestAll stack [x] = .ok after) : ClosedAt stack name offset (left + 1) (c :: rest) e := by
  obtain ⟨inner, hi, hn, hlo, hlt⟩ := h
  refine ⟨x :: inner, ?_, ?_, by omega, hlt⟩
  · rw [hl, hi, lexBehind_step c hs (by omega)]
    simp
  · rw [← List.singleton_append, nestAll_append, hx]
    exact hn

/-- The closing tag that is found belongs to the outermost of the open components, and all others are closed before
it. -/
theorem findClosing_ok {innermost : Opened} {outer : List Opened} {offset left : Nat} {text : Text}
    {e : Extent} (h : findClosing innermost outer offset left text = .ok e) :
    ∃ name, (innermost :: outer).getLast?.map (·.name) = some name ∧
      ClosedAt (innermost :: outer).dropLast name offset left text e := by
  fun_induction findClosing innermost outer offset left text with
  | case1 => simp at h
  | case2 => simp at h
  | case3 => simp at h
  | case4 innermost outer offset left c rest hc hm ih =>
    obtain rfl : c = '<' := by simpa using hc
    obtain ⟨name, hname, hi⟩ := ih h
    exact ⟨name, hname, hi.step Nat.one_pos (lexFrom_plain hm offset) rfl⟩
  | case5 innermost offset left c rest hc m hm hname =>
    obtain rfl : c = '<' := by simpa using hc
    have hname : m.name = innermost.name := by simpa using hname
    obtain rfl : ⟨offset, offset + m.size⟩ = e := by simpa using h
    have hp : 0 < m.size := Mark.size_pos hm
    refine ⟨m.name, by simp [hname], [], ?_, rfl, Nat.le_refl _, by dsimp only; omega⟩
    rw [lexFrom_mark hm, ← lexBehind_step '<' hp (Nat.le_refl _)]
    simp [lexBehind, Lexeme.ofMark, Mark.size]
  | case6 innermost offset left c rest hc m hm hname o outer ih =>
    obtain rfl : c = '<' := by simpa using hc
    obtain ⟨name, hlast, hi⟩ := ih h
    refine ⟨name, by simpa using hlast, ?_⟩
    exact hi.step (Mark.size_pos hm) (lexFrom_mark hm offset)
      (nestAll_closing (by simpa using hname) offset (o :: outer).dropLast)
  | case7 => simp at h
  | case8 innermost outer offset left c rest hc m hm hself ih =>
    obtain rfl : c = '<' := by simpa using hc
    obtain ⟨name, hname, hi⟩ := ih h
    exact ⟨name, hname, hi.step (Mark.size_pos hm) (lexFrom_mark hm offset)
      (nestAll_selfClosing hself offset _)⟩
  | case9 innermost outer offset left c rest hc m hm hself ih =>
    obtain rfl : c = '<' := by simpa using hc
    obtain ⟨name, hname, hi⟩ := ih h
    exact ⟨name, by simpa using hname, hi.step (Mark.size_pos hm) (lexFrom_mark hm offset)
      (nestAll_opening (by simpa using hself) offset (innermost :: outer).dropLast)⟩
  | case10 innermost outer offset left c rest hc ih =>
    obtain ⟨name, hname, hi⟩ := ih h
    exact ⟨name, hname, hi.step Nat.one_pos (lexFrom_text (by simpa using hc) offset left rest) rfl⟩

/-- The lexemes of a component of a text, those of its content read in a window of their own. -/
def Component.lexemes (text : Text) (c : Component) : List Lexeme :=
  match c.closing with
  | none => [.opening c.name c.attributes c.opening true]
  | some closing =>
    .opening c.name c.attributes c.opening false ::
      ((lexWindow text ⟨c.opening.stop, closing.start⟩).lexemes ++ [.closing c.name closing])

/-- The opening tag of a component is among its lexemes. -/
theorem Component.exists_opening_mem (text : Text) (c : Component) :
    ∃ selfClosing, .opening c.name c.attributes c.opening selfClosing ∈ c.lexemes text := by
  unfold Component.lexemes
  split
  · exact ⟨true, List.mem_cons_self⟩
  · exact ⟨false, List.mem_cons_self⟩

/-- The content of a component lies between its tags. -/
theorem Component.content?_of_closing {c : Component} {closing : Extent} (h : c.closing = some closing) :
    c.content? = some ⟨c.opening.stop, closing.start⟩ := by
  rw [content?, h]
  rfl

/-- The content of the component, read in a window of its own, has no fault and is well nested. -/
def Component.Settled (text : Text) (c : Component) : Prop :=
  ∀ w, c.content? = some w → (lexWindow text w).failure = none ∧ WellNested (lexWindow text w).lexemes

/-- The lexemes of a settled component are well nested. -/
theorem Component.Settled.wellNested {text : Text} {c : Component} (h : c.Settled text) :
    WellNested (c.lexemes text) := by
  unfold lexemes
  cases hc : c.closing with
  | none => exact .selfClosing _ _ _ .nil
  | some closing =>
    have hw := (h _ (content?_of_closing hc)).2
    exact .pair _ _ _ _ hw .nil

/-- The two ways in which a component is found: it is self-closing, or the search for its closing tag has come to an
end. -/
theorem closingOf?_cases {m : OpeningMark} {offset left : Nat} {rest : Text} {closing : Option Extent}
    (h : closingOf? m offset left rest = .ok closing) :
    (m.selfClosing = true ∧ closing = none) ∨
      (m.selfClosing = false ∧ ∃ e, closing = some e ∧
        findClosing ⟨m.name, offset⟩ [] (offset + m.size) (left - (m.size - 1)) (rest.drop (m.size - 1)) = .ok e) := by
  unfold closingOf? at h
  split at h
  · next hself => exact .inl ⟨hself, by simpa using h.symm⟩
  · next hself =>
    split at h
    · simp at h
    · next e he => exact .inr ⟨by simpa using hself, e, by simpa using h.symm, he⟩

/-- The lexemes of a window that begins with a component are those of the component and of what is behind it. -/
theorem closingOf?_ok {whole rest : Text} {m : OpeningMark} {offset left : Nat} {closing : Option Extent}
    (hm : markAt? left rest = .ok (some (.opening m))) (ht : whole.drop offset = '<' :: rest)
    (h : closingOf? m offset left rest = .ok closing) {c : Component}
    (hc : c = Component.ofMark m offset closing) :
    offset < c.extent.stop ∧ c.Settled whole ∧
      lexFrom offset (left + 1) ('<' :: rest) =
        (lexBehind offset (left + 1) ('<' :: rest) c.extent.stop).prepend (c.lexemes whole) := by
  subst hc
  have hp : 0 < m.size := Mark.size_pos hm
  have hl := lexFrom_mark hm offset
  rcases closingOf?_cases h with ⟨hself, rfl⟩ | ⟨hself, e, rfl, he⟩
  · refine ⟨by simp [Component.extent, Component.ofMark]; omega, ?_, ?_⟩
    · intro w hw
      simp [Component.content?, Component.ofMark] at hw
    · rw [hl]
      simp only [Component.extent, Component.ofMark, Option.getD_none]
      rw [← lexBehind_step '<' hp (Nat.le_refl _)]
      simp [lexBehind, Component.lexemes, Lexeme.ofMark, hself, Mark.size]
  · obtain ⟨name, hname, inner, hi, hn, hlo, hlt⟩ := findClosing_ok he
    obtain rfl : m.name = name := by simpa using hname
    have hs := lexFrom_shrink (by simpa using congrArg Lexing.lexemes hi)
    have hd : whole.drop (offset + m.size) = rest.drop (m.size - 1) := drop_behind ht hp
    have hw : lexWindow whole ⟨offset + m.size, e.start⟩ = ⟨inner, none⟩ := by
      unfold lexWindow
      rw [hd]
      exact hs.2.2
    refine ⟨by simp [Component.extent, Component.ofMark]; omega, ?_, ?_⟩
    · intro w hc
      obtain rfl : ⟨offset + m.size, e.start⟩ = w := by
        simpa [Component.content?, Component.ofMark] using hc
      rw [hw]
      exact ⟨rfl, nestAll_eq_nil_iff.mp hn⟩
    · rw [hl]
      simp only [Mark.size, Component.extent, Component.ofMark, Option.getD_some, Component.lexemes, hw]
      rw [hi, lexBehind_step '<' hp (by omega)]
      simp [Lexeme.ofMark, hself]

/-- A component whose closing tag is not found fails as the pass with a stack does. -/
theorem closingOf?_error {rest : Text} {m : OpeningMark} {offset left : Nat} {e : Failure}
    (hm : markAt? left rest = .ok (some (.opening m))) (h : closingOf? m offset left rest = .error e) :
    (lexFrom offset (left + 1) ('<' :: rest)).firstFailure [] = some e := by
  unfold closingOf? at h
  split at h
  · simp at h
  · next hself =>
    split at h
    · next he =>
      obtain rfl : _ = e := by simpa using h
      rw [lexFrom_mark hm, Lexing.firstFailure_prepend (nestAll_opening (by simpa using hself) offset [])]
      exact findClosing_error he
    · simp at h

/-- The cut of a window stops at the failure that the pass with a stack meets first. -/
theorem scanFrom_failure {whole text pending : Text} {textStart offset left : Nat}
    (hw : whole.drop offset = text) :
    (scanFrom textStart pending offset left text).failure =
      (lexFrom offset left text).firstFailure [] := by
  fun_induction scanFrom textStart pending offset left text with
  | case1 => simp [lexFrom, Lexing.firstFailure, nestAll]
  | case2 => simp [lexFrom, Lexing.firstFailure, nestAll]
  | case3 textStart pending offset left c rest hc e hm =>
    rw [lexFrom]
    simp [hc, hm, Lexing.firstFailure, nestAll]
  | case4 textStart pending offset left c rest hc hm ih =>
    obtain rfl : c = '<' := by simpa using hc
    rw [ih (drop_behind hw Nat.one_pos), lexFrom_plain hm, Lexing.firstFailure_prepend rfl]
  | case5 textStart pending offset left c rest hc m hm =>
    obtain rfl : c = '<' := by simpa using hc
    rw [lexFrom_mark hm, Lexing.firstFailure_prepend_error rfl]
  | case6 textStart pending offset left c rest hc m hm before e he =>
    obtain rfl : c = '<' := by simpa using hc
    exact (closingOf?_error hm he).symm
  | case7 textStart pending offset left c rest hc m hm before closing hclose component size following ih =>
    obtain rfl : c = '<' := by simpa using hc
    obtain ⟨hlt, hs, hl⟩ := closingOf?_ok hm hw hclose (rfl : component = _)
    have hstop : offset + size = component.extent.stop := by omega
    rw [hl, Lexing.firstFailure_prepend (hs.wellNested.nestAll_eq []), ← hstop,
      ← lexBehind_step '<' (by omega) (Nat.le_refl _)]
    have hi := ih (drop_behind hw (by omega))
    simpa [lexBehind] using hi
  | case8 textStart pending offset left c rest hc ih =>
    rw [ih (drop_behind hw Nat.one_pos), lexFrom_text (by simpa using hc), Lexing.firstFailure_prepend rfl]

/-- The components of a cut are settled, also if the cut fails behind them. -/
theorem scanFrom_settled {whole text pending : Text} {textStart offset left : Nat} {c : Component}
    (hw : whole.drop offset = text)
    (hc : .component c ∈ (scanFrom textStart pending offset left text).segments) : c.Settled whole := by
  fun_induction scanFrom textStart pending offset left text with
  | case1 => exact absurd hc component_notMem_pendingText
  | case2 => exact absurd hc component_notMem_pendingText
  | case3 => simp at hc
  | case4 textStart pending offset left first rest hf hm ih => exact ih (drop_behind hw Nat.one_pos) hc
  | case5 => simp at hc
  | case6 => exact absurd hc component_notMem_pendingText
  | case7 textStart pending offset left first rest hf m hm before closing hclose component size following ih =>
    obtain rfl : first = '<' := by simpa using hf
    obtain ⟨hlt, hs, -⟩ := closingOf?_ok hm hw hclose (rfl : component = _)
    simp only [List.mem_append, List.mem_cons] at hc
    rcases hc with hc | hc | hc
    · exact absurd hc component_notMem_pendingText
    · obtain rfl : c = component := by simpa using hc
      exact hs
    · exact ih (drop_behind hw (by omega)) hc
  | case8 textStart pending offset left first rest hf ih => exact ih (drop_behind hw Nat.one_pos) hc

/-- The lexemes of a segment of a text. -/
def Segment.lexemes (text : Text) : Segment → List Lexeme
  | .text value _ => value.map .character
  | .component c => c.lexemes text

/-- The lexemes of the text that is pending are its characters. -/
theorem pendingText_lexemes (whole : Text) {textStart offset stop : Nat} {pending : Text}
    (hp : offset = textStart + pending.length) (hs : offset ≤ stop) :
    (pendingText textStart stop pending).flatMap (·.lexemes whole) =
      pending.reverse.map .character := by
  unfold pendingText
  split
  · simp [Segment.lexemes]
  · obtain rfl : pending = [] := List.eq_nil_of_length_eq_zero (by omega)
    simp

/-- The segments of a cut have the first lexemes of the window, and all of them if the cut is not stopped. -/
theorem scanFrom_lexemes {whole text pending : Text} {textStart offset left : Nat}
    (hw : whole.drop offset = text) (hp : offset = textStart + pending.length) :
    ∃ back, pending.reverse.map .character ++ (lexFrom offset left text).lexemes =
        (scanFrom textStart pending offset left text).segments.flatMap (·.lexemes whole) ++ back ∧
      ((scanFrom textStart pending offset left text).failure = none → back = []) := by
  fun_induction scanFrom textStart pending offset left text with
  | case1 textStart pending offset text =>
    exact ⟨[], by simp [pendingText_lexemes whole hp (Nat.le_refl offset), lexFrom], fun _ => rfl⟩
  | case2 textStart pending offset left =>
    exact ⟨[], by simp [pendingText_lexemes whole hp (show offset ≤ offset + left + 1 by omega), lexFrom], fun _ => rfl⟩
  | case3 => exact ⟨_, (List.nil_append _).symm, by simp⟩
  | case4 textStart pending offset left c rest hc hm ih =>
    obtain rfl : c = '<' := by simpa using hc
    obtain ⟨back, hback, hnone⟩ := ih (drop_behind hw Nat.one_pos) (by simp; omega)
    refine ⟨back, ?_, hnone⟩
    rw [← hback, lexFrom_plain hm]
    simp
  | case5 => exact ⟨_, (List.nil_append _).symm, by simp⟩
  | case6 textStart pending offset left c rest hc m hm before e he =>
    have hb : before.flatMap (·.lexemes whole) = pending.reverse.map .character :=
      pendingText_lexemes whole hp (Nat.le_refl offset)
    exact ⟨_, by rw [hb], by simp⟩
  | case7 textStart pending offset left c rest hc m hm before closing hclose component size following ih =>
    obtain rfl : c = '<' := by simpa using hc
    obtain ⟨hlt, hs, hl⟩ := closingOf?_ok hm hw hclose (rfl : component = _)
    have hstop : offset + size = component.extent.stop := by omega
    obtain ⟨back, hback, hnone⟩ := ih (drop_behind hw (by omega)) (by simp)
    have hb : before.flatMap (·.lexemes whole) = pending.reverse.map .character :=
      pendingText_lexemes whole hp (Nat.le_refl offset)
    refine ⟨back, ?_, hnone⟩
    rw [hl, ← hstop, ← lexBehind_step '<' (by omega) (Nat.le_refl _), List.flatMap_append, List.flatMap_cons, hb,
      List.append_assoc, List.append_assoc, ← hback]
    simp [lexBehind, Segment.lexemes]
  | case8 textStart pending offset left c rest hc ih =>
    obtain ⟨back, hback, hnone⟩ := ih (drop_behind hw Nat.one_pos) (by simp; omega)
    refine ⟨back, ?_, hnone⟩
    rw [← hback, lexFrom_text (by simpa using hc)]
    simp

/-- The cut of a window meets the failure that reading it once meets first. -/
theorem scanWindow_failure (text : Text) (window : Extent) :
    (scanWindow text window).failure = (lexWindow text window).firstFailure [] :=
  scanFrom_failure rfl

/-- A window is cut to its end if its lexemes have no fault and are well nested. -/
theorem scanWindow_failure_eq_none_iff (text : Text) (window : Extent) :
    (scanWindow text window).failure = none ↔
      (lexWindow text window).failure = none ∧ WellNested (lexWindow text window).lexemes := by
  rw [scanWindow_failure, Lexing.firstFailure_eq_none_iff]

/-- Each component of a cut is settled, also where the cut fails behind it. -/
theorem scanWindow_settled {text : Text} {window : Extent} {c : Component}
    (hc : .component c ∈ (scanWindow text window).segments) : c.Settled text :=
  scanFrom_settled rfl hc

/-- The content of a component is cut to its end, also where the cut that found the component fails later on. -/
theorem scanWindow_content_failure {text : Text} {window content : Extent} {c : Component}
    (hc : .component c ∈ (scanWindow text window).segments) (hw : c.content? = some content) :
    (scanWindow text content).failure = none :=
  (scanWindow_failure_eq_none_iff text content).mpr (scanWindow_settled hc content hw)

/-- The lexemes of a window begin with those of its segments, and there are no others if the window is cut to its end.
-/
theorem lexWindow_eq_segments (text : Text) (window : Extent) :
    ∃ back, (lexWindow text window).lexemes =
        (scanWindow text window).segments.flatMap (·.lexemes text) ++ back ∧
      ((scanWindow text window).failure = none → back = []) :=
  scanFrom_lexemes rfl (show window.start = window.start + ([] : Text).length from rfl)

theorem scanWindow_lexemes {text : Text} {window : Extent} (h : (scanWindow text window).failure = none) :
    (scanWindow text window).segments.flatMap (·.lexemes text) = (lexWindow text window).lexemes := by
  obtain ⟨back, hback, hnone⟩ := lexWindow_eq_segments text window
  rw [hback, hnone h, List.append_nil]

/-- The lexemes of a segment are lexemes of the window, also where the cut fails later on. -/
theorem mem_lexWindow_of_segment {text : Text} {window : Extent} {s : Segment}
    (hs : s ∈ (scanWindow text window).segments) {l : Lexeme} (hl : l ∈ s.lexemes text) :
    l ∈ (lexWindow text window).lexemes := by
  obtain ⟨back, hback, -⟩ := lexWindow_eq_segments text window
  rw [hback]
  exact List.mem_append_left _ (List.mem_flatMap.mpr ⟨s, hs, hl⟩)

/-- A text is cut to its end exactly if reading it once meets no failure and its tags are well nested. -/
theorem scanText_failure_eq_none_iff (text : Text) :
    (scanText text).failure = none ↔ (lexText text).failure = none ∧ WellNested (lexText text).lexemes :=
  scanWindow_failure_eq_none_iff text _

end ComponentTags
