import ComponentTags.Proofs.AttributeReading
import ComponentTags.Proofs.Lexeme

/-!
# Loops by their turns

A loop over the places of a text takes one turn after another. A turn either goes on from a new state or stops with a
result. If every turn that goes on begins before a bound and ends at a later place, the loop stops after at most as many
turns as there are places up to the bound, and one more. This is proved once, for every loop. What the loop comes to is
read off any value that no turn changes.

The loops of the reader of attribute lists, and the search for the end of an opening tag, are given by their turns here
and compared with the functions that the library runs. A backslash between quotes hides the place behind it, so these
loops can step over the end of their window, by one place. They do so only to report that the quote is not closed.
-/

namespace ComponentTags

/-- What one turn of a loop comes to. -/
inductive Turn (σ ρ : Type) where
  /-- The loop goes on from another state. -/
  | goOn (next : σ)
  /-- The loop stops with a result. -/
  | stop (result : ρ)

/-- The value that a turn leads to: its result, or that of the state from which the loop goes on. -/
def Turn.comesTo {σ ρ : Type} (value : σ → ρ) : Turn σ ρ → ρ
  | goOn next => value next
  | stop r => r

/-- A loop that moves over the places of a text. -/
structure Loop (σ ρ : Type) where
  /-- One turn. -/
  turn : σ → Turn σ ρ
  /-- The place that a state has come to. -/
  place : σ → Nat

section Loops

variable {σ ρ : Type} {loop : Loop σ ρ} {bound : Nat} {Past : ρ → Prop}

/-- The result of a loop that may take `n` turns, and nothing if it has not stopped by then. -/
def Loop.run? (loop : Loop σ ρ) : Nat → σ → Option ρ
  | 0, _ => none
  | n + 1, s =>
    match loop.turn s with
    | .goOn next => loop.run? n next
    | .stop r => some r

/-- Every turn that goes on begins before the bound and ends at a later place. It ends past the bound only if the next
turn stops, with a result of the sort `Past`. -/
def Loop.Advances (loop : Loop σ ρ) (bound : Nat) (Past : ρ → Prop) : Prop :=
  ∀ s next, loop.turn s = .goOn next → loop.place s < bound ∧ loop.place s < loop.place next ∧
    (loop.place next ≤ bound ∨ ∃ r, loop.turn next = .stop r ∧ Past r)

/-- The loop comes to a value that no turn changes, from every state with a property that every turn keeps. -/
structure Loop.Computes (loop : Loop σ ρ) (Holds : σ → Prop) (value : σ → ρ) : Prop where
  keeps : ∀ s next, Holds s → loop.turn s = .goOn next → Holds next
  value_eq : ∀ s, Holds s → value s = (loop.turn s).comesTo value

/-- The loop advances up to the bound, and from the state `s` it comes to `r` as soon as it may take one turn more than
there are places before the bound. -/
def Loop.EndsWith (loop : Loop σ ρ) (bound : Nat) (Past : ρ → Prop) (s : σ) (r : ρ) : Prop :=
  loop.Advances bound Past ∧ ∀ n, bound - loop.place s < n → loop.run? n s = some r

/-- A loop that advances ends, with the value that its turns keep. The induction is on the number of turns, and each
turn leaves fewer places before the bound. -/
theorem Loop.Advances.endsWith (h : loop.Advances bound Past) {Holds : σ → Prop} {value : σ → ρ}
    (hvalue : loop.Computes Holds value) {s : σ} (hs : Holds s) : loop.EndsWith bound Past s (value s) := by
  refine ⟨h, fun n hn => ?_⟩
  induction n generalizing s with
  | zero => omega
  | succ n ih =>
    have hkept := hvalue.value_eq s hs
    rw [run?]
    cases hturn : loop.turn s with
    | stop r =>
      rw [hturn] at hkept
      exact congrArg some hkept.symm
    | goOn next =>
      rw [hturn] at hkept
      obtain ⟨hbefore, hforward, -⟩ := h s next hturn
      have hrest := ih (hvalue.keeps s next hs hturn) (by omega)
      rw [hkept]
      exact hrest

/-- The loop that reads the character at its place in a text, together with what follows it, until its place is `stop`
or lies behind it. -/
def readingLoop (source : Text) (stop : Nat) (place : σ → Nat) (read : σ → Char → Text → Turn σ ρ) (finish : σ → ρ)
    (outOfText : ρ) : Loop σ ρ where
  turn s :=
    if place s < stop then
      match source.drop (place s) with
      | [] => .stop outOfText
      | c :: rest => read s c rest
    else .stop (finish s)
  place := place

variable {source : Text} {stop : Nat} {place : σ → Nat} {read : σ → Char → Text → Turn σ ρ} {finish : σ → ρ}
  {outOfText : ρ}

/-- A loop that reads a character at each turn advances if each of its turns does, also where it goes past its end. -/
theorem readingLoop_advances (h : ∀ s c rest next, place s < stop → read s c rest = .goOn next →
      place s < place next ∧ (place next ≤ stop ∨ Past (finish next))) :
    (readingLoop source stop place read finish outOfText).Advances stop Past := by
  intro s next hturn
  simp only [readingLoop] at hturn ⊢
  by_cases hlt : place s < stop
  · rw [if_pos hlt] at hturn
    cases hdrop : source.drop (place s) with
    | nil => simp [hdrop] at hturn
    | cons c rest =>
      simp only [hdrop] at hturn
      obtain ⟨hforward, hend⟩ := h s c rest next hlt hturn
      refine ⟨hlt, hforward, ?_⟩
      by_cases hle : place next ≤ stop
      · exact .inl hle
      · refine .inr ⟨finish next, if_neg (by omega), ?_⟩
        exact hend.resolve_left hle
  · simp [hlt] at hturn

/-- A loop that reads a character at each turn computes a value if one turn keeps that value, and the value is the right
one where the loop stops. -/
theorem readingLoop_computes {value : σ → ρ}
    (hread : ∀ s c rest, place s < stop → source.drop (place s) = c :: rest → value s = (read s c rest).comesTo value)
    (hout : ∀ s, place s < stop → source.drop (place s) = [] → value s = outOfText)
    (hend : ∀ s, stop ≤ place s → value s = finish s) :
    (readingLoop source stop place read finish outOfText).Computes (fun _ => True) value where
  keeps := fun _ _ _ _ => trivial
  value_eq := by
    intro s _
    simp only [readingLoop]
    by_cases hlt : place s < stop
    · rw [if_pos hlt]
      cases hdrop : source.drop (place s) with
      | nil => exact hout s hlt hdrop
      | cons c rest => exact hread s c rest hlt hdrop
    · rw [if_neg hlt]
      exact hend s (Nat.le_of_not_lt hlt)

end Loops

/-- What a window has left at a place is one place more than behind it. -/
theorem left_eq_succ {place stop : Nat} (h : place < stop) : stop - place = stop - (place + 1) + 1 := by
  omega

section Readers

variable (source : Text) (stop : Nat)

/-- Read on from a place between quotes to the place behind the closing quote. -/
def quoteLoop (quote : Char) : Loop Nat QuoteEnd :=
  readingLoop source stop id
    (fun place c _ =>
      if c == '\\' then .goOn (place + 2)
      else if c == quote then .stop (.closed (place + 1))
      else .goOn (place + 1))
    (fun _ => .unclosed) .outOfText

/-- The window is left only where the quote is not closed. -/
theorem quoteLoop_advances (quote : Char) : (quoteLoop source stop quote).Advances stop (· = .unclosed) := by
  refine readingLoop_advances fun place c rest next hlt hread => ?_
  simp only [id]
  grind

@[simp] theorem QuoteEnd.skip_skip (e : QuoteEnd) (m n : Nat) : (e.skip m).skip n = e.skip (n + m) := by
  cases e with
  | closed size => exact congrArg closed (by omega)
  | unclosed => rfl
  | outOfText => rfl

/-- The loop comes to the quote that ends a value, if there is one. -/
theorem quoteLoop_computes (quote : Char) :
    (quoteLoop source stop quote).Computes (fun _ => True)
      fun place => (quoteEnd quote (stop - place) (source.drop place)).skip place := by
  refine readingLoop_computes (fun place c rest hlt hdrop => ?_) (fun place hlt hdrop => ?_) fun place hle => ?_
  · have hnext : source.drop (place + 1) = rest := drop_behind hdrop Nat.one_pos
    have hsecond : source.drop (place + 2) = rest.drop 1 := drop_behind hdrop Nat.two_pos
    simp only [id] at hlt hdrop
    simp only [hdrop, left_eq_succ hlt, quoteEnd]
    split
    · simp [Turn.comesTo, hsecond, Nat.sub_sub]
    · split
      · simp [Turn.comesTo, QuoteEnd.skip, Nat.add_comm]
      · simp [Turn.comesTo, hnext]
  · simp only [id] at hlt hdrop
    simp [hdrop, left_eq_succ hlt, quoteEnd, QuoteEnd.skip]
  · simp only [id] at hle
    simp [Nat.sub_eq_zero_of_le hle, quoteEnd, QuoteEnd.skip]

/-- The state of the search for the end of an opening tag. -/
structure TagSearch where
  /-- The place to be read next. -/
  place : Nat
  /-- The quote that is open, with its place. -/
  quote : Option (Char × Nat)
  /-- The brackets that are open, the innermost first. -/
  brackets : List OpenBracket

/-- The search meets a character. Between quotes only a backslash and the closing quote count. -/
def TagSearch.read (s : TagSearch) (c : Char) : Turn TagSearch (Except Failure (Option Nat)) :=
  match s.quote with
  | some (quote, start) =>
    if c == '\\' then .goOn ⟨s.place + 2, some (quote, start), s.brackets⟩
    else if c == quote then .goOn ⟨s.place + 1, none, s.brackets⟩
    else .goOn ⟨s.place + 1, some (quote, start), s.brackets⟩
  | none =>
    if isQuote c then .goOn ⟨s.place + 1, some (c, s.place), s.brackets⟩
    else match closerOf? c with
      | some closer => .goOn ⟨s.place + 1, none, ⟨closer, s.place⟩ :: s.brackets⟩
      | none =>
        match s.brackets with
        | [] => if c == '>' then .stop (.ok (some s.place)) else .goOn ⟨s.place + 1, none, []⟩
        | b :: outer =>
          if c == b.closer then .goOn ⟨s.place + 1, none, outer⟩
          else .goOn ⟨s.place + 1, none, b :: outer⟩

/-- The search meets the end of the window. -/
def TagSearch.finish (s : TagSearch) : Except Failure (Option Nat) :=
  match s.quote, s.brackets with
  | some (_, start), _ => .error (.because .openQuote start (start + 1))
  | none, b :: _ => .error (.because (.openBracket b.closer) b.offset (b.offset + 1))
  | none, [] => .ok none

/-- Look for the `>` of an opening tag, one character a turn. -/
def tagEndLoop : Loop TagSearch (Except Failure (Option Nat)) :=
  readingLoop source stop TagSearch.place (fun s c _ => s.read c) TagSearch.finish (.error .outOfText)

/-- A turn moves by one place, or by two between quotes that stay open. -/
theorem TagSearch.read_goOn {s next : TagSearch} {c : Char} (h : s.read c = .goOn next) :
    next.place = s.place + 1 ∨ next.place = s.place + 2 ∧ ∃ quote start, next.quote = some (quote, start) := by
  unfold read at h
  grind

/-- The window is left only where a quote is not closed. -/
theorem tagEndLoop_advances : (tagEndLoop source stop).Advances stop
    fun r => ∃ start, r = .error (.because .openQuote start (start + 1)) := by
  refine readingLoop_advances fun s c rest next hlt hread => ?_
  rcases TagSearch.read_goOn hread with hplace | ⟨hplace, quote, start, hquote⟩
  · exact ⟨by omega, .inl (by omega)⟩
  · exact ⟨by omega, .inr ⟨start, by rw [TagSearch.finish, hquote]⟩⟩

/-- What the search comes to behind a quote that was opened at `start`, once the end of the quoted text is known,
counted from `place` on. -/
def tagEndBehind (brackets : List OpenBracket) (start place : Nat) : QuoteEnd → Except Failure (Option Nat)
  | .closed size => tagEnd brackets (place + size) (stop - (place + size)) (source.drop (place + size))
  | .unclosed => .error (.because .openQuote start (start + 1))
  | .outOfText => .error .outOfText

/-- What is behind a quoted value can be reached in two steps as well as in one. -/
theorem tagEndBehind_skip (brackets : List OpenBracket) (start place n : Nat) (e : QuoteEnd) :
    tagEndBehind source stop brackets start place (e.skip n) =
      tagEndBehind source stop brackets start (place + n) e := by
  cases e with
  | closed size =>
    have hplace : place + (size + n) = place + n + size := by omega
    simp only [QuoteEnd.skip, tagEndBehind, hplace]
  | unclosed => rfl
  | outOfText => rfl

/-- What the search comes to from a state on. -/
def TagSearch.value (s : TagSearch) : Except Failure (Option Nat) :=
  match s.quote with
  | none => tagEnd s.brackets s.place (stop - s.place) (source.drop s.place)
  | some (quote, start) =>
    tagEndBehind source stop s.brackets start s.place (quoteEnd quote (stop - s.place) (source.drop s.place))

section Character

variable {source : Text} {stop place : Nat} {c : Char} {rest : Text} (hlt : place < stop)
  (hdrop : source.drop place = c :: rest) (brackets : List OpenBracket)
include hlt hdrop

/-- Within quotes, a turn keeps the place that the search comes to. -/
theorem TagSearch.value_quoted (quote : Char) (start : Nat) :
    value source stop ⟨place, some (quote, start), brackets⟩ =
      (read ⟨place, some (quote, start), brackets⟩ c).comesTo (value source stop) := by
  have hnext : source.drop (place + 1) = rest := drop_behind hdrop Nat.one_pos
  have hsecond : source.drop (place + 2) = rest.drop 1 := drop_behind hdrop Nat.two_pos
  simp only [value, read, hdrop, left_eq_succ hlt, quoteEnd]
  by_cases hescape : c == '\\'
  · simp [hescape, Turn.comesTo, value, hsecond, tagEndBehind_skip, Nat.sub_sub]
  · by_cases hclose : c == quote
    · simp [hescape, hclose, Turn.comesTo, value, tagEndBehind]
    · simp [hescape, hclose, Turn.comesTo, value, hnext, tagEndBehind_skip]

/-- Outside of quotes, a turn keeps the place that the search comes to. Each kind of character has a case of its own. -/
theorem TagSearch.value_unquoted :
    value source stop ⟨place, none, brackets⟩ =
      (read ⟨place, none, brackets⟩ c).comesTo (value source stop) := by
  have hnext : source.drop (place + 1) = rest := drop_behind hdrop Nat.one_pos
  simp only [value, read, hdrop, left_eq_succ hlt]
  rw [tagEnd.eq_def]
  dsimp only
  by_cases hquote : isQuote c
  · simp only [hquote, if_true, Turn.comesTo, value, hnext]
    cases quoteEnd c (stop - (place + 1)) rest with
    | closed size =>
      have hbehind : source.drop (place + 1 + size) = rest.drop size := by rw [← hnext, List.drop_drop]
      simp only [tagEndBehind, hbehind, Nat.sub_sub]
    | unclosed => rfl
    | outOfText => rfl
  · simp only [hquote]
    cases closerOf? c with
    | some closer => simp [Turn.comesTo, value, hnext]
    | none =>
      cases brackets with
      | nil => by_cases hgt : c == '>' <;> simp [hgt, Turn.comesTo, value, hnext]
      | cons b outer => by_cases hcloser : c == b.closer <;> simp [hcloser, Turn.comesTo, value, hnext]

end Character

/-- The loop comes to the end of the tag, as the search does that is not cut into turns. -/
theorem tagEndLoop_computes :
    (tagEndLoop source stop).Computes (fun _ => True) (TagSearch.value source stop) := by
  refine readingLoop_computes ?_ ?_ ?_
  · rintro ⟨place, quote, brackets⟩ c rest hlt hdrop
    cases quote with
    | some opened => exact TagSearch.value_quoted hlt hdrop brackets opened.1 opened.2
    | none => exact TagSearch.value_unquoted hlt hdrop brackets
  · rintro ⟨place, quote, brackets⟩ hlt hdrop
    dsimp only at hlt hdrop
    cases quote with
    | some opened => simp [TagSearch.value, hdrop, left_eq_succ hlt, quoteEnd, tagEndBehind]
    | none => simp [TagSearch.value, hdrop, left_eq_succ hlt, tagEnd]
  · rintro ⟨place, quote, brackets⟩ hle
    have hleft : stop - place = 0 := Nat.sub_eq_zero_of_le hle
    cases quote with
    | some opened => simp [TagSearch.value, TagSearch.finish, hleft, quoteEnd, tagEndBehind]
    | none => cases brackets <;> simp [TagSearch.value, TagSearch.finish, hleft, tagEnd]

/-- The state of the reader of a bare value. -/
structure BareSearch where
  /-- The place to be read next. -/
  place : Nat
  /-- The closers of the brackets that are open, the innermost first. -/
  expected : List Char

/-- A bare value of the attribute `name` goes on with a character. A quoted text is passed over in one turn. -/
def BareSearch.read (name : Text) (s : BareSearch) (c : Char) (rest : Text) : Turn BareSearch (Except Failure Nat) :=
  if isBlank c && s.expected.isEmpty then .stop (.ok s.place)
  else if isQuote c then
    match quoteEnd c (stop - (s.place + 1)) rest with
    | .closed size => .goOn ⟨s.place + 1 + size, s.expected⟩
    | .unclosed => .stop (.error (.because .openQuote s.place (s.place + 1)))
    | .outOfText => .stop (.error .outOfText)
  else match closerOf? c with
    | some closer => .goOn ⟨s.place + 1, closer :: s.expected⟩
    | none =>
      if isCloser c then
        match s.expected with
        | [] => .stop (.error (.because (.unbalanced c name) s.place (s.place + 1)))
        | closer :: outer =>
          if c == closer then .goOn ⟨s.place + 1, outer⟩
          else .stop (.error (.because (.unbalanced c name) s.place (s.place + 1)))
      else .goOn ⟨s.place + 1, s.expected⟩

/-- A bare value meets the end of the window. -/
def BareSearch.finish (name : Text) (s : BareSearch) : Except Failure Nat :=
  match s.expected with
  | [] => .ok s.place
  | closer :: _ => .error (.because (.missingCloser closer name) (s.place - 1) s.place)

/-- Look for the place where a bare value ends. -/
def bareLoop (name : Text) : Loop BareSearch (Except Failure Nat) :=
  readingLoop source stop BareSearch.place (BareSearch.read stop name) (BareSearch.finish name) (.error .outOfText)

/-- A bare value stays in its window: a quoted text that is passed over ends there. -/
theorem bareLoop_advances (name : Text) : (bareLoop source stop name).Advances stop fun _ => False := by
  refine readingLoop_advances fun s c rest next hlt hread => ?_
  have hsize {size : Nat} (h : quoteEnd c (stop - (s.place + 1)) rest = .closed size) :
      size ≤ stop - (s.place + 1) := by
    obtain ⟨body, behind, -, -, -, hle⟩ := quotedRest_of_quoteEnd h
    exact hle
  unfold BareSearch.read at hread
  grind

/-- A size to which something is added, counted from a place on. -/
theorem map_add_return (found : Except Failure Nat) (place n : Nat) :
    (do let more ← found; return more + n : Except Failure Nat).map (place + ·) = found.map (place + n + ·) := by
  cases found with
  | error e => rfl
  | ok more =>
    have hsum : place + (more + n) = place + n + more := by omega
    exact congrArg Except.ok hsum

/-- The loop comes to the end of a value without quotes. -/
theorem bareLoop_computes (name : Text) :
    (bareLoop source stop name).Computes (fun _ => True) fun s =>
      (bareSize name s.expected s.place (stop - s.place) (source.drop s.place)).map (s.place + ·) := by
  refine readingLoop_computes ?_ ?_ ?_
  · rintro ⟨place, expected⟩ c rest hlt hdrop
    have hnext : source.drop (place + 1) = rest := drop_behind hdrop Nat.one_pos
    dsimp only at hlt hdrop ⊢
    rw [hdrop, left_eq_succ hlt, bareSize.eq_def]
    dsimp only [BareSearch.read]
    by_cases hblank : isBlank c && expected.isEmpty
    · simp [hblank, Turn.comesTo, Except.map]
    by_cases hquote : isQuote c
    · simp only [hblank, hquote, if_true, Bool.false_eq_true, if_false]
      cases quoteEnd c (stop - (place + 1)) rest with
      | closed size =>
        have hbehind : source.drop (place + 1 + size) = rest.drop size := by rw [← hnext, List.drop_drop]
        have hplace : place + (size + 1) = place + 1 + size := by omega
        simp only [Turn.comesTo, hbehind, ← Nat.sub_sub, Nat.add_assoc _ size 1, map_add_return, hplace]
      | unclosed => rfl
      | outOfText => rfl
    simp only [hblank, hquote, Bool.false_eq_true, if_false]
    cases closerOf? c with
    | some closer => simp only [map_add_return, Turn.comesTo, hnext]
    | none =>
      by_cases hcloser : isCloser c
      · simp only [hcloser, if_true]
        cases expected with
        | nil => rfl
        | cons closer outer =>
          by_cases hsame : c == closer
          · simp only [hsame, if_true, map_add_return, Turn.comesTo, hnext]
          · simp only [hsame, Bool.false_eq_true, if_false]
            rfl
      · simp only [hcloser, Bool.false_eq_true, if_false, map_add_return, Turn.comesTo, hnext]
  · rintro ⟨place, expected⟩ hlt hdrop
    dsimp only at hlt hdrop
    simp [hdrop, left_eq_succ hlt, bareSize, Except.map]
  · rintro ⟨place, expected⟩ hle
    have hleft : stop - place = 0 := Nat.sub_eq_zero_of_le hle
    cases expected <;> simp [BareSearch.finish, hleft, bareSize, Except.map]

/-- The state of the reader of an attribute list. -/
structure ListSearch where
  /-- The place to be read next. -/
  place : Nat
  /-- The attributes that have been read, in their order. -/
  found : List (Placed Attribute)

/-- Read an attribute list, one attribute a turn. -/
def attributeLoop : Loop ListSearch (Except Failure (List (Placed Attribute))) where
  turn s :=
    match runLength isBlank (stop - s.place) (source.drop s.place) with
    | .error e => .stop (.error e)
    | .ok blanks =>
      let start := s.place + blanks
      match stop - s.place - blanks, (source.drop s.place).drop blanks with
      | 0, _ => .stop (.ok s.found)
      | _ + 1, [] => .stop (.error .outOfText)
      | behind + 1, initial :: rest =>
        match attributeAt initial start behind rest with
        | .error e => .stop (.error e)
        | .ok (a, more) => .goOn ⟨start + 1 + more, s.found ++ [⟨a, ⟨start, start + 1 + more⟩⟩]⟩
  place := ListSearch.place

/-- What a turn that goes on has read: blanks, and an attribute behind them that ends in the window. -/
theorem attributeLoop_goOn {s next : ListSearch} (h : (attributeLoop source stop).turn s = .goOn next) :
    ∃ blanks behind initial rest a more, stop - s.place - blanks = behind + 1 ∧
      (source.drop s.place).drop blanks = initial :: rest ∧
      attributeAt initial (s.place + blanks) behind rest = .ok (a, more) ∧
      next = ⟨s.place + blanks + 1 + more,
        s.found ++ [⟨a, ⟨s.place + blanks, s.place + blanks + 1 + more⟩⟩]⟩ := by
  unfold attributeLoop at h
  grind

/-- An attribute ends within the window. -/
theorem attributeAt_le {initial : Char} {offset left more : Nat} {text : Text} {a : Attribute}
    (h : attributeAt initial offset left text = .ok (a, more)) (hl : left ≤ text.length) : more ≤ left := by
  have hread := attributeAt_read initial offset (text.take left) (text.drop left)
  rw [List.take_append_drop, List.length_take, Nat.min_eq_left hl, h] at hread
  obtain ⟨body, rest, htake, hbody, -⟩ := hread.written
  have hlength := congrArg List.length htake
  rw [List.length_take, List.length_append] at hlength
  omega

variable {source stop} in
/-- Each turn of the loop over attributes advances, and none goes past the end of the window. -/
theorem attributeLoop_advances (hstop : stop ≤ source.length) :
    (attributeLoop source stop).Advances stop fun _ => False := by
  intro s next hturn
  obtain ⟨blanks, behind, initial, rest, a, more, hleft, hdrop, hread, rfl⟩ := attributeLoop_goOn source stop hturn
  have hlength := congrArg List.length hdrop
  rw [List.drop_drop, List.length_drop, List.length_cons] at hlength
  have hmore : more ≤ behind := attributeAt_le hread (by omega)
  dsimp only [attributeLoop]
  omega

/-- The loop finds the attributes of the window, behind those that it has found before. -/
theorem attributeLoop_computes :
    (attributeLoop source stop).Computes (fun _ => True) fun s =>
      (attributesFrom s.place (stop - s.place) (source.drop s.place)).map (s.found ++ ·) where
  keeps := fun _ _ _ _ => trivial
  value_eq := by
    rintro ⟨place, found⟩ _
    dsimp only [attributeLoop]
    rw [attributesFrom]
    cases runLength isBlank (stop - place) (source.drop place) with
    | error e => rfl
    | ok blanks =>
      rw [ok_bind]
      dsimp only
      split
      · next hleft =>
        rw [hleft]
        exact congrArg Except.ok (List.append_nil found)
      · next left hleft hdrop =>
        rw [hleft, hdrop]
        rfl
      · next behind initial rest hleft hdrop =>
        rw [hleft, hdrop]
        dsimp only
        cases attributeAt initial (place + blanks) behind rest with
        | error e => rfl
        | ok read =>
          obtain ⟨a, more⟩ := read
          have hplace : stop - (place + blanks + 1 + more) = behind - more := by omega
          have hbehind : source.drop (place + blanks + 1 + more) = rest.drop more := by
            rw [List.drop_drop] at hdrop
            rw [Nat.add_assoc, drop_behind hdrop (by omega), Nat.add_sub_cancel_left]
          rw [ok_bind]
          dsimp only [Turn.comesTo]
          rw [hplace, hbehind]
          cases attributesFrom (place + blanks + 1 + more) (behind - more) (rest.drop more) with
          | error e => rfl
          | ok others => exact congrArg Except.ok (List.append_cons ..)

end Readers

end ComponentTags
