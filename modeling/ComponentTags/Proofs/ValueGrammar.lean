import ComponentTags.Attribute
import ComponentTags.Proofs.MarkWindow

/-!
# The grammar of attribute values and their two readers

A value passes two readers that know nothing of each other: the search for the end of the opening tag, and the reader of
attribute lists. Both skip quoted texts and count brackets. Here the texts that they agree on are described by a
grammar: quotes are closed, brackets are balanced by kind, and outside of both stand only characters of a class that the
grammar is given. Each reader passes over such a text as a whole, in every window that holds it. The reader of attribute
lists takes nothing else for a value.

The search for the end of a tag passes over other texts too, since it does not mind a closing bracket that fits none.
-/

namespace ComponentTags

theorem ok_bind {α β : Type} (a : α) (f : α → Except Failure β) : Except.ok a >>= f = f a := rfl

/-- A result that is only rewritten fails as before. -/
theorem bind_return_eq_error {α β : Type} {x : Except Failure α} {g : α → β} {e : Failure}
    (h : (do let a ← x; return g a) = .error e) : x = .error e := by
  cases x with
  | error e' => exact congrArg Except.error (Except.error.inj h)
  | ok a => cases h

/-- A result that is made of another one tells what that was. -/
theorem bind_return_eq_ok {α β : Type} {x : Except Failure α} {g : α → β} {b : β}
    (h : (do let a ← x; return g a) = .ok b) : ∃ a, x = .ok a ∧ g a = b := by
  cases x with
  | error e => cases h
  | ok a => exact ⟨a, rfl, Except.ok.inj h⟩

/-- Text with closed quotes and balanced brackets, in which only characters of the class `plain` stand outside of
both. -/
inductive Expression : (Char → Bool) → Text → Prop where
  /-- Nothing at all. -/
  | nil {plain : Char → Bool} : Expression plain []
  /-- A character that is neither a quote nor a bracket. -/
  | character {plain : Char → Bool} {c : Char} {rest : Text} : isQuote c = false → closerOf? c = none →
      isCloser c = false → plain c = true → Expression plain rest → Expression plain (c :: rest)
  /-- A quoted text. -/
  | quoted {plain : Char → Bool} {quote : Char} {body rest : Text} : isQuote quote = true →
      QuotedRest quote body → Expression plain rest → Expression plain (quote :: (body ++ rest))
  /-- Two brackets of a kind around an expression in which any character may stand. -/
  | bracketed {plain : Char → Bool} {opener closer : Char} {inner rest : Text} :
      closerOf? opener = some closer → Expression (fun _ => true) inner → Expression plain rest →
        Expression plain (opener :: (inner ++ closer :: rest))

/-- More characters may be allowed. -/
theorem Expression.mono {plain wider : Char → Bool} {v : Text} (h : Expression plain v)
    (hp : ∀ c, plain c = true → wider c = true) : Expression wider v := by
  induction h with
  | nil => exact .nil
  | character hq ho hc hplain _ ih => exact .character hq ho hc (hp _ hplain) (ih hp)
  | quoted hq hb _ ih => exact .quoted hq hb (ih hp)
  | bracketed ho hi _ _ ih => exact .bracketed ho hi (ih hp)

/-- Two expressions one behind the other are an expression. -/
theorem Expression.append {plain : Char → Bool} {v w : Text} (hv : Expression plain v)
    (hw : Expression plain w) : Expression plain (v ++ w) := by
  induction hv with
  | nil => exact hw
  | character hq ho hc hplain _ ih => exact .character hq ho hc hplain (ih hw)
  | quoted hq hb _ ih =>
    rw [List.cons_append, List.append_assoc]
    exact .quoted hq hb (ih hw)
  | bracketed ho hi _ _ ih =>
    rw [List.cons_append, List.append_assoc, List.cons_append]
    exact .bracketed ho hi (ih hw)

/-- Text without quotes and brackets. -/
theorem Expression.of_forall {plain : Char → Bool} {v : Text}
    (h : ∀ c ∈ v, isQuote c = false ∧ closerOf? c = none ∧ isCloser c = false ∧ plain c = true) :
    Expression plain v := by
  induction v with
  | nil => exact .nil
  | cons c v ih =>
    rw [List.forall_mem_cons] at h
    obtain ⟨⟨hq, ho, hc, hplain⟩, hv⟩ := h
    exact .character hq ho hc hplain (ih hv)

/-- An opening bracket is no other mark, and its closer is a closing bracket. -/
theorem closerOf?_eq_some {opener closer : Char} (h : closerOf? opener = some closer) :
    isQuote opener = false ∧ isBlank opener = false ∧ isCloser closer = true := by
  have hkinds : opener = '(' ∧ closer = ')' ∨ opener = '[' ∧ closer = ']' ∨
      opener = '\x7b' ∧ closer = '\x7d' := by
    grind [closerOf?]
  obtain ⟨rfl, rfl⟩ | ⟨rfl, rfl⟩ | ⟨rfl, rfl⟩ := hkinds <;> decide

/-- A closing bracket is no other mark. -/
theorem isCloser_eq_true {c : Char} (h : isCloser c = true) :
    isQuote c = false ∧ isBlank c = false ∧ closerOf? c = none := by
  simp only [isCloser, Bool.or_eq_true, beq_iff_eq, or_assoc] at h
  rcases h with rfl | rfl | rfl <;> decide

theorem isQuote_eq_true {c : Char} (h : isQuote c = true) : isBlank c = false ∧ c ≠ '/' := by
  simp only [isQuote, Bool.or_eq_true, beq_iff_eq] at h
  rcases h with rfl | rfl <;> decide

/-- A blank is neither a quote nor a bracket, and it ends no tag. -/
theorem isBlank_eq_true {c : Char} (h : isBlank c = true) :
    isQuote c = false ∧ closerOf? c = none ∧ isCloser c = false ∧ c ≠ '>' := by
  simp only [isBlank, Bool.or_eq_true, beq_iff_eq, or_assoc] at h
  rcases h with rfl | rfl | rfl | rfl | rfl | rfl <;> decide

theorem isNameChar_of_isNameStart {c : Char} (h : isNameStart c = true) : isNameChar c = true := by
  simp only [isNameStart, isNameChar, Char.isAlphanum, Bool.or_eq_true] at h ⊢
  rcases h with h | h
  · exact .inl h
  · exact .inr (.inl h)

/-- The characters of names are no marks of any kind. -/
theorem isNameChar_eq_true {c : Char} (h : isNameChar c = true) :
    isBlank c = false ∧ isQuote c = false ∧ closerOf? c = none ∧ isCloser c = false ∧
      c ≠ '=' ∧ c ≠ '>' ∧ c ≠ '/' := by
  have hne {d : Char} (hd : isNameChar d = false) : c ≠ d := by
    rintro rfl
    simp [h] at hd
  have hbrackets := And.intro (hne (show isNameChar '(' = false by decide))
    (And.intro (hne (show isNameChar '[' = false by decide)) (hne (show isNameChar '\x7b' = false by decide)))
  refine ⟨?_, ?_, ?_, ?_, hne (by decide), hne (by decide), hne (by decide)⟩
  · refine Bool.eq_false_iff.mpr fun hb => ?_
    simp only [isBlank, Bool.or_eq_true, beq_iff_eq, or_assoc] at hb
    rcases hb with rfl | rfl | rfl | rfl | rfl | rfl <;> exact absurd h (by decide)
  · refine Bool.eq_false_iff.mpr fun hq => ?_
    simp only [isQuote, Bool.or_eq_true, beq_iff_eq] at hq
    rcases hq with rfl | rfl <;> exact absurd h (by decide)
  · simp [closerOf?, hbrackets]
  · refine Bool.eq_false_iff.mpr fun hc => ?_
    simp only [isCloser, Bool.or_eq_true, beq_iff_eq, or_assoc] at hc
    rcases hc with rfl | rfl | rfl <;> exact absurd h (by decide)

/-- A blank does not go on with a name. -/
theorem not_isNameChar_of_isBlank {c : Char} (h : isBlank c = true) : isNameChar c = false := by
  refine Bool.eq_false_iff.mpr fun hc => ?_
  simp [(isNameChar_eq_true hc).1] at h

/-- A closing bracket ends the innermost bracket that awaits it. -/
theorem tagEnd_closer {b : OpenBracket} (hb : isCloser b.closer = true) (brackets : List OpenBracket)
    (offset left : Nat) (rest : Text) :
    tagEnd (b :: brackets) offset (left + 1) (b.closer :: rest) = tagEnd brackets (offset + 1) left rest := by
  obtain ⟨hq, -, ho⟩ := isCloser_eq_true hb
  rw [tagEnd.eq_def]
  simp [hq, ho]

/-- A character that is neither a quote nor a bracket is passed over, between brackets even a `>`. -/
theorem tagEnd_character {c : Char} {brackets : List OpenBracket} (hq : isQuote c = false)
    (ho : closerOf? c = none) (hc : isCloser c = false) (hb : ∀ b ∈ brackets, isCloser b.closer = true)
    (hgt : brackets = [] → c ≠ '>') (offset left : Nat) (rest : Text) :
    tagEnd brackets offset (left + 1) (c :: rest) = tagEnd brackets (offset + 1) left rest := by
  cases brackets with
  | nil =>
    rw [tagEnd.eq_def]
    simp [hq, ho, hgt rfl]
  | cons b outer =>
    have hne : c ≠ b.closer := by
      rintro rfl
      simp [hb b (by simp)] at hc
    rw [tagEnd.eq_def]
    simp [hq, ho, hne]

/-- The search for the end of a tag passes over an expression, between brackets as well as outside of them if no `>`
stands there. The induction is on the expression; what is within brackets is passed with one bracket more on the
stack. -/
theorem Expression.tagEnd_eq {plain : Char → Bool} {v : Text} (h : Expression plain v)
    {brackets : List OpenBracket} (hb : ∀ b ∈ brackets, isCloser b.closer = true)
    (hp : brackets = [] → ∀ c, plain c = true → c ≠ '>') (offset : Nat) {left : Nat} (hl : v.length ≤ left)
    (rest : Text) :
    tagEnd brackets offset left (v ++ rest) = tagEnd brackets (offset + v.length) (left - v.length) rest := by
  induction h generalizing brackets offset left rest with
  | nil => simp
  | @character plain c v hq ho hc hplain _ ih =>
    rw [List.length_cons] at hl ⊢
    obtain ⟨left, rfl⟩ : ∃ n, left = n + 1 := ⟨left - 1, by omega⟩
    rw [List.cons_append, tagEnd_character hq ho hc hb (fun he => hp he c hplain),
      ih hb hp (offset + 1) (by omega)]
    congr 1 <;> omega
  | @quoted plain quote body v hq hbody _ ih =>
    rw [List.length_cons, List.length_append] at hl ⊢
    obtain ⟨left, rfl⟩ : ∃ n, left = n + 1 := ⟨left - 1, by omega⟩
    rw [List.cons_append, List.append_assoc, tagEnd_quoted hq hbody brackets offset (by omega),
      ih hb hp _ (by omega)]
    congr 1 <;> omega
  | @bracketed plain opener closer inner v ho _ _ ihi ih =>
    rw [List.length_cons, List.length_append, List.length_cons] at hl ⊢
    obtain ⟨left, rfl⟩ : ∃ n, left = n + 1 := ⟨left - 1, by omega⟩
    obtain ⟨hq, -, hc⟩ := closerOf?_eq_some ho
    have hall : ∀ b ∈ (⟨closer, offset⟩ :: brackets : List OpenBracket), isCloser b.closer = true :=
      List.forall_mem_cons.mpr ⟨hc, hb⟩
    obtain ⟨less, hless⟩ : ∃ n, left - inner.length = n + 1 := ⟨left - inner.length - 1, by omega⟩
    rw [List.cons_append, List.append_assoc, tagEnd_opener hq ho,
      ihi hall (by simp) (offset + 1) (by omega), hless, List.cons_append,
      tagEnd_closer (show isCloser (OpenBracket.mk closer offset).closer = true from hc),
      ih hb hp _ (by omega)]
    congr 1 <;> omega

/-- The reader of a bare value passes over a quoted text. -/
theorem bareSize_quoted {quote : Char} {body : Text} (hq : isQuote quote = true) (hb : QuotedRest quote body)
    (name : Text) (expected : List Char) (offset : Nat) {left : Nat} (hl : body.length ≤ left) (rest : Text) :
    bareSize name expected offset (left + 1) (quote :: (body ++ rest)) =
      (bareSize name expected (offset + 1 + body.length) (left - body.length) rest).map (· + body.length + 1) := by
  have hblank := (isQuote_eq_true hq).1
  rw [bareSize.eq_def]
  simp only [hblank, Bool.false_and, Bool.false_eq_true, if_false, hq, if_true, hb.quoteEnd_eq rest hl,
    List.drop_left]
  rfl

/-- An opening bracket is passed over, and from then on its closer is awaited. -/
theorem bareSize_opener {opener closer : Char} (ho : closerOf? opener = some closer) (name : Text)
    (expected : List Char) (offset left : Nat) (rest : Text) :
    bareSize name expected offset (left + 1) (opener :: rest) =
      (bareSize name (closer :: expected) (offset + 1) left rest).map (· + 1) := by
  obtain ⟨hq, hblank, -⟩ := closerOf?_eq_some ho
  rw [bareSize.eq_def]
  simp only [hblank, Bool.false_and, Bool.false_eq_true, if_false, hq, ho]
  rfl

/-- The awaited closing bracket is passed over. -/
theorem bareSize_closer {closer : Char} (hc : isCloser closer = true) (name : Text) (expected : List Char)
    (offset left : Nat) (rest : Text) :
    bareSize name (closer :: expected) offset (left + 1) (closer :: rest) =
      (bareSize name expected (offset + 1) left rest).map (· + 1) := by
  obtain ⟨hq, hblank, ho⟩ := isCloser_eq_true hc
  rw [bareSize.eq_def]
  simp only [hblank, Bool.false_and, Bool.false_eq_true, if_false, hq, ho, hc, if_true, beq_self_eq_true]
  rfl

/-- Any other character is passed over, between brackets even a blank. -/
theorem bareSize_character {c : Char} {expected : List Char} (hq : isQuote c = false)
    (ho : closerOf? c = none) (hc : isCloser c = false) (hblank : expected = [] → isBlank c = false)
    (name : Text) (offset left : Nat) (rest : Text) :
    bareSize name expected offset (left + 1) (c :: rest) =
      (bareSize name expected (offset + 1) left rest).map (· + 1) := by
  have hend : (isBlank c && expected.isEmpty) = false := by
    cases expected with
    | nil => simp [hblank rfl]
    | cons closer outer => simp
  rw [bareSize.eq_def]
  simp only [hend, Bool.false_eq_true, if_false, hq, ho, hc]
  rfl

/-- The reader of a bare value passes over an expression, between brackets as well as outside of them if no blank stands
there. -/
theorem Expression.bareSize_eq {plain : Char → Bool} {v : Text} (h : Expression plain v) (name : Text)
    {expected : List Char} (hp : expected = [] → ∀ c, plain c = true → isBlank c = false) (offset : Nat)
    {left : Nat} (hl : v.length ≤ left) (rest : Text) :
    bareSize name expected offset left (v ++ rest) =
      (bareSize name expected (offset + v.length) (left - v.length) rest).map (· + v.length) := by
  induction h generalizing expected offset left rest with
  | nil =>
    simp only [List.nil_append, List.length_nil, Nat.add_zero, Nat.sub_zero]
    cases bareSize name expected offset left rest <;> rfl
  | @character plain c v hq ho hc hplain _ ih =>
    rw [List.length_cons] at hl ⊢
    obtain ⟨left, rfl⟩ : ∃ n, left = n + 1 := ⟨left - 1, by omega⟩
    rw [List.cons_append, bareSize_character hq ho hc (fun he => hp he c hplain), ih hp (offset + 1) (by omega),
      show offset + 1 + v.length = offset + (v.length + 1) by omega,
      show left - v.length = left + 1 - (v.length + 1) by omega]
    cases bareSize name expected (offset + (v.length + 1)) (left + 1 - (v.length + 1)) rest <;> rfl
  | @quoted plain quote body v hq hbody _ ih =>
    rw [List.length_cons, List.length_append] at hl ⊢
    obtain ⟨left, rfl⟩ : ∃ n, left = n + 1 := ⟨left - 1, by omega⟩
    rw [List.cons_append, List.append_assoc, bareSize_quoted hq hbody name expected offset (by omega),
      ih hp _ (by omega), show offset + 1 + body.length + v.length = offset + (body.length + v.length + 1) by omega,
      show left - body.length - v.length = left + 1 - (body.length + v.length + 1) by omega]
    cases bareSize name expected _ _ rest with
    | error e => rfl
    | ok n =>
      simp only [Except.map, Except.ok.injEq]
      omega
  | @bracketed plain opener closer inner v ho _ _ ihi ih =>
    rw [List.length_cons, List.length_append, List.length_cons] at hl ⊢
    obtain ⟨left, rfl⟩ : ∃ n, left = n + 1 := ⟨left - 1, by omega⟩
    obtain ⟨less, hless⟩ : ∃ n, left - inner.length = n + 1 := ⟨left - inner.length - 1, by omega⟩
    rw [List.cons_append, List.append_assoc, bareSize_opener ho, ihi (by simp) (offset + 1) (by omega), hless,
      List.cons_append, bareSize_closer (closerOf?_eq_some ho).2.2, ih hp _ (by omega),
      show offset + 1 + inner.length + 1 + v.length = offset + (inner.length + (v.length + 1) + 1) by omega,
      show less - v.length = left + 1 - (inner.length + (v.length + 1) + 1) by omega]
    cases bareSize name expected _ _ rest with
    | error e => rfl
    | ok n =>
      simp only [Except.map, Except.ok.injEq]
      omega

/-- The last character of an expression is no blank if none stands outside of quotes and brackets. -/
theorem Expression.getLast?_not_isBlank {plain : Char → Bool} {v : Text} (h : Expression plain v)
    (hp : ∀ c, plain c = true → isBlank c = false) {last : Char} (hlast : v.getLast? = some last) :
    isBlank last = false := by
  induction h with
  | nil => simp at hlast
  | @character plain c v _ _ _ hplain _ ih =>
    cases hv : v.getLast? with
    | none =>
      obtain rfl : c = last := by simpa [List.getLast?_cons, hv] using hlast
      exact hp c hplain
    | some e => exact ih hp (by simpa [List.getLast?_cons, hv] using hlast)
  | @quoted plain quote body v hq hbody _ ih =>
    rw [List.getLast?_cons, List.getLast?_append, hbody.getLast?_eq] at hlast
    cases hv : v.getLast? with
    | none =>
      obtain rfl : quote = last := by simpa [hv] using hlast
      exact (isQuote_eq_true hq).1
    | some e => exact ih hp (by simpa [hv] using hlast)
  | @bracketed plain opener closer inner v ho _ _ _ ih =>
    rw [List.getLast?_cons, List.getLast?_append, List.getLast?_cons] at hlast
    cases hv : v.getLast? with
    | none =>
      obtain rfl : closer = last := by simpa [hv] using hlast
      exact (isCloser_eq_true (closerOf?_eq_some ho).2.2).2.1
    | some e => exact ih hp (by simpa [hv] using hlast)

/-- The value of an attribute: one quoted text, or an expression that does not begin with a quote. -/
inductive IsValue (plain : Char → Bool) : Text → Prop where
  /-- A quoted text. -/
  | quoted {quote : Char} {body : Text} : isQuote quote = true → QuotedRest quote body →
      IsValue plain (quote :: body)
  /-- A bare value. -/
  | bare {first : Char} {rest : Text} : isQuote first = false → Expression plain (first :: rest) →
      IsValue plain (first :: rest)

/-- Every value is an expression. -/
theorem IsValue.expression {plain : Char → Bool} {v : Text} (h : IsValue plain v) : Expression plain v := by
  cases h with
  | quoted hq hb => simpa using Expression.quoted hq hb .nil
  | bare _ h => exact h

/-- What is left of a window behind a value: nothing, or something that begins with a blank. -/
def ValueEnds (left : Nat) (rest : Text) : Prop :=
  left = 0 ∨ ∃ c behind, rest = c :: behind ∧ isBlank c = true

/-- A value without quotes ends where it has to. -/
theorem ValueEnds.bareSize_eq {left : Nat} {rest : Text} (h : ValueEnds left rest) (name : Text)
    (offset : Nat) : bareSize name [] offset left rest = .ok 0 := by
  rcases h with rfl | ⟨c, behind, rfl, hblank⟩
  · simp [bareSize]
  · cases left with
    | zero => simp [bareSize]
    | succ left => simp [bareSize, hblank]

/-- The reader of values takes a value whole. -/
theorem IsValue.valueSize_eq {plain : Char → Bool} {v : Text} (h : IsValue plain v)
    (hp : ∀ c, plain c = true → isBlank c = false) (name : Text) (start offset : Nat) {left : Nat} {rest : Text}
    (hr : ValueEnds left rest) :
    valueSize name start offset (v.length + left) (v ++ rest) = .ok v.length := by
  cases h with
  | @quoted quote body hq hb =>
    rw [List.length_cons, Nat.add_right_comm, List.cons_append, valueSize, if_pos hq, quotedSize,
      hb.quoteEnd_eq rest (by omega)]
    simp only [Nat.add_sub_cancel_left, List.drop_left]
    rcases hr with rfl | ⟨c, behind, rfl, hblank⟩
    · rfl
    · cases left with
      | zero => rfl
      | succ left => simp [hblank]
  | @bare first v hq h =>
    have hsize : bareSize name [] offset ((first :: v).length + left) (first :: v ++ rest) =
        .ok (first :: v).length := by
      rw [h.bareSize_eq name (fun _ => hp) offset (Nat.le_add_right _ left), Nat.add_sub_cancel_left,
        hr.bareSize_eq]
      simp [Except.map]
    rw [← hsize, List.length_cons, Nat.add_right_comm, List.cons_append, valueSize, if_neg (by simp [hq])]

/-- What a bare value goes on with while brackets are open: each of the awaited closers in turn, an expression before
it, and behind the last one an expression with characters of `plain` only. -/
def Unwinds (plain : Char → Bool) : List Char → Text → Prop
  | [], v => Expression plain v
  | closer :: outer, v =>
    ∃ inner rest, v = inner ++ closer :: rest ∧ Expression (fun _ => true) inner ∧ Unwinds plain outer rest

/-- An expression may stand in front; outside of all brackets its characters are limited. -/
theorem Unwinds.prepend {plain : Char → Bool} {expected : List Char} {front v : Text} (h : Unwinds plain expected v)
    (hf : Expression (fun c => plain c || !expected.isEmpty) front) : Unwinds plain expected (front ++ v) := by
  cases expected with
  | nil =>
    have hplain : Expression plain front := hf.mono (by simp)
    exact hplain.append h
  | cons closer outer =>
    obtain ⟨inner, rest, rfl, hi, hr⟩ := h
    have hany : Expression (fun _ => true) front := hf.mono (by simp)
    exact ⟨front ++ inner, rest, by simp, hany.append hi, hr⟩

/-- What the reader of bare values has read closes all open brackets, and a blank or the end of the window follows. -/
theorem unwinds_of_bareSize {name : Text} {expected : List Char} {offset left n : Nat} {text : Text}
    (h : bareSize name expected offset left text = .ok n) :
    ∃ v rest, text = v ++ rest ∧ v.length = n ∧ n ≤ left ∧ Unwinds (fun c => !isBlank c) expected v ∧
      ValueEnds (left - n) rest := by
  fun_induction bareSize name expected offset left text generalizing n with
  | case1 offset text =>
    obtain rfl : 0 = n := Except.ok.inj h
    exact ⟨[], text, rfl, rfl, Nat.le_refl 0, Expression.nil, .inl rfl⟩
  | case2 => cases h
  | case3 => cases h
  | case4 expected offset left c rest hend =>
    obtain rfl : 0 = n := Except.ok.inj h
    rw [Bool.and_eq_true, List.isEmpty_iff] at hend
    obtain ⟨hblank, rfl⟩ := hend
    exact ⟨[], c :: rest, rfl, rfl, Nat.zero_le _, Expression.nil, .inr ⟨c, rest, rfl, hblank⟩⟩
  | case5 expected offset left c rest hend hq size he ih =>
    obtain ⟨body, behind, rfl, hb, rfl, hsize⟩ := quotedRest_of_quoteEnd he
    obtain ⟨more, hmore, rfl⟩ := bind_return_eq_ok h
    rw [List.drop_left] at ih hmore
    obtain ⟨v, rest, rfl, rfl, hl, hv, hr⟩ := ih hmore
    have hfront : Expression (fun d => !isBlank d || !expected.isEmpty) (c :: body) := by
      simpa using Expression.quoted hq hb .nil
    refine ⟨c :: body ++ v, rest, by simp, by simp; omega, by omega, hv.prepend hfront, ?_⟩
    rwa [show left + 1 - (v.length + body.length + 1) = left - body.length - v.length by omega]
  | case6 => cases h
  | case7 => cases h
  | case8 expected offset left c rest hend hq closer ho ih =>
    obtain ⟨more, hmore, rfl⟩ := bind_return_eq_ok h
    obtain ⟨v, rest, rfl, rfl, hl, ⟨inner, after, rfl, hi, hv⟩, hr⟩ := ih hmore
    have hfront : Expression (fun d => !isBlank d || !expected.isEmpty) (c :: (inner ++ [closer])) :=
      .bracketed ho hi .nil
    refine ⟨c :: (inner ++ closer :: after), rest, by simp, by simp, by omega, ?_, ?_⟩
    · simpa using hv.prepend hfront
    · simpa using hr
  | case9 => cases h
  | case10 offset left c rest hq ho hc closer outer hcloser hend ih =>
    obtain ⟨more, hmore, rfl⟩ := bind_return_eq_ok h
    obtain ⟨v, rest, rfl, rfl, hl, hv, hr⟩ := ih hmore
    obtain rfl : c = closer := by simpa using hcloser
    refine ⟨c :: v, rest, rfl, rfl, by omega, ⟨[], v, rfl, .nil, hv⟩, by simpa using hr⟩
  | case11 => cases h
  | case12 expected offset left c rest hend hq ho hc ih =>
    obtain ⟨more, hmore, rfl⟩ := bind_return_eq_ok h
    obtain ⟨v, rest, rfl, rfl, hl, hv, hr⟩ := ih hmore
    have hfront : Expression (fun d => !isBlank d || !expected.isEmpty) [c] := by
      refine .character (by simpa using hq) ho (by simpa using hc) ?_ .nil
      cases hblank : isBlank c <;> simp_all
    refine ⟨c :: v, rest, rfl, rfl, by omega, hv.prepend hfront, by simpa using hr⟩

/-- A stretch that lies in the window is the front of the window. -/
theorem eq_append_of_append_eq {v rest w behind : Text} (h : v ++ rest = w ++ behind) (hl : v.length ≤ w.length) :
    ∃ following, w = v ++ following ∧ rest = following ++ behind := by
  obtain ⟨following, hw⟩ : v <+: w := List.prefix_of_prefix_length_le ⟨rest, h⟩ ⟨behind, rfl⟩ hl
  refine ⟨following, hw.symm, ?_⟩
  rw [← hw, List.append_assoc] at h
  exact List.append_cancel_left h

/-- Behind a value the window ends or goes on with a blank. -/
theorem valueEnds_window_iff {rest behind : Text} :
    ValueEnds rest.length (rest ++ behind) ↔ ∀ c ∈ rest.head?, isBlank c = true := by
  cases rest with
  | nil => simp [ValueEnds]
  | cons c rest =>
    constructor
    · rintro (h | ⟨d, following, he, hblank⟩)
      · simp at h
      · obtain ⟨rfl, -⟩ : c = d ∧ rest ++ behind = following := by simpa using he
        simpa using hblank
    · intro h
      exact .inr ⟨c, rest ++ behind, rfl, h c (by simp)⟩

/-- What the reader of quoted values has read is a quoted text, and a blank or the end of the window follows it. -/
theorem quotedRest_of_quotedSize {name : Text} {quote : Char} {offset n : Nat} {w behind : Text}
    (h : quotedSize name quote offset w.length (w ++ behind) = .ok n) :
    ∃ body rest, w = body ++ rest ∧ body.length + 1 = n ∧ QuotedRest quote body ∧
      ValueEnds rest.length (rest ++ behind) := by
  unfold quotedSize at h
  split at h
  · next size he =>
    obtain ⟨body, following, ht, hb, rfl, hl⟩ := quotedRest_of_quoteEnd he
    obtain ⟨rest, rfl, rfl⟩ := eq_append_of_append_eq ht.symm hl
    have hleft : (body ++ rest).length - body.length = rest.length := by simp
    have hdrop : (body ++ rest ++ behind).drop body.length = rest ++ behind := by simp
    rw [hleft, hdrop] at h
    cases rest with
    | nil => exact ⟨body, [], rfl, Except.ok.inj h, hb, .inl rfl⟩
    | cons c rest =>
      dsimp only [List.length_cons, List.cons_append] at h
      split at h
      · next hblank => exact ⟨body, c :: rest, rfl, Except.ok.inj h, hb, .inr ⟨c, rest ++ behind, rfl, hblank⟩⟩
      · cases h
  · cases h
  · cases h

/-- What the reader of values has read is a value, if no blank stands in front, and a blank or the end of the window
follows it. A value is not empty, since its first character would have to end it. -/
theorem isValue_of_valueSize {name : Text} {start offset n : Nat} {w behind : Text}
    (hw : ∀ c ∈ w.head?, isBlank c = false) (h : valueSize name start offset w.length (w ++ behind) = .ok n) :
    ∃ v rest, w = v ++ rest ∧ v.length = n ∧ IsValue (fun c => !isBlank c) v ∧ ∀ c ∈ rest.head?, isBlank c = true := by
  cases w with
  | nil => cases h
  | cons c w =>
    have hc : isBlank c = false := hw c (by simp)
    rw [List.length_cons, List.cons_append, valueSize] at h
    split at h
    · next hq =>
      obtain ⟨body, rest, rfl, rfl, hb, hr⟩ := quotedRest_of_quotedSize h
      exact ⟨c :: body, rest, rfl, rfl, .quoted hq hb, valueEnds_window_iff.mp hr⟩
    · next hq =>
      obtain ⟨v, following, ht, rfl, hl, hv, hr⟩ := unwinds_of_bareSize h
      obtain ⟨rest, hrest, rfl⟩ := eq_append_of_append_eq (w := c :: w) ht.symm hl
      have hends : ∀ c ∈ rest.head?, isBlank c = true := by
        have hlength : w.length + 1 - v.length = rest.length := by
          have hlen := congrArg List.length hrest
          simp only [List.length_cons, List.length_append] at hlen
          omega
        rw [hlength] at hr
        exact valueEnds_window_iff.mp hr
      refine ⟨v, rest, hrest, rfl, ?_, hends⟩
      cases v with
      | nil =>
        obtain rfl : c :: w = rest := hrest
        simp [hc] at hends
      | cons first v =>
        obtain ⟨rfl, -⟩ : c = first ∧ w = v ++ rest := by simpa using hrest
        exact .bare (by simpa using hq) hv

end ComponentTags
