import ComponentTags.Proofs.AttributeGrammar
import ComponentTags.Proofs.Nesting

/-!
# The two readers of an opening tag agree on quotes and brackets

The search for the end of an opening tag comes first. It skips quoted texts wherever they stand, and it passes over
closing brackets that fit no open one. The reader of attribute lists comes second, on the characters before the end of
the tag without the blanks and the slash there. It knows quotes and brackets in values only, and a bracket that does
not fit is a fault.

What the search has passed is described by a relation of its own. Along it, the reader never finds a quote or a bracket
open at the end of the list, whatever else may be wrong with the list. If it reads the list, every `>` in it stands
between the quotes or the brackets of a value.
-/

namespace ComponentTags

/-- What may stand before the `>` that ends an opening tag, while the brackets that `closers` closes are open, the
innermost first. -/
inductive Interior : List Char → Text → Prop where
  /-- The tag ends only when no bracket is open. -/
  | nil : Interior [] []
  /-- A quoted text. -/
  | quoted {closers : List Char} {quote : Char} {body rest : Text} : isQuote quote = true → QuotedRest quote body →
      Interior closers rest → Interior closers (quote :: (body ++ rest))
  /-- An opening bracket. -/
  | opener {closers : List Char} {opener closer : Char} {rest : Text} : closerOf? opener = some closer →
      Interior (closer :: closers) rest → Interior closers (opener :: rest)
  /-- The closing bracket that is awaited. -/
  | closer {closers : List Char} {closer : Char} {rest : Text} : isCloser closer = true →
      Interior closers rest → Interior (closer :: closers) (closer :: rest)
  /-- Any other character; outside of all brackets a `>` would end the tag. -/
  | passed {closers : List Char} {c : Char} {rest : Text} : isQuote c = false → closerOf? c = none →
      closers.head? ≠ some c → (closers = [] → c ≠ '>') → Interior closers rest → Interior closers (c :: rest)

/-- The search for the end of a tag has passed such characters. -/
theorem interior_of_tagEnd {brackets : List OpenBracket} {offset left gt : Nat} {text : Text}
    (hb : ∀ b ∈ brackets, isCloser b.closer = true) (h : tagEnd brackets offset left text = .ok (some gt)) :
    ∃ between rest, text = between ++ '>' :: rest ∧ gt = offset + between.length ∧
      Interior (brackets.map (·.closer)) between := by
  fun_induction tagEnd brackets offset left text with
  | case1 => simp at h
  | case2 => simp at h
  | case3 => simp at h
  | case4 brackets offset left c rest hc size hq ih =>
    obtain ⟨body, behind, rfl, hbody, rfl, -⟩ := quotedRest_of_quoteEnd hq
    rw [List.drop_left] at ih h
    obtain ⟨between, rest, rfl, rfl, hi⟩ := ih hb h
    exact ⟨c :: (body ++ between), rest, by simp, by simp; omega, .quoted hc hbody hi⟩
  | case5 => simp at h
  | case6 => simp at h
  | case7 brackets offset left c rest hc closer ho ih =>
    have hall : ∀ b ∈ (⟨closer, offset⟩ :: brackets : List OpenBracket), isCloser b.closer = true :=
      List.forall_mem_cons.mpr ⟨(closerOf?_eq_some ho).2.2, hb⟩
    obtain ⟨between, rest, rfl, rfl, hi⟩ := ih hall h
    exact ⟨c :: between, rest, rfl, by simp; omega, .opener ho hi⟩
  | case8 offset left c rest hc ho hgt =>
    obtain rfl : c = '>' := by simpa using hgt
    obtain rfl : offset = gt := by simpa using h
    exact ⟨[], rest, rfl, rfl, .nil⟩
  | case9 offset left c rest hc ho hgt ih =>
    obtain ⟨between, rest, rfl, rfl, hi⟩ := ih hb h
    refine ⟨c :: between, rest, rfl, by simp; omega, ?_⟩
    exact .passed (by simpa using hc) ho (by simp) (fun _ => by simpa using hgt) hi
  | case10 offset left c rest hc ho b outer hcloser ih =>
    obtain rfl : c = b.closer := by simpa using hcloser
    rw [List.forall_mem_cons] at hb
    obtain ⟨between, rest, rfl, rfl, hi⟩ := ih hb.2 h
    exact ⟨b.closer :: between, rest, rfl, by simp; omega, .closer hb.1 hi⟩
  | case11 offset left c rest hc ho b outer hcloser ih =>
    obtain ⟨between, rest, rfl, rfl, hi⟩ := ih hb h
    refine ⟨c :: between, rest, rfl, by simp; omega, ?_⟩
    have hne : b.closer ≠ c := by
      intro he
      simp [he] at hcloser
    exact .passed (by simpa using hc) ho (by simpa using hne) (by simp) hi

/-- A quoted text ends at one place only. -/
theorem QuotedRest.append_inj {quote : Char} {body other rest behind : Text} (h : QuotedRest quote body)
    (ho : QuotedRest quote other) (he : body ++ rest = other ++ behind) : body = other ∧ rest = behind := by
  have hbody := h.quoteEnd_eq rest (Nat.le_add_right body.length other.length)
  have hother := ho.quoteEnd_eq behind (Nat.le_add_left other.length body.length)
  rw [he, hother] at hbody
  have hlength : other.length = body.length := QuoteEnd.closed.inj hbody
  exact List.append_inj he hlength.symm

section Interior

variable {closers : List Char} {c closer : Char} {w : Text}

/-- What the first character can be. -/
theorem Interior.cons_cases (h : Interior closers (c :: w)) :
    (isQuote c = true ∧ ∃ body rest, w = body ++ rest ∧ QuotedRest c body ∧ Interior closers rest) ∨
    (∃ closer, closerOf? c = some closer ∧ Interior (closer :: closers) w) ∨
    (isCloser c = true ∧ ∃ outer, closers = c :: outer ∧ Interior outer w) ∨
    (isQuote c = false ∧ closerOf? c = none ∧ closers.head? ≠ some c ∧ (closers = [] → c ≠ '>') ∧
      Interior closers w) := by
  generalize htext : c :: w = text at h
  cases h with
  | nil => cases htext
  | quoted hq hbody hrest =>
    obtain ⟨rfl, rfl⟩ := List.cons.inj htext
    exact .inl ⟨hq, _, _, rfl, hbody, hrest⟩
  | opener ho hrest =>
    obtain ⟨rfl, rfl⟩ := List.cons.inj htext
    exact .inr (.inl ⟨_, ho, hrest⟩)
  | closer hc hrest =>
    obtain ⟨rfl, rfl⟩ := List.cons.inj htext
    exact .inr (.inr (.inl ⟨hc, _, rfl, hrest⟩))
  | passed hq ho hne hgt hrest =>
    obtain ⟨rfl, rfl⟩ := List.cons.inj htext
    exact .inr (.inr (.inr ⟨hq, ho, hne, hgt, hrest⟩))

/-- A quote is closed. -/
theorem Interior.of_quote (h : Interior closers (c :: w)) (hc : isQuote c = true) :
    ∃ body rest, w = body ++ rest ∧ QuotedRest c body ∧ Interior closers rest := by
  rcases h.cons_cases with ⟨-, hq⟩ | ⟨closer, ho, -⟩ | ⟨hcloser, -⟩ | ⟨hq, -⟩
  · exact hq
  · simp [(closerOf?_eq_some ho).1] at hc
  · simp [(isCloser_eq_true hcloser).1] at hc
  · simp [hc] at hq

/-- From an opening bracket on, its closer is awaited. -/
theorem Interior.of_opener (h : Interior closers (c :: w)) (hc : closerOf? c = some closer) :
    Interior (closer :: closers) w := by
  rcases h.cons_cases with ⟨hq, -⟩ | ⟨found, ho, hw⟩ | ⟨hcloser, -⟩ | ⟨-, ho, -⟩
  · simp [(closerOf?_eq_some hc).1] at hq
  · obtain rfl := Option.some.inj (hc.symm.trans ho)
    exact hw
  · simp [(isCloser_eq_true hcloser).2.2] at hc
  · simp [hc] at ho

/-- The awaited closing bracket closes its bracket. -/
theorem Interior.of_closer (h : Interior (c :: closers) (c :: w)) (hc : isCloser c = true) :
    Interior closers w := by
  obtain ⟨hquote, -, hopener⟩ := isCloser_eq_true hc
  rcases h.cons_cases with ⟨hq, -⟩ | ⟨found, ho, -⟩ | ⟨-, outer, hs, hw⟩ | ⟨-, -, hne, -⟩
  · simp [hquote] at hq
  · simp [hopener] at ho
  · obtain ⟨-, rfl⟩ := List.cons.inj hs
    exact hw
  · simp at hne

/-- A character that is neither a quote nor a bracket changes nothing. -/
theorem Interior.of_character (h : Interior closers (c :: w)) (hquote : isQuote c = false)
    (hopener : closerOf? c = none) (hcloser : isCloser c = false) :
    (closers = [] → c ≠ '>') ∧ Interior closers w := by
  rcases h.cons_cases with ⟨hq, -⟩ | ⟨found, ho, -⟩ | ⟨hc, -⟩ | ⟨-, -, -, hgt, hw⟩
  · simp [hquote] at hq
  · simp [hopener] at ho
  · simp [hcloser] at hc
  · exact ⟨hgt, hw⟩

end Interior

/-- An expression at the front can be taken off. Outside of all brackets it holds no `>` but between its own quotes and
brackets. -/
theorem Expression.interior_append {plain : Char → Bool} {v : Text} (h : Expression plain v) {closers : List Char}
    {rest : Text} (hi : Interior closers (v ++ rest)) :
    Interior closers rest ∧ (closers = [] → Expression (fun c => plain c && c != '>') v) := by
  induction h generalizing closers rest with
  | nil => exact ⟨hi, fun _ => .nil⟩
  | @character plain c v hq ho hc hplain _ ih =>
    obtain ⟨hgt, hrest⟩ := hi.of_character hq ho hc
    obtain ⟨hr, hv⟩ := ih hrest
    refine ⟨hr, fun hnil => .character hq ho hc ?_ (hv hnil)⟩
    simpa [hplain] using hgt hnil
  | @quoted plain quote body v hq hbody _ ih =>
    rw [List.cons_append, List.append_assoc] at hi
    obtain ⟨other, following, he, hother, hrest⟩ := hi.of_quote hq
    obtain ⟨rfl, rfl⟩ := hbody.append_inj hother he
    obtain ⟨hr, hv⟩ := ih hrest
    exact ⟨hr, fun hnil => .quoted hq hbody (hv hnil)⟩
  | @bracketed plain opener closer inner v ho hinner _ ihi ih =>
    rw [List.cons_append, List.append_assoc, List.cons_append] at hi
    have hopened := (ihi (hi.of_opener ho)).1
    obtain ⟨hr, hv⟩ := ih (hopened.of_closer (closerOf?_eq_some ho).2.2)
    exact ⟨hr, fun hnil => .bracketed ho hinner (hv hnil)⟩

/-- The characters that are cut off before the end of a tag are neither quotes nor brackets. -/
theorem not_mark_of_trimmed {c : Char} (h : isBlank c = true ∨ c = '/') :
    isQuote c = false ∧ closerOf? c = none ∧ isCloser c = false := by
  rcases h with hblank | rfl
  · obtain ⟨hq, ho, hc, -⟩ := isBlank_eq_true hblank
    exact ⟨hq, ho, hc⟩
  · decide

/-- Blanks and slashes at the end stand in no quoted text and in no bracket, so that they can be cut off: no closing
quote is among them. -/
theorem Interior.trim {closers : List Char} {w tail : Text} (h : Interior closers (w ++ tail))
    (ht : ∀ c ∈ tail, isBlank c = true ∨ c = '/') : Interior closers w := by
  generalize htext : w ++ tail = text at h
  induction h generalizing w tail with
  | nil =>
    obtain ⟨rfl, -⟩ := List.append_eq_nil_iff.mp htext
    exact .nil
  | @quoted closers quote body rest hq hbody _ ih =>
    have hmem : quote ∉ tail := fun hmem => by simp [(not_mark_of_trimmed (ht quote hmem)).1] at hq
    cases w with
    | nil => simp [show tail = quote :: (body ++ rest) from htext] at hmem
    | cons d w =>
      obtain ⟨rfl, hsame⟩ : d = quote ∧ w ++ tail = body ++ rest := by simpa using htext
      rcases Nat.lt_or_ge w.length body.length with hl | hl
      · obtain ⟨following, rfl, rfl⟩ := eq_append_of_append_eq hsame (Nat.le_of_lt hl)
        have hlast := hbody.getLast?_eq
        cases hf : following.getLast? with
        | none =>
          obtain rfl := List.getLast?_eq_none_iff.mp hf
          simp at hl
        | some last =>
          obtain rfl : last = d := by simpa [List.getLast?_append, hf] using hlast
          exact absurd (List.mem_append_left rest (List.mem_of_getLast? hf)) hmem
      · obtain ⟨following, rfl, rfl⟩ := eq_append_of_append_eq hsame.symm hl
        exact .quoted hq hbody (ih ht rfl)
  | @opener closers opener closer rest ho _ ih =>
    cases w with
    | nil =>
      obtain rfl : tail = opener :: rest := htext
      simp [(not_mark_of_trimmed (ht opener (by simp))).2.1] at ho
    | cons d w =>
      obtain ⟨rfl, rfl⟩ : d = opener ∧ w ++ tail = rest := by simpa using htext
      exact .opener ho (ih ht rfl)
  | @closer closers closer rest hc _ ih =>
    cases w with
    | nil =>
      obtain rfl : tail = closer :: rest := htext
      simp [(not_mark_of_trimmed (ht closer (by simp))).2.2] at hc
    | cons d w =>
      obtain ⟨rfl, rfl⟩ : d = closer ∧ w ++ tail = rest := by simpa using htext
      exact .closer hc (ih ht rfl)
  | @passed closers c rest hq ho hne hgt _ ih =>
    cases w with
    | nil =>
      obtain rfl : tail = c :: rest := htext
      exact ih (w := []) (List.forall_mem_cons.mp ht).2 rfl
    | cons d w =>
      obtain ⟨rfl, rfl⟩ : d = c ∧ w ++ tail = rest := by simpa using htext
      exact .passed hq ho hne hgt (ih ht rfl)

/-- The failure is that the reader of attribute lists finds a quote or a bracket open at the end. -/
def Failure.IsUnclosed (e : Failure) : Prop :=
  ∃ f, e = .fault f ∧ (f.cause = .openQuote ∨ ∃ closer name, f.cause = .missingCloser closer name)

/-- A fault is about something unclosed only if its cause is. -/
theorem Failure.not_isUnclosed_because {cause : Cause} {start stop : Nat} (hq : cause ≠ .openQuote)
    (hc : ∀ closer name, cause ≠ .missingCloser closer name) : ¬(Failure.because cause start stop).IsUnclosed := by
  rintro ⟨f, hf, hcause⟩
  obtain rfl : ⟨cause, ⟨start, stop⟩⟩ = f := Failure.fault.inj hf
  rcases hcause with h | ⟨closer, name, h⟩
  · exact hq h
  · exact hc closer name h

/-- A closing bracket other than the awaited one is at fault. -/
theorem bareSize_unbalanced {c : Char} (hc : isCloser c = true) {expected : List Char} (he : expected.head? ≠ some c)
    (name : Text) (offset left : Nat) (rest : Text) :
    bareSize name expected offset (left + 1) (c :: rest) =
      .error (.because (.unbalanced c name) offset (offset + 1)) := by
  obtain ⟨hq, hblank, ho⟩ := isCloser_eq_true hc
  cases expected with
  | nil =>
    rw [bareSize.eq_def]
    simp only [hblank, Bool.false_and, Bool.false_eq_true, if_false, hq, ho, hc, if_true]
  | cons closer outer =>
    have hne : c ≠ closer := by
      rintro rfl
      simp at he
    rw [bareSize.eq_def]
    simp [hblank, hq, ho, hc, hne]

/-- The reader of bare values keeps step with the search: it has the same brackets open, so that none is left at the
end. The induction is on what the search has passed; where the reader stops early, it has met another fault. -/
theorem Interior.bareSize_error {closers : List Char} {w : Text} (h : Interior closers w) {name behind : Text}
    {offset : Nat} {e : Failure} (he : bareSize name closers offset w.length (w ++ behind) = .error e) :
    ¬e.IsUnclosed := by
  induction h generalizing offset with
  | nil => simp [bareSize] at he
  | @quoted closers quote body rest hq hbody _ ih =>
    rw [List.length_cons, List.cons_append, List.append_assoc,
      bareSize_quoted hq hbody name closers offset (by simp)] at he
    rw [show (body ++ rest).length - body.length = rest.length by simp] at he
    exact ih (bind_return_eq_error he)
  | opener ho _ ih =>
    rw [List.length_cons, List.cons_append, bareSize_opener ho] at he
    exact ih (bind_return_eq_error he)
  | closer hc _ ih =>
    rw [List.length_cons, List.cons_append, bareSize_closer hc] at he
    exact ih (bind_return_eq_error he)
  | @passed closers c rest hq ho hne hgt _ ih =>
    rw [List.length_cons, List.cons_append] at he
    by_cases hc : isCloser c = true
    · rw [bareSize_unbalanced hc hne] at he
      obtain rfl := Except.error.inj he
      exact Failure.not_isUnclosed_because (by simp) (by simp)
    · by_cases hblank : closers = [] ∧ isBlank c = true
      · obtain ⟨rfl, hblank⟩ := hblank
        simp [bareSize, hblank] at he
      · have hplain : closers = [] → isBlank c = false := fun hnil => by simpa [hnil] using hblank
        rw [bareSize_character hq ho (by simpa using hc) hplain] at he
        exact ih (bind_return_eq_error he)

/-- Within the interior of a tag no value is refused for something unclosed. -/
theorem Interior.valueSize_error {w : Text} (h : Interior [] w) {name behind : Text} {start offset : Nat}
    {e : Failure} (he : valueSize name start offset w.length (w ++ behind) = .error e) : ¬e.IsUnclosed := by
  cases w with
  | nil =>
    obtain rfl := Except.error.inj he
    exact Failure.not_isUnclosed_because (by simp) (by simp)
  | cons c w =>
    rw [List.length_cons, List.cons_append, valueSize] at he
    split at he
    · next hq =>
      obtain ⟨body, rest, rfl, hbody, -⟩ := h.of_quote hq
      rw [List.append_assoc, quotedSize, hbody.quoteEnd_eq (rest ++ behind) (by simp)] at he
      dsimp only at he
      split at he
      · cases he
      · cases he
        rintro ⟨f, hf, -⟩
        cases hf
      · split at he
        · cases he
        · obtain rfl := Except.error.inj he
          exact Failure.not_isUnclosed_because (by simp) (by simp)
    · exact h.bareSize_error he

/-- An attribute that cannot be read in a tag is not left open. -/
theorem AttributeRead.not_isUnclosed {initial : Char} {offset : Nat} {behind w : Text} {e : Failure}
    (h : AttributeRead initial offset behind w (.error e)) (hi : Interior [] (initial :: w)) : ¬e.IsUnclosed := by
  generalize hresult : Except.error e = result at h
  cases h with
  | notAName =>
    obtain rfl := Except.error.inj hresult
    exact Failure.not_isUnclosed_because (by simp) (by simp)
  | shorthand => cases hresult
  | afterName =>
    obtain rfl := Except.error.inj hresult
    exact Failure.not_isUnclosed_because (by simp) (by simp)
  | @named more blanks padding following hn hm hb hp _ =>
    have hname : IsAttributeName (initial :: more) := ⟨initial, more, rfl, hn, hm⟩
    have hlead : initial :: (more ++ (blanks ++ '=' :: (padding ++ following))) =
        initial :: more ++ (blanks ++ '=' :: padding) ++ following := by simp
    rw [hlead] at hi
    have hvalue := ((hname.expression_lead hb hp).interior_append hi).1
    exact hvalue.valueSize_error (bind_return_eq_error hresult.symm)

/-- Whatever is wrong with the attribute list of a tag, no quote and no bracket is open at its end. -/
theorem ListRead.not_isUnclosed {behind w : Text} {offset : Nat} {e : Failure}
    (h : ListRead behind offset w (.error e)) (hi : Interior [] w) : ¬e.IsUnclosed := by
  generalize hresult : Except.error e = result at h
  induction h with
  | blanks => cases hresult
  | refused hb hread =>
    obtain rfl := Except.error.inj hresult
    exact hread.not_isUnclosed ((Expression.of_blanks hb).interior_append hi).1
  | @found offset blanks initial body rest a others hb hwritten _ _ ih =>
    have hrest := ((Expression.of_blanks hb).interior_append hi).1
    rw [← List.cons_append] at hrest
    exact ih (hwritten.expression.interior_append hrest).1 (bind_return_eq_error hresult.symm).symm

/-- The place `k` of a value lies between the quotes of a quoted text or between two brackets. What stands before these
is an expression, so that they are quotes and brackets of the value and not characters within others. -/
inductive Enclosed : Text → Nat → Prop where
  /-- Between quotes. -/
  | quoted {front : Text} {quote : Char} {body back : Text} {k : Nat} : Expression (fun _ => true) front →
      isQuote quote = true → QuotedRest quote body → front.length < k → k < front.length + body.length →
      Enclosed (front ++ quote :: (body ++ back)) k
  /-- Between brackets. -/
  | bracketed {front : Text} {opener closer : Char} {inner back : Text} {k : Nat} : Expression (fun _ => true) front →
      closerOf? opener = some closer → Expression (fun _ => true) inner → front.length < k →
      k ≤ front.length + inner.length → Enclosed (front ++ opener :: (inner ++ closer :: back)) k

/-- An expression may stand in front. -/
theorem Enclosed.prepend {v front : Text} {k : Nat} (h : Enclosed v k) (hf : Expression (fun _ => true) front) :
    Enclosed (front ++ v) (front.length + k) := by
  cases h with
  | quoted hv hq hbody hlo hhi =>
    rw [← List.append_assoc]
    exact .quoted (hf.append hv) hq hbody (by rw [List.length_append]; omega) (by rw [List.length_append]; omega)
  | bracketed hv ho hinner hlo hhi =>
    rw [← List.append_assoc]
    exact .bracketed (hf.append hv) ho hinner (by rw [List.length_append]; omega) (by rw [List.length_append]; omega)

/-- A `>` in a quoted text is enclosed, since it is no quote. -/
theorem Enclosed.of_quoted {quote : Char} {body back : Text} {k : Nat} (hq : isQuote quote = true)
    (hbody : QuotedRest quote body) (hk : (quote :: body)[k]? = some '>') : Enclosed (quote :: (body ++ back)) k := by
  have hne : quote ≠ '>' := by
    rintro rfl
    revert hq
    decide
  have hlast : (quote :: body)[body.length]? = some quote := by
    have hlast := hbody.getLast?_eq
    have hpos := hbody.length_pos
    rw [List.getLast?_eq_getElem?] at hlast
    rwa [show body.length = body.length - 1 + 1 by omega]
  have hstart : k ≠ 0 := by
    rintro rfl
    exact hne (by simpa using hk)
  have hstop : k ≠ body.length := by
    rintro rfl
    exact hne (Option.some.inj (hlast.symm.trans hk))
  obtain ⟨hlt, -⟩ := List.getElem?_eq_some_iff.mp hk
  rw [List.length_cons] at hlt
  have hplace : Enclosed ([] ++ quote :: (body ++ back)) k :=
    .quoted .nil hq hbody (by rw [List.length_nil]; omega) (by rw [List.length_nil]; omega)
  exact hplace

/-- A `>` between two brackets is enclosed, since it is none of them. -/
theorem Enclosed.of_bracketed {opener closer : Char} {inner back : Text} {k : Nat}
    (ho : closerOf? opener = some closer) (hinner : Expression (fun _ => true) inner)
    (hk : (opener :: (inner ++ [closer]))[k]? = some '>') : Enclosed (opener :: (inner ++ closer :: back)) k := by
  have hstart : k ≠ 0 := by
    rintro rfl
    obtain rfl : opener = '>' := by simpa using hk
    simp [closerOf?] at ho
  have hstop : k ≠ inner.length + 1 := by
    rintro rfl
    obtain rfl : closer = '>' := by simpa using hk
    exact absurd (closerOf?_eq_some ho).2.2 (by decide)
  obtain ⟨hlt, -⟩ := List.getElem?_eq_some_iff.mp hk
  simp only [List.length_cons, List.length_append, List.length_nil] at hlt
  have hplace : Enclosed ([] ++ opener :: (inner ++ closer :: back)) k :=
    .bracketed .nil ho hinner (by rw [List.length_nil]; omega) (by rw [List.length_nil]; omega)
  exact hplace

/-- In an expression that allows no `>` outside of quotes and brackets, each of them is enclosed. -/
theorem Expression.enclosed {plain : Char → Bool} {v : Text} (h : Expression plain v) (hp : plain '>' = false)
    {k : Nat} (hk : v[k]? = some '>') : Enclosed v k := by
  induction h generalizing k with
  | nil => simp at hk
  | @character plain c v hq ho hc hplain _ ih =>
    cases k with
    | zero =>
      obtain rfl : c = '>' := by simpa using hk
      simp [hp] at hplain
    | succ k =>
      have hfront : Expression (fun _ => true) [c] := .character hq ho hc rfl .nil
      rw [Nat.add_comm k 1]
      exact (ih hp hk).prepend hfront
  | @quoted plain quote body v hq hbody _ ih =>
    rw [← List.cons_append] at hk ⊢
    rcases Nat.lt_or_ge k (quote :: body).length with hlt | hge
    · exact .of_quoted hq hbody (by rwa [List.getElem?_append_left hlt] at hk)
    · have hfront : Expression (fun _ => true) (quote :: body) := by simpa using Expression.quoted hq hbody .nil
      rw [List.getElem?_append_right hge] at hk
      have hbehind := (ih hp hk).prepend hfront
      rwa [Nat.add_sub_cancel' hge] at hbehind
  | @bracketed plain opener closer inner v ho hinner _ _ ih =>
    have hsplit : opener :: (inner ++ closer :: v) = opener :: (inner ++ [closer]) ++ v := by simp
    rw [hsplit] at hk
    rcases Nat.lt_or_ge k (opener :: (inner ++ [closer])).length with hlt | hge
    · exact .of_bracketed ho hinner (by rwa [List.getElem?_append_left hlt] at hk)
    · have hfront : Expression (fun _ => true) (opener :: (inner ++ [closer])) := .bracketed ho hinner .nil
      rw [List.getElem?_append_right hge] at hk
      have hbehind := (ih hp hk).prepend hfront
      rwa [Nat.add_sub_cancel' hge, ← hsplit] at hbehind

/-- The place `i` of the text lies in the value of the attribute, between its quotes or between brackets. -/
def Placed.Encloses (text : Text) (a : Placed Attribute) (i : Nat) : Prop :=
  ∃ name value start, a.item = .named name value ∧ a.extent.start ≤ start ∧ start + value.length = a.extent.stop ∧
    value <+: text.drop start ∧ start ≤ i ∧ Enclosed value (i - start)

/-- A character that is not in the front of a text stands behind it. -/
theorem getElem?_behind {front rest : Text} {c : Char} {k : Nat} (hf : c ∉ front)
    (hk : (front ++ rest)[k]? = some c) : front.length ≤ k ∧ rest[k - front.length]? = some c := by
  have hge : front.length ≤ k := by
    by_contra hlt
    rw [List.getElem?_append_left (by omega)] at hk
    exact hf (List.mem_of_getElem? hk)
  rw [List.getElem?_append_right hge] at hk
  exact ⟨hge, hk⟩

theorem gt_notMem_blanks {blanks : Text} (hb : ∀ c ∈ blanks, isBlank c = true) : '>' ∉ blanks := by
  intro hmem
  obtain ⟨-, -, -, hne⟩ := isBlank_eq_true (hb '>' hmem)
  exact hne rfl

theorem IsAttributeName.gt_notMem {name : Text} (h : IsAttributeName name) : '>' ∉ name := by
  intro hmem
  obtain ⟨-, -, -, -, -, hne, -⟩ := isNameChar_eq_true (h.forall_isNameChar '>' hmem)
  exact hne rfl

/-- A `>` in an attribute of a tag is enclosed in its value. -/
theorem Attribute.Written.encloses {a : Attribute} {written rest text behind : Text} {start k : Nat}
    (h : a.Written written) (hi : Interior [] (written ++ rest)) (ht : text.drop start = written ++ behind)
    (hk : written[k]? = some '>') :
    Placed.Encloses text ⟨a, ⟨start, start + written.length⟩⟩ (start + k) := by
  cases h with
  | shorthand hn => exact absurd (List.mem_of_getElem? hk) hn.gt_notMem
  | @named name blanks padding value hn hb hp hv =>
    have hsplit : name ++ (blanks ++ '=' :: (padding ++ value)) = name ++ (blanks ++ '=' :: padding) ++ value := by
      simp
    have hlead := hn.expression_lead hb hp
    have hbare : '>' ∉ name ++ (blanks ++ '=' :: padding) := by
      simp [hn.gt_notMem, gt_notMem_blanks hb, gt_notMem_blanks hp]
    rw [hsplit] at hi ht hk ⊢
    generalize name ++ (blanks ++ '=' :: padding) = lead at hi ht hk hlead hbare ⊢
    obtain ⟨hge, hk⟩ := getElem?_behind hbare hk
    rw [List.append_assoc] at hi
    have hvalue := (hv.expression.interior_append (hlead.interior_append hi).1).2 rfl
    refine ⟨name, value, start + lead.length, rfl, Nat.le_add_right _ _, ?_, ?_, by omega, ?_⟩
    · rw [List.length_append, Nat.add_assoc]
    · rw [← List.drop_drop, ht, List.append_assoc, List.drop_left]
      exact List.prefix_append _ _
    · rw [show start + k - (start + lead.length) = k - lead.length by omega]
      exact hvalue.enclosed (by simp) hk

/-- Every `>` in the attribute list of a tag is enclosed in the value of an attribute. -/
theorem AttributeList.encloses {offset : Nat} {w : Text} {found : List (Placed Attribute)}
    (h : AttributeList offset w found) (hi : Interior [] w) {text behind : Text} (ht : text.drop offset = w ++ behind)
    {k : Nat} (hk : w[k]? = some '>') : ∃ a ∈ found, a.Encloses text (offset + k) := by
  induction h generalizing behind k with
  | nil hb => exact absurd (List.mem_of_getElem? hk) (gt_notMem_blanks hb)
  | @cons offset blanks written rest a others hb hwritten hends _ ih =>
    obtain ⟨hge, hk⟩ := getElem?_behind (gt_notMem_blanks hb) hk
    have hafter := ((Expression.of_blanks hb).interior_append hi).1
    have hdrop : text.drop (offset + blanks.length) = written ++ (rest ++ behind) := by
      rw [← List.drop_drop, ht, List.append_assoc, List.append_assoc, List.drop_left]
    rcases Nat.lt_or_ge (k - blanks.length) written.length with hlt | hlater
    · rw [List.getElem?_append_left hlt] at hk
      have henclosed := hwritten.encloses hafter hdrop hk
      rw [show offset + blanks.length + (k - blanks.length) = offset + k by omega] at henclosed
      exact ⟨_, List.mem_cons_self, henclosed⟩
    · rw [List.getElem?_append_right hlater] at hk
      have hrest : text.drop (offset + blanks.length + written.length) = rest ++ behind := by
        rw [← List.drop_drop, hdrop, List.drop_left]
      obtain ⟨other, hmem, henclosed⟩ := ih (hwritten.expression.interior_append hafter).1 hrest hk
      rw [show offset + blanks.length + written.length + (k - blanks.length - written.length) = offset + k by omega]
        at henclosed
      exact ⟨other, List.mem_cons_of_mem _ hmem, henclosed⟩

/-- The attribute list of a mark is what stands before its `>`, without blanks and slashes at the end. -/
theorem OpeningMark.ofEnd_attributes (name between rest : Text) :
    ∃ w tail, between = w ++ tail ∧ (∀ c ∈ tail, isBlank c = true ∨ c = '/') ∧
      (ofEnd name (between ++ '>' :: rest) (name.length + 1 + between.length)).attributesStop =
        name.length + 1 + w.length := by
  have hblanks : ∀ c ∈ (between.reverse.takeWhile isBlank).reverse, isBlank c = true ∨ c = '/' := by
    intro c hc
    exact .inl (List.mem_takeWhile_imp (List.mem_reverse.mp hc))
  have hsplit : between =
      (between.reverse.dropWhile isBlank).reverse ++ (between.reverse.takeWhile isBlank).reverse := by
    rw [← List.reverse_append, List.takeWhile_append_dropWhile, List.reverse_reverse]
  unfold ofEnd
  rw [Nat.add_sub_cancel_left, List.take_left]
  dsimp only
  split
  · next he =>
    rw [he] at hsplit
    exact ⟨[], _, hsplit, hblanks, rfl⟩
  · next c kept he =>
    rw [he] at hsplit
    split
    · next hc =>
      obtain rfl : c = '/' := by simpa using hc
      refine ⟨kept.reverse, '/' :: (between.reverse.takeWhile isBlank).reverse, by simpa using hsplit, ?_, by simp⟩
      exact List.forall_mem_cons.mpr ⟨.inr rfl, hblanks⟩
    · refine ⟨(c :: kept).reverse, _, hsplit, hblanks, ?_⟩
      simp only [List.length_reverse, List.length_cons]
      omega

/-- The attribute list of an opening tag is the interior of a tag. -/
theorem openingMark?_interior {left : Nat} {text : Text} {m : OpeningMark} (h : openingMark? left text = .ok (some m)) :
    ∃ w behind, text.drop m.name.length = w ++ behind ∧ m.attributesStop = m.attributesStart + w.length ∧
      Interior [] w := by
  obtain ⟨name, between, rest, rfl, -, -, -, hend, rfl⟩ := openingMark?_inv h
  obtain ⟨hname, -⟩ := OpeningMark.ofEnd_facts name (between ++ '>' :: rest)
    (Nat.le_add_right (name.length + 1) between.length)
  obtain ⟨w, tail, hsplit, htail, hstop⟩ := OpeningMark.ofEnd_attributes name between rest
  obtain ⟨passed, following, hpassed, hlength, hi⟩ :=
    interior_of_tagEnd (by simp) (hend (between.length + 1) rest (Nat.lt_succ_self _))
  have hsame : between = passed := (List.append_inj hpassed (by omega)).1
  have hw : Interior [] (w ++ tail) := by
    rw [← hsplit, hsame]
    exact hi
  refine ⟨w, tail ++ '>' :: rest, ?_, ?_, hw.trim htail⟩
  · rw [hname, List.drop_left, hsplit, List.append_assoc]
  · rw [hstop, OpeningMark.attributesStart, hname]

/-- The attribute list of an opening tag is the interior of a tag. -/
theorem interior_of_mem_lexWindow {text : Text} {window : Extent} {name : Text} {attributes extent : Extent}
    {selfClosing : Bool} (h : .opening name attributes extent selfClosing ∈ (lexWindow text window).lexemes) :
    ∃ w behind, text.drop attributes.start = w ++ behind ∧ attributes.stop = attributes.start + w.length ∧
      Interior [] w := by
  rcases mem_lexFrom rfl h with ⟨c, hc⟩ | ⟨start, less, rest, m, hstart, hm, -, hl⟩
  · cases hc
  · cases m with
    | closing m => cases hl
    | opening m =>
      obtain ⟨w, behind, hw, hstop, hi⟩ := openingMark?_interior (markAt?_opening hm)
      simp only [Lexeme.ofMark, Lexeme.opening.injEq] at hl
      obtain ⟨-, rfl, -⟩ := hl
      refine ⟨w, behind, ?_, by simp only [hstop]; omega, hi⟩
      rw [← hw]
      exact drop_behind hstart (Nat.succ_pos _)

/-- The opening tag of a segment is one of the lexemes of the window. -/
theorem interior_of_component {text : Text} {window : Extent} {c : Component}
    (h : .component c ∈ (scanWindow text window).segments) :
    ∃ w behind, text.drop c.attributes.start = w ++ behind ∧ c.attributes.stop = c.attributes.start + w.length ∧
      Interior [] w := by
  obtain ⟨selfClosing, hl⟩ := c.exists_opening_mem text
  exact interior_of_mem_lexWindow (mem_lexWindow_of_segment h hl)

/-- The search for the end of an opening tag and the reader of attribute lists agree on quotes and brackets. In the
attribute list of any component that is cut out of any window, the reader finds no quote and no bracket that is left
open; and if it reads the list, every `>` in it lies between quotes or brackets of the value of some attribute. -/
theorem attributesIn_agrees_with_tagEnd {text : Text} {window : Extent} {c : Component}
    (h : .component c ∈ (scanWindow text window).segments) :
    (∀ e, attributesIn text c.attributes = .error e → ¬e.IsUnclosed) ∧
      ∀ found, attributesIn text c.attributes = .ok found →
        ∀ i, c.attributes.start ≤ i → i < c.attributes.stop → text[i]? = some '>' →
          ∃ a ∈ found, a.Encloses text i := by
  obtain ⟨w, behind, hw, hstop, hi⟩ := interior_of_component h
  have hwindow : c.attributes = ⟨c.attributes.start, c.attributes.start + w.length⟩ := by rw [← hstop]
  constructor
  · intro e he
    have hread := attributesFrom_read c.attributes.start w behind
    rw [hwindow, attributesIn, hw, Nat.add_sub_cancel_left] at he
    rw [he] at hread
    exact hread.not_isUnclosed hi
  · intro found hfound i hlo hhi hgt
    rw [hwindow, attributesIn_eq_ok_iff hw] at hfound
    have hk : w[i - c.attributes.start]? = some '>' := by
      have hplace : (text.drop c.attributes.start)[i - c.attributes.start]? = some '>' := by
        rwa [List.getElem?_drop, Nat.add_sub_cancel' hlo]
      rwa [hw, List.getElem?_append_left (by omega)] at hplace
    have henclosed := hfound.encloses hi hw hk
    rwa [Nat.add_sub_cancel' hlo] at henclosed

/-- One `>` stands between brackets and one behind a quote that a backslash hides. The closing bracket of the second
component is passed over by the search and refused by the reader, for another reason than an open quote or bracket. -/
theorem attributesIn_agrees_with_tagEnd_mixed :
    let text := "<A v=\x7bb > 1\x7d w='\\'>'/><B u=)></B>".toList
    let first : Component := ⟨['A'], ⟨2, 20⟩, ⟨0, 22⟩, none⟩
    let second : Component := ⟨['B'], ⟨24, 28⟩, ⟨22, 29⟩, some ⟨29, 33⟩⟩
    (scanText text).segments = [.component first, .component second] ∧
      (∃ found, attributesIn text first.attributes = .ok found ∧
        text[8]? = some '>' ∧ (∃ a ∈ found, a.Encloses text 8) ∧
        text[18]? = some '>' ∧ ∃ a ∈ found, a.Encloses text 18) ∧
      ∃ e, attributesIn text second.attributes = .error e ∧ ¬e.IsUnclosed := by
  intro text first second
  have hsegments : (scanText text).segments = [.component first, .component second] := by decide +kernel
  have hfirst : .component first ∈ (scanWindow text ⟨0, text.length⟩).segments := by
    rw [← scanText, hsegments]
    exact List.mem_cons_self
  have hsecond : .component second ∈ (scanWindow text ⟨0, text.length⟩).segments := by
    rw [← scanText, hsegments]
    exact List.mem_cons_of_mem _ List.mem_cons_self
  have hfound : attributesIn text first.attributes =
      .ok [⟨.named ['v'] "\x7bb > 1\x7d".toList, ⟨3, 12⟩⟩, ⟨.named ['w'] "'\\'>'".toList, ⟨13, 20⟩⟩] := by
    decide +kernel
  have hrefused : attributesIn text second.attributes = .error (.because (.unbalanced ')' ['u']) 27 28) := by
    decide +kernel
  have hplace : text[8]? = some '>' ∧ text[18]? = some '>' := by decide +kernel
  have hgt := (attributesIn_agrees_with_tagEnd hfirst).2 _ hfound
  refine ⟨hsegments, ⟨_, hfound, hplace.1, ?_, hplace.2, ?_⟩, _, hrefused, ?_⟩
  · exact hgt 8 (by decide) (by decide) hplace.1
  · exact hgt 18 (by decide) (by decide) hplace.2
  · exact (attributesIn_agrees_with_tagEnd hsecond).1 _ hrefused

end ComponentTags
