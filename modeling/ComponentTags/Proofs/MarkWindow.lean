import ComponentTags.Mark
import Mathlib.Data.List.TakeWhile

/-!
# Marks and the windows in which they are read

What is recognised at a `<` is decided by the characters of the mark alone: neither the window nor the text behind the
mark matters, as long as the window holds the whole mark. A `<` that begins no mark in a window begins none in
a shorter one. Where a window lies within its text, every place of it can be read.

Nothing is said about a longer window at a `<` that begins no mark: there a closing tag may be completed.
-/

namespace ComponentTags

/-- What follows an opening quote, up to and with the first such quote that no backslash hides. -/
inductive QuotedRest (quote : Char) : Text → Prop where
  /-- The closing quote itself. -/
  | close : quote ≠ '\\' → QuotedRest quote [quote]
  /-- A backslash with the character that it hides. -/
  | escape (c : Char) {rest : Text} : QuotedRest quote rest → QuotedRest quote ('\\' :: c :: rest)
  /-- Any other character. -/
  | plain {c : Char} {rest : Text} :
      c ≠ '\\' → c ≠ quote → QuotedRest quote rest → QuotedRest quote (c :: rest)

theorem QuotedRest.length_pos {quote : Char} {body : Text} (h : QuotedRest quote body) :
    0 < body.length := by
  cases h <;> simp

/-- A quoted value ends with its quote. -/
theorem QuotedRest.getLast?_eq {quote : Char} {body : Text} (h : QuotedRest quote body) :
    body.getLast? = some quote := by
  induction h with
  | close => rfl
  | escape c _ ih => simp [List.getLast?_cons, ih]
  | plain _ _ _ ih => simp [List.getLast?_cons, ih]

/-- The search for a closing quote finds it behind every quoted text that the window holds. -/
theorem QuotedRest.quoteEnd_eq {quote : Char} {body : Text} (h : QuotedRest quote body) (rest : Text)
    {left : Nat} (hl : body.length ≤ left) :
    quoteEnd quote left (body ++ rest) = .closed body.length := by
  induction h generalizing left with
  | close hq =>
    obtain ⟨left, rfl⟩ : ∃ n, left = n + 1 := ⟨left - 1, by simp at hl; omega⟩
    simp [quoteEnd, hq]
  | @escape c body _ ih =>
    obtain ⟨left, rfl⟩ : ∃ n, left = n + 2 := ⟨left - 2, by simp at hl; omega⟩
    simp only [List.length_cons] at hl
    have hb := ih (show body.length ≤ left by omega)
    simp [quoteEnd, hb, QuoteEnd.skip]
  | @plain c body hc hq _ ih =>
    obtain ⟨left, rfl⟩ : ∃ n, left = n + 1 := ⟨left - 1, by simp at hl; omega⟩
    simp only [List.length_cons] at hl
    have hb := ih (show body.length ≤ left by omega)
    simp [quoteEnd, hc, hq, hb, QuoteEnd.skip]

/-- A closing quote that is found ends a quoted text, which lies in the window. -/
theorem quotedRest_of_quoteEnd {quote : Char} {left size : Nat} {text : Text}
    (h : quoteEnd quote left text = .closed size) :
    ∃ body rest, text = body ++ rest ∧ QuotedRest quote body ∧ body.length = size ∧ size ≤ left := by
  fun_induction quoteEnd quote left text generalizing size with
  | case1 => simp at h
  | case2 => simp at h
  | case3 left c rest hc ih =>
    obtain ⟨n, hn, rfl⟩ : ∃ n, quoteEnd quote (left - 1) (rest.drop 1) = .closed n ∧ size = n + 2 := by
      cases he : quoteEnd quote (left - 1) (rest.drop 1) <;> simp_all [QuoteEnd.skip]
    obtain ⟨body, behind, ht, hb, hs, hl⟩ := ih hn
    have hp := hb.length_pos
    cases rest with
    | nil => simp_all
    | cons d rest =>
      obtain rfl : c = '\\' := by simpa using hc
      have ht : rest = body ++ behind := by simpa using ht
      exact ⟨'\\' :: d :: body, behind, by simp [ht], .escape d hb, by simp [hs], by omega⟩
  | case4 left c rest hc hq =>
    obtain rfl : c = quote := by simpa using hq
    obtain rfl : 1 = size := by simpa using h
    exact ⟨[c], rest, rfl, .close (by simpa using hc), rfl, by omega⟩
  | case5 left c rest hc hq ih =>
    obtain ⟨n, hn, rfl⟩ : ∃ n, quoteEnd quote left rest = .closed n ∧ size = n + 1 := by
      cases he : quoteEnd quote left rest <;> simp_all [QuoteEnd.skip]
    obtain ⟨body, behind, rfl, hb, hs, hl⟩ := ih hn
    exact ⟨c :: body, behind, rfl, .plain (by simpa using hc) (by simpa using hq) hb, by simp [hs],
      by omega⟩

/-- The search passes over an opening bracket and from then on awaits its closer. -/
theorem tagEnd_opener {c closer : Char} (hc : isQuote c = false) (ho : closerOf? c = some closer)
    (brackets : List OpenBracket) (offset left : Nat) (rest : Text) :
    tagEnd brackets offset (left + 1) (c :: rest) =
      tagEnd (⟨closer, offset⟩ :: brackets) (offset + 1) left rest := by
  rw [tagEnd.eq_def]
  simp [hc, ho]

/-- The search passes over a quoted text that the window holds. -/
theorem tagEnd_quoted {c : Char} {body : Text} (hc : isQuote c = true) (hb : QuotedRest c body)
    (brackets : List OpenBracket) (offset : Nat) {left : Nat} (hl : body.length ≤ left) (rest : Text) :
    tagEnd brackets offset (left + 1) (c :: (body ++ rest)) =
      tagEnd brackets (offset + 1 + body.length) (left - body.length) rest := by
  rw [tagEnd.eq_def]
  simp [hc, hb.quoteEnd_eq rest hl]

/-- The `>` at `gt` ends the opening tag in `text`, and it does so in every window that holds it, whatever
stands behind it. -/
def TagEndsAt (brackets : List OpenBracket) (offset left : Nat) (text : Text) (gt : Nat) : Prop :=
  ∃ between rest, text = between ++ '>' :: rest ∧ gt = offset + between.length ∧ between.length < left ∧
    ∀ (other : Nat) (behind : Text), between.length < other →
      tagEnd brackets offset other (between ++ '>' :: behind) = .ok (some gt)

/-- A stretch that the search passes over in every window may be set in front. -/
theorem TagEndsAt.append {brackets next : List OpenBracket} {offset left gt : Nat} (passed : Text)
    {text : Text} (h : TagEndsAt next (offset + passed.length) left text gt)
    (hp : ∀ (other : Nat) (behind : Text), passed.length ≤ other →
      tagEnd brackets offset other (passed ++ behind) =
        tagEnd next (offset + passed.length) (other - passed.length) behind) :
    TagEndsAt brackets offset (left + passed.length) (passed ++ text) gt := by
  obtain ⟨between, rest, rfl, rfl, hlt, hw⟩ := h
  refine ⟨passed ++ between, rest, by simp, by simp; omega, by simp; omega, ?_⟩
  intro other behind ho
  simp only [List.length_append] at ho
  rw [List.append_assoc, hp other _ (by omega), hw _ _ (by omega)]

/-- The case of a single character that the search passes over. -/
theorem TagEndsAt.cons {brackets next : List OpenBracket} {offset left gt : Nat} {c : Char} {text : Text}
    (h : TagEndsAt next (offset + 1) left text gt)
    (hp : ∀ (other : Nat) (behind : Text),
      tagEnd brackets offset (other + 1) (c :: behind) = tagEnd next (offset + 1) other behind) :
    TagEndsAt brackets offset (left + 1) (c :: text) gt := by
  refine TagEndsAt.append [c] h ?_
  intro other behind ho
  obtain ⟨other, rfl⟩ : ∃ n, other = n + 1 := ⟨other - 1, by simp at ho; omega⟩
  simpa using hp other behind

/-- The end of an opening tag is decided by what stands before it. -/
theorem tagEndsAt_of_tagEnd {brackets : List OpenBracket} {offset left gt : Nat} {text : Text}
    (h : tagEnd brackets offset left text = .ok (some gt)) : TagEndsAt brackets offset left text gt := by
  fun_induction tagEnd brackets offset left text with
  | case1 => simp at h
  | case2 => simp at h
  | case3 => simp at h
  | case4 brackets offset left c rest hc size hq ih =>
    obtain ⟨body, behind, rfl, hb, rfl, hl⟩ := quotedRest_of_quoteEnd hq
    have hi : TagEndsAt brackets (offset + (c :: body).length) (left - body.length) behind gt := by
      have hi := ih h
      rw [List.drop_left] at hi
      simpa [Nat.add_assoc, Nat.add_comm 1] using hi
    have ha : TagEndsAt brackets offset (left - body.length + (c :: body).length) (c :: body ++ behind) gt := by
      refine TagEndsAt.append (c :: body) hi ?_
      intro other behind ho
      simp only [List.length_cons] at ho
      obtain ⟨other, rfl⟩ : ∃ n, other = n + 1 := ⟨other - 1, by omega⟩
      rw [List.cons_append, tagEnd_quoted hc hb brackets offset (by omega)]
      simp [Nat.add_assoc, Nat.add_comm 1]
    simpa [Nat.sub_add_cancel hl, ← Nat.add_assoc] using ha
  | case5 => simp at h
  | case6 => simp at h
  | case7 brackets offset left c rest hc closer ho ih =>
    exact (ih h).cons (tagEnd_opener (by simpa using hc) ho brackets offset)
  | case8 offset left c rest hc ho hgt =>
    obtain rfl : c = '>' := by simpa using hgt
    obtain rfl : offset = gt := by simpa using h
    refine ⟨[], rest, rfl, rfl, by simp, ?_⟩
    intro other behind hlt
    obtain ⟨other, rfl⟩ : ∃ n, other = n + 1 := ⟨other - 1, by simp at hlt; omega⟩
    simp [tagEnd, isQuote, closerOf?]
  | case9 offset left c rest hc ho hgt ih =>
    exact (ih h).cons (by intro other behind; simp [tagEnd, hc, ho, hgt])
  | case10 offset left c rest hc ho b outer hb ih =>
    exact (ih h).cons (by intro other behind; simp [tagEnd, hc, ho, hb])
  | case11 offset left c rest hc ho b outer hb ih =>
    exact (ih h).cons (by intro other behind; simp [tagEnd, hc, ho, hb])

/-- A component's name: an ASCII capital, then ASCII letters and digits. -/
def IsTagName (name : Text) : Prop :=
  ∃ initial more, name = initial :: more ∧ isTagStart initial = true ∧ ∀ c ∈ more, isTagChar c = true

/-- The name at the front of a text is the longest one, and names are never empty. -/
theorem tagName_append {name rest : Text} (hn : IsTagName name)
    (hr : ∀ c ∈ rest.head?, isTagChar c = false) : tagName (name ++ rest) = name := by
  obtain ⟨initial, more, rfl, hi, hm⟩ := hn
  have ht : (more ++ rest).takeWhile isTagChar = more := by
    rw [List.takeWhile_append_of_pos hm]
    cases rest with
    | nil => simp
    | cons c rest => simp [hr c (by simp)]
  simp [tagName, hi, ht]

/-- What is read as the name of a tag is a name, and the text begins with it. -/
theorem isTagName_of_tagName {text : Text} {initial : Char} {more : Text}
    (h : tagName text = initial :: more) :
    IsTagName (initial :: more) ∧ ∃ rest, text = initial :: more ++ rest := by
  cases text with
  | nil => simp [tagName] at h
  | cons c text =>
    simp only [tagName] at h
    split at h
    · next hc =>
      obtain ⟨rfl, rfl⟩ : c = initial ∧ text.takeWhile isTagChar = more := by simpa using h
      refine ⟨⟨c, _, rfl, hc, ?_⟩, text.dropWhile isTagChar, ?_⟩
      · intro d hd
        exact List.mem_takeWhile_imp hd
      · simp
    · simp at h

/-- The characters that may follow the name in an opening tag do not go on with it. -/
theorem not_isTagChar_of_follows {c : Char} (h : (isBlank c || c == '/' || c == '>') = true) :
    isTagChar c = false := by
  simp only [isBlank, Bool.or_eq_true, beq_iff_eq, or_assoc] at h
  rcases h with rfl | rfl | rfl | rfl | rfl | rfl | rfl | rfl <;> decide

/-- The mark ends with its `>`, and its attributes lie between its name and that. -/
theorem OpeningMark.ofEnd_facts (name behind : Text) {gt : Nat} (h : name.length + 1 ≤ gt) :
    (ofEnd name behind gt).name = name ∧ (ofEnd name behind gt).size = gt + 1 ∧
      name.length + 1 ≤ (ofEnd name behind gt).attributesStop ∧
      (ofEnd name behind gt).attributesStop ≤ gt := by
  have hk := List.length_dropWhile_le isBlank (behind.take (gt - (name.length + 1))).reverse
  simp only [List.length_reverse, List.length_take] at hk
  unfold ofEnd
  dsimp only
  split
  · simp; omega
  · next c kept he =>
    rw [he, List.length_cons] at hk
    split <;> simp <;> omega

/-- A name, then something that may follow it, then the `>` that ends the tag: that is an opening mark. -/
theorem openingMark?_eq_of_tagEnd {name between behind : Text} {left : Nat} (hn : IsTagName name)
    (hf : ∀ c ∈ (between ++ '>' :: behind).head?, (isBlank c || c == '/' || c == '>') = true)
    (ht : tagEnd [] (name.length + 1) (left - name.length) (between ++ '>' :: behind) =
      .ok (some (name.length + 1 + between.length))) :
    openingMark? left (name ++ (between ++ '>' :: behind)) =
      .ok (some (.ofEnd name (between ++ '>' :: behind) (name.length + 1 + between.length))) := by
  obtain ⟨c, more, hc⟩ : ∃ c more, between ++ '>' :: behind = c :: more := by
    cases between <;> simp
  have hf : (isBlank c || c == '/' || c == '>') = true := hf c (by simp [hc])
  have hname : tagName (name ++ (between ++ '>' :: behind)) = name :=
    tagName_append hn (by simpa [hc] using not_isTagChar_of_follows hf)
  obtain ⟨initial, rest, rfl, -⟩ := hn
  unfold openingMark?
  rw [hname]
  dsimp only
  rw [List.drop_left, ht, hc]
  dsimp only
  rw [if_pos hf]

/-- An opening mark is a name, something that may follow it, and the `>` that ends the tag. -/
theorem openingMark?_inv {left : Nat} {text : Text} {m : OpeningMark} (h : openingMark? left text = .ok (some m)) :
    ∃ name between rest, text = name ++ (between ++ '>' :: rest) ∧ IsTagName name ∧
      (∀ c ∈ (between ++ '>' :: rest).head?, (isBlank c || c == '/' || c == '>') = true) ∧
      name.length + between.length < left ∧
      (∀ (other : Nat) (behind : Text), between.length < other →
        tagEnd [] (name.length + 1) other (between ++ '>' :: behind) =
          .ok (some (name.length + 1 + between.length))) ∧
      m = .ofEnd name (between ++ '>' :: rest) (name.length + 1 + between.length) := by
  unfold openingMark? at h
  split at h
  · simp at h
  · next initial more hname =>
    obtain ⟨hn, behind, rfl⟩ := isTagName_of_tagName hname
    dsimp only at h
    rw [List.drop_left] at h
    split at h
    · simp at h
    · next c following =>
      split at h
      · next hf =>
        split at h
        · simp at h
        · simp at h
        · next gt hgt =>
          obtain ⟨between, rest, hb, rfl, hlt, hw⟩ := tagEndsAt_of_tagEnd hgt
          rw [hb] at h
          exact ⟨initial :: more, between, rest, by rw [hb], hn, by simpa [← hb] using hf, by omega, hw,
            by simpa using h.symm⟩
      · simp at h

/-- An opening mark is decided by its own characters. -/
theorem openingMark?_eq_some {left : Nat} {text : Text} {m : OpeningMark}
    (h : openingMark? left text = .ok (some m)) :
    ∃ body rest, text = body ++ rest ∧ IsTagName m.name ∧ m.name <+: body ∧ m.size = body.length + 1 ∧
      m.name.length + 1 ≤ m.attributesStop ∧ m.attributesStop < m.size ∧ m.size ≤ left + 1 ∧
      ∀ (other : Nat) (behind : Text), body.length ≤ other →
        openingMark? other (body ++ behind) = .ok (some m) := by
  obtain ⟨name, between, rest, rfl, hn, hf, hlt, hw, hm⟩ := openingMark?_inv h
  obtain ⟨hname, hsize, hlo, hhi⟩ := OpeningMark.ofEnd_facts name (between ++ '>' :: rest)
    (Nat.le_add_right (name.length + 1) between.length)
  rw [← hm] at hname hsize hlo hhi
  rw [hname]
  refine ⟨name ++ (between ++ ['>']), rest, by simp, hn, List.prefix_append _ _, ?_, hlo, by omega, by omega, ?_⟩
  · simp only [hsize, List.length_append, List.length_cons, List.length_nil]
    omega
  · intro other behind ho
    simp only [List.length_append, List.length_cons, List.length_nil] at ho
    have hf : ∀ c ∈ (between ++ '>' :: behind).head?, (isBlank c || c == '/' || c == '>') = true := by
      cases between with
      | nil => simp
      | cons d between => simpa using hf
    have he := openingMark?_eq_of_tagEnd hn hf (hw (other - name.length) behind (by omega))
    have hsame : OpeningMark.ofEnd name (between ++ '>' :: behind) (name.length + 1 + between.length) = m := by
      rw [hm]
      simp [OpeningMark.ofEnd]
    rw [hsame] at he
    simpa using he

/-- No opening mark begins where no name stands, or one that is followed by something else than a mark needs. -/
theorem openingMark?_eq_none_iff {left : Nat} {text : Text} :
    openingMark? left text = .ok none ↔ tagName text = [] ∨ ∃ c following,
      text.drop (tagName text).length = c :: following ∧ (isBlank c || c == '/' || c == '>') = false := by
  unfold openingMark?
  cases tagName text with
  | nil => simp
  | cons initial more =>
    dsimp only
    cases text.drop (initial :: more).length with
    | nil => simp
    | cons c following =>
      dsimp only
      split
      · next hf =>
        constructor
        · intro h
          split at h <;> cases h
        · rintro (h | ⟨d, rest, h, hd⟩)
          · cases h
          · obtain ⟨rfl, -⟩ := List.cons.inj h
            simp [hf] at hd
      · next hf => exact ⟨fun _ => .inr ⟨c, following, rfl, by simpa using hf⟩, fun _ => rfl⟩

/-- Where the name makes no opening mark, no window makes one of it. -/
theorem openingMark?_eq_none {left : Nat} {text : Text} (h : openingMark? left text = .ok none)
    (other : Nat) : openingMark? other text = .ok none :=
  openingMark?_eq_none_iff.mpr (openingMark?_eq_none_iff.mp h)

/-- A run that is met in a window has only characters of its class, and what ends it within the window has not. -/
theorem runLength_eq_ok {p : Char → Bool} {left n : Nat} {text : Text}
    (h : runLength p left text = .ok n) :
    ∃ run rest, text = run ++ rest ∧ run.length = n ∧ n ≤ left ∧ (∀ c ∈ run, p c = true) ∧
      (n < left → ∃ c following, rest = c :: following ∧ p c = false) := by
  fun_induction runLength p left text generalizing n with
  | case1 text =>
    obtain rfl : 0 = n := by simpa using h
    exact ⟨[], text, rfl, rfl, Nat.le_refl 0, by simp, by simp⟩
  | case2 => simp at h
  | case3 left c rest hc k hk ih =>
    obtain ⟨run, rest, rfl, rfl, hl, hp, hs⟩ := ih hk
    obtain rfl : run.length + 1 = n := by simpa using h
    refine ⟨c :: run, rest, rfl, rfl, by omega, ?_, ?_⟩
    · intro d hd
      rcases List.mem_cons.mp hd with rfl | hd
      · exact hc
      · exact hp d hd
    · intro hlt
      exact hs (by omega)
  | case4 => simp at h
  | case5 left c rest hc =>
    obtain rfl : 0 = n := by simpa using h
    exact ⟨[], c :: rest, rfl, rfl, by omega, by simp, fun _ => ⟨c, rest, rfl, by simpa using hc⟩⟩

/-- A run that fills the window is met whole. -/
theorem runLength_full {p : Char → Bool} {run : Text} (hp : ∀ c ∈ run, p c = true) (rest : Text) :
    runLength p run.length (run ++ rest) = .ok run.length := by
  induction run with
  | nil => simp [runLength]
  | cons c run ih =>
    simp only [List.forall_mem_cons] at hp
    simp [runLength, hp.1, ih hp.2]

/-- A run is met whole up to the first character of another class. -/
theorem runLength_stop {p : Char → Bool} {run : Text} (hp : ∀ c ∈ run, p c = true) {c : Char}
    (hc : p c = false) (rest : Text) {left : Nat} (hl : run.length < left) :
    runLength p left (run ++ c :: rest) = .ok run.length := by
  induction run generalizing left with
  | nil =>
    obtain ⟨left, rfl⟩ : ∃ n, left = n + 1 := ⟨left - 1, by simp at hl; omega⟩
    simp [runLength, hc]
  | cons d run ih =>
    simp only [List.forall_mem_cons] at hp
    simp only [List.length_cons] at hl
    obtain ⟨left, rfl⟩ : ∃ n, left = n + 1 := ⟨left - 1, by omega⟩
    simp [runLength, hp.1, ih hp.2 (show run.length < left by omega)]

/-- A shorter window cuts a run off and hides what follows it. -/
theorem runLength_shrink {p : Char → Bool} {left less n : Nat} {text : Text}
    (h : runLength p left text = .ok n) (hl : less ≤ left) : ∃ k, runLength p less text = .ok k := by
  obtain ⟨run, rest, rfl, rfl, hn, hp, hs⟩ := runLength_eq_ok h
  by_cases hr : less ≤ run.length
  · have hrun : run = run.take less ++ run.drop less := (List.take_append_drop _ _).symm
    have hlen : (run.take less).length = less := by simp; omega
    have htake : ∀ c ∈ run.take less, p c = true := fun c hc => hp c (List.mem_of_mem_take hc)
    have hf := runLength_full htake (run.drop less ++ rest)
    rw [hlen, ← List.append_assoc, ← hrun] at hf
    exact ⟨_, hf⟩
  · obtain ⟨c, following, rfl, hc⟩ := hs (by omega)
    exact ⟨_, runLength_stop hp hc following (by omega)⟩

/-- Blanks and a `>` that the window holds are what ends a closing tag. -/
theorem blanksToEnd?_eq {blanks : Text} (hb : ∀ c ∈ blanks, isBlank c = true) (rest : Text) {left : Nat}
    (hl : blanks.length < left) :
    blanksToEnd? left (blanks ++ '>' :: rest) = .ok (some (blanks.length + 1)) := by
  obtain ⟨k, hk⟩ : ∃ k, left - blanks.length = k + 1 := ⟨left - blanks.length - 1, by omega⟩
  unfold blanksToEnd?
  rw [runLength_stop hb (by decide) rest hl]
  simp [hk]

/-- The `>` that is found stands behind blanks alone, within the window. -/
theorem blanksToEnd?_eq_some {left size : Nat} {text : Text} (h : blanksToEnd? left text = .ok (some size)) :
    ∃ blanks rest, text = blanks ++ '>' :: rest ∧ (∀ c ∈ blanks, isBlank c = true) ∧
      size = blanks.length + 1 ∧ size ≤ left := by
  unfold blanksToEnd? at h
  split at h
  · simp at h
  · next k hk =>
    obtain ⟨blanks, rest, rfl, rfl, hl, hb, -⟩ := runLength_eq_ok hk
    rw [List.drop_left] at h
    split at h
    · next n following hn =>
      obtain rfl : blanks.length + 1 = size := by simpa using h
      exact ⟨blanks, following, rfl, hb, rfl, by omega⟩
    · simp at h

/-- A shorter window is read without running out of text, too. -/
theorem blanksToEnd?_shrink {left less : Nat} {text : Text} {size : Option Nat}
    (h : blanksToEnd? left text = .ok size) (hl : less ≤ left) :
    ∃ other, blanksToEnd? less text = .ok other := by
  unfold blanksToEnd? at h ⊢
  split at h
  · simp at h
  · next n hn =>
    obtain ⟨k, hk⟩ := runLength_shrink hn hl
    rw [hk]
    dsimp only
    split
    · exact ⟨_, rfl⟩
    · exact ⟨_, rfl⟩

/-- A slash, a name, blanks and a `>` that the window holds: that is a closing mark. -/
theorem closingMark?_eq {name blanks : Text} (hn : IsTagName name) (hb : ∀ c ∈ blanks, isBlank c = true)
    (rest : Text) {left : Nat} (hl : name.length + blanks.length + 2 ≤ left) :
    closingMark? left ('/' :: (name ++ (blanks ++ '>' :: rest))) =
      .ok (some ⟨name, name.length + blanks.length + 3⟩) := by
  obtain ⟨left, rfl⟩ : ∃ n, left = n + 1 := ⟨left - 1, by omega⟩
  have hname : tagName (name ++ (blanks ++ '>' :: rest)) = name := by
    refine tagName_append hn ?_
    cases blanks with
    | nil => simp; decide
    | cons c blanks => simpa using not_isTagChar_of_follows (by simp [hb c (by simp)])
  have he := blanksToEnd?_eq hb rest (show blanks.length < left - name.length by omega)
  obtain ⟨initial, more, rfl, -⟩ := hn
  unfold closingMark?
  dsimp only
  rw [if_pos (by rfl), hname]
  dsimp only
  rw [List.drop_left, he]
  simp only [Except.ok.injEq, Option.some.injEq, ClosingMark.mk.injEq, true_and]
  omega

/-- A closing tag has a slash, a name and blanks before its `>`, and lies within the window. -/
theorem closingMark?_eq_some {left : Nat} {text : Text} {m : ClosingMark}
    (h : closingMark? left text = .ok (some m)) :
    ∃ blanks rest, text = '/' :: (m.name ++ (blanks ++ '>' :: rest)) ∧ IsTagName m.name ∧
      (∀ c ∈ blanks, isBlank c = true) ∧ m.size = m.name.length + blanks.length + 3 ∧
      m.size ≤ left + 1 := by
  unfold closingMark? at h
  split at h
  · simp at h
  · simp at h
  · next left c rest =>
    split at h
    · next hc =>
      obtain rfl : c = '/' := by simpa using hc
      split at h
      · simp at h
      · next initial more hname =>
        obtain ⟨hn, behind, rfl⟩ := isTagName_of_tagName hname
        dsimp only at h
        rw [List.drop_left] at h
        split at h
        · simp at h
        · simp at h
        · next size hs =>
          obtain ⟨blanks, last, rfl, hb, rfl, hl⟩ := blanksToEnd?_eq_some hs
          obtain rfl : ⟨initial :: more, 2 + (initial :: more).length + (blanks.length + 1)⟩ = m := by
            simpa using h
          exact ⟨blanks, last, rfl, hn, hb, by dsimp only; omega, by dsimp only; omega⟩
    · simp at h

/-- A shorter window reads no place that the longer one does not read. -/
theorem closingMark?_shrink {left less : Nat} {text : Text} {found : Option ClosingMark}
    (h : closingMark? left text = .ok found) (hl : less ≤ left) :
    ∃ other, closingMark? less text = .ok other := by
  cases less with
  | zero => exact ⟨none, by simp [closingMark?]⟩
  | succ less =>
    obtain ⟨left, rfl⟩ : ∃ n, left = n + 1 := ⟨left - 1, by omega⟩
    cases text with
    | nil => simp [closingMark?] at h
    | cons c rest =>
      unfold closingMark? at h ⊢
      dsimp only at h ⊢
      split
      · next hc =>
        rw [if_pos hc] at h
        split
        · exact ⟨none, rfl⟩
        · next initial more hname =>
          rw [hname] at h
          dsimp only at h
          obtain ⟨ending, hend⟩ : ∃ size, blanksToEnd? (less - (initial :: more).length)
              (rest.drop (initial :: more).length) = .ok size := by
            split at h
            · simp at h
            · next he => exact blanksToEnd?_shrink he (by omega)
            · next he => exact blanksToEnd?_shrink he (by omega)
          rw [hend]
          cases ending with
          | none => exact ⟨none, rfl⟩
          | some size => exact ⟨_, rfl⟩
      · exact ⟨none, rfl⟩

/-- What is no closing mark in a window is none in a shorter one. -/
theorem closingMark?_eq_none {left less : Nat} {text : Text} (h : closingMark? left text = .ok none)
    (hl : less ≤ left) : closingMark? less text = .ok none := by
  obtain ⟨found, hf⟩ := closingMark?_shrink h hl
  cases found with
  | none => exact hf
  | some m =>
    obtain ⟨blanks, rest, rfl, hn, hb, hs, hw⟩ := closingMark?_eq_some hf
    rw [closingMark?_eq hn hb rest (by omega)] at h
    simp at h

/-- A name begins with a capital, so no closing mark can stand where an opening one does. -/
theorem IsTagName.closingMark?_eq_none {name : Text} (hn : IsTagName name) (left : Nat) (rest : Text) :
    closingMark? left (name ++ rest) = .ok none := by
  obtain ⟨initial, more, rfl, hi, -⟩ := hn
  have hne : initial ≠ '/' := by rintro rfl; simp [isTagStart] at hi
  cases left with
  | zero => simp [closingMark?]
  | succ left => simp [closingMark?, hne]

/-- A mark is decided by its own characters: it is found in every window that holds it, whatever stands behind it. -/
theorem markAt?_eq_some {left : Nat} {text : Text} {m : Mark} (h : markAt? left text = .ok (some m)) :
    ∃ body rest, text = body ++ rest ∧ m.size = body.length + 1 ∧ m.size ≤ left + 1 ∧
      ∀ (other : Nat) (behind : Text), body.length ≤ other →
        markAt? other (body ++ behind) = .ok (some m) := by
  unfold markAt? at h
  split at h
  · simp at h
  · next c hc =>
    obtain rfl : Mark.closing c = m := by simpa using h
    obtain ⟨blanks, rest, rfl, hn, hb, hs, hw⟩ := closingMark?_eq_some hc
    refine ⟨'/' :: (c.name ++ (blanks ++ ['>'])), rest, by simp, ?_, hw, ?_⟩
    · simp only [Mark.size, hs, List.length_cons, List.length_append, List.length_nil]
      omega
    · intro other behind ho
      simp only [List.length_cons, List.length_append, List.length_nil] at ho
      have he := closingMark?_eq hn hb behind (show _ ≤ other by omega)
      unfold markAt?
      simp only [List.cons_append, List.append_assoc, List.nil_append, he]
      cases c
      simp_all
  · next hc =>
    split at h
    · simp at h
    · next o ho =>
      obtain rfl : Mark.opening o = m := by simpa using h
      obtain ⟨body, rest, rfl, hn, hpre, hs, -, -, hw, hany⟩ := openingMark?_eq_some ho
      refine ⟨body, rest, rfl, hs, hw, ?_⟩
      intro other behind hother
      obtain ⟨tail, rfl⟩ := hpre
      unfold markAt?
      rw [hany other behind hother, List.append_assoc, hn.closingMark?_eq_none]
    · simp at h

/-- A `<` that begins no mark in a window begins none in a shorter one. -/
theorem markAt?_eq_none {left less : Nat} {text : Text} (h : markAt? left text = .ok none)
    (hl : less ≤ left) : markAt? less text = .ok none := by
  unfold markAt? at h
  split at h
  · simp at h
  · simp at h
  · next hc =>
    split at h
    · simp at h
    · simp at h
    · next ho =>
      unfold markAt?
      rw [closingMark?_eq_none hc hl, openingMark?_eq_none ho]

/-- An opening tag is recognised as such only where no closing tag is. -/
theorem markAt?_opening {left : Nat} {text : Text} {m : OpeningMark}
    (h : markAt? left text = .ok (some (.opening m))) : openingMark? left text = .ok (some m) := by
  unfold markAt? at h
  split at h
  · simp at h
  · simp at h
  · split at h
    · simp at h
    · next o ho =>
      obtain rfl : o = m := by simpa using h
      exact ho
    · simp at h

/-- Within the text a run can always be measured. -/
theorem runLength_isOk (p : Char → Bool) {left : Nat} {text : Text} (h : left ≤ text.length) :
    ∃ n, runLength p left text = .ok n := by
  induction text generalizing left with
  | nil =>
    obtain rfl : left = 0 := by simpa using h
    exact ⟨0, by simp [runLength]⟩
  | cons c rest ih =>
    cases left with
    | zero => exact ⟨0, by simp [runLength]⟩
    | succ left =>
      obtain ⟨n, hn⟩ := ih (show left ≤ rest.length by simpa using h)
      by_cases hc : p c = true
      · exact ⟨n + 1, by simp [runLength, hc, hn]⟩
      · exact ⟨0, by simp [runLength, hc]⟩

/-- Within the text the search for a closing quote does not run off the text. -/
theorem quoteEnd_ne_outOfText {quote : Char} {left : Nat} {text : Text} (h : left ≤ text.length) :
    quoteEnd quote left text ≠ .outOfText := by
  have skip_ne {n : Nat} {e : QuoteEnd} (he : e ≠ .outOfText) : e.skip n ≠ .outOfText := by
    cases e <;> simp_all [QuoteEnd.skip]
  fun_induction quoteEnd quote left text with
  | case1 => simp
  | case2 => simp at h
  | case3 left c rest hc ih =>
    refine skip_ne (ih ?_)
    simp only [List.length_cons, List.length_drop] at h ⊢
    omega
  | case4 => simp
  | case5 left c rest hc hq ih => exact skip_ne (ih (by simpa using h))

/-- The failure is a malformed attribute. -/
def Failure.IsMalformedAttribute (e : Failure) : Prop := ∃ f, e = .fault f ∧ f.cause.kind = .malformedAttribute

/-- The failure is a malformed attribute, shown by characters that end at `stop` or before. -/
def Failure.IsMalformedBefore (stop : Nat) (e : Failure) : Prop :=
  ∃ f, e = .fault f ∧ f.cause.kind = .malformedAttribute ∧ f.extent.start < f.extent.stop ∧ f.extent.stop ≤ stop

theorem Failure.isMalformedBefore_because {cause : Cause} {start stop bound : Nat}
    (hk : cause.kind = .malformedAttribute) (hlt : start < stop) (hle : stop ≤ bound) :
    (Failure.because cause start stop).IsMalformedBefore bound :=
  ⟨_, rfl, hk, hlt, hle⟩

theorem Failure.IsMalformedBefore.isMalformedAttribute {stop : Nat} {e : Failure} (h : e.IsMalformedBefore stop) :
    e.IsMalformedAttribute := by
  obtain ⟨f, hf, hk, -⟩ := h
  exact ⟨f, hf, hk⟩

/-- Within the text the search for the end of a tag fails for a quote or a bracket that it has met. -/
theorem tagEnd_error {brackets : List OpenBracket} {offset left : Nat} {text : Text} {e : Failure}
    (h : tagEnd brackets offset left text = .error e) (hl : left ≤ text.length)
    (hb : ∀ b ∈ brackets, b.offset < offset) : e.IsMalformedBefore (offset + left) := by
  fun_induction tagEnd brackets offset left text with
  | case1 => simp at h
  | case2 offset text b outer =>
    obtain rfl := Except.error.inj h
    have hoffset := hb b List.mem_cons_self
    exact Failure.isMalformedBefore_because rfl (Nat.lt_succ_self _) (by omega)
  | case3 => simp at hl
  | case4 brackets offset left c rest hc size hq ih =>
    obtain ⟨body, behind, rfl, -, rfl, hsize⟩ := quotedRest_of_quoteEnd hq
    have hi := ih h (by simp at hl ⊢; omega) fun b hmem => by have := hb b hmem; omega
    rwa [show offset + 1 + body.length + (left - body.length) = offset + (left + 1) by omega] at hi
  | case5 =>
    obtain rfl := Except.error.inj h
    exact Failure.isMalformedBefore_because rfl (Nat.lt_succ_self _) (by omega)
  | case6 brackets offset left c rest hc hq => exact absurd hq (quoteEnd_ne_outOfText (by simpa using hl))
  | case7 brackets offset left c rest hc closer ho ih =>
    have hall : ∀ b ∈ (⟨closer, offset⟩ :: brackets : List OpenBracket), b.offset < offset + 1 :=
      List.forall_mem_cons.mpr ⟨Nat.lt_succ_self _, fun b hmem => Nat.lt_succ_of_lt (hb b hmem)⟩
    have hi := ih h (by simpa using hl) hall
    rwa [Nat.add_right_comm] at hi
  | case8 => simp at h
  | case9 offset left c rest hc ho hgt ih =>
    have hi := ih h (by simpa using hl) (by simp)
    rwa [Nat.add_right_comm] at hi
  | case10 offset left c rest hc ho b outer hcloser ih =>
    have hi := ih h (by simpa using hl) fun b hmem => Nat.lt_succ_of_lt (hb b (List.mem_cons_of_mem _ hmem))
    rwa [Nat.add_right_comm] at hi
  | case11 offset left c rest hc ho b outer hcloser ih =>
    have hi := ih h (by simpa using hl) fun b hmem => Nat.lt_succ_of_lt (hb b hmem)
    rwa [Nat.add_right_comm] at hi

/-- Within the text an opening tag is at fault for a quote or a bracket in it, or for its end. In the second case the
fault is shown at the `<` and the name, even if the name reaches out of the window. -/
theorem openingMark?_error {left : Nat} {text : Text} {e : Failure}
    (h : openingMark? left text = .error e) (hl : left ≤ text.length) :
    e.IsMalformedBefore (text.length + 1) ∨
      ∃ name, e = .because (.tagNotEnded name) 0 (name.length + 1) ∧ name.length ≤ text.length := by
  unfold openingMark? at h
  split at h
  · simp at h
  · next initial more hname =>
    obtain ⟨-, behind, rfl⟩ := isTagName_of_tagName hname
    have hnotEnded : (initial :: more).length ≤ (initial :: more ++ behind).length := by simp
    dsimp only at h
    rw [List.drop_left] at h
    split at h
    · exact .inr ⟨initial :: more, (Except.error.inj h).symm, hnotEnded⟩
    · next c following =>
      split at h
      · split at h
        · next he =>
          obtain rfl := Except.error.inj h
          obtain ⟨f, hf, hk, hlt, hle⟩ := tagEnd_error he (by simp at hl ⊢; omega) (by simp)
          refine .inl ⟨f, hf, hk, hlt, ?_⟩
          simp only [List.length_cons, List.length_append] at hl hle ⊢
          omega
        · exact .inr ⟨initial :: more, (Except.error.inj h).symm, hnotEnded⟩
        · simp at h
      · simp at h

/-- Within the text it is always known whether a closing mark stands there. -/
theorem closingMark?_isOk {left : Nat} {text : Text} (h : left ≤ text.length) :
    ∃ found, closingMark? left text = .ok found := by
  unfold closingMark?
  split
  · exact ⟨none, rfl⟩
  · simp at h
  · next left c rest =>
    split
    · split
      · exact ⟨none, rfl⟩
      · next initial more hname =>
        have hl : left - (initial :: more).length ≤ (rest.drop (initial :: more).length).length := by
          simp only [List.length_drop, List.length_cons] at h ⊢
          omega
        obtain ⟨n, hn⟩ := runLength_isOk isBlank hl
        dsimp only
        unfold blanksToEnd?
        rw [hn]
        dsimp only
        split
        · next hx => split at hx <;> simp at hx
        · exact ⟨none, rfl⟩
        · exact ⟨_, rfl⟩
    · exact ⟨none, rfl⟩

/-- An opening tag in a window within its text is refused for a fault only. -/
theorem openingMark?_isFault {left : Nat} {text : Text} {e : Failure}
    (h : openingMark? left text = .error e) (hl : left ≤ text.length) : ∃ f, e = .fault f := by
  rcases openingMark?_error h hl with ⟨f, hf, -⟩ | ⟨name, rfl, -⟩
  · exact ⟨f, hf⟩
  · exact ⟨_, rfl⟩

/-- Within the text only opening tags are at fault by themselves. -/
theorem markAt?_error {left : Nat} {text : Text} {e : Failure} (h : markAt? left text = .error e)
    (hl : left ≤ text.length) : openingMark? left text = .error e ∧ ∃ f, e = .fault f := by
  obtain ⟨found, hf⟩ := closingMark?_isOk hl
  unfold markAt? at h
  rw [hf] at h
  cases found with
  | some m => simp at h
  | none =>
    dsimp only at h
    split at h
    · next he =>
      obtain rfl : _ = e := by simpa using h
      exact ⟨he, openingMark?_isFault he hl⟩
    · simp at h
    · simp at h

end ComponentTags
