import ComponentTags.Report
import ComponentTags.Proofs.FaultCharacters
import ComponentTags.Proofs.LineCounting

/-!
# The line that a report quotes

A report gives the place of a fault by a line that ends at line feeds, and it quotes the line of that number among the
lines as a reader sees them, which end at other characters too. Both are the same line exactly if no such character
comes before the line or stands in the midst of it. A carriage return right before a line feed does no harm, since the
two are one line break for a reader.

If the quoted line is the right one, the first mark below it stands under the character at which the fault is shown.
Where it is not, the line that is quoted may still have the same characters by chance; this is why the place of the
quoted line is part of what is said here.
-/

namespace ComponentTags

/-- Every line break of the text is a line feed, or a carriage return right before one. -/
def FeedsOnly (text : Text) : Prop :=
  ∀ front c rest, text = front ++ c :: rest → isLineBreak c = true → c = '\n' ∨ c = '\r' ∧ rest.head? = some '\n'

/-- The only line break in the line is its last character, and that is no carriage return. -/
def Unbroken (line : Text) : Prop :=
  ∀ front c rest, line = front ++ c :: rest → isLineBreak c = true → c ≠ '\r' ∧ rest = []

/-- The text is empty or ends with a line feed. -/
def EndsLine (text : Text) : Prop := ∀ c ∈ text.getLast?, c = '\n'

/-- What stands before the line of a place. Lines end at line feeds. -/
def beforeLine (text : Text) (place : Nat) : Text := text.take (place - (lastLine (text.take place)).length)

/-- The line of a place without its end, which is a line feed or a carriage return with a line feed. -/
def lineAt (text : Text) (place : Nat) : Text :=
  let rest := text.drop (place - (lastLine (text.take place)).length)
  let line := rest.takeWhile (· != '\n')
  if line.length < rest.length ∧ line.getLast? = some '\r' then line.dropLast else line

theorem feedsOnly_nil : FeedsOnly [] := by
  intro front c rest htext
  exact absurd htext.symm (by simp)

/-- One character more in front: if it breaks the line, it is a line feed or a carriage return before one. -/
theorem feedsOnly_cons {c : Char} {rest : Text} :
    FeedsOnly (c :: rest) ↔
      (isLineBreak c = true → c = '\n' ∨ c = '\r' ∧ rest.head? = some '\n') ∧ FeedsOnly rest := by
  constructor
  · intro h
    refine ⟨fun hc => h [] c rest rfl hc, fun front d behind htext hd => ?_⟩
    exact h (c :: front) d behind (by rw [htext]; rfl) hd
  · rintro ⟨hfirst, hrest⟩ front d behind htext hd
    cases front with
    | nil =>
      obtain ⟨rfl, rfl⟩ := List.cons.inj htext
      exact hfirst hd
    | cons first front => exact hrest front d behind (List.cons.inj htext).2 hd

/-- The back of a text that ends its line does so too. -/
theorem EndsLine.of_cons {c : Char} {rest : Text} (h : EndsLine (c :: rest)) : EndsLine rest := by
  intro d hd
  exact h d (by rw [List.getLast?_cons, Option.mem_def.mp hd]; rfl)

/-- A text that ends its line does not end with another character. -/
theorem EndsLine.ne_nil_of_cons {c : Char} {rest : Text} (h : EndsLine (c :: rest)) (hc : c ≠ '\n') : rest ≠ [] := by
  rintro rfl
  exact hc (h c rfl)

section Lines

variable {c : Char} {front rest : Text}

/-- A line break alone is a line, unless it is a carriage return before a line feed. -/
theorem linesOf_break (hc : isLineBreak c = true) (hr : c = '\r' → rest.head? ≠ some '\n') :
    linesOf (c :: rest) = [c] :: linesOf rest := by
  rw [linesOf_cons hr, if_pos hc]

/-- A character that breaks no line stands in front of the first line. -/
theorem linesOf_character (hc : isLineBreak c = false) {first : Text} {others : List Text}
    (h : linesOf rest = first :: others) : linesOf (c :: rest) = (c :: first) :: others := by
  have hr : c ≠ '\r' := by
    rintro rfl
    exact absurd hc (by decide)
  rw [linesOf_cons fun heq => absurd heq hr, if_neg (by simp [hc]), h]

/-- No line is empty: it has at least its break. -/
theorem ne_nil_of_mem_linesOf {text line : Text} (h : line ∈ linesOf text) : line ≠ [] := by
  fun_induction linesOf text with
  | case1 => simp at h
  | case2 rest ih =>
    rcases List.mem_cons.mp h with rfl | hother
    · exact List.cons_ne_nil _ _
    · exact ih hother
  | case3 c rest _ _ ih =>
    rcases List.mem_cons.mp h with rfl | hother
    · exact List.cons_ne_nil _ _
    · exact ih hother
  | case4 c rest _ _ hnone ih =>
    rw [List.mem_singleton.mp h]
    exact List.cons_ne_nil _ _
  | case5 c rest _ _ first lines hlines ih =>
    rcases List.mem_cons.mp h with rfl | hother
    · exact List.cons_ne_nil _ _
    · exact ih (by rw [hlines]; exact List.mem_cons_of_mem _ hother)

/-- Only the empty text has no lines. -/
theorem eq_nil_of_linesOf {text : Text} (h : linesOf text = []) : text = [] := by
  rw [← flatten_linesOf text, h]
  rfl

theorem ne_feed_of_not_isLineBreak (hc : ¬isLineBreak c = true) : c ≠ '\n' := by
  rintro rfl
  exact hc (by decide)

/-- Behind a line feed the lines are those of what follows it. -/
theorem linesOf_append (h : EndsLine front) (rest : Text) :
    linesOf (front ++ rest) = linesOf front ++ linesOf rest := by
  fun_induction linesOf front with
  | case1 => rfl
  | case2 front ih =>
    rw [List.cons_append, List.cons_append, linesOf_pair, ih h.of_cons.of_cons]
    rfl
  | case3 c front hpair hbreak ih =>
    have hfollows : c = '\r' → (front ++ rest).head? ≠ some '\n' := by
      intro hc hhead
      cases front with
      | nil => exact absurd (h c rfl) (by rw [hc]; decide)
      | cons d front => exact hpair front hc (by rw [List.head?_append] at hhead; simpa using hhead)
    rw [List.cons_append, linesOf_break hbreak hfollows, ih h.of_cons]
    rfl
  | case4 c front _ hbreak hnone ih =>
    exact absurd (eq_nil_of_linesOf hnone) (h.ne_nil_of_cons (ne_feed_of_not_isLineBreak hbreak))
  | case5 c front _ hbreak line lines hlines ih =>
    have hbehind := ih h.of_cons
    rw [hlines] at hbehind
    rw [List.cons_append, linesOf_character (by simpa using hbreak) hbehind]
    rfl

/-- A text that ends with a line feed has at least as many lines as line feeds, and no more exactly if it has no other
line breaks. -/
theorem length_linesOf (h : EndsLine front) :
    front.count '\n' ≤ (linesOf front).length ∧ ((linesOf front).length = front.count '\n' ↔ FeedsOnly front) := by
  fun_induction linesOf front with
  | case1 => exact ⟨Nat.le_refl 0, fun _ => feedsOnly_nil, fun _ => rfl⟩
  | case2 front ih =>
    obtain ⟨hle, hiff⟩ := ih h.of_cons.of_cons
    have hcount : ('\r' :: '\n' :: front).count '\n' = front.count '\n' + 1 := by
      rw [List.count_cons_of_ne (by decide), List.count_cons_self]
    rw [hcount, List.length_cons, feedsOnly_cons, feedsOnly_cons, ← hiff]
    refine ⟨by omega, fun heq => ⟨fun _ => .inr ⟨rfl, rfl⟩, fun _ => .inl rfl, by omega⟩, fun hfeeds => ?_⟩
    rw [hfeeds.2.2]
  | case3 c front hpair hbreak ih =>
    obtain ⟨hle, hiff⟩ := ih h.of_cons
    rw [List.length_cons, feedsOnly_cons, ← hiff]
    by_cases hc : c = '\n'
    · rw [hc, List.count_cons_self]
      refine ⟨by omega, fun heq => ⟨fun _ => .inl rfl, by omega⟩, fun hfeeds => ?_⟩
      rw [hfeeds.2]
    · rw [List.count_cons_of_ne hc]
      refine ⟨by omega, fun heq => by omega, fun hfeeds => ?_⟩
      rcases hfeeds.1 hbreak with hfeed | ⟨hreturn, hhead⟩
      · exact absurd hfeed hc
      · obtain ⟨behind, hbehind⟩ := List.head?_eq_some_iff.mp hhead
        exact (hpair behind hreturn hbehind).elim
  | case4 c front _ hbreak hnone ih =>
    exact absurd (eq_nil_of_linesOf hnone) (h.ne_nil_of_cons (ne_feed_of_not_isLineBreak hbreak))
  | case5 c front _ hbreak line lines hlines ih =>
    obtain ⟨hle, hiff⟩ := ih h.of_cons
    rw [hlines, List.length_cons] at hle hiff
    rw [List.count_cons_of_ne (ne_feed_of_not_isLineBreak hbreak), List.length_cons, feedsOnly_cons, ← hiff]
    exact ⟨hle, fun heq => ⟨fun hb => absurd hb hbreak, heq⟩, fun hfeeds => hfeeds.2⟩

/-- The lines of as many line breaks as there are line feeds in a text are that text exactly if it has no other line
breaks; otherwise they end before it does. -/
theorem flatten_take_linesOf_iff (h : EndsLine front) (rest : Text) :
    ((linesOf (front ++ rest)).take (front.count '\n')).flatten = front ↔ FeedsOnly front := by
  obtain ⟨hle, hiff⟩ := length_linesOf h
  rw [linesOf_append h, List.take_append_of_le_length hle, ← hiff]
  constructor
  · intro hfront
    by_contra hne
    have hdropped : (linesOf front).drop (front.count '\n') ≠ [] := by
      rw [Ne, List.drop_eq_nil_iff]
      omega
    obtain ⟨line, others, hcons⟩ := List.exists_cons_of_ne_nil hdropped
    have hline : line ≠ [] := ne_nil_of_mem_linesOf (List.mem_of_mem_drop (hcons ▸ List.mem_cons_self))
    have hwhole : ((linesOf front).take (front.count '\n') ++ (linesOf front).drop (front.count '\n')).flatten =
        front := by
      rw [List.take_append_drop, flatten_linesOf]
    rw [List.flatten_append, hfront, hcons, List.flatten_cons] at hwhole
    have hnil : line ++ others.flatten = [] := by simpa using hwhole
    exact hline (List.append_eq_nil_iff.mp hnil).1
  · intro heq
    rw [List.take_of_length_le (Nat.le_of_eq heq), flatten_linesOf]

end Lines

/-- A character that is trimmed may stand at the end once more. -/
theorem trimEnd_append_singleton (c : Char) (text : Text) : trimEnd c (text ++ [c]) = trimEnd c text := by
  simp [trimEnd]

/-- A text that does not end with the character is not trimmed. -/
theorem trimEnd_eq_self {c : Char} {text : Text} (h : ∀ d ∈ text.getLast?, d ≠ c) : trimEnd c text = text := by
  rcases List.eq_nil_or_concat text with rfl | ⟨front, d, rfl⟩
  · rfl
  · have hd : d ≠ c := h d (by simp)
    simp [trimEnd, hd]

/-- Behind text that ends with a line feed and has no other line breaks, the quoted lines are those of the rest. -/
theorem quotedLine_append {front : Text} (h : EndsLine front) (hf : FeedsOnly front) (rest : Text) :
    quotedLine (front ++ rest) (front.count '\n' + 1 : Nat) = quotedLine rest 1 := by
  have hlength := (length_linesOf h).2.mpr hf
  have hplace : (linesOf (front ++ rest))[front.count '\n']? = (linesOf rest)[0]? := by
    rw [linesOf_append h, List.getElem?_append_right (Nat.le_of_eq hlength), hlength, Nat.sub_self]
  have hindex : ((front.count '\n' + 1 : Nat) - 1 : Int).toNat = front.count '\n' := by omega
  rw [quotedLine, if_pos (by omega), hindex, hplace, quotedLine, if_pos (by decide)]
  rfl

section FirstLine

variable {run rest : Text}

/-- Characters before a line are part of it. -/
theorem linesOf_run_append (hr : ∀ c ∈ run, isLineBreak c = false) {first : Text} {others : List Text}
    (h : linesOf rest = first :: others) : linesOf (run ++ rest) = (run ++ first) :: others := by
  induction run with
  | nil => exact h
  | cons c run ih =>
    rw [List.forall_mem_cons] at hr
    rw [List.cons_append, linesOf_character hr.1 (ih hr.2)]
    rfl

/-- The first line is quoted without its break. -/
theorem quotedLine_one {first : Text} {others : List Text} (h : linesOf rest = first :: others) :
    quotedLine rest 1 = trimEnd '\r' (trimEnd '\n' first) := by
  rw [quotedLine, if_pos (by decide)]
  simp [h]

/-- Without line breaks nothing is cut off. -/
theorem trimEnd_run {d : Char} (hr : ∀ c ∈ run, isLineBreak c = false) (hd : isLineBreak d = true) :
    trimEnd d run = run := by
  refine trimEnd_eq_self fun c hc hcd => ?_
  rw [← hcd, hr c (List.mem_of_getLast? hc)] at hd
  cases hd

/-- A text without line breaks is one line. -/
theorem linesOf_run (hr : ∀ c ∈ run, isLineBreak c = false) (hne : run ≠ []) : linesOf run = [run] := by
  induction run with
  | nil => exact absurd rfl hne
  | cons c run ih =>
    rw [List.forall_mem_cons] at hr
    cases run with
    | nil =>
      rw [linesOf_cons (by simp), if_neg (by simp [hr.1])]
      rfl
    | cons d run => exact linesOf_character hr.1 (ih hr.2 (List.cons_ne_nil d run))

/-- A text without line breaks is its own first line. -/
theorem quotedLine_run (hr : ∀ c ∈ run, isLineBreak c = false) : quotedLine run 1 = run := by
  by_cases hne : run = []
  · rw [hne]
    rfl
  · rw [quotedLine_one (linesOf_run hr hne), trimEnd_run hr (by decide), trimEnd_run hr (by decide)]

/-- A line is quoted up to its break; a line feed and a carriage return are cut off. -/
theorem quotedLine_break {c : Char} (hr : ∀ c ∈ run, isLineBreak c = false) (hc : isLineBreak c = true) :
    quotedLine (run ++ c :: rest) 1 = if c = '\n' ∨ c = '\r' then run else run ++ [c] := by
  have hfeed : trimEnd '\n' run = run := trimEnd_run hr (by decide)
  have hreturn : trimEnd '\r' run = run := trimEnd_run hr (by decide)
  have hkeep : trimEnd '\n' (run ++ ['\r']) = run ++ ['\r'] := trimEnd_eq_self (by simp)
  by_cases hpair : c = '\r' ∧ rest.head? = some '\n'
  · obtain ⟨rfl, hhead⟩ := hpair
    obtain ⟨behind, rfl⟩ := List.head?_eq_some_iff.mp hhead
    have hsplit : run ++ ['\r', '\n'] = run ++ ['\r'] ++ ['\n'] := by simp
    rw [quotedLine_one (linesOf_run_append hr (linesOf_pair behind)), hsplit, trimEnd_append_singleton, hkeep,
      trimEnd_append_singleton, hreturn, if_pos (.inr rfl)]
  · have hlines : linesOf (c :: rest) = [c] :: linesOf rest :=
      linesOf_break hc fun hreturn hhead => hpair ⟨hreturn, hhead⟩
    rw [quotedLine_one (linesOf_run_append hr hlines)]
    by_cases hn : c = '\n'
    · rw [if_pos (.inl hn), hn, trimEnd_append_singleton, hfeed, hreturn]
    · by_cases hret : c = '\r'
      · rw [if_pos (.inr hret), hret, hkeep, trimEnd_append_singleton, hreturn]
      · have hkeepAll {d : Char} (hd : c ≠ d) : trimEnd d (run ++ [c]) = run ++ [c] :=
          trimEnd_eq_self (by simpa using hd)
        rw [if_neg (not_or.mpr ⟨hn, hret⟩), hkeepAll hn, hkeepAll hret]

/-- The first line of a text, up to a line feed or a carriage return with one, is quoted whole exactly if it is
unbroken. -/
theorem quotedLine_eq_iff {line behind : Text} (hl : '\n' ∉ line) (hb : ∀ c ∈ behind.head?, c = '\n' ∨ c = '\r') :
    quotedLine (line ++ behind) 1 = line ↔ Unbroken line := by
  obtain ⟨run, tail, rfl, hrun, htail⟩ := exists_run (!isLineBreak ·) line
  have hplain : ∀ c ∈ run, isLineBreak c = false := fun c hc => by simpa using hrun c hc
  cases tail with
  | nil =>
    rw [List.append_nil] at hl ⊢
    have hquoted : quotedLine (run ++ behind) 1 = run := by
      cases behind with
      | nil => rw [List.append_nil, quotedLine_run hplain]
      | cons c behind =>
        have hc := hb c rfl
        have hbreak : isLineBreak c = true := by rcases hc with rfl | rfl <;> decide
        rw [quotedLine_break hplain hbreak, if_pos hc]
    refine ⟨fun _ front c rest htext hbreak => ?_, fun _ => hquoted⟩
    rw [hplain c (by rw [htext]; simp)] at hbreak
    cases hbreak
  | cons c tail =>
    have hbreak : isLineBreak c = true := by simpa using htail c rfl
    have hn : c ≠ '\n' := by
      rintro rfl
      simp at hl
    rw [List.append_assoc, List.cons_append, quotedLine_break hplain hbreak]
    constructor
    · intro hquoted
      split at hquoted
      · exact absurd hquoted (by simp)
      · next hother =>
        have hnil : tail = [] := by simpa using hquoted.symm
        rw [hnil]
        intro front d rest htext hd
        rcases List.eq_nil_or_concat rest with rfl | ⟨rest, e, rfl⟩
        · have hcd : c = d := by simpa using (List.append_inj' htext rfl).2
          exact ⟨fun hret => hother (.inr (hcd.trans hret)), rfl⟩
        · have hrun' : run = front ++ d :: rest := by
            have hsplit : run ++ [c] = (front ++ d :: rest) ++ [e] := by simpa using htext
            exact (List.append_inj' hsplit rfl).1
          rw [hplain d (by rw [hrun']; simp)] at hd
          cases hd
    · intro hunbroken
      obtain ⟨hret, rfl⟩ := hunbroken run c tail rfl hbreak
      rw [if_neg (not_or.mpr ⟨hn, hret⟩)]

end FirstLine

/-- A text consists of whole lines and of what is behind its last line feed. -/
theorem exists_lastLine (text : Text) :
    ∃ front, text = front ++ lastLine text ∧ EndsLine front ∧ '\n' ∉ lastLine text := by
  refine ⟨(text.reverse.dropWhile (· != '\n')).reverse, ?_, ?_, ?_⟩
  · rw [lastLine, ← List.reverse_append, List.takeWhile_append_dropWhile, List.reverse_reverse]
  · intro c hc
    have hhead := List.head?_dropWhile_not (· != '\n') text.reverse
    rw [List.getLast?_reverse] at hc
    rw [hc] at hhead
    simpa using hhead
  · intro hmem
    rw [lastLine, List.mem_reverse] at hmem
    have hnot := List.mem_takeWhile_imp hmem
    simp at hnot

section Place

variable {text : Text} {place : Nat}

/-- A place stands behind the last line feed before it by the characters of its line. -/
theorem beforeLine_append (hp : place ≤ text.length) :
    text.take place = beforeLine text place ++ lastLine (text.take place) ∧ EndsLine (beforeLine text place) ∧
      text.drop (place - (lastLine (text.take place)).length) = lastLine (text.take place) ++ text.drop place := by
  obtain ⟨front, hfront, hends, -⟩ := exists_lastLine (text.take place)
  have hlength : place = front.length + (lastLine (text.take place)).length := by
    have hsplit := congrArg List.length hfront
    rwa [List.length_append, List.length_take, Nat.min_eq_left hp] at hsplit
  have hstart : place - (lastLine (text.take place)).length = front.length := by omega
  have htext : text = front ++ (lastLine (text.take place) ++ text.drop place) := by
    rw [← List.append_assoc, ← hfront, List.take_append_drop]
  have hbefore : beforeLine text place = front := by
    rw [beforeLine, hstart]
    generalize lastLine (text.take place) ++ text.drop place = rest at htext
    rw [htext, List.take_left]
  rw [hbefore, hstart]
  refine ⟨hfront, hends, ?_⟩
  generalize lastLine (text.take place) ++ text.drop place = rest at htext ⊢
  rw [htext, List.drop_left]

/-- The line of a place, with its end and what follows that. -/
theorem lineAt_append (text : Text) (place : Nat) :
    ∃ behind, text = beforeLine text place ++ (lineAt text place ++ behind) ∧ '\n' ∉ lineAt text place ∧
      ∀ c ∈ behind.head?, c = '\n' ∨ c = '\r' := by
  rw [beforeLine, lineAt]
  generalize place - (lastLine (text.take place)).length = start
  have hrest : (text.drop start).takeWhile (· != '\n') ++ (text.drop start).dropWhile (· != '\n') = text.drop start :=
    List.takeWhile_append_dropWhile
  have hline : '\n' ∉ (text.drop start).takeWhile (· != '\n') := by
    intro hmem
    have hnot := List.mem_takeWhile_imp hmem
    simp at hnot
  split
  · next hreturn =>
    obtain ⟨line, hsplit⟩ := List.getLast?_eq_some_iff.mp hreturn.2
    rw [hsplit] at hrest hline ⊢
    rw [List.dropLast_concat]
    refine ⟨'\r' :: (text.drop start).dropWhile (· != '\n'), ?_, fun hmem => hline (by simp [hmem]), by simp⟩
    have hbehind : line ++ '\r' :: (text.drop start).dropWhile (· != '\n') = text.drop start := by simpa using hrest
    rw [hbehind, List.take_append_drop]
  · refine ⟨(text.drop start).dropWhile (· != '\n'), ?_, hline, fun c hc => ?_⟩
    · rw [hrest, List.take_append_drop]
    · have hhead := List.head?_dropWhile_not (· != '\n') (text.drop start)
      rw [hc] at hhead
      exact .inl (by simpa using hhead)

/-- A character that is no blank stands on its line as far from the start as the place does from the last line feed. -/
theorem getElem?_lineAt {c : Char} (hc : text[place]? = some c) (hb : isBlank c = false) :
    (lineAt text place)[(lastLine (text.take place)).length]? = some c := by
  obtain ⟨hlt, hat⟩ := List.getElem?_eq_some_iff.mp hc
  have hdrop := (beforeLine_append (Nat.le_of_lt hlt)).2.2
  have hplace : text.drop place = c :: text.drop (place + 1) := by rw [List.drop_eq_getElem_cons hlt, hat]
  have hn : c ≠ '\n' := by
    rintro rfl
    exact absurd hb (by decide)
  have hr : c ≠ '\r' := by
    rintro rfl
    exact absurd hb (by decide)
  obtain ⟨-, -, -, hlast⟩ := exists_lastLine (text.take place)
  have hpass : ∀ d ∈ lastLine (text.take place), (d != '\n') = true := by
    intro d hd
    simp only [bne_iff_ne]
    rintro rfl
    exact hlast hd
  have hline : (text.drop (place - (lastLine (text.take place)).length)).takeWhile (· != '\n') =
      lastLine (text.take place) ++ c :: (text.drop (place + 1)).takeWhile (· != '\n') := by
    rw [hdrop, hplace, List.takeWhile_append_of_pos hpass, List.takeWhile_cons, if_pos (by simpa using hn)]
  rw [lineAt, hline]
  generalize (text.drop (place + 1)).takeWhile (· != '\n') = more
  have hwhole : (lastLine (text.take place) ++ c :: more)[(lastLine (text.take place)).length]? = some c := by simp
  split
  · next hreturn =>
    have hmore : more ≠ [] := by
      rintro rfl
      exact hr (by simpa using hreturn.2)
    have hpos := List.length_pos_iff.mpr hmore
    rw [List.getElem?_dropLast, if_pos (by rw [List.length_append, List.length_cons]; omega), hwhole]
  · exact hwhole

end Place

/-- The line of a place is one more than the line feeds before that line. -/
theorem count_beforeLine {text : Text} {place : Nat} (hp : place ≤ text.length) :
    (beforeLine text place).count '\n' = (text.take place).count '\n' := by
  obtain ⟨-, -, -, hlast⟩ := exists_lastLine (text.take place)
  rw [(beforeLine_append hp).1, List.count_append, List.count_eq_zero.mpr hlast, Nat.add_zero]

/-- The lines before the quoted one are what stands before the line of the place, and its characters are quoted. -/
def QuotesLine (text : Text) (place : Nat) : Prop :=
  let line := ((LineIndex.ofText text).position place).line
  ((linesOf text).take (line - 1).toNat).flatten = beforeLine text place ∧ quotedLine text line = lineAt text place

/-- The line of a place is quoted exactly if no other line break than a line feed, alone or behind a carriage return,
comes before the line, and none stands in it. -/
theorem quotesLine_iff {text : Text} {place : Nat} (hp : place ≤ text.length) :
    QuotesLine text place ↔ FeedsOnly (beforeLine text place) ∧ Unbroken (lineAt text place) := by
  obtain ⟨behind, htext, hline, hbehind⟩ := lineAt_append text place
  have hends := (beforeLine_append hp).2.1
  have hposition : ((LineIndex.ofText text).position place).line = ((beforeLine text place).count '\n' + 1 : Nat) := by
    rw [LineIndex.position_ofText, count_beforeLine hp]
  have hindex : (((beforeLine text place).count '\n' + 1 : Nat) - 1 : Int).toNat =
      (beforeLine text place).count '\n' := by omega
  have hplace := flatten_take_linesOf_iff hends (lineAt text place ++ behind)
  rw [← htext] at hplace
  rw [QuotesLine, hposition, hindex, hplace]
  refine and_congr_right fun hfeeds => ?_
  have hquoted := quotedLine_append hends hfeeds (lineAt text place ++ behind)
  rw [← htext] at hquoted
  rw [hquoted, quotedLine_eq_iff hline hbehind]

/-- The last two lines of a report. -/
theorem Fault.report_lines (f : Fault) (text name : Text) :
    let position := (LineIndex.ofText text).position f.extent.start
    let number := decimal position.line
    ∃ header more, f.report text name =
      header ++ "\n".toList ++
        (number ++ " | ".toList ++ quotedLine text position.line) ++ "\n".toList ++
        (List.replicate (number.length + 1) ' ' ++ "| ".toList ++ List.replicate (position.column.toNat - 1) ' ' ++
          '^' :: more) := by
  intro position number
  let span := (LineIndex.ofText text).span f.extent
  have hstart : span.start = position := rfl
  obtain ⟨marks, hmarks⟩ : ∃ n, markCount (quotedLine text position.line) span = n + 1 := by
    refine Nat.exists_eq_succ_of_ne_zero ?_
    dsimp only [markCount]
    omega
  have hcolumn : (position.column - 1).toNat = position.column.toNat - 1 := by omega
  refine ⟨"error[".toList ++ f.cause.kind.label ++ "]: ".toList ++ f.cause.message ++ "\n".toList ++
    (List.replicate (number.length + 1) ' ' ++ "--> ".toList ++ name ++ ":".toList ++ number ++ ":".toList ++
      decimal position.column) ++ "\n".toList ++ (List.replicate (number.length + 1) ' ' ++ "|".toList),
    List.replicate marks '^', ?_⟩
  rw [← hcolumn, ← List.replicate_succ, ← hmarks]
  have hbar : "|\n".toList = "|".toList ++ "\n".toList := rfl
  delta Fault.report ComponentTags.report
  simp only [hbar, List.append_assoc]
  rfl

/-- A report quotes a line behind the number of the line, and below it stands the first mark, as many characters in as
the column says. The quoted line is that of the fault exactly if no other line break than a line feed, alone or behind a
carriage return, comes before that line, and none stands in it. If it is, the first mark stands under the character at
which the fault is shown. -/
theorem report_quotes_line_iff {options : Options} {text : Text} {f : Fault}
    (h : expand options text = .error (.fault f)) (name : Text) :
    let place := f.extent.start
    let position := (LineIndex.ofText text).position place
    let quoted := quotedLine text position.line
    let number := decimal position.line
    let column := position.column.toNat
    (∃ header more, f.report text name =
        header ++ "\n".toList ++
          (number ++ " | ".toList ++ quoted) ++ "\n".toList ++
          (List.replicate (number.length + 1) ' ' ++ "| ".toList ++ List.replicate (column - 1) ' ' ++ '^' :: more)) ∧
      (QuotesLine text place ↔ FeedsOnly (beforeLine text place) ∧ Unbroken (lineAt text place)) ∧
      (QuotesLine text place → quoted = lineAt text place ∧
        ∃ c, quoted[column - 1]? = some c ∧ text[place]? = some c) := by
  intro place position quoted number column
  obtain ⟨f', c, hf, hc, hblank⟩ := expand_error_visible h
  obtain rfl := Failure.fault.inj hf
  obtain ⟨hlt, -⟩ := List.getElem?_eq_some_iff.mp hc
  have hcolumn : column - 1 = (lastLine (text.take place)).length := by
    have hposition : position.column = _ := congrArg Position.column (LineIndex.position_ofText text place)
    have hend : place - text.length = 0 := by omega
    dsimp only [column]
    rw [hposition, hend]
    dsimp only
    omega
  refine ⟨f.report_lines text name, quotesLine_iff (Nat.le_of_lt hlt), ?_⟩
  · rintro ⟨-, hquoted⟩
    refine ⟨hquoted, c, ?_, hc⟩
    rw [hcolumn, show quoted = lineAt text place from hquoted]
    exact getElem?_lineAt hc hblank

/-- The line behind two line breaks of two characters each, with an indented fault. -/
theorem report_quotes_line_iff_returns :
    let text := "a\r\n\r\n\tb</Card>\r\n".toList
    let f : Fault := ⟨.closesNothing "Card".toList, ⟨7, 14⟩⟩
    expand {} text = .error (.fault f) ∧ QuotesLine text 7 ∧ quotedLine text 3 = "\tb</Card>".toList ∧
      ∃ c, (quotedLine text 3)[2]? = some c ∧ text[7]? = some c := by
  intro text f
  have hfault : expand {} text = .error (.fault f) := by decide +kernel
  have hbefore : beforeLine text 7 = "a\r\n\r\n".toList := by decide +kernel
  have hline : lineAt text 7 = "\tb</Card>".toList := by decide +kernel
  have hfeeds : FeedsOnly (beforeLine text 7) := by
    rw [hbefore]
    simp [feedsOnly_cons, feedsOnly_nil, show isLineBreak 'a' = false from rfl]
  have hplain : ∀ c ∈ lineAt text 7, (!isLineBreak c) = true := by
    rw [hline]
    exact List.all_eq_true.mp (by decide)
  have hunbroken : Unbroken (lineAt text 7) := by
    intro front c rest hsplit hc
    have hnot := hplain c (by rw [hsplit]; simp)
    rw [hc] at hnot
    cases hnot
  obtain ⟨-, hquotes, hmarked⟩ := report_quotes_line_iff hfault "page.html".toList
  have hquoted : QuotesLine text 7 := hquotes.mpr ⟨hfeeds, hunbroken⟩
  have hposition : (LineIndex.ofText text).position (7 : Nat) = ⟨3, 3, 7⟩ := by decide +kernel
  have hmark := hmarked hquoted
  rw [show (f.extent.start : Int) = (7 : Nat) from rfl, hposition] at hmark
  exact ⟨hfault, hquoted, hmark.1.trans hline, hmark.2⟩

/-- A form feed is a line break for the quoted lines alone. The report then quotes what stands between it and the line
feed in place of the line of the fault. -/
theorem form_feed_shifts_quoted_line :
    let text := "a\x0c\n</B>".toList
    let f : Fault := ⟨.closesNothing "B".toList, ⟨3, 7⟩⟩
    expand {} text = .error (.fault f) ∧ ((LineIndex.ofText text).position 3).line = 2 ∧
      lineAt text 3 = "</B>".toList ∧ quotedLine text 2 = [] ∧
      f.report text "template.html".toList =
        "error[unmatched-closing-tag]: closing tag </B> has no matching open tag\n".toList ++
          "  --> template.html:2:1\n  |\n2 | \n  | ^^^^".toList := by
  decide +kernel

end ComponentTags
