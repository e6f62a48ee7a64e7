import ComponentTags.Proofs.TagFreeOutput
import ComponentTags.Text.Lines

/-!
# Line ends in texts without tags

When a template is read, each carriage return becomes a line feed, or goes away before one. A text stays what it was
exactly if it has no carriage return. Both characters are blanks, so a text without tags has none afterwards, and
expands to itself.

Texts with tags are not covered.
-/

namespace ComponentTags

/-- A carriage return becomes a line feed, whether or not one follows. -/
theorem exists_unifyLineEnds_return (text : Text) : ∃ rest, unifyLineEnds ('\r' :: text) = '\n' :: rest := by
  rw [unifyLineEnds.eq_def]
  split
  · next h => cases h
  · exact ⟨_, rfl⟩
  · next c rest _ h =>
    obtain ⟨rfl, -⟩ := List.cons.inj h
    exact ⟨unifyLineEnds rest, rfl⟩

/-- A character other than a carriage return is kept. -/
theorem unifyLineEnds_cons_of_ne {c : Char} (h : c ≠ '\r') (text : Text) :
    unifyLineEnds (c :: text) = c :: unifyLineEnds text := by
  rw [unifyLineEnds.eq_def]
  split
  · next hnil => cases hnil
  · next hpair => exact absurd (List.cons.inj hpair).1 h
  · next d rest _ hcons =>
    obtain ⟨rfl, rfl⟩ := List.cons.inj hcons
    simp [h]

/-- Text without carriage returns stays as it is, whatever follows. -/
theorem unifyLineEnds_append_of_notMem {front : Text} (h : '\r' ∉ front) (rest : Text) :
    unifyLineEnds (front ++ rest) = front ++ unifyLineEnds rest := by
  induction front with
  | nil => rfl
  | cons c front ih =>
    rw [List.mem_cons, not_or] at h
    rw [List.cons_append, unifyLineEnds_cons_of_ne (Ne.symm h.1), ih h.2, List.cons_append]

/-- No carriage return is left. -/
theorem return_notMem_unifyLineEnds (text : Text) : '\r' ∉ unifyLineEnds text := by
  fun_induction unifyLineEnds text with
  | case1 => simp
  | case2 rest ih => simp [ih]
  | case3 c rest _ ih =>
    by_cases hc : c = '\r'
    · simp [hc, ih]
    · simp [hc, ih, Ne.symm hc]

/-- The text stays as it is exactly if it has no carriage return. -/
theorem unifyLineEnds_eq_self_iff {text : Text} : unifyLineEnds text = text ↔ '\r' ∉ text := by
  constructor
  · intro h
    have hnone := return_notMem_unifyLineEnds text
    rwa [h] at hnone
  · intro h
    have hall := unifyLineEnds_append_of_notMem h []
    rw [List.append_nil] at hall
    exact hall.trans (List.append_nil text)

/-- The run of a class at the front of a text stays as it is, if line ends are not of that class. -/
theorem takeWhile_unifyLineEnds {p : Char → Bool} (hreturn : p '\r' = false) (hfeed : p '\n' = false) (text : Text) :
    (unifyLineEnds text).takeWhile p = text.takeWhile p := by
  induction text with
  | nil => rfl
  | cons c text ih =>
    by_cases hc : c = '\r'
    · subst hc
      obtain ⟨rest, hunified⟩ := exists_unifyLineEnds_return text
      rw [hunified, List.takeWhile_cons_of_neg (by simp [hfeed]), List.takeWhile_cons_of_neg (by simp [hreturn])]
    · rw [unifyLineEnds_cons_of_ne hc, List.takeWhile_cons, List.takeWhile_cons, ih]

/-- The name of a tag is the same with unified line ends. -/
theorem tagName_unifyLineEnds (text : Text) : tagName (unifyLineEnds text) = tagName text := by
  cases text with
  | nil => rfl
  | cons c text =>
    have hrun := takeWhile_unifyLineEnds (show isTagChar '\r' = false by decide) (by decide) text
    have hreturn : isTagStart '\r' = false := by decide
    have hfeed : isTagStart '\n' = false := by decide
    by_cases hc : c = '\r'
    · subst hc
      obtain ⟨rest, hunified⟩ := exists_unifyLineEnds_return text
      simp [hunified, tagName, hreturn, hfeed]
    · rw [unifyLineEnds_cons_of_ne hc, tagName, tagName, hrun]

/-- A text begins with the name that is read there. -/
theorem tagName_append_drop (text : Text) : tagName text ++ text.drop (tagName text).length = text := by
  cases hname : tagName text with
  | nil => rfl
  | cons initial more =>
    obtain ⟨-, rest, htext⟩ := isTagName_of_tagName hname
    rw [htext, List.drop_left]

theorem return_notMem_tagName (text : Text) : '\r' ∉ tagName text := by
  cases hname : tagName text with
  | nil => simp
  | cons initial more =>
    intro hmem
    have hchar := (isTagName_of_tagName hname).1.forall_isTagChar '\r' hmem
    exact absurd hchar (by decide)

/-- What follows the name is unified by itself. -/
theorem drop_tagName_unifyLineEnds (text : Text) :
    (unifyLineEnds text).drop (tagName text).length = unifyLineEnds (text.drop (tagName text).length) := by
  have hsplit := unifyLineEnds_append_of_notMem (return_notMem_tagName text) (text.drop (tagName text).length)
  rw [tagName_append_drop] at hsplit
  rw [hsplit, List.drop_left]

/-- No opening tag comes into being. -/
theorem openingMark?_unifyLineEnds {text : Text} {left other : Nat} (h : openingMark? left text = .ok none) :
    openingMark? other (unifyLineEnds text) = .ok none := by
  rw [openingMark?_eq_none_iff] at h ⊢
  rw [tagName_unifyLineEnds, drop_tagName_unifyLineEnds]
  rcases h with hnone | ⟨c, following, hc, hnot⟩
  · exact .inl hnone
  · have hne : c ≠ '\r' := by
      rintro rfl
      exact absurd hnot (by decide)
    exact .inr ⟨c, unifyLineEnds following, by rw [hc, unifyLineEnds_cons_of_ne hne], hnot⟩

/-- Characters other than line feeds stood there before. -/
theorem eq_append_of_unifyLineEnds {text front rest : Text} (hf : '\n' ∉ front)
    (h : unifyLineEnds text = front ++ rest) : ∃ before, text = front ++ before ∧ unifyLineEnds before = rest := by
  induction front generalizing text with
  | nil => exact ⟨text, rfl, h⟩
  | cons c front ih =>
    rw [List.mem_cons, not_or] at hf
    cases text with
    | nil => cases h
    | cons d text =>
      have hd : d ≠ '\r' := by
        rintro rfl
        obtain ⟨after, hunified⟩ := exists_unifyLineEnds_return text
        rw [hunified] at h
        exact hf.1 (List.cons.inj h).1
      rw [unifyLineEnds_cons_of_ne hd, List.cons_append] at h
      obtain ⟨rfl, hrest⟩ := List.cons.inj h
      obtain ⟨before, rfl, hbefore⟩ := ih hf.2 hrest
      exact ⟨before, rfl, hbefore⟩

/-- Blanks before a `>` were blanks before. -/
theorem blanks_of_unifyLineEnds {text blanks rest : Text} (hb : ∀ c ∈ blanks, isBlank c = true)
    (h : unifyLineEnds text = blanks ++ '>' :: rest) :
    ∃ before behind, text = before ++ '>' :: behind ∧ ∀ c ∈ before, isBlank c = true := by
  fun_induction unifyLineEnds text generalizing blanks with
  | case1 => simp at h
  | case2 text ih =>
    cases blanks with
    | nil => cases (List.cons.inj h).1
    | cons b blanks =>
      rw [List.forall_mem_cons] at hb
      obtain ⟨before, behind, rfl, hbefore⟩ := ih hb.2 (List.cons.inj h).2
      have hreturn : isBlank '\r' = true := by decide
      have hfeed : isBlank '\n' = true := by decide
      exact ⟨'\r' :: '\n' :: before, behind, rfl,
        List.forall_mem_cons.mpr ⟨hreturn, List.forall_mem_cons.mpr ⟨hfeed, hbefore⟩⟩⟩
  | case3 c text _ ih =>
    by_cases hc : c = '\r'
    · cases blanks with
      | nil => simp [hc] at h
      | cons b blanks =>
        rw [List.forall_mem_cons] at hb
        obtain ⟨before, behind, rfl, hbefore⟩ := ih hb.2 (List.cons.inj h).2
        have hblank : isBlank c = true := by rw [hc]; decide
        exact ⟨c :: before, behind, rfl, List.forall_mem_cons.mpr ⟨hblank, hbefore⟩⟩
    · have hself : (if c == '\r' then '\n' else c) = c := by simp [hc]
      rw [hself] at h
      cases blanks with
      | nil =>
        obtain ⟨rfl, -⟩ := List.cons.inj h
        exact ⟨[], text, rfl, by simp⟩
      | cons b blanks =>
        rw [List.forall_mem_cons] at hb
        obtain ⟨rfl, hrest⟩ := List.cons.inj h
        obtain ⟨before, behind, rfl, hbefore⟩ := ih hb.2 hrest
        exact ⟨c :: before, behind, rfl, List.forall_mem_cons.mpr ⟨hb.1, hbefore⟩⟩

/-- No closing tag comes into being. -/
theorem closingMark?_unifyLineEnds {text : Text} (h : closingMark? text.length text = .ok none) :
    closingMark? (unifyLineEnds text).length (unifyLineEnds text) = .ok none := by
  obtain ⟨found, hfound⟩ := closingMark?_isOk (Nat.le_refl (unifyLineEnds text).length)
  cases found with
  | none => exact hfound
  | some m =>
    obtain ⟨blanks, rest, hunified, hname, hblanks, -, -⟩ := closingMark?_eq_some hfound
    have hfeed : '\n' ∉ '/' :: m.name := by
      intro hmem
      rcases List.mem_cons.mp hmem with hslash | hmem
      · cases hslash
      · exact absurd (hname.forall_isTagChar '\n' hmem) (by decide)
    obtain ⟨behind, rfl, hbehind⟩ := eq_append_of_unifyLineEnds hfeed hunified
    obtain ⟨before, following, rfl, hbefore⟩ := blanks_of_unifyLineEnds hblanks hbehind
    have hlength : m.name.length + before.length + 2 ≤ ('/' :: m.name ++ (before ++ '>' :: following)).length := by
      simp only [List.length_append, List.length_cons]
      omega
    have hmark := closingMark?_eq hname hbefore following hlength
    rw [List.cons_append] at h hmark
    rw [hmark] at h
    cases h

/-- Where no tag begins, none begins once line ends are unified. -/
theorem markAt?_unifyLineEnds {text : Text} (h : markAt? text.length text = .ok none) :
    markAt? (unifyLineEnds text).length (unifyLineEnds text) = .ok none := by
  unfold markAt? at h
  split at h
  · cases h
  · cases h
  · next hclosing =>
    split at h
    · cases h
    · cases h
    · next hopening => rw [markAt?, closingMark?_unifyLineEnds hclosing, openingMark?_unifyLineEnds hopening]

/-- A text without marks has none afterwards. -/
theorem Unmarked.unifyLineEnds {text : Text} (h : Unmarked text) : Unmarked (unifyLineEnds text) := by
  fun_induction ComponentTags.unifyLineEnds text with
  | case1 => trivial
  | case2 rest ih => exact ⟨fun hmark => (by cases hmark), ih h.2.2⟩
  | case3 c rest _ ih =>
    refine ⟨fun hmark => ?_, ih h.2⟩
    have hc : c = '<' := by
      by_cases hreturn : c = '\r'
      · simp [hreturn] at hmark
      · simpa [hreturn] using hmark
    exact markAt?_unifyLineEnds (h.1 hc)

/-- Where only characters are read, no mark stands. -/
theorem Reading.unmarked {offset : Nat} {text : Text} {ls : List Lexeme} (h : Reading offset text ls)
    (hc : ∀ l ∈ ls, ∃ c, l = .character c) : Unmarked text := by
  induction h with
  | nil => trivial
  | character hplain _ ih => exact ⟨hplain, ih fun l hl => hc l (List.mem_cons_of_mem _ hl)⟩
  | @mark offset body rest m ls _ _ _ _ =>
    obtain ⟨d, hd⟩ := hc (.ofMark offset m) List.mem_cons_self
    cases m <;> cases hd

/-- A text that is cut to its end without a component expands to itself once its line ends are unified. -/
theorem expand_unifyLineEnds {text : Text} (hfailure : (scanText text).failure = none)
    (hnone : ∀ c, .component c ∉ (scanText text).segments) (options : Options) :
    expand options (unifyLineEnds text) = .ok (unifyLineEnds text) := by
  have hlex := scanText_plain_iff.mp ⟨hfailure, hnone⟩
  have hread := reading_of_lexText (congrArg Lexing.failure hlex)
  have hunmarked : Unmarked text := by
    refine hread.unmarked fun l hl => ?_
    rw [hlex] at hl
    obtain ⟨c, -, rfl⟩ := List.mem_map.mp hl
    exact ⟨c, rfl⟩
  have hplain : lexText (unifyLineEnds text) = ⟨(unifyLineEnds text).map .character, none⟩ :=
    hunmarked.unifyLineEnds.lexFrom_eq 0
  rw [expand, expandDocument_of_characters hplain]

end ComponentTags
