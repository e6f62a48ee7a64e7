import ComponentTags.Declaration
import Mathlib.Data.List.Infix
import Mathlib.Data.List.TakeWhile

/-!
# The first declaration of a text

The search for a declaration tries each place of a text in turn. At a place it looks at the next number sign only, and
it is content if a brace follows. Here the declarations are described by the pattern that they match, and the search is
shown to find the one that starts first.

Two declarations never overlap, and neither does a declaration with the front of another one: a number sign that is not
followed by a closing brace ends every declaration that is under way. So a text in which no declaration stands can be
put before a declaration without hiding it, however it ends. The names of a declaration are read back from it, whatever
white space is between them.
-/

namespace ComponentTags

/-- The texts that are declarations: the word that opens them and white space, then anything without a number sign, and
perhaps white space before the end of the comment. -/
inductive IsDeclaration : Text → Prop where
  /-- A declaration in its parts. -/
  | intro {lead parameters trail : Text} : lead ≠ [] → (∀ c ∈ lead, isSpace c = true) → '#' ∉ parameters →
      (∀ c ∈ trail, isSpace c = true) →
      IsDeclaration (Declaration.opener ++ (lead ++ (parameters ++ (trail ++ "#\x7d".toList))))

/-- No declaration stands in the text. -/
def Undeclared (text : Text) : Prop := ∀ piece, IsDeclaration piece → ¬piece <:+: text

/-- The body of a declaration begins with white space and holds no number sign. -/
structure Declaration.WellFormed (d : Declaration) : Prop where
  spaced : ∃ c ∈ d.body.head?, isSpace c = true
  unmarked : '#' ∉ d.body

theorem Declaration.toText_eq (d : Declaration) :
    d.toText = '\x7b' :: '#' :: 'd' :: 'e' :: 'f' :: (d.body ++ ['#', '\x7d']) := rfl

/-- A number sign is not white space. -/
theorem notMem_of_isSpace {text : Text} (h : ∀ c ∈ text, isSpace c = true) : '#' ∉ text := by
  intro hmem
  have hspace := h '#' hmem
  revert hspace
  decide

/-- The declarations are the texts of well-formed bodies between the two ends of a comment. -/
theorem isDeclaration_iff {piece : Text} :
    IsDeclaration piece ↔ ∃ d : Declaration, d.WellFormed ∧ piece = d.toText := by
  constructor
  · rintro ⟨hne, hlead, hparameters, htrail⟩
    rename_i lead parameters trail
    refine ⟨⟨lead ++ (parameters ++ trail)⟩, ⟨?_, ?_⟩, ?_⟩
    · cases lead with
      | nil => exact absurd rfl hne
      | cons c lead => exact ⟨c, by simp, hlead c List.mem_cons_self⟩
    · simp only [List.mem_append, not_or]
      exact ⟨notMem_of_isSpace hlead, hparameters, notMem_of_isSpace htrail⟩
    · simp [Declaration.toText]
  · rintro ⟨⟨body⟩, ⟨⟨c, hc, hspace⟩, hunmarked⟩, rfl⟩
    dsimp only at hc hunmarked
    obtain ⟨rest, hbody⟩ := List.head?_eq_some_iff.mp hc
    rw [hbody, List.mem_cons, not_or] at hunmarked
    have hparts : IsDeclaration (Declaration.opener ++ ([c] ++ (rest ++ ([] ++ "#\x7d".toList)))) :=
      .intro (List.cons_ne_nil c []) (List.forall_mem_singleton.mpr hspace) hunmarked.2 (List.forall_mem_nil _)
    simpa [Declaration.toText, hbody] using hparts

/-- At a place the search finds the declaration that stands there. -/
theorem Declaration.atFront?_eq_some_iff {text : Text} {d : Declaration} :
    atFront? text = some d ↔ d.WellFormed ∧ d.toText <+: text := by
  constructor
  · intro h
    unfold atFront? at h
    split at h
    · cases h
    · next rest hopener =>
      rw [List.isPrefixOf?_eq_some_iff_append_eq] at hopener
      split at h
      · next hspace =>
        split at h
        · next first after hstop =>
          obtain rfl := Option.some.inj h
          have hsplit : rest.takeWhile (· != '#') ++ first :: '\x7d' :: after = rest := by
            rw [← hstop, List.takeWhile_append_dropWhile]
          have hfirst : first = '#' := by
            have hhead := List.head?_dropWhile_not (· != '#') rest
            rw [hstop] at hhead
            simpa using hhead
          have htext : opener ++ (rest.takeWhile (· != '#') ++ '#' :: '\x7d' :: after) = text := by
            rw [hfirst] at hsplit
            rw [hsplit, hopener]
          refine ⟨⟨?_, ?_⟩, after, ?_⟩
          · cases rest with
            | nil => simp at hspace
            | cons c rest =>
              have hc : isSpace c = true := by simpa using hspace
              have hne : c ≠ '#' := by
                rintro rfl
                revert hc
                decide
              exact ⟨c, by simp [hne], hc⟩
          · intro hmem
            have hnot := List.mem_takeWhile_imp hmem
            simp at hnot
          · simpa [toText] using htext
        · cases h
      · cases h
  · rintro ⟨⟨⟨c, hc, hspace⟩, hunmarked⟩, after, rfl⟩
    have hpass : ∀ e ∈ d.body, (e != '#') = true := by
      intro e he
      simp only [bne_iff_ne]
      rintro rfl
      exact hunmarked he
    have hrest : opener.isPrefixOf? (d.toText ++ after) = some (d.body ++ '#' :: '\x7d' :: after) := by
      rw [List.isPrefixOf?_eq_some_iff_append_eq]
      simp [toText]
    have hdrop : (d.body ++ '#' :: '\x7d' :: after).dropWhile (· != '#') = '#' :: '\x7d' :: after := by
      rw [List.dropWhile_append_of_pos hpass]
      simp
    have htake : (d.body ++ '#' :: '\x7d' :: after).takeWhile (· != '#') = d.body := by
      rw [List.takeWhile_append_of_pos hpass]
      simp
    have hfirst : ((d.body ++ '#' :: '\x7d' :: after).take 1).any isSpace = true := by
      obtain ⟨rest, hbody⟩ := List.head?_eq_some_iff.mp hc
      simp [hbody, hspace]
    simp only [atFront?, hrest, hfirst, hdrop, htake, if_true]

/-- A declaration that starts before the front of another one ends before it. The number sign of that front would be the
last one of the first declaration, and no brace follows it. -/
theorem Declaration.toText_prefix_of_append {e : Declaration} (he : '#' ∉ e.body) {before rest : Text}
    (hb : before ≠ []) (h : e.toText <+: before ++ '\x7b' :: '#' :: 'd' :: rest) : e.toText <+: before := by
  obtain ⟨behind, hsame⟩ := h
  rcases List.append_eq_append_iff.mp hsame with ⟨more, hbefore, -⟩ | ⟨more, hreach, hfront⟩
  · exact ⟨more, hbefore.symm⟩
  · have hlast : ∀ c ∈ more.getLast?, c = '\x7d' := by
      intro c hc
      have hend : e.toText.getLast? = some c := by
        rw [hreach, List.getLast?_append, hc]
        rfl
      rw [toText, List.getLast?_append] at hend
      exact (Option.some.inj hend).symm
    match more, hfront, hlast with
    | [], _, _ => exact ⟨[], by rw [hreach]; simp⟩
    | [c], hfront, hlast =>
      have hc : '\x7b' = c := (List.cons.inj hfront).1
      exact absurd (hc.trans (hlast c rfl)) (by decide)
    | [c, c'], hfront, hlast =>
      have hc : '#' = c' := (List.cons.inj (List.cons.inj hfront).2).1
      exact absurd (hc.trans (hlast c' rfl)) (by decide)
    | c :: c' :: c'' :: more, hfront, _ =>
      simp only [List.cons_append, List.cons.injEq] at hfront
      obtain ⟨rfl, rfl, rfl, -⟩ := hfront
      match before, hb, hreach with
      | [first], _, hreach => simp [toText_eq] at hreach
      | first :: second :: before, _, hreach =>
        have hmiddle : 'd' :: 'e' :: 'f' :: e.body ++ '#' :: ['\x7d'] = (before ++ ['\x7b']) ++ '#' :: 'd' :: more := by
          rw [toText_eq] at hreach
          simp only [List.cons_append, List.cons.injEq] at hreach
          simpa using hreach.2.2
        have hnone : '#' ∉ 'd' :: 'e' :: 'f' :: e.body := by simp [he]
        have hbrace := ((List.append_cons_inj_of_notMem hnone (by decide)).mp hmiddle).2.2
        exact absurd (List.cons.inj hbrace).1 (by decide)

/-- The declaration that starts first in a text, with what stands before and behind it. -/
structure FirstDeclaration (text before : Text) (d : Declaration) (after : Text) : Prop where
  text_eq : text = before ++ (d.toText ++ after)
  wellFormed : d.WellFormed
  earliest : ∀ front rest piece, text = front ++ (piece ++ rest) → IsDeclaration piece → before.length ≤ front.length

/-- A declaration is the first one if none stands in the text before it, since none reaches over. -/
theorem FirstDeclaration.of_undeclared {before : Text} (hb : Undeclared before) {d : Declaration} (hd : d.WellFormed)
    (after : Text) : FirstDeclaration (before ++ (d.toText ++ after)) before d after where
  text_eq := rfl
  wellFormed := hd
  earliest := by
    intro front rest piece htext hpiece
    obtain ⟨e, he, hetext⟩ := isDeclaration_iff.mp hpiece
    by_contra hlt
    obtain ⟨more, hmore, hbehind⟩ : ∃ more, before = front ++ more ∧ piece ++ rest = more ++ (d.toText ++ after) := by
      rcases List.append_eq_append_iff.mp htext with ⟨more, hfront, -⟩ | ⟨more, hbefore, hrest⟩
      · exact absurd (hfront ▸ by simp) hlt
      · exact ⟨more, hbefore, hrest⟩
    have hne : more ≠ [] := by
      rintro rfl
      exact hlt (by rw [hmore, List.append_nil])
    have hstarts : piece <+: more := by
      rw [hetext] at hbehind ⊢
      exact Declaration.toText_prefix_of_append he.unmarked hne ⟨rest, hbehind⟩
    have hinside : piece <:+: before := by
      rw [hmore]
      exact hstarts.isInfix.trans (List.suffix_append front more).isInfix
    exact hb piece hpiece hinside

/-- No declaration stands before the first one. -/
theorem FirstDeclaration.undeclared {text before after : Text} {d : Declaration}
    (h : FirstDeclaration text before d after) : Undeclared before := by
  rintro piece hpiece ⟨front, rest, hbefore⟩
  have hlength := h.earliest front (rest ++ (d.toText ++ after)) piece (by rw [h.text_eq, ← hbefore]; simp) hpiece
  have hpos : 0 < piece.length := by
    obtain ⟨e, -, rfl⟩ := isDeclaration_iff.mp hpiece
    rw [Declaration.toText_eq]
    exact Nat.succ_pos _
  rw [← hbefore, List.length_append, List.length_append] at hlength
  omega

/-- Behind the first character of a text the first declaration is the same, unless it starts there. -/
theorem FirstDeclaration.tail {text before after : Text} {c : Char} {d : Declaration}
    (h : FirstDeclaration text (c :: before) d after) :
    text = c :: (before ++ (d.toText ++ after)) ∧ FirstDeclaration (before ++ (d.toText ++ after)) before d after := by
  have htext : text = c :: (before ++ (d.toText ++ after)) := h.text_eq
  refine ⟨htext, rfl, h.wellFormed, fun front rest piece hsplit hpiece => ?_⟩
  have hlength := h.earliest (c :: front) rest piece (by rw [htext, hsplit]; rfl) hpiece
  exact Nat.le_of_succ_le_succ hlength

/-- No declaration stands at the front of a text in which the first one starts later. -/
theorem FirstDeclaration.not_startsWith {text before after : Text} {c : Char} {d e : Declaration}
    (h : FirstDeclaration text (c :: before) d after) (he : e.WellFormed) : ¬e.toText <+: text := by
  rintro ⟨rest, hrest⟩
  have hzero := h.earliest [] rest e.toText hrest.symm (isDeclaration_iff.mpr ⟨e, he, rfl⟩)
  exact absurd hzero (Nat.not_succ_le_zero _)

/-- The search finds the first declaration. -/
theorem FirstDeclaration.find?_eq {text before after : Text} {d : Declaration}
    (h : FirstDeclaration text before d after) : Declaration.find? text = some d := by
  induction before generalizing text with
  | nil =>
    have hfront : Declaration.atFront? text = some d :=
      Declaration.atFront?_eq_some_iff.mpr ⟨h.wellFormed, after, h.text_eq.symm⟩
    cases text with
    | nil => cases hfront
    | cons c rest => rw [Declaration.find?, hfront]
  | cons c before ih =>
    have hnone : Declaration.atFront? text = none := by
      cases hfront : Declaration.atFront? text with
      | none => rfl
      | some e =>
        obtain ⟨he, hstarts⟩ := Declaration.atFront?_eq_some_iff.mp hfront
        exact absurd hstarts (h.not_startsWith he)
    obtain ⟨htext, hrest⟩ := h.tail
    rw [htext] at hnone ⊢
    rw [Declaration.find?, hnone]
    exact ih hrest

/-- Nothing is found exactly in a text without a declaration. -/
theorem Declaration.find?_eq_none_iff {text : Text} : find? text = none ↔ Undeclared text := by
  induction text with
  | nil =>
    refine ⟨fun _ piece hpiece hinside => ?_, fun _ => rfl⟩
    obtain ⟨e, -, rfl⟩ := isDeclaration_iff.mp hpiece
    exact absurd (List.eq_nil_of_infix_nil hinside) (List.cons_ne_nil _ _)
  | cons c rest ih =>
    rw [find?]
    cases hfront : atFront? (c :: rest) with
    | some e =>
      obtain ⟨he, hstarts⟩ := atFront?_eq_some_iff.mp hfront
      refine ⟨fun h => (by cases h), fun h => ?_⟩
      exact absurd hstarts.isInfix (h e.toText (isDeclaration_iff.mpr ⟨e, he, rfl⟩))
    | none =>
      dsimp only
      rw [ih]
      refine ⟨fun h piece hpiece hinside => ?_, fun h piece hpiece hinside => ?_⟩
      · rcases List.infix_cons_iff.mp hinside with hstarts | hlater
        · obtain ⟨e, he, rfl⟩ := isDeclaration_iff.mp hpiece
          rw [atFront?_eq_some_iff.mpr ⟨he, hstarts⟩] at hfront
          cases hfront
        · exact h piece hpiece hlater
      · exact h piece hpiece (hinside.trans (List.suffix_cons c rest).isInfix)

/-- White space holds no words. -/
theorem words_of_spaces {text : Text} (h : ∀ c ∈ text, isSpace c = true) : words text = [] := by
  rw [words]
  split
  · rfl
  · next c rest hcons =>
    rw [List.dropWhile_eq_nil_iff.mpr h] at hcons
    cases hcons

/-- White space before a word is passed over, and the word ends where white space follows. -/
theorem words_cons {gap name rest : Text} (hg : ∀ c ∈ gap, isSpace c = true) (hne : name ≠ [])
    (hn : ∀ c ∈ name, isSpace c = false) (hr : ∀ c ∈ rest.head?, isSpace c = true) :
    words (gap ++ (name ++ rest)) = name :: words rest := by
  cases name with
  | nil => exact absurd rfl hne
  | cons initial more =>
    rw [List.forall_mem_cons] at hn
    have hmore : ∀ c ∈ more, (!isSpace c) = true := fun c hc => by rw [hn.2 c hc]; rfl
    have hword : (more ++ rest).takeWhile (!isSpace ·) = more ∧ (more ++ rest).dropWhile (!isSpace ·) = rest := by
      rw [List.takeWhile_append_of_pos hmore, List.dropWhile_append_of_pos hmore]
      cases rest with
      | nil => simp
      | cons c rest => simp [hr c rfl]
    rw [words]
    split
    · next hnil =>
      rw [List.dropWhile_append_of_pos hg, List.cons_append, List.dropWhile_cons, hn.1] at hnil
      cases hnil
    · next c behind hcons =>
      rw [List.dropWhile_append_of_pos hg, List.cons_append, List.dropWhile_cons, hn.1] at hcons
      obtain ⟨rfl, rfl⟩ := List.cons.inj hcons
      rw [hword.1, hword.2]

/-- A name with the white space before it, as names stand in a declaration. -/
structure SpacedName where
  /-- The white space before the name. -/
  gap : Text
  /-- The name. -/
  name : Text
  gap_ne : gap ≠ []
  gap_space : ∀ c ∈ gap, isSpace c = true
  name_ne : name ≠ []
  name_plain : ∀ c ∈ name, isSpace c = false ∧ c ≠ '#'

/-- A list of names as it is written. -/
def SpacedName.writeAll (names : List SpacedName) : Text := names.flatMap fun n => n.gap ++ n.name

theorem SpacedName.writeAll_cons (n : SpacedName) (names : List SpacedName) :
    writeAll (n :: names) = n.gap ++ (n.name ++ writeAll names) := by
  simp [writeAll]

/-- A written list, with white space behind it or none, begins with white space unless it is empty. -/
theorem SpacedName.head?_writeAll (names : List SpacedName) {trail : Text} (ht : ∀ c ∈ trail, isSpace c = true) :
    ∀ c ∈ (writeAll names ++ trail).head?, isSpace c = true := by
  intro c hc
  cases names with
  | nil => exact ht c (List.mem_of_mem_head? hc)
  | cons n names =>
    rw [writeAll_cons, List.append_assoc, List.head?_append_of_ne_nil _ n.gap_ne] at hc
    exact n.gap_space c (List.mem_of_mem_head? hc)

/-- The names are the words of the written list. -/
theorem SpacedName.words_writeAll (names : List SpacedName) {trail : Text} (ht : ∀ c ∈ trail, isSpace c = true) :
    words (writeAll names ++ trail) = names.map (·.name) := by
  induction names with
  | nil => exact words_of_spaces ht
  | cons n names ih =>
    have hname : ∀ c ∈ n.name, isSpace c = false := fun c hc => (n.name_plain c hc).1
    rw [writeAll_cons, List.append_assoc, List.append_assoc,
      words_cons n.gap_space n.name_ne hname (head?_writeAll names ht), ih, List.map_cons]

/-- Names and the gaps between them have no number sign. -/
theorem SpacedName.notMem_writeAll (names : List SpacedName) : '#' ∉ writeAll names := by
  intro hmem
  obtain ⟨n, -, hn⟩ := List.mem_flatMap.mp hmem
  rcases List.mem_append.mp hn with hgap | hname
  · exact notMem_of_isSpace n.gap_space hgap
  · exact (n.name_plain '#' hname).2 rfl

/-- A list of names is the body of a declaration, unless it is empty and no white space stands in its place. -/
theorem SpacedName.wellFormed (names : List SpacedName) {trail : Text} (ht : ∀ c ∈ trail, isSpace c = true)
    (hne : writeAll names ++ trail ≠ []) : Declaration.WellFormed ⟨writeAll names ++ trail⟩ := by
  constructor
  · cases hhead : (writeAll names ++ trail).head? with
    | none => exact absurd (List.head?_eq_none_iff.mp hhead) hne
    | some c => exact ⟨c, rfl, head?_writeAll names ht c hhead⟩
  · simp only [List.mem_append, not_or]
    exact ⟨notMem_writeAll names, notMem_of_isSpace ht⟩

/-- The names of a declaration are the parameters of the text in which it stands, if no declaration stands before it.
What stands before may be the beginning of a declaration or a declaration gone wrong, and what follows may be anything.
-/
theorem declaredParameters_first {before : Text} (hb : Undeclared before) (names : List SpacedName) {trail : Text}
    (ht : ∀ c ∈ trail, isSpace c = true) (hne : names ≠ [] ∨ trail ≠ []) (after : Text) :
    let text := before ++ (Declaration.opener ++ (SpacedName.writeAll names ++ trail) ++ "#\x7d".toList ++ after)
    declaredParameters text = names.map (·.name) ∧
      joinWith ", ".toList (declaredParameters text) = joinWith ", ".toList (names.map (·.name)) := by
  intro text
  have hbody : SpacedName.writeAll names ++ trail ≠ [] := by
    cases names with
    | nil => simpa [SpacedName.writeAll] using hne
    | cons n names =>
      rw [SpacedName.writeAll_cons, List.append_assoc]
      exact List.append_ne_nil_of_left_ne_nil n.gap_ne _
  have hfirst := FirstDeclaration.of_undeclared hb (SpacedName.wellFormed names ht hbody) after
  have hparameters : declaredParameters text = names.map (·.name) := by
    rw [declaredParameters,
      show Declaration.find? text = some ⟨SpacedName.writeAll names ++ trail⟩ from hfirst.find?_eq]
    exact SpacedName.words_writeAll names ht
  exact ⟨hparameters, congrArg _ hparameters⟩

/-- The text before the declaration holds three beginnings and ends in a fourth one. Wide white space divides the names,
none follows the last one, and another declaration stands behind. -/
theorem declaredParameters_first_unfinished :
    let before := "\x7b#def x \x7b#de\x7b#def y #\x7b".toList
    let text := before ++ "\x7b#def\n\u00a0a\u3000b\x7b#\x7d\x7b#def z #\x7d".toList
    Undeclared before ∧ declaredParameters text = [['a'], ['b', '\x7b']] ∧
      joinWith ", ".toList (declaredParameters text) = "a, b\x7b".toList := by
  intro before text
  have hbefore : Undeclared before := Declaration.find?_eq_none_iff.mp (by decide +kernel)
  let names : List SpacedName :=
    [{ gap := ['\n', '\u00a0']
       name := ['a']
       gap_ne := List.cons_ne_nil _ _
       gap_space := List.all_eq_true.mp (by decide)
       name_ne := List.cons_ne_nil _ _
       name_plain := List.forall_mem_singleton.mpr (by decide) },
     { gap := ['\u3000']
       name := ['b', '\x7b']
       gap_ne := List.cons_ne_nil _ _
       gap_space := List.all_eq_true.mp (by decide)
       name_ne := List.cons_ne_nil _ _
       name_plain := List.forall_mem_cons.mpr ⟨by decide, List.forall_mem_singleton.mpr (by decide)⟩ }]
  have hfirst := declaredParameters_first hbefore names (List.forall_mem_nil _) (.inl (List.cons_ne_nil _ _))
    "\x7b#def z #\x7d".toList
  exact ⟨hbefore, hfirst⟩

end ComponentTags
