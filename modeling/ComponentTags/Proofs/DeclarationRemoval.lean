import ComponentTags.Proofs.DeclarationSearch
import ComponentTags.Proofs.FlatExpansion
import ComponentTags.Proofs.MacroAgreement
import ComponentTags.Proofs.TagInterior
import ComponentTags.Proofs.Tiling

/-!
# What a macro leaves out of its template

The body of a macro is the expanded template without the first occurrence of the declaration. The declaration is found
in the template, and it is erased from the expansion. Both are about the same stretch exactly if no tag has a part in
it: the declaration may stand next to tags, but a tag in the midst of it is expanded, and inside a tag it is part of a
value.

That nothing before the declaration is erased needs an argument about the directives. Expansion copies some characters
and replaces the stretches between them. A number sign is always copied, and no replaced stretch can stand right before
or behind one in a declaration. So a declaration in the expansion comes from one in the template. The suffix of the
scope names is the only text that goes into a directive unseen, so it must not hold a number sign.
-/

namespace ComponentTags

/-- The characters that may follow the number signs of a declaration and the word behind the first one. -/
def isBound (c : Char) : Bool := c == '#' || c == 'd' || c == 'e' || c == 'f' || c == '\x7d' || isSpace c

/-- A stretch may be replaced by an image: both are without number signs, and the image goes neither before nor behind
one in a declaration. -/
structure Seam (source image : Text) : Prop where
  source_unmarked : '#' ∉ source
  image_unmarked : '#' ∉ image
  head : ∃ c ∈ image.head?, isBound c = false
  last : image.getLast? ≠ some '\x7b'

/-- The image is a copy of the source with some stretches replaced. -/
inductive Copied : Text → Text → Prop where
  /-- Nothing is copied to nothing. -/
  | nil : Copied [] []
  /-- A copied character. -/
  | copied (c : Char) {source image : Text} : Copied source image → Copied (c :: source) (c :: image)
  /-- A replaced stretch. -/
  | replaced {stretch glue source image : Text} :
      Seam stretch glue → Copied source image → Copied (stretch ++ source) (glue ++ image)

section Copied

variable {source image : Text}

/-- A piece that is copied as a whole. -/
theorem Copied.append_left (h : Copied source image) (piece : Text) : Copied (piece ++ source) (piece ++ image) := by
  induction piece with
  | nil => exact h
  | cons c piece ih => exact .copied c ih

/-- No image of a replaced stretch begins with a bound character, so such a character has been copied. -/
theorem Copied.of_bound {c : Char} (hc : isBound c = true) (h : Copied source (c :: image)) :
    ∃ rest, source = c :: rest ∧ Copied rest image := by
  generalize hwhole : c :: image = whole at h
  cases h with
  | nil => cases hwhole
  | copied d h =>
    obtain ⟨rfl, rfl⟩ := List.cons.inj hwhole
    exact ⟨_, rfl, h⟩
  | @replaced stretch glue _ _ hseam _ =>
    obtain ⟨d, hd, hfree⟩ := hseam.head
    obtain ⟨more, rfl⟩ := List.head?_eq_some_iff.mp hd
    obtain ⟨rfl, -⟩ := List.cons.inj hwhole
    rw [hc] at hfree
    cases hfree

/-- A run of bound characters has been copied, character by character. -/
theorem Copied.of_bound_append {run : Text} (hr : ∀ c ∈ run, isBound c = true) (h : Copied source (run ++ image)) :
    ∃ rest, source = run ++ rest ∧ Copied rest image := by
  induction run generalizing source with
  | nil => exact ⟨source, rfl, h⟩
  | cons c run ih =>
    rw [List.forall_mem_cons] at hr
    obtain ⟨rest, rfl, hrest⟩ := h.of_bound hr.1
    obtain ⟨behind, rfl, hbehind⟩ := ih hr.2 hrest
    exact ⟨behind, rfl, hbehind⟩

/-- A brace follows the first number sign of the text. -/
def ClosesComment (text : Text) : Prop := ∃ body rest, text = body ++ '#' :: '\x7d' :: rest ∧ '#' ∉ body

/-- The first number sign of a copy is the copy of the first one, and so is a brace behind it. -/
theorem Copied.closesComment (h : Copied source image) (hc : ClosesComment image) : ClosesComment source := by
  induction h with
  | nil =>
    obtain ⟨body, rest, himage, -⟩ := hc
    simp at himage
  | @copied c source image h ih =>
    obtain ⟨body, rest, himage, hbody⟩ := hc
    cases body with
    | nil =>
      obtain ⟨rfl, rfl⟩ := List.cons.inj himage
      obtain ⟨behind, rfl, -⟩ := h.of_bound (by decide)
      exact ⟨[], behind, rfl, List.not_mem_nil⟩
    | cons d body =>
      obtain ⟨rfl, rfl⟩ := List.cons.inj himage
      rw [List.mem_cons, not_or] at hbody
      obtain ⟨before, behind, rfl, hbefore⟩ := ih ⟨body, rest, rfl, hbody.2⟩
      exact ⟨c :: before, behind, rfl, by simp [hbody.1, hbefore]⟩
  | @replaced stretch glue source image hseam _ ih =>
    obtain ⟨body, rest, himage, hbody⟩ := hc
    have hbehind : ClosesComment image := by
      rcases List.append_eq_append_iff.mp himage with ⟨more, rfl, hmore⟩ | ⟨more, rfl, hmark⟩
      · exact ⟨more, rest, hmore, fun hmem => hbody (List.mem_append_right _ hmem)⟩
      · cases more with
        | nil => exact ⟨[], rest, hmark.symm, List.not_mem_nil⟩
        | cons d more =>
          obtain ⟨rfl, -⟩ := List.cons.inj hmark
          exact absurd (by simp) hseam.image_unmarked
    obtain ⟨before, behind, rfl, hbefore⟩ := ih hbehind
    refine ⟨stretch ++ before, behind, by simp, ?_⟩
    rw [List.mem_append, not_or]
    exact ⟨hseam.source_unmarked, hbefore⟩

/-- A declaration does not begin in the image of a replaced stretch. -/
theorem Seam.infix_of_append {stretch glue rest : Text} (h : Seam stretch glue) {d : Declaration}
    (hd : d.toText <:+: glue ++ rest) : d.toText <:+: rest := by
  obtain ⟨front, behind, hsplit⟩ := hd
  rw [List.append_assoc] at hsplit
  rcases List.append_eq_append_iff.mp hsplit with ⟨more, hglue, hmore⟩ | ⟨more, rfl, hmore⟩
  · rw [Declaration.toText_eq] at hmore
    match more, hglue, hmore with
    | [], _, hmore => exact ⟨[], behind, hmore⟩
    | [c], hglue, hmore =>
      obtain ⟨rfl, -⟩ := List.cons.inj hmore
      exact absurd (by simp [hglue]) h.last
    | c :: c' :: more, hglue, hmore =>
      obtain ⟨-, htail⟩ := List.cons.inj hmore
      obtain ⟨rfl, -⟩ := List.cons.inj htail
      exact absurd (by simp [hglue]) h.image_unmarked
  · exact ⟨more, behind, by rw [hmore, List.append_assoc]⟩

/-- A declaration at the front of a copy is the image of a declaration. Its first brace has been copied, since no
replaced stretch leaves one before a number sign; the word and the white space behind it have been copied too. What
follows may be replaced in part, but not up to its end. -/
theorem Copied.exists_declaration {c : Char} (h : Copied source image) {d : Declaration} (hd : d.WellFormed)
    (hp : d.toText <+: c :: image) : ∃ e : Declaration, e.WellFormed ∧ e.toText <+: c :: source := by
  obtain ⟨⟨space, hspace, hisSpace⟩, hunmarked⟩ := hd
  obtain ⟨body, hbody⟩ := List.head?_eq_some_iff.mp hspace
  obtain ⟨behind, hbehind⟩ := hp
  rw [hbody, List.mem_cons, not_or] at hunmarked
  rw [Declaration.toText_eq, hbody] at hbehind
  obtain ⟨rfl, himage⟩ := List.cons.inj hbehind
  have hrun : ∀ c ∈ ['#', 'd', 'e', 'f', space], isBound c = true := by
    simp only [List.forall_mem_cons, List.not_mem_nil, false_implies, implies_true, and_true]
    exact ⟨by decide, by decide, by decide, by decide, by simp [isBound, hisSpace]⟩
  have hsplit : image = ['#', 'd', 'e', 'f', space] ++ (body ++ '#' :: '\x7d' :: behind) := by
    rw [← himage]
    simp
  rw [hsplit] at h
  obtain ⟨rest, rfl, hrest⟩ := h.of_bound_append hrun
  obtain ⟨before, after, rfl, hbefore⟩ := hrest.closesComment ⟨body, behind, rfl, hunmarked.2⟩
  refine ⟨⟨space :: before⟩, ⟨⟨space, rfl, hisSpace⟩, ?_⟩, after, ?_⟩
  · rw [List.mem_cons, not_or]
    exact ⟨hunmarked.1, hbefore⟩
  · simp [Declaration.toText_eq]

/-- No declaration stands in the back of a text that has none. -/
theorem Undeclared.of_append {front rest : Text} (h : Undeclared (front ++ rest)) : Undeclared rest :=
  fun piece hpiece hinside => h piece hpiece (hinside.trans (List.suffix_append front rest).isInfix)

/-- A text without a declaration is copied to a text without one. -/
theorem Copied.undeclared (h : Copied source image) (hs : Undeclared source) : Undeclared image := by
  induction h with
  | nil => exact hs
  | @copied c source image h ih =>
    intro piece hpiece hinside
    rcases List.infix_cons_iff.mp hinside with hstarts | hlater
    · obtain ⟨d, hd, rfl⟩ := isDeclaration_iff.mp hpiece
      obtain ⟨e, he, hfront⟩ := h.exists_declaration hd hstarts
      exact hs e.toText (isDeclaration_iff.mpr ⟨e, he, rfl⟩) hfront.isInfix
    · exact ih (Undeclared.of_append (show Undeclared ([c] ++ source) from hs)) piece hpiece hlater
  | @replaced stretch glue source image hseam h ih =>
    intro piece hpiece hinside
    obtain ⟨d, hd, rfl⟩ := isDeclaration_iff.mp hpiece
    exact ih hs.of_append d.toText hpiece (hseam.infix_of_append hinside)

end Copied

/-- A number sign is not a blank. -/
theorem notMem_of_isBlank {blanks : Text} (h : ∀ c ∈ blanks, isBlank c = true) : '#' ∉ blanks :=
  fun hmem => absurd (h '#' hmem) (by decide)

section Attributes

variable {source image : Text}

/-- An attribute becomes its argument by closing up the equals sign. -/
theorem Attribute.Written.copied {a : Attribute} {written : Text} (h : a.Written written) (hc : Copied source image) :
    Copied (written ++ source) (a.argument ++ image) := by
  cases h with
  | shorthand _ => exact hc.append_left _
  | @named name blanks padding value _ hb hp _ =>
    have hsign : Seam (blanks ++ '=' :: padding) ['='] := by
      refine ⟨?_, by decide, ⟨'=', rfl, by decide⟩, by simp⟩
      simp [notMem_of_isBlank hb, notMem_of_isBlank hp]
    have hcopied := (Copied.replaced hsign (hc.append_left value)).append_left name
    simpa [argument] using hcopied

/-- Parts that are joined: the first one, and the others with the separator in front of each. -/
theorem joinWith_cons (separator part : Text) (parts : List Text) :
    joinWith separator (part :: parts) = part ++ parts.flatMap (separator ++ ·) := by
  unfold joinWith
  induction parts generalizing part with
  | nil => simp
  | cons next parts ih =>
    rw [List.intercalate_cons_cons, ih, List.flatMap_cons]
    simp only [List.append_assoc]

/-- Attributes behind another one: the blanks before each of them become a comma and a blank, and those behind the last
one go with the end of the tag. -/
theorem AttributeList.copied_behind {offset : Nat} {w : Text} {found : List (Placed Attribute)}
    (h : AttributeList offset w found) {stop glue : Text} (hstop : Seam stop glue) (hc : Copied source image) :
    Copied (w ++ (stop ++ source))
      ((found.map (·.item.argument)).flatMap (", ".toList ++ ·) ++ (glue ++ image)) := by
  induction h with
  | @nil offset blanks hb =>
    have hend : Seam (blanks ++ stop) glue :=
      { hstop with source_unmarked := by simp [notMem_of_isBlank hb, hstop.source_unmarked] }
    simpa using Copied.replaced hend hc
  | @cons offset blanks written rest a others hb hwritten _ _ ih =>
    have hcomma : Seam blanks ", ".toList :=
      ⟨notMem_of_isBlank hb, by decide +kernel, ⟨',', by decide +kernel, by decide⟩, by decide +kernel⟩
    simpa using Copied.replaced hcomma (hwritten.copied ih)

/-- An attribute list becomes the list of its arguments, with what stands before and behind it. -/
theorem AttributeList.copied {offset : Nat} {w : Text} {found : List (Placed Attribute)}
    (h : AttributeList offset w found) {start lead stop glue : Text} (hstart : Seam start lead) (hstop : Seam stop glue)
    (hc : Copied source image) :
    Copied (start ++ (w ++ (stop ++ source)))
      (lead ++ (joinWith ", ".toList (found.map (·.item.argument)) ++ (glue ++ image))) := by
  cases h with
  | nil hb =>
    have hnone : AttributeList offset w [] := .nil hb
    exact .replaced hstart (hnone.copied_behind hstop hc)
  | @cons _ blanks written rest a others hb hwritten _ hothers =>
    have hlead : Seam (start ++ blanks) lead :=
      { hstart with source_unmarked := by simp [notMem_of_isBlank hb, hstart.source_unmarked] }
    have hcopied := Copied.replaced hlead (hwritten.copied (hothers.copied_behind hstop hc))
    rw [List.map_cons, joinWith_cons]
    simpa using hcopied

end Attributes

/-- The stretch of a tag. -/
def Lexeme.extent? : Lexeme → Option Extent
  | .character _ => none
  | .opening _ _ extent _ | .closing _ extent => some extent

/-- The characters of a lexeme. -/
def Lexeme.source (text : Text) : Lexeme → Text
  | .character c => [c]
  | .opening _ _ extent _ | .closing _ extent => extent.slice text

/-- The characters of a text are its source. -/
theorem flatMap_source_characters (text piece : Text) :
    (piece.map Lexeme.character).flatMap (·.source text) = piece := by
  simp [List.flatMap_map, Lexeme.source]

theorem Lexeme.extent?_ofMark (offset : Nat) (m : Mark) :
    (ofMark offset m).extent? = some ⟨offset, offset + m.size⟩ := by
  cases m <;> rfl

/-- The source of a tag is what the tag was read from. -/
theorem Lexeme.source_ofMark {text body rest : Text} {offset : Nat} {m : Mark}
    (hw : text.drop offset = '<' :: (body ++ rest)) (hs : m.size = body.length + 1) :
    (ofMark offset m).source text = '<' :: body := by
  have hpiece : text.drop offset = ('<' :: body) ++ rest := hw
  have hslice : Extent.slice text ⟨offset, offset + m.size⟩ = '<' :: body := by
    rw [hs]
    exact Extent.slice_of_drop hpiece
  cases m <;> exact hslice

/-- A closing tag is found where one is looked for. -/
theorem markAt?_closing {left : Nat} {text : Text} {m : ClosingMark}
    (h : markAt? left text = .ok (some (.closing m))) : closingMark? left text = .ok (some m) := by
  unfold markAt? at h
  split at h
  · cases h
  · next c hc =>
    obtain rfl : c = m := by simpa using h
    exact hc
  · split at h <;> cases h

theorem IsTagName.notMem {name : Text} (h : IsTagName name) : '#' ∉ name :=
  fun hmem => absurd (h.forall_isTagChar '#' hmem) (by decide)

/-- The identifier of a tag's name has no number sign. -/
theorem IsTagName.notMem_macroName {name : Text} (h : IsTagName name) : '#' ∉ macroName name :=
  fun hmem => absurd (h.forall_isAlphanum_macroName '#' hmem) (by decide)

/-- The parts of an opening tag: its name, its attribute list, and blanks and slashes before the `>`. -/
theorem openingMark?_parts {left : Nat} {text : Text} {m : OpeningMark} (h : openingMark? left text = .ok (some m)) :
    ∃ w tail rest, text = m.name ++ (w ++ (tail ++ '>' :: rest)) ∧ IsTagName m.name ∧ '#' ∉ tail ∧
      m.attributesStop = m.attributesStart + w.length ∧ m.size = m.name.length + w.length + tail.length + 2 := by
  obtain ⟨name, between, rest, rfl, hn, -, -, -, rfl⟩ := openingMark?_inv h
  obtain ⟨hname, hsize, -⟩ := OpeningMark.ofEnd_facts name (between ++ '>' :: rest)
    (Nat.le_add_right (name.length + 1) between.length)
  obtain ⟨w, tail, hbetween, htail, hstop⟩ := OpeningMark.ofEnd_attributes name between rest
  refine ⟨w, tail, rest, ?_, ?_, ?_, ?_, ?_⟩
  · rw [hname, hbetween, List.append_assoc]
  · rw [hname]
    exact hn
  · intro hmem
    rcases htail '#' hmem with hblank | hslash
    · exact absurd hblank (by decide)
    · exact absurd hslash (by decide)
  · rw [hstop, OpeningMark.attributesStart, hname]
  · rw [hsize, hname, hbetween, List.length_append]
    omega

/-- A closing tag may be replaced by the end of a call. -/
theorem seam_endCall {stretch : Text} (h : '#' ∉ stretch) : Seam stretch Directive.endCall := by
  have hend : Directive.endCall.head? = some '\x7b' ∧ '#' ∉ Directive.endCall ∧
      Directive.endCall.getLast? ≠ some '\x7b' := by decide +kernel
  exact ⟨h, hend.2.1, ⟨'\x7b', hend.1, by decide⟩, hend.2.2⟩

/-- What stands before the arguments of a call replaces the `<` and the name of a tag. -/
theorem seam_callStart {scopeName name : Text} (hs : '#' ∉ scopeName) (hn : IsTagName name) :
    Seam ('<' :: name) ("\x7b% call ".toList ++ scopeName ++ "::".toList ++ macroName name ++ "(".toList) := by
  have hcall : '#' ∉ "\x7b% call ".toList ∧ "\x7b% call ".toList.head? = some '\x7b' := by decide +kernel
  have hparen : '#' ∉ "(".toList ∧ "(".toList.getLast? = some '(' := by decide +kernel
  refine ⟨by simp [hn.notMem], ?_, ⟨'\x7b', ?_, by decide⟩, ?_⟩
  · simp only [List.mem_append, not_or]
    exact ⟨⟨⟨⟨hcall.1, hs⟩, by decide +kernel⟩, hn.notMem_macroName⟩, hparen.1⟩
  · simp only [List.head?_append, hcall.2, Option.some_or, Option.mem_def]
  · simp only [List.getLast?_append, hparen.2, Option.some_or]
    decide

/-- What stands behind the arguments replaces the end of a tag. -/
theorem seam_callStop {stretch : Text} (h : '#' ∉ stretch) (closed : Bool) :
    Seam stretch (") %\x7d".toList ++ if closed then Directive.endCall else []) := by
  have hend (closed : Bool) : '#' ∉ (") %\x7d".toList ++ if closed then Directive.endCall else []) ∧
      (") %\x7d".toList ++ if closed then Directive.endCall else []).head? = some ')' ∧
      (") %\x7d".toList ++ if closed then Directive.endCall else []).getLast? ≠ some '\x7b' := by
    cases closed <;> decide +kernel
  exact ⟨h, (hend closed).1, ⟨')', (hend closed).2.1, by decide⟩, (hend closed).2.2⟩

/-- The values in an opening tag are copied, and the stretches between them are replaced. -/
theorem Lexeme.copied_opening {options : Options} (hs : '#' ∉ options.scopeSuffix) {text rest : Text} {start less : Nat}
    {m : OpeningMark} (hstart : text.drop start = '<' :: rest) (hm : openingMark? less rest = .ok (some m))
    (hr : (ofMark start (.opening m)).Readable text) {source image : Text} (hc : Copied source image) :
    Copied ((ofMark start (.opening m)).source text ++ source)
      ((ofMark start (.opening m)).image options text ++ image) := by
  obtain ⟨w, tail, behind, rfl, hn, htail, hstop, hsize⟩ := openingMark?_parts hm
  obtain ⟨found, hfound⟩ := hr
  have hparts : text.drop start = '<' :: ((m.name ++ (w ++ (tail ++ ['>']))) ++ behind) := by simpa using hstart
  have hsource : (ofMark start (.opening m)).source text = '<' :: (m.name ++ (w ++ (tail ++ ['>']))) := by
    refine source_ofMark hparts ?_
    simp only [Mark.size, hsize, List.length_cons, List.length_append, List.length_nil]
    omega
  have hdrop : text.drop (start + m.attributesStart) = w ++ (tail ++ '>' :: behind) := by
    rw [OpeningMark.attributesStart, drop_behind hstart (Nat.succ_pos _), Nat.succ_sub_one, List.drop_left]
  have hlist : AttributeList (start + m.attributesStart) w found := by
    rw [hstop, ← Nat.add_assoc] at hfound
    exact (attributesIn_eq_ok_iff hdrop).mp hfound
  have hscope : '#' ∉ (options.scope m.name).name := by simp [Naming.scope, hn.notMem_macroName, hs]
  have hend : '#' ∉ tail ++ ['>'] := by simp [htail]
  have hcopied := hlist.copied (seam_callStart hscope hn)
    (seam_callStop hend (m.selfClosing && options.closeSelfClosing)) hc
  have himage : (ofMark start (.opening m)).image options text =
      Directive.call (options.scope m.name).name m.name (found.map (·.item)) ++
        if m.selfClosing && options.closeSelfClosing then Directive.endCall else [] := Lexeme.image_opening hfound
  rw [hsource, himage]
  delta Directive.call
  simpa only [List.map_map, Function.comp_def, List.append_assoc, List.cons_append] using hcopied

/-- Every lexeme is copied, with stretches of it replaced if it is a tag. -/
theorem Lexeme.copied {options : Options} (hs : '#' ∉ options.scopeSuffix) {text : Text} {l : Lexeme}
    (hl : l ∈ (lexText text).lexemes) (hr : l.Readable text) {source image : Text} (hc : Copied source image) :
    Copied (l.source text ++ source) (l.image options text ++ image) := by
  rcases mem_lexFrom rfl hl with ⟨c, rfl⟩ | ⟨start, less, rest, m, hstart, hm, -, rfl⟩
  · exact .copied c hc
  · cases m with
    | closing m =>
      obtain ⟨blanks, behind, rfl, hn, hb, hsize, -⟩ := closingMark?_eq_some (markAt?_closing hm)
      have hparts : text.drop start = '<' :: ('/' :: (m.name ++ (blanks ++ ['>'])) ++ behind) := by simpa using hstart
      have hsource : (ofMark start (.closing m)).source text = '<' :: '/' :: (m.name ++ (blanks ++ ['>'])) := by
        refine source_ofMark hparts ?_
        simp only [Mark.size, hsize, List.length_cons, List.length_append, List.length_nil]
        omega
      rw [hsource, ofMark, image_closing]
      exact .replaced (seam_endCall (by simp [hn.notMem, notMem_of_isBlank hb])) hc
    | opening m => exact copied_opening hs hstart (markAt?_opening hm) hr hc

/-- Lexemes one after another are copied, with stretches of tags replaced. -/
theorem copied_flatMap {options : Options} (hs : '#' ∉ options.scopeSuffix) {text : Text} {ls : List Lexeme}
    (hl : ∀ l ∈ ls, l ∈ (lexText text).lexemes) (hr : ∀ l ∈ ls, l.Readable text) :
    Copied (ls.flatMap (·.source text)) (ls.flatMap (·.image options text)) := by
  induction ls with
  | nil => exact .nil
  | cons l ls ih =>
    rw [List.forall_mem_cons] at hl hr
    exact Lexeme.copied hs hl.1 hr.1 (ih hl.2 hr.2)

section Reading

variable {text : Text} {offset : Nat} {l : Lexeme} {ls front back : List Lexeme}

/-- The first lexeme has the characters at the place of the reading, and the other lexemes are read behind it. -/
theorem Reading.uncons (h : Reading offset (text.drop offset) (l :: ls)) :
    let size := (l.source text).length
    text.drop offset = l.source text ++ text.drop (offset + size) ∧ 0 < size ∧
      (∀ e ∈ l.extent?, e = ⟨offset, offset + size⟩) ∧ Reading (offset + size) (text.drop (offset + size)) ls := by
  intro size
  generalize hrest : text.drop offset = rest at h
  cases h with
  | @character _ c rest _ _ h =>
    have hdrop : text.drop (offset + 1) = rest := drop_behind hrest Nat.one_pos
    refine ⟨?_, Nat.one_pos, by simp [Lexeme.extent?], ?_⟩
    · exact congrArg (c :: ·) hdrop.symm
    · rw [← hdrop] at h
      exact h
  | @mark _ body rest m _ hm hs h =>
    have hsource : (Lexeme.ofMark offset m).source text = '<' :: body := Lexeme.source_ofMark hrest hs
    have hsize : size = m.size := by
      rw [hs]
      exact congrArg List.length hsource
    have hdrop : text.drop (offset + m.size) = rest := by
      rw [drop_behind hrest (by omega), hs, Nat.add_sub_cancel, List.drop_left]
    rw [hsize, hsource, Lexeme.extent?_ofMark, hdrop]
    exact ⟨rfl, by omega, by rintro e ⟨⟩; rfl, h⟩

theorem Reading.eq_nil {rest : Text} (h : Reading offset rest []) : rest = [] := by
  cases h
  rfl

/-- The lexemes have all the characters of the text. -/
theorem Reading.flatMap_source (h : Reading offset (text.drop offset) ls) :
    ls.flatMap (·.source text) = text.drop offset := by
  induction ls generalizing offset with
  | nil => exact h.eq_nil.symm
  | cons l ls ih =>
    obtain ⟨htext, -, -, hrest⟩ := h.uncons
    rw [List.flatMap_cons, ih hrest, ← htext]

/-- The tags among lexemes that are read from an offset on begin there or behind it. -/
theorem Reading.le_start (h : Reading offset (text.drop offset) ls) : ∀ l ∈ ls, ∀ e ∈ l.extent?, offset ≤ e.start := by
  induction ls generalizing offset with
  | nil => simp
  | cons l ls ih =>
    obtain ⟨-, -, hextent, hrest⟩ := h.uncons
    refine List.forall_mem_cons.mpr ⟨fun e he => ?_, fun l hl e he => ?_⟩
    · rw [hextent e he]
    · exact Nat.le_of_add_right_le (ih hrest l hl e he)

/-- The lexemes in front have their characters in front, and none of their tags reaches further. -/
theorem Reading.split (h : Reading offset (text.drop offset) (front ++ back)) :
    let size := (front.flatMap (·.source text)).length
    text.drop offset = front.flatMap (·.source text) ++ text.drop (offset + size) ∧
      Reading (offset + size) (text.drop (offset + size)) back ∧
      ∀ l ∈ front, ∀ e ∈ l.extent?, e.stop ≤ offset + size := by
  induction front generalizing offset with
  | nil => exact ⟨rfl, h, by simp⟩
  | cons l front ih =>
    obtain ⟨htext, -, hextent, hrest⟩ := h.uncons
    obtain ⟨hbehind, hback, hstop⟩ := ih hrest
    rw [List.flatMap_cons, List.length_append]
    dsimp only
    rw [← Nat.add_assoc, List.append_assoc]
    refine ⟨htext.trans (congrArg _ hbehind), hback, List.forall_mem_cons.mpr ⟨fun e he => ?_, hstop⟩⟩
    rw [hextent e he]
    exact Nat.le_add_right _ _

/-- If no tag stands across a place, the lexemes are split there. A character is not longer than what is left before the
place, and a longer tag would stand across it. -/
theorem Reading.exists_split (h : Reading offset (text.drop offset) ls) {piece behind : Text}
    (hp : text.drop offset = piece ++ behind)
    (hk : ∀ l ∈ ls, ∀ e ∈ l.extent?, e.stop ≤ offset + piece.length ∨ offset + piece.length ≤ e.start) :
    ∃ front back, ls = front ++ back ∧ front.flatMap (·.source text) = piece := by
  induction ls generalizing offset piece with
  | nil =>
    rw [h.eq_nil] at hp
    exact ⟨[], [], rfl, (List.append_eq_nil_iff.mp hp.symm).1.symm⟩
  | cons l ls ih =>
    by_cases hne : piece = []
    · exact ⟨[], l :: ls, rfl, hne.symm⟩
    · have hpos := List.length_pos_iff.mpr hne
      obtain ⟨htext, -, hextent, hrest⟩ := h.uncons
      rw [List.forall_mem_cons] at hk
      have hle : (l.source text).length ≤ piece.length := by
        cases he : l.extent? with
        | none =>
          cases l with
          | character c => exact hpos
          | opening => cases he
          | closing => cases he
        | some e =>
          rcases hk.1 e he with hstop | hstart
          · rw [hextent e he] at hstop
            exact Nat.le_of_add_le_add_left hstop
          · rw [hextent e he] at hstart
            exact absurd hstart (by simp only; omega)
      obtain ⟨more, rfl⟩ : ∃ more, piece = l.source text ++ more := by
        have hstarts : l.source text <+: piece ++ behind := ⟨_, (hp ▸ htext).symm⟩
        obtain ⟨more, hmore⟩ := List.prefix_of_prefix_length_le hstarts (List.prefix_append piece behind) hle
        exact ⟨more, hmore.symm⟩
      rw [htext, List.append_assoc] at hp
      rw [List.length_append, ← Nat.add_assoc] at hk
      obtain ⟨front, back, rfl, rfl⟩ := ih hrest (List.append_cancel_left hp) hk.2
      exact ⟨l :: front, back, rfl, rfl⟩

/-- If no tag has a part in a piece, its characters are lexemes. -/
theorem Reading.exists_characters (h : Reading offset (text.drop offset) ls) {piece behind : Text}
    (hp : text.drop offset = piece ++ behind)
    (hk : ∀ l ∈ ls, ∀ e ∈ l.extent?, e.stop ≤ offset ∨ offset + piece.length ≤ e.start) :
    ∃ back, ls = piece.map .character ++ back := by
  induction piece generalizing offset ls with
  | nil => exact ⟨ls, rfl⟩
  | cons c piece ih =>
    cases ls with
    | nil =>
      rw [h.eq_nil] at hp
      cases hp
    | cons l ls =>
      obtain ⟨htext, hpos, hextent, hrest⟩ := h.uncons
      rw [List.forall_mem_cons] at hk
      have hnone : l.extent? = none := by
        cases he : l.extent? with
        | none => rfl
        | some e =>
          have hoverlap := hk.1 e he
          rw [hextent e he] at hoverlap
          simp only [List.length_cons] at hoverlap
          omega
      cases l with
      | opening => cases hnone
      | closing => cases hnone
      | character d =>
        rw [htext] at hp
        obtain ⟨rfl, hbehind⟩ := List.cons.inj hp
        have hlater : ∀ l ∈ ls, ∀ e ∈ l.extent?, e.stop ≤ offset + 1 ∨ offset + 1 + piece.length ≤ e.start := by
          intro l hl e he
          have hapart := hk.2 l hl e he
          rw [List.length_cons] at hapart
          omega
        obtain ⟨back, rfl⟩ := ih hrest hbehind hlater
        exact ⟨back, rfl⟩

/-- A piece of a text has lexemes of its own, which are its characters, exactly if no tag has a part in it. -/
theorem Reading.isolates_iff {before piece after : Text} (h : Reading 0 (text.drop 0) ls)
    (ht : text = before ++ (piece ++ after)) :
    (∃ front back, ls = front ++ (piece.map .character ++ back) ∧ front.flatMap (·.source text) = before ∧
        back.flatMap (·.source text) = after) ↔
      ∀ l ∈ ls, ∀ e ∈ l.extent?, e.stop ≤ before.length ∨ before.length + piece.length ≤ e.start := by
  constructor
  · rintro ⟨front, back, rfl, hfront, -⟩
    obtain ⟨-, hrest, hbefore⟩ := h.split
    obtain ⟨-, hback, -⟩ := hrest.split
    have hafter := hback.le_start
    rw [flatMap_source_characters, hfront, Nat.zero_add] at hafter
    rw [hfront, Nat.zero_add] at hbefore
    intro l hl e he
    rcases List.mem_append.mp hl with hmem | hmem
    · exact .inl (hbefore l hmem e he)
    · rcases List.mem_append.mp hmem with hmem | hmem
      · obtain ⟨c, -, rfl⟩ := List.mem_map.mp hmem
        cases he
      · exact .inr (hafter l hmem e he)
  · intro hapart
    obtain ⟨front, others, rfl, hfront⟩ : ∃ front others, ls = front ++ others ∧
        front.flatMap (·.source text) = before := by
      refine h.exists_split ht fun l hl e he => ?_
      have hl := hapart l hl e he
      omega
    obtain ⟨-, hrest, -⟩ := h.split
    rw [hfront, Nat.zero_add] at hrest
    have hdrop : text.drop before.length = piece ++ after := by
      generalize piece ++ after = rest at ht ⊢
      rw [ht, List.drop_left]
    obtain ⟨back, rfl⟩ := hrest.exists_characters hdrop fun l hl => hapart l (List.mem_append_right front hl)
    have hwhole := hrest.flatMap_source
    rw [List.flatMap_append, flatMap_source_characters, hdrop] at hwhole
    exact ⟨front, back, rfl, hfront, List.append_cancel_left hwhole⟩

end Reading

/-- The first declaration is erased where it stands. -/
theorem FirstDeclaration.eraseFirst_eq {text before after : Text} {d : Declaration}
    (h : FirstDeclaration text before d after) : eraseFirst d.toText text = before ++ after := by
  induction before generalizing text with
  | nil =>
    have hfront : d.toText.isPrefixOf? text = some after :=
      List.isPrefixOf?_eq_some_iff_append_eq.mpr h.text_eq.symm
    cases text with
    | nil => cases hfront
    | cons c rest =>
      rw [eraseFirst, hfront]
      rfl
  | cons c before ih =>
    have hnone : d.toText.isPrefixOf? text = none := by
      cases hfront : d.toText.isPrefixOf? text with
      | none => rfl
      | some rest =>
      exact absurd ⟨rest, List.isPrefixOf?_eq_some_iff_append_eq.mp hfront⟩ (h.not_startsWith h.wellFormed)
    obtain ⟨htext, hrest⟩ := h.tail
    rw [htext] at hnone ⊢
    rw [eraseFirst, hnone]
    exact congrArg (c :: ·) (ih hrest)

/-- What a wrapped template consists of: the imports, the frame of the macro, and the expansion without the text of the
declaration. -/
theorem wrap_eq_ok {options : Options} {path : Path} {text out before after : Text} {d : Declaration}
    (h : wrap options path text = .ok out) (hd : FirstDeclaration text before d after) :
    ∃ body scopes, expandBody options text [] = ⟨.ok body, scopes⟩ ∧
      out = Directive.preamble scopes ++ Directive.macroStart path.macroName (declaredParameters text) ++
        eraseFirst d.toText body ++ Directive.macroStop path.macroName := by
  unfold wrap at h
  split at h
  · cases h
  · next body scopes hbody =>
    rw [hd.find?_eq] at h
    exact ⟨body, scopes, hbody, (Except.ok.inj h).symm⟩

/-- The body of a macro is the expanded template without the declaration that comes first in the template, and with all
else as it was, exactly if no tag has a part in that declaration. The images before the declaration hold none, so that
the declaration comes first in the expansion too. From left to right only the cut of the lexemes is used: where a tag
has a part in the declaration, its characters are not plain text, and nothing is said of what the output is then. -/
theorem wrap_leaves_out_declaration_iff {options : Options} (hs : '#' ∉ options.scopeSuffix) {path : Path}
    {text out : Text} (h : wrap options path text = .ok out) {before after : Text} {d : Declaration}
    (hd : FirstDeclaration text before d after) :
    let lexemes := (lexText text).lexemes
    let image (ls : List Lexeme) : Text := ls.flatMap (·.image options text)
    let expanded := expandBody options text []
    (∃ front back, lexemes = front ++ (d.toText.map .character ++ back) ∧
        front.flatMap (·.source text) = before ∧ back.flatMap (·.source text) = after ∧
        expanded.outcome = .ok (image front ++ (d.toText ++ image back)) ∧
        out = Directive.preamble expanded.registry ++
          Directive.macroStart path.macroName (declaredParameters text) ++ (image front ++ image back) ++
          Directive.macroStop path.macroName) ↔
      ∀ l ∈ lexemes, ∀ e ∈ l.extent?, e.stop ≤ before.length ∨ before.length + d.toText.length ≤ e.start := by
  intro lexemes image expanded
  obtain ⟨body, scopes, hbody, hout⟩ := wrap_eq_ok h hd
  obtain ⟨hscan, hread, himages, -⟩ := expandBody_eq_ok_iff.mp hbody
  have hreading : Reading 0 (text.drop 0) lexemes := reading_of_lexText ((scanText_failure_eq_none_iff text).mp hscan).1
  rw [← hreading.isolates_iff hd.text_eq]
  constructor
  · rintro ⟨front, back, hlexemes, hfront, hback, -⟩
    exact ⟨front, back, hlexemes, hfront, hback⟩
  · rintro ⟨front, back, hlexemes, hfront, hback⟩
    have hexpansion : body = image front ++ (d.toText ++ image back) := by
      rw [himages, show (lexText text).lexemes = _ from hlexemes, List.flatMap_append, List.flatMap_append,
        flatMap_image_characters]
    have hundeclared : Undeclared (image front) := by
      have hmem : ∀ l ∈ front, l ∈ lexemes := fun l hl => hlexemes ▸ List.mem_append_left _ hl
      have hcopied := copied_flatMap hs hmem fun l hl => hread l (hmem l hl)
      rw [hfront] at hcopied
      exact hcopied.undeclared hd.undeclared
    have herased : eraseFirst d.toText body = image front ++ image back := by
      rw [hexpansion]
      exact (FirstDeclaration.of_undeclared hundeclared hd.wellFormed (image back)).eraseFirst_eq
    refine ⟨front, back, hlexemes, hfront, hback, ?_, ?_⟩
    · rw [show expanded = _ from hbody, hexpansion]
    · rw [show expanded = _ from hbody, hout, herased]

/-- Tags stand right before and right behind the declaration. A value before it begins like a declaration, and a copy of
the declaration follows. -/
theorem wrap_leaves_out_declaration_iff_between_tags :
    let text := "<A x=\"\x7b#def z\"/>\x7b#def a #\x7d<A/>\x7b#def a #\x7d".toList
    let before := "<A x=\"\x7b#def z\"/>".toList
    let d : Declaration := ⟨" a ".toList⟩
    let after := "<A/>\x7b#def a #\x7d".toList
    let start := "\x7b%- import \"a.html\" as a_scope -%\x7d\n\x7b% macro b(a) %\x7d\n".toList
    let call := "\x7b% call a_scope::a(x=\"\x7b#def z\") %\x7d".toList
    let behind := "\x7b% call a_scope::a() %\x7d\x7b#def a #\x7d".toList
    FirstDeclaration text before d after ∧
      (expandBody {} text []).outcome = .ok (call ++ (d.toText ++ behind)) ∧
      wrap {} (Path.ofText "b.html".toList) text =
        .ok (start ++ (call ++ behind) ++ "\x7b% endmacro b %\x7d\n".toList) ∧
      ∃ front back, (lexText text).lexemes = front ++ (d.toText.map .character ++ back) ∧
        front.flatMap (·.source text) = before ∧ back.flatMap (·.source text) = after := by
  intro text before d after start call behind
  have hundeclared : Undeclared before := Declaration.find?_eq_none_iff.mp (by decide +kernel)
  have hbody : d.WellFormed := ⟨⟨' ', by decide +kernel, by decide⟩, by decide +kernel⟩
  have hfirst : FirstDeclaration text before d after := by
    have htext : text = before ++ (d.toText ++ after) := by decide +kernel
    rw [htext]
    exact .of_undeclared hundeclared hbody after
  have hout : wrap {} (Path.ofText "b.html".toList) text =
      .ok (start ++ (call ++ behind) ++ "\x7b% endmacro b %\x7d\n".toList) := by decide +kernel
  have hapart : ∀ l ∈ (lexText text).lexemes, ∀ e ∈ l.extent?,
      e.stop ≤ before.length ∨ before.length + d.toText.length ≤ e.start := by decide +kernel
  obtain ⟨front, back, hlexemes, hfront, hback, -⟩ :=
    (wrap_leaves_out_declaration_iff (by decide +kernel) hout hfirst).mpr hapart
  exact ⟨hfirst, by decide +kernel, hout, front, back, hlexemes, hfront, hback⟩

/-- A declaration with a tag in it stays in the body, and a declaration in a value is taken out of the value. If the
suffix of the scope names is the declaration, it is taken out of the name of a scope. -/
theorem declaration_around_tag_stays :
    let page := Path.ofText "a.html".toList
    let around := "\x7b#def a <B/> #\x7d".toList
    let inside := "<B x=\"\x7b#def a #\x7d\"/>".toList
    let piece := "\x7b#def a #\x7d".toList
    Declaration.find? around = some ⟨" a <B/> ".toList⟩ ∧
      wrap {} page around =
        .ok ("\x7b%- import \"b.html\" as b_scope -%\x7d\n\x7b% macro a(a, <B/>) %\x7d\n".toList ++
          "\x7b#def a \x7b% call b_scope::b() %\x7d #\x7d".toList ++ "\x7b% endmacro a %\x7d\n".toList) ∧
      wrap {} page inside =
        .ok ("\x7b%- import \"b.html\" as b_scope -%\x7d\n\x7b% macro a(a) %\x7d\n".toList ++
          "\x7b% call b_scope::b(x=\"\") %\x7d".toList ++ "\x7b% endmacro a %\x7d\n".toList) ∧
      wrap { scopeSuffix := piece } page ("<B/>".toList ++ piece) =
        .ok ("\x7b%- import \"b.html\" as b".toList ++ piece ++ " -%\x7d\n\x7b% macro a(a) %\x7d\n".toList ++
          "\x7b% call b::b() %\x7d".toList ++ piece ++ "\x7b% endmacro a %\x7d\n".toList) := by
  decide +kernel

end ComponentTags
