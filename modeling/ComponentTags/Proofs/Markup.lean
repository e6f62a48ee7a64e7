import ComponentTags.Proofs.AttributePrinting
import ComponentTags.Proofs.FlatExpansion
import ComponentTags.Proofs.Registry

/-!
# Trees of components, written and expanded

A tree of texts and components can be written as a template, and it can be turned into directives directly. Expanding
the written template gives the same directives, and puts the scopes of the components into use in the order in which
the tree is written. The values of attributes may hold quotes, brackets, blanks, `<`, `>` and `/`, as far as the grammar
of values lets them.

Templates that are written in another way, with blanks inside closing tags or around equals signs, are not covered.
-/

namespace ComponentTags

/-- The characters that may stand outside of the quotes and brackets of a written value: a blank would end the value,
and a `>` the tag. -/
def isPlainInTag (c : Char) : Bool := !isBlank c && c != '>'

/-- The name and the attributes of a component. -/
structure Tag where
  /-- The component's name. -/
  name : Text
  /-- The attributes in their order. -/
  attributes : List Attribute
  /-- The name can be told from other text. -/
  isTagName : IsTagName name
  /-- The attributes can be written and read again. -/
  wellFormed : ∀ a ∈ attributes, a.WellFormed isPlainInTag

/-- The last attribute does not end in a slash, which would be taken for that of a self-closing tag. -/
def Tag.LeavesOpen (tag : Tag) : Prop :=
  ∀ name value, tag.attributes.getLast? = some (.named name value) → value.getLast? ≠ some '/'

/-- A tree of texts and components. -/
inductive Markup where
  /-- Text without a `<`. -/
  | text (value : Text) (noMark : '<' ∉ value)
  /-- A component without content. -/
  | selfClosing (tag : Tag)
  /-- A component around other trees. -/
  | paired (tag : Tag) (leavesOpen : tag.LeavesOpen) (content : List Markup)

/-- What stands in an opening tag between the name and the `>`. -/
def Tag.between (tag : Tag) (selfClosing : Bool) : Text :=
  Attribute.printAll tag.attributes ++ if selfClosing then [' ', '/'] else []

/-- An opening tag as it is written. -/
def Tag.print (tag : Tag) (selfClosing : Bool) : Text :=
  '<' :: (tag.name ++ (tag.between selfClosing ++ ['>']))

/-- A closing tag as it is written. -/
def Tag.printClosing (tag : Tag) : Text := '<' :: '/' :: (tag.name ++ ['>'])

mutual

/-- A tree as it is written in a template. -/
def Markup.print : Markup → Text
  | .text value _ => value
  | .selfClosing tag => tag.print true
  | .paired tag _ content => tag.print false ++ (Markup.printAll content ++ tag.printClosing)

/-- Trees written one after another. -/
def Markup.printAll : List Markup → Text
  | [] => []
  | tree :: trees => tree.print ++ Markup.printAll trees

end

mutual

/-- The directives for a tree. -/
def Markup.emit (options : Options) : Markup → Text
  | .text value _ => value
  | .selfClosing tag =>
    Directive.component options.closeSelfClosing (options.scope tag.name).name tag.name tag.attributes none
  | .paired tag _ content =>
    Directive.component options.closeSelfClosing (options.scope tag.name).name tag.name tag.attributes
      (some (Markup.emitAll options content))

/-- The directives for trees one after another. -/
def Markup.emitAll (options : Options) : List Markup → Text
  | [] => []
  | tree :: trees => tree.emit options ++ Markup.emitAll options trees

end

mutual

/-- The scopes of the components of a tree, each before those of its content. -/
def Markup.scopes (naming : Naming) : Markup → List Scope
  | .text _ _ => []
  | .selfClosing tag => [naming.scope tag.name]
  | .paired tag _ content => naming.scope tag.name :: Markup.scopesAll naming content

/-- The scopes of trees one after another. -/
def Markup.scopesAll (naming : Naming) : List Markup → List Scope
  | [] => []
  | tree :: trees => tree.scopes naming ++ Markup.scopesAll naming trees

end

theorem isPlainInTag_eq_true {c : Char} (h : isPlainInTag c = true) : isBlank c = false ∧ c ≠ '>' := by
  simpa [isPlainInTag] using h

/-- The search for the end of a tag passes over what stands before it. -/
theorem Tag.between_expression (tag : Tag) (selfClosing : Bool) :
    Expression (· != '>') (tag.between selfClosing) := by
  have ha := Attribute.printAll_expression tag.wellFormed fun c hc => (isPlainInTag_eq_true hc).2
  refine ha.append ?_
  cases selfClosing with
  | false => exact .nil
  | true => exact .of_forall (by simp [isQuote, closerOf?, isCloser])

/-- The attribute list of a written tag reaches to the slash, or to the end of the tag if there is none. -/
def Tag.attributesLength (tag : Tag) (selfClosing : Bool) : Nat :=
  (Attribute.printAll tag.attributes).length + if selfClosing then 1 else 0

/-- The last character of the attributes is no blank, and no slash if the tag is left open. -/
theorem Tag.getLast?_attributes (tag : Tag) (h : tag.LeavesOpen) {last : Char}
    (hlast : (Attribute.printAll tag.attributes).getLast? = some last) : isBlank last = false ∧ last ≠ '/' := by
  obtain ⟨a, ha, hargument⟩ := Attribute.getLast?_printAll tag.wellFormed hlast
  have hwell := tag.wellFormed a (List.mem_of_getLast? ha)
  obtain ⟨hblank, hslash⟩ := hwell.getLast?_argument (fun c hc => (isPlainInTag_eq_true hc).1) hargument
  refine ⟨hblank, fun he => ?_⟩
  obtain ⟨name, value, rfl, hvalue⟩ := hslash he
  exact h name value ha hvalue

/-- The mark that the written tag is recognised as. Its end is looked at from behind: blanks first, then one slash. -/
theorem Tag.ofEnd_eq (tag : Tag) {selfClosing : Bool} (h : selfClosing = false → tag.LeavesOpen) (rest : Text) :
    OpeningMark.ofEnd tag.name (tag.between selfClosing ++ '>' :: rest)
        (tag.name.length + 1 + (tag.between selfClosing).length) =
      ⟨tag.name, tag.name.length + 1 + tag.attributesLength selfClosing, selfClosing,
        (tag.print selfClosing).length⟩ := by
  have hsize : (tag.print selfClosing).length =
      tag.name.length + 1 + (tag.between selfClosing).length + 1 := by
    simp only [print, List.length_cons, List.length_append, List.length_nil]
    omega
  rw [OpeningMark.ofEnd, Nat.add_sub_cancel_left, List.take_left, hsize]
  cases selfClosing with
  | true =>
    have hslash : isBlank '/' = false := by decide
    simp [between, attributesLength, hslash]
  | false =>
    simp only [between, attributesLength, Bool.false_eq_true, if_false, List.append_nil, Nat.add_zero]
    cases hr : (Attribute.printAll tag.attributes).reverse with
    | nil =>
      have hnil : Attribute.printAll tag.attributes = [] := List.reverse_eq_nil_iff.mp hr
      simp [hnil]
    | cons last kept =>
      have hlast : (Attribute.printAll tag.attributes).getLast? = some last := by
        rw [← List.head?_reverse, hr]
        rfl
      have hlength : (Attribute.printAll tag.attributes).length = kept.length + 1 := by
        rw [← List.length_reverse, hr, List.length_cons]
      obtain ⟨hblank, hslash⟩ := tag.getLast?_attributes (h rfl) hlast
      simp [hblank, hslash, hlength]
      omega

/-- A written opening tag is recognised in every window that holds it. -/
theorem Tag.markAt?_print (tag : Tag) {selfClosing : Bool} (h : selfClosing = false → tag.LeavesOpen) {left : Nat}
    (hl : (tag.print selfClosing).length ≤ left + 1) (rest : Text) :
    markAt? left (tag.name ++ (tag.between selfClosing ++ '>' :: rest)) =
      .ok (some (.opening ⟨tag.name, tag.name.length + 1 + tag.attributesLength selfClosing, selfClosing,
        (tag.print selfClosing).length⟩)) := by
  have hfollows : ∀ c ∈ (tag.between selfClosing ++ '>' :: rest).head?,
      (isBlank c || c == '/' || c == '>') = true := by
    unfold between
    cases tag.attributes with
    | nil => cases selfClosing <;> simp [isBlank]
    | cons a attributes => simp [isBlank]
  have hend : tagEnd [] (tag.name.length + 1) (left - tag.name.length) (tag.between selfClosing ++ '>' :: rest) =
      .ok (some (tag.name.length + 1 + (tag.between selfClosing).length)) := by
    simp only [print, List.length_cons, List.length_append, List.length_nil] at hl
    obtain ⟨less, hless⟩ : ∃ n, left - tag.name.length - (tag.between selfClosing).length = n + 1 :=
      ⟨left - tag.name.length - (tag.between selfClosing).length - 1, by omega⟩
    rw [(tag.between_expression selfClosing).tagEnd_eq (by simp) (by simp) _ (by omega), hless]
    simp [tagEnd, isQuote, closerOf?]
  rw [markAt?, tag.isTagName.closingMark?_eq_none, openingMark?_eq_of_tagEnd tag.isTagName hfollows hend,
    tag.ofEnd_eq h]

/-- A written closing tag is recognised in every window that holds it. -/
theorem Tag.markAt?_printClosing (tag : Tag) {left : Nat} (hl : tag.printClosing.length ≤ left + 1) (rest : Text) :
    markAt? left ('/' :: (tag.name ++ '>' :: rest)) = .ok (some (.closing ⟨tag.name, tag.printClosing.length⟩)) := by
  have hsize : tag.printClosing.length = tag.name.length + 3 := by simp [printClosing]
  have hc := closingMark?_eq tag.isTagName (List.forall_mem_nil _) rest (show tag.name.length + 0 + 2 ≤ left by omega)
  rw [markAt?]
  simp_all

/-- The lexeme of an opening tag that is written at `offset`. -/
def Tag.lexeme (tag : Tag) (selfClosing : Bool) (offset : Nat) : Lexeme :=
  .opening tag.name
    ⟨offset + (tag.name.length + 1), offset + (tag.name.length + 1 + tag.attributesLength selfClosing)⟩
    ⟨offset, offset + (tag.print selfClosing).length⟩ selfClosing

/-- The lexeme of a closing tag that is written at `offset`. -/
def Tag.closingLexeme (tag : Tag) (offset : Nat) : Lexeme :=
  .closing tag.name ⟨offset, offset + tag.printClosing.length⟩

/-- A printed opening tag is read as one lexeme, whatever comes behind it. -/
theorem Tag.lexFrom_print (tag : Tag) {selfClosing : Bool} (h : selfClosing = false → tag.LeavesOpen) (offset : Nat)
    {left : Nat} (hl : (tag.print selfClosing).length ≤ left) (rest : Text) :
    lexFrom offset left (tag.print selfClosing ++ rest) =
      (lexFrom (offset + (tag.print selfClosing).length) (left - (tag.print selfClosing).length) rest).prepend
        [tag.lexeme selfClosing offset] := by
  obtain ⟨left, rfl⟩ : ∃ n, left = n + 1 := ⟨left - 1, by simp only [print, List.length_cons] at hl; omega⟩
  have hm := tag.markAt?_print h hl rest
  rw [show tag.name ++ (tag.between selfClosing ++ '>' :: rest) =
    tag.name ++ (tag.between selfClosing ++ ['>']) ++ rest by simp] at hm
  exact lexFrom_mark_append hm rfl offset

/-- A printed closing tag is read as one lexeme, whatever comes behind it. -/
theorem Tag.lexFrom_printClosing (tag : Tag) (offset : Nat) {left : Nat} (hl : tag.printClosing.length ≤ left)
    (rest : Text) :
    lexFrom offset left (tag.printClosing ++ rest) =
      (lexFrom (offset + tag.printClosing.length) (left - tag.printClosing.length) rest).prepend
        [tag.closingLexeme offset] := by
  obtain ⟨left, rfl⟩ : ∃ n, left = n + 1 := ⟨left - 1, by simp only [printClosing, List.length_cons] at hl; omega⟩
  have hm := tag.markAt?_printClosing hl rest
  rw [show '/' :: (tag.name ++ '>' :: rest) = '/' :: (tag.name ++ ['>']) ++ rest by simp] at hm
  exact lexFrom_mark_append hm rfl offset

/-- The attributes of a written tag are read back from the text. -/
theorem Tag.attributesIn_print (tag : Tag) {selfClosing : Bool} {whole rest : Text} {offset : Nat}
    (h : whole.drop offset = tag.print selfClosing ++ rest) :
    ∃ found, attributesIn whole ⟨offset + (tag.name.length + 1),
        offset + (tag.name.length + 1 + tag.attributesLength selfClosing)⟩ = .ok found ∧
      found.map (·.item) = tag.attributes := by
  have htext : whole.drop (offset + (tag.name.length + 1)) = tag.between selfClosing ++ '>' :: rest := by
    rw [← List.drop_drop, h]
    simp [print]
  have hlength : offset + (tag.name.length + 1 + tag.attributesLength selfClosing) -
      (offset + (tag.name.length + 1)) = tag.attributesLength selfClosing := by omega
  have hplain (c : Char) (hc : isPlainInTag c = true) : isBlank c = false := (isPlainInTag_eq_true hc).1
  rw [attributesIn, htext, hlength]
  cases selfClosing with
  | true =>
    have hread := attributesFrom_printAll tag.wellFormed hplain (show ∀ c ∈ [' '], isBlank c = true by simp [isBlank])
      (offset + (tag.name.length + 1)) ('/' :: '>' :: rest)
    simpa [between, attributesLength] using hread
  | false =>
    have hread := attributesFrom_printAll tag.wellFormed hplain (List.forall_mem_nil _)
      (offset + (tag.name.length + 1)) ('>' :: rest)
    simpa [between, attributesLength] using hread

/-- The lexeme of a written tag can be read, and its image is the call with the attributes of the tag. -/
theorem Tag.lexeme_readable (tag : Tag) (options : Options) {selfClosing : Bool} {whole rest : Text} {offset : Nat}
    (h : whole.drop offset = tag.print selfClosing ++ rest) :
    (tag.lexeme selfClosing offset).Readable whole ∧
      (tag.lexeme selfClosing offset).image options whole =
        Directive.call (options.scope tag.name).name tag.name tag.attributes ++
          if selfClosing && options.closeSelfClosing then Directive.endCall else [] := by
  obtain ⟨found, hfound, hitems⟩ := tag.attributesIn_print h
  refine ⟨⟨found, hfound⟩, ?_⟩
  rw [lexeme, Lexeme.image_opening hfound, hitems]

/-- In the text `whole`, what is written at `offset` is read as well nested lexemes that have the given image and
scopes. They are the same in every window that holds them. -/
def ReadsAs (options : Options) (whole : Text) (offset : Nat) (printed image : Text) (scopes : List Scope) : Prop :=
  ∀ rest, whole.drop offset = printed ++ rest → ∃ ls,
    (∀ left, printed.length ≤ left → lexFrom offset left (printed ++ rest) =
      (lexFrom (offset + printed.length) (left - printed.length) rest).prepend ls) ∧
    WellNested ls ∧ (∀ l ∈ ls, l.Readable whole) ∧ ls.flatMap (·.image options whole) = image ∧
    ls.filterMap (·.scope? options.toNaming) = scopes

section ReadsAs

variable {options : Options} {whole : Text} {offset : Nat}

theorem ReadsAs.nil : ReadsAs options whole offset [] [] [] := by
  intro rest _
  exact ⟨[], by simp, .nil, by simp, rfl, rfl⟩

/-- Writings one after another are read one after another. -/
theorem ReadsAs.append {front back frontImage backImage : Text} {frontScopes backScopes : List Scope}
    (hf : ReadsAs options whole offset front frontImage frontScopes)
    (hb : ReadsAs options whole (offset + front.length) back backImage backScopes) :
    ReadsAs options whole offset (front ++ back) (frontImage ++ backImage) (frontScopes ++ backScopes) := by
  intro rest ht
  rw [List.append_assoc] at ht
  have htback : whole.drop (offset + front.length) = back ++ rest := by
    rw [← List.drop_drop, ht, List.drop_left]
  obtain ⟨fs, hfs, hfn, hfr, rfl, rfl⟩ := hf _ ht
  obtain ⟨bs, hbs, hbn, hbr, rfl, rfl⟩ := hb _ htback
  refine ⟨fs ++ bs, ?_, hfn.append hbn, ?_, List.flatMap_append, List.filterMap_append⟩
  · intro left hl
    rw [List.length_append] at hl ⊢
    rw [List.append_assoc, hfs left (by omega), hbs _ (by omega), Lexing.prepend_prepend, ← Nat.add_assoc,
      Nat.sub_sub]
  · intro l hl
    rcases List.mem_append.mp hl with hl | hl
    · exact hfr l hl
    · exact hbr l hl

/-- A character other than `<` is read as it is. -/
theorem ReadsAs.character {c : Char} (hc : c ≠ '<') : ReadsAs options whole offset [c] [c] [] := by
  intro rest _
  refine ⟨[.character c], ?_, .character c .nil, ?_, rfl, rfl⟩
  · intro left hl
    obtain ⟨left, rfl⟩ : ∃ n, left = n + 1 := ⟨left - 1, by simp at hl; omega⟩
    exact lexFrom_text hc offset left rest
  · intro l hl
    obtain rfl := List.mem_singleton.mp hl
    trivial

/-- Text without a `<` is read as itself. -/
theorem ReadsAs.text {value : Text} (h : '<' ∉ value) : ReadsAs options whole offset value value [] := by
  induction value generalizing offset with
  | nil => exact .nil
  | cons c value ih =>
    have hc : c ≠ '<' := fun he => h (by simp [he])
    exact (ReadsAs.character hc).append (ih fun hm => h (List.mem_cons_of_mem _ hm))

/-- A self-closing tag is read as its component. -/
theorem ReadsAs.selfClosing (tag : Tag) :
    ReadsAs options whole offset (tag.print true)
      (Directive.component options.closeSelfClosing (options.scope tag.name).name tag.name tag.attributes none)
      [options.scope tag.name] := by
  intro rest ht
  obtain ⟨hread, himage⟩ := tag.lexeme_readable options ht
  refine ⟨[tag.lexeme true offset], ?_, .selfClosing _ _ _ .nil, ?_, ?_, rfl⟩
  · intro left hl
    exact tag.lexFrom_print (by simp) offset hl rest
  · intro l hl
    obtain rfl := List.mem_singleton.mp hl
    exact hread
  · rw [List.flatMap_singleton, himage, Directive.component]
    cases options.closeSelfClosing <;> simp

/-- An opening and a closing tag are read as the component around what stands between them. -/
theorem ReadsAs.paired {tag : Tag} (h : tag.LeavesOpen) {inner image : Text} {scopes : List Scope}
    (hi : ReadsAs options whole (offset + (tag.print false).length) inner image scopes) :
    ReadsAs options whole offset (tag.print false ++ (inner ++ tag.printClosing))
      (Directive.component options.closeSelfClosing (options.scope tag.name).name tag.name tag.attributes
        (some image))
      (options.scope tag.name :: scopes) := by
  intro rest ht
  rw [List.append_assoc, List.append_assoc] at ht
  have htinner : whole.drop (offset + (tag.print false).length) = inner ++ (tag.printClosing ++ rest) := by
    rw [← List.drop_drop, ht, List.drop_left]
  obtain ⟨hread, himage⟩ := tag.lexeme_readable options ht
  obtain ⟨ls, hls, hn, hr, rfl, rfl⟩ := hi _ htinner
  refine ⟨tag.lexeme false offset :: (ls ++ [tag.closingLexeme (offset + (tag.print false).length + inner.length)]),
    ?_, .pair _ _ _ _ hn .nil, ?_, ?_, ?_⟩
  · intro left hl
    simp only [List.length_append] at hl ⊢
    rw [List.append_assoc, List.append_assoc, tag.lexFrom_print (fun _ => h) offset (by omega), hls _ (by omega),
      tag.lexFrom_printClosing _ (by omega)]
    simp [Nat.add_assoc, Nat.sub_sub]
  · intro l hl
    simp only [List.mem_cons, List.mem_append, List.not_mem_nil, or_false] at hl
    rcases hl with rfl | hl | rfl
    · exact hread
    · exact hr l hl
    · trivial
  · have hclosing (start : Nat) : (tag.closingLexeme start).image options whole = Directive.endCall :=
      Lexeme.image_closing _ _ _ _
    simp [himage, hclosing, Directive.component]
  · simp [Tag.lexeme, Tag.closingLexeme, Lexeme.scope?]

variable (options whole)

mutual

/-- A written tree is read as its directives. -/
theorem Markup.print_readsAs (tree : Markup) (offset : Nat) :
    ReadsAs options whole offset tree.print (tree.emit options) (tree.scopes options.toNaming) := by
  cases tree with
  | text value noMark => exact .text noMark
  | selfClosing tag => exact .selfClosing tag
  | paired tag leavesOpen content => exact .paired leavesOpen (Markup.printAll_readsAs content _)

/-- Printed trees are read one after another, each as itself. -/
theorem Markup.printAll_readsAs (trees : List Markup) (offset : Nat) :
    ReadsAs options whole offset (Markup.printAll trees) (Markup.emitAll options trees)
      (Markup.scopesAll options.toNaming trees) := by
  cases trees with
  | nil => exact .nil
  | cons tree trees => exact (Markup.print_readsAs tree offset).append (Markup.printAll_readsAs trees _)

end

end ReadsAs

/-- Trees of texts and components that are written as a template expand to their directives, for all options, and put
their scopes into use in the order in which the components are opened. -/
theorem expandBody_printAll (options : Options) (trees : List Markup) :
    expandBody options (Markup.printAll trees) [] =
      ⟨.ok (Markup.emitAll options trees), (Markup.scopesAll options.toNaming trees).eraseDups⟩ := by
  obtain ⟨ls, hls, hn, hr, himage, hscopes⟩ :=
    Markup.printAll_readsAs options (Markup.printAll trees) trees 0 [] (List.append_nil _).symm
  have hlex : lexText (Markup.printAll trees) = ⟨ls, none⟩ := by
    have hread := hls (Markup.printAll trees).length (Nat.le_refl _)
    rw [List.append_nil, Nat.sub_self] at hread
    simpa [lexText, lexWindow, lexFrom, Lexing.prepend] using hread
  have hscan : (scanText (Markup.printAll trees)).failure = none := by
    rw [scanText_failure_eq_none_iff, hlex]
    exact ⟨rfl, hn⟩
  have hfollows := expandBody_follows hscan options []
  rw [hlex] at hfollows
  rcases hx : expandBody options (Markup.printAll trees) [] with ⟨outcome, registry⟩
  rw [hx] at hfollows
  cases outcome with
  | error e =>
    obtain ⟨l, hl, hf⟩ := hfollows
    exact absurd (hr l hl) hf.not_readable
  | ok out =>
    obtain ⟨-, hout, hregistry⟩ := hfollows
    dsimp only at hregistry
    rw [hout, himage, hregistry, hscopes, Registry.foldl_add_nil]

/-- Values with blanks, a `>` and a slash, in a component around another one. -/
theorem expandBody_printAll_nested :
    ∃ trees, Markup.printAll trees = "<Card size=(1 > 2) title=\"/>\"><Icon up /></Card>".toList ∧
      expandBody {} (Markup.printAll trees) [] =
        ⟨.ok (Markup.emitAll {} trees), (Markup.scopesAll {} trees).eraseDups⟩ := by
  have hsize : Attribute.WellFormed isPlainInTag (.named "size".toList "(1 > 2)".toList) := by
    refine ⟨⟨'s', "ize".toList, rfl, by decide, List.all_eq_true.mp (by decide)⟩, .bare (by decide) ?_⟩
    have hinner : Expression (fun _ => true) "1 > 2".toList :=
      .of_forall (by simp [isQuote, closerOf?, isCloser])
    exact .bracketed (show closerOf? '(' = some ')' by decide) hinner .nil
  have htitle : Attribute.WellFormed isPlainInTag (.named "title".toList "\"/>\"".toList) := by
    refine ⟨⟨'t', "itle".toList, rfl, by decide, List.all_eq_true.mp (by decide)⟩, .quoted (by decide) ?_⟩
    exact .plain (by decide) (by decide) (.plain (by decide) (by decide) (.close (by decide)))
  have hup : Attribute.WellFormed isPlainInTag (.shorthand "up".toList) :=
    ⟨'u', "p".toList, rfl, by decide, List.all_eq_true.mp (by decide)⟩
  have hcard : IsTagName "Card".toList := ⟨'C', "ard".toList, rfl, by decide, List.all_eq_true.mp (by decide)⟩
  have hicon : IsTagName "Icon".toList := ⟨'I', "con".toList, rfl, by decide, List.all_eq_true.mp (by decide)⟩
  refine ⟨[.paired ⟨_, _, hcard, List.forall_mem_cons.mpr ⟨hsize, List.forall_mem_singleton.mpr htitle⟩⟩ ?_
    [.selfClosing ⟨_, _, hicon, List.forall_mem_singleton.mpr hup⟩]], rfl, expandBody_printAll {} _⟩
  intro name value hlast
  obtain ⟨-, rfl⟩ : "title".toList = name ∧ "\"/>\"".toList = value := by simpa using hlast
  decide

end ComponentTags
