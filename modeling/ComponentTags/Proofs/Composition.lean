import ComponentTags.Proofs.MarkContext
import ComponentTags.Proofs.Markup

/-!
# Templates put together

Templates that have expansions can be put together in two ways. One that is empty or begins with a `<` can follow
another, and one can be the content of a component without attributes. The result has an expansion, which is made of
the expansions of the parts, and the scopes in use are those of the parts, each once.

The parts are read at other places and with other neighbours than before. Their lexemes are shifted and otherwise the
same, and their attribute lists are read from the same characters.

A template that follows another one and begins with some other character is not covered: it can go on with a name at the
end of the first one.
-/

namespace ComponentTags

/-- A lexeme of a part can be read in the whole as in the part, and has the same image. -/
theorem Lexeme.shift_readable {text whole behind : Text} {n : Nat} {l : Lexeme} (hw : whole.drop n = text ++ behind)
    (hl : l ∈ (lexText text).lexemes) (h : l.Readable text) (options : Options) :
    (l.shift n).Readable whole ∧ (l.shift n).image options whole = l.image options text := by
  have hwithin := within_of_mem_lexText hl
  cases l with
  | character c => exact ⟨trivial, rfl⟩
  | closing name extent => exact ⟨trivial, rfl⟩
  | opening name attributes extent selfClosing =>
    obtain ⟨found, hfound⟩ := h
    obtain ⟨-, -, -, hlo, hhi, hle⟩ := hwithin
    obtain ⟨w, rest, hdrop, hextent⟩ := Extent.exists_split hlo (show attributes.stop ≤ text.length by omega)
    have hmoved : whole.drop (n + attributes.start) = w ++ (rest ++ behind) := by
      rw [← List.drop_drop, hw, List.drop_append_of_le_length (by omega), hdrop, List.append_assoc]
    have hshift : attributes.shift n = ⟨n + attributes.start, n + attributes.start + w.length⟩ := by
      rw [hextent, Extent.shift, Nat.add_assoc]
    rw [hextent] at hfound
    obtain ⟨moved, hread, hitems⟩ := attributesIn_move hdrop hmoved hfound
    rw [← hshift] at hread
    rw [← hextent] at hfound
    refine ⟨⟨moved, hread⟩, ?_⟩
    rw [shift, image_opening hread, image_opening hfound, hitems]

/-- The place of a tag does not matter to its scope. -/
theorem Lexeme.scope?_shift (naming : Naming) (n : Nat) (l : Lexeme) :
    (l.shift n).scope? naming = l.scope? naming := by
  cases l <;> rfl

/-- A text and its place in a larger one: all of its lexemes can be read there, with the images and scopes that they
have in the text by itself. -/
theorem lexemes_shift_readable {options : Options} {text whole behind out : Text} {used : Registry} {n : Nat}
    (hw : whole.drop n = text ++ behind) (h : expandBody options text [] = ⟨.ok out, used⟩) :
    (∀ l ∈ (lexText text).lexemes.map (·.shift n), l.Readable whole) ∧
      ((lexText text).lexemes.map (·.shift n)).flatMap (·.image options whole) = out ∧
      (((lexText text).lexemes.map (·.shift n)).filterMap (·.scope? options.toNaming)).foldl Registry.add [] =
        used := by
  obtain ⟨-, hread, rfl, rfl⟩ := expandBody_eq_ok_iff.mp h
  refine ⟨?_, ?_, ?_⟩
  · intro l hl
    obtain ⟨l, hmem, rfl⟩ := List.mem_map.mp hl
    exact (Lexeme.shift_readable hw hmem (hread l hmem) options).1
  · have himage : (lexText text).lexemes.map (fun l => (l.shift n).image options whole) =
        (lexText text).lexemes.map (·.image options text) :=
      List.map_congr_left fun l hl => (Lexeme.shift_readable hw hl (hread l hl) options).2
    rw [List.flatMap_map, List.flatMap, himage, ← List.flatMap]
  · have hscope : (fun l : Lexeme => l.scope? options.toNaming) ∘ Lexeme.shift n = (·.scope? options.toNaming) :=
      funext fun l => Lexeme.scope?_shift options.toNaming n l
    rw [List.filterMap_map, hscope]

/-- One template behind another. -/
theorem lexText_append {front back : Text} (hf : (lexText front).failure = none) (hb : (lexText back).failure = none)
    (hd : ∀ c ∈ back.head?, Divides c) :
    lexText (front ++ back) =
      ⟨(lexText front).lexemes ++ (lexText back).lexemes.map (·.shift front.length), none⟩ := by
  have hback := ((reading_of_lexText hb).shift front.length).lexFrom_eq
  have hleft : (front ++ back).length - front.length = back.length := by simp
  calc lexText (front ++ back)
      = (lexFrom (0 + front.length) ((front ++ back).length - front.length) back).prepend (lexText front).lexemes :=
        (reading_of_lexText hf).lexFrom_append hd (by simp) (Nat.le_refl _)
    _ = _ := by
        rw [hleft, Nat.add_comm, hback]
        rfl

/-- A template between the tags of a component. -/
theorem lexText_paired {tag : Tag} (ht : tag.LeavesOpen) {inner : Text} (hi : (lexText inner).failure = none) :
    lexText (tag.print false ++ (inner ++ tag.printClosing)) =
      ⟨tag.lexeme false 0 :: ((lexText inner).lexemes.map (·.shift (tag.print false).length) ++
        [tag.closingLexeme ((tag.print false).length + inner.length)]), none⟩ := by
  have hinner := (reading_of_lexText hi).shift (tag.print false).length
  have hdivides : ∀ c ∈ tag.printClosing.head?, Divides c := by
    intro c hc
    obtain rfl : '<' = c := by simpa [Tag.printClosing] using hc
    exact divides_mark
  have hbehind := hinner.lexFrom_append hdivides (by simp) (Nat.le_refl _)
  have hclosing := tag.lexFrom_printClosing ((tag.print false).length + inner.length) (Nat.le_refl _) []
  rw [List.append_nil] at hclosing
  have hopening : (tag.print false ++ (inner ++ tag.printClosing)).length - (tag.print false).length =
      (inner ++ tag.printClosing).length := by simp
  have hleft : (inner ++ tag.printClosing).length - inner.length = tag.printClosing.length := by simp
  calc lexText (tag.print false ++ (inner ++ tag.printClosing))
      = (lexFrom (0 + (tag.print false).length)
          ((tag.print false ++ (inner ++ tag.printClosing)).length - (tag.print false).length)
          (inner ++ tag.printClosing)).prepend [tag.lexeme false 0] :=
        tag.lexFrom_print (fun _ => ht) 0 (by simp) _
    _ = _ := by
        rw [hopening, Nat.add_comm, hbehind, hleft, Nat.add_zero, hclosing]
        simp [Lexing.prepend, lexFrom]

theorem Lexeme.map_shift_zero (ls : List Lexeme) : ls.map (·.shift 0) = ls := by
  have hid : (fun l : Lexeme => l.shift 0) = id := by
    funext l
    cases l <;> simp [shift, Extent.shift]
  rw [hid, List.map_id]

section Composed

variable {options : Options} {front back inner frontOut backOut out : Text} {frontUsed backUsed used : Registry}

/-- One template behind another: the expansions stand one behind the other, and the second one adds the scopes that are
new. -/
theorem expandBody_append (hf : expandBody options front [] = ⟨.ok frontOut, frontUsed⟩)
    (hb : expandBody options back [] = ⟨.ok backOut, backUsed⟩) (hd : ∀ c ∈ back.head?, Divides c) :
    expandBody options (front ++ back) [] =
      ⟨.ok (frontOut ++ backOut), frontUsed ++ backUsed.filter fun scope => scope ∉ frontUsed⟩ := by
  obtain ⟨hfailure, hnested⟩ := (scanText_failure_eq_none_iff front).mp (expandBody_eq_ok_iff.mp hf).1
  obtain ⟨hbfailure, hbnested⟩ := (scanText_failure_eq_none_iff back).mp (expandBody_eq_ok_iff.mp hb).1
  obtain ⟨hfread, rfl, rfl⟩ := lexemes_shift_readable (show (front ++ back).drop 0 = front ++ back from rfl) hf
  obtain ⟨hbread, rfl, rfl⟩ :=
    lexemes_shift_readable (show (front ++ back).drop front.length = back ++ [] by simp) hb
  rw [Lexeme.map_shift_zero] at hfread ⊢
  rw [expandBody_eq_ok_iff, scanText_failure_eq_none_iff, lexText_append hfailure hbfailure hd]
  refine ⟨⟨rfl, hnested.append (hbnested.shift _)⟩, ?_, ?_, ?_⟩
  · exact fun l hl => (List.mem_append.mp hl).elim (hfread l) (hbread l)
  · rw [List.flatMap_append]
  · rw [List.filterMap_append, List.foldl_append, ← Registry.foldl_add_eq_append]

/-- A template between the tags of a component: its expansion stands between the call and the end of that. -/
theorem expandBody_paired {tag : Tag} (ht : tag.LeavesOpen) (hi : expandBody options inner [] = ⟨.ok out, used⟩) :
    expandBody options (tag.print false ++ (inner ++ tag.printClosing)) [] =
      ⟨.ok (Directive.call (options.scope tag.name).name tag.name tag.attributes ++ out ++ Directive.endCall),
        options.scope tag.name :: used.filter fun scope => scope ≠ options.scope tag.name⟩ := by
  obtain ⟨hfailure, hnested⟩ := (scanText_failure_eq_none_iff inner).mp (expandBody_eq_ok_iff.mp hi).1
  have hdrop : (tag.print false ++ (inner ++ tag.printClosing)).drop (tag.print false).length =
      inner ++ tag.printClosing := List.drop_left
  obtain ⟨hread, rfl, rfl⟩ := lexemes_shift_readable hdrop hi
  obtain ⟨htag, himage⟩ := tag.lexeme_readable options
    (show (tag.print false ++ (inner ++ tag.printClosing)).drop 0 = _ from rfl)
  have hscope : (tag.lexeme false 0).scope? options.toNaming = some (options.scope tag.name) := rfl
  have hclosing (start : Nat) : (tag.closingLexeme start).scope? options.toNaming = none := rfl
  have hend (start : Nat) (whole : Text) : (tag.closingLexeme start).image options whole = Directive.endCall :=
    Lexeme.image_closing _ _ _ _
  rw [expandBody_eq_ok_iff, scanText_failure_eq_none_iff, lexText_paired ht hfailure]
  refine ⟨⟨rfl, .pair _ _ _ _ (hnested.shift _) .nil⟩, ?_, ?_, ?_⟩
  · intro l hl
    simp only [List.mem_cons, List.mem_append, List.not_mem_nil, or_false] at hl
    rcases hl with rfl | hl | rfl
    · exact htag
    · exact hread l hl
    · trivial
  · simp [himage, hend]
  · rw [List.filterMap_cons_some hscope, List.filterMap_append, List.filterMap_cons_none (hclosing _),
      List.filterMap_nil, List.append_nil, List.foldl_cons, Registry.foldl_add_eq_append (Registry.add [] _)]
    simp [Registry.add]

/-- The call of a component without attributes, letter by letter. -/
theorem Directive.call_nil (scopeName name : Text) :
    Directive.call scopeName name [] =
      "\x7b% call ".toList ++ scopeName ++ "::".toList ++ macroName name ++ "() %\x7d".toList := by
  have hparentheses : "(".toList ++ ", ".toList.intercalate [] ++ ") %\x7d".toList = "() %\x7d".toList := by
    decide +kernel
  delta Directive.call joinWith
  rw [List.map_nil, ← hparentheses]
  simp only [List.append_assoc]

end Composed

/-- Templates with expansions, put together. If the second one is empty or begins with a `<`, the first one followed
by it expands to both expansions, and the second one adds those of its scopes that are not yet in use. The first one
as the content of a component without attributes expands to the call of the component around its expansion; the scope
of the component is put into use first. -/
theorem expandBody_composed {options : Options} {front back frontOut backOut : Text}
    {frontUsed backUsed : Registry} (hf : expandBody options front [] = ⟨.ok frontOut, frontUsed⟩)
    (hb : expandBody options back [] = ⟨.ok backOut, backUsed⟩) :
    ((back = [] ∨ ∃ rest, back = '<' :: rest) →
      expandBody options (front ++ back) [] =
        ⟨.ok (frontOut ++ backOut), frontUsed ++ backUsed.filter fun scope => scope ∉ frontUsed⟩) ∧
    ∀ name, IsTagName name →
      let scope : Scope := ⟨macroName name ++ options.scopeSuffix, macroName name ++ '.' :: options.extension⟩
      expandBody options ('<' :: (name ++ '>' :: (front ++ '<' :: '/' :: (name ++ ['>'])))) [] =
        ⟨.ok ("\x7b% call ".toList ++ scope.name ++ "::".toList ++ macroName name ++ "() %\x7d".toList ++ frontOut ++
          "\x7b% endcall %\x7d".toList), scope :: frontUsed.filter fun other => other ≠ scope⟩ := by
  constructor
  · intro hstart
    refine expandBody_append hf hb ?_
    rcases hstart with rfl | ⟨rest, rfl⟩
    · simp
    · simpa using divides_mark
  · intro name hn scope
    let tag : Tag := ⟨name, [], hn, by simp⟩
    have hopen : tag.LeavesOpen := by simp [Tag.LeavesOpen, tag]
    have htag := expandBody_paired hopen hf
    have hprinted : tag.print false ++ (front ++ tag.printClosing) =
        '<' :: (name ++ '>' :: (front ++ '<' :: '/' :: (name ++ ['>']))) := by
      simp [Tag.print, Tag.between, Tag.printClosing, tag]
    rw [hprinted, Directive.call_nil] at htag
    exact htag

/-- The first text ends in what could be the beginning of a closing tag, and both use the same component. -/
theorem expandBody_composed_unfinished :
    let scopes : Registry := [⟨"a_scope".toList, "a.html".toList⟩, ⟨"c_scope".toList, "c.html".toList⟩]
    let front := "\x7b% call a_scope::a(x) %\x7d</B ".toList
    let back := "\x7b% call a_scope::a() %\x7d\x7b% call c_scope::c() %\x7d".toList
    expandBody {} "<A x/></B ".toList [] = ⟨.ok front, scopes.take 1⟩ ∧
      expandBody {} "<A/><C/>".toList [] = ⟨.ok back, scopes⟩ ∧
      expandBody {} "<A x/></B <A/><C/>".toList [] = ⟨.ok (front ++ back), scopes⟩ ∧
      expandBody {} "<A><A x/></B </A>".toList [] =
        ⟨.ok "\x7b% call a_scope::a() %\x7d\x7b% call a_scope::a(x) %\x7d</B \x7b% endcall %\x7d".toList,
          scopes.take 1⟩ := by
  intro scopes front back
  have hf : expandBody {} "<A x/></B ".toList [] = ⟨.ok front, scopes.take 1⟩ := by
    have hout : (expandBody {} "<A x/></B ".toList []).outcome = .ok front := by decide +kernel
    have hused : (expandBody {} "<A x/></B ".toList []).registry = scopes.take 1 := by decide +kernel
    rw [← hout, ← hused]
  have hb : expandBody {} "<A/><C/>".toList [] = ⟨.ok back, scopes⟩ := by
    have hout : (expandBody {} "<A/><C/>".toList []).outcome = .ok back := by decide +kernel
    have hused : (expandBody {} "<A/><C/>".toList []).registry = scopes := by decide +kernel
    rw [← hout, ← hused]
  have hname : IsTagName "A".toList := ⟨'A', [], rfl, by decide, by simp⟩
  have hscopes : (scopes.take 1 ++ scopes.filter fun scope => scope ∉ scopes.take 1) = scopes := by decide +kernel
  have happend := (expandBody_composed hf hb).1 (.inr ⟨_, rfl⟩)
  rw [hscopes] at happend
  have hpaired := (expandBody_composed hf hb).2 "A".toList hname
  have hspelled : "\x7b% call ".toList ++ (macroName "A".toList ++ "_scope".toList) ++ "::".toList ++
      macroName "A".toList ++ "() %\x7d".toList ++ front ++ "\x7b% endcall %\x7d".toList =
      "\x7b% call a_scope::a() %\x7d\x7b% call a_scope::a(x) %\x7d</B \x7b% endcall %\x7d".toList := by decide +kernel
  refine ⟨hf, hb, happend, ?_⟩
  rw [← hspelled]
  exact hpaired

end ComponentTags
