import ComponentTags.Proofs.AttributeGrammar
import ComponentTags.Proofs.ContentWindow
import ComponentTags.Proofs.MarkContext
import ComponentTags.Proofs.Registry

/-!
# Expanded texts hold no tags

Each tag is replaced by a directive, and what stood before it is copied. A `<` that was text could become a tag by its
new neighbours. It does not: a directive begins with a brace, which can follow no name in a tag. So an expanded text,
with its imports in front, holds no tag and expands to itself, for any options. The values of attributes, the
extension and the suffix of scopes are copied as they are, so this needs that no `<` is in them.
-/

namespace ComponentTags

/-- No `<` of the text begins a mark. -/
def Unmarked : Text → Prop
  | [] => True
  | c :: rest => (c = '<' → markAt? rest.length rest = .ok none) ∧ Unmarked rest

/-- A front without a `<` brings no mark. -/
theorem Unmarked.prepend {front rest : Text} (hf : '<' ∉ front) (hr : Unmarked rest) : Unmarked (front ++ rest) := by
  induction front with
  | nil => exact hr
  | cons c front ih =>
    rw [List.mem_cons, not_or] at hf
    exact ⟨fun hc => absurd hc.symm hf.1, ih hf.2⟩

/-- Such a text is read character by character. -/
theorem Unmarked.lexFrom_eq {text : Text} (h : Unmarked text) (offset : Nat) :
    lexFrom offset text.length text = ⟨text.map .character, none⟩ := by
  induction text generalizing offset with
  | nil => simp [lexFrom]
  | cons c text ih =>
    rw [List.length_cons]
    by_cases hc : c = '<'
    · rw [hc, lexFrom_plain (h.1 hc), ih h.2]
      rfl
    · rw [lexFrom_text hc, ih h.2]
      rfl

/-- If no tag is read in a text, all its characters are. -/
theorem Reading.eq_characters {offset : Nat} {text : Text} {ls : List Lexeme} (h : Reading offset text ls)
    (hc : ∀ l ∈ ls, ∃ c, l = .character c) : ls = text.map .character := by
  induction h with
  | nil => rfl
  | character _ _ ih => rw [List.map_cons, ih fun l hl => hc l (List.mem_cons_of_mem _ hl)]
  | @mark offset body rest m ls _ _ _ _ =>
    obtain ⟨d, hd⟩ := hc (.ofMark offset m) List.mem_cons_self
    cases m <;> cases hd

/-- Text is well nested. -/
theorem wellNested_characters (text : Text) : WellNested (text.map .character) := by
  induction text with
  | nil => exact .nil
  | cons c text ih => exact .character c ih

/-- A text is cut to its end without a component exactly if it is read character by character. -/
theorem scanText_plain_iff {text : Text} :
    ((scanText text).failure = none ∧ ∀ c, .component c ∉ (scanText text).segments) ↔
      lexText text = ⟨text.map .character, none⟩ := by
  constructor
  · rintro ⟨hs, hc⟩
    have hfailure := ((scanText_failure_eq_none_iff text).mp hs).1
    have hcharacters : ∀ l ∈ (lexText text).lexemes, ∃ c, l = .character c := by
      intro l hl
      rw [lexText, ← scanWindow_lexemes hs] at hl
      obtain ⟨s, hmem, hl⟩ := List.mem_flatMap.mp hl
      cases s with
      | component c => exact absurd hmem (hc c)
      | text value extent =>
        obtain ⟨c, -, rfl⟩ := List.mem_map.mp hl
        exact ⟨c, rfl⟩
    have hlexemes := (reading_of_lexText hfailure).eq_characters hcharacters
    rw [← hlexemes, ← hfailure]
  · intro h
    refine ⟨(scanText_failure_eq_none_iff text).mpr (by rw [h]; exact ⟨rfl, wellNested_characters text⟩), ?_⟩
    intro c hc
    obtain ⟨selfClosing, hl⟩ := c.exists_opening_mem text
    have hmem : _ ∈ (lexText text).lexemes := mem_lexWindow_of_segment hc hl
    rw [h] at hmem
    obtain ⟨d, -, hd⟩ := List.mem_map.mp hmem
    cases hd

/-- A text without tags expands to itself. -/
theorem expandDocument_of_characters {text : Text} (h : lexText text = ⟨text.map .character, none⟩)
    (options : Options) : expandDocument options text [] = ⟨.ok text, []⟩ := by
  have hbody : expandBody options text [] = ⟨.ok text, []⟩ := by
    rw [expandBody_eq_ok_iff, h]
    refine ⟨(scanText_plain_iff.mpr h).1, characters_readable text text,
      (flatMap_image_characters text text options).symm, ?_⟩
    rw [filterMap_scope?_characters]
    rfl
  rw [expandDocument, hbody]

/-- A text and its expansion are the same, or up to the first tag, where the expansion has a directive. -/
def AgreesToTag (text out : Text) : Prop :=
  text = out ∨ ∃ front rest behind, text = front ++ '<' :: rest ∧ out = front ++ '\x7b' :: behind

/-- One character that is copied in front. -/
theorem AgreesToTag.cons {text out : Text} (h : AgreesToTag text out) (c : Char) :
    AgreesToTag (c :: text) (c :: out) := by
  rcases h with rfl | ⟨front, rest, behind, rfl, rfl⟩
  · exact .inl rfl
  · exact .inr ⟨c :: front, rest, behind, rfl, rfl⟩

/-- A `<` in front of the text that begins no mark begins none in front of the expansion. -/
theorem AgreesToTag.markAt?_eq {text out : Text} (h : AgreesToTag text out) (hm : markAt? text.length text = .ok none) :
    markAt? out.length out = .ok none := by
  rcases h with rfl | ⟨front, rest, behind, rfl, rfl⟩
  · exact hm
  · exact markAt?_context hm (by simp) (by simpa using divides_mark.1) divides_brace (Nat.le_refl _)

/-- The lexeme is a character, or its image is a directive without a `<`. -/
def Lexeme.ImageUnmarked (options : Options) (text : Text) (l : Lexeme) : Prop :=
  (∃ c, l = .character c) ∨ (l.image options text).head? = some '\x7b' ∧ '<' ∉ l.image options text

/-- The images of the lexemes of a text, one after another, hold no mark. At a `<` that is text it is needed that the
rest of the text agrees with its images up to the next tag, so this is carried along. -/
theorem Reading.unmarked_images {offset : Nat} {text : Text} {ls : List Lexeme} (h : Reading offset text ls)
    {options : Options} {whole : Text} (hi : ∀ l ∈ ls, l.ImageUnmarked options whole) :
    Unmarked (ls.flatMap (·.image options whole)) ∧ AgreesToTag text (ls.flatMap (·.image options whole)) := by
  induction h with
  | nil => exact ⟨trivial, .inl rfl⟩
  | @character offset c rest ls hplain _ ih =>
    obtain ⟨hunmarked, hagrees⟩ := ih fun l hl => hi l (List.mem_cons_of_mem _ hl)
    exact ⟨⟨fun hc => hagrees.markAt?_eq (hplain hc), hunmarked⟩, hagrees.cons c⟩
  | @mark offset body rest m ls _ _ _ ih =>
    obtain ⟨hunmarked, -⟩ := ih fun l hl => hi l (List.mem_cons_of_mem _ hl)
    rcases hi (.ofMark offset m) List.mem_cons_self with ⟨d, hd⟩ | ⟨hbrace, hnot⟩
    · cases m <;> cases hd
    · obtain ⟨behind, hbehind⟩ := List.head?_eq_some_iff.mp hbrace
      rw [List.flatMap_cons]
      constructor
      · exact hunmarked.prepend hnot
      · rw [hbehind]
        exact .inr ⟨[], body ++ rest, _, rfl, rfl⟩

theorem mark_notMem_macroName {name : Text} (hn : IsTagName name) : '<' ∉ macroName name := by
  have hall : ∀ c ∈ name, c.isAlphanum = true := hn.forall_isTagChar
  rw [macroName_of_isAlphanum hall]
  intro hmem
  obtain ⟨c, hc, he⟩ := List.mem_map.mp hmem
  have hlower := isAlphanum_toLower (hall c hc)
  rw [he] at hlower
  exact absurd hlower (by decide)

/-- Parts without a `<` are joined to a text without one. -/
theorem mark_notMem_joinWith {separator : Text} {parts : List Text} (hs : '<' ∉ separator)
    (hp : ∀ part ∈ parts, '<' ∉ part) : '<' ∉ joinWith separator parts := by
  unfold joinWith
  induction parts with
  | nil => simp
  | cons part parts ih =>
    rw [List.forall_mem_cons] at hp
    cases parts with
    | nil => simpa using hp.1
    | cons next parts =>
      rw [List.intercalate_cons_cons]
      simp [hp.1, hs, ih hp.2]

/-- The value of an attribute; a name alone has none. -/
def Attribute.value? : Attribute → Option Text
  | shorthand _ => none
  | named _ value => some value

/-- The name of an attribute holds no `<`. -/
theorem IsAttributeName.mark_notMem {name : Text} (h : IsAttributeName name) : '<' ∉ name := by
  intro hmem
  exact absurd (h.forall_isNameChar '<' hmem) (by decide)

/-- A written attribute with a value without `<` is an argument without `<`. -/
theorem Attribute.Written.mark_notMem_argument {a : Attribute} {written : Text} (h : a.Written written)
    (hv : ∀ value ∈ a.value?, '<' ∉ value) : '<' ∉ a.argument := by
  cases h with
  | shorthand hn => exact hn.mark_notMem
  | @named name blanks padding value hn hb hp hvalue =>
    have hname := hn.mark_notMem
    have hvalue := hv value rfl
    simp [argument, hname, hvalue]

/-- A call has a `<` only in an attribute or in the name of the scope. -/
theorem mark_notMem_call {scopeName name : Text} {attributes : List Attribute} (hs : '<' ∉ scopeName)
    (hn : IsTagName name) (ha : ∀ a ∈ attributes, '<' ∉ a.argument) :
    '<' ∉ Directive.call scopeName name attributes := by
  have hjoined : '<' ∉ joinWith ", ".toList (attributes.map (·.argument)) :=
    mark_notMem_joinWith (by decide +kernel) (by simpa using ha)
  delta Directive.call
  simp only [List.mem_append, not_or]
  exact ⟨⟨⟨⟨⟨⟨by decide +kernel, hs⟩, by decide +kernel⟩, mark_notMem_macroName hn⟩, by decide +kernel⟩, hjoined⟩,
    by decide +kernel⟩

theorem head?_call (scopeName name : Text) (attributes : List Attribute) :
    (Directive.call scopeName name attributes).head? = some '\x7b' := by
  have hbrace : "\x7b% call ".toList.head? = some '\x7b' := by decide +kernel
  delta Directive.call
  simp only [List.head?_append, hbrace, Option.some_or]

/-- In a text whose attribute values hold no `<`, every tag has an image without `<`. -/
theorem Lexeme.imageUnmarked {options : Options} {text : Text} (hs : '<' ∉ options.scopeSuffix) {l : Lexeme}
    (hl : l ∈ (lexText text).lexemes) (hr : l.Readable text)
    (hv : ∀ name attributes extent selfClosing found, l = .opening name attributes extent selfClosing →
      attributesIn text attributes = .ok found → ∀ a ∈ found, ∀ value ∈ a.item.value?, '<' ∉ value) :
    l.ImageUnmarked options text := by
  have hwithin := within_of_mem_lexText hl
  have hend : Directive.endCall.head? = some '\x7b' ∧ '<' ∉ Directive.endCall := by decide +kernel
  cases l with
  | character c => exact .inl ⟨c, rfl⟩
  | closing name extent =>
    right
    rw [image_closing]
    exact hend
  | opening name attributes extent selfClosing =>
    obtain ⟨found, hfound⟩ := hr
    obtain ⟨-, hname, -, hlo, hhi, hle⟩ := hwithin
    have harguments : ∀ a ∈ found.map (·.item), '<' ∉ a.argument := by
      intro a ha
      obtain ⟨placed, hmem, rfl⟩ := List.mem_map.mp ha
      obtain ⟨written, hwritten⟩ := attributesIn_written hfound hlo (by omega) placed hmem
      exact hwritten.mark_notMem_argument (hv _ _ _ _ found rfl hfound placed hmem)
    have hscope : '<' ∉ (options.scope name).name := by
      simp [Naming.scope, mark_notMem_macroName hname, hs]
    have hcall := mark_notMem_call hscope hname harguments
    right
    rw [image_opening hfound]
    constructor
    · rw [List.head?_append, head?_call]
      rfl
    · rw [List.mem_append, not_or]
      refine ⟨hcall, ?_⟩
      split
      · exact hend.2
      · simp

/-- The imports have a `<` only from the options. -/
theorem mark_notMem_preamble {options : Options} (he : '<' ∉ options.extension) (hs : '<' ∉ options.scopeSuffix)
    {scopes : List Scope} (h : ∀ scope ∈ scopes, ∃ name, IsTagName name ∧ scope = options.scope name) :
    '<' ∉ Directive.preamble scopes := by
  intro hmem
  obtain ⟨scope, hscope, hin⟩ := List.mem_flatMap.mp hmem
  obtain ⟨name, hn, rfl⟩ := h scope hscope
  have hmacro := mark_notMem_macroName hn
  have hpath : '<' ∉ (options.scope name).path := by simp [Naming.scope, hmacro, he]
  have hname : '<' ∉ (options.scope name).name := by simp [Naming.scope, hmacro, hs]
  revert hin
  delta Directive.importFile
  simp only [List.mem_append, imp_false, not_or]
  exact ⟨⟨⟨⟨⟨by decide +kernel, hpath⟩, by decide +kernel⟩, hname⟩, by decide +kernel⟩, by decide⟩

/-- The scopes that a text puts into use are those of names of components. -/
theorem scope_of_expandBody {options : Options} {text out : Text} {used : Registry}
    (h : expandBody options text [] = ⟨.ok out, used⟩) :
    ∀ scope ∈ used, ∃ name, IsTagName name ∧ scope = options.scope name := by
  obtain ⟨-, -, -, rfl⟩ := expandBody_eq_ok_iff.mp h
  intro scope hscope
  rw [Registry.foldl_add_nil, List.mem_eraseDups, List.mem_filterMap] at hscope
  obtain ⟨l, hl, hs⟩ := hscope
  have hwithin := within_of_mem_lexText hl
  cases l with
  | character c => cases hs
  | closing name extent => cases hs
  | opening name attributes extent selfClosing =>
    obtain ⟨-, hname, -⟩ := hwithin
    exact ⟨name, hname, (Option.some.inj hs).symm⟩

/-- No value that can be read in the text, in the attribute list of a component at any depth, holds a `<`. -/
def ValuesUnmarked (text : Text) : Prop :=
  ∀ c ∈ (Outline.ofText text).components, ∀ found ∈ (attributesIn text c.attributes).toOption,
    ∀ a ∈ found, ∀ value ∈ a.item.value?, '<' ∉ value

instance (text : Text) : Decidable (ValuesUnmarked text) :=
  inferInstanceAs (Decidable (∀ c ∈ (Outline.ofText text).components,
    ∀ found ∈ (attributesIn text c.attributes).toOption, ∀ a ∈ found, ∀ value ∈ a.item.value?, '<' ∉ value))

/-- The expansion of a text, with its imports, is read character by character. -/
theorem unmarked_expandDocument {options : Options} {text out : Text}
    (h : (expandDocument options text []).outcome = .ok out) (hv : ValuesUnmarked text)
    (he : '<' ∉ options.extension) (hs : '<' ∉ options.scopeSuffix) : Unmarked out := by
  rcases hbody : expandBody options text [] with ⟨outcome, used⟩
  rw [expandDocument, hbody] at h
  cases outcome with
  | error e => cases h
  | ok body =>
    obtain ⟨hscan, hread, rfl, -⟩ := expandBody_eq_ok_iff.mp hbody
    have hfailure := ((scanText_failure_eq_none_iff text).mp hscan).1
    have hunmarked : Unmarked ((lexText text).lexemes.flatMap (·.image options text)) := by
      refine ((reading_of_lexText hfailure).unmarked_images fun l hl => ?_).1
      refine Lexeme.imageUnmarked hs hl (hread l hl) ?_
      rintro name attributes extent selfClosing found rfl hfound
      obtain ⟨c, hc, rfl⟩ := exists_component_of_opening _ hscan hl
      exact hv c hc found (by rw [hfound]; rfl)
    cases used with
    | nil =>
      obtain rfl := Except.ok.inj h
      exact hunmarked
    | cons scope scopes =>
      obtain rfl := Except.ok.inj h
      have hpreamble := mark_notMem_preamble he hs (scope_of_expandBody hbody)
      have hline : '<' ∉ Directive.preamble (scope :: scopes) ++ ['\n'] := by simpa using hpreamble
      simpa using hunmarked.prepend hline

/-- The expansion of a text is cut to its end without a component, and so it expands to itself without imports, for the
same and for any other options, if no attribute value, nor the extension or the suffix of scopes, holds a `<`. In
particular a text that is cut to its end without a component expands to itself. -/
theorem expand_output_tagFree (options : Options) (text : Text) :
    (∀ out, expand options text = .ok out → ValuesUnmarked text → '<' ∉ options.extension →
      '<' ∉ options.scopeSuffix →
        (scanText out).failure = none ∧ (∀ c, .component c ∉ (scanText out).segments) ∧
          ∀ other : Options, expandDocument other out [] = ⟨.ok out, []⟩) ∧
    ((scanText text).failure = none → (∀ c, .component c ∉ (scanText text).segments) →
      expandDocument options text [] = ⟨.ok text, []⟩) := by
  constructor
  · intro out h hv he hs
    have hlex : lexText out = ⟨out.map .character, none⟩ := (unmarked_expandDocument h hv he hs).lexFrom_eq 0
    obtain ⟨hfailure, hnone⟩ := scanText_plain_iff.mpr hlex
    exact ⟨hfailure, hnone, expandDocument_of_characters hlex⟩
  · intro hs hc
    exact expandDocument_of_characters (scanText_plain_iff.mp ⟨hs, hc⟩) options

/-- Behind `<B` and behind `</B` stand tags, which become directives. -/
theorem expand_output_tagFree_unfinished :
    let text := "<B<A x=\"1\"/></B  <A></A>".toList
    let out := "\x7b%- import \"a.html\" as a_scope -%\x7d\n\n<B\x7b% call a_scope::a(x=\"1\") %\x7d</B  ".toList ++
      "\x7b% call a_scope::a() %\x7d\x7b% endcall %\x7d".toList
    expand {} text = .ok out ∧ ValuesUnmarked text ∧
      (scanText out).failure = none ∧ (∀ c, .component c ∉ (scanText out).segments) ∧
        ∀ other : Options, expandDocument other out [] = ⟨.ok out, []⟩ := by
  intro text out
  have hout : expand {} text = .ok out := by decide +kernel
  have hvalues : ValuesUnmarked text := by decide +kernel
  exact ⟨hout, hvalues, (expand_output_tagFree {} text).1 out hout hvalues (by decide +kernel) (by decide +kernel)⟩

end ComponentTags
