import ComponentTags.Proofs.MarkContext
import ComponentTags.Proofs.Registry
import ComponentTags.Wrapping

/-!
# The macro that a component calls and the macro that its file defines

A component calls the macro of its name. The file that is imported for it, made a macro, defines the macro of the stem
of its path, which is the file's name up to its last dot. The two are the same macro exactly if the extension of
component files has no dot. With an extension of several parts all parts but the last stay in the stem, and the file
defines a macro that no component calls.

The extension is not empty and has no slash; a file below another directory than the template's is not covered.
-/

namespace ComponentTags

/-- A text without separators is its own only part. -/
theorem splitAtChar_of_notMem {separator : Char} {text : Text} (h : separator ∉ text) :
    splitAtChar separator text = [text] := by
  induction text with
  | nil => rfl
  | cons c text ih =>
    obtain ⟨hc, htext⟩ : separator ≠ c ∧ separator ∉ text := by simpa using h
    have hne : (c == separator) = false := beq_false_of_ne (Ne.symm hc)
    rw [splitAtChar, ih htext]
    simp [hne]

/-- The path of a single name. -/
theorem Path.ofText_of_notMem {name : Text} (hslash : '/' ∉ name) (hne : name ≠ []) (hdot : name ≠ ['.']) :
    Path.ofText name = ⟨0, [name]⟩ := by
  have hroot : name.takeWhile (· == '/') = [] := by
    cases name with
    | nil => rfl
    | cons c name =>
      have hc : '/' ≠ c := fun heq => hslash (heq ▸ List.mem_cons_self)
      simp [Ne.symm hc]
  simp [Path.ofText, hroot, splitAtChar_of_notMem hslash, hne, hdot]

/-- A name is cut at its last dot, unless nothing stands on one of its sides. -/
theorem stemOf_append {front back : Text} (h : '.' ∉ back) :
    stemOf (front ++ '.' :: back) = if front = [] ∨ back = [] then front ++ '.' :: back else front := by
  have hrun : ∀ c ∈ back.reverse, (c != '.') = true := by
    intro c hc
    have hne : c ≠ '.' := fun heq => h (heq ▸ List.mem_reverse.mp hc)
    simpa using hne
  have hreverse : (front ++ '.' :: back).reverse = back.reverse ++ '.' :: front.reverse := by simp
  have htake : (front ++ '.' :: back).reverse.takeWhile (· != '.') = back.reverse := by
    rw [hreverse, List.takeWhile_append_of_pos hrun]
    simp
  have hdrop : (front ++ '.' :: back).reverse.dropWhile (· != '.') = '.' :: front.reverse := by
    rw [hreverse, List.dropWhile_append_of_pos hrun]
    simp
  unfold stemOf
  rw [htake, hdrop]
  cases hback : back.reverse with
  | nil =>
    have hnil : back = [] := List.reverse_eq_nil_iff.mp hback
    simp [hnil]
  | cons c more =>
    have hsome : back ≠ [] := fun hnil => by simp [hnil] at hback
    cases hfront : front.reverse with
    | nil =>
      have hnil : front = [] := List.reverse_eq_nil_iff.mp hfront
      simp [hnil]
    | cons d before =>
      have hne : front ≠ [] := fun hnil => by simp [hnil] at hfront
      simp [hsome, hne, ← hfront]

/-- The name is cut at the last dot of the extension. The dot before the extension stays in the stem, so that the stem
is longer than what stands before the extension. -/
theorem length_lt_length_stemOf {base extension : Text} (h : '.' ∈ extension) :
    base.length < (stemOf (base ++ '.' :: extension)).length := by
  obtain ⟨after, before, hsplit, hafter⟩ := List.eq_append_cons_of_mem (List.mem_reverse.mpr h)
  have hextension : extension = before.reverse ++ '.' :: after.reverse := by
    have hreverse := congrArg List.reverse hsplit
    simpa using hreverse
  have hname : base ++ '.' :: extension = (base ++ '.' :: before.reverse) ++ '.' :: after.reverse := by
    simp [hextension]
  have hlast : '.' ∉ after.reverse := fun hmem => hafter (List.mem_reverse.mp hmem)
  rw [hname, stemOf_append hlast]
  split <;> simp

/-- Lowering a text does not make it shorter. -/
theorem length_le_length_lowerAfter (before text : Text) : text.length ≤ (lowerAfter before text).length := by
  induction text generalizing before with
  | nil => exact Nat.le_refl _
  | cons c text ih =>
    have hrest := ih (c :: before)
    simp only [lowerAfter, List.length_append, List.length_cons]
    split
    · simp only [List.length_cons, List.length_nil]
      omega
    · split
      · simp only [List.length_cons, List.length_nil]
        omega
      · simp only [List.length_cons, List.length_nil]
        omega

theorem length_le_length_macroName (name : Text) : name.length ≤ (macroName name).length := by
  rw [macroName, List.length_map]
  exact length_le_length_lowerAfter [] name

theorem toLower_toLower_of_isAlphanum {c : Char} (h : c.isAlphanum = true) : c.toLower.toLower = c.toLower := by
  have hascii := toNat_lt_of_isAlphanum h
  exact forall_of_ascii (p := fun c => c.toLower.toLower = c.toLower) (by decide +kernel) hascii

/-- The identifier of a component has letters and digits only. -/
theorem IsTagName.forall_isAlphanum_macroName {name : Text} (h : IsTagName name) :
    ∀ c ∈ macroName name, c.isAlphanum = true := by
  intro c hc
  rw [macroName_of_isAlphanum h.forall_isTagChar] at hc
  obtain ⟨d, hd, hlower⟩ := List.mem_map.mp hc
  rw [← hlower]
  exact isAlphanum_toLower (h.forall_isTagChar d hd)

/-- The identifier of a component is its own identifier. -/
theorem IsTagName.macroName_macroName {name : Text} (h : IsTagName name) :
    macroName (macroName name) = macroName name := by
  rw [macroName_of_isAlphanum h.forall_isAlphanum_macroName, macroName_of_isAlphanum h.forall_isTagChar, List.map_map]
  exact List.map_congr_left fun c hc => toLower_toLower_of_isAlphanum (h.forall_isTagChar c hc)

theorem IsTagName.macroName_ne_nil {name : Text} (h : IsTagName name) : macroName name ≠ [] := by
  obtain ⟨initial, more, hname, -⟩ := h
  have hlength := length_le_length_macroName name
  intro hnil
  rw [hnil, hname] at hlength
  simp at hlength

/-- The file of a component's scope lies beside the template, under the component's identifier. -/
theorem Naming.scope_file {naming : Naming} {component : Text} (hn : IsTagName component)
    (hslash : '/' ∉ naming.extension) :
    Path.ofText (naming.scope component).path = ⟨0, [macroName component ++ '.' :: naming.extension]⟩ := by
  have hmem : '/' ∉ macroName component ++ '.' :: naming.extension := by
    intro hslashes
    rcases List.mem_append.mp hslashes with hfront | hback
    · have halnum := hn.forall_isAlphanum_macroName '/' hfront
      revert halnum
      decide
    · rcases List.mem_cons.mp hback with hdot | hextension
      · revert hdot
        decide
      · exact hslash hextension
  have hne : macroName component ++ '.' :: naming.extension ≠ [] := by simp
  have hdot : macroName component ++ '.' :: naming.extension ≠ ['.'] := by
    intro hsingle
    have hlength := congrArg List.length hsingle
    have hpos := List.length_pos_iff.mpr hn.macroName_ne_nil
    simp at hlength
    omega
  exact Path.ofText_of_notMem hmem hne hdot

/-- The file of a component's scope defines the macro that the component calls exactly if the extension has no dot. -/
theorem Naming.scope_macroName_iff {naming : Naming} {component : Text} (hn : IsTagName component)
    (hne : naming.extension ≠ []) (hslash : '/' ∉ naming.extension) :
    (Path.ofText (naming.scope component).path).macroName = macroName component ↔ '.' ∉ naming.extension := by
  have hstem : (Path.ofText (naming.scope component).path).stem =
      stemOf (macroName component ++ '.' :: naming.extension) := by
    rw [naming.scope_file hn hslash]
    rfl
  rw [Path.macroName, hstem]
  constructor
  · intro hsame hdot
    have hlonger : (macroName component).length < (stemOf (macroName component ++ '.' :: naming.extension)).length :=
      length_lt_length_stemOf hdot
    have hlower := length_le_length_macroName (stemOf (macroName component ++ '.' :: naming.extension))
    rw [hsame] at hlower
    omega
  · intro hdot
    rw [stemOf_append hdot, if_neg (by simp [hn.macroName_ne_nil, hne])]
    exact hn.macroName_macroName

/-- The directive calls the macro of an identifier in a scope. -/
def CallsMacro (scopeName identifier directive : Text) : Prop :=
  ∃ arguments, directive = "\x7b% call ".toList ++ scopeName ++ "::".toList ++ identifier ++ "(".toList ++ arguments ++
    ") %\x7d".toList

/-- The text is the definition of the macro of an identifier, behind the imports that its body needs. -/
def DefinesMacro (identifier out : Text) : Prop :=
  ∃ scopes parameters body, out = Directive.preamble scopes ++ Directive.macroStart identifier parameters ++ body ++
    Directive.macroStop identifier

/-- A template that is made a macro defines the macro of its path. -/
theorem definesMacro_of_wrap {options : Options} {path : Path} {text out : Text}
    (h : wrap options path text = .ok out) : DefinesMacro path.macroName out := by
  unfold wrap at h
  split at h
  · cases h
  · cases h
    exact ⟨_, _, _, rfl⟩

/-- A component calls the macro of its identifier, and the file of its scope defines that of its stem. These are the
same exactly if the extension of component files has no dot. -/
theorem component_calls_macro_of_file_iff (options : Options) {component : Text} (hn : IsTagName component)
    (hne : options.extension ≠ []) (hslash : '/' ∉ options.extension) :
    let scope := options.scope component
    let file := Path.ofText scope.path
    (∀ attributes, CallsMacro scope.name (macroName component) (Directive.call scope.name component attributes)) ∧
      (∀ text out, wrap options file text = .ok out → DefinesMacro file.macroName out) ∧
      (file.macroName = macroName component ↔ '.' ∉ options.extension) := by
  intro scope file
  refine ⟨fun attributes => ⟨_, rfl⟩, fun text out hout => definesMacro_of_wrap hout, ?_⟩
  exact Naming.scope_macroName_iff hn hne hslash

/-- A component whose name has a digit, and files with an extension of one part. -/
theorem component_calls_macro_of_file_j2 :
    let options : Options := { extension := "j2".toList }
    let file := Path.ofText (options.scope "Card2".toList).path
    file.macroName = macroName "Card2".toList ∧
      DefinesMacro (macroName "Card2".toList)
        "\x7b% macro card2(title) %\x7d\n <b>\x7b% endmacro card2 %\x7d\n".toList := by
  intro options file
  have hname : IsTagName "Card2".toList := ⟨'C', "ard2".toList, rfl, rfl, List.all_eq_true.mp (by decide)⟩
  have hne : options.extension ≠ [] := by decide
  have hslash : '/' ∉ options.extension := by decide
  obtain ⟨-, hwrap, hiff⟩ := component_calls_macro_of_file_iff options hname hne hslash
  have hsame := hiff.mpr (by decide)
  have hout : wrap options file "\x7b#def title #\x7d <b>".toList =
      .ok "\x7b% macro card2(title) %\x7d\n <b>\x7b% endmacro card2 %\x7d\n".toList := by decide +kernel
  have hdefines := hwrap _ _ hout
  exact ⟨hsame, hsame ▸ hdefines⟩

/-- With an extension of two parts the file of a component defines another macro than the component calls. -/
theorem twoPart_extension_defines_other_macro :
    let options : Options := { extension := "html.j2".toList }
    let file := Path.ofText (options.scope "Hello".toList).path
    IsTagName "Hello".toList ∧ options.extension ≠ [] ∧ '/' ∉ options.extension ∧ options.extension.head? ≠ some '.' ∧
      wrap options file "x".toList =
        .ok "\x7b% macro hello_html() %\x7d\nx\x7b% endmacro hello_html %\x7d\n".toList ∧
      macroName "Hello".toList = "hello".toList ∧ file.macroName ≠ macroName "Hello".toList := by
  intro options file
  have hname : IsTagName "Hello".toList := ⟨'H', "ello".toList, rfl, rfl, List.all_eq_true.mp (by decide)⟩
  refine ⟨hname, ?_, ?_, ?_, ?_, ?_, ?_⟩
  · decide
  · decide
  · decide
  · decide +kernel
  · decide +kernel
  · decide +kernel

end ComponentTags
