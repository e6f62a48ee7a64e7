import ComponentTags.Scope

/-!
# The names of scopes and the scopes in use

The identifier that a component's name stands for is that name in lower case. Scopes are put into use one after another.
The registry then holds the scopes that were in use before, in their order, and behind them the others in the order of
first use, each once. Identifiers are told apart by the names of their scopes, whatever the naming is, so the scopes in
use are those of the identifiers without repetitions.
-/

namespace ComponentTags

/-- The exceptions of lower-casing lie outside of ASCII. -/
theorem lowerAfter_ascii {text : Text} (h : ∀ c ∈ text, c.toNat < 0x80) (before : Text) :
    lowerAfter before text = text.map Char.toLower := by
  induction text generalizing before with
  | nil => rfl
  | cons c text ih =>
    rw [List.forall_mem_cons] at h
    have hsigma : c ≠ '\u03a3' := by
      rintro rfl
      exact absurd h.1 (by decide)
    have hdotted : c ≠ '\u0130' := by
      rintro rfl
      exact absurd h.1 (by decide)
    simp [lowerAfter, hsigma, hdotted, lowerChar, h.1, ih h.2]

theorem toNat_lt_of_isAlphanum {c : Char} (h : c.isAlphanum = true) : c.toNat < 0x80 := by
  have hval : c.toNat = c.val.toNat := rfl
  delta Char.isAlphanum Char.isAlpha Char.isUpper Char.isLower Char.isDigit at h
  simp only [Bool.or_eq_true, Bool.and_eq_true, decide_eq_true_eq, UInt32.le_iff_toNat_le] at h
  have hZ : 'Z'.val.toNat = 90 := rfl
  have hz : 'z'.val.toNat = 122 := rfl
  have h9 : '9'.val.toNat = 57 := rfl
  omega

/-- What holds of the first code points holds of the characters of ASCII. -/
theorem forall_of_ascii {p : Char → Prop} (h : ∀ n < 0x80, p (Char.ofNat n)) {c : Char} (hc : c.toNat < 0x80) :
    p c := by
  have hp := h c.toNat hc
  rwa [Char.ofNat_toNat] at hp

theorem isAlphanum_toLower {c : Char} (h : c.isAlphanum = true) : c.toLower.isAlphanum = true := by
  have hascii := toNat_lt_of_isAlphanum h
  exact forall_of_ascii (p := fun c => c.isAlphanum = true → c.toLower.isAlphanum = true) (by decide +kernel) hascii h

/-- A name of letters and digits is lowered, and nothing else happens to it. -/
theorem macroName_of_isAlphanum {name : Text} (h : ∀ c ∈ name, c.isAlphanum = true) :
    macroName name = name.map Char.toLower := by
  rw [macroName, lower, lowerAfter_ascii fun c hc => toNat_lt_of_isAlphanum (h c hc), List.map_map]
  refine List.map_congr_left fun c hc => ?_
  have hlower := isAlphanum_toLower (h c hc)
  have hne {d : Char} (hd : d.isAlphanum = false) : c.toLower ≠ d := by
    intro he
    rw [he, hd] at hlower
    cases hlower
  simp [hne (show Char.isAlphanum '-' = false by decide), hne (show Char.isAlphanum '.' = false by decide)]

/-- A registry after scopes were put into use one after another. -/
theorem Registry.foldl_add (registry : Registry) (scopes : List Scope) :
    scopes.foldl add registry = registry ++ (scopes.removeAll registry).eraseDups := by
  induction scopes generalizing registry with
  | nil => simp [List.nil_removeAll]
  | cons scope scopes ih =>
    rw [List.foldl_cons, ih, List.cons_removeAll]
    by_cases h : scope ∈ registry
    · simp [add, h]
    · have hbehind : scopes.removeAll (registry ++ [scope]) =
          (scopes.removeAll registry).filter fun other => !other == scope := by
        rw [List.removeAll, List.removeAll, List.filter_filter]
        refine List.filter_congr fun other _ => ?_
        simp [Bool.and_comm, Bool.beq_eq_decide_eq]
      simp [add, h, hbehind, List.eraseDups_cons]

/-- A template that starts with no scope in use ends with those it has put into use, each at its first place. -/
theorem Registry.foldl_add_nil (scopes : List Scope) : scopes.foldl add [] = scopes.eraseDups := by
  rw [foldl_add, List.removeAll_nil, List.nil_append]

/-- Scopes that are put into use behind others add to them what they would have put into use alone, without what was in
use already. -/
theorem Registry.foldl_add_eq_append (registry : Registry) (scopes : List Scope) :
    scopes.foldl add registry = registry ++ (scopes.foldl add []).filter fun scope => scope ∉ registry := by
  induction scopes generalizing registry with
  | nil => simp
  | cons scope scopes ih =>
    rw [List.foldl_cons, List.foldl_cons, ih (registry.add scope), ih (add [] scope)]
    by_cases h : scope ∈ registry
    · have hsame : registry.add scope = registry := by simp [add, h]
      rw [hsame, List.filter_append, List.filter_filter]
      have hnone : (add [] scope).filter (fun other => other ∉ registry) = [] := by simp [add, h]
      rw [hnone, List.nil_append]
      congr 1
      refine List.filter_congr fun other _ => ?_
      by_cases ho : other = scope <;> simp [add, ho, h]
    · simp [add, h, List.filter_filter]

/-- Scopes that are in use already change nothing. -/
theorem Registry.foldl_add_of_mem {registry : Registry} {scopes : List Scope}
    (h : ∀ scope ∈ scopes, scope ∈ registry) : scopes.foldl add registry = registry := by
  induction scopes with
  | nil => rfl
  | cons scope scopes ih =>
    rw [List.forall_mem_cons] at h
    have hsame : registry.add scope = registry := by simp [add, h.1]
    rw [List.foldl_cons, hsame, ih h.2]

/-- The scope of the macro with an identifier. -/
def Naming.importOf (naming : Naming) (identifier : Text) : Scope :=
  ⟨identifier ++ naming.scopeSuffix, identifier ++ '.' :: naming.extension⟩

/-- Under one naming, the name of a scope determines the identifier. -/
theorem Naming.importOf_name_inj {naming : Naming} {a b : Text}
    (h : (naming.importOf a).name = (naming.importOf b).name) : a = b :=
  List.append_cancel_right h

/-- And so does its file. -/
theorem Naming.importOf_path_inj {naming : Naming} {a b : Text}
    (h : (naming.importOf a).path = (naming.importOf b).path) : a = b :=
  List.append_cancel_right h

/-- Different identifiers have different imports. -/
theorem Naming.importOf_inj {naming : Naming} {a b : Text} (h : naming.importOf a = naming.importOf b) : a = b :=
  importOf_name_inj (congrArg Scope.name h)

section FirstOccurrences

variable {α β : Type} [BEq α] [LawfulBEq α] [BEq β] [LawfulBEq β]

/-- First occurrences stay first occurrences where different values are sent to different ones. -/
theorem eraseDups_map {f : α → β} (hf : ∀ a b, f a = f b → a = b) :
    (values : List α) → (values.map f).eraseDups = values.eraseDups.map f
  | [] => by simp
  | value :: values => by
    have hothers : (values.map f).filter (fun b => !b == f value) = (values.filter fun a => !a == value).map f := by
      rw [List.filter_map]
      congr 1
      refine List.filter_congr fun a _ => ?_
      by_cases ha : a = value
      · simp [ha]
      · have hne : f a ≠ f value := fun he => ha (hf a value he)
        rw [Function.comp_apply, beq_false_of_ne hne, beq_false_of_ne ha]
    rw [List.map_cons, List.eraseDups_cons, hothers, eraseDups_map hf, List.eraseDups_cons, List.map_cons]
termination_by values => values.length
decreasing_by
  have hle := List.length_filter_le (fun a => !a == value) values
  simp only [List.length_cons]
  omega

/-- Nothing is repeated once repetitions are erased. -/
theorem nodup_eraseDups : (values : List α) → values.eraseDups.Nodup
  | [] => by simp
  | value :: values => by
    rw [List.eraseDups_cons, List.nodup_cons]
    refine ⟨?_, nodup_eraseDups _⟩
    simp [List.mem_eraseDups]
termination_by values => values.length
decreasing_by
  have hle := List.length_filter_le (fun a => !a == value) values
  simp only [List.length_cons]
  omega

end FirstOccurrences

/-- The scopes that components put into use are those of their identifiers. -/
theorem Registry.foldl_add_scope (naming : Naming) (names : List Text) :
    (names.map naming.scope).foldl add [] = (names.map macroName).eraseDups.map naming.importOf := by
  have hscopes : names.map naming.scope = (names.map macroName).map naming.importOf := by
    rw [List.map_map]
    rfl
  rw [foldl_add_nil, hscopes, eraseDups_map fun _ _ => Naming.importOf_inj]

/-- The scopes of a registry that was filled under one naming differ in everything that determines the identifier. -/
theorem Naming.nodup_map_importOf {naming : Naming} {part : Scope → Text}
    (h : ∀ a b, part (naming.importOf a) = part (naming.importOf b) → a = b) (identifiers : List Text) :
    ((identifiers.eraseDups.map naming.importOf).map part).Nodup := by
  rw [List.map_map]
  refine List.pairwise_map.mpr ((nodup_eraseDups identifiers).imp ?_)
  intro a b hne he
  exact hne (h a b he)

/-- The imports of different identifiers have different names. -/
theorem Naming.nodup_importOf_name (naming : Naming) (identifiers : List Text) :
    ((identifiers.eraseDups.map naming.importOf).map (·.name)).Nodup :=
  nodup_map_importOf (fun _ _ => importOf_name_inj) identifiers

/-- The imports of different identifiers have different files. -/
theorem Naming.nodup_importOf_path (naming : Naming) (identifiers : List Text) :
    ((identifiers.eraseDups.map naming.importOf).map (·.path)).Nodup :=
  nodup_map_importOf (fun _ _ => importOf_path_inj) identifiers

end ComponentTags
