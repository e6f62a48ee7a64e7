import ComponentTags.Directive
import ComponentTags.Proofs.AttributeGrammar

/-!
# Attribute lists written and read again

An attribute is written as it stands in a call: its name, and an equals sign and the value if it has one. A list of them
has one blank before each attribute. This is one of the ways that the grammar of attribute lists allows, so that reading
the written list gives the attributes back, whatever follows the window; blanks at the end of the window do no harm.

Whatever has been read from a window can be written again, with one blank between two attributes, and is read as before.
Only the places of the attributes change.
-/

namespace ComponentTags

/-- An attribute that can be written and read again. The characters of `plain` may stand outside of the quotes and
brackets of its value. -/
def Attribute.WellFormed (plain : Char → Bool) : Attribute → Prop
  | .shorthand name => IsAttributeName name
  | .named name value => IsAttributeName name ∧ IsValue plain value

/-- Attributes as they are written behind the name of a tag. -/
def Attribute.printAll (attributes : List Attribute) : Text := attributes.flatMap fun a => ' ' :: a.argument

@[simp] theorem Attribute.printAll_nil : printAll [] = [] := rfl

@[simp] theorem Attribute.printAll_cons (a : Attribute) (attributes : List Attribute) :
    printAll (a :: attributes) = ' ' :: (a.argument ++ printAll attributes) := by
  simp [printAll]

/-- A value stays one where more characters count as plain. -/
theorem IsValue.mono {plain wider : Char → Bool} {v : Text} (h : IsValue plain v)
    (hp : ∀ c, plain c = true → wider c = true) : IsValue wider v := by
  cases h with
  | quoted hq hb => exact .quoted hq hb
  | bare hq h => exact .bare hq (h.mono hp)

/-- An attribute as it stands in a call is one of the ways to write it. -/
theorem Attribute.WellFormed.written {plain : Char → Bool} {a : Attribute} (h : a.WellFormed plain)
    (hp : ∀ c, plain c = true → isBlank c = false) : a.Written a.argument := by
  cases a with
  | shorthand name => exact .shorthand h
  | named name value =>
    have hvalue : IsValue (fun c => !isBlank c) value := h.2.mono fun c hc => by simpa using hp c hc
    exact .named h.1 (List.forall_mem_nil _) (List.forall_mem_nil _) hvalue

/-- What a window holds behind an attribute of a written list: the rest of the list, and blanks up to its end. Behind a
blank the next name begins. -/
theorem Attribute.endsBefore_printAll {plain : Char → Bool} {attributes : List Attribute}
    (h : ∀ a ∈ attributes, a.WellFormed plain) (hp : ∀ c, plain c = true → isBlank c = false) {blanks : Text}
    (hb : ∀ c ∈ blanks, isBlank c = true) (a : Attribute) : a.EndsBefore (printAll attributes ++ blanks) := by
  have hblank : ∀ c ∈ (printAll attributes ++ blanks).head?, isBlank c = true := by
    cases attributes with
    | nil =>
      intro c hc
      exact hb c (List.mem_of_mem_head? hc)
    | cons next attributes => simp; decide
  cases a with
  | named name value => exact hblank
  | shorthand name =>
    refine ⟨hblank, ?_⟩
    cases attributes with
    | nil =>
      have hnil : blanks.dropWhile isBlank = [] := List.dropWhile_eq_nil_iff.mpr hb
      simp [hnil]
    | cons next attributes =>
      have hwritten := (h next (by simp)).written hp
      have hnil : next.EndsBefore [] := by cases next <;> simp [EndsBefore]
      obtain ⟨initial, body, hargument, hi, -⟩ := hwritten.attributeAt_eq hnil
      have hinitial := isNameChar_eq_true (isNameChar_of_isNameStart hi)
      have hspace : isBlank ' ' = true := by decide
      simp [hargument, hspace, hinitial]

/-- A written list is an attribute list, with blanks up to the end of the window or none. -/
theorem attributeList_printAll {plain : Char → Bool} {attributes : List Attribute}
    (h : ∀ a ∈ attributes, a.WellFormed plain) (hp : ∀ c, plain c = true → isBlank c = false) {blanks : Text}
    (hb : ∀ c ∈ blanks, isBlank c = true) (offset : Nat) :
    ∃ found, AttributeList offset (Attribute.printAll attributes ++ blanks) found ∧
      found.map (·.item) = attributes := by
  induction attributes generalizing offset with
  | nil => exact ⟨[], .nil hb, rfl⟩
  | cons a attributes ih =>
    rw [List.forall_mem_cons] at h
    obtain ⟨others, hothers, hitems⟩ := ih h.2 (offset + 1 + a.argument.length)
    have hends := Attribute.endsBefore_printAll h.2 hp hb a
    have hblank : ∀ c ∈ [' '], isBlank c = true := List.forall_mem_singleton.mpr rfl
    have hlist := AttributeList.cons hblank (h.1.written hp) hends hothers
    refine ⟨⟨a, ⟨offset + 1, offset + 1 + a.argument.length⟩⟩ :: others, ?_, by simp [hitems]⟩
    simpa using hlist

/-- Printed attributes are read back, with blanks behind the last one. -/
theorem attributesFrom_printAll {plain : Char → Bool} {attributes : List Attribute}
    (h : ∀ a ∈ attributes, a.WellFormed plain) (hp : ∀ c, plain c = true → isBlank c = false) {blanks : Text}
    (hb : ∀ c ∈ blanks, isBlank c = true) (offset : Nat) (rest : Text) :
    ∃ found, attributesFrom offset ((Attribute.printAll attributes).length + blanks.length)
        (Attribute.printAll attributes ++ (blanks ++ rest)) = .ok found ∧
      found.map (·.item) = attributes := by
  obtain ⟨found, hlist, hitems⟩ := attributeList_printAll h hp hb offset
  have hread := hlist.attributesFrom_eq rest
  rw [List.length_append, List.append_assoc] at hread
  exact ⟨found, hread, hitems⟩

/-- The search for the end of a tag passes over a written attribute. -/
theorem Attribute.WellFormed.expression {plain : Char → Bool} {a : Attribute} (h : a.WellFormed plain)
    (hp : ∀ c, plain c = true → c ≠ '>') : Expression (· != '>') a.argument := by
  have hname {name : Text} (hn : IsAttributeName name) : Expression (· != '>') name :=
    hn.expression fun c hc => by simpa using (isNameChar_eq_true hc).2.2.2.2.2.1
  cases a with
  | shorthand name => exact hname h
  | named name value =>
    have hv : Expression (· != '>') value := h.2.expression.mono fun c hc => by simpa using hp c hc
    exact (hname h.1).append (.character (by decide) (by decide) (by decide) (by decide) hv)

/-- Printed attributes have balanced brackets and quotes, and no `>` outside of them. -/
theorem Attribute.printAll_expression {plain : Char → Bool} {attributes : List Attribute}
    (h : ∀ a ∈ attributes, a.WellFormed plain) (hp : ∀ c, plain c = true → c ≠ '>') :
    Expression (· != '>') (printAll attributes) := by
  induction attributes with
  | nil => exact .nil
  | cons a attributes ih =>
    rw [List.forall_mem_cons] at h
    rw [printAll_cons]
    have ha := (h.1.expression hp).append (ih h.2)
    exact .character (by decide) (by decide) (by decide) (by decide) ha

/-- The last character of a written attribute is no blank, and a slash only at the end of a value. -/
theorem Attribute.WellFormed.getLast?_argument {plain : Char → Bool} {a : Attribute} (h : a.WellFormed plain)
    (hp : ∀ c, plain c = true → isBlank c = false) {last : Char} (hlast : a.argument.getLast? = some last) :
    isBlank last = false ∧
      (last = '/' → ∃ name value, a = .named name value ∧ value.getLast? = some '/') := by
  cases a with
  | shorthand name =>
    have hname : IsAttributeName name := h
    have hc := hname.forall_isNameChar last (List.mem_of_getLast? hlast)
    obtain ⟨hblank, -, -, -, -, -, hslash⟩ := isNameChar_eq_true hc
    exact ⟨hblank, fun he => absurd he hslash⟩
  | named name value =>
    obtain ⟨-, hv⟩ := h
    have hvalue : value.getLast? = some last := by
      obtain ⟨first, rest, rfl, -⟩ := hv.exists_cons hp
      simpa [argument, List.getLast?_append, List.getLast?_cons] using hlast
    exact ⟨hv.expression.getLast?_not_isBlank hp hvalue, fun he => ⟨name, value, rfl, he ▸ hvalue⟩⟩

/-- An attribute is printed with at least one character. -/
theorem Attribute.argument_ne_nil {plain : Char → Bool} {a : Attribute} (h : a.WellFormed plain) :
    a.argument ≠ [] := by
  cases a with
  | shorthand name =>
    obtain ⟨initial, more, rfl, -⟩ := h
    simp [argument]
  | named name value => simp [argument]

/-- The last character of a written list is that of its last attribute. -/
theorem Attribute.getLast?_printAll {plain : Char → Bool} {attributes : List Attribute}
    (h : ∀ a ∈ attributes, a.WellFormed plain) {last : Char} (hlast : (printAll attributes).getLast? = some last) :
    ∃ a, attributes.getLast? = some a ∧ a.argument.getLast? = some last := by
  rcases List.eq_nil_or_concat attributes with rfl | ⟨front, a, rfl⟩
  · simp at hlast
  · refine ⟨a, by simp, ?_⟩
    have ha : a.argument ≠ [] := argument_ne_nil (h a (by simp))
    rw [List.getLast?_eq_some_getLast ha]
    simpa [printAll, List.getLast?_append, List.getLast?_cons, List.getLast?_eq_some_getLast ha] using hlast

/-- An attribute that is written somewhere can be written and read again. -/
theorem Attribute.Written.wellFormed {a : Attribute} {written : Text} (h : a.Written written) :
    a.WellFormed fun c => !isBlank c := by
  cases h with
  | shorthand hn => exact hn
  | named hn _ _ hv => exact ⟨hn, hv⟩

/-- With one blank between two attributes, all but the first one have a blank before them. -/
theorem Attribute.joinWith_argument_cons (a : Attribute) (attributes : List Attribute) :
    joinWith [' '] ((a :: attributes).map (·.argument)) = a.argument ++ printAll attributes := by
  induction attributes generalizing a with
  | nil => simp [joinWith]
  | cons next attributes ih =>
    have hnext := ih next
    rw [joinWith, List.map_cons] at hnext
    rw [joinWith, List.map_cons, List.map_cons, List.intercalate_cons_cons, hnext]
    simp

/-- Attributes with one blank between two of them are an attribute list. -/
theorem attributeList_joinWith {plain : Char → Bool} {attributes : List Attribute}
    (h : ∀ a ∈ attributes, a.WellFormed plain) (hp : ∀ c, plain c = true → isBlank c = false) (offset : Nat) :
    ∃ found, AttributeList offset (joinWith [' '] (attributes.map (·.argument))) found ∧
      found.map (·.item) = attributes := by
  cases attributes with
  | nil => exact ⟨[], .nil (by simp [joinWith]), rfl⟩
  | cons a attributes =>
    rw [List.forall_mem_cons] at h
    have hnone : ∀ c ∈ ([] : Text), isBlank c = true := by simp
    obtain ⟨others, hothers, hitems⟩ := attributeList_printAll h.2 hp hnone (offset + a.argument.length)
    have hends := Attribute.endsBefore_printAll h.2 hp hnone a
    rw [List.append_nil] at hothers hends
    have hlist : AttributeList offset ([] ++ (a.argument ++ Attribute.printAll attributes)) _ :=
      .cons hnone (h.1.written hp) hends hothers
    rw [Attribute.joinWith_argument_cons]
    exact ⟨_, hlist, by simp [hitems]⟩

/-- The attributes that are read from a window, written as arguments with one blank between two of them, are read again
from what is written: the same forms, names and values in the same order. -/
theorem attributesIn_joined_arguments {text : Text} {window : Extent} {found : List (Placed Attribute)}
    (hlo : window.start ≤ window.stop) (hhi : window.stop ≤ text.length) (h : attributesIn text window = .ok found) :
    let written := joinWith [' '] (found.map (·.item.argument))
    ∃ again, attributesIn written ⟨0, written.length⟩ = .ok again ∧ again.map (·.item) = found.map (·.item) := by
  intro written
  have hformed : ∀ a ∈ found.map (·.item), a.WellFormed fun c => !isBlank c := by
    intro a ha
    obtain ⟨placed, hmem, rfl⟩ := List.mem_map.mp ha
    obtain ⟨original, horiginal⟩ := attributesIn_written h hlo hhi placed hmem
    exact horiginal.wellFormed
  have hplain (c : Char) (hc : (!isBlank c) = true) : isBlank c = false := by simpa using hc
  obtain ⟨again, hlist, hitems⟩ := attributeList_joinWith hformed hplain 0
  rw [List.map_map] at hlist
  have hwhole : written.drop 0 = written ++ [] := (List.append_nil written).symm
  have hread := (attributesIn_eq_ok_iff hwhole).mpr hlist
  rw [Nat.zero_add] at hread
  exact ⟨again, hread, hitems⟩

/-- The blanks around the equals signs and between the attributes are other ones at the second reading, and the last
value ends at a blank in one of the texts only. -/
theorem attributesIn_joined_arguments_uneven :
    let text := "<X  a = =b\n c\t= [d, ' ]']  e f='\\'' />".toList
    let items : List Attribute :=
      [.named "a".toList "=b".toList, .named "c".toList "[d, ' ]']".toList, .shorthand "e".toList,
        .named "f".toList "'\\''".toList]
    let written := "a==b c=[d, ' ]'] e f='\\''".toList
    (∃ found, attributesIn text ⟨2, 36⟩ = .ok found ∧ found.map (·.item) = items) ∧
      ∃ again, attributesIn written ⟨0, written.length⟩ = .ok again ∧ again.map (·.item) = items := by
  intro text items written
  let found : List (Placed Attribute) :=
    [⟨.named "a".toList "=b".toList, ⟨4, 10⟩⟩, ⟨.named "c".toList "[d, ' ]']".toList, ⟨12, 25⟩⟩,
      ⟨.shorthand "e".toList, ⟨27, 28⟩⟩, ⟨.named "f".toList "'\\''".toList, ⟨29, 35⟩⟩]
  have hread : attributesIn text ⟨2, 36⟩ = .ok found := by decide +kernel
  have hwritten : joinWith [' '] (found.map (·.item.argument)) = written := by decide +kernel
  have hagain := attributesIn_joined_arguments (by decide) (by decide) hread
  rw [hwritten] at hagain
  exact ⟨⟨found, hread, rfl⟩, hagain⟩

end ComponentTags
