import ComponentTags.Proofs.ValueGrammar

/-!
# Reading attribute lists

The steps by which one attribute is read are stated apart: a name without a value, and a name with one. From them, two
relations say all that reading an attribute, and then a list, can come to in a window of known characters. What is
proved about the reader is proved along these relations.

Within the text, reading a list either succeeds or reports a malformed attribute: no place past the end of the text is
read, no other kind of fault is reported, and the fault lies in the window. Which lists are read is not said here.
-/

namespace ComponentTags

/-- A bare value that goes on at `offset` is at fault before the end of the window. The bracket that is missing there
has been read, so that it has a place before `offset`. -/
theorem bareSize_error {name : Text} {expected : List Char} {offset left : Nat} {text : Text} {e : Failure}
    (h : bareSize name expected offset left text = .error e) (hl : left ≤ text.length)
    (ho : expected ≠ [] → 0 < offset) : e.IsMalformedBefore (offset + left) := by
  fun_induction bareSize name expected offset left text with
  | case1 => cases h
  | case2 offset text closer outer =>
    cases h
    have hpos := ho (by simp)
    exact Failure.isMalformedBefore_because rfl (by omega) (by omega)
  | case3 => simp at hl
  | case4 => cases h
  | case5 expected offset left c rest hc hq size he ih =>
    obtain ⟨body, behind, rfl, hb, rfl, hsize⟩ := quotedRest_of_quoteEnd he
    have hrest : left - body.length ≤ ((body ++ behind).drop body.length).length := by
      simp only [List.length_cons, List.length_append, List.length_drop] at hl ⊢
      omega
    have hi := ih (bind_return_eq_error h) hrest (fun _ => by omega)
    rwa [show offset + 1 + body.length + (left - body.length) = offset + (left + 1) by omega] at hi
  | case6 =>
    cases h
    exact Failure.isMalformedBefore_because rfl (by omega) (by omega)
  | case7 expected offset left c rest hc hq he => exact absurd he (quoteEnd_ne_outOfText (by simpa using hl))
  | case8 expected offset left c rest hc hq closer hcl ih =>
    have hi := ih (bind_return_eq_error h) (by simpa using hl) (fun _ => by omega)
    rwa [Nat.add_right_comm] at hi
  | case9 =>
    cases h
    exact Failure.isMalformedBefore_because rfl (by omega) (by omega)
  | case10 offset left c rest hq hcl hcloser closer outer hc hm ih =>
    have hi := ih (bind_return_eq_error h) (by simpa using hl) (fun _ => by omega)
    rwa [Nat.add_right_comm] at hi
  | case11 =>
    cases h
    exact Failure.isMalformedBefore_because rfl (by omega) (by omega)
  | case12 expected offset left c rest hc hq hcl hcloser ih =>
    have hi := ih (bind_return_eq_error h) (by simpa using hl) (fun _ => by omega)
    rwa [Nat.add_right_comm] at hi

/-- A quoted value is refused for a fault within the window. While the window has places the text has, so that it is not
read past its end. -/
theorem quotedSize_error {name : Text} {quote : Char} {offset left : Nat} {text : Text} {e : Failure}
    (h : quotedSize name quote offset left text = .error e) (hl : left ≤ text.length) :
    e.IsMalformedBefore (offset + 1 + left) := by
  unfold quotedSize at h
  split at h
  · next size he =>
    split at h
    · cases h
    · next n hn hd =>
      have hlen := congrArg List.length hd
      simp only [List.length_drop, List.length_nil] at hlen
      omega
    · split at h
      · cases h
      · cases h
        exact Failure.isMalformedBefore_because rfl (by omega) (by omega)
  · cases h
    exact Failure.isMalformedBefore_because rfl (by omega) (by omega)
  · next he => exact absurd he (quoteEnd_ne_outOfText hl)

/-- A value is refused for a fault within the window. -/
theorem valueSize_error {name : Text} {start offset left : Nat} {text : Text} {e : Failure}
    (h : valueSize name start offset left text = .error e) (hl : left ≤ text.length) (hs : start < offset) :
    e.IsMalformedBefore (offset + left) := by
  unfold valueSize at h
  split at h
  · cases h
    exact Failure.isMalformedBefore_because rfl hs (by omega)
  · simp at hl
  · next left c rest =>
    split at h
    · have hq := quotedSize_error h (by simpa using hl)
      rwa [Nat.add_right_comm] at hq
    · exact bareSize_error h hl (by simp)

/-- A text begins with a run of any class, and what follows the run is of another class. -/
theorem exists_run (p : Char → Bool) (w : Text) :
    ∃ run rest, w = run ++ rest ∧ (∀ c ∈ run, p c = true) ∧ ∀ c ∈ rest.head?, p c = false := by
  refine ⟨w.takeWhile p, w.dropWhile p, List.takeWhile_append_dropWhile.symm, ?_, ?_⟩
  · intro c hc
    exact List.mem_takeWhile_imp hc
  · intro c hc
    have hnot := List.head?_dropWhile_not p w
    rw [hc] at hnot
    simpa using hnot

/-- The run at the front of a window is met whole. -/
theorem runLength_front {p : Char → Bool} {run rest : Text} (hrun : ∀ c ∈ run, p c = true)
    (hrest : ∀ c ∈ rest.head?, p c = false) (behind : Text) :
    runLength p (run ++ rest).length (run ++ rest ++ behind) = .ok run.length := by
  cases rest with
  | nil => simpa using runLength_full hrun behind
  | cons c rest =>
    rw [List.append_assoc]
    exact runLength_stop hrun (hrest c (by simp)) (rest ++ behind) (by simp)

/-- What is left of a window behind its first characters. -/
theorem window_behind (front rest behind : Text) :
    (front ++ rest).length - front.length = rest.length ∧
      (front ++ rest ++ behind).drop front.length = rest ++ behind := by
  constructor
  · rw [List.length_append, Nat.add_sub_cancel_left]
  · rw [List.append_assoc, List.drop_left]

theorem dropWhile_run {p : Char → Bool} {run rest : Text} (hrun : ∀ c ∈ run, p c = true)
    (hrest : ∀ c ∈ rest.head?, p c = false) : (run ++ rest).dropWhile p = rest := by
  rw [List.dropWhile_append_of_pos hrun]
  cases rest with
  | nil => rfl
  | cons c rest => simp [hrest c (by simp)]

section Steps

variable {initial : Char} {more blanks rest : Text} (offset : Nat) (behind : Text)

/-- An equals sign behind the name, blanks aside, calls for a value. -/
theorem attributeAt_named {padding : Text} (hn : isNameStart initial = true)
    (hm : ∀ c ∈ more, isNameChar c = true) (hb : ∀ c ∈ blanks, isBlank c = true)
    (hp : ∀ c ∈ padding, isBlank c = true) (hr : ∀ c ∈ rest.head?, isBlank c = false) :
    attributeAt initial offset (more ++ (blanks ++ '=' :: (padding ++ rest))).length
        (more ++ (blanks ++ '=' :: (padding ++ rest)) ++ behind) =
      (valueSize (initial :: more) offset (offset + 1 + (more.length + blanks.length + 1 + padding.length))
        rest.length (rest ++ behind)).map fun size =>
          (.named (initial :: more) ((rest ++ behind).take size),
            more.length + blanks.length + 1 + padding.length + size) := by
  have hname : ∀ c ∈ (blanks ++ '=' :: (padding ++ rest)).head?, isNameChar c = false := by
    cases blanks with
    | nil => simp; decide
    | cons d blanks => simpa using not_isNameChar_of_isBlank (hb d (by simp))
  have hequals : ∀ c ∈ ('=' :: (padding ++ rest)).head?, isBlank c = false := by simp; decide
  obtain ⟨hleft, hdrop⟩ := window_behind more (blanks ++ '=' :: (padding ++ rest)) behind
  obtain ⟨hleft', hdrop'⟩ := window_behind blanks ('=' :: (padding ++ rest)) behind
  obtain ⟨hleft'', hdrop''⟩ := window_behind padding rest behind
  have htake : (more ++ (blanks ++ '=' :: (padding ++ rest)) ++ behind).take more.length = more := by simp
  simp only [attributeAt, hn, Bool.not_true, Bool.false_eq_true, if_false, runLength_front hm hname behind, ok_bind,
    hleft, hdrop, htake, runLength_front hb hequals behind, hleft', hdrop', List.length_cons, List.cons_append,
    runLength_front hp hr behind, hleft'', hdrop'']
  rfl

/-- Without an equals sign the attribute is its name, if that is followed by a blank or by the end of the window. -/
theorem attributeAt_shorthand (hn : isNameStart initial = true) (hm : ∀ c ∈ more, isNameChar c = true)
    (hr : ∀ c ∈ rest.head?, isBlank c = true) (he : (rest.dropWhile isBlank).head? ≠ some '=') :
    attributeAt initial offset (more ++ rest).length (more ++ rest ++ behind) =
      .ok (.shorthand (initial :: more), more.length) := by
  have hname : ∀ c ∈ rest.head?, isNameChar c = false := fun c hc => not_isNameChar_of_isBlank (hr c hc)
  obtain ⟨blanks, following, rfl, hb, hf⟩ := exists_run isBlank rest
  rw [dropWhile_run hb hf] at he
  obtain ⟨hleft, hdrop⟩ := window_behind more (blanks ++ following) behind
  obtain ⟨hleft', hdrop'⟩ := window_behind blanks following behind
  have htake : (more ++ (blanks ++ following) ++ behind).take more.length = more := by simp
  simp only [attributeAt, hn, Bool.not_true, Bool.false_eq_true, if_false, runLength_front hm hname behind, ok_bind,
    hleft, hdrop, htake, runLength_front hb hf behind, hleft', hdrop']
  split
  · next k after hk ht =>
    cases following with
    | nil => cases hk
    | cons c following =>
      obtain ⟨rfl, -⟩ : c = '=' ∧ following ++ behind = after := by simpa using ht
      simp at he
  · cases hrest : blanks ++ following with
    | nil => rfl
    | cons c rest =>
      have hblank : isBlank c = true := hr c (by simp [hrest])
      simp only [List.length_cons, List.cons_append, hblank, if_true]
      rfl

/-- Anything else behind a name is at fault. -/
theorem attributeAt_afterName {c : Char} (hn : isNameStart initial = true) (hm : ∀ c ∈ more, isNameChar c = true)
    (hc : isNameChar c = false) (hb : isBlank c = false) (he : c ≠ '=') :
    attributeAt initial offset (more ++ c :: rest).length (more ++ c :: rest ++ behind) =
      .error (.because (.afterName c (initial :: more)) (offset + 1 + more.length) (offset + 2 + more.length)) := by
  have hname : ∀ d ∈ (c :: rest).head?, isNameChar d = false := by simpa using hc
  have hrun : runLength isBlank (rest.length + 1) (c :: (rest ++ behind)) = .ok 0 := by simp [runLength, hb]
  obtain ⟨hleft, hdrop⟩ := window_behind more (c :: rest) behind
  have htake : (more ++ c :: rest ++ behind).take more.length = more := by simp
  simp only [attributeAt, hn, Bool.not_true, Bool.false_eq_true, if_false, runLength_front hm hname behind, ok_bind,
    hleft, hdrop, htake, List.length_cons, List.cons_append, hrun, Nat.sub_zero, List.drop_zero]
  split
  · next hcons => exact absurd (List.cons.inj hcons).1 he
  · simp only [hb, Bool.false_eq_true, if_false]
    rfl

/-- Blanks up to the end of the window hold no attributes. -/
theorem attributesFrom_blanks (hb : ∀ c ∈ blanks, isBlank c = true) :
    attributesFrom offset blanks.length (blanks ++ behind) = .ok [] := by
  rw [attributesFrom, runLength_full hb behind, ok_bind]
  split
  · rfl
  · omega
  · omega

/-- Behind blanks, one attribute is read and then the others. -/
theorem attributesFrom_step (hb : ∀ c ∈ blanks, isBlank c = true) (hi : isBlank initial = false) :
    attributesFrom offset (blanks ++ initial :: rest).length (blanks ++ initial :: rest ++ behind) = do
      let (found, more) ← attributeAt initial (offset + blanks.length) rest.length (rest ++ behind)
      let others ← attributesFrom (offset + blanks.length + 1 + more) (rest.length - more)
        ((rest ++ behind).drop more)
      return ⟨found, ⟨offset + blanks.length, offset + blanks.length + 1 + more⟩⟩ :: others := by
  obtain ⟨hleft, hdrop⟩ := window_behind blanks (initial :: rest) behind
  rw [attributesFrom, runLength_front hb (by simpa using hi) behind, ok_bind]
  split
  · simp_all
  · simp_all
  · next left first following hk ht =>
    obtain rfl : left = rest.length := by simp_all
    obtain ⟨rfl, rfl⟩ : initial = first ∧ rest ++ behind = following := by simpa [hdrop] using ht
    rfl

end Steps

/-- What reading one attribute comes to. Its first character `initial` stands at `offset`, the window goes on with the
characters of the third argument, and behind the window the text goes on with `behind`. -/
inductive AttributeRead (initial : Char) (offset : Nat) (behind : Text) :
    Text → Except Failure (Attribute × Nat) → Prop where
  /-- No name begins here. -/
  | notAName {w : Text} : isNameStart initial = false →
      AttributeRead initial offset behind w (.error (.because (.notAName initial) offset (offset + 1)))
  /-- An equals sign calls for a value. -/
  | named {more blanks padding following : Text} : isNameStart initial = true →
      (∀ c ∈ more, isNameChar c = true) → (∀ c ∈ blanks, isBlank c = true) → (∀ c ∈ padding, isBlank c = true) →
      (∀ c ∈ following.head?, isBlank c = false) →
      AttributeRead initial offset behind (more ++ (blanks ++ '=' :: (padding ++ following)))
        ((valueSize (initial :: more) offset (offset + 1 + (more.length + blanks.length + 1 + padding.length))
          following.length (following ++ behind)).map fun size =>
            (.named (initial :: more) ((following ++ behind).take size),
              more.length + blanks.length + 1 + padding.length + size))
  /-- A name stands alone. -/
  | shorthand {more rest : Text} : isNameStart initial = true → (∀ c ∈ more, isNameChar c = true) →
      (∀ c ∈ rest.head?, isBlank c = true) → (rest.dropWhile isBlank).head? ≠ some '=' →
      AttributeRead initial offset behind (more ++ rest) (.ok (.shorthand (initial :: more), more.length))
  /-- A name touches what cannot follow it. -/
  | afterName {more : Text} {c : Char} {rest : Text} :
      AttributeRead initial offset behind (more ++ c :: rest)
        (.error (.because (.afterName c (initial :: more)) (offset + 1 + more.length) (offset + 2 + more.length)))

/-- Reading an attribute comes to one of the four. -/
theorem attributeAt_read (initial : Char) (offset : Nat) (w behind : Text) :
    AttributeRead initial offset behind w (attributeAt initial offset w.length (w ++ behind)) := by
  cases hn : isNameStart initial with
  | false =>
    have hread : attributeAt initial offset w.length (w ++ behind) =
        .error (.because (.notAName initial) offset (offset + 1)) := by
      simp only [attributeAt, hn]
      rfl
    rw [hread]
    exact .notAName hn
  | true =>
    obtain ⟨more, rest, rfl, hmore, hrest⟩ := exists_run isNameChar w
    by_cases hequals : (rest.dropWhile isBlank).head? = some '='
    · obtain ⟨blanks, following, rfl, hblanks, hfollowing⟩ := exists_run isBlank rest
      rw [dropWhile_run hblanks hfollowing] at hequals
      obtain ⟨after, rfl⟩ := List.head?_eq_some_iff.mp hequals
      obtain ⟨padding, value, rfl, hpadding, hvalue⟩ := exists_run isBlank after
      rw [attributeAt_named offset behind hn hmore hblanks hpadding hvalue]
      exact .named hn hmore hblanks hpadding hvalue
    · by_cases hblank : ∀ c ∈ rest.head?, isBlank c = true
      · rw [attributeAt_shorthand offset behind hn hmore hblank hequals]
        exact .shorthand hn hmore hblank hequals
      · cases rest with
        | nil => simp at hblank
        | cons c rest =>
          have hblank : isBlank c = false := by simpa using hblank
          have hne : c ≠ '=' := by
            rintro rfl
            simp [hblank] at hequals
          rw [attributeAt_afterName offset behind hn hmore (hrest c (by simp)) hblank hne]
          exact .afterName

/-- The name of an attribute: an ASCII letter or underscore, then ASCII letters, digits and underscores. -/
def IsAttributeName (name : Text) : Prop :=
  ∃ initial more, name = initial :: more ∧ isNameStart initial = true ∧ ∀ c ∈ more, isNameChar c = true

/-- The ways in which an attribute can be written. -/
inductive Attribute.Written : Attribute → Text → Prop where
  /-- A name alone. -/
  | shorthand {name : Text} : IsAttributeName name → Written (.shorthand name) name
  /-- A name and a value, with blanks on both sides of the equals sign or none. -/
  | named {name blanks padding value : Text} : IsAttributeName name → (∀ c ∈ blanks, isBlank c = true) →
      (∀ c ∈ padding, isBlank c = true) → IsValue (fun c => !isBlank c) value →
      Written (.named name value) (name ++ (blanks ++ '=' :: (padding ++ value)))

/-- What a window may go on with behind an attribute: nothing or a blank, and behind a name alone no equals sign even
after blanks. -/
def Attribute.EndsBefore : Attribute → Text → Prop
  | .shorthand _, rest => (∀ c ∈ rest.head?, isBlank c = true) ∧ (rest.dropWhile isBlank).head? ≠ some '='
  | .named _ _, rest => ∀ c ∈ rest.head?, isBlank c = true

/-- An attribute that is read has been written there, and ends where the reader says. -/
theorem AttributeRead.written {initial : Char} {offset n : Nat} {behind w : Text} {a : Attribute}
    (h : AttributeRead initial offset behind w (.ok (a, n))) :
    ∃ body rest, w = body ++ rest ∧ body.length = n ∧ a.Written (initial :: body) ∧ a.EndsBefore rest := by
  generalize hresult : Except.ok (a, n) = result at h
  cases h with
  | notAName => cases hresult
  | afterName => cases hresult
  | @shorthand more rest hn hmore hblank hequals =>
    obtain ⟨rfl, rfl⟩ : a = .shorthand (initial :: more) ∧ n = more.length := by simpa using hresult
    exact ⟨more, rest, rfl, rfl, .shorthand ⟨initial, more, rfl, hn, hmore⟩, hblank, hequals⟩
  | @named more blanks padding following hn hmore hblanks hpadding hfollowing =>
    obtain ⟨size, hsize, hpair⟩ := bind_return_eq_ok hresult.symm
    obtain ⟨rfl, rfl⟩ := Prod.mk.inj hpair
    obtain ⟨value, rest, rfl, rfl, hvalue, hends⟩ := isValue_of_valueSize hfollowing hsize
    have htake : (value ++ rest ++ behind).take value.length = value := by simp
    refine ⟨more ++ (blanks ++ '=' :: (padding ++ value)), rest, by simp, by simp; omega, ?_, hends⟩
    rw [htake]
    exact .named ⟨initial, more, rfl, hn, hmore⟩ hblanks hpadding hvalue

/-- What reading an attribute list comes to, in a window that holds the given characters from `offset` on. -/
inductive ListRead (behind : Text) : Nat → Text → Except Failure (List (Placed Attribute)) → Prop where
  /-- Blanks hold no attributes. -/
  | blanks {offset : Nat} {w : Text} : (∀ c ∈ w, isBlank c = true) → ListRead behind offset w (.ok [])
  /-- The first attribute is at fault. -/
  | refused {offset : Nat} {blanks : Text} {initial : Char} {rest : Text} {e : Failure} :
      (∀ c ∈ blanks, isBlank c = true) →
      AttributeRead initial (offset + blanks.length) behind rest (.error e) →
      ListRead behind offset (blanks ++ initial :: rest) (.error e)
  /-- Behind the first attribute the others are read. -/
  | found {offset : Nat} {blanks : Text} {initial : Char} {body rest : Text} {a : Attribute}
      {others : Except Failure (List (Placed Attribute))} : (∀ c ∈ blanks, isBlank c = true) →
      a.Written (initial :: body) → a.EndsBefore rest →
      ListRead behind (offset + blanks.length + 1 + body.length) rest others →
      ListRead behind offset (blanks ++ initial :: (body ++ rest))
        (others.map (⟨a, ⟨offset + blanks.length, offset + blanks.length + 1 + body.length⟩⟩ :: ·))

/-- Reading a list comes to one of the three. The recursion is on the window, of which each attribute takes a part. -/
theorem attributesFrom_read (offset : Nat) (w behind : Text) :
    ListRead behind offset w (attributesFrom offset w.length (w ++ behind)) := by
  obtain ⟨blanks, rest, rfl, hblanks, hrest⟩ := exists_run isBlank w
  cases rest with
  | nil =>
    rw [List.append_nil, attributesFrom_blanks offset behind hblanks]
    exact .blanks hblanks
  | cons initial rest =>
    rw [attributesFrom_step offset behind hblanks (hrest initial (by simp))]
    have hfirst := attributeAt_read initial (offset + blanks.length) rest behind
    cases hread : attributeAt initial (offset + blanks.length) rest.length (rest ++ behind) with
    | error e =>
      rw [hread] at hfirst
      exact .refused hblanks hfirst
    | ok found =>
      obtain ⟨a, n⟩ := found
      rw [hread] at hfirst
      obtain ⟨body, others, rfl, rfl, hwritten, hends⟩ := hfirst.written
      obtain ⟨hleft, hdrop⟩ := window_behind body others behind
      rw [ok_bind]
      dsimp only
      rw [hleft, hdrop]
      exact .found hblanks hwritten hends (attributesFrom_read _ others behind)
termination_by w.length

/-- An attribute that cannot be read is malformed, and the fault lies in the window. -/
theorem AttributeRead.error {initial : Char} {offset : Nat} {behind w : Text} {e : Failure}
    (h : AttributeRead initial offset behind w (.error e)) : e.IsMalformedBefore (offset + 1 + w.length) := by
  generalize hresult : Except.error e = result at h
  cases h with
  | notAName =>
    cases hresult
    exact Failure.isMalformedBefore_because rfl (by omega) (by omega)
  | shorthand => cases hresult
  | @afterName more c rest =>
    cases hresult
    refine Failure.isMalformedBefore_because rfl (by omega) ?_
    rw [List.length_append, List.length_cons]
    omega
  | @named more blanks padding following =>
    have hvalue := valueSize_error (bind_return_eq_error hresult.symm) (by simp) (by omega)
    rwa [show offset + 1 + (more.length + blanks.length + 1 + padding.length) + following.length =
        offset + 1 + (more ++ (blanks ++ '=' :: (padding ++ following))).length by simp; omega] at hvalue

/-- An attribute list that cannot be read has a malformed attribute, and the fault lies in the window. -/
theorem ListRead.error {behind w : Text} {offset : Nat} {e : Failure} (h : ListRead behind offset w (.error e)) :
    e.IsMalformedBefore (offset + w.length) := by
  generalize hresult : Except.error e = result at h
  induction h with
  | blanks => cases hresult
  | @refused offset blanks initial rest e' _ hread =>
    obtain rfl : e = e' := Except.error.inj hresult
    have he := hread.error
    rwa [show offset + blanks.length + 1 + rest.length = offset + (blanks ++ initial :: rest).length by
      simp; omega] at he
  | @found offset blanks initial body rest a others _ _ _ _ ih =>
    have he := ih (bind_return_eq_error hresult.symm).symm
    rwa [show offset + blanks.length + 1 + body.length + rest.length =
      offset + (blanks ++ initial :: (body ++ rest)).length by simp; omega] at he

/-- A window that lies within its text holds the characters that are read. -/
theorem attributesIn_read {text : Text} {window : Extent} (hw : window.stop ≤ text.length) :
    ∃ w behind, text.drop window.start = w ++ behind ∧ w.length = window.stop - window.start ∧
      ListRead behind window.start w (attributesIn text window) := by
  have hlength : ((text.drop window.start).take (window.stop - window.start)).length =
      window.stop - window.start := by
    rw [List.length_take, List.length_drop]
    omega
  have hread := attributesFrom_read window.start ((text.drop window.start).take (window.stop - window.start))
    ((text.drop window.start).drop (window.stop - window.start))
  rw [List.take_append_drop, hlength] at hread
  exact ⟨_, _, (List.take_append_drop _ _).symm, hlength, hread⟩

/-- Attributes are refused for a fault within their window. -/
theorem attributesIn_malformed {text : Text} {window : Extent} {e : Failure}
    (h : attributesIn text window = .error e) (hw : window.stop ≤ text.length) :
    e.IsMalformedBefore (max window.start window.stop) := by
  obtain ⟨w, behind, -, hlength, hread⟩ := attributesIn_read hw
  rw [h] at hread
  have he := hread.error
  rwa [hlength, show window.start + (window.stop - window.start) = max window.start window.stop by omega] at he

/-- Attributes are refused as malformed, and for nothing else. -/
theorem attributesIn_error {text : Text} {window : Extent} {e : Failure}
    (h : attributesIn text window = .error e) (hw : window.stop ≤ text.length) :
    e.IsMalformedAttribute :=
  (attributesIn_malformed h hw).isMalformedAttribute

end ComponentTags
