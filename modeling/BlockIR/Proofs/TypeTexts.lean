import BlockIR.Type
import Mathlib.Data.List.Basic
/-!
What the text of a type tells about it.

A text is read from left to right.  An object type that is no tuple is written by a word, which ends
where a comma, a parenthesis or nothing follows.  A tuple opens with a parenthesis and goes on from
element to element by commas, up to the parenthesis that closes it.  So as long as the names of
structures keep away from commas and parentheses, the text tells where each element ends, however
deep tuples are nested, and no two types have the same text.
-/

namespace BlockIR

section Words

variable {marks word other rest after : List Char}

/-- None of the characters of a text is one of the marks. -/
def IsWord (marks text : List Char) : Prop :=
  ∀ c ∈ text, c ∉ marks

instance (marks text : List Char) : Decidable (IsWord marks text) :=
  decidable_of_iff (text.all (fun c => !marks.contains c) = true) (by simp [IsWord])

/-- A word that stands in front of a text ends there: the text opens with a mark or is empty. -/
def EndsWord (marks text : List Char) : Prop :=
  ∀ c ∈ text.head?, c ∈ marks

theorem IsWord.eq_nil_of_endsWord (hword : IsWord marks word)
    (hends : EndsWord marks (word ++ rest)) : word = [] := by
  cases word with
  | nil => rfl
  | cons c word => exact absurd (hends c rfl) (hword c List.mem_cons_self)

/-- A text can be split in one way only into a word and what ends it. -/
theorem IsWord.append_inj (hword : IsWord marks word) (hother : IsWord marks other)
    (hrest : EndsWord marks rest) (hafter : EndsWord marks after)
    (h : word ++ rest = other ++ after) : word = other ∧ rest = after := by
  rcases List.append_eq_append_iff.1 h with ⟨more, rfl, rfl⟩ | ⟨more, rfl, rfl⟩
  · have hmore : IsWord marks more := fun c hc => hother c (List.mem_append_right _ hc)
    simp [hmore.eq_nil_of_endsWord hrest]
  · have hmore : IsWord marks more := fun c hc => hword c (List.mem_append_right _ hc)
    simp [hmore.eq_nil_of_endsWord hafter]

end Words

/-- The characters that set off the elements of a tuple. -/
def delimiters : List Char := [',', '(', ')']

namespace ObjectType

mutual

/-- The names of the structures in an object type. -/
def structNames : ObjectType → List String
  | .void | .builtin _ => []
  | .struct name => [name]
  | .tuple elements => structNamesOf elements

def structNamesOf : List ObjectType → List String
  | [] => []
  | type :: rest => structNames type ++ structNamesOf rest

end

theorem structNamesOf_eq_flatMap (types : List ObjectType) :
    structNamesOf types = types.flatMap structNames := by
  induction types with
  | nil => simp [structNamesOf]
  | cons type rest ih => simp [structNamesOf, ih]

/-- No structure in the type has a delimiter in its name. -/
def HasPlainNames (type : ObjectType) : Prop :=
  ∀ name ∈ type.structNames, IsWord delimiters name.toList

instance (type : ObjectType) : Decidable type.HasPlainNames :=
  decidable_of_iff
    (type.structNames.all (fun name => decide (IsWord delimiters name.toList)) = true)
    (by simp [HasPlainNames])

theorem hasPlainNames_struct {name : String} :
    (struct name).HasPlainNames ↔ IsWord delimiters name.toList := by
  simp [HasPlainNames, structNames]

theorem hasPlainNames_tuple {elements : List ObjectType} :
    (tuple elements).HasPlainNames ↔ ∀ element ∈ elements, element.HasPlainNames := by
  simp only [HasPlainNames, structNames, structNamesOf_eq_flatMap, List.mem_flatMap]
  constructor
  · intro h element helement name hname
    exact h name ⟨element, helement, hname⟩
  · rintro h name ⟨element, helement, hname⟩
    exact h element helement name hname

/-- What a tuple inherits from its elements holds of every object type. -/
@[elab_as_elim]
theorem induction_on {motive : ObjectType → Prop} (type : ObjectType) (void : motive .void)
    (builtin : ∀ type, motive (.builtin type)) (struct : ∀ name, motive (.struct name))
    (tuple : ∀ elements, (∀ element ∈ elements, motive element) → motive (.tuple elements)) :
    motive type :=
  @ObjectType.rec motive (fun elements => ∀ element ∈ elements, motive element)
    void builtin struct tuple (by simp)
    (fun _ _ hfirst hrest => List.forall_mem_cons.2 ⟨hfirst, hrest⟩) type

def isTuple : ObjectType → Bool
  | .tuple _ => true
  | _ => false

/-- The text of a tuple behind its first element. -/
def remainder : List ObjectType → List Char
  | [] => [')']
  | type :: rest => ',' :: ' ' :: (type.text.toList ++ remainder rest)

theorem endsWord_remainder_append (types : List ObjectType) (rest : List Char) :
    EndsWord delimiters (remainder types ++ rest) := by
  cases types <;> simp [EndsWord, remainder, delimiters]

theorem toList_text_struct (name : String) : (struct name).text.toList = '%' :: name.toList := by
  simp [text]

theorem toList_text_unit : (tuple []).text.toList = ['(', ')'] := by
  simp [text, texts]

theorem toList_intercalate_texts (first : ObjectType) (rest : List ObjectType) :
    (", ".intercalate (texts (first :: rest))).toList ++ [')'] =
      first.text.toList ++ remainder rest := by
  induction rest generalizing first with
  | nil => simp [texts, remainder]
  | cons second rest ih =>
      have hrest := ih second
      simp only [texts] at hrest ⊢
      simp [remainder, ← hrest]

theorem toList_text_tuple (first : ObjectType) (rest : List ObjectType) :
    (tuple (first :: rest)).text.toList = '(' :: (first.text.toList ++ remainder rest) := by
  rw [← toList_intercalate_texts]
  simp [text]

/-- The first character of the text of an object type, which tells a tuple. -/
theorem exists_toList_text_eq_cons (type : ObjectType) :
    ∃ c ∈ ['v', 'i', 'f', 'p', '%', '('], (c = '(' ↔ type.isTuple = true) ∧
      ∃ rest, type.text.toList = c :: rest := by
  cases type with
  | void => exact ⟨'v', by decide, by decide, _, rfl⟩
  | builtin type => cases type <;> simp [text, Builtin.text, isTuple]
  | struct name => exact ⟨'%', by decide, by simp [isTuple], _, toList_text_struct name⟩
  | tuple elements =>
      cases elements with
      | nil => exact ⟨'(', by decide, by simp [isTuple], _, toList_text_unit⟩
      | cons first rest =>
          exact ⟨'(', by decide, by simp [isTuple], _, toList_text_tuple first rest⟩

theorem toList_text_append_ne_cons (type : ObjectType) {c : Char}
    (hc : c ∉ ['v', 'i', 'f', 'p', '%', '(']) (more rest : List Char) :
    type.text.toList ++ more ≠ c :: rest := by
  obtain ⟨first, hfirst, -, _, htext⟩ := type.exists_toList_text_eq_cons
  intro h
  rw [htext] at h
  exact hc ((List.cons.inj h).1 ▸ hfirst)

theorem toList_text_ne_cons (type : ObjectType) {c : Char}
    (hc : c ∉ ['v', 'i', 'f', 'p', '%', '(']) (rest : List Char) :
    type.text.toList ≠ c :: rest := by
  simpa using type.toList_text_append_ne_cons hc [] rest

/-- Tuples are told from all other object types by the first character. -/
theorem isTuple_eq_of_append_eq {type other : ObjectType} {rest after : List Char}
    (h : type.text.toList ++ rest = other.text.toList ++ after) :
    type.isTuple = other.isTuple := by
  obtain ⟨c, -, hc, _, htext⟩ := type.exists_toList_text_eq_cons
  obtain ⟨d, -, hd, _, hother⟩ := other.exists_toList_text_eq_cons
  rw [htext, hother] at h
  obtain rfl := (List.cons.inj h).1
  exact Bool.eq_iff_iff.2 (hc.symm.trans hd)

/-- The object type, no tuple, that is written by a word. -/
def ofWord (word : List Char) : ObjectType :=
  match word with
  | '%' :: name => .struct (String.ofList name)
  | _ => ((Builtin.ofText? (String.ofList word)).map .builtin).getD .void

theorem ofWord_text {type : ObjectType} (hsimple : type.isTuple = false) :
    ofWord type.text.toList = type := by
  cases type with
  | void => decide
  | builtin type => cases type <;> decide
  | struct name => rw [toList_text_struct, ofWord, String.ofList_toList]
  | tuple _ => simp [isTuple] at hsimple

theorem isWord_text {type : ObjectType} (hplain : type.HasPlainNames)
    (hsimple : type.isTuple = false) : IsWord delimiters type.text.toList := by
  cases type with
  | void => decide
  | builtin type => cases type <;> decide
  | struct name =>
      rw [toList_text_struct]
      exact List.forall_mem_cons.2 ⟨by decide, hasPlainNames_struct.1 hplain⟩
  | tuple _ => simp [isTuple] at hsimple

/-- Wherever the text of the type stands, set off from what follows, it tells the type and its own
end. -/
def Legible (type : ObjectType) : Prop :=
  ∀ ⦃other : ObjectType⦄ ⦃rest after : List Char⦄, other.HasPlainNames →
    EndsWord delimiters rest → EndsWord delimiters after →
    type.text.toList ++ rest = other.text.toList ++ after → type = other ∧ rest = after

theorem legible_of_word {type : ObjectType} (hplain : type.HasPlainNames)
    (hsimple : type.isTuple = false) : type.Legible := by
  intro other rest after hother hrest hafter h
  have hsame : other.isTuple = false := (isTuple_eq_of_append_eq h).symm.trans hsimple
  obtain ⟨htext, rfl⟩ :=
    (isWord_text hplain hsimple).append_inj (isWord_text hother hsame) hrest hafter h
  refine ⟨?_, rfl⟩
  rw [← ofWord_text hsimple, htext, ofWord_text hsame]

/-- Elements that can be told by themselves can be told one after the other, up to the end of their
tuple. -/
theorem remainder_append_inj {types others : List ObjectType} {rest after : List Char}
    (hlegible : ∀ type ∈ types, type.Legible) (hplain : ∀ type ∈ others, type.HasPlainNames)
    (h : remainder types ++ rest = remainder others ++ after) : types = others ∧ rest = after := by
  induction types generalizing others with
  | nil =>
      cases others with
      | nil => exact ⟨rfl, by simpa [remainder] using h⟩
      | cons other others => simp [remainder] at h
  | cons type types ih =>
      cases others with
      | nil => simp [remainder] at h
      | cons other others =>
          rw [List.forall_mem_cons] at hlegible hplain
          have htext : type.text.toList ++ (remainder types ++ rest) =
              other.text.toList ++ (remainder others ++ after) := by
            simpa [remainder] using h
          -- Each element ends at the comma or the parenthesis that the remainder opens with.
          obtain ⟨rfl, hmore⟩ := hlegible.1 hplain.1 (endsWord_remainder_append types rest)
            (endsWord_remainder_append others after) htext
          obtain ⟨rfl, rfl⟩ := ih hlegible.2 hplain.2 hmore
          exact ⟨rfl, rfl⟩

/-- The empty tuple is told from the others by the second character. -/
theorem text_tuple_append_ne_unit (first : ObjectType) (others : List ObjectType)
    (rest after : List Char) :
    (tuple (first :: others)).text.toList ++ rest ≠ (tuple []).text.toList ++ after := by
  intro h
  rw [toList_text_tuple, toList_text_unit, List.cons_append, List.cons_append,
    List.append_assoc] at h
  exact first.toList_text_append_ne_cons (by decide) _ _ (List.cons.inj h).2

theorem legible_tuple {elements : List ObjectType}
    (hlegible : ∀ element ∈ elements, element.Legible) : (tuple elements).Legible := by
  intro other rest after hother _ _ h
  have htuple := isTuple_eq_of_append_eq h
  cases other with
  | tuple others =>
      cases elements with
      | nil =>
          cases others with
          | nil => exact ⟨rfl, List.append_cancel_left h⟩
          | cons first others => exact absurd h.symm (text_tuple_append_ne_unit first others _ _)
      | cons first elements =>
          cases others with
          | nil => exact absurd h (text_tuple_append_ne_unit first elements _ _)
          | cons second others =>
              -- With a comma in place of the parenthesis both texts are remainders.
              have hmore : remainder (first :: elements) ++ rest =
                  remainder (second :: others) ++ after := by
                rw [toList_text_tuple, toList_text_tuple] at h
                simpa [remainder] using h
              obtain ⟨helements, hrest⟩ :=
                remainder_append_inj hlegible (hasPlainNames_tuple.1 hother) hmore
              exact ⟨congrArg tuple helements, hrest⟩
  | _ => simp [isTuple] at htuple

/-- Plain names make a type legible, however deep its tuples are nested. -/
theorem legible {type : ObjectType} (hplain : type.HasPlainNames) : type.Legible := by
  induction type using induction_on with
  | void => exact legible_of_word hplain rfl
  | builtin _ => exact legible_of_word hplain rfl
  | struct _ => exact legible_of_word hplain rfl
  | tuple elements ih =>
      have helements := hasPlainNames_tuple.1 hplain
      exact legible_tuple (fun element hmem => ih element hmem (helements element hmem))

theorem text_inj {type other : ObjectType} (hplain : type.HasPlainNames)
    (hother : other.HasPlainNames) (h : type.text = other.text) : type = other := by
  have hends : EndsWord delimiters [] := by simp [EndsWord]
  exact (legible hplain hother hends hends (by rw [h])).1

/-- A name with a comma can be taken for two elements. -/
example : (tuple [struct "a, %b"]).text = (tuple [struct "a", struct "b"]).text := by
  decide

end ObjectType

theorem RemoteType.toList_text (type : RemoteType) :
    type.text.toList = 'r' :: 'e' :: 'm' :: 'o' :: 't' :: 'e' :: ' ' ::
      (type.access.text.toList ++ ' ' :: type.bare.text.toList) := by
  have htext : type.text = "remote " ++ type.access.text ++ " " ++ type.bare.text := rfl
  simp [htext]

theorem Access.text_inj {access other : Access} (h : access.text = other.text) :
    access = other := by
  rw [← Option.some.injEq, ← ofText?_text, h, ofText?_text]

theorem Access.isWord_text (access : Access) : IsWord [' '] access.text.toList := by
  cases access <;> decide

theorem RemoteType.text_inj {type other : RemoteType} (hplain : type.bare.HasPlainNames)
    (hother : other.bare.HasPlainNames) (h : type.text = other.text) : type = other := by
  have hends : ∀ rest, EndsWord [' '] (' ' :: rest) := by simp [EndsWord]
  rw [← String.toList_inj, toList_text, toList_text] at h
  simp only [List.cons.injEq, true_and] at h
  obtain ⟨haccess, hbare⟩ :=
    type.access.isWord_text.append_inj other.access.isWord_text (hends _) (hends _) h
  have hsame := ObjectType.text_inj hplain hother (String.toList_inj.1 (List.cons.inj hbare).2)
  exact RemoteType.mk.injEq .. |>.mpr ⟨Access.text_inj (String.toList_inj.1 haccess), hsame⟩

namespace ValueType

/-- The object type that a type of values is made from. -/
def base : ValueType → ObjectType
  | .object type | .address type => type
  | .remote type => type.bare

/-- No structure in the type has a delimiter in its name. -/
def HasPlainNames (type : ValueType) : Prop :=
  type.base.HasPlainNames

instance (type : ValueType) : Decidable type.HasPlainNames :=
  inferInstanceAs (Decidable type.base.HasPlainNames)

theorem toList_text_address (type : ObjectType) :
    (address type).text.toList = '&' :: type.text.toList := by
  simp [text]

theorem toList_text_remote (type : RemoteType) :
    (remote type).text.toList = '&' :: type.text.toList := by
  simp [text]

/-- An address of a slot and a remote address open in the same way, and part at the next character:
no object type is written with an `r` in front. -/
theorem text_address_ne_remote (type : ObjectType) (other : RemoteType) :
    (address type).text ≠ (remote other).text := by
  intro h
  rw [← String.toList_inj, toList_text_address, toList_text_remote, RemoteType.toList_text] at h
  exact type.toList_text_ne_cons (by decide) _ (List.cons.inj h).2

theorem text_object_ne_of_isAddress (type : ObjectType) {other : ValueType}
    (hother : other.isAddress = true) : (object type).text ≠ other.text := by
  intro h
  rw [← String.toList_inj] at h
  cases other with
  | object _ => simp [isAddress, pointee?] at hother
  | address other =>
      rw [toList_text_address] at h
      exact type.toList_text_ne_cons (by decide) _ h
  | remote other =>
      rw [toList_text_remote] at h
      exact type.toList_text_ne_cons (by decide) _ h

/-- Types of values with plain names have different texts, unless they are the same. -/
theorem text_inj {type other : ValueType} (hplain : type.HasPlainNames)
    (hother : other.HasPlainNames) (h : type.text = other.text) : type = other := by
  cases type with
  | object type =>
      cases other with
      | object other => exact congrArg object (ObjectType.text_inj hplain hother h)
      | address _ => exact absurd h (text_object_ne_of_isAddress type rfl)
      | remote _ => exact absurd h (text_object_ne_of_isAddress type rfl)
  | address type =>
      cases other with
      | object other => exact absurd h.symm (text_object_ne_of_isAddress other rfl)
      | address other =>
          rw [← String.toList_inj, toList_text_address, toList_text_address] at h
          have htext := String.toList_inj.1 (List.cons.inj h).2
          exact congrArg address (ObjectType.text_inj hplain hother htext)
      | remote other => exact absurd h (text_address_ne_remote type other)
  | remote type =>
      cases other with
      | object other => exact absurd h.symm (text_object_ne_of_isAddress other rfl)
      | address other => exact absurd h.symm (text_address_ne_remote other type)
      | remote other =>
          rw [← String.toList_inj, toList_text_remote, toList_text_remote] at h
          have htext := String.toList_inj.1 (List.cons.inj h).2
          exact congrArg remote (RemoteType.text_inj hplain hother htext)

end ValueType

end BlockIR
