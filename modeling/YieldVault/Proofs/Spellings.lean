-- The law of spellings: how a JSON value may stand in a text, with blanks between its
-- tokens as they please, and that the reader takes each such text for the value.
import Mathlib.Data.List.DropRight
import Mathlib.Tactic.Tauto
import YieldVault.Json.Reader

namespace YieldVault.Json

/-! ## Blanks -/

/-- Whether all of a text may stand between tokens. -/
def Blank (cs : List Char) : Prop := ∀ c ∈ cs, isSpace c

theorem blank_nil : Blank [] := by
  simp [Blank]

theorem skipSpace_append_of_blank {gap : List Char} (h : Blank gap) (cs : List Char) :
    skipSpace (gap ++ cs) = skipSpace cs :=
  List.dropWhile_append_of_pos h

theorem skipSpace_of_blank {gap : List Char} (h : Blank gap) : skipSpace gap = [] :=
  List.dropWhile_eq_nil_iff.2 h

theorem skipSpace_cons {c : Char} (h : isSpace c = false) (cs : List Char) :
    skipSpace (c :: cs) = c :: cs := by
  simp [skipSpace, h]

theorem skipSpace_skipSpace (cs : List Char) : skipSpace (skipSpace cs) = skipSpace cs := by
  unfold skipSpace
  exact List.dropWhile_idempotent _ _

/-! ## Spellings -/

/-- The characters that stand behind a value where it is part of another. -/
def closers : List Char := [',', ']', '\x7d']

/-- Whether a text ends what stands before it: it is empty, or starts with a blank or a closer. -/
def Closes (rest : List Char) : Prop := ∀ c ∈ rest.head?, isSpace c ∨ c ∈ closers

theorem closes_nil : Closes [] := by
  simp [Closes]

theorem closes_append {gap : List Char} (h : Blank gap) {rest : List Char} (hrest : Closes rest) :
    Closes (gap ++ rest) := by
  cases gap with
  | nil => exact hrest
  | cons c gap =>
    intro c' hc'
    obtain rfl : c = c' := by simpa using hc'
    exact .inl (h c List.mem_cons_self)

theorem closes_cons {c : Char} (h : c ∈ closers) (rest : List Char) : Closes (c :: rest) := by
  intro c' hc'
  obtain rfl : c = c' := by simpa using hc'
  exact .inr h

/-- Whether a text spells a value that nests no other: the reader takes just this text for it,
whatever ends it. -/
def SpellsScalar (json : Json) (cs : List Char) : Prop :=
  ∀ rest, Closes rest → scalar? (cs ++ rest) = some (json, rest)

/-- Whether a text spells a string, from behind the opening quote to the closing one. -/
def SpellsString (content : Option String) (cs : List Char) : Prop :=
  ∀ rest, string? (cs ++ rest) = some (content, rest)

/-- What a text can spell: a value, or the inside of an array or an object with its end. -/
inductive Part
  | value (json : Json)
  | items (items : List Json)
  | members (members : List (Option String × Json))

/-- Whether a text spells a part of a value. -/
inductive Spells : Part → List Char → Prop
  | scalar {json : Json} {cs : List Char} : SpellsScalar json cs → Spells (.value json) cs
  | noItems {gap : List Char} : Blank gap → Spells (.value (.array [])) ('[' :: (gap ++ [']']))
  | array {items : List Json} {cs : List Char} :
      Spells (.items items) cs → Spells (.value (.array items)) ('[' :: cs)
  | noMembers {gap : List Char} :
      Blank gap → Spells (.value (.object [])) ('\x7b' :: (gap ++ ['\x7d']))
  | object {members : List (Option String × Json)} {cs : List Char} :
      Spells (.members members) cs → Spells (.value (.object members)) ('\x7b' :: cs)
  | lastItem {item : Json} {before cs after : List Char} :
      Blank before → Spells (.value item) cs → Blank after →
      Spells (.items [item]) (before ++ (cs ++ (after ++ [']'])))
  | item {item : Json} {items : List Json} {before cs after more : List Char} :
      Blank before → Spells (.value item) cs → Blank after → Spells (.items items) more →
      Spells (.items (item :: items)) (before ++ (cs ++ (after ++ ',' :: more)))
  | lastMember {name : Option String} {json : Json}
      {before word middle ahead cs after : List Char} :
      Blank before → SpellsString name word → Blank middle →
      Blank ahead → Spells (.value json) cs → Blank after →
      Spells (.members [(name, json)])
        (before ++ '"' :: (word ++ (middle ++ ':' :: (ahead ++ (cs ++ (after ++ ['\x7d']))))))
  | member {name : Option String} {json : Json} {members : List (Option String × Json)}
      {before word middle ahead cs after more : List Char} :
      Blank before → SpellsString name word → Blank middle →
      Blank ahead → Spells (.value json) cs → Blank after → Spells (.members members) more →
      Spells (.members ((name, json) :: members))
        (before ++ '"' :: (word ++ (middle ++ ':' :: (ahead ++ (cs ++ (after ++ ',' :: more))))))

/-! ## First characters -/

/-- What a scalar cannot start with. -/
def strangers : List Char := [' ', '\n', '\t', '\r', '[', '\x7b'] ++ closers

theorem scalar?_eq_none {c : Char} (h : c ∈ strangers) (cs : List Char) :
    scalar? (c :: cs) = none := by
  have hall : ∀ c ∈ strangers, scalar? (c :: cs) = none := by
    simp [strangers, closers, scalar?, number?, unsigned?]
  exact hall c h

theorem isSpace_eq_false {c : Char} (h : c ∉ strangers) : isSpace c = false := by
  simp only [strangers, List.cons_append, List.mem_cons, not_or] at h
  simp [isSpace, h]

theorem SpellsScalar.exists_head {json : Json} {cs : List Char} (h : SpellsScalar json cs) :
    ∃ c tail, cs = c :: tail ∧ c ∉ strangers := by
  have hread := h [] closes_nil
  rw [List.append_nil] at hread
  cases cs with
  | nil => cases hread
  | cons c tail =>
    refine ⟨c, tail, rfl, fun hc => ?_⟩
    rw [scalar?_eq_none hc tail] at hread
    cases hread

/-- A value starts with its first token, and with no closer. -/
theorem Spells.exists_head {json : Json} {cs : List Char} (h : Spells (.value json) cs) :
    ∃ c tail, cs = c :: tail ∧ isSpace c = false ∧ c ∉ closers := by
  cases h with
  | scalar hscalar =>
    obtain ⟨c, tail, rfl, hc⟩ := hscalar.exists_head
    exact ⟨c, tail, rfl, isSpace_eq_false hc, fun hmem => hc (List.mem_append_right _ hmem)⟩
  | noItems => exact ⟨_, _, rfl, by decide, by decide⟩
  | array => exact ⟨_, _, rfl, by decide, by decide⟩
  | noMembers => exact ⟨_, _, rfl, by decide, by decide⟩
  | object => exact ⟨_, _, rfl, by decide, by decide⟩

theorem Spells.skipSpace_eq {json : Json} {cs : List Char} (h : Spells (.value json) cs)
    {gap : List Char} (hgap : Blank gap) (rest : List Char) :
    skipSpace (gap ++ (cs ++ rest)) = cs ++ rest := by
  obtain ⟨c, tail, rfl, hc, -⟩ := h.exists_head
  rw [skipSpace_append_of_blank hgap, List.cons_append, skipSpace_cons hc]

theorem skipSpace_closer {gap : List Char} (h : Blank gap) {c : Char} (hc : c ∈ closers)
    (rest : List Char) : skipSpace (gap ++ c :: rest) = c :: rest := by
  have hall : ∀ c ∈ closers, isSpace c = false := by simp [closers, isSpace]
  rw [skipSpace_append_of_blank h, skipSpace_cons (hall c hc)]

/-- The inside of an array does not start with its end. -/
theorem Spells.head?_items_ne {items : List Json} {cs : List Char} (h : Spells (.items items) cs)
    (rest : List Char) : (skipSpace (cs ++ rest)).head? ≠ some ']' := by
  have hvalue : ∀ {json before cs more}, Blank before → Spells (.value json) cs →
      (skipSpace (before ++ (cs ++ more))).head? ≠ some ']' := by
    intro json before cs more hbefore hcs
    rw [hcs.skipSpace_eq hbefore]
    obtain ⟨c, tail, rfl, -, hc⟩ := hcs.exists_head
    rintro ⟨⟩
    exact hc (by decide)
  cases h with
  | lastItem hbefore hcs _ =>
    rw [List.append_assoc, List.append_assoc]
    exact hvalue hbefore hcs
  | item hbefore hcs _ _ =>
    rw [List.append_assoc, List.append_assoc]
    exact hvalue hbefore hcs

/-- The inside of an object starts with a name. -/
theorem Spells.head?_members_ne {members : List (Option String × Json)} {cs : List Char}
    (h : Spells (.members members) cs) (rest : List Char) :
    (skipSpace (cs ++ rest)).head? ≠ some '\x7d' := by
  have hname : ∀ {before more}, Blank before →
      (skipSpace (before ++ '"' :: more)).head? ≠ some '\x7d' := by
    intro before more hbefore
    rw [skipSpace_append_of_blank hbefore, skipSpace_cons (by decide)]
    simp
  cases h with
  | lastMember hbefore =>
    rw [List.append_assoc]
    exact hname hbefore
  | member hbefore =>
    rw [List.append_assoc]
    exact hname hbefore

/-! ## Wholeness -/

theorem isWhole_ofString (content : Option String) : (ofString content).isWhole := by
  cases content <;> rfl

theorem isWhole_of_scalar? {cs rest : List Char} {json : Json}
    (h : scalar? cs = some (json, rest)) : json.isWhole := by
  unfold scalar? at h
  split at h <;> obtain ⟨found, -, heq⟩ := Option.map_eq_some_iff.1 h <;> cases heq
  · exact isWhole_ofString found.1
  all_goals rfl

/-- Whether nothing in a part is cut. -/
def Part.isWhole : Part → Bool
  | value json => json.isWhole
  | items list => areWhole list
  | members list => membersAreWhole list

/-- What has a spelling is whole. -/
theorem Spells.isWhole {part : Part} {cs : List Char} (h : Spells part cs) : part.isWhole := by
  induction h with
  | scalar hscalar => exact isWhole_of_scalar? (hscalar [] closes_nil)
  | noItems | noMembers => rfl
  | array _ ih => exact ih
  | object _ ih => exact ih
  | lastItem _ _ _ ih => simpa [Part.isWhole, areWhole] using ih
  | item _ _ _ _ ih ihmore => simpa [Part.isWhole, areWhole] using ⟨ih, ihmore⟩
  | lastMember _ _ _ _ _ _ ih => simpa [Part.isWhole, membersAreWhole] using ih
  | member _ _ _ _ _ _ _ ih ihmore => simpa [Part.isWhole, membersAreWhole] using ⟨ih, ihmore⟩

theorem membersAreWhole_iff {members : List (Option String × Json)} :
    membersAreWhole members ↔ ∀ member ∈ members, member.2.isWhole := by
  induction members with
  | nil => simp [membersAreWhole]
  | cons member rest ih => simp [membersAreWhole, ih]

/-! ## Steps of the reader -/

theorem value_skipSpace (fuel : Nat) (cs : List Char) :
    Json.value fuel (skipSpace cs) = Json.value fuel cs := by
  cases fuel with
  | zero => simp [Json.value]
  | succ fuel =>
    unfold Json.value
    rw [skipSpace_skipSpace]

theorem items_skipSpace (fuel : Nat) (cs : List Char) :
    Json.items fuel (skipSpace cs) = Json.items fuel cs := by
  cases fuel with
  | zero => simp [Json.items]
  | succ fuel =>
    unfold Json.items
    rw [value_skipSpace]

theorem members_skipSpace (fuel : Nat) (cs : List Char) :
    Json.members fuel (skipSpace cs) = Json.members fuel cs := by
  cases fuel with
  | zero => simp [Json.members]
  | succ fuel =>
    unfold Json.members
    rw [skipSpace_skipSpace]

theorem value_scalar {fuel : Nat} {cs rest : List Char} {json : Json}
    (h : scalar? cs = some (json, rest)) : Json.value (fuel + 1) cs = (json, some rest) := by
  cases cs with
  | nil => cases h
  | cons c tail =>
    have hc : c ∉ strangers := fun hc => by
      rw [scalar?_eq_none hc] at h
      cases h
    unfold Json.value
    rw [skipSpace_cons (isSpace_eq_false hc)]
    split
    · rename_i heq
      cases heq
      exact absurd (by decide) hc
    · rename_i heq
      cases heq
      exact absurd (by decide) hc
    · rw [h]

theorem value_noItems {fuel : Nat} {gap : List Char} (hgap : Blank gap) (rest : List Char) :
    Json.value (fuel + 1) ('[' :: (gap ++ ']' :: rest)) = (.array [], some rest) := by
  unfold Json.value
  rw [skipSpace_cons (by decide)]
  simp only [skipSpace_closer hgap (show ']' ∈ closers by decide)]

theorem value_noMembers {fuel : Nat} {gap : List Char} (hgap : Blank gap) (rest : List Char) :
    Json.value (fuel + 1) ('\x7b' :: (gap ++ '\x7d' :: rest)) = (.object [], some rest) := by
  unfold Json.value
  rw [skipSpace_cons (by decide)]
  simp only [skipSpace_closer hgap (show '\x7d' ∈ closers by decide)]

theorem value_array {fuel : Nat} {cs rest : List Char} {items : List Json}
    (hhead : (skipSpace cs).head? ≠ some ']') (h : Json.items fuel cs = (items, some rest)) :
    Json.value (fuel + 1) ('[' :: cs) = (.array items, some rest) := by
  rw [← items_skipSpace] at h
  unfold Json.value
  rw [skipSpace_cons (by decide)]
  simp only
  split
  · rename_i heq
    rw [heq] at hhead
    exact absurd rfl hhead
  · rw [h]

theorem value_object {fuel : Nat} {cs rest : List Char} {members : List (Option String × Json)}
    (hhead : (skipSpace cs).head? ≠ some '\x7d')
    (h : Json.members fuel cs = (members, some rest)) :
    Json.value (fuel + 1) ('\x7b' :: cs) = (.object members, some rest) := by
  rw [← members_skipSpace] at h
  unfold Json.value
  rw [skipSpace_cons (by decide)]
  simp only
  split
  · rename_i heq
    rw [heq] at hhead
    exact absurd rfl hhead
  · rw [h]

theorem items_last {fuel : Nat} {cs gap rest : List Char} {item : Json} (hgap : Blank gap)
    (h : Json.value fuel cs = (item, some (gap ++ ']' :: rest))) :
    Json.items (fuel + 1) cs = ([item], some rest) := by
  unfold Json.items
  rw [h]
  simp only [skipSpace_closer hgap (show ']' ∈ closers by decide)]

theorem items_next {fuel : Nat} {cs gap more rest : List Char} {item : Json} {items : List Json}
    (hgap : Blank gap) (h : Json.value fuel cs = (item, some (gap ++ ',' :: more)))
    (hmore : Json.items fuel more = (items, some rest)) :
    Json.items (fuel + 1) cs = (item :: items, some rest) := by
  rw [Json.items, h]
  simp only [skipSpace_closer hgap (show ',' ∈ closers by decide), hmore]

section

variable {fuel : Nat} {before word middle cs gap rest : List Char} {name : Option String}
  {json : Json}

theorem members_last (hbefore : Blank before) (hword : SpellsString name word)
    (hmiddle : Blank middle) (hgap : Blank gap)
    (h : Json.value fuel cs = (json, some (gap ++ '\x7d' :: rest))) :
    Json.members (fuel + 1) (before ++ '"' :: (word ++ (middle ++ ':' :: cs))) =
      ([(name, json)], some rest) := by
  unfold Json.members
  rw [skipSpace_append_of_blank hbefore, skipSpace_cons (by decide)]
  simp only [hword (middle ++ ':' :: cs)]
  rw [skipSpace_append_of_blank hmiddle, skipSpace_cons (by decide)]
  simp only [h, skipSpace_closer hgap (show '\x7d' ∈ closers by decide)]

theorem members_next {more : List Char} {members : List (Option String × Json)}
    (hbefore : Blank before) (hword : SpellsString name word) (hmiddle : Blank middle)
    (hgap : Blank gap) (h : Json.value fuel cs = (json, some (gap ++ ',' :: more)))
    (hmore : Json.members fuel more = (members, some rest)) :
    Json.members (fuel + 1) (before ++ '"' :: (word ++ (middle ++ ':' :: cs))) =
      ((name, json) :: members, some rest) := by
  rw [Json.members, skipSpace_append_of_blank hbefore, skipSpace_cons (by decide)]
  simp only [hword (middle ++ ':' :: cs)]
  rw [skipSpace_append_of_blank hmiddle, skipSpace_cons (by decide)]
  simp only [h, skipSpace_closer hgap (show ',' ∈ closers by decide), hmore]

end

/-! ## The law -/

/-- Whether the reader takes the text of a part for it, up to the rest. -/
def Part.IsRead (fuel : Nat) (cs rest : List Char) : Part → Prop
  | value json => Json.value fuel cs = (json, some rest)
  | items list => Json.items fuel cs = (list, some rest)
  | members list => Json.members fuel cs = (list, some rest)

/-- Blanks ahead of a value make no difference to the reader. -/
theorem value_blank_append {gap : List Char} (hgap : Blank gap) (fuel : Nat) (cs : List Char) :
    Json.value fuel (gap ++ cs) = Json.value fuel cs := by
  rw [← value_skipSpace, skipSpace_append_of_blank hgap, value_skipSpace]

theorem exists_step {cs : List Char} {fuel : Nat} (h : 2 * cs.length ≤ fuel) (hsome : cs ≠ []) :
    ∃ k, fuel = k + 1 := by
  have hpos := List.length_pos_iff.2 hsome
  exact ⟨fuel - 1, by omega⟩

/-- Every text that spells a part is read as that part. A step of the reader takes one of its fuel,
and no more than two steps are taken for a character. -/
theorem isRead_of_spells {part : Part} {cs : List Char} (h : Spells part cs) :
    ∀ {fuel : Nat} {rest : List Char}, 2 * cs.length ≤ fuel → Closes rest →
      part.IsRead fuel (cs ++ rest) rest := by
  induction h with
  | scalar hscalar =>
    intro fuel rest hfuel hrest
    obtain ⟨c, tail, rfl, -⟩ := hscalar.exists_head
    obtain ⟨fuel, rfl⟩ := exists_step hfuel (by simp)
    exact value_scalar (hscalar rest hrest)
  | noItems hgap =>
    intro fuel rest hfuel _
    obtain ⟨fuel, rfl⟩ := exists_step hfuel (by simp)
    simp only [List.cons_append, List.append_assoc, List.nil_append]
    exact value_noItems hgap rest
  | array hitems ih =>
    intro fuel rest hfuel hrest
    obtain ⟨fuel, rfl⟩ := exists_step hfuel (by simp)
    rw [List.length_cons] at hfuel
    exact value_array (hitems.head?_items_ne rest) (ih (by omega) hrest)
  | noMembers hgap =>
    intro fuel rest hfuel _
    obtain ⟨fuel, rfl⟩ := exists_step hfuel (by simp)
    simp only [List.cons_append, List.append_assoc, List.nil_append]
    exact value_noMembers hgap rest
  | object hmembers ih =>
    intro fuel rest hfuel hrest
    obtain ⟨fuel, rfl⟩ := exists_step hfuel (by simp)
    rw [List.length_cons] at hfuel
    exact value_object (hmembers.head?_members_ne rest) (ih (by omega) hrest)
  | lastItem hbefore _ hafter ih =>
    intro fuel rest hfuel _
    obtain ⟨fuel, rfl⟩ := exists_step hfuel (by simp)
    simp only [List.length_append, List.length_cons, List.length_nil] at hfuel
    apply items_last hafter
    simp only [List.append_assoc, value_blank_append hbefore]
    exact ih (by omega) (closes_append hafter (closes_cons (by decide) rest))
  | item hbefore _ hafter _ ih ihmore =>
    intro fuel rest hfuel hrest
    obtain ⟨fuel, rfl⟩ := exists_step hfuel (by simp)
    simp only [List.length_append, List.length_cons] at hfuel
    apply items_next hafter ?_ (ihmore (by omega) hrest)
    simp only [List.append_assoc, value_blank_append hbefore]
    exact ih (by omega) (closes_append hafter (closes_cons (by decide) _))
  | lastMember hbefore hword hmiddle hahead _ hafter ih =>
    intro fuel rest hfuel _
    obtain ⟨fuel, rfl⟩ := exists_step hfuel (by simp)
    simp only [List.length_append, List.length_cons, List.length_nil] at hfuel
    simp only [List.append_assoc, List.cons_append]
    apply members_last hbefore hword hmiddle hafter
    rw [value_blank_append hahead]
    exact ih (by omega) (closes_append hafter (closes_cons (by decide) rest))
  | member hbefore hword hmiddle hahead _ hafter _ ih ihmore =>
    intro fuel rest hfuel hrest
    obtain ⟨fuel, rfl⟩ := exists_step hfuel (by simp)
    simp only [List.length_append, List.length_cons] at hfuel
    simp only [List.append_assoc, List.cons_append]
    apply members_next hbefore hword hmiddle hafter ?_ (ihmore (by omega) hrest)
    rw [value_blank_append hahead]
    exact ih (by omega) (closes_append hafter (closes_cons (by decide) _))

/-- Whether a text, all of it, spells a value, maybe between blanks. -/
def IsText (json : Json) (text : String) : Prop :=
  ∃ before cs after, text.toList = before ++ (cs ++ after) ∧
    Blank before ∧ Spells (.value json) cs ∧ Blank after

theorem IsText.isWhole {json : Json} {text : String} (h : json.IsText text) : json.isWhole := by
  obtain ⟨_, _, _, -, -, hcs, -⟩ := h
  exact hcs.isWhole

/-- A text that spells a value is the document of that value. -/
theorem ofText_of_isText {json : Json} {text : String} (h : json.IsText text) :
    Document.ofText text = ⟨json, true⟩ := by
  obtain ⟨before, cs, after, htext, hbefore, hcs, hafter⟩ := h
  have hcloses : Closes after := by
    simpa using closes_append hafter closes_nil
  have hread : Json.value (2 * text.toList.length + 1) text.toList = (json, some after) := by
    rw [htext, value_blank_append hbefore]
    apply isRead_of_spells hcs _ hcloses
    simp only [List.length_append]
    omega
  unfold Document.ofText Document.ofChars
  rw [hread]
  simp [skipSpace_of_blank hafter]

end YieldVault.Json
