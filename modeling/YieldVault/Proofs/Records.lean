-- The laws of records of one field: an object or an array is read for what it holds under
-- the field, and nothing else in it counts, as long as it ends.
import YieldVault.Json.Decode
import YieldVault.Proofs.Outcomes

namespace YieldVault.Json

theorem unexpected_ne_ok {α : Type} {json : Json} {expected : String} {a : α} :
    json.unexpected expected ≠ .ok a := by
  unfold unexpected
  split <;> nofun

namespace Member

variable {β : Type} {field : Member β} {found found' : List (String × β)} {value : β}
  {members : List (Option String × Json)} {json part : Json}

/-! ## Members -/

/-- Whether a member of an object is passed over: it has another name, and its value ends. -/
inductive Passes (field : Member β) : Option String × Json → Prop
  | other {name : String} {json : Json} :
      name ≠ field.name → json.isWhole → field.Passes (some name, json)

theorem Passes.ne {member : Option String × Json} (h : field.Passes member) :
    member.1 ≠ some field.name := by
  obtain ⟨hname, -⟩ := h
  simpa using hname

theorem takeMember_other {member : Option String × Json} (h : member.1 ≠ some field.name) :
    takeMember [field] found member = .ok found' ↔ field.Passes member ∧ found' = found := by
  obtain ⟨name, json⟩ := member
  cases name with
  | none =>
    constructor
    · rintro ⟨⟩
    · rintro ⟨⟨⟩, -⟩
  | some name =>
    have hname : name ≠ field.name := fun heq => h (congrArg some heq)
    have hnone : [field].find? (·.name = name) = none := by simp [hname.symm]
    simp only [takeMember, hnone]
    by_cases hwhole : json.isWhole
    · rw [if_pos hwhole, Except.ok.injEq]
      constructor
      · rintro rfl
        exact ⟨.other hname hwhole, rfl⟩
      · rintro ⟨-, rfl⟩
        rfl
    · rw [if_neg hwhole]
      constructor
      · rintro ⟨⟩
      · rintro ⟨⟨-, h⟩, -⟩
        exact absurd h hwhole

theorem takeMember_named :
    takeMember [field] [] (some field.name, json) = .ok found ↔
      ∃ value, field.read json = .ok value ∧ found = [(field.name, value)] := by
  have hfield : [field].find? (·.name = field.name) = some field := by simp
  simp only [takeMember, hfield, List.any_nil, Bool.false_eq_true, if_false,
    Except.map_eq_ok_iff]
  simp only [eq_comm]

/-- A field does not stand twice in an object. -/
theorem takeMember_twice :
    takeMember [field] [(field.name, value)] (some field.name, json) ≠ .ok found := by
  have hfield : [field].find? (·.name = field.name) = some field := by simp
  simp [takeMember, hfield]

theorem takeMembers_passed (h : ∀ member ∈ members, field.Passes member) :
    members.foldlM (takeMember [field]) found = .ok found := by
  induction members with
  | nil => rfl
  | cons member rest ih =>
    obtain ⟨hpasses, hall⟩ := List.forall_mem_cons.1 h
    rw [List.foldlM_cons, (takeMember_other hpasses.ne).2 ⟨hpasses, rfl⟩]
    exact ih hall

/-- Once the field is found, all further members are passed over. -/
theorem takeMembers_found
    (h : members.foldlM (takeMember [field]) [(field.name, value)] = .ok found) :
    (∀ member ∈ members, field.Passes member) ∧ found = [(field.name, value)] := by
  induction members with
  | nil =>
    cases h
    exact ⟨by simp, rfl⟩
  | cons member rest ih =>
    rw [List.foldlM_cons, Except.bind_eq_ok_iff] at h
    obtain ⟨taken, htake, hrest⟩ := h
    have hother : member.1 ≠ some field.name := by
      obtain ⟨name, json⟩ := member
      rintro rfl
      exact takeMember_twice htake
    obtain ⟨hpasses, rfl⟩ := (takeMember_other hother).1 htake
    obtain ⟨hall, hfound⟩ := ih hrest
    exact ⟨List.forall_mem_cons.2 ⟨hpasses, hall⟩, hfound⟩

/-! ## Values of a field -/

/-- Whether a record has a value for the field, and nothing that the reader refuses beside it. -/
inductive Holds (field : Member β) : Json → Json → Prop
  | member {before after : List (Option String × Json)} {part : Json} :
      (∀ member ∈ before, field.Passes member) → (∀ member ∈ after, field.Passes member) →
      field.Holds (.object (before ++ (some field.name, part) :: after)) part
  | place {part : Json} : field.Holds (.array [part]) part

/-- Whether a record has no value for the field, and nothing that the reader refuses. -/
inductive Lacks (field : Member β) : Json → Prop
  | member {members : List (Option String × Json)} :
      (∀ member ∈ members, field.Passes member) → field.Lacks (.object members)
  | place : field.Lacks (.array [])

/-- Whether a record has a value for the field, whatever stands beside it. -/
inductive Gives (field : Member β) : Json → Json → Prop
  | member {members : List (Option String × Json)} {part : Json} :
      (some field.name, part) ∈ members → field.Gives (.object members) part
  | place {part : Json} {rest : List Json} : field.Gives (.array (part :: rest)) part

/-- A record that is read has no second value for its field. -/
theorem Holds.eq_of_gives (h : field.Holds json part) {other : Json}
    (hother : field.Gives json other) : other = part := by
  cases h with
  | member hbefore hafter =>
    obtain ⟨hmem⟩ := hother
    rcases List.mem_append.1 hmem with hmem | hmem
    · exact absurd rfl (hbefore _ hmem).ne
    · rcases List.mem_cons.1 hmem with heq | hmem
      · cases heq
        rfl
      · exact absurd rfl (hafter _ hmem).ne
  | place =>
    cases hother
    rfl

theorem Lacks.not_gives (h : field.Lacks json) : ¬ field.Gives json part := by
  intro hgives
  cases h with
  | member hall =>
    obtain ⟨hmem⟩ := hgives
    exact (hall _ hmem).ne rfl
  | place => cases hgives

theorem Holds.cons {member : Option String × Json} (hpasses : field.Passes member)
    (h : field.Holds (.object members) part) : field.Holds (.object (member :: members)) part := by
  obtain ⟨hbefore, hafter⟩ := h
  exact .member (List.forall_mem_cons.2 ⟨hpasses, hbefore⟩) hafter

theorem Lacks.cons {member : Option String × Json} (hpasses : field.Passes member)
    (h : field.Lacks (.object members)) : field.Lacks (.object (member :: members)) := by
  obtain ⟨hall⟩ := h
  exact .member (List.forall_mem_cons.2 ⟨hpasses, hall⟩)

/-- What an object is read for: the one value that it has for the field, or none. -/
theorem takeMembers_eq_ok_iff :
    members.foldlM (takeMember [field]) [] = .ok found ↔
      (∃ part value, field.Holds (.object members) part ∧ field.read part = .ok value ∧
        found = [(field.name, value)]) ∨
      (field.Lacks (.object members) ∧ found = []) := by
  constructor
  · intro h
    induction members with
    | nil =>
      cases h
      exact .inr ⟨.member (by simp), rfl⟩
    | cons member rest ih =>
      rw [List.foldlM_cons, Except.bind_eq_ok_iff] at h
      obtain ⟨taken, htake, hrest⟩ := h
      obtain ⟨name, json⟩ := member
      by_cases hname : name = some field.name
      · subst hname
        obtain ⟨value, hread, rfl⟩ := takeMember_named.1 htake
        obtain ⟨hall, rfl⟩ := takeMembers_found hrest
        have hholds : field.Holds (.object ([] ++ (some field.name, json) :: rest)) json :=
          .member (by simp) hall
        exact .inl ⟨json, value, hholds, hread, rfl⟩
      · obtain ⟨hpasses, rfl⟩ := (takeMember_other hname).1 htake
        rcases ih hrest with ⟨part, value, hholds, hread, rfl⟩ | ⟨hlacks, rfl⟩
        · exact .inl ⟨part, value, hholds.cons hpasses, hread, rfl⟩
        · exact .inr ⟨hlacks.cons hpasses, rfl⟩
  · rintro (⟨part, value, ⟨hbefore, hafter⟩, hread, rfl⟩ | ⟨⟨hall⟩, rfl⟩)
    · rw [List.foldlM_append, takeMembers_passed hbefore]
      refine Except.bind_eq_ok_iff.2 ⟨_, rfl, ?_⟩
      rw [List.foldlM_cons, takeMember_named.2 ⟨value, hread, rfl⟩]
      exact takeMembers_passed hafter
    · exact takeMembers_passed hall

/-! ## Records -/

theorem settle_found : settle [(field.name, value)] field = .ok value := by
  simp [settle]

theorem settle_nil : settle [] field = .ok value ↔ field.absent = some value := by
  unfold settle
  rw [List.find?_nil]
  cases field.absent <;> simp

theorem readMembers_eq_ok_iff {values : List β} :
    readMembers [field] members = .ok values ↔
      (∃ part value, field.Holds (.object members) part ∧ field.read part = .ok value ∧
        values = [value]) ∨
      (field.Lacks (.object members) ∧ ∃ value, field.absent = some value ∧ values = [value]) := by
  have hone : ∀ found : List (String × β), [field].mapM (settle found) = .ok values ↔
      ∃ value, settle found field = .ok value ∧ values = [value] := by
    intro found
    rw [Except.mapM_eq_ok_iff, List.forall₂_cons_left_iff]
    simp
  unfold readMembers
  rw [Except.bind_eq_ok_iff]
  simp only [takeMembers_eq_ok_iff, hone]
  constructor
  · rintro ⟨found, ⟨part, value, hholds, hread, rfl⟩ | ⟨hlacks, rfl⟩, value', hsettle, rfl⟩
    · rw [settle_found] at hsettle
      cases hsettle
      exact .inl ⟨part, value, hholds, hread, rfl⟩
    · exact .inr ⟨hlacks, value', settle_nil.1 hsettle, rfl⟩
  · rintro (⟨part, value, hholds, hread, rfl⟩ | ⟨hlacks, value, habsent, rfl⟩)
    · exact ⟨_, .inl ⟨part, value, hholds, hread, rfl⟩, value, settle_found, rfl⟩
    · exact ⟨_, .inr ⟨hlacks, rfl⟩, value, settle_nil.2 habsent, rfl⟩

theorem readPositions_eq_ok {expected : String} {items rest : List Json} {values : List β}
    (h : readPositions expected 0 [field] items = .ok (values, rest)) :
    (∃ part value, items = part :: rest ∧ field.read part = .ok value ∧ values = [value]) ∨
    (items = [] ∧ rest = [] ∧ ∃ value, field.absent = some value ∧ values = [value]) := by
  cases items with
  | nil =>
    cases habsent : field.absent with
    | none =>
      simp only [readPositions, habsent] at h
      cases h
    | some value =>
      simp only [readPositions, habsent] at h
      cases h
      exact .inr ⟨rfl, rfl, value, rfl, rfl⟩
  | cons part items =>
    obtain ⟨value, hread, h⟩ := Except.bind_eq_ok_iff.1 h
    cases h
    exact .inl ⟨part, value, rfl, hread, rfl⟩

/-- What a record is read for: the one value that it has for its field, or what stands for the
field where it has none. -/
theorem readRecord_eq_ok_iff {name : String} {values : List β} :
    json.readRecord name [field] = .ok values ↔
      (∃ part value, field.Holds json part ∧ field.read part = .ok value ∧ values = [value]) ∨
      (field.Lacks json ∧ ∃ value, field.absent = some value ∧ values = [value]) := by
  constructor
  · intro h
    unfold readRecord at h
    split at h
    · exact readMembers_eq_ok_iff.1 h
    · rename_i items
      obtain ⟨⟨taken, rest⟩, hread, h⟩ := Except.bind_eq_ok_iff.1 h
      simp only at h
      split at h
      · rename_i hnone
        cases h
        obtain rfl := List.isEmpty_iff.1 hnone
        rcases readPositions_eq_ok hread with ⟨part, value, rfl, hpart, hvalues⟩ | ⟨rfl, -, hvalues⟩
        · exact .inl ⟨part, value, .place, hpart, hvalues⟩
        · exact .inr ⟨.place, hvalues⟩
      · cases h
    · exact absurd h unexpected_ne_ok
  · rintro (⟨part, value, ⟨hbefore, hafter⟩ | _, hread, rfl⟩ | ⟨⟨hall⟩ | _, value, habsent, rfl⟩)
    · exact readMembers_eq_ok_iff.2 (.inl ⟨part, value, .member hbefore hafter, hread, rfl⟩)
    · simp only [readRecord, readPositions, hread]
      rfl
    · exact readMembers_eq_ok_iff.2 (.inr ⟨.member hall, value, habsent, rfl⟩)
    · simp only [readRecord, readPositions, habsent]
      rfl

end Member

end YieldVault.Json
