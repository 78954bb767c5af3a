-- The law of printings: the compact text of a value spells the value, unless the value has
-- a part that no text stands for.
import YieldVault.Proofs.Spellings

namespace YieldVault.Json

/-! ## Strings -/

/-- The unit of a control character is read back from its last two digits. -/
theorem unit?_hexDigits {n : Nat} (h : n < 32) :
    unit? '0' '0' (Bytes.hexDigit (n / 16)) (Bytes.hexDigit (n % 16)) = some n := by
  decide +revert

/-- Whether a piece of a string stands for a character that is written in a text. -/
structure Piece.Writes (piece : Piece) (c : Char) (cs : List Char) : Prop where
  read : ∀ soFar rest, pieces? soFar (cs ++ rest) = pieces? (piece :: soFar) rest
  stands : ∀ soFar rest, characters? soFar (piece :: rest) = characters? (c :: soFar) rest

theorem writes_letter {letter c : Char} (hu : letter ≠ 'u') (h : escaped? letter = some c) :
    (Piece.char c).Writes c ['\\', letter] := by
  constructor
  · intro soFar rest
    simp [pieces?, hu, h]
  · intro soFar rest
    rfl

theorem writes_plain {c : Char} (hquote : c ≠ '"') (hslash : c ≠ '\\') (hplain : 32 ≤ c.toNat) :
    (Piece.char c).Writes c [c] := by
  constructor
  · intro soFar rest
    have hcontrol : ¬ c.toNat < 32 := by omega
    rw [List.singleton_append, pieces?.eq_def]
    simp only [hquote, hslash, hcontrol, if_false]
  · intro soFar rest
    rfl

theorem writes_control {c : Char} (hcontrol : c.toNat < 32) :
    (Piece.unit c.toNat).Writes c
      ['\\', 'u', '0', '0', Bytes.hexDigit (c.toNat / 16), Bytes.hexDigit (c.toNat % 16)] := by
  constructor
  · intro soFar rest
    simp [pieces?, unit?_hexDigits hcontrol]
  · intro soFar rest
    have hlow : isLowHalf c.toNat = false := by simp [isLowHalf]; omega
    have hhigh : isHighHalf c.toNat = false := by simp [isHighHalf]; omega
    rw [characters?.eq_def]
    simp [hlow, hhigh]

/-- However a character is escaped, one piece is read that stands for it. -/
theorem exists_writes (c : Char) : ∃ piece : Piece, piece.Writes c (escapeChar c) := by
  unfold escapeChar
  by_cases hquote : c = '"'
  · subst hquote
    exact ⟨_, writes_letter (by decide) rfl⟩
  rw [if_neg hquote]
  by_cases hslash : c = '\\'
  · subst hslash
    exact ⟨_, writes_letter (by decide) rfl⟩
  rw [if_neg hslash]
  by_cases hline : c = '\n'
  · subst hline
    exact ⟨_, writes_letter (by decide) rfl⟩
  rw [if_neg hline]
  by_cases hreturn : c = '\r'
  · subst hreturn
    exact ⟨_, writes_letter (by decide) rfl⟩
  rw [if_neg hreturn]
  by_cases htab : c = '\t'
  · subst htab
    exact ⟨_, writes_letter (by decide) rfl⟩
  rw [if_neg htab]
  by_cases hback : c.toNat = 8
  · rw [if_pos hback]
    refine ⟨_, writes_letter (by decide) ?_⟩
    rw [← Char.ofNat_toNat c, hback]
    rfl
  rw [if_neg hback]
  by_cases hfeed : c.toNat = 12
  · rw [if_pos hfeed]
    refine ⟨_, writes_letter (by decide) ?_⟩
    rw [← Char.ofNat_toNat c, hfeed]
    rfl
  rw [if_neg hfeed]
  by_cases hcontrol : c.toNat < 32
  · rw [if_pos hcontrol]
    exact ⟨_, writes_control hcontrol⟩
  · rw [if_neg hcontrol]
    exact ⟨_, writes_plain hquote hslash (by omega)⟩

/-- An escaped text is read in pieces that stand for its characters. -/
theorem exists_pieces (cs : List Char) :
    ∃ pieces, (∀ soFar rest, pieces? soFar (cs.flatMap escapeChar ++ '"' :: rest) =
        some (soFar.reverse ++ pieces, rest)) ∧
      ∀ soFar, characters? soFar pieces = some (soFar.reverse ++ cs) := by
  induction cs with
  | nil =>
    refine ⟨[], fun soFar rest => ?_, fun soFar => ?_⟩
    · rw [List.flatMap_nil, List.nil_append, pieces?.eq_def]
      simp
    · simp [characters?]
  | cons c cs ih =>
    obtain ⟨piece, hpiece⟩ := exists_writes c
    obtain ⟨pieces, hread, hstands⟩ := ih
    refine ⟨piece :: pieces, ?_, ?_⟩
    · intro soFar rest
      rw [List.flatMap_cons, List.append_assoc, hpiece.read, hread, List.reverse_cons,
        List.append_assoc, List.singleton_append]
    · intro soFar
      rw [hpiece.stands, hstands, List.reverse_cons, List.append_assoc, List.singleton_append]

theorem spellsString_escaped (value : String) :
    SpellsString (some value) (value.toList.flatMap escapeChar ++ ['"']) := by
  intro rest
  obtain ⟨pieces, hread, hstands⟩ := exists_pieces value.toList
  rw [List.append_assoc, List.singleton_append, string?, hread, Option.map_some, List.reverse_nil,
    List.nil_append]
  simp [hstands]

/-! ## Numbers -/

theorem ne_zero_of_head?_toDigits {n : Nat} (hpos : 0 < n) {c : Char}
    (hc : (Nat.toDigits 10 n).head? = some c) : c ≠ '0' := by
  induction n using Nat.strongRecOn with
  | ind n ih =>
    by_cases hsmall : n < 10
    · rw [Nat.toDigits_of_lt_base hsmall] at hc
      have hall : ∀ n < 10, 0 < n → n.digitChar ≠ '0' := by decide
      obtain rfl : n.digitChar = c := by simpa using hc
      exact hall n hsmall hpos
    · rw [Nat.toDigits_of_base_le (by decide) (by omega),
        List.head?_append_of_ne_nil _ Nat.toDigits_ne_nil] at hc
      exact ih (n / 10) (by omega) (by omega) hc

/-- Digits that are read on never make a number smaller. -/
theorem le_ofDigitChars (cs : List Char) (n : Nat) : n ≤ Nat.ofDigitChars 10 cs n := by
  induction cs generalizing n with
  | nil => simp
  | cons c cs ih =>
    rw [Nat.ofDigitChars_cons]
    have hle := ih (10 * n + (c.toNat - '0'.toNat))
    omega

/-- Whether a text does not start with a digit. -/
def NoDigit (rest : List Char) : Prop := ∀ c ∈ rest.head?, c.isDigit = false

/-- Digits of a word are gathered up to their end. -/
theorem gather_append {cs rest : List Char} (hdigits : ∀ c ∈ cs, c.isDigit) {n count : Nat}
    (hword : Nat.ofDigitChars 10 cs n < wordLimit) (hrest : NoDigit rest) :
    gather n count (cs ++ rest) = (Nat.ofDigitChars 10 cs n, count + cs.length, rest) := by
  induction cs generalizing n count with
  | nil =>
    cases rest with
    | nil => rfl
    | cons c rest =>
      have hc := hrest c rfl
      simp [gather, hc]
  | cons c cs ih =>
    rw [List.forall_mem_cons] at hdigits
    rw [Nat.ofDigitChars_cons] at hword ⊢
    have hnext : 10 * n + (c.toNat - 48) < wordLimit :=
      Nat.lt_of_le_of_lt (le_ofDigitChars cs _) hword
    have hmore : gather (10 * n + (c.toNat - 48)) (count + 1) (cs ++ rest) = _ :=
      ih hdigits.2 hword
    rw [List.cons_append, gather, hdigits.1]
    simp only [Bool.not_true, Bool.false_eq_true, if_false, if_pos hnext]
    rw [hmore, List.length_cons, Nat.add_right_comm, Nat.add_assoc]
    rfl

theorem takeWhile_of_noDigit {rest : List Char} (h : NoDigit rest) :
    rest.takeWhile Char.isDigit = [] := by
  cases rest with
  | nil => rfl
  | cons c rest => simp [h c rfl]

theorem dropWhile_of_noDigit {rest : List Char} (h : NoDigit rest) :
    rest.dropWhile Char.isDigit = rest := by
  cases rest with
  | nil => rfl
  | cons c rest => simp [h c rfl]

theorem mem_strangers_of_closes {c : Char} {rest : List Char} (h : Closes (c :: rest)) :
    c ∈ strangers := by
  rcases h c rfl with hspace | hcloser
  · by_contra hnot
    rw [isSpace_eq_false hnot] at hspace
    cases hspace
  · exact List.mem_append_right _ hcloser

/-- What ends a scalar goes on with no part of a number. -/
theorem noDigit_of_closes {rest : List Char} (h : Closes rest) : NoDigit rest := by
  have hall : ∀ c ∈ strangers, c.isDigit = false := by simp [strangers, closers]
  cases rest with
  | nil => simp [NoDigit]
  | cons c rest =>
    have hc := hall c (mem_strangers_of_closes h)
    simpa [NoDigit] using hc

theorem afterWhole?_of_closes {rest : List Char} (h : Closes rest) (below : Bool) (n : Nat) :
    afterWhole? below n 0 rest = some (wholeOf below n, rest) := by
  have hpart : ∀ c ∈ ['.', 'e', 'E'], c ∉ strangers := by simp [strangers, closers]
  unfold afterWhole?
  split
  · exact absurd (mem_strangers_of_closes h) (hpart '.' (by simp))
  · exact absurd (mem_strangers_of_closes h) (hpart 'e' (by simp))
  · exact absurd (mem_strangers_of_closes h) (hpart 'E' (by simp))
  · rfl

/-- The digits of a word are read as its whole number. -/
theorem unsigned?_toDigits {n : Nat} (hword : n < wordLimit) {rest : List Char}
    (hrest : Closes rest) (below : Bool) :
    unsigned? below (Nat.toDigits 10 n ++ rest) = some (wholeOf below n, rest) := by
  have hnone := noDigit_of_closes hrest
  by_cases hzero : n = 0
  · subst hzero
    rw [Nat.toDigits_zero, List.singleton_append, unsigned?, takeWhile_of_noDigit hnone]
    exact afterWhole?_of_closes hrest below 0
  · have hdigits : ∀ c ∈ Nat.toDigits 10 n, c.isDigit := fun c hc =>
      Nat.isDigit_of_mem_toDigits (by decide) (by decide) hc
    have hvalue : Nat.ofDigitChars 10 (Nat.toDigits 10 n) 0 = n := Nat.ofDigitChars_ten_toDigits
    have hgather : gather 0 0 (Nat.toDigits 10 n ++ rest) =
        (n, 0 + (Nat.toDigits 10 n).length, rest) := by
      rw [gather_append hdigits (by rwa [hvalue]) hnone, hvalue]
    obtain ⟨c, cs, hcs⟩ := List.exists_cons_of_ne_nil (Nat.toDigits_ne_nil : Nat.toDigits 10 n ≠ [])
    have hpos : 0 < n := by omega
    have hc : c ≠ '0' := ne_zero_of_head?_toDigits hpos (by rw [hcs]; rfl)
    have hdigit : c.isDigit := hdigits c (by simp [hcs])
    rw [hcs] at hgather ⊢
    rw [List.cons_append] at hgather ⊢
    unfold unsigned?
    split
    · rename_i heq
      cases heq
      exact absurd rfl hc
    · rw [hgather]
      simp only [List.takeWhile_cons, hdigit, if_true, List.isEmpty_cons, Bool.false_eq_true,
        if_false, takeWhile_of_noDigit hnone, dropWhile_of_noDigit hnone, List.length_nil]
      exact afterWhole?_of_closes hrest below n

theorem toList_toString (n : Nat) : (toString n).toList = Nat.toDigits 10 n := by
  rw [Nat.toString_eq_ofList_toDigits, String.toList_ofList]

/-- A digit tells a number from every other scalar. -/
theorem scalar?_of_isDigit {c : Char} (h : c.isDigit) (cs : List Char) :
    scalar? (c :: cs) = (unsigned? false (c :: cs)).map fun (n, rest) => (.number n, rest) := by
  unfold scalar? number?
  split
  · rename_i heq
    cases heq
    exact absurd h (by decide)
  · rename_i heq
    cases heq
    exact absurd h (by decide)
  · rename_i heq
    cases heq
    exact absurd h (by decide)
  · rename_i heq
    cases heq
    exact absurd h (by decide)
  · split
    · rename_i heq
      cases heq
      exact absurd h (by decide)
    · rfl

theorem spellsScalar_natural {n : Nat} (h : n < wordLimit) :
    SpellsScalar (.number (.natural n)) (Nat.toDigits 10 n) := by
  intro rest hrest
  have hread := unsigned?_toDigits h hrest false
  obtain ⟨c, cs, hcs⟩ := List.exists_cons_of_ne_nil (Nat.toDigits_ne_nil : Nat.toDigits 10 n ≠ [])
  have hmem : c ∈ Nat.toDigits 10 n := by simp [hcs]
  have hdigit : c.isDigit := Nat.isDigit_of_mem_toDigits (by decide) (by decide) hmem
  rw [hcs, List.cons_append] at hread ⊢
  rw [scalar?_of_isDigit hdigit, hread]
  rfl

theorem spellsScalar_negative {n : Nat} (hpos : 0 < n) (h : n ≤ wordLimit / 2) :
    SpellsScalar (.number (.negative n)) ('-' :: Nat.toDigits 10 n) := by
  intro rest hrest
  have hword : n < wordLimit := Nat.lt_of_le_of_lt h (by decide)
  have hwhole : wholeOf true n = .negative n := by
    have hnot : ¬ (n = 0 ∨ wordLimit / 2 < n) := by omega
    simp [wholeOf, hnot]
  have hread := unsigned?_toDigits hword hrest true
  rw [hwhole] at hread
  simp [scalar?, number?, hread]

/-! ## Values -/

/-- Whether a number is a whole one that its digits tell. -/
def Number.isPlain : Number → Bool
  | natural n => n < wordLimit
  | negative n => 0 < n && n ≤ wordLimit / 2
  | real .. => false

mutual

/-- Whether the text of a value tells the value: it has no reals, nothing in it is cut, and every
string and every name stands for a text. -/
def isPlain : Json → Bool
  | .number n => n.isPlain
  | .noText => false
  | .cut => false
  | .array items => arePlain items
  | .object members => membersArePlain members
  | _ => true

def arePlain : List Json → Bool
  | [] => true
  | item :: rest => isPlain item && arePlain rest

def membersArePlain : List (Option String × Json) → Bool
  | [] => true
  | (name, value) :: rest => name.isSome && isPlain value && membersArePlain rest

end

theorem spellsScalar_textOfNumber {n : Number} (h : n.isPlain) :
    SpellsScalar (.number n) (textOfNumber n) := by
  cases n with
  | natural n =>
    rw [textOfNumber, toList_toString]
    exact spellsScalar_natural (of_decide_eq_true h)
  | negative n =>
    simp only [Number.isPlain, Bool.and_eq_true, decide_eq_true_eq] at h
    rw [textOfNumber, toList_toString]
    exact spellsScalar_negative h.1 h.2
  | real => cases h

theorem spellsScalar_textOfString (value : String) :
    SpellsScalar (.text value) (textOfString value) := by
  intro rest _
  have hread := spellsString_escaped value rest
  rw [textOfString, List.cons_append, List.cons_append, scalar?, hread]
  rfl

mutual

/-- The text of a plain value spells it. -/
theorem spells_textOf : (json : Json) → json.isPlain → Spells (.value json) json.textOf
  | .null, _ => .scalar fun _ _ => rfl
  | .bool true, _ => .scalar fun _ _ => rfl
  | .bool false, _ => .scalar fun _ _ => rfl
  | .number _, h => .scalar (spellsScalar_textOfNumber h)
  | .text value, _ => .scalar (spellsScalar_textOfString value)
  | .array [], _ => .noItems blank_nil
  | .array (item :: rest), h => .array (spells_textOfItems (item :: rest) (by simp) h)
  | .object [], _ => .noMembers blank_nil
  | .object (member :: rest), h => .object (spells_textOfMembers (member :: rest) (by simp) h)

theorem spells_textOfItems : (items : List Json) → items ≠ [] → arePlain items →
    Spells (.items items) (textOfItems items ++ [']'])
  | [], hsome, _ => absurd rfl hsome
  | [item], _, h => by
    simp only [arePlain, Bool.and_true] at h
    exact .lastItem blank_nil (spells_textOf item h) blank_nil
  | item :: next :: rest, _, h => by
    rw [arePlain, Bool.and_eq_true] at h
    have hrest := spells_textOfItems (next :: rest) (by simp) h.2
    rw [textOfItems, List.append_assoc]
    · exact .item blank_nil (spells_textOf item h.1) blank_nil hrest
    · simp

theorem spells_textOfMembers : (members : List (Option String × Json)) → members ≠ [] →
    membersArePlain members → Spells (.members members) (textOfMembers members ++ ['\x7d'])
  | [], hsome, _ => absurd rfl hsome
  | [(none, json)], _, h => by
    cases h
  | [(some name, json)], _, h => by
    simp only [membersArePlain, Option.isSome_some, Bool.true_and, Bool.and_true] at h
    have hvalue := spells_textOf json h
    have hmember : Spells (.members [(some name, json)]) _ :=
      .lastMember blank_nil (spellsString_escaped name) blank_nil blank_nil hvalue blank_nil
    simpa [textOfMembers, textOfString] using hmember
  | (none, json) :: next :: rest, _, h => by
    cases h
  | (some name, json) :: next :: rest, _, h => by
    rw [membersArePlain, Option.isSome_some, Bool.true_and, Bool.and_eq_true] at h
    have hvalue := spells_textOf json h.1
    have hrest := spells_textOfMembers (next :: rest) (by simp) h.2
    have hmember : Spells (.members ((some name, json) :: next :: rest)) _ :=
      .member blank_nil (spellsString_escaped name) blank_nil blank_nil hvalue blank_nil hrest
    simpa [textOfMembers, textOfString] using hmember

end

/-- The compact text of a plain value spells it. -/
theorem spells_compact {json : Json} (h : json.isPlain) :
    Spells (.value json) json.compact.toList := by
  rw [compact, String.toList_ofList]
  exact spells_textOf json h

theorem isText_compact {json : Json} (h : json.isPlain) : json.IsText json.compact := by
  refine ⟨[], json.compact.toList, [], ?_, blank_nil, spells_compact h, blank_nil⟩
  rw [List.nil_append, List.append_nil]

end YieldVault.Json
