-- The law of listings: weights are read back from their text, wherever a request holds it.
-- Whatever else is read as weights lists pairs of venues and weights; what is made of
-- them has one text, with each venue once and in order.
import YieldVault.Proofs.Printings
import YieldVault.Proofs.Records
import YieldVault.Proofs.Weightings
import YieldVault.Service.Form

namespace YieldVault

namespace Json

/-! ## Pairs -/

/-- Whether a value names a venue. -/
inductive Names : Json → Venue → Prop
  | text (v : Venue) : Names (.text v.name) v
  | member (v : Venue) : Names (.object [(some v.name, .null)]) v

theorem venueOfName_eq_ok_iff {name : String} {v : Venue} :
    venueOfName name = .ok v ↔ name = v.name := by
  unfold venueOfName
  constructor
  · intro h
    split at h
    · rename_i found hfound
      cases h
      have hname := List.find?_some hfound
      exact (of_decide_eq_true hname).symm
    · cases h
  · rintro rfl
    cases v <;> rfl

theorem readVenue_eq_ok_iff {json : Json} {v : Venue} :
    json.readVenue = .ok v ↔ json.Names v := by
  constructor
  · intro h
    unfold readVenue at h
    split at h
    · rw [venueOfName_eq_ok_iff.1 h]
      exact .text v
    · obtain ⟨found, hname, hrest⟩ := Except.bind_eq_ok_iff.1 h
      obtain rfl := venueOfName_eq_ok_iff.1 hname
      split at hrest
      · split at hrest
        · rename_i rest hnone
          cases hrest
          obtain rfl := List.isEmpty_iff.1 hnone
          exact .member v
        · cases hrest
      · exact absurd hrest unexpected_ne_ok
    · cases h
  · rintro (_ | _)
    · exact venueOfName_eq_ok_iff.2 rfl
    · cases v <;> rfl

theorem readWord_eq_ok_iff {bits n : Nat} {json : Json} :
    json.readWord bits = .ok n ↔ json = .nat n ∧ n < Nat.pow 2 bits := by
  unfold readWord
  constructor
  · intro h
    split at h
    · split at h
      · rename_i hlt
        cases h
        exact ⟨rfl, hlt⟩
      · cases h
    · cases h
    · exact absurd h unexpected_ne_ok
  · rintro ⟨rfl, hlt⟩
    exact if_pos hlt

theorem readPair_eq_ok_iff {α β : Type} {first : Json → Except Fault α}
    {second : Json → Except Fault β} {json : Json} {a : α} {b : β} :
    json.readPair first second = .ok (a, b) ↔
      ∃ x y, json = .array [x, y] ∧ first x = .ok a ∧ second y = .ok b := by
  constructor
  · intro h
    unfold readPair at h
    split at h
    · cases h
    · rename_i x rest
      obtain ⟨a', hfirst, h⟩ := Except.bind_eq_ok_iff.1 h
      cases rest with
      | nil => cases h
      | cons y rest =>
        obtain ⟨b', hsecond, h⟩ := Except.bind_eq_ok_iff.1 h
        split at h
        · rename_i hnone
          cases h
          obtain rfl := List.isEmpty_iff.1 hnone
          exact ⟨x, y, rfl, hfirst, hsecond⟩
        · cases h
    · exact absurd h unexpected_ne_ok
  · rintro ⟨x, y, rfl, hfirst, hsecond⟩
    unfold readPair
    simp only [hfirst, hsecond]
    rfl

theorem readItems_eq_ok_iff {α : Type} {read : Json → Except Fault α} {json : Json}
    {values : List α} :
    json.readItems read = .ok values ↔
      ∃ items, json = .array items ∧
        List.Forall₂ (fun item value => read item = .ok value) items values := by
  constructor
  · intro h
    unfold readItems at h
    split at h
    · exact ⟨_, rfl, Except.mapM_eq_ok_iff.1 h⟩
    · exact absurd h unexpected_ne_ok
  · rintro ⟨items, rfl, h⟩
    exact Except.mapM_eq_ok_iff.2 h

/-! ## Weights -/

/-- Whether a value is a pair of a venue and its weight. -/
def IsPair (json : Json) (p : Venue × UInt16) : Prop :=
  ∃ venue, json = .array [venue, .nat p.2.toNat] ∧ venue.Names p.1

/-- Whether the items of an array are pairs of venues and weights, each in its place. -/
def Lists (items : List Json) (pairs : List (Venue × UInt16)) : Prop :=
  List.Forall₂ IsPair items pairs

theorem readPair_isPair {json : Json} {v : Venue} {n : Nat} :
    json.readPair readVenue (readWord 16) = .ok (v, n) ↔
      n < UInt16.size ∧ json.IsPair (v, UInt16.ofNat n) := by
  have hnat : n < UInt16.size → (UInt16.ofNat n).toNat = n := by
    intro hlt
    rw [UInt16.toNat_ofNat']
    exact Nat.mod_eq_of_lt hlt
  rw [readPair_eq_ok_iff]
  simp only [readVenue_eq_ok_iff, readWord_eq_ok_iff]
  constructor
  · rintro ⟨venue, bps, rfl, hvenue, rfl, hlt⟩
    exact ⟨hlt, venue, by rw [hnat hlt], hvenue⟩
  · rintro ⟨hlt, venue, rfl, hvenue⟩
    exact ⟨venue, _, rfl, hvenue, by rw [hnat hlt], hlt⟩

/-- The pairs that are read from items are those that the items list. -/
theorem lists_iff {items : List Json} {pairs : List (Venue × UInt16)} :
    Lists items pairs ↔
      ∃ read : List (Venue × Nat),
        List.Forall₂ (fun item p => item.readPair readVenue (readWord 16) = .ok p) items read ∧
        read.map (fun (venue, bps) => (venue, UInt16.ofNat bps)) = pairs := by
  constructor
  · intro h
    refine ⟨pairs.map fun p => (p.1, p.2.toNat), ?_, by simp [Function.comp_def]⟩
    rw [List.forall₂_map_right_iff]
    apply h.imp
    rintro item ⟨v, b⟩ hpair
    refine readPair_isPair.2 ⟨b.toNat_lt, ?_⟩
    rwa [UInt16.ofNat_toNat]
  · rintro ⟨read, h, rfl⟩
    unfold Lists
    rw [List.forall₂_map_right_iff]
    apply h.imp
    rintro item ⟨v, n⟩ hread
    exact (readPair_isPair.1 hread).2

/-- What is read as weights is an array of pairs that makes them. -/
theorem readWeights_eq_ok_iff {json : Json} {weights : Weights} :
    json.readWeights = .ok weights ↔
      ∃ items pairs, json = .array items ∧ Lists items pairs ∧
        Weights.ofList pairs = .ok weights := by
  unfold readWeights
  rw [Except.bind_eq_ok_iff]
  simp only [readItems_eq_ok_iff, lists_iff]
  constructor
  · rintro ⟨read, ⟨items, rfl, h⟩, hmade⟩
    split at hmade
    · rename_i made hok
      cases hmade
      exact ⟨items, _, rfl, ⟨read, h, rfl⟩, hok⟩
    · cases hmade
  · rintro ⟨items, _, rfl, ⟨read, h, rfl⟩, hmade⟩
    refine ⟨read, ⟨items, rfl, h⟩, ?_⟩
    rw [hmade]
    rfl

/-! ## The text of weights -/

theorem lists_ofWeights (weights : Weights) :
    Lists (weights.toList.map fun (venue, bps) => .array [.text venue.name, .nat bps.toNat])
      weights.toList := by
  unfold Lists
  rw [List.forall₂_map_left_iff, List.forall₂_same]
  rintro ⟨v, b⟩ -
  exact ⟨.text v.name, rfl, .text v⟩

theorem readWeights_ofWeights (weights : Weights) :
    (ofWeights weights).readWeights = .ok weights :=
  readWeights_eq_ok_iff.2 ⟨_, _, rfl, lists_ofWeights weights, weights.ofList_toList⟩

theorem arePlain_iff {items : List Json} : arePlain items ↔ ∀ item ∈ items, item.isPlain := by
  induction items with
  | nil => simp [arePlain]
  | cons item rest ih => simp [arePlain, ih]

theorem isPlain_ofWeights (weights : Weights) : (ofWeights weights).isPlain := by
  have hitems : ∀ item ∈ weights.toList.map fun (venue, bps) =>
      Json.array [.text venue.name, .nat bps.toNat], item.isPlain := by
    intro item hitem
    obtain ⟨⟨v, b⟩, -, rfl⟩ := List.mem_map.1 hitem
    have hb := b.toNat_lt
    have hlt : b.toNat < wordLimit := Nat.lt_trans hb (by decide)
    simpa [isPlain, arePlain, nat, Number.isPlain] using hlt
  exact arePlain_iff.2 hitems

end Json

/-- The text of weights: for each weighted venue, in venue order, its name and its weight. -/
def Weights.text (weights : Weights) : String :=
  "[" ++ ",".intercalate (weights.toList.map fun (venue, bps) =>
    "[\"" ++ venue.name ++ "\"," ++ toString bps.toNat ++ "]") ++ "]"

namespace Json

theorem textOfItems_eq (items : List Json) :
    textOfItems items = [','].intercalate (items.map textOf) := by
  induction items with
  | nil => rfl
  | cons item rest ih =>
    cases rest with
    | nil => simp [textOfItems]
    | cons next rest =>
      rw [textOfItems, ih]
      · simp [List.intercalate_cons_cons]
      · simp

/-- The name of a venue is written as it is. -/
theorem textOfString_name (v : Venue) : textOfString v.name = '"' :: (v.name.toList ++ ['"']) := by
  cases v <;> rfl

/-- Weights are written as their text. -/
theorem compact_ofWeights (weights : Weights) : (ofWeights weights).compact = weights.text := by
  have hpair : textOf ∘ (fun (venue, bps) => Json.array [.text venue.name, .nat bps.toNat]) =
      String.toList ∘ fun ((venue, bps) : Venue × UInt16) =>
        "[\"" ++ venue.name ++ "\"," ++ toString bps.toNat ++ "]" := by
    funext ⟨v, b⟩
    simp [textOf, textOfItems, textOfString_name, textOfNumber, nat, String.toList_append]
  apply String.toList_inj.1
  rw [compact, String.toList_ofList, ofWeights, textOf, textOfItems_eq, List.map_map, hpair,
    Weights.text, String.toList_append, String.toList_append, String.toList_intercalate,
    List.map_map]
  rfl

/-! ## Unfit items -/

/-- Whether an item can be no pair of weights: what stands for its weight is no number up to the
whole, or what stands for its venue names none. -/
inductive Unfit : Json → Prop
  | heavy {venue bps : Json} {rest : List Json} :
      (∀ n ≤ wholeBps, bps ≠ .nat n) → Unfit (.array (venue :: bps :: rest))
  | unknown {venue : Json} {rest : List Json} :
      (∀ v, ¬ venue.Names v) → Unfit (.array (venue :: rest))

theorem not_unfit_of_isPair {json : Json} {p : Venue × UInt16} (h : json.IsPair p)
    (hle : p.2.toNat ≤ wholeBps) : ¬ json.Unfit := by
  obtain ⟨venue, rfl, hnames⟩ := h
  rintro (hheavy | hunknown)
  · exact hheavy _ hle rfl
  · exact hunknown p.1 hnames

theorem Lists.exists_isPair {items : List Json} {pairs : List (Venue × UInt16)}
    (h : Lists items pairs) {item : Json} (hitem : item ∈ items) : ∃ p ∈ pairs, item.IsPair p := by
  induction h with
  | nil => cases hitem
  | @cons first p items pairs hpair _ ih =>
    rcases List.mem_cons.1 hitem with rfl | hitem
    · exact ⟨p, List.mem_cons_self, hpair⟩
    · obtain ⟨q, hq, hpair⟩ := ih hitem
      exact ⟨q, List.mem_cons_of_mem p hq, hpair⟩

/-- An unfit item anywhere in an array keeps it from being read as weights. -/
theorem readWeights_ne_ok_of_unfit {items : List Json} (h : ∃ item ∈ items, item.Unfit)
    (weights : Weights) : (Json.array items).readWeights ≠ .ok weights := by
  intro hread
  obtain ⟨_, pairs, ⟨⟩, hlists, hmade⟩ := readWeights_eq_ok_iff.1 hread
  obtain ⟨item, hitem, hunfit⟩ := h
  obtain ⟨p, hp, hpair⟩ := hlists.exists_isPair hitem
  exact not_unfit_of_isPair hpair ((Weights.ofList_eq_ok_iff.1 hmade).1 p hp) hunfit

/-! ## Documents -/

theorem readDocument_eq_ok_iff {α : Type} {text : String} {decode : Json → Except Fault α} {a : α} :
    readDocument text decode = .ok a ↔
      decode (Document.ofText text).value = .ok a ∧ (Document.ofText text).ends := by
  have hmap : ∀ {outcome : Except Fault α} {tell : Fault → String},
      outcome.mapError tell = .ok a ↔ outcome = .ok a := by
    intro outcome tell
    cases outcome <;> simp [Except.mapError]
  unfold readDocument
  rw [hmap, Document.read, Except.bind_eq_ok_iff]
  constructor
  · rintro ⟨a', hdecode, h⟩
    split at h
    · rename_i hends
      cases h
      exact ⟨hdecode, hends⟩
    · cases h
  · rintro ⟨hdecode, hends⟩
    exact ⟨a, hdecode, by rw [if_pos hends]; rfl⟩

theorem readDocument_of_isText {α : Type} {json : Json} {text : String} (h : json.IsText text)
    {decode : Json → Except Fault α} {a : α} (hdecode : decode json = .ok a) :
    readDocument text decode = .ok a := by
  rw [readDocument_eq_ok_iff, ofText_of_isText h]
  exact ⟨hdecode, rfl⟩

/-- A text whose value is not what is expected is refused with a message. -/
theorem exists_message {α : Type} {text : String} {decode : Json → Except Fault α}
    (h : ∀ a, decode (Document.ofText text).value ≠ .ok a) :
    ∃ message, readDocument text decode = .error message := by
  cases hread : readDocument text decode with
  | error message => exact ⟨message, rfl⟩
  | ok a => exact absurd (readDocument_eq_ok_iff.1 hread).1 (h a)

end Json

/-! ## Forms -/

namespace RebalanceForm

/-- The one field of the form of a rebalance. -/
def weightsField : Json.Member (Option Weights) :=
  .optional "weights" (Json.readOption Json.readWeights) none

variable {json part : Json} {form : RebalanceForm} {weights : Weights}

theorem read_eq_ok_iff :
    read json = .ok form ↔
      (∃ part, weightsField.Holds json part ∧ weightsField.read part = .ok form.weights) ∨
      (weightsField.Lacks json ∧ form.weights = none) := by
  have hread : read json = json.readRecord "RebalanceRequest" [weightsField] >>= fun fields =>
      pure ⟨fields.head?.join⟩ := rfl
  rw [hread, Except.bind_eq_ok_iff]
  simp only [Json.Member.readRecord_eq_ok_iff]
  constructor
  · rintro ⟨_, ⟨part, value, hholds, hpart, rfl⟩ | ⟨hlacks, value, ⟨⟩, rfl⟩, ⟨⟩⟩
    · exact .inl ⟨part, hholds, hpart⟩
    · exact .inr ⟨hlacks, rfl⟩
  · rintro (⟨part, hholds, hpart⟩ | ⟨hlacks, hnone⟩)
    · exact ⟨_, .inl ⟨part, _, hholds, hpart, rfl⟩, rfl⟩
    · refine ⟨_, .inr ⟨hlacks, none, rfl, rfl⟩, ?_⟩
      obtain ⟨weights⟩ := form
      cases hnone
      rfl

theorem weightsField_read_eq_some_iff :
    weightsField.read part = .ok (some weights) ↔ part.readWeights = .ok weights := by
  have hread : weightsField.read part = Json.readOption Json.readWeights part := rfl
  rw [hread]
  unfold Json.readOption
  split
  · constructor
    · rintro ⟨⟩
    · intro h
      obtain ⟨_, _, ⟨⟩, -⟩ := Json.readWeights_eq_ok_iff.1 h
  · apply Except.map_eq_ok_iff.trans
    simp

/-- The form has some weights where the weights are read from what it holds for them. -/
theorem read_eq_some_iff :
    read json = .ok ⟨some weights⟩ ↔
      ∃ part, weightsField.Holds json part ∧ part.readWeights = .ok weights := by
  rw [read_eq_ok_iff]
  simp [weightsField_read_eq_some_iff]

/-- Whatever a form gives for its weights has to be read. -/
theorem read_of_gives (h : read json = .ok form) (hgives : weightsField.Gives json part) :
    weightsField.read part = .ok form.weights := by
  rcases read_eq_ok_iff.1 h with ⟨held, hholds, hread⟩ | ⟨hlacks, -⟩
  · rwa [hholds.eq_of_gives hgives]
  · exact absurd hgives hlacks.not_gives

/-- An unfit item anywhere among the weights of a form keeps it from being read. -/
theorem read_ne_ok_of_unfit {items : List Json} (hgives : weightsField.Gives json (.array items))
    (h : ∃ item ∈ items, item.Unfit) (form : RebalanceForm) : read json ≠ .ok form := by
  intro hread
  have hfield : some <$> (Json.array items).readWeights = .ok form.weights :=
    read_of_gives hread hgives
  obtain ⟨weights, hweights, -⟩ := Except.map_eq_ok_iff.1 hfield
  exact Json.readWeights_ne_ok_of_unfit h weights hweights

/-- The weights of a form are read from every text of an object that has them under their name. -/
theorem readDocument_of_isText {before after : List (String × Json)} {text : String}
    (hothers : ∀ p ∈ before ++ after, p.1 ≠ "weights")
    (htext : (Json.ofFields (before ++ ("weights", Json.ofWeights weights) :: after)).IsText text) :
    Json.readDocument text read = .ok ⟨some weights⟩ := by
  have hwhole := Json.membersAreWhole_iff.1 htext.isWhole
  have hpasses : ∀ p ∈ before ++ after, weightsField.Passes (some p.1, p.2) := by
    intro p hp
    have hrest := List.sublist_cons_self ("weights", Json.ofWeights weights) after
    have hmem := (hrest.append_left before).subset hp
    exact .other (hothers p hp) (hwhole (some p.1, p.2) (List.mem_map_of_mem hmem))
  apply Json.readDocument_of_isText htext
  rw [read_eq_some_iff, Json.ofFields, List.map_append, List.map_cons]
  refine ⟨_, .member ?_ ?_, Json.readWeights_ofWeights weights⟩
  · exact List.forall_mem_map.2 fun p hp => hpasses p (List.mem_append_left after hp)
  · exact List.forall_mem_map.2 fun p hp => hpasses p (List.mem_append_right before hp)

/-- The text of a form with weights in it. -/
theorem isText_form (weights : Weights) :
    (Json.ofFields [("weights", Json.ofWeights weights)]).IsText
      ("\x7b\"weights\":" ++ weights.text ++ "\x7d") := by
  have hplain : (Json.ofFields [("weights", Json.ofWeights weights)]).isPlain := by
    simpa [Json.ofFields, Json.isPlain, Json.membersArePlain] using Json.isPlain_ofWeights weights
  have htext : (Json.ofFields [("weights", Json.ofWeights weights)]).compact =
      "\x7b\"weights\":" ++ weights.text ++ "\x7d" := by
    have hname : Json.textOfString "weights" = "\"weights\"".toList := rfl
    apply String.toList_inj.1
    rw [← Json.compact_ofWeights]
    simp [Json.compact, Json.ofFields, Json.textOf, Json.textOfMembers, hname]
  rw [← htext]
  exact Json.isText_compact hplain

end RebalanceForm

/-! ## The law -/

theorem Json.readWeights_sumsUp {json : Json} {weights : Weights}
    (h : json.readWeights = .ok weights) :
    ∃ items pairs, json = .array items ∧ Json.Lists items pairs ∧ weights.SumsUp pairs := by
  obtain ⟨items, pairs, hitems, hlists, hmade⟩ := Json.readWeights_eq_ok_iff.1 h
  exact ⟨items, pairs, hitems, hlists, Weights.sumsUp_of_ofList hmade⟩

/-- Weights are read back from their text, and from every other text of the same pairs, by
themselves or as a member of a form among any others. Whatever text is read as weights lists pairs
of venues and weights, and the text of what is read has each of their venues once, in order, with
its last weight, and is read as the same weights. An item that is no pair of a venue and at most
the whole, wherever it stands in a list, keeps the list from being read. -/
theorem weights_are_read_back_from_their_text :
    (∀ weights : Weights,
      (Json.ofWeights weights).compact = weights.text ∧
      Json.Spells (.value (Json.ofWeights weights)) weights.text.toList ∧
      Json.readDocument weights.text Json.readWeights = .ok weights ∧
      (∀ text, (Json.ofWeights weights).IsText text →
        Json.readDocument text Json.readWeights = .ok weights) ∧
      Json.readDocument ("\x7b\"weights\":" ++ weights.text ++ "\x7d") RebalanceForm.read =
        .ok ⟨some weights⟩ ∧
      ∀ before after text, (∀ p ∈ before ++ after, p.1 ≠ "weights") →
        (Json.ofFields (before ++ ("weights", Json.ofWeights weights) :: after)).IsText text →
        Json.readDocument text RebalanceForm.read = .ok ⟨some weights⟩) ∧
    (∀ text weights, Json.readDocument text Json.readWeights = .ok weights →
      ∃ items pairs, (Json.Document.ofText text).value = .array items ∧ Json.Lists items pairs ∧
        weights.SumsUp pairs) ∧
    (∀ text weights, Json.readDocument text RebalanceForm.read = .ok ⟨some weights⟩ →
      ∃ items pairs,
        RebalanceForm.weightsField.Holds (Json.Document.ofText text).value (.array items) ∧
        Json.Lists items pairs ∧ weights.SumsUp pairs) ∧
    ∀ text items, (∃ item ∈ items, Json.Unfit item) →
      ((Json.Document.ofText text).value = .array items →
        ∃ message, Json.readDocument text Json.readWeights = .error message) ∧
      (RebalanceForm.weightsField.Gives (Json.Document.ofText text).value (.array items) →
        ∃ message, Json.readDocument text RebalanceForm.read = .error message) := by
  refine ⟨fun weights => ?_, fun text weights h => ?_, fun text weights h => ?_,
    fun text items hunfit => ⟨fun hitems => ?_, fun hgives => ?_⟩⟩
  · have hcompact := Json.compact_ofWeights weights
    have hplain := Json.isPlain_ofWeights weights
    have hspells := Json.spells_compact hplain
    have htext := Json.isText_compact hplain
    rw [hcompact] at hspells htext
    have hread := Json.readWeights_ofWeights weights
    refine ⟨hcompact, hspells, Json.readDocument_of_isText htext hread,
      fun text h => Json.readDocument_of_isText h hread, ?_,
      fun before after text => RebalanceForm.readDocument_of_isText⟩
    have hform : (Json.ofFields ([] ++ ("weights", Json.ofWeights weights) :: [])).IsText _ :=
      RebalanceForm.isText_form weights
    exact RebalanceForm.readDocument_of_isText (by simp) hform
  · exact Json.readWeights_sumsUp (Json.readDocument_eq_ok_iff.1 h).1
  · obtain ⟨part, hholds, hread⟩ :=
      RebalanceForm.read_eq_some_iff.1 (Json.readDocument_eq_ok_iff.1 h).1
    obtain ⟨items, pairs, rfl, hlists, hsums⟩ := Json.readWeights_sumsUp hread
    exact ⟨items, pairs, hholds, hlists, hsums⟩
  · apply Json.exists_message
    rw [hitems]
    exact Json.readWeights_ne_ok_of_unfit hunfit
  · exact Json.exists_message (RebalanceForm.read_ne_ok_of_unfit hgives hunfit)

/-- Of two weights for one venue the later is written, and in venue order. -/
example : ((Json.readDocument "[[\"jet\", 5], [\"port\", 7], [\"jet\", 9]]" Json.readWeights).map
    Weights.text).toOption = some "[[\"port\",7],[\"jet\",9]]" := by
  decide +kernel

end YieldVault
