-- The lending venues a vault allocates into, and tables over them. The set is
-- closed and ordered, so a table is one slot per venue, and its entries come in
-- venue order.
namespace YieldVault

/-- A lending venue. The order of the list is the order of the venues. -/
inductive Venue
  | solend
  | port
  | jet
  deriving DecidableEq, Repr

namespace Venue

/-- Every venue, in order. -/
def all : List Venue := [solend, port, jet]

/-- The place of a venue in the order. -/
def index : Venue → Nat
  | solend => 0
  | port => 1
  | jet => 2

/-- The name of a venue. -/
def name : Venue → String
  | solend => "solend"
  | port => "port"
  | jet => "jet"

instance : ToString Venue := ⟨name⟩

/-- The venue of a name; names are exact. -/
def ofName? (text : String) : Option Venue := all.find? (·.name = text)

theorem mem_all (v : Venue) : v ∈ all := by cases v <;> decide

theorem all_ascending : all.Pairwise fun v w => v.index < w.index := by decide

theorem index_inj {v w : Venue} : v.index = w.index ↔ v = w := by
  cases v <;> cases w <;> decide

end Venue

/-! ## One value for each venue -/

/-- A value for each venue. -/
structure PerVenue (α : Type) where
  solend : α
  port : α
  jet : α
  deriving DecidableEq, Repr

namespace PerVenue

variable {α β : Type}

/-- The same value for every venue. -/
def const (value : α) : PerVenue α := ⟨value, value, value⟩

instance [Inhabited α] : Inhabited (PerVenue α) := ⟨const default⟩

/-- The value of a venue. -/
def get (table : PerVenue α) : Venue → α
  | .solend => table.solend
  | .port => table.port
  | .jet => table.jet

/-- The table with one value replaced. -/
def set (table : PerVenue α) (venue : Venue) (value : α) : PerVenue α :=
  match venue with
  | .solend => { table with solend := value }
  | .port => { table with port := value }
  | .jet => { table with jet := value }

/-- The table that holds `f v` for each venue. -/
def ofFn (f : Venue → α) : PerVenue α := ⟨f .solend, f .port, f .jet⟩

@[simp] theorem get_ofFn (f : Venue → α) (v : Venue) : (ofFn f).get v = f v := by
  cases v <;> rfl

@[simp] theorem get_const (a : α) (v : Venue) : (const a).get v = a := by cases v <;> rfl

@[simp] theorem get_set (table : PerVenue α) (v w : Venue) (a : α) :
    (table.set v a).get w = if w = v then a else table.get w := by
  cases v <;> cases w <;> simp [set, get]

theorem ext_get {s t : PerVenue α} (h : ∀ v, s.get v = t.get v) : s = t := by
  have h1 := h .solend
  have h2 := h .port
  have h3 := h .jet
  cases s; cases t
  simp_all [get]

end PerVenue

/-! ## A value for some venues -/

/-- A value for some venues. -/
abbrev VenueMap (α : Type) := PerVenue (Option α)

namespace VenueMap

variable {α β : Type}

/-- The map without entries. -/
def empty : VenueMap α := PerVenue.const none

/-- The entry of a venue. -/
def get? (map : VenueMap α) (venue : Venue) : Option α := PerVenue.get map venue

/-- The map with the entry of one venue set. -/
def insert (map : VenueMap α) (venue : Venue) (value : α) : VenueMap α :=
  PerVenue.set map venue (some value)

/-- Whether a venue has an entry. -/
def contains (map : VenueMap α) (venue : Venue) : Bool := (get? map venue).isSome

/-- The entries, in venue order. -/
def toList (map : VenueMap α) : List (Venue × α) :=
  Venue.all.filterMap fun v => (get? map v).map (v, ·)

/-- The venues with an entry, in order. -/
def venues (map : VenueMap α) : List Venue := (toList map).map (·.1)

/-- The number of entries. -/
def size (map : VenueMap α) : Nat := (toList map).length

/-- The map of a list of entries; of two for one venue the later stands. -/
def ofList (entries : List (Venue × α)) : VenueMap α :=
  entries.foldl (fun map e => insert map e.1 e.2) empty

/-- Replaces every entry by what `f` makes of it, in venue order, until `f` fails. -/
def mapM {ε : Type} (f : Venue → α → Except ε β) (map : VenueMap α) : Except ε (VenueMap β) :=
  (toList map).foldlM (fun out e => (f e.1 e.2).map (insert out e.1)) empty

@[simp] theorem get?_empty (v : Venue) : get? (empty : VenueMap α) v = none := by
  simp [get?, empty]

@[simp] theorem get?_insert (map : VenueMap α) (v w : Venue) (a : α) :
    get? (insert map v a) w = if w = v then some a else get? map w := by
  simp [get?, insert]

@[simp] theorem get?_ofFn (f : Venue → Option α) (v : Venue) :
    get? (PerVenue.ofFn f : VenueMap α) v = f v := by
  simp [get?]

theorem mem_toList {map : VenueMap α} {v : Venue} {a : α} :
    (v, a) ∈ toList map ↔ get? map v = some a := by
  simp [toList, Venue.mem_all]

theorem venues_eq_filter (map : VenueMap α) : venues map = Venue.all.filter (contains map) := by
  rw [venues, toList, List.map_filterMap, ← List.filterMap_eq_filter]
  congr 1
  funext v
  cases h : get? map v <;> simp [contains, h, Option.guard]

/-- Where `f` fails at every entry and in the same way, so does the whole, if there is an entry. -/
theorem mapM_eq_error {ε : Type} {f : Venue → α → Except ε β} {map : VenueMap α} {e : ε}
    (hsome : venues map ≠ []) (h : ∀ v a, get? map v = some a → f v a = .error e) :
    mapM f map = .error e := by
  obtain ⟨⟨v, a⟩, rest, hlist⟩ := List.exists_cons_of_ne_nil (mt (congrArg (List.map _)) hsome)
  have hget : get? map v = some a := mem_toList.1 (by simp [hlist])
  rw [mapM, hlist, List.foldlM_cons, h v a hget]
  rfl

/-- Where `f` succeeds at every entry, each entry is replaced by its result. -/
theorem mapM_eq_ok {ε : Type} {f : Venue → α → Except ε β} {g : Venue → α → β} (map : VenueMap α)
    (h : ∀ v a, get? map v = some a → f v a = .ok (g v a)) :
    mapM f map = .ok (PerVenue.ofFn fun v => (get? map v).map (g v)) := by
  have hs := h .solend
  have hp := h .port
  have hj := h .jet
  obtain ⟨solend, port, jet⟩ := map
  simp only [get?, PerVenue.get] at hs hp hj
  cases solend <;> cases port <;> cases jet <;>
    simp_all [mapM, toList, Venue.all, get?, PerVenue.get, PerVenue.ofFn, insert, PerVenue.set,
      empty, PerVenue.const, Except.map, bind, Except.bind, pure, Except.pure]

end VenueMap

end YieldVault
