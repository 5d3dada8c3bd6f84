set_option autoImplicit false

/-!
# Ordered maps

A map from strings that keeps its entries in the order in which their keys first came in.  Putting
a known key again changes its value and not its place (`keys_upsert`, `get?_upsert`).
-/

namespace JavaSignatures

/-! ## Association lists with distinct keys -/

namespace Entries

variable {α : Type}

/-- The keys of a list of entries. -/
def keys (entries : List (String × α)) : List String := entries.map Prod.fst

/-- The value of the first entry with the key. -/
def get? (key : String) : List (String × α) → Option α
  | [] => none
  | (k, v) :: rest => if k = key then some v else get? key rest

/-- Gives the key the value that `f` makes of its present one, in its place or at the end. -/
def upsert (key : String) (f : Option α → α) : List (String × α) → List (String × α)
  | [] => [(key, f none)]
  | (k, v) :: rest => if k = key then (k, f (some v)) :: rest else (k, v) :: upsert key f rest

theorem keys_upsert (key : String) (f : Option α → α) (entries : List (String × α)) :
    keys (upsert key f entries) =
      if key ∈ keys entries then keys entries else keys entries ++ [key] := by
  induction entries with
  | nil => simp [upsert, keys]
  | cons entry rest ih =>
    obtain ⟨k, v⟩ := entry
    simp only [upsert]
    by_cases hk : k = key
    · subst hk
      simp [keys]
    · have hk' : ¬key = k := fun h => hk h.symm
      simp only [hk, if_false]
      simp only [keys, List.map_cons, List.mem_cons, hk', false_or] at ih ⊢
      rw [ih]
      by_cases hm : key ∈ rest.map Prod.fst <;> simp [hm]

theorem nodup_upsert (key : String) (f : Option α → α) {entries : List (String × α)}
    (h : (keys entries).Nodup) : (keys (upsert key f entries)).Nodup := by
  rw [keys_upsert]
  split
  · exact h
  · next hk =>
    rw [List.nodup_append]
    refine ⟨h, by simp, ?_⟩
    intro a ha b hb
    rw [List.mem_singleton.mp hb]
    exact fun hab => hk (hab ▸ ha)

theorem upsert_of_not_mem {key : String} {entries : List (String × α)} (h : key ∉ keys entries)
    (f : Option α → α) : upsert key f entries = entries ++ [(key, f none)] := by
  induction entries with
  | nil => rfl
  | cons entry rest ih =>
    obtain ⟨k, v⟩ := entry
    have hk : ¬k = key := fun e => h (e ▸ List.mem_cons_self ..)
    have hrest : key ∉ keys rest := fun hmem => h (List.mem_cons_of_mem _ hmem)
    rw [upsert, if_neg hk, ih hrest, List.cons_append]

theorem get?_upsert (key other : String) (f : Option α → α) (entries : List (String × α)) :
    get? other (upsert key f entries) =
      if other = key then some (f (get? key entries)) else get? other entries := by
  induction entries with
  | nil =>
    by_cases h : other = key
    · simp [upsert, get?, h]
    · have h' : ¬key = other := fun e => h e.symm
      simp [upsert, get?, h, h']
  | cons entry rest ih =>
    obtain ⟨k, v⟩ := entry
    by_cases hk : k = key
    · subst hk
      by_cases h : other = k
      · subst h
        simp [upsert, get?]
      · have h' : ¬k = other := fun e => h e.symm
        simp [upsert, get?, h, h']
    · simp only [upsert, hk, if_false, get?]
      rw [ih]
      by_cases h : other = key
      · subst h
        simp [hk]
      · simp [h]

end Entries

/-! ## Ordered maps -/

/-- A map from strings whose entries keep the order in which their keys came in. -/
structure OrderedMap (α : Type) where
  entries : List (String × α)
  nodup : (Entries.keys entries).Nodup
  deriving DecidableEq

namespace OrderedMap

variable {α : Type}

/-- The map without entries. -/
def empty : OrderedMap α := ⟨[], List.Pairwise.nil⟩

instance : Inhabited (OrderedMap α) := ⟨empty⟩

instance [Repr α] : Repr (OrderedMap α) := ⟨fun map depth => reprPrec map.entries depth⟩

/-- The keys in order. -/
def keys (map : OrderedMap α) : List String := Entries.keys map.entries

/-- The values in the order of their keys. -/
def values (map : OrderedMap α) : List α := map.entries.map Prod.snd

/-- The map has no entry. -/
def isEmpty (map : OrderedMap α) : Bool := map.entries.isEmpty

/-- The value of a key. -/
def get? (map : OrderedMap α) (key : String) : Option α := Entries.get? key map.entries

/-- Gives the key the value that `f` makes of its present one. -/
def upsert (map : OrderedMap α) (key : String) (f : Option α → α) : OrderedMap α where
  entries := Entries.upsert key f map.entries
  nodup := Entries.nodup_upsert key f map.nodup

/-- Gives the key a value, in place of any earlier one. -/
def insert (map : OrderedMap α) (key : String) (value : α) : OrderedMap α :=
  map.upsert key fun _ => value

/-- Gives the key a value unless it has one. -/
def insertIfNew (map : OrderedMap α) (key : String) (value : α) : OrderedMap α :=
  map.upsert key fun old => old.getD value

/-- The map of a list of entries; a later value of a key replaces the earlier one. -/
def ofList (entries : List (String × α)) : OrderedMap α :=
  entries.foldl (fun map entry => map.insert entry.1 entry.2) empty

@[simp]
theorem get?_empty (key : String) : (empty : OrderedMap α).get? key = none := rfl

theorem keys_nodup (map : OrderedMap α) : map.keys.Nodup := map.nodup

theorem keys_upsert (map : OrderedMap α) (key : String) (f : Option α → α) :
    (map.upsert key f).keys = if key ∈ map.keys then map.keys else map.keys ++ [key] :=
  Entries.keys_upsert key f map.entries

theorem get?_upsert (map : OrderedMap α) (key other : String) (f : Option α → α) :
    (map.upsert key f).get? other =
      if other = key then some (f (map.get? key)) else map.get? other :=
  Entries.get?_upsert key other f map.entries

theorem keys_insert (map : OrderedMap α) (key : String) (value : α) :
    (map.insert key value).keys = if key ∈ map.keys then map.keys else map.keys ++ [key] :=
  keys_upsert map key _

theorem get?_insert (map : OrderedMap α) (key other : String) (value : α) :
    (map.insert key value).get? other = if other = key then some value else map.get? other :=
  get?_upsert map key other _

theorem get?_insertIfNew (map : OrderedMap α) (key other : String) (value : α) :
    (map.insertIfNew key value).get? other =
      if other = key then some ((map.get? key).getD value) else map.get? other :=
  get?_upsert map key other _

end OrderedMap

end JavaSignatures
