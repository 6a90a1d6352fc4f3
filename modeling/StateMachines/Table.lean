/-! # Tables of named entries

A table holds entries under names, each name once, in the order in which the names first came in.
Setting a name that is present replaces its entry in place; a new name goes to the end; erasing a
name keeps the order of the others. Contexts, merged machines and their symbol tables are all
tables, so the lemmas here say what each operation does to the names and to a lookup.
-/

namespace StateMachines

/-- Entries under pairwise distinct names, in order of first entry. -/
structure Table (α : Type) where
  /-- The entries, oldest name first. -/
  entries : List (String × α)
  /-- No name occurs twice. -/
  distinct : (entries.map Prod.fst).Nodup
deriving DecidableEq

namespace Table

variable {α β : Type}

/-- The table without entries. -/
def empty : Table α := ⟨[], .nil⟩

instance : EmptyCollection (Table α) := ⟨empty⟩
instance : Inhabited (Table α) := ⟨empty⟩

/-- The names, oldest first. -/
def names (t : Table α) : List String := t.entries.map Prod.fst

/-- The entries without their names, oldest first. -/
def values (t : Table α) : List α := t.entries.map Prod.snd

/-- How many names there are. -/
def size (t : Table α) : Nat := t.entries.length

def isEmpty (t : Table α) : Bool := t.entries.isEmpty

/-- The entry under a name. -/
def get? (t : Table α) (name : String) : Option α := t.entries.lookup name

/-- The name is there. -/
def contains (t : Table α) (name : String) : Bool := t.names.contains name

/-- Put a value under a name wherever the name stands, and leave the other entries alone. -/
def replaceIn (name : String) (value : α) (entries : List (String × α)) : List (String × α) :=
  entries.map fun entry => if entry.1 = name then (name, value) else entry

@[simp] theorem replaceIn_names (name : String) (value : α) (entries : List (String × α)) :
    (replaceIn name value entries).map Prod.fst = entries.map Prod.fst := by
  simp only [replaceIn, List.map_map]
  apply List.map_congr_left
  intro entry _
  by_cases same : entry.1 = name <;> simp [same]

theorem replaceIn_of_not_mem {entries : List (String × α)} {name : String}
    (absent : name ∉ entries.map Prod.fst) (value : α) :
    replaceIn name value entries = entries := by
  have stays (entry : String × α) (member : entry ∈ entries) :
      (if entry.1 = name then (name, value) else entry) = entry := by
    refine if_neg ?_
    rintro rfl
    exact absent (List.mem_map_of_mem member)
  rw [replaceIn, List.map_congr_left stays, List.map_id']

theorem filter_of_not_mem {entries : List (String × α)} {name : String}
    (absent : name ∉ entries.map Prod.fst) :
    entries.filter (fun entry => entry.1 ≠ name) = entries := by
  refine List.filter_eq_self.mpr fun entry member => ?_
  simp only [ne_eq, decide_not, Bool.not_eq_true', decide_eq_false_iff_not]
  rintro rfl
  exact absent (List.mem_map_of_mem member)

private theorem append_nodup {entries : List (String × α)} {name : String} {value : α}
    (distinct : (entries.map Prod.fst).Nodup) (absent : name ∉ entries.map Prod.fst) :
    ((entries ++ [(name, value)]).map Prod.fst).Nodup := by
  simp only [List.map_append, List.map_cons, List.map_nil]
  refine List.nodup_append.mpr ⟨distinct, by simp, ?_⟩
  intro a member b last
  simp only [List.mem_singleton] at last
  subst last
  exact fun same => absent (same ▸ member)

/-- Put a value under a name: in place where the name is present, else at the end. -/
def set (t : Table α) (name : String) (value : α) : Table α :=
  if present : name ∈ t.names then
    ⟨replaceIn name value t.entries, by simpa using t.distinct⟩
  else
    ⟨t.entries ++ [(name, value)], append_nodup t.distinct present⟩

/-- Remove a name, keeping the order of the others. -/
def erase (t : Table α) (name : String) : Table α :=
  ⟨t.entries.filter fun entry => entry.1 ≠ name,
    t.distinct.sublist (List.filter_sublist.map Prod.fst)⟩

/-- Set the given entries one after the other. -/
def setAll (t : Table α) (entries : List (String × α)) : Table α :=
  entries.foldl (fun table entry => table.set entry.1 entry.2) t

/-- The table of a list of entries: a repeated name keeps its first place and its last value. -/
def ofList (entries : List (String × α)) : Table α := empty.setAll entries

/-- Change every entry, keeping names and order. -/
def map (f : α → β) (t : Table α) : Table β :=
  ⟨t.entries.map fun entry => (entry.1, f entry.2), by
    simpa [List.map_map, Function.comp_def] using t.distinct⟩

/-- Change entries in order by a function that may fail, keeping the names. -/
def mapEntries? {ε : Type} (f : α → Except ε β) : (entries : List (String × α)) →
    Except ε { changed : List (String × β) // changed.map Prod.fst = entries.map Prod.fst }
  | [] => .ok ⟨[], rfl⟩
  | entry :: rest =>
    match f entry.2 with
    | .error e => .error e
    | .ok value =>
      match mapEntries? f rest with
      | .error e => .error e
      | .ok ⟨changed, same⟩ => .ok ⟨(entry.1, value) :: changed, by simp [same]⟩

/-- Change every entry by a function that may fail; the first failure is the answer. -/
def map? {ε : Type} (f : α → Except ε β) (t : Table α) : Except ε (Table β) :=
  match mapEntries? f t.entries with
  | .error e => .error e
  | .ok ⟨changed, same⟩ => .ok ⟨changed, same ▸ t.distinct⟩

/-! ## What the operations do to the names -/

theorem ext {s t : Table α} (same : s.entries = t.entries) : s = t := by
  cases s; cases t; simp_all

theorem names_nodup (t : Table α) : t.names.Nodup := t.distinct

@[simp] theorem names_empty : (empty : Table α).names = [] := rfl

theorem contains_iff (t : Table α) (name : String) : t.contains name = true ↔ name ∈ t.names := by
  simp [contains]

theorem names_set_of_mem {t : Table α} {name : String} (value : α) (present : name ∈ t.names) :
    (t.set name value).names = t.names := by
  simp only [set, dif_pos present]
  exact replaceIn_names name value t.entries

theorem names_set_of_not_mem {t : Table α} {name : String} (value : α) (absent : name ∉ t.names) :
    (t.set name value).names = t.names ++ [name] := by
  simp only [set, dif_neg absent]
  simp [names]

@[simp] theorem names_erase (t : Table α) (name : String) :
    (t.erase name).names = t.names.filter (· ≠ name) := by
  simp only [names, erase, List.filter_map]
  rfl

theorem erase_of_not_mem {t : Table α} {name : String} (absent : name ∉ t.names) :
    t.erase name = t :=
  ext (filter_of_not_mem absent)

@[simp] theorem names_map (f : α → β) (t : Table α) : (t.map f).names = t.names := by
  simp [names, map, List.map_map, Function.comp_def]

/-! ## What the operations do to a lookup -/

private theorem lookup_cons (entry : String × α) (rest : List (String × α)) (name : String) :
    (entry :: rest).lookup name = if name = entry.1 then some entry.2 else rest.lookup name := by
  obtain ⟨key, value⟩ := entry
  by_cases hit : name = key
  · simp [hit]
  · simp [List.lookup_cons, hit, beq_false_of_ne hit]

private theorem lookup_isSome {entries : List (String × α)} {name : String} :
    (entries.lookup name).isSome = true ↔ name ∈ entries.map Prod.fst := by
  induction entries with
  | nil => simp
  | cons entry rest ih => by_cases hit : name = entry.1 <;> simp [lookup_cons, hit, ih]

theorem get?_isSome (t : Table α) (name : String) :
    (t.get? name).isSome = true ↔ name ∈ t.names := lookup_isSome

theorem get?_eq_none_iff (t : Table α) (name : String) : t.get? name = none ↔ name ∉ t.names := by
  rw [← get?_isSome]; cases t.get? name <;> simp

@[simp] theorem get?_empty (name : String) : (empty : Table α).get? name = none := rfl

private theorem lookup_replaceIn (entries : List (String × α)) (name other : String) (value : α) :
    (replaceIn name value entries).lookup other =
      if other = name then (entries.lookup other).map (fun _ => value)
      else entries.lookup other := by
  induction entries with
  | nil => by_cases same : other = name <;> simp [replaceIn, same]
  | cons entry rest ih =>
    rw [show replaceIn name value (entry :: rest)
      = (if entry.1 = name then (name, value) else entry) :: replaceIn name value rest from rfl,
      lookup_cons, lookup_cons, ih]
    by_cases here : entry.1 = name
    · by_cases same : other = name <;> simp [here, same]
    · by_cases hit : other = entry.1 <;> simp [here, hit]

private theorem lookup_of_not_mem {entries : List (String × α)} {name : String}
    (absent : name ∉ entries.map Prod.fst) : entries.lookup name = none := by
  cases found : entries.lookup name with
  | none => rfl
  | some value => exact absurd (lookup_isSome.mp (by simp [found])) absent

/-- After setting a name, that name holds the value and every other name what it held. -/
theorem get?_set (t : Table α) (name other : String) (value : α) :
    (t.set name value).get? other = if other = name then some value else t.get? other := by
  unfold set get?
  split
  next present =>
    rw [lookup_replaceIn]
    by_cases same : other = name
    · subst same
      obtain ⟨held, found⟩ := Option.isSome_iff_exists.mp (lookup_isSome.mpr present)
      simp [found]
    · simp [same]
  next absent =>
    rw [List.lookup_append, lookup_cons]
    by_cases same : other = name
    · subst same; simp [lookup_of_not_mem absent]
    · simp [same]

/-- After erasing a name, that name is absent and every other name holds what it held. -/
theorem get?_erase (t : Table α) (name other : String) :
    (t.erase name).get? other = if other = name then none else t.get? other := by
  change (t.entries.filter fun entry => entry.1 ≠ name).lookup other =
    if other = name then none else t.entries.lookup other
  induction t.entries with
  | nil => by_cases same : other = name <;> simp [same]
  | cons entry rest ih =>
    rw [lookup_cons]
    by_cases gone : entry.1 = name
    · rw [List.filter_cons_of_neg (by simp [gone]), ih]
      by_cases same : other = name <;> simp [same, gone]
    · rw [List.filter_cons_of_pos (by simp [gone]), lookup_cons, ih]
      by_cases hit : other = entry.1 <;> simp [hit, gone]

@[simp] theorem get?_map (f : α → β) (t : Table α) (name : String) :
    (t.map f).get? name = (t.get? name).map f := by
  change (t.entries.map fun entry => (entry.1, f entry.2)).lookup name =
    (t.entries.lookup name).map f
  induction t.entries with
  | nil => rfl
  | cons entry rest ih =>
    rw [List.map_cons, lookup_cons, lookup_cons, ih]
    by_cases hit : name = entry.1 <;> simp [hit]

end Table

end StateMachines
