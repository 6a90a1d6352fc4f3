import Mathlib.Data.List.Forall2
import Mathlib.Data.List.Nodup
import StateMachines.Table

/-! # Tables built from lists

Setting many entries one after the other is described by the list alone: a name stands where it
first came in, and it holds what the list gives it last. Changing every entry by a function that
may fail keeps the names, and answers exactly if every entry can be changed.
-/

namespace StateMachines

/-! ## Answers and lists -/

theorem bind_eq_ok_iff {α β ε : Type} {x : Except ε α} {f : α → Except ε β} {result : β} :
    (x >>= f) = .ok result ↔ ∃ value, x = .ok value ∧ f value = .ok result := by
  cases x <;> simp [bind, Except.bind]

theorem mapError_eq_ok_iff {α ε δ : Type} {x : Except ε α} {f : ε → δ} {a : α} :
    x.mapError f = .ok a ↔ x = .ok a := by
  cases x <;> simp [Except.mapError]

/-- If an answer is known whenever it succeeds in one way or fails in another, and one of the two
always applies, then these are all the ways in which it succeeds and fails. -/
theorem answer_iff_of_either {α ε : Type} {answer : Except ε α} {succeeds : α → Prop}
    {fails : ε → Prop} (either : (∃ a, succeeds a) ∨ ∃ e, fails e)
    (ok : ∀ a, succeeds a → answer = .ok a) (error : ∀ e, fails e → answer = .error e) :
    (∀ a, answer = .ok a ↔ succeeds a) ∧ ∀ e, answer = .error e ↔ fails e := by
  rcases either with ⟨a, success⟩ | ⟨e, failure⟩
  · refine ⟨fun b => ⟨fun same => ?_, ok b⟩, fun e => ⟨fun same => ?_, error e⟩⟩
    · exact Except.ok.inj ((ok a success).symm.trans same) ▸ success
    · cases (ok a success).symm.trans same
  · refine ⟨fun a => ⟨fun same => ?_, ok a⟩, fun d => ⟨fun same => ?_, error d⟩⟩
    · cases (error e failure).symm.trans same
    · exact Except.error.inj ((error e failure).symm.trans same) ▸ failure

/-- What holds of nothing holds of a whole list, or fails first at one of its elements. -/
theorem exists_first_failure {α : Type} (fit : List α → Prop) (none : fit []) (xs : List α) :
    fit xs ∨ ∃ before x after, xs = before ++ x :: after ∧ fit before ∧ ¬ fit (before ++ [x]) := by
  induction xs generalizing fit with
  | nil => exact .inl none
  | cons u rest ih =>
    by_cases first : fit [u]
    -- The rest is judged with the first element before it.
    · rcases ih (fun front => fit (u :: front)) first with
        all | ⟨before, x, after, rfl, fits, fails⟩
      · exact .inl all
      · exact .inr ⟨u :: before, x, after, rfl, fits, fails⟩
    · exact .inr ⟨[], u, rest, rfl, none, first⟩

/-- An element after which names are no longer distinct has the name of one before. -/
theorem mem_of_not_nodup_concat {α : Type} {nameOf : α → String} {before : List α} {x : α}
    (distinct : (before.map nameOf).Nodup) (repeats : ¬ ((before ++ [x]).map nameOf).Nodup) :
    nameOf x ∈ before.map nameOf := by
  by_contra new
  apply repeats
  rw [List.map_append, List.map_singleton, ← List.concat_eq_append, List.nodup_concat]
  exact ⟨new, distinct⟩

/-- Distinct names stand in the order of their positions. -/
theorem pairwise_idxOf_of_nodup {names : List String} (distinct : names.Nodup) :
    names.Pairwise fun first second => names.idxOf first < names.idxOf second := by
  rw [List.pairwise_iff_getElem]
  intro i j inside inside' before
  rwa [distinct.idxOf_getElem i inside, distinct.idxOf_getElem j inside']

/-- The first occurrences in a list of names: each name once, in the order in which they first
occur. -/
structure FirstOccurrences (names firsts : List String) : Prop where
  distinct : firsts.Nodup
  same : ∀ name, name ∈ firsts ↔ name ∈ names
  ordered : firsts.Pairwise fun first second => names.idxOf first < names.idxOf second

/-- What first occurs before a name stands before it. -/
theorem FirstOccurrences.mem_before {names before after : List String} {name earlier : String}
    (firsts : FirstOccurrences names (before ++ name :: after))
    (precedes : names.idxOf earlier < names.idxOf name) : earlier ∈ before := by
  have occurs : earlier ∈ names :=
    List.idxOf_lt_length_iff.mp (Nat.lt_of_lt_of_le precedes List.idxOf_le_length)
  rcases List.mem_append.mp ((firsts.same earlier).mpr occurs) with inside | later
  · exact inside
  · rcases List.mem_cons.mp later with rfl | behind
    · exact absurd precedes (Nat.lt_irrefl _)
    · have ordered := (List.pairwise_append.mp firsts.ordered).2.1
      exact absurd precedes (Nat.lt_asymm (List.rel_of_pairwise_cons ordered behind))

namespace Table

variable {α β ε : Type}

/-- The entry that a list gives a name last. -/
def lastUnder? (entries : List (String × α)) (name : String) : Option α :=
  entries.reverse.lookup name

/-- The names of a list that are not in a table, each once, in order of first occurrence. -/
def newNames (t : Table α) (names : List String) : List String :=
  names.eraseDups.filter fun name => !t.contains name

theorem lastUnder?_append (front back : List (String × α)) (name : String) :
    lastUnder? (front ++ back) name = (lastUnder? back name).or (lastUnder? front name) := by
  simp [lastUnder?, List.lookup_append]

theorem lookup_isSome_iff {entries : List (String × α)} {name : String} :
    (entries.lookup name).isSome = true ↔ name ∈ entries.map Prod.fst := by
  simp [List.lookup_isSome_iff]

theorem mem_of_lookup {entries : List (String × α)} {name : String} {value : α}
    (found : entries.lookup name = some value) : (name, value) ∈ entries := by
  obtain ⟨front, back, rfl, _⟩ := List.lookup_eq_some_iff.mp found
  simp

theorem lookup_of_mem {entries : List (String × α)} {name : String} {value : α}
    (distinct : (entries.map Prod.fst).Nodup) (member : (name, value) ∈ entries) :
    entries.lookup name = some value := by
  obtain ⟨front, back, rfl⟩ := List.append_of_mem member
  refine List.lookup_eq_some_iff.mpr ⟨front, back, rfl, ?_⟩
  intro entry before
  simp only [List.map_append, List.map_cons, List.nodup_append] at distinct
  have apart := distinct.2.2 entry.1 (List.mem_map_of_mem before) name (by simp)
  simpa using Ne.symm apart

theorem mem_of_lastUnder? {entries : List (String × α)} {name : String} {value : α}
    (found : lastUnder? entries name = some value) : (name, value) ∈ entries :=
  List.mem_reverse.mp (mem_of_lookup found)

theorem lastUnder?_isSome {entries : List (String × α)} {name : String} :
    (lastUnder? entries name).isSome = true ↔ name ∈ entries.map Prod.fst := by
  rw [lastUnder?, lookup_isSome_iff, List.map_reverse, List.mem_reverse]

theorem get?_eq_some_iff {t : Table α} {name : String} {value : α} :
    t.get? name = some value ↔ (name, value) ∈ t.entries :=
  ⟨mem_of_lookup, lookup_of_mem t.distinct⟩

theorem mem_values_iff {t : Table α} {value : α} :
    value ∈ t.values ↔ ∃ name, t.get? name = some value := by
  simp [values, get?_eq_some_iff]

theorem contains_eq_isSome (t : Table α) (name : String) :
    t.contains name = (t.get? name).isSome := by
  rw [Bool.eq_iff_iff, contains_iff, get?_isSome]

/-! ## Setting many entries -/

/-- A new name comes last. -/
theorem entries_set_of_not_mem {t : Table α} {name : String} (value : α) (absent : name ∉ t.names) :
    (t.set name value).entries = t.entries ++ [(name, value)] := by
  simp [set, absent]

@[simp] theorem setAll_nil (t : Table α) : t.setAll [] = t := rfl

theorem setAll_cons (t : Table α) (entry : String × α) (rest : List (String × α)) :
    t.setAll (entry :: rest) = (t.set entry.1 entry.2).setAll rest := rfl

theorem setAll_append (t : Table α) (front back : List (String × α)) :
    t.setAll (front ++ back) = (t.setAll front).setAll back := List.foldl_append

theorem ofList_append (front back : List (String × α)) :
    ofList (front ++ back) = (ofList front).setAll back := setAll_append _ front back

theorem get?_setAll (t : Table α) (entries : List (String × α)) (name : String) :
    (t.setAll entries).get? name = (lastUnder? entries name).or (t.get? name) := by
  induction entries generalizing t with
  | nil => rfl
  | cons entry rest ih =>
    rw [setAll_cons, ih, get?_set]
    have split : lastUnder? (entry :: rest) name =
        (lastUnder? rest name).or (if name = entry.1 then some entry.2 else none) := by
      rw [← List.singleton_append, lastUnder?_append]
      congr 1
      obtain ⟨key, value⟩ := entry
      by_cases hit : name = key
      · simp [lastUnder?, hit]
      · simp [lastUnder?, List.lookup_cons, hit, beq_false_of_ne hit]
    rw [split, Option.or_assoc]
    by_cases hit : name = entry.1 <;> simp [hit]

theorem get?_ofList (entries : List (String × α)) (name : String) :
    (ofList entries).get? name = lastUnder? entries name := by
  simp [ofList, get?_setAll]

/-- Which names are new depends on the names of the table alone. -/
theorem newNames_congr {t : Table α} {u : Table β} (same : t.names = u.names)
    (names : List String) : t.newNames names = u.newNames names := by
  simp only [newNames, contains, same]

private theorem eraseDups_filter_comm (keep : String → Bool) (names : List String) :
    (names.filter keep).eraseDups = names.eraseDups.filter keep := by
  induction length : names.length using Nat.strongRecOn generalizing names with
  | ind size ih =>
    cases names with
    | nil => rfl
    | cons name rest =>
      have smaller : (rest.filter fun other => !other == name).length < size := by
        have := List.length_filter_le (fun other => !other == name) rest
        simp only [List.length_cons] at length
        omega
      have inner := ih _ smaller (rest.filter fun other => !other == name) rfl
      rw [List.eraseDups_cons, List.filter_cons, List.filter_cons, ← inner]
      split
      · rw [List.eraseDups_cons, List.filter_filter, List.filter_filter]
        simp only [Bool.and_comm]
      · next dropped =>
        rw [List.filter_filter]
        congr 1
        apply List.filter_congr
        intro other _
        by_cases same : other = name <;> simp_all

/-- First occurrences keep their order. -/
theorem pairwise_idxOf_eraseDups (names : List String) :
    names.eraseDups.Pairwise fun first second => names.idxOf first < names.idxOf second := by
  induction names with
  | nil => exact .nil
  | cons name rest ih =>
    rw [List.eraseDups_cons, eraseDups_filter_comm]
    have later : ∀ other ∈ rest.eraseDups.filter fun other => !other == name,
        (name :: rest).idxOf other = rest.idxOf other + 1 := by
      intro other member
      have apart : name ≠ other := by
        rintro rfl
        simpa using (List.mem_filter.mp member).2
      exact List.idxOf_cons_ne rest apart
    refine .cons ?_ ((ih.filter _).imp_of_mem ?_)
    · intro other member
      rw [List.idxOf_cons_self, later other member]
      exact Nat.succ_pos _
    · intro first second member member' before
      rw [later first member, later second member']
      exact Nat.succ_lt_succ before

theorem firstOccurrences_eraseDups (names : List String) :
    FirstOccurrences names names.eraseDups := by
  have ordered := pairwise_idxOf_eraseDups names
  refine ⟨ordered.imp fun before same => ?_, fun name => List.mem_eraseDups, ordered⟩
  exact Nat.lt_irrefl _ (same ▸ before)

theorem newNames_cons (t : Table α) (name : String) (value : α) (rest : List String) :
    t.newNames (name :: rest) =
      (if name ∈ t.names then [] else [name]) ++ (t.set name value).newNames rest := by
  have later : ∀ other, (!t.contains other && !(other == name)) =
      !(t.set name value).contains other := by
    intro other
    simp only [contains_eq_isSome, get?_set]
    by_cases same : other = name <;> simp [same]
  simp only [newNames, List.eraseDups_cons, List.filter_cons]
  have rest_eq : (rest.filter fun other => !other == name).eraseDups.filter
      (fun other => !t.contains other) =
      rest.eraseDups.filter fun other => !(t.set name value).contains other := by
    rw [← eraseDups_filter_comm, ← eraseDups_filter_comm, List.filter_filter]
    simp only [later]
  rw [rest_eq]
  by_cases present : name ∈ t.names <;> simp [contains, present]

/-- In the table without entries every name is new. -/
theorem newNames_empty (names : List String) : (empty : Table α).newNames names = names.eraseDups :=
  List.filter_eq_self.mpr fun _ _ => rfl

theorem names_setAll (t : Table α) (entries : List (String × α)) :
    (t.setAll entries).names = t.names ++ t.newNames (entries.map Prod.fst) := by
  induction entries generalizing t with
  | nil => simp [newNames]
  | cons entry rest ih =>
    rw [setAll_cons, ih, List.map_cons, newNames_cons t entry.1 entry.2]
    by_cases present : entry.1 ∈ t.names
    · simp [names_set_of_mem _ present, present]
    · simp [names_set_of_not_mem _ present, present]

/-- A table of entries names each of them once, in order of first occurrence. -/
theorem firstOccurrences_ofList (entries : List (String × α)) :
    FirstOccurrences (entries.map Prod.fst) (ofList entries).names := by
  rw [ofList, names_setAll, names_empty, newNames_empty, List.nil_append]
  exact firstOccurrences_eraseDups _

/-- Entries under distinct names are a table as they are. -/
theorem entries_ofList {entries : List (String × α)} (distinct : (entries.map Prod.fst).Nodup) :
    (ofList entries).entries = entries := by
  suffices general : ∀ t : Table α, (∀ entry ∈ entries, entry.1 ∉ t.names) →
      (t.setAll entries).entries = t.entries ++ entries from general empty (by simp)
  induction entries with
  | nil => simp
  | cons entry rest ih =>
    intro t fresh
    obtain ⟨apart, distinct⟩ := List.nodup_cons.mp distinct
    have absent : entry.1 ∉ t.names := fresh entry (List.mem_cons_self ..)
    rw [setAll_cons, ih distinct, entries_set_of_not_mem _ absent, List.append_assoc,
      List.singleton_append]
    intro other member
    rw [names_set_of_not_mem _ absent, List.mem_append, List.mem_singleton, not_or]
    exact ⟨fresh other (List.mem_cons_of_mem _ member),
      fun same => apart (same ▸ List.mem_map_of_mem member)⟩

/-- Setting the entries of a table one after the other gives the table. -/
theorem ofList_entries (t : Table α) : ofList t.entries = t := ext (entries_ofList t.distinct)

@[simp] theorem values_map (f : α → β) (t : Table α) : (t.map f).values = t.values.map f := by
  simp [values, map, List.map_map, Function.comp_def]

/-! ## Changing every entry -/

/-- The entries of two lists have the same names, and the second ones are what the first ones are
changed into. -/
def Changes (f : α → Except ε β) : List (String × α) → List (String × β) → Prop :=
  List.Forall₂ fun before after => after.1 = before.1 ∧ f before.2 = .ok after.2

theorem Changes.names {f : α → Except ε β} {before : List (String × α)}
    {after : List (String × β)} (changes : Changes f before after) :
    after.map Prod.fst = before.map Prod.fst := by
  induction changes with
  | nil => rfl
  | cons same _ ih => simp [same.1, ih]

private theorem changes_of_mapEntries? {f : α → Except ε β} {before : List (String × α)}
    {result : { changed : List (String × β) // changed.map Prod.fst = before.map Prod.fst }}
    (done : mapEntries? f before = .ok result) : Changes f before result.val := by
  induction before with
  | nil =>
    obtain rfl : ⟨[], rfl⟩ = result := by simpa [mapEntries?] using done
    exact .nil
  | cons entry rest ih =>
    rw [mapEntries?] at done
    split at done
    · contradiction
    · next value first =>
      split at done
      · contradiction
      · next changed names later =>
        obtain rfl := Except.ok.inj done
        exact .cons ⟨rfl, first⟩ (ih later)

private theorem mapEntries?_of_changes {f : α → Except ε β} {before : List (String × α)}
    {after : List (String × β)} (changes : Changes f before after) :
    ∃ same, mapEntries? f before = .ok ⟨after, same⟩ := by
  induction changes with
  | nil => exact ⟨rfl, rfl⟩
  | @cons entry next rest tail same later ih =>
    obtain ⟨names, done⟩ := ih
    refine ⟨by simp [same.1, names], ?_⟩
    simp only [mapEntries?, same.2, done, ← same.1]

theorem map?_eq_ok_iff {f : α → Except ε β} {t : Table α} {u : Table β} :
    t.map? f = .ok u ↔ Changes f t.entries u.entries := by
  constructor
  · intro changed
    rw [map?] at changed
    split at changed
    · contradiction
    · next after names done =>
      obtain rfl := Except.ok.inj changed
      exact changes_of_mapEntries? done
  · intro changes
    obtain ⟨names, done⟩ := mapEntries?_of_changes changes
    rw [map?, done]

/-- A changed table has the names of the first one. -/
theorem names_of_map? {f : α → Except ε β} {t : Table α} {u : Table β}
    (changed : t.map? f = .ok u) : u.names = t.names := (map?_eq_ok_iff.mp changed).names

/-- A change that goes along with others before and after it is made in the changed tables too. -/
theorem map?_map_of_map? {γ δ : Type} {f : α → Except ε β} {g : γ → Except ε δ} {before : α → γ}
    {after : β → δ} {t : Table α} {u : Table β} (changed : t.map? f = .ok u)
    (along : ∀ value result, f value = .ok result → g (before value) = .ok (after result)) :
    (t.map before).map? g = .ok (u.map after) := by
  rw [map?_eq_ok_iff] at changed ⊢
  rw [Changes, map, map, List.forall₂_map_left_iff, List.forall₂_map_right_iff]
  refine changed.imp ?_
  rintro entry next ⟨same, done⟩
  exact ⟨same, along entry.2 next.2 done⟩

/-- Each name holds what its entry is changed into. -/
theorem get?_of_map? {f : α → Except ε β} {t : Table α} {u : Table β}
    (changed : t.map? f = .ok u) {name : String} {value : β} :
    u.get? name = some value ↔ ∃ before, t.get? name = some before ∧ f before = .ok value := by
  have changes : List.Forall₂ _ t.entries u.entries := map?_eq_ok_iff.mp changed
  unfold get?
  generalize t.entries = before, u.entries = after at changes
  induction changes with
  | nil => simp
  | @cons first second rest later same _ ih =>
    obtain ⟨key, held⟩ := first
    obtain ⟨key', held'⟩ := second
    obtain rfl : key' = key := same.1
    by_cases hit : name = key'
    · subst hit
      simp only [List.lookup_cons, beq_self_eq_true, Option.some.injEq, exists_eq_left']
      constructor
      · rintro rfl
        exact same.2
      · intro done
        simpa [same.2] using done
    · simpa [List.lookup_cons, beq_false_of_ne hit] using ih

/-- A table can be changed exactly if every entry can. -/
theorem exists_map?_iff {f : α → Except ε β} {t : Table α} :
    (∃ u, t.map? f = .ok u) ↔ ∀ value ∈ t.values, ∃ changed, f value = .ok changed := by
  constructor
  · rintro ⟨u, changed⟩ value member
    obtain ⟨name, found⟩ := mem_values_iff.mp member
    have present : (u.get? name).isSome = true := by
      rw [get?_isSome, names_of_map? changed, ← get?_isSome, found]
      rfl
    obtain ⟨result, held⟩ := Option.isSome_iff_exists.mp present
    obtain ⟨before, same, done⟩ := (get?_of_map? changed).mp held
    obtain rfl : value = before := by simpa [found] using same
    exact ⟨result, done⟩
  · intro each
    suffices ∃ after, Changes f t.entries after by
      obtain ⟨after, changes⟩ := this
      exact ⟨⟨after, changes.names ▸ t.distinct⟩, map?_eq_ok_iff.mpr changes⟩
    have members : ∀ entry ∈ t.entries, ∃ changed, f entry.2 = .ok changed :=
      fun entry member => each entry.2 (List.mem_map_of_mem member)
    generalize t.entries = entries at members
    induction entries with
    | nil => exact ⟨[], .nil⟩
    | cons entry rest ih =>
      obtain ⟨value, done⟩ := members entry (List.mem_cons_self ..)
      obtain ⟨after, changes⟩ := ih fun other member =>
        members other (List.mem_cons_of_mem _ member)
      exact ⟨(entry.1, value) :: after, .cons ⟨rfl, done⟩ changes⟩

end Table

end StateMachines
