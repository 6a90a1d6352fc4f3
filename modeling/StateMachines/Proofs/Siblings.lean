import StateMachines.Context.Disk

/-! # A path and the files beside it

A lock that can be placed tells where its path leads: the last name of the path is not one of those
that stay or go up, or the path would lead to a directory, and so the path, its lock and its staging
file stand side by side under three names.
-/

namespace StateMachines

namespace Disk

variable {d e : Disk} {path name : String} {here place : Place}

theorem isDirectoryAt_iff : d.isDirectoryAt place = true ↔ d.entryAt? place = some .directory := by
  simp [isDirectoryAt]

/-- What stands at a path stands at the place to which it leads. -/
theorem entry?_eq_entryAt? (led : d.place? path = some place) :
    d.entry? path = d.entryAt? place := by
  rw [Disk.entry?, led, Option.bind_some]

/-! ## Places that are reached -/

/-- Every place above is a directory. -/
def IsFounded (d : Disk) (place : Place) : Prop :=
  ∀ name here, name :: here <:+ place → d.isDirectoryAt here = true

theorem IsFounded.tail (founded : d.IsFounded place) : d.IsFounded place.tail :=
  fun name here inside => founded name here (inside.trans (List.tail_suffix place))

theorem IsFounded.isDirectoryAt_tail (founded : d.IsFounded place)
    (directory : d.isDirectoryAt place = true) : d.isDirectoryAt place.tail = true := by
  cases place with
  | nil => exact directory
  | cons name here => exact founded name here (List.suffix_refl _)

theorem step?_eq_some_iff : d.step? here name = some place ↔
    d.isDirectoryAt here = true ∧ Path.follow here name = place := by
  simp [step?]

/-- What is above a place to which names lead is a directory. -/
theorem IsFounded.of_foldlM {names : List String} (founded : d.IsFounded here)
    (led : names.foldlM d.step? here = some place) : d.IsFounded place := by
  induction names generalizing here with
  | nil =>
    obtain rfl : here = place := by simpa using led
    exact founded
  | cons name rest ih =>
    obtain ⟨next, stepped, led⟩ := Option.bind_eq_some_iff.mp led
    obtain ⟨directory, rfl⟩ := step?_eq_some_iff.mp stepped
    refine ih ?_ led
    unfold Path.follow
    split
    · exact founded
    split
    · exact founded.tail
    · intro first above inside
      rcases List.suffix_cons_iff.mp inside with whole | inside
      · obtain ⟨rfl, rfl⟩ := List.cons.inj whole
        exact directory
      · exact founded first above inside

/-- A name that does not go down leads to a directory. -/
theorem isDirectoryAt_follow (founded : d.IsFounded here) (directory : d.isDirectoryAt here = true)
    (notDown : Path.follow here name ≠ name :: here) :
    d.isDirectoryAt (Path.follow here name) = true := by
  revert notDown
  unfold Path.follow
  split
  · intro _
    exact directory
  split
  · intro _
    exact founded.isDirectoryAt_tail directory
  · intro other
    exact absurd rfl other

/-! ## Sites -/

/-- Where a path, its lock and its staging file stand: under three names in one place. -/
structure Site (d : Disk) (path : String) (here : Place) (name : String) : Prop where
  file : d.place? path = some (name :: here)
  lock : d.place? (lockPath path) = some ((name ++ ".lock") :: here)
  staging : d.place? (stagingPath path) = some ((name ++ ".tmp") :: here)
  short : (name ++ ".lock").utf8ByteSize ≤ 255

theorem canFollow_append {longer letters : String}
    (follows : Path.canFollow (path ++ longer) = true)
    (short : letters.utf8ByteSize ≤ longer.utf8ByteSize) (noZero : Path.hasZero letters = false) :
    Path.canFollow (path ++ letters) = true := by
  simp only [Path.canFollow, Path.hasZero, Bool.and_eq_true, decide_eq_true_eq, Bool.not_eq_true',
    String.utf8ByteSize_append, String.toList_append, List.contains_eq_mem, List.mem_append,
    decide_eq_false_iff_not, not_or] at follows noZero ⊢
  exact ⟨by omega, follows.2.1, noZero⟩

/-- A name of three letters or more goes down. -/
theorem follow_of_long (long : 2 < name.length) : Path.follow here name = name :: here := by
  refine Path.follow_of_plain here ?_ ?_ ?_ <;> (rintro rfl; exact absurd long (by decide))

/-- A path leads along one way to its last name, and to a sibling if that name is longer. -/
theorem exists_way (d : Disk) (path : String) :
    ∃ (way : List String) (last : String), ∀ letters : String, '/' ∉ letters.toList →
      d.place? (path ++ letters) =
        if Path.canFollow (path ++ letters) then
          (way.foldlM d.step? []).bind fun here => d.step? here (last ++ letters)
        else none := by
  obtain ⟨way, last, names⟩ := Path.exists_names_append path
  refine ⟨way, last, ?_⟩
  intro letters whole
  rw [place?, names letters whole, List.foldlM_append]
  simp [List.foldlM_cons]

/-- Letters that are added to a path end the name of the place to which it leads. -/
theorem exists_name_of_place? {letters : String} (whole : '/' ∉ letters.toList)
    (long : 2 < letters.length) (led : d.place? (path ++ letters) = some place) :
    ∃ here last, place = (last ++ letters) :: here := by
  obtain ⟨way, last, leads⟩ := exists_way d path
  rw [leads letters whole] at led
  split at led
  · obtain ⟨here, -, stepped⟩ := Option.bind_eq_some_iff.mp led
    obtain ⟨-, rfl⟩ := step?_eq_some_iff.mp stepped
    exact ⟨here, last, follow_of_long (by rw [String.length_append]; omega)⟩
  · cases led

/-- A path whose lock has a place is looked up in the directory in which its lock and its staging
file stand. -/
theorem exists_stem (led : d.place? (lockPath path) = some place) :
    ∃ here last, d.IsFounded here ∧ d.isDirectoryAt here = true ∧
      place = (last ++ ".lock") :: here ∧ d.place? path = some (Path.follow here last) ∧
      d.place? (stagingPath path) = some ((last ++ ".tmp") :: here) := by
  obtain ⟨way, last, leads⟩ := exists_way d path
  rw [lockPath, leads _ (by decide)] at led
  split at led
  case isFalse => cases led
  next follows =>
  obtain ⟨here, walked, stepped⟩ := Option.bind_eq_some_iff.mp led
  obtain ⟨directory, rfl⟩ := step?_eq_some_iff.mp stepped
  have founded : d.IsFounded here :=
    IsFounded.of_foldlM (fun name above inside => by simp at inside) walked
  have beside {letters : String} (whole : '/' ∉ letters.toList) (short : letters.utf8ByteSize ≤ 5)
      (noZero : Path.hasZero letters = false) :
      d.place? (path ++ letters) = some (Path.follow here (last ++ letters)) := by
    rw [leads _ whole, if_pos (canFollow_append follows short noZero), walked, Option.bind_some,
      step?_eq_some_iff]
    exact ⟨directory, rfl⟩
  have long {letters : String} (long : 2 < letters.length) :
      Path.follow here (last ++ letters) = (last ++ letters) :: here :=
    follow_of_long (by rw [String.length_append]; omega)
  refine ⟨here, last, founded, directory, long (by decide), ?_, ?_⟩
  · have plain := @beside "" (by decide) (by decide) (by decide)
    rwa [String.append_empty, String.append_empty] at plain
  · rw [stagingPath, beside (by decide) (by decide) (by decide), long (by decide)]

/-- Paths whose locks stand at one place lead to one place themselves. -/
theorem place?_eq_of_lockPath {other : String} (led : d.place? (lockPath path) = some place)
    (ledOther : d.place? (lockPath other) = some place) :
    ∃ file, d.place? path = some file ∧ d.place? other = some file := by
  obtain ⟨here, last, -, -, rfl, file, -⟩ := exists_stem led
  obtain ⟨there, name, -, -, same, fileOther, -⟩ := exists_stem ledOther
  obtain ⟨names, rfl⟩ := List.cons.inj same
  rw [String.append_left_inj] at names
  exact ⟨_, file, names ▸ fileOther⟩

/-- A staging file does not stand where a lock stands. -/
theorem stagingPath_ne_lockPath {other : String} (led : d.place? (lockPath path) = some place) :
    d.place? (stagingPath other) ≠ some place := by
  intro ledOther
  obtain ⟨here, last, rfl⟩ := exists_name_of_place? (by decide) (by decide) led
  obtain ⟨there, name, same⟩ := exists_name_of_place? (by decide) (by decide) ledOther
  have ends := congrArg (fun name => name.toList.getLast?) (List.cons.inj same).1
  simp at ends

/-- A path whose lock has a place leads to the file beside it, or to a directory. -/
theorem exists_beside (led : d.place? (lockPath path) = some place)
    (noDirectory : d.entry? path ≠ some .directory) :
    ∃ here name, place = (name ++ ".lock") :: here ∧ d.place? path = some (name :: here) ∧
      d.place? (stagingPath path) = some ((name ++ ".tmp") :: here) := by
  obtain ⟨here, last, founded, directory, rfl, file, staging⟩ := exists_stem led
  have down : Path.follow here last = last :: here := by
    apply Decidable.byContradiction
    intro notDown
    apply noDirectory
    rw [entry?_eq_entryAt? file, ← isDirectoryAt_iff]
    exact isDirectoryAt_follow founded directory notDown
  exact ⟨here, last, rfl, down ▸ file, staging⟩

/-- The path leads to a site if its lock has a place and the path is not that of a directory. -/
theorem exists_site (placed : d.target? (lockPath path) = some place)
    (noDirectory : d.entry? path ≠ some .directory) :
    ∃ here name, d.Site path here name ∧ place = (name ++ ".lock") :: here := by
  obtain ⟨led, admitted⟩ := Option.filter_eq_some_iff.mp placed
  obtain ⟨here, name, rfl, file, staging⟩ := exists_beside led noDirectory
  simp only [admitsTextAt, Path.canName, Bool.and_eq_true, decide_eq_true_eq] at admitted
  exact ⟨here, name, ⟨file, led, staging, admitted.1⟩, rfl⟩

/-! ## What stays as it was -/

theorem text_ne_directory (contents : String) : Entry.text contents ≠ .directory := by simp

/-- One disk became the other: outside some places all is as it was, and no directory was made or
removed anywhere. -/
structure AgreesExcept (places : List Place) (d e : Disk) : Prop where
  entries : ∀ place, place ∉ places → e.entryAt? place = d.entryAt? place
  directories : ∀ place, e.isDirectoryAt place = d.isDirectoryAt place
  attempts : e.attempts <:+ d.attempts
  process : e.process = d.process
  stamps : e.stamps = d.stamps

namespace AgreesExcept

variable {places more : List Place}

theorem refl (places : List Place) (d : Disk) : AgreesExcept places d d :=
  ⟨fun _ _ => rfl, fun _ => rfl, List.suffix_refl _, rfl, rfl⟩

theorem trans {c : Disk} (first : AgreesExcept places c d) (second : AgreesExcept more d e) :
    AgreesExcept (places ++ more) c e where
  entries place outside := by
    simp only [List.mem_append, not_or] at outside
    rw [second.entries place outside.2, first.entries place outside.1]
  directories place := by rw [second.directories, first.directories]
  attempts := second.attempts.trans first.attempts
  process := second.process.trans first.process
  stamps := second.stamps.trans first.stamps

theorem mono (agrees : AgreesExcept places d e) (wider : places ⊆ more) :
    AgreesExcept more d e :=
  { agrees with entries := fun place outside =>
      agrees.entries place fun inside => outside (wider inside) }

theorem place?_eq (agrees : AgreesExcept places d e) (path : String) :
    e.place? path = d.place? path := place?_congr agrees.directories path

theorem site (agrees : AgreesExcept places d e) (site : d.Site path here name) :
    e.Site path here name where
  file := (agrees.place?_eq _).trans site.file
  lock := (agrees.place?_eq _).trans site.lock
  staging := (agrees.place?_eq _).trans site.staging
  short := site.short

/-- What stands at a path whose place is not among those is the same. -/
theorem entry?_eq (agrees : AgreesExcept places d e) (led : d.place? path = some place)
    (outside : place ∉ places) : e.entry? path = d.entry? path := by
  rw [entry?_eq_entryAt? led, entry?_eq_entryAt? ((agrees.place?_eq path).trans led),
    agrees.entries place outside]

/-- Directories stand where they stood. -/
theorem entry?_directory_iff (agrees : AgreesExcept places d e) (path : String) :
    e.entry? path = some .directory ↔ d.entry? path = some .directory := by
  simp only [agrees.place?_eq, entry?, Option.bind_eq_some_iff, ← isDirectoryAt_iff,
    agrees.directories]

/-- The same stands at a path that leads to none of those places in which a file can stand. -/
theorem entry?_eq_of_outside (agrees : AgreesExcept places d e)
    (outside : ∀ place ∈ places, d.isDirectoryAt place = false → d.place? path ≠ some place) :
    e.entry? path = d.entry? path := by
  by_cases directory : d.entry? path = some .directory
  · rw [directory]
    exact (agrees.entry?_directory_iff path).mpr directory
  cases led : d.place? path with
  | none => simp [agrees.place?_eq, entry?, led]
  | some place =>
    apply agrees.entry?_eq led
    intro inside
    rw [entry?_eq_entryAt? led, ← isDirectoryAt_iff, Bool.not_eq_true] at directory
    exact outside place inside directory led

/-- A file replaces no directory. -/
theorem putAt {entry : Entry} (plain : entry ≠ .directory) (file : d.isDirectoryAt place = false) :
    AgreesExcept [place] d (d.putAt place entry) where
  entries other outside := by
    rw [entryAt?_putAt d other _ (ne_nil_of_isDirectoryAt file)]
    simp_all
  directories other := by
    rw [isDirectoryAt, entryAt?_putAt d other _ (ne_nil_of_isDirectoryAt file)]
    by_cases same : other = place
    · simp [same, file, plain]
    · simp [same, isDirectoryAt]
  attempts := List.suffix_refl _
  process := rfl
  stamps := rfl

theorem eraseAt (file : d.isDirectoryAt place = false) :
    AgreesExcept [place] d (d.eraseAt place) where
  entries other outside := by
    rw [entryAt?_eraseAt d other (ne_nil_of_isDirectoryAt file)]
    simp_all
  directories other := by
    rw [isDirectoryAt, entryAt?_eraseAt d other (ne_nil_of_isDirectoryAt file)]
    by_cases same : other = place
    · simp [same, file]
    · simp [same, isDirectoryAt]
  attempts := List.suffix_refl _
  process := rfl
  stamps := rfl

theorem nextAttempt (d : Disk) : AgreesExcept [] d d.nextAttempt.2 := by
  rw [Disk.nextAttempt]
  split
  · exact refl [] d
  · next attempt rest shape =>
    exact ⟨fun _ _ => rfl, fun _ => rfl, shape ▸ List.suffix_cons attempt rest, rfl, rfl⟩

end AgreesExcept

/-! ## Writing and renaming -/

theorem target?_eq_some_iff : d.target? path = some place ↔
    d.place? path = some place ∧ d.admitsTextAt place = true := by
  simp [target?, Option.filter_eq_some_iff]

theorem isDirectoryAt_of_admitsTextAt (admitted : d.admitsTextAt place = true) :
    d.isDirectoryAt place = false := by
  cases place with
  | nil => simp [admitsTextAt] at admitted
  | cons name here => simp_all [admitsTextAt]

/-- A write changes only the file it is made to, and a write that works leaves the text there. -/
theorem write_cases {contents : String} {works : Bool} (led : d.place? path = some place)
    (done : d.write path contents = (works, e)) :
    AgreesExcept [place] d e ∧ (works = true → e.entryAt? place = some (.text contents)) := by
  rw [write] at done
  cases target : d.target? path with
  | none =>
    simp only [target, Prod.mk.injEq] at done
    obtain ⟨rfl, rfl⟩ := done
    exact ⟨.refl _ d, by simp⟩
  | some there =>
    obtain ⟨same, admitted⟩ := target?_eq_some_iff.mp target
    obtain rfl : place = there := Option.some.inj (led.symm.trans same)
    have attempted := AgreesExcept.nextAttempt d
    have file : d.nextAttempt.2.isDirectoryAt place = false :=
      (attempted.directories place).trans (isDirectoryAt_of_admitsTextAt admitted)
    have put (contents : String) :
        AgreesExcept [place] d (d.nextAttempt.2.putAt place (.text contents)) :=
      attempted.trans (.putAt (text_ne_directory _) file)
    simp only [target] at done
    rcases shape : d.nextAttempt with ⟨attempt, c⟩
    rw [shape] at done put file attempted
    cases attempt with
    | works =>
      obtain ⟨rfl, rfl⟩ := Prod.mk.inj done
      refine ⟨put contents, ?_⟩
      intro _
      rw [entryAt?_putAt c place _ (ne_nil_of_isDirectoryAt file), if_pos rfl]
    | fails =>
      obtain ⟨rfl, rfl⟩ := Prod.mk.inj done
      exact ⟨attempted.trans (.refl [place] c), by simp⟩
    | tears written =>
      obtain ⟨rfl, rfl⟩ := Prod.mk.inj done
      exact ⟨put _, by simp⟩

theorem read?_eq_some_iff {contents : String} :
    d.read? path = some contents ↔ d.entry? path = some (.text contents) := by
  unfold read?
  split <;> simp_all

/-- A rename that fails changes nothing, and one that works moves the text. -/
theorem rename_cases {source target : String} {there : Place} {works : Bool}
    (ledSource : d.place? source = some here) (ledTarget : d.place? target = some there)
    (done : d.rename source target = (works, e)) :
    (works = false ∧ AgreesExcept [] d e) ∨
      works = true ∧ AgreesExcept [here, there] d e ∧ e.entryAt? there = d.entryAt? here := by
  simp only [rename, ledSource] at done
  cases text : d.read? source with
  | none =>
    simp only [text, Prod.mk.injEq] at done
    obtain ⟨rfl, rfl⟩ := done
    exact .inl ⟨rfl, .refl [] d⟩
  | some contents =>
  cases goal : d.target? target with
  | none =>
    simp only [text, goal, Prod.mk.injEq] at done
    obtain ⟨rfl, rfl⟩ := done
    exact .inl ⟨rfl, .refl [] d⟩
  | some place =>
  obtain ⟨same, admitted⟩ := target?_eq_some_iff.mp goal
  obtain rfl : there = place := Option.some.inj (ledTarget.symm.trans same)
  have held : d.entryAt? here = some (.text contents) := by
    rw [← entry?_eq_entryAt? ledSource]
    exact read?_eq_some_iff.mp text
  have attempted := AgreesExcept.nextAttempt d
  simp only [text, goal] at done
  rcases shape : d.nextAttempt with ⟨attempt, c⟩
  rw [shape] at done attempted
  cases attempt with
  | fails =>
    obtain ⟨rfl, rfl⟩ := Prod.mk.inj done
    exact .inl ⟨rfl, attempted⟩
  | tears written =>
    obtain ⟨rfl, rfl⟩ := Prod.mk.inj done
    exact .inl ⟨rfl, attempted⟩
  | works =>
    obtain ⟨rfl, rfl⟩ := Prod.mk.inj done
    have noDirectory : c.isDirectoryAt here = false := by
      rw [attempted.directories]
      simp [isDirectoryAt, held]
    have erased := AgreesExcept.eraseAt noDirectory
    have file : (c.eraseAt here).isDirectoryAt there = false := by
      rw [erased.directories, attempted.directories]
      exact isDirectoryAt_of_admitsTextAt admitted
    refine .inr ⟨rfl, attempted.trans (erased.trans (.putAt (text_ne_directory _) file)), ?_⟩
    rw [entryAt?_putAt _ there _ (ne_nil_of_isDirectoryAt file), if_pos rfl, held]

end Disk

end StateMachines
