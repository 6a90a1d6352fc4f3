/-! # Paths

A path is followed from the top of a disk, one name between slashes after the other. The empty name
and `.` stay, `..` goes up, and every other name goes down. So many paths lead to one place, and
what follows the last slash alone is changed when letters are added to a path. Names and paths have
a greatest length.
-/

namespace StateMachines

/-- A place on a disk: the names on the way down from the top, the last one first. -/
abbrev Place := List String

namespace Path

/-- The pieces of a text between its slashes; there is one more than there are slashes. -/
def pieces : List Char → List (List Char)
  | [] => [[]]
  | c :: rest => if c = '/' then [] :: pieces rest else (pieces rest).modifyHead (c :: ·)

/-- The names that a path goes along. -/
def names (path : String) : List String := (pieces path.toList).map String.ofList

/-- Where a name leads from a place. -/
def follow (here : Place) (name : String) : Place :=
  if name = "" ∨ name = "." then here
  else if name = ".." then here.tail
  else name :: here

/-- There is a zero in the path, which no file's name has. -/
def hasZero (path : String) : Bool := path.toList.contains '\x00'

/-- A path can be followed: its encoding has at most 4095 bytes, and none of them is zero. -/
def canFollow (path : String) : Bool := path.utf8ByteSize ≤ 4095 && !hasZero path

/-- A file can have the name: its encoding has at most 255 bytes. -/
def canName (name : String) : Bool := name.utf8ByteSize ≤ 255

/-- The path that is meant by a path which is read in a directory: from the top if it begins with a
slash, else from the directory. -/
def within (directory path : String) : String :=
  if path.toList.head? = some '/' then path else directory ++ "/" ++ path

/-! ## Letters added to a path -/

/-- Letters without a slash that are added to a text belong to its last piece. -/
theorem exists_pieces_append (cs : List Char) :
    ∃ way last, ∀ letters, '/' ∉ letters → pieces (cs ++ letters) = way ++ [last ++ letters] := by
  induction cs with
  | nil =>
    refine ⟨[], [], fun letters whole => ?_⟩
    induction letters with
    | nil => rfl
    | cons c rest ih =>
      simp only [List.mem_cons, not_or] at whole
      simpa [pieces, Ne.symm whole.1] using congrArg (List.modifyHead (c :: ·)) (ih whole.2)
  | cons c rest ih =>
    obtain ⟨way, last, split⟩ := ih
    by_cases slash : c = '/'
    · exact ⟨[] :: way, last, fun letters whole => by simp [pieces, slash, split letters whole]⟩
    · cases way with
      | nil =>
        exact ⟨[], c :: last, fun letters whole => by simp [pieces, slash, split letters whole]⟩
      | cons first way =>
        exact ⟨(c :: first) :: way, last,
          fun letters whole => by simp [pieces, slash, split letters whole]⟩

/-- Letters without a slash that are added to a path belong to its last name. -/
theorem exists_names_append (path : String) :
    ∃ way last, ∀ letters : String, '/' ∉ letters.toList →
      names (path ++ letters) = way ++ [last ++ letters] := by
  obtain ⟨way, last, split⟩ := exists_pieces_append path.toList
  refine ⟨way.map String.ofList, String.ofList last, fun letters whole => ?_⟩
  simp [names, split letters.toList whole]

/-- A name that is not one of the three that have a meaning goes down. -/
theorem follow_of_plain {name : String} (here : Place) (filled : name ≠ "") (moves : name ≠ ".")
    (notUp : name ≠ "..") : follow here name = name :: here := by
  simp [follow, filled, moves, notUp]

end Path

/-! ## Files beside a path -/

/-- The path of the lock that stands for a path being in use. -/
def lockPath (path : String) : String := path ++ ".lock"

/-- The path at which a snapshot is written before it is moved into place. -/
def stagingPath (path : String) : String := path ++ ".tmp"

end StateMachines
