import AppCore.Base.Disk

/-!
# Path text

How text names a path below a directory: `Path::components` on Unix, and the slash-separated
form a relative path is stored in.
-/

namespace AppCore

/-- `std::path::Component`, on Unix. -/
inductive Component where
  | rootDir
  | curDir
  | parentDir
  | normal (name : String)
  deriving DecidableEq, Repr

/-- The component of one segment between slashes; empty and `.` segments have none. -/
def component? (segment : List Char) : Option Component :=
  if segment = [] ∨ segment = ['.'] then none
  else if segment = ['.', '.'] then some .parentDir
  else some (.normal (String.ofList segment))

def isAbsolute (s : String) : Bool := s.toList.head? == some '/'

/-- `Path::components`: a leading slash or a leading `.` is a component of its own. -/
def components (s : String) : List Component :=
  let segments := s.toList.splitOn '/'
  let first := if isAbsolute s then [.rootDir]
    else if segments.head? = some ['.'] then [.curDir] else []
  first ++ segments.filterMap component?

/-- Names joined with slashes. -/
def joinPath (p : Path) : String := String.ofList (['/'].intercalate (p.map String.toList))

def display (p : Path) : String := "/" ++ joinPath p

/-- `Path::parent`, and the path itself for the root. -/
abbrev parentPath (p : Path) : Path := p.dropLast

def withFileName (p : Path) (name : String) : Path := p.dropLast ++ [name]

theorem isName_iff {s : String} : isName s = true ↔
    s.toList ≠ [] ∧ s.toList ≠ ['.'] ∧ s.toList ≠ ['.', '.'] ∧ '/' ∉ s.toList ∧
      Char.ofNat 0 ∉ s.toList := by
  simp [isName, and_assoc]

end AppCore
