import MipsPipeline.Files.Basic
import MipsPipeline.Text.Piece

/-
Files in a tree of directories, and the paths that lead to them. A place is written from the inside
out: the directory that holds it is its tail, and the root, the empty place, holds itself.
-/
namespace MipsPipeline

abbrev Place : Type := List String

inductive Entry where
  | file (contents : List UInt8)
  | directory
  deriving DecidableEq, Repr

/-- The files of a tree, and directories that are there even if no file is in them. -/
structure FileTree where
  files : List (Place × List UInt8)
  directories : List Place
  deriving DecidableEq, Repr

namespace FileTree

/-- The bytes of the longest name that a directory takes. -/
def nameLimit : Nat := 255

/-- The bytes that a path has to stay below. -/
def pathLimit : Nat := 4096

/-- A place is a directory if a file or another directory stands in or below it. -/
def IsDirectory (t : FileTree) (place : Place) : Prop :=
  place = [] ∨ ∃ known ∈ t.files.map (·.1.tail) ++ t.directories, place.isSuffixOf known

instance (t : FileTree) (place : Place) : Decidable (t.IsDirectory place) :=
  inferInstanceAs (Decidable (_ ∨ _))

def entry? (t : FileTree) (place : Place) : Option Entry :=
  match t.files.lookup place with
  | some contents => some (.file contents)
  | none => if t.IsDirectory place then some .directory else none

/-- A path is cut at its slashes. -/
def components (path : String) : List String :=
  (Text.fields (· = '/') path.toList).map String.ofList

/-- Components that lead nowhere else: nothing between two slashes, or a dot. -/
def Stays (component : String) : Prop := component = "" ∨ component = "."

instance (component : String) : Decidable (Stays component) :=
  inferInstanceAs (Decidable (_ ∨ _))

/-- Where a component of a path leads. Whether something is there shows at the next component. -/
def follow (t : FileTree) (place : Place) (component : String) : Except SystemError Place :=
  match t.entry? place with
  | none => .error .missing
  | some (.file _) => .error .notDirectory
  | some .directory =>
    if Stays component then .ok place
    else if component = ".." then .ok place.tail
    else if nameLimit < component.utf8ByteSize then .error .nameTooLong
    else .ok (component :: place)

/-- Where a path leads that is followed from a directory, or from the root if a slash opens it. -/
def resolve (t : FileTree) (directory : Place) (path : String) : Except SystemError Place :=
  if path = "" then .error .missing
  else if pathLimit ≤ path.utf8ByteSize then .error .nameTooLong
  else (components path).foldlM t.follow (if path.startsWith "/" then [] else directory)

def read (t : FileTree) (directory : Place) (path : String) :
    Except SystemError (List UInt8) := do
  match t.entry? (← t.resolve directory path) with
  | none => .error .missing
  | some .directory => .error .isDirectory
  | some (.file contents) => .ok contents

/-- The files that a program finds when it works in a directory of the tree. -/
def seenFrom (t : FileTree) (directory : Place) : Files := fun path =>
  (t.read directory path).mapError .system

/-- The tree with some more files below a directory, under relative paths without double dots. -/
def within (t : FileTree) (directory : Place) (files : List (String × List UInt8)) : FileTree where
  files := files.map (fun (path, contents) =>
    ((components path).foldl (fun place c => if Stays c then place else c :: place) directory,
      contents)) ++ t.files
  directories := directory :: t.directories

/-- What is there before any file of a user: devices that hold nothing to read, and the usual
directories. -/
def standard : FileTree where
  files := [(["null", "dev"], []), (["stdin", "dev"], [])]
  directories := [
    ["bin"], ["boot"], ["fd", "dev"], ["pts", "dev"], ["shm", "dev"], ["etc"], ["home"], ["lib"],
    ["media"], ["mnt"], ["opt"], ["proc"], ["root"], ["run"], ["sbin"], ["srv"], ["sys"], ["tmp"],
    ["bin", "usr"], ["lib", "usr"], ["local", "usr"], ["share", "usr"], ["tmp", "var"]]

theorem isDirectory_root (t : FileTree) : t.IsDirectory [] := .inl rfl

theorem isDirectory_tail {t : FileTree} {place : Place} (h : t.IsDirectory place) :
    t.IsDirectory place.tail := by
  rcases h with rfl | ⟨known, mem, below⟩
  · exact isDirectory_root t
  · have deeper := List.isSuffixOf_iff_suffix.mp below
    exact .inr ⟨known, mem, List.isSuffixOf_iff_suffix.mpr ((List.tail_suffix place).trans deeper)⟩

/-- What holds a file is a directory. -/
theorem isDirectory_of_file {t : FileTree} {place : Place} {contents : List UInt8}
    (h : (place, contents) ∈ t.files) : t.IsDirectory place.tail := by
  have known : place.tail ∈ t.files.map (·.1.tail) := List.mem_map.mpr ⟨_, h, rfl⟩
  exact .inr ⟨place.tail, List.mem_append_left _ known,
    List.isSuffixOf_iff_suffix.mpr List.suffix_rfl⟩

end FileTree

end MipsPipeline
