/-!
# Files by path

A request may be kept in a file, which is found by a **path**: the names of directories from
the root or from the working directory on, between slashes, and the name of the file. The path
is followed name by name, and the first name that cannot be followed decides why the file is
not read.

A **trail** is where one has come to on the way: a node of the tree and the directories above
it, innermost first. It is what `..` goes back along.
-/

namespace CurvePlot

/-- Why a file was not read. -/
inductive ReadError where
  | notFound
  | permissionDenied
  /-- A file stands where a directory has to be. -/
  | notDirectory
  /-- A directory stands where a file has to be. -/
  | isDirectory
  /-- The path or a name in it is longer than a system takes. -/
  | nameTooLong
  /-- The bytes of the file are no text. -/
  | notText
  /-- Any other reason, in the words of the system. -/
  | other (words : String)
deriving Repr, DecidableEq

/-- The wording of a read error, with the number that the system gives to it. -/
def ReadError.message : ReadError → String
  | notFound => "No such file or directory (os error 2)"
  | permissionDenied => "Permission denied (os error 13)"
  | notDirectory => "Not a directory (os error 20)"
  | isDirectory => "Is a directory (os error 21)"
  | nameTooLong => "File name too long (os error 36)"
  | notText => "stream did not contain valid UTF-8"
  | other words => words

/-- A file with its text, or a directory with its entries by name. -/
inductive FileTree where
  | file (content : String)
  | directory (entries : List (String × FileTree))

namespace FileTree

/-- The greatest size of a name in bytes. -/
def maxNameBytes : Nat := 255

/-- The greatest size of a path in bytes. -/
def maxPathBytes : Nat := 4095

/-- A node and the directories above it, innermost first. -/
structure Trail where
  node : FileTree
  above : List FileTree

namespace Trail

/-- The directory above; the root is above itself. -/
def back (t : Trail) : Trail :=
  match t.above with
  | [] => t
  | parent :: above => ⟨parent, above⟩

/-- Follow one name of a path. An empty name and a single dot stay where they are, and only a
directory has names to follow. -/
def follow (t : Trail) (name : String) : Except ReadError Trail :=
  match t.node with
  | file _ => .error .notDirectory
  | directory entries =>
    if name = "" ∨ name = "." then
      .ok t
    else if name = ".." then
      .ok t.back
    else if maxNameBytes < name.utf8ByteSize then
      .error .nameTooLong
    else
      match entries.lookup name with
      | none => .error .notFound
      | some node => .ok ⟨node, t.node :: t.above⟩

/-- Follow the names of a path one after the other. -/
def followAll (t : Trail) (names : List String) : Except ReadError Trail :=
  names.foldlM follow t

/-- The text of the file where a trail has come to. -/
def content (t : Trail) : Except ReadError String :=
  match t.node with
  | file text => .ok text
  | directory _ => .error .isDirectory

end Trail

/-- **Read** the file of a path. A path that begins with a slash starts at the root of the
tree, any other at the working directory, which is given by its names. -/
def read (root : FileTree) (working : List String) (path : String) : Except ReadError String := do
  if path = "" then
    throw .notFound
  if maxPathBytes < path.utf8ByteSize then
    throw .nameTooLong
  let names := path.splitOn "/"
  let start := if path.startsWith "/" then [] else working
  let t ← Trail.followAll ⟨root, []⟩ (start ++ names)
  t.content

end FileTree

end CurvePlot
