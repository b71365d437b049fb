import SumCalc.Text.Quoted

/-!
# Paths and file trees

A path is a list of names, with the slashes at its front kept apart. A file tree holds files and
directories below one directory, in which paths begin; outside it there are directories only.
`FileTree.read` finds the file of a path or says why there is none.
-/

namespace SumCalc.CommandLine

/-- A path without empty names and single dots. -/
structure Path where
  /-- No slash, one, or exactly two. -/
  root : String
  names : List String
deriving DecidableEq, Repr

namespace Path

/-- The path that a text denotes. -/
def ofString (text : String) : Path where
  root :=
    match text.toList with
    | '/' :: '/' :: '/' :: _ => "/"
    | '/' :: '/' :: _ => "//"
    | '/' :: _ => "/"
    | _ => ""
  names :=
    ((text.toList.splitOnP (· = '/')).map String.ofList).filter fun name => name ≠ "" && name ≠ "."

/-- The text of a path; a single dot for the empty one. -/
def text (path : Path) : String :=
  if path.root = "" && path.names.isEmpty then "."
  else path.root ++ "/".intercalate path.names

end Path

/-- Why a file cannot be read, with the number that goes with the reason. -/
structure FileFault where
  number : Nat
  reason : String
deriving DecidableEq, Repr

namespace FileFault

def notFound : FileFault := ⟨2, "No such file or directory"⟩

def notDirectory : FileFault := ⟨20, "Not a directory"⟩

def isDirectory : FileFault := ⟨21, "Is a directory"⟩

def nameTooLong : FileFault := ⟨36, "File name too long"⟩

/-- The fault of a path in messages. -/
def message (fault : FileFault) (path : Path) : String :=
  "[Errno " ++ toString fault.number ++ "] " ++ fault.reason ++ ": " ++ Text.quote path.text

end FileFault

/-- What stands at a place in a file tree. -/
inductive Entry
  | directory
  | file (content : ByteArray)

/-- Files and directories by the names that lead to them. The directories on the way to an entry
need no entries of their own. -/
structure FileTree where
  entries : List (List String × Entry)

namespace FileTree

/-- What stands where some names lead. -/
def entry? (tree : FileTree) (names : List String) : Option Entry :=
  if names.isEmpty then some .directory
  else
    match tree.entries.lookup names with
    | some entry => some entry
    | none =>
        if tree.entries.any fun entry => names.isPrefixOf entry.1 then some .directory else none

/-- Bytes that a name may have. -/
def nameLimit : Nat := 255

/-- Bytes that a path may have. -/
def pathLimit : Nat := 4095

/-- Follows names from a directory. It is given by the names that lead to it, the last one first,
or by nothing when it lies outside the tree. -/
def follow (tree : FileTree) : Option (List String) → List String → Except FileFault ByteArray
  | _, [] => .error .isDirectory
  | here, ".." :: rest =>
      match here with
      | some (_ :: above) => tree.follow (some above) rest
      | _ => tree.follow none rest
  | here, name :: rest =>
      if nameLimit < name.utf8ByteSize then .error .nameTooLong
      else
        match here with
        | none => .error .notFound
        | some above =>
            match tree.entry? (name :: above).reverse with
            | none => .error .notFound
            | some .directory => tree.follow (some (name :: above)) rest
            | some (.file content) =>
                if rest.isEmpty then .ok content else .error .notDirectory

/-- The content of the file at a path. -/
def read (tree : FileTree) (path : Path) : Except FileFault ByteArray :=
  if pathLimit < path.text.utf8ByteSize then .error .nameTooLong
  else tree.follow (if path.root = "" then some [] else none) path.names

end FileTree

end SumCalc.CommandLine
