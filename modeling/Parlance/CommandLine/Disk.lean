/-!
# Files as data

A disk is a tree of directories with files in it: every file has its parts, the names on the way
from the root to it.  One of the directories is the working directory.  Directories exist as far as
files and the working directory need them.

A path is looked up one part after the other, from the root if it begins with a slash and from the
working directory if not.  Above the root is the root again.
-/

namespace Parlance.CommandLine

/-- What a path leads to: a file, a directory, or nothing for one of several reasons. -/
inductive Entry
  | file (text : String)
  | directory
  | missing
  | throughFile
  | nameTooLong
  | nameBroken
  deriving DecidableEq, Repr

/-- A path: what it starts from, and its parts. -/
structure Path where
  root : String
  parts : List String
  deriving DecidableEq, Repr

namespace Path

/-- The start of a path: two leading slashes are kept apart from one or from three and more. -/
def rootOf : List Char → String
  | '/' :: '/' :: '/' :: _ => "/"
  | '/' :: '/' :: _ => "//"
  | '/' :: _ => "/"
  | _ => ""

/-- What stands between slashes, after the part that has been begun. -/
def splitOnto (current : List Char) : List Char → List String
  | [] => [String.ofList current.reverse]
  | '/' :: cs => String.ofList current.reverse :: splitOnto [] cs
  | c :: cs => splitOnto (c :: current) cs

/-- The part says only that it stands in a directory. -/
def isIdle (part : String) : Bool :=
  part == "" || part == "."

/-- A part has at most 255 bytes. -/
def isTooLong (part : String) : Bool :=
  255 < part.utf8ByteSize

/-- A path as it is written.  An idle part still asks for a directory before it. -/
def ofText (text : String) : Path :=
  ⟨rootOf text.toList, splitOnto [] text.toList⟩

/-- The path without its idle parts. -/
def normalize (path : Path) : Path :=
  { path with parts := path.parts.filter (!isIdle ·) }

/-- The text of a path without idle parts. -/
def text (path : Path) : String :=
  if path.root.isEmpty && path.parts.isEmpty then "."
  else path.root ++ "/".intercalate path.parts

/-- The path with something appended to its last part. -/
def extend (path : Path) (ending : String) : Path :=
  match path.parts.getLast? with
  | some last => ⟨path.root, path.parts.dropLast ++ [last ++ ending]⟩
  | none => path

end Path

/-- The files of a disk, each under its parts, and the working directory. -/
structure Disk where
  files : List (List String × String) := []
  here : List String := []

namespace Disk

/-- What stands at a place. -/
def entry (disk : Disk) (place : List String) : Entry :=
  match disk.files.find? fun f => f.1 == place with
  | some (_, text) => .file text
  | none =>
    if place.isPrefixOf disk.here || disk.files.any fun f => place.isPrefixOf f.1 then .directory
    else .missing

/-- Walks along the parts of a path, and says where it has come to. -/
def walk (disk : Disk) : List String → List String → Entry × List String
  | place, [] => (disk.entry place, place)
  | place, part :: rest =>
    match disk.entry place with
    | .directory =>
      if Path.isIdle part then disk.walk place rest
      else if part = ".." then disk.walk place.dropLast rest
      else if Path.isTooLong part then (.nameTooLong, place)
      else
        match disk.entry (place ++ [part]) with
        | .missing => (.missing, place ++ [part] ++ rest)
        | _ => disk.walk (place ++ [part]) rest
    | .file _ => (.throughFile, place)
    | _ => (.missing, place)

/-- The place where the walk along a path starts. -/
def start (disk : Disk) (path : Path) : List String :=
  if path.root.isEmpty then disk.here else []

/-- What a path leads to.  A path has at most 4095 bytes, and none of them is zero. -/
def look (disk : Disk) (text : String) : Entry :=
  if text.toList.contains '\x00' then .nameBroken
  else if 4095 < text.utf8ByteSize then .nameTooLong
  else
    let path := Path.ofText text
    (disk.walk (disk.start path) path.parts).1

/-- Puts a file at a place. -/
def put (disk : Disk) (place : List String) (text : String) : Disk :=
  if disk.files.any fun f => f.1 == place then
    { disk with files := disk.files.map fun f => if f.1 = place then (place, text) else f }
  else { disk with files := disk.files ++ [(place, text)] }

/-- Writes a file. -/
def write (disk : Disk) (name text : String) : Disk :=
  let path := Path.ofText name
  disk.put (disk.walk (disk.start path) path.parts).2 text

/-- The disk with the given files in its working directory. -/
def ofFiles (here : List String) (files : List (String × String)) : Disk :=
  files.foldl (fun disk (name, text) => disk.put (here ++ (Path.ofText name).normalize.parts) text)
    { here }

end Disk

end Parlance.CommandLine
