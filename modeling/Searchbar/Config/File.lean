import Searchbar.Config.Toml
import Searchbar.Config.Yaml

/-!
# Schema files

A schema is declared in a file whose extension names the format. The format is decided before the
file is looked at. How a file is read is left open: `Reading` is any way to get the bytes at a
path, and `FileTree` is one, a directory with what it holds.

* `loadSchema` gives the schema of a file, or the reason why there is none.
-/

namespace Searchbar

namespace Format

/-- The declaration that a text of the format holds. -/
def declaration? : Format → String → Option SchemaConfig
  | yaml, text => SchemaConfig.ofYaml? text
  | toml, text => SchemaConfig.ofToml? text

/-- **The schema that a text of the format declares.** -/
def schema (format : Format) (firstId : Nat) (text : String) : Except ConfigError Schema :=
  match format.declaration? text with
  | some config => config.build firstId
  | none => .error (.malformed format)

/-- The format that an extension names, in any case of letters. -/
def ofExtension? (extension : String) : Option Format :=
  let name := String.ofList (extension.toList.map Char.toLower)
  if name = "yaml" || name = "yml" then some yaml
  else if name = "toml" then some toml
  else none

end Format

/-! ### Paths -/

/-- The pieces of a path between its slashes. -/
def pathPieces (path : String) : List String :=
  (path.toList.splitOn '/').map String.ofList

/-- The name of the file at a path: the last piece that says something, unless it leads up. -/
def fileName? (path : String) : Option String :=
  match ((pathPieces path).filter fun piece => !piece.isEmpty && piece ≠ ".").getLast? with
  | some ".." => none
  | name => name

/-- The extension of a file name: what follows its last dot, unless that dot is its first
character. -/
def extension? (name : String) : Option String :=
  let after := name.toList.reverse.takeWhile (· ≠ '.')
  if after.length + 1 < name.toList.length then some (String.ofList after.reverse) else none

/-! ### Reading -/

/-- **A way to read files**: the bytes at a path, or why there are none. -/
abbrev Reading := String → Except ReadFailure ByteArray

/-- **The schema of a file.** -/
def loadSchema (read : Reading) (firstId : Nat) (path : String) : Except ConfigError Schema :=
  match ((fileName? path).bind extension?).bind Format.ofExtension? with
  | none => .error (.unsupportedFormat path)
  | some format =>
    match read path with
    | .error failure => .error (.unreadable path failure)
    | .ok bytes =>
      match String.fromUTF8? bytes with
      | some text => format.schema firstId text
      | none => .error (.unreadable path .notText)

/-! ### Directories -/

/-- One step of a path from a place: an empty piece and a dot stay, and two dots lead up, out of the
directory too. -/
def stepFrom (place : List String) (piece : String) : List String :=
  if piece.isEmpty || piece = "." then place
  else if piece = ".." then
    if place.all (· = "..") then place ++ [".."] else place.dropLast
  else place ++ [piece]

/-- The places that a path comes by from a place on, and the one that it ends at. -/
def waypoints (place : List String) : List String → List (List String) × List String
  | [] => ([], place)
  | piece :: rest =>
    let (way, last) := waypoints (stepFrom place piece) rest
    (place :: way, last)

/-- **A directory with what it holds**: files and directories, each under the pieces of its path. A
directory is also there if something lies in it. -/
structure FileTree where
  files : List (List String × ByteArray) := []
  directories : List (List String) := []

namespace FileTree

/-- The tree with a file at a path. The directories on the way are there then. -/
def addFile (t : FileTree) (path : String) (bytes : ByteArray) : FileTree :=
  let (way, place) := waypoints [] (pathPieces path)
  ⟨(place, bytes) :: t.files, way ++ t.directories⟩

/-- The tree with a directory at a path. -/
def addDirectory (t : FileTree) (path : String) : FileTree :=
  let (way, place) := waypoints [] (pathPieces path)
  { t with directories := place :: way ++ t.directories }

/-- The bytes of the file at a place. -/
def file? (t : FileTree) (place : List String) : Option ByteArray := t.files.lookup place

/-- Whether there is a directory at a place. -/
def isDirectory (t : FileTree) (place : List String) : Bool :=
  place.all (· = "..") || t.directories.any fun d => place.isPrefixOf d

/-- The bytes at the end of a path, from a place on. Every step has to start in a directory. No name
has more than 255 bytes. -/
def readFrom (t : FileTree) : List String → List String → Except ReadFailure ByteArray
  | place, [] =>
    match t.file? place with
    | some bytes => .ok bytes
    | none => if t.isDirectory place then .error .isDirectory else .error .notFound
  | place, piece :: rest =>
    if t.isDirectory place then
      if 255 < piece.utf8ByteSize then .error .nameTooLong
      else readFrom t (stepFrom place piece) rest
    else if (t.file? place).isSome then .error .notDirectory
    else .error .notFound

/-- Reading below the directory. Of what lies outside of it nothing is known but what has been added.
A path has less than 4096 bytes, none of which is NUL. -/
def read (t : FileTree) : Reading := fun path =>
  if path.toList.contains '\x00' then .error .nameWithNul
  else if 4096 ≤ path.utf8ByteSize then .error .nameTooLong
  else if path.isEmpty || path.toList.head? = some '/' then .error .notFound
  else t.readFrom [] (pathPieces path)

end FileTree

end Searchbar
