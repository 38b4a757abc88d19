import DynScript.Text.Lines

/-!
# Files

The files that scripts can reach: a tree of directories, kept as the list of its entries by their
paths from the working directory.  A file holds text, or bytes that are no text.
-/

namespace DynScript

/-- What a file holds. -/
inductive FileContent where
  | text (s : String)
  | bytes (b : List UInt8)
  deriving DecidableEq, Repr, Inhabited

/-- A file or a directory. -/
inductive FileEntry where
  | file (content : FileContent)
  | directory
  deriving DecidableEq, Repr, Inhabited

/-- Why a file cannot be read or written. -/
inductive FileError where
  | missing
  | notDirectory
  | isDirectory
  | notText
  | invalidPath
  | nameTooLong
  deriving DecidableEq, Repr, Inhabited

/-- The entries by the names that lead to them from the working directory.  What lies outside of it
is reached by names that start with `..` or with `/`, the root of all files. -/
structure Files where
  entries : List (List String × FileEntry) := []
  deriving DecidableEq, Repr, Inhabited

/-- A path as it is written: where it starts, the directories it leads through, its last name, and
whether a slash follows that name. -/
structure Route where
  start : List String
  through : List String
  last : String
  closed : Bool
  deriving DecidableEq, Repr, Inhabited

/-- Reads a path; several slashes in a row count as one. -/
def Route.ofString (s : String) : Route :=
  let names := (s.splitOn "/").filter (!·.isEmpty)
  { start := if s.startsWith "/" then ["/"] else []
    through := names.dropLast
    last := names.getLastD "."
    closed := s.endsWith "/" }

namespace Files

/-- Whether names lead to the working directory, one around it or the root: they always exist. -/
def isAnchor (names : List String) : Bool :=
  names = ["/"] || names.all (· = "..")

/-- The directory around a directory; the root is its own. -/
def parent (names : List String) : List String :=
  if names = ["/"] then names
  else if isAnchor names then names ++ [".."]
  else names.dropLast

/-- The entry under a path. -/
def entry? (fs : Files) (names : List String) : Option FileEntry :=
  if isAnchor names then some .directory else fs.entries.lookup names

/-- Puts an entry at its names, in place of an earlier one. -/
def put (fs : Files) (names : List String) (entry : FileEntry) : Files :=
  if (fs.entries.lookup names).isSome then
    ⟨fs.entries.map fun e => if e.1 = names then (names, entry) else e⟩
  else ⟨fs.entries ++ [(names, entry)]⟩

/-- The longest name of an entry and the longest path, in bytes. -/
def nameLimit : Nat := 255

@[inherit_doc nameLimit]
def pathLimit : Nat := 4096

/-- Enters a directory. -/
def enter (fs : Files) (directory : List String) (name : String) :
    Except FileError (List String) :=
  if name = "." then .ok directory
  else if name = ".." then .ok (parent directory)
  else if nameLimit < name.utf8ByteSize then .error .nameTooLong
  else match fs.entry? (directory ++ [name]) with
    | some .directory => .ok (directory ++ [name])
    | some (.file _) => .error .notDirectory
    | none => .error .missing

/-- The route that a path spells, and the directory that its last name stands in. -/
def resolve (fs : Files) (path : String) : Except FileError (Route × List String) :=
  if path.contains '\x00' then .error .invalidPath
  else if path.isEmpty then .error .missing
  else if pathLimit ≤ path.utf8ByteSize then .error .nameTooLong
  else
    let r := Route.ofString path
    (r.through.foldlM fs.enter r.start).map (r, ·)

/-- Whether a name leads to the directory it stands in or to the one around it. -/
def isDirectoryName (name : String) : Bool :=
  name = "." || name = ".."

/-- The text of a file, its line breaks unified. -/
def read (fs : Files) (path : String) : Except FileError String := do
  let (r, directory) ← fs.resolve path
  if isDirectoryName r.last then .error .isDirectory
  else if nameLimit < r.last.utf8ByteSize then .error .nameTooLong
  else match fs.entry? (directory ++ [r.last]) with
    | none => .error .missing
    | some .directory => .error .isDirectory
    | some (.file content) =>
      if r.closed then .error .notDirectory
      else match content with
        | .bytes _ => .error .notText
        | .text s => .ok (Text.withLineFeeds s)

/-- The names of the file that a text written to a path goes to. -/
def target (fs : Files) (path : String) : Except FileError (List String) := do
  let (r, directory) ← fs.resolve path
  if r.closed || isDirectoryName r.last then .error .isDirectory
  else if nameLimit < r.last.utf8ByteSize then .error .nameTooLong
  else if fs.entry? (directory ++ [r.last]) = some .directory then .error .isDirectory
  else .ok (directory ++ [r.last])

/-- Writes a text to a file, in place of what it held. -/
def write (fs : Files) (path : String) (s : String) : Except FileError Files := do
  return fs.put (← fs.target path) (.file (.text s))

/-- The files in the working directory and below, by their paths, in alphabetical order. -/
def listing (fs : Files) : List (String × FileContent) :=
  let files := fs.entries.filterMap fun (names, entry) =>
    match entry with
    | .file content =>
      if names.head? = some "/" || names.head? = some ".." then none
      else some ("/".intercalate names, content)
    | .directory => none
  files.mergeSort fun a b => a.1 ≤ b.1

/-- Makes directories. -/
def addDirectory (fs : Files) (names : List String) : Files :=
  let all := (List.range names.length).map fun i => names.take (i + 1)
  (all.filter (!isAnchor ·)).foldl (fun fs d => fs.put d .directory) fs

/-- The directory that one name leads to, whether or not there is one. -/
def follow (directory : List String) (name : String) : List String :=
  if name = "." then directory
  else if name = ".." then parent directory
  else directory ++ [name]

/-- Adds a file with its directories; a path that ends with a slash adds a directory. -/
def add (fs : Files) (path : String) (content : FileContent) : Files :=
  let r := Route.ofString path
  let directory := r.through.foldl follow r.start
  if r.closed || isDirectoryName r.last then fs.addDirectory (follow directory r.last)
  else (fs.addDirectory directory).put (directory ++ [r.last]) (.file content)

end Files

end DynScript
