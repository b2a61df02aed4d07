import GameText.Bytes.Utf8
import GameText.Text.Scan

/-!
# Files and folders

A small tree of files and folders around a working folder. A path is followed step by step: empty
steps and single points do not count, two points lead one folder up, and every step but the last
must lead into a folder that is there. An empty path leads nowhere. A file can be made only in a
folder that is there.
-/

namespace GameText

namespace FilePath

/-- The part of a path after its last slash. -/
def baseName (path : Text) : Text := (path.reverse.takeWhile (· != '/')).reverse

/-- The part of a path before its last slash, without slashes at its end unless it has nothing
else. -/
def folderName (path : Text) : Text :=
  let head := path.take (path.length - (baseName path).length)
  if head.all (· == '/') then head else (head.reverse.dropWhile (· == '/')).reverse

/-- A path below a folder. A path that begins with a slash stands for itself. -/
def join (folder path : Text) : Text :=
  if path.head? == some '/' then path
  else if folder.isEmpty || folder.getLast? == some '/' then folder ++ path
  else folder ++ '/' :: path

/-- The steps of a path, the last of which is given in reverse so far. -/
def stepsFrom (soFar : Text) : Text → List Text
  | [] => [soFar.reverse]
  | c :: cs => if c = '/' then soFar.reverse :: stepsFrom [] cs else stepsFrom (c :: soFar) cs

/-- The step that leads one folder up. -/
def upStep : Text := ['.', '.']

/-- The place of the folder that holds everything. -/
def root : List Text := [['/']]

/-- Where a path begins: in the working folder, or with a slash at its head in the root. -/
def start (path : Text) : List Text := if path.head? == some '/' then root else []

/-- The place one folder up. Above the root there is nothing, and places above the working folder
are counted in steps up. -/
def up (place : List Text) : List Text :=
  if place = root then root
  else
    match place.getLast? with
    | none => [upStep]
    | some step => if step = upStep then place ++ [upStep] else place.dropLast

/-- The step stays where it is. -/
def isIdle (step : Text) : Bool := step.isEmpty || step == ['.']

/-- One step further from a place. -/
def walk (place : List Text) (step : Text) : List Text :=
  if isIdle step then place else if step = upStep then up place else place ++ [step]

/-- The place that a path names, as the names on the way to it, if every folder on the way is
there. -/
def place (path : Text) : List Text := (stepsFrom [] path).foldl walk (start path)

/-- The greatest size of a name in bytes. -/
def maxNameSize : Nat := 255

end FilePath

/-- Why a file operation fails. -/
inductive FileFault where
  | missing
  | exists
  | notFolder
  | isFolder
  | longName
deriving DecidableEq, Repr

/-- A failed file operation with the path that it was given. -/
structure FileError where
  fault : FileFault
  path : Text
deriving DecidableEq, Repr

/-- The words for a failure. -/
def FileError.message (e : FileError) : Text :=
  let words : Text := match e.fault with
    | .missing => "[Errno 2] No such file or directory: "
    | .exists => "[Errno 17] File exists: "
    | .notFolder => "[Errno 20] Not a directory: "
    | .isFolder => "[Errno 21] Is a directory: "
    | .longName => "[Errno 36] File name too long: "
  words ++ Json.displayString e.path

/-- Files by their places, and folders that were made. -/
structure Disk where
  files : List (List Text × Bytes) := []
  folders : List (List Text) := []

namespace Disk

/-- The place is a file. -/
def isFile (d : Disk) (place : List Text) : Bool := (lookup? place d.files).isSome

/-- The place is a folder: the working folder, one above it, the root, or one that was made. -/
def isFolder (d : Disk) (place : List Text) : Bool :=
  place.all (· == FilePath.upStep) || place == FilePath.root || d.folders.contains place

/-- The folders on the way to a place. -/
def parents (place : List Text) : List (List Text) := (List.range place.length).map (place.take ·)

/-- Puts a file at a place, with the folders on the way. -/
def put (d : Disk) (place : List Text) (content : Bytes) : Disk :=
  { files := assign place content d.files
    folders := d.folders ++ (parents place).filter fun p => !d.isFolder p }

/-- What a path leads to. -/
inductive Target where
  | folder (place : List Text)
  | file (place : List Text)
  /-- Nothing, but the folder that it would be in is there. Only a folder could be made at a path
  that ends in a slash. -/
  | vacant (place : List Text) (onlyFolder : Bool)

/-- Follows steps from a folder that is there. -/
def followFrom (d : Disk) (place : List Text) : List Text → Except FileFault Target
  | [] => .ok (.folder place)
  | step :: rest =>
    let next := FilePath.walk place step
    if FilePath.isIdle step || step = FilePath.upStep then d.followFrom next rest
    else if FilePath.maxNameSize < (Utf8.encode step).length then .error .longName
    else if d.isFolder next then d.followFrom next rest
    else if d.isFile next then (if rest.isEmpty then .ok (.file next) else .error .notFolder)
    else if rest.all List.isEmpty then .ok (.vacant next !rest.isEmpty)
    else .error .missing

/-- Follows a path. -/
def follow (d : Disk) (path : Text) : Except FileFault Target :=
  if path.isEmpty then .error .missing
  else d.followFrom (FilePath.start path) (FilePath.stepsFrom [] path)

/-- The content of the file at a path. -/
def read (d : Disk) (path : Text) : Except FileError Bytes :=
  match d.follow path with
  | .error fault => .error ⟨fault, path⟩
  | .ok (.folder _) => .error ⟨.isFolder, path⟩
  | .ok (.vacant _ _) => .error ⟨.missing, path⟩
  | .ok (.file place) => .ok ((lookup? place d.files).getD [])

/-- Writes the file at a path. -/
def write (d : Disk) (path : Text) (content : Bytes) : Except FileError Disk :=
  match d.follow path with
  | .error fault => .error ⟨fault, path⟩
  | .ok (.folder _) => .error ⟨.isFolder, path⟩
  | .ok (.vacant place onlyFolder) =>
    if onlyFolder then .error ⟨.isFolder, path⟩ else .ok (d.put place content)
  | .ok (.file place) => .ok (d.put place content)

/-! ## Folders -/

/-- Something is at a path. -/
def holds (d : Disk) (path : Text) : Bool :=
  match d.follow path with
  | .ok (.folder _) => true
  | .ok (.file _) => true
  | _ => false

/-- Makes the folder at a path; one that is there stays. -/
def makeFolder (d : Disk) (path : Text) : Except FileError Disk :=
  match d.follow path with
  | .error fault => .error ⟨fault, path⟩
  | .ok (.folder _) => .ok d
  | .ok (.file _) => .error ⟨.exists, path⟩
  | .ok (.vacant place _) => .ok { d with folders := d.folders ++ [place] }

/-- The path before the last step of a path, and the last step; a slash at the end does not
count. -/
def splitLast (path : Text) : Text × Text :=
  if (FilePath.baseName path).isEmpty then
    (FilePath.folderName (FilePath.folderName path), FilePath.baseName (FilePath.folderName path))
  else (FilePath.folderName path, FilePath.baseName path)

/-- Makes the folder at a path with those on the way. The first argument bounds the number of
steps. -/
def makeFoldersWithin : Nat → Disk → Text → Except FileError Disk
  | 0, d, path => d.makeFolder path
  | steps + 1, d, path =>
    let (head, last) := splitLast path
    if head.isEmpty || last.isEmpty || d.holds head then d.makeFolder path
    else
      match makeFoldersWithin steps d head with
      | .ok d => if last = ['.'] then .ok d else d.makeFolder path
      | .error ⟨.exists, _⟩ => if last = ['.'] then .ok d else d.makeFolder path
      | .error e => .error e

/-- Makes the folder at a path with those on the way; folders that are there stay. -/
def makeFolders (d : Disk) (path : Text) : Except FileError Disk :=
  makeFoldersWithin path.length d path

/-- The names of what stands directly in the folder at a path, in order. -/
def names (d : Disk) (path : Text) : Except FileError (List Text) :=
  match d.follow path with
  | .error fault => .error ⟨fault, path⟩
  | .ok (.file _) => .error ⟨.notFolder, path⟩
  | .ok (.vacant _ _) => .error ⟨.missing, path⟩
  | .ok (.folder place) =>
    let inside := (d.files.map (·.1) ++ d.folders).filterMap fun p =>
      if p.dropLast = place then p.getLast? else none
    .ok (inside.mergeSort fun a b => !List.lex b a fun x y => x < y)

end Disk

end GameText
