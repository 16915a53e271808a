import RecordStore.Text.Basic
import RecordStore.Text.Bytes

/-!
# Files and paths

A disk holds the contents of files under their names. Paths lead to them, or to one of the faults
by which an operation can fail; and a file may be read bit by bit while it changes.
-/

namespace RecordStore.Disk

/-!
## What can go wrong with a file

The reasons for which a file cannot be opened, read or written, with the wording that the
operating system gives them, and the one reason of the reader itself: bytes that are no text.
-/

/-- Why an operation on a file fails. -/
inductive Fault where
  | notFound
  | notDirectory
  | isDirectory
  | invalidArgument
  | nameTooLong
  | zeroInName
  | notText
  deriving Repr, DecidableEq

/-- The wording of a fault. -/
def Fault.message : Fault → String
  | notFound => "No such file or directory (os error 2)"
  | notDirectory => "Not a directory (os error 20)"
  | isDirectory => "Is a directory (os error 21)"
  | invalidArgument => "Invalid argument (os error 22)"
  | nameTooLong => "File name too long (os error 36)"
  | zeroInName => "file name contained an unexpected NUL byte"
  | notText => "stream did not contain valid UTF-8"

end RecordStore.Disk

namespace RecordStore

/-!
## A disk

The files that the program works on, as a value: regular files by name, the directories beside the
working directory, and one device, `/dev/null`, which reads as empty and refuses to change its
length or to be synchronised. A *path* is resolved to a name by walking its parts, each of which
but the last must be a directory; `.` stays and `..` goes up. Parts and paths have a greatest
length.

  * `resolve`              what a path leads to;
  * `openFile`, `attach`   open a file, the latter making an empty one if there is none;
  * `read`, `replace`      the contents of an open file, and other contents in their place;
  * `readAll`, `readText`  the contents of the file at a path, as bytes and as text;
  * `write`                replaces the contents of a file, making one if there is none.
-/

open RecordStore.Text

/-- Regular files by name, and directories. -/
structure Disk where
  files : List (String × Bytes)
  directories : List String
  deriving Repr, DecidableEq

namespace Disk

/-- The name of the device that reads as empty. -/
def nullDevice : String := "/dev/null"

/-- A disk with nothing on it. -/
def empty : Disk := ⟨[], []⟩

/-! ### Names -/

/-- Parts of a name that lead from the root or from the working directory. -/
def joinName (fromRoot : Bool) (parts : List String) : String :=
  (if fromRoot then "/" else "") ++ "/".intercalate parts

/-- The parts, with one more: `..` takes the last part away where there is one to take. -/
def enter (fromRoot : Bool) (parts : List String) (part : String) : List String :=
  if part = ".." then
    match parts.getLast? with
    | none => if fromRoot then [] else [".."]
    | some ".." => parts ++ [".."]
    | some _ => parts.dropLast
  else parts ++ [part]

/-- Whether the parts lead to a directory: the root, the working directory and what lies above it,
    the directory of devices, and those the disk lists. -/
def isDirectory (disk : Disk) (fromRoot : Bool) (parts : List String) : Bool :=
  parts.isEmpty || parts.all (· == "..") || (fromRoot && parts == ["dev"]) ||
    disk.directories.contains (joinName fromRoot parts)

/-- The contents of the regular file with a name. -/
def contents? (disk : Disk) (name : String) : Option Bytes :=
  (disk.files.find? (·.1 == name)).map (·.2)

/-- The disk with other contents in the regular file with a name. -/
def setContents (disk : Disk) (name : String) (contents : Bytes) : Disk :=
  if (disk.contents? name).isSome then
    { disk with
      files := disk.files.map fun file => if file.1 = name then (name, contents) else file }
  else { disk with files := disk.files ++ [(name, contents)] }

/-! ### Paths -/

/-- The greatest length of a part of a path, in bytes. -/
def maxPartSize : Nat := 255

/-- The greatest length of a path, in bytes. -/
def maxPathSize : Nat := 4095

/-- The parts, which have to lead to a directory for the path to go on from there. -/
def stand (disk : Disk) (fromRoot : Bool) (here : List String) : Except Fault (List String) :=
  if disk.isDirectory fromRoot here then .ok here
  else if (disk.contents? (joinName fromRoot here)).isSome ||
      joinName fromRoot here == nullDevice then .error .notDirectory
  else .error .notFound

/-- The directory that the parts of a path lead to, from another directory. -/
def walk (disk : Disk) (fromRoot : Bool) (here : List String) :
    List String → Except Fault (List String)
  | [] => .ok here
  | part :: parts =>
    if part = "." then walk disk fromRoot here parts
    else if maxPartSize < part.utf8ByteSize then .error .nameTooLong
    else do walk disk fromRoot (← disk.stand fromRoot (enter fromRoot here part)) parts

/-- What a path leads to. -/
inductive Target where
  | directory
  | device
  | file (name : String)
  | absent (name : String)
  deriving Repr, DecidableEq

/-- What the last part of a path leads to, in the directory that the parts before it lead to. With
    a slash after it, it can only be that of a directory, and where a file is to be made it counts
    as one unseen. -/
def resolveLast (disk : Disk) (making fromRoot slash : Bool) (here : List String)
    (part : String) : Except Fault Target :=
  let name := joinName fromRoot (enter fromRoot here part)
  if part = "." || part = ".." || (making && slash) then .ok .directory
  else if maxPartSize < part.utf8ByteSize then .error .nameTooLong
  else if disk.isDirectory fromRoot (enter fromRoot here part) then .ok .directory
  else if name = nullDevice then if slash then .error .notDirectory else .ok .device
  else if (disk.contents? name).isSome then
    if slash then .error .notDirectory else .ok (.file name)
  else if slash then .error .notFound
  else .ok (.absent name)

/-- What a path leads to, or why it leads nowhere. Every part but the last has to be a directory. -/
def resolve (disk : Disk) (making : Bool) (path : String) : Except Fault Target := do
  if path.toList.contains (Char.ofNat 0) then throw .zeroInName
  if path.isEmpty then throw .notFound
  if maxPathSize < path.utf8ByteSize then throw .nameTooLong
  let fromRoot := path.toList.head? == some '/'
  let written := split '/' path
  let parts := written.filter (· != "")
  match parts.getLast? with
  | none => return .directory
  | some last =>
    let here ← disk.walk fromRoot [] parts.dropLast
    disk.resolveLast making fromRoot (written.getLast? == some "") here last

/-- Whether a path leads to anything. -/
def pathExists (disk : Disk) (path : String) : Bool :=
  match disk.resolve false path with
  | .ok (.absent _) | .error _ => false
  | .ok _ => true

/-! ### Open files -/

/-- A file that is open. -/
inductive Handle where
  | device
  | file (name : String)
  deriving Repr, DecidableEq

/-- The contents of an open file. -/
def read (disk : Disk) : Handle → Bytes
  | .device => []
  | .file name => (disk.contents? name).getD []

/-- Replaces the contents of an open file; the device refuses. -/
def replace (disk : Disk) (contents : Bytes) : Handle → Except Fault Disk
  | .device => .error .invalidArgument
  | .file name => .ok (disk.setContents name contents)

/-- Makes sure that what was written lasts; the device refuses. -/
def sync : Handle → Except Fault Unit
  | .device => .error .invalidArgument
  | .file _ => .ok ()

/-- Opens what a path leads to for reading. Opening a directory works; the reading of it, in the
    inner result, does not. -/
def openFile (disk : Disk) (path : String) : Except Fault (Except Fault Handle) := do
  match ← disk.resolve false path with
  | .directory => return .error .isDirectory
  | .device => return .ok .device
  | .file name => return .ok (.file name)
  | .absent _ => throw .notFound

/-- Opens the file at a path for reading and writing, making an empty one where there is none. -/
def attach (disk : Disk) (path : String) : Except Fault (Handle × Disk) := do
  match ← disk.resolve true path with
  | .directory => throw .isDirectory
  | .device => return (.device, disk)
  | .file name => return (.file name, disk)
  | .absent name => return (.file name, disk.setContents name [])

/-! ### Whole files -/

/-- The contents of the file at a path. -/
def readAll (disk : Disk) (path : String) : Except Fault Bytes := do
  return disk.read (← disk.openFile path >>= id)

/-- The contents of the file at a path, which must be text. -/
def readText (disk : Disk) (path : String) : Except Fault String := do
  match decode (← disk.readAll path) with
  | .ok text => return text
  | .error _ => throw .notText

/-- Replaces the contents of the file at a path; what is written to the device is lost. -/
def write (disk : Disk) (path : String) (contents : Bytes) : Except Fault Disk := do
  match ← disk.resolve true path with
  | .directory => throw .isDirectory
  | .device => return disk
  | .file name | .absent name => return disk.setContents name contents

/-! ### What was written is read -/

theorem contents?_setContents_self (disk : Disk) (name : String) (contents : Bytes) :
    (disk.setContents name contents).contents? name = some contents := by
  by_cases h : (disk.contents? name).isSome
  · have key : ∀ files : List (String × Bytes), (files.find? (·.1 == name)).isSome →
        ((files.map fun file => if file.1 = name then (name, contents) else file).find?
          (·.1 == name)).map (·.2) = some contents := by
      intro files
      induction files with
      | nil => simp
      | cons file files ih =>
        intro hs
        by_cases hf : file.1 = name
        · simp [hf]
        · simpa [hf] using ih (by simpa [hf] using hs)
    simp only [setContents, h, if_true]
    exact key disk.files (by simpa [contents?] using h)
  · cases hn : disk.files.find? (·.1 == name) with
    | none => simp [setContents, contents?, List.find?_append, hn]
    | some file => simp [contents?, hn] at h

theorem contents?_setContents_of_ne (disk : Disk) {name other : String} (h : other ≠ name)
    (contents : Bytes) :
    (disk.setContents name contents).contents? other = disk.contents? other := by
  have hname : (name == other) = false := beq_eq_false_iff_ne.mpr fun e => h e.symm
  have key : ∀ files : List (String × Bytes),
      (files.map fun file => if file.1 = name then (name, contents) else file).find?
        (·.1 == other) = files.find? (·.1 == other) := by
    intro files
    induction files with
    | nil => rfl
    | cons file files ih =>
      by_cases hf : file.1 = name
      · simp [hf, hname, ih]
      · simp [hf, List.find?_cons, ih]
  rw [setContents]
  split
  · exact congrArg (Option.map (·.2)) (key disk.files)
  · simp [contents?, List.find?_append, hname]

theorem read_replace_self {disk disk' : Disk} {handle : Handle} {contents : Bytes}
    (h : disk.replace contents handle = .ok disk') : disk'.read handle = contents := by
  cases handle with
  | device => simp [replace] at h
  | file name =>
    simp only [replace, Except.ok.injEq] at h
    simp [read, ← h, contents?_setContents_self]

/-- Other open files are read as before. -/
theorem read_replace_of_ne {disk disk' : Disk} {handle other : Handle} {contents : Bytes}
    (h : disk.replace contents handle = .ok disk') (ne : other ≠ handle) :
    disk'.read other = disk.read other := by
  cases handle with
  | device => simp [replace] at h
  | file name =>
    simp only [replace, Except.ok.injEq] at h
    cases other with
    | device => rfl
    | file otherName =>
      have hname : otherName ≠ name := fun e => ne (congrArg Handle.file e)
      simp [read, ← h, contents?_setContents_of_ne disk hname]

end Disk

end RecordStore

namespace RecordStore.Disk

/-!
## Reading a file that changes

A file is read in blocks, and its lines are taken from what has been read. When the file changes
between two lines, the bytes already read are as they were, and the next block begins where the
last one ended, whatever stands there now. A reader of a file that does not change takes the lines
of the file, one after the other.
-/

open RecordStore.Text

/-- The number of bytes that are read at a time. -/
def blockSize : Nat := 8192

/-- How far a file has been read: where the next block begins, and the bytes read of which no line
    has been taken. -/
structure Cursor where
  offset : Nat
  held : Bytes
  deriving Repr, DecidableEq

namespace Cursor

/-- Before the first byte. -/
def start : Cursor := ⟨0, []⟩

/-- The first line of what is left, with its line feed if it has one; empty if nothing is left. -/
def firstLine (bytes : Bytes) : Bytes :=
  bytes.takeWhile (· != lineFeed) ++ (bytes.dropWhile (· != lineFeed)).take 1

/-- The next line of a file and the cursor behind it, if anything is left. Of the blocks needed for
    the line, the part behind it is held. -/
def next? (file : Bytes) (cursor : Cursor) : Option (Bytes × Cursor) :=
  let ahead := file.drop cursor.offset
  let line := firstLine (cursor.held ++ ahead)
  if line.isEmpty then none
  else
    let needed := line.length - cursor.held.length
    let blocks := (needed + blockSize - 1) / blockSize
    let read := ahead.take (blocks * blockSize)
    some (line, ⟨cursor.offset + read.length, (cursor.held ++ read).drop line.length⟩)

end Cursor

end RecordStore.Disk
