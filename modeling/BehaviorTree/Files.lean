import BehaviorTree.Table
import BehaviorTree.Text.Quoted
import BehaviorTree.Text.Split
import BehaviorTree.Text.Encoding
import BehaviorTree.Value.Written

/-!
Files around a working directory. A path is read part by part: empty parts and dots are passed over, two dots lead back. Writing
a file makes the directories above it.
-/

set_option autoImplicit false

namespace BehaviorTree

/-- A path from the working directory, or from the root when its first part is a slash or two of them. -/
structure Path where
  parts : List String
  deriving DecidableEq, Repr

namespace Path

def root : String := "/"

def rootOf (s : String) : List String :=
  match (s.toList.takeWhile (· = '/')).length with
  | 0 => []
  | 2 => [root ++ root]
  | _ => [root]

def isRoot (part : String) : Bool := part = root || part = root ++ root

def ofText (s : String) : Path :=
  ⟨rootOf s ++ ((Text.split '/' s.toList).map String.ofList).filter fun p => p ≠ "" && p ≠ "."⟩

def text (p : Path) : String :=
  match p.parts with
  | [] => "."
  | part :: r => if isRoot part then part ++ "/".intercalate r else "/".intercalate p.parts

def parent (p : Path) : Path := if p.parts.all isRoot then p else ⟨p.parts.dropLast⟩

/-- The end of the last part from its last dot on, unless the dot is its first or last character. -/
def suffix (p : Path) : String :=
  let name := ((p.parts.getLast?).getD "").toList
  let stem := (name.reverse.dropWhile (· ≠ '.')).drop 1
  let ending := (name.reverse.takeWhile (· ≠ '.')).reverse
  if stem.isEmpty || ending.isEmpty then "" else String.ofList ('.' :: ending)

end Path

inductive FileFault where
  | missing (path : Path)
  | alreadyThere (path : Path)
  | notDirectory (path : Path)
  | isDirectory (path : Path)
  | nameTooLong (path : Path)
  | nullCharacter
  | unencodable (path : Path)
  deriving DecidableEq, Repr

/-- Does the fault lie in the text of the path alone, so that no file was asked for? -/
def FileFault.isUnusable : FileFault → Bool
  | .nullCharacter => true
  | .unencodable _ => true
  | _ => false

def isNameable (code : Nat) : Bool := !Text.isSurrogate code || (0xDC80 ≤ code && code < 0xDD00)

def FileFault.message : FileFault → String
  | .missing p => "[Errno 2] No such file or directory: " ++ Text.quoted p.text
  | .alreadyThere p => "[Errno 17] File exists: " ++ Text.quoted p.text
  | .notDirectory p => "[Errno 20] Not a directory: " ++ Text.quoted p.text
  | .isDirectory p => "[Errno 21] Is a directory: " ++ Text.quoted p.text
  | .nameTooLong p => "[Errno 36] File name too long: " ++ Text.quoted p.text
  | .nullCharacter => "embedded null byte"
  | .unencodable p => Text.unencodableMessage isNameable p.text.toList

/-- The files by their places, and the directories besides the working directory. -/
structure Files where
  contents : List (List String × List Nat) := []
  directories : List (List String) := []
  deriving DecidableEq, Repr

namespace Files

inductive Entry where
  | file (bytes : List Nat)
  | directory
  | nothing
  deriving DecidableEq, Repr

def isInside (place : List String) : Bool := !(place.head?.any fun part => part = Path.root || part = "..")

def isGiven (place : List String) : Bool := place = [Path.root] || place.all (· = "..")

def above (place : List String) : List String :=
  if place = [Path.root] then place
  else if isGiven place then place ++ [".."]
  else place.dropLast

def systemDirectories : List (List String) := [[Path.root, "dev"], [Path.root, "tmp"]]

/-- The file of the system that is always empty, whatever is written to it. -/
def sink : List String := [Path.root, "dev", "null"]

def entry (fs : Files) (place : List String) : Entry :=
  if isGiven place || systemDirectories.contains place || fs.directories.contains place then .directory
  else if place = sink then .file []
  else
    match fs.contents.find? fun f => f.1 = place with
    | some f => .file f.2
    | none => .nothing

def size (name : String) : Nat :=
  ((Text.codes name.toList).flatMap fun n => if Text.isSurrogate n then [n] else Text.utf8Bytes (Char.ofNat n)).length

def longestName : Nat := 255

def longestPath : Nat := 4095

def walk (fs : Files) (path : Path) (place : List String) : List String → Except FileFault (List String)
  | [] => .ok place
  | part :: r =>
    match fs.entry place with
    | .nothing => .error (.missing path)
    | .file _ => .error (.notDirectory path)
    | .directory =>
      if longestName < size part then .error (.nameTooLong path)
      else walk fs path (if part = ".." then above place else place ++ [part]) r

/-- Why no file is asked for by a path: its text cannot be handed on, or it is too long. -/
def refusal? (path : Path) : Option FileFault :=
  if !(Text.codes path.text.toList).all isNameable then some (.unencodable path)
  else if path.text.toList.contains '\x00' then some .nullCharacter
  else if longestPath < size path.text then some (.nameTooLong path)
  else none

def place (fs : Files) (path : Path) : Except FileFault (List String) :=
  match refusal? path with
  | some e => .error e
  | none =>
    match path.parts with
    | [] => .ok []
    | part :: r => if Path.isRoot part then walk fs path [Path.root] r else walk fs path [] path.parts

def lookup (fs : Files) (path : Path) : Except FileFault Entry := (fs.place path).map fs.entry

def read (fs : Files) (path : Path) : Except FileFault (List Nat) :=
  match fs.lookup path with
  | .error e => .error e
  | .ok (.file bytes) => .ok bytes
  | .ok .directory => .error (.isDirectory path)
  | .ok .nothing => .error (.missing path)

def decoded (bytes : List Nat) : Except Text.EncodingFault String :=
  (Text.utf8Chars 0 0 bytes).map fun cs => String.ofList (Text.plainLineEnds (Text.ofChars cs))

/-- Makes a directory and those above it, as far as they are missing; what was made before a fault stays. -/
def makeDirectory (fs : Files) (path : Path) : Nat → Except FileFault Unit × Files
  | 0 => (.error (.missing path), fs)
  | fuel + 1 =>
    match fs.place path with
    | .error (.missing _) =>
      match makeDirectory fs path.parent fuel with
      | (.error e, fs) => (.error e, fs)
      | (.ok (), fs) => makeDirectory fs path fuel
    | .error e => (.error e, fs)
    | .ok place =>
      match fs.entry place with
      | .directory => (.ok (), fs)
      | .file _ => (.error (.alreadyThere path), fs)
      | .nothing => (.ok (), { fs with directories := fs.directories ++ [place] })

def put (place : List String) (bytes : List Nat) : List (List String × List Nat) → List (List String × List Nat)
  | [] => [(place, bytes)]
  | f :: r => if f.1 = place then (place, bytes) :: r else f :: put place bytes r

def write (fs : Files) (path : Path) (bytes : List Nat) : Except FileFault Unit × Files :=
  match fs.makeDirectory path.parent (2 * path.parts.length + 1) with
  | (.error e, fs) => (.error e, fs)
  | (.ok (), fs) =>
    match fs.place path with
    | .error e => (.error e, fs)
    | .ok place =>
      match fs.entry place with
      | .directory => (.error (.isDirectory path), fs)
      | _ => (.ok (), if place = sink then fs else { fs with contents := put place bytes fs.contents })

def steps (place : List String) : List (List String) := (List.range place.length).map fun n => place.take n

def ofTable (t : Table (List Nat)) : Files :=
  let contents := t.map fun f => ((Path.ofText f.1).parts, f.2)
  { contents := contents, directories := ((contents.flatMap fun f => steps f.1).filter (!isGiven ·)).eraseDups }

end Files

end BehaviorTree
