import BehaviorTree.CommandLine.Run

/-!
The program. It reads the files that the arguments may mean, runs the command line on them, and writes back what has changed. Its
output is in UTF-8; halves of pairs are escaped in complaints.
-/

set_option autoImplicit false

namespace BehaviorTree.Main

def stages (p : Path) : List Path := (List.range p.parts.length).map fun n => ⟨p.parts.take (n + 1)⟩

def look (fs : Files) (p : Path) : IO Files := do
  if fs.directories.contains p.parts || fs.contents.any (·.1 = p.parts) then return fs
  try
    let bytes ← IO.FS.readBinFile p.text
    return { fs with contents := fs.contents ++ [(p.parts, bytes.toList.map UInt8.toNat)] }
  catch
    | .inappropriateType .. => return { fs with directories := fs.directories ++ [p.parts] }
    | _ => return fs

def lookAll (fs : Files) (ps : List Path) : IO Files := (ps.flatMap stages).foldlM look fs

def mentioned (environment : Option String) (words : List String) : List String :=
  environment.toList ++ words ++ words.filterMap fun w => (CommandLine.splitValue w.toList).2.map String.ofList

def changed (before after : Files) : List (List String × List Nat) :=
  after.contents.filter fun f => !before.contents.contains f

def save (f : List String × List Nat) : IO Unit := do
  let p : Path := ⟨f.1⟩
  IO.FS.createDirAll p.parent.text
  IO.FS.writeBinFile p.text (ByteArray.mk (f.2.map UInt8.ofNat).toArray)

def takes (text : String) : Bool := (Text.chars? text.toList).isSome

def shown (text : String) : String :=
  let shownCode (n : Nat) : List Char :=
    if Text.isSurrogate n then '\\' :: 'u' :: Text.hexadecimal 4 n else [Char.ofNat n]
  String.ofList ((Text.codes text.toList).flatMap shownCode)

/-- Runs the command line. What it wants to write is looked at first, since there may be such a file. -/
def run (environment : Option String) (words : List String) : IO UInt32 := do
  let kept (s : String) : String := String.ofList (Text.ofChars s.toList)
  let environment := environment.map kept
  let words := words.map kept
  let before ← lookAll {} ((mentioned environment words).map Path.ofText)
  let (_, planned) := CommandLine.execute before environment words
  let before ← lookAll before ((changed before planned).map fun f => ⟨f.1⟩)
  let (result, after) := CommandLine.execute before environment words
  (changed before after).forM save
  let result := CommandLine.printed takes result
  match result with
  | .ok text => IO.print (shown text)
  | .error fault => IO.eprintln (shown fault.message)
  return UInt32.ofNat (CommandLine.exitCode result)

end BehaviorTree.Main

def main (words : List String) : IO UInt32 := do
  BehaviorTree.Main.run (← IO.getEnv "BTEDITOR_CONFIG") words
