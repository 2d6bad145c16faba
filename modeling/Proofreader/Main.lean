import Proofreader.CommandLine.Run

/-!
# The program

The program takes a picture of the part of the disk that its arguments name, runs on
that picture, and writes back what the run changed.  No checker of texts is linked
into it, so every request for a tool is refused.
-/

namespace Proofreader.Program

open CommandLine

def noTools : ToolFactory where
  build _ r := .error (.fails ⟨"Refusal", "no checker is linked for ".toList ++ r.language⟩)

def nameOf (place : Place) : String := String.ofList (Path.mk 1 place).text

/-! ## Pictures of the disk -/

def entryAt (place : Place) : IO (Option Entry) := do
  try
    let _ ← (System.mkFilePath [nameOf place]).readDir
    return some .directory
  catch _ =>
    try
      return some (.file (← IO.FS.readBinFile (nameOf place)).toList)
    catch _ => return none

def entriesOnWay (place : Place) : IO (List (Place × Entry)) :=
  (List.range place.length).filterMapM fun n => do
    let above := place.take (n + 1)
    return (← entryAt above).map fun e => (above, e)

partial def entriesBelow (place : Place) : IO (List (Place × Entry)) := do
  try
    let found ← (System.mkFilePath [nameOf place]).readDir
    let below ← found.toList.mapM fun found => do
      let other := place ++ [found.fileName.toList]
      if ← found.path.isDir then return (other, .directory) :: (← entriesBelow other)
      else if Discovery.isMarkdownName found.fileName.toList then
        return ((← entryAt other).map fun e => (other, e)).toList
      else return []
    return below.flatten
  catch _ => return []

def otherPaths (a : Arguments) : List Path :=
  [a.report, Report.csvPath a.report] ++ a.ignoredWordsFile.toList ++ a.environmentFile.toList

def picture (working home : Place) (a : Arguments) : IO Disk := do
  let d : Disk := ⟨working, []⟩
  let environmentFiles := (Disk.upward home).map (· ++ [EnvironmentFile.defaultName])
  let places := (a.paths ++ otherPaths a).map d.resolve ++ environmentFiles
  let onWay ← (working :: places).mapM entriesOnWay
  let below ← (a.paths.map d.resolve).mapM entriesBelow
  return { d with entries := (onWay.flatten ++ below.flatten) }

def writeBack (before after : Disk) : IO Unit :=
  for (place, e) in after.entries.reverse do
    if before.lookup? place ≠ some e then
      match e with
      | .directory => IO.FS.createDirAll (nameOf place)
      | .file bytes => IO.FS.writeBinFile (nameOf place) ⟨bytes.toArray⟩

/-! ## The environment -/

def environment : IO Environment := do
  try
    let bytes ← IO.FS.readBinFile "/proc/self/environ"
    let text := (Utf8.decode bytes.toList).toOption.getD []
    return (Text.splitOn (· == '\x00') text).map fun t =>
      let (name, value) := cutAtEquals t
      (name, value.getD [])
  catch _ => return []

/-! ## Ends of a run -/

def Escape.describe : Escape → Text
  | .undecodable f => "not valid UTF-8: ".toList ++ f.message
  | .variable f => f.message
  | .tool .unknownOption => "the checker does not know an option"
  | .tool (.fails f) => f.reason
  | .walk _ => "the document has no lines to walk"
  | .number e => e.message
  | .ruleId _ => "a match names no rule"

def statusOf : Outcome → UInt32
  | .exits status => status.toUInt32
  | .escapes _ => 1

def printLine (t : Text) : IO Unit := IO.eprintln (String.ofList t)

def report (r : Run) : IO UInt32 := do
  for e in r.log do printLine e.line
  match r.outcome with
  | .escapes e => printLine (Escape.describe e)
  | .exits _ => pure ()
  IO.print (String.ofList r.output)
  return statusOf r.outcome

end Proofreader.Program

open Proofreader Program in
def main (arguments : List String) : IO UInt32 := do
  match CommandLine.Arguments.read (arguments.map String.toList) with
  | .error r =>
    match r with
    | .usage e => printLine e.message
    | .help => pure ()
    return r.status.toUInt32
  | .ok a =>
    let working := (Path.ofText (← IO.currentDir).toString.toList).parts
    let home := (Path.ofText (← IO.appDir).toString.toList).parts
    let before ← picture working home a
    let r := CommandLine.runWith noTools (← environment) home before a
    writeBack before r.disk
    report r
