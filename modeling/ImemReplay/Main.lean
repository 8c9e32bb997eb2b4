import ImemReplay.CommandLine

/-!
# The program

The program looks at the files that its command line and the configuration name, does what the
command line asks for, and prints and writes the result. A fault ends it with exit code one.
-/

namespace ImemReplay

/-- What is printed when the command line cannot be read, or when help is asked for. -/
def usageText : String := "usage: imem-replay [-h] -c CONFIG [-o OUT_PREFIX]"

/-- The written form of a place. -/
def placeText (place : List String) : String := Text.shown ("/" ++ "/".intercalate place)

/-- The file tree without anything in it, at the current directory. -/
def currentTree : IO FileTree := do
  let here := Text.spelled (← IO.currentDir).toString
  return { here := (Path.ofText here).names }

/-- Looks at one place: is it a directory or a file? -/
def look (t : FileTree) (place : List String) (readsText : Bool) : IO FileTree := do
  let file := (← IO.currentDir) / placeText place
  if ← file.isDir then
    return { t with directories := place :: t.directories }
  else if readsText && (← file.pathExists) then
    return t.insert place (← IO.FS.readFile file)
  else
    return t

/-- Looks at all places on the way of a written path. -/
def observe (t : FileTree) (path : String) (readsText : Bool) : IO FileTree := do
  let mut tree := t
  let mut place := if PathStart.ofChars path.toList = .here then t.here else []
  for name in Text.parts '/' path.toList do
    place := FileTree.child place (String.ofList name)
    tree ← look tree place readsText
  return tree

/-- The files that a run reads, and the directories it writes to. -/
def gather (config : String) (given : Option String) : IO FileTree := do
  let mut tree ← observe (← currentTree) config true
  match Config.load tree config with
  | .error _ => return tree
  | .ok cfg =>
    let named := [cfg.placementFile, cfg.registersFile] ++ cfg.chainFiles
    for path in named.filterMap id do
      tree ← observe tree path true
    match cfg.prefixFor given with
    | .error _ => return tree
    | .ok out =>
      for ending in [".unsafe.txt", ".programs.json", ".programs.csv"] do
        tree ← observe tree (out ++ ending) false
      return tree

/-- Writes the files that are new or have changed. -/
def writeBack (before after : FileTree) : IO Unit := do
  for (place, text) in after.files do
    if before.find? place ≠ some text then
      IO.FS.writeFile (placeText place) text

end ImemReplay

open ImemReplay in
/-- Does what the arguments ask for and returns the exit code. -/
def main (args : List String) : IO UInt32 := do
  let request := CommandLine.ofArgs (args.map Text.spelled)
  let files ← match request with
    | .run (some config) outPrefix => gather config outPrefix
    | _ => currentTree
  let result := request.perform files
  IO.print result.console
  writeBack files result.files
  match result.ending with
  | .exit code =>
    if request = .help then IO.println usageText
    if request = .usage then IO.eprintln usageText
    return code.toUInt32
  | .fault fault =>
    IO.eprintln (fault.reported.message?.getD "the files cannot be used")
    return 1
