import CircuitNames.Command.Program

namespace CircuitNames

/-- What stands at a path on the disk. What cannot be read is taken to be absent. -/
def loadNode (path : Path) : IO (Option FileTree.Node) := do
  try
    if ← (← IO.FS.realPath path.text).isDir then return some .directory
    return some (.file (← IO.FS.readFile path.text))
  catch _ => return none

/-- Adds what stands at a path and at the paths that lead to it. -/
def loadPath (tree : FileTree) (path : Path) : IO FileTree := do
  let mut nodes := tree.nodes
  for place in path.upward.reverse do
    if let some node ← loadNode place then
      nodes := FileTree.put place node nodes
  return ⟨nodes⟩

/-- Writes the files that differ from those loaded. -/
def storeChanges (before after : FileTree) : IO Unit := do
  for (path, text) in before.changes after do
    IO.FS.writeFile path.text text

/-- Runs the program in the current directory: loads what a run may look at, runs the program on that, and
puts the result back. -/
def runProgram (argv : List String) : IO UInt32 := do
  let dir := Path.root.resolve (← IO.currentDir).toString
  let before ← (Command.consulted dir argv).foldlM loadPath FileTree.empty
  let (ending, session) := Command.run dir argv before
  for line in session.log do
    IO.println line
  storeChanges before session.files
  if let some complaint := ending.complaint then
    IO.eprintln complaint
  return ending.status.toUInt32

end CircuitNames

def main (argv : List String) : IO UInt32 := CircuitNames.runProgram argv
