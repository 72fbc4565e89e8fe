import CircuitNames.Command.Path
import CircuitNames.Fault

namespace CircuitNames

namespace FileTree

/-- What can stand at a path. -/
inductive Node where
  | directory
  | file (text : String)
deriving DecidableEq, Repr

end FileTree

/-- The nodes of a tree by their paths. The root is always there. -/
structure FileTree where
  nodes : List (Path × FileTree.Node)
deriving DecidableEq, Repr

namespace FileTree

def empty : FileTree := ⟨[]⟩

/-- What stands at a path. The root is always a directory. -/
def find? (tree : FileTree) (path : Path) : Option Node :=
  if path = .root then some .directory else tree.nodes.lookup path

/-- Puts a node at a path, in the place of the one there is. -/
def put (path : Path) (node : Node) : List (Path × Node) → List (Path × Node)
  | [] => [(path, node)]
  | (present, old) :: rest =>
    if present = path then (path, node) :: rest else (present, old) :: put path node rest

theorem lookup_put (path other : Path) (node : Node) (nodes : List (Path × Node)) :
    (put path node nodes).lookup other = if other = path then some node else nodes.lookup other := by
  induction nodes with
  | nil =>
    by_cases asked : other = path
    · simp [put, asked]
    · simp [put, List.lookup_cons, beq_false_of_ne asked, asked]
  | cons head rest ih =>
    obtain ⟨present, old⟩ := head
    by_cases here : present = path
    · by_cases asked : other = path
      · simp [put, here, asked]
      · simp [put, List.lookup_cons, here, beq_false_of_ne asked, asked]
    · by_cases first : other = present
      · simp [put, here, first]
      · simp [put, List.lookup_cons, here, beq_false_of_ne first, ih]

/-- Apart from the root, a node that is put is what stands at its path; elsewhere nothing changes. -/
theorem find?_put (tree : FileTree) (path other : Path) (node : Node) (below : path ≠ .root) :
    (FileTree.mk (put path node tree.nodes)).find? other =
      if other = path then some node else tree.find? other := by
  unfold find?
  by_cases top : other = .root
  · subst top
    simp [Ne.symm below]
  · simp [top, lookup_put]

/-- A tree with a directory at the path and at all that lead to it. -/
def addDirectory (tree : FileTree) (path : Path) : FileTree :=
  ⟨path.upward.foldl (fun nodes path => put path .directory nodes) tree.nodes⟩

/-- A tree with a file at the path, in directories that are made for it. -/
def addFile (tree : FileTree) (path : Path) (text : String) : FileTree :=
  ⟨put path (.file text) (tree.addDirectory path.parent).nodes⟩

/-- The files of a tree, each with its text. -/
def files (tree : FileTree) : List (Path × String) :=
  tree.nodes.filterMap fun
    | (path, .file text) => some (path, text)
    | (_, .directory) => none

/-- The files that are new in a later tree or have another text there. -/
def changes (before after : FileTree) : List (Path × String) :=
  after.files.filter fun (path, text) => before.find? path != some (.file text)

/-- Why nothing can be found at a path: a file stands where it needs a directory, or a name on the way
is not there. -/
def absence (tree : FileTree) (path : Path) : FileFault :=
  match path.parent.upward.findSome? tree.find? with
  | some (.file _) => .notDirectory
  | _ => .noEntry

/-- The text of the file at a path. -/
def read (tree : FileTree) (path : Path) : Except FileFault String :=
  match tree.find? path with
  | some (.file text) => .ok text
  | some .directory => .error .isDirectory
  | none => .error (tree.absence path)

/-- Replaces a file or makes a new one in a directory that is there. -/
def write (tree : FileTree) (path : Path) (text : String) : Except FileFault FileTree :=
  match tree.find? path with
  | some .directory => .error .isDirectory
  | some (.file _) => .ok ⟨put path (.file text) tree.nodes⟩
  | none =>
    match tree.find? path.parent with
    | some .directory => .ok ⟨put path (.file text) tree.nodes⟩
    | _ => .error (tree.absence path)

/-- Writing leaves the text at the path and everything else as it was. -/
theorem find?_write {tree after : FileTree} {path : Path} {text : String}
    (written : tree.write path text = .ok after) (other : Path) :
    after.find? other = if other = path then some (.file text) else tree.find? other := by
  have below : path ≠ .root := by
    rintro rfl
    simp [write, find?] at written
  have placed : after = ⟨put path (.file text) tree.nodes⟩ := by
    unfold write at written
    split at written
    · cases written
    · exact (Except.ok.inj written).symm
    · split at written
      · exact (Except.ok.inj written).symm
      · cases written
  rw [placed, find?_put tree path other (.file text) below]

end FileTree

end CircuitNames
