import RequestFlow.Bytes

/-!
# Files and the paths to them

A file system says what each place holds, and which folder paths start from that do not begin with
a slash.  A path is followed part by part: every part but the last has to lead to a folder, an empty
part and a dot stay where they are, and two dots go up, at the root not further.

    (fs.put p n).nodeAt p = some n                             (nodeAt_put)
    walk p (part :: rest) is an error unless p is a folder     (walk_cons_of_not_folder)
-/

namespace RequestFlow

/-! ## Algorithm -/

/-- Why a path does not lead to the content of a file. -/
inductive PathFault
  | missing
  | notFolder
  | nameTooLong
  | isFolder
  /-- What is there is neither a file nor a folder, and has no size. -/
  | noSize
  deriving DecidableEq, Repr

def PathFault.message : PathFault → Bytes
  | missing => text "No such file or directory"
  | notFolder => text "Not a directory"
  | nameTooLong => text "File name too long"
  | isFolder => text "Is a directory"
  | noSize => text "Operation not supported"

inductive Node
  | folder
  | file (content : Bytes)
  | device
  deriving DecidableEq, Repr

/-- The names that lead from the root to a place. -/
abbrev Place := List Bytes

structure FileSystem where
  /-- What the places hold; of two entries for one place the first counts. -/
  nodes : List (Place × Node)
  /-- The folder that paths start from. -/
  here : Place
  deriving Repr

namespace FileSystem

/-- Bytes that a name may have. -/
def longestName : Nat := 255

/-- Bytes that a path may have. -/
def longestPath : Nat := 4095

def slash : UInt8 := 47

/-- The parts of a path between its slashes. -/
def splitPath (path : Bytes) : List Bytes := path.splitOn slash

def nodeAt (fs : FileSystem) (place : Place) : Option Node := fs.nodes.lookup place

/-- Where a path starts. -/
def startOf (fs : FileSystem) (path : Bytes) : Place :=
  if path.head? = some slash then [] else fs.here

/-- Follows the parts of a path from a place. -/
def walk (fs : FileSystem) (place : Place) : List Bytes → Except PathFault Node
  | [] =>
    match fs.nodeAt place with
    | none => .error .missing
    | some node => .ok node
  | part :: rest =>
    match fs.nodeAt place with
    | none => .error .missing
    | some (.file _) | some .device => .error .notFolder
    | some .folder =>
      if part = [] ∨ part = text "." then fs.walk place rest
      else if part = text ".." then fs.walk place.dropLast rest
      else if longestName < part.length then .error .nameTooLong
      else fs.walk (place ++ [part]) rest

/-- The content of the file that a path leads to. -/
def contentAt (fs : FileSystem) (path : Bytes) : Except PathFault Bytes :=
  if path = [] then .error .missing
  else if longestPath < path.length then .error .nameTooLong
  else
    match fs.walk (fs.startOf path) (splitPath path) with
    | .error f => .error f
    | .ok .folder => .error .isFolder
    | .ok .device => .error .noSize
    | .ok (.file content) => .ok content

/-! ## Making files -/

def put (fs : FileSystem) (place : Place) (node : Node) : FileSystem :=
  { fs with nodes := (place, node) :: fs.nodes }

/-- The place that a path names, whether something is there or not. -/
def placeOf (fs : FileSystem) (path : Bytes) : Place :=
  (splitPath path).foldl (fun place part =>
    if part = [] ∨ part = text "." then place
    else if part = text ".." then place.dropLast
    else place ++ [part]) (fs.startOf path)

/-- Makes the folders that a place lies in, as far as nothing is there. -/
def addFolders (fs : FileSystem) (place : Place) : FileSystem :=
  (List.range place.length).foldl (fun fs n =>
    if (fs.nodeAt (place.take n)).isNone then fs.put (place.take n) .folder else fs) fs

/-- Writes a file, in place of one that is there; a folder is left alone. -/
def addFile (fs : FileSystem) (path content : Bytes) : FileSystem :=
  let place := fs.placeOf path
  if fs.nodeAt place = some .folder then fs else (fs.addFolders place).put place (.file content)

/-! ## A machine with nothing of its own but what every machine has -/

def folders : List String :=
  ["/", "/bin", "/boot", "/dev", "/dev/fd", "/dev/pts", "/dev/shm", "/etc", "/home", "/lib",
    "/media", "/mnt", "/opt", "/proc", "/proc/self", "/proc/sys", "/root", "/run", "/sbin", "/srv",
    "/sys", "/sys/class", "/sys/devices", "/sys/kernel", "/tmp", "/usr", "/usr/bin", "/usr/include",
    "/usr/lib", "/usr/local", "/usr/local/bin", "/usr/local/lib", "/usr/sbin", "/usr/share",
    "/usr/src", "/var", "/var/cache", "/var/lib", "/var/log", "/var/spool", "/var/tmp"]

def devices : List String :=
  ["/dev/full", "/dev/null", "/dev/ptmx", "/dev/random", "/dev/tty", "/dev/urandom", "/dev/zero"]

/-- The usual folders and devices, and an empty folder to start from.  Its name has a slash, so that
no path can spell it. -/
def bare : FileSystem :=
  let root : FileSystem := { nodes := [], here := [] }
  let nodes := folders.map (fun s => (root.placeOf (text s), Node.folder)) ++
    devices.map (fun s => (root.placeOf (text s), Node.device))
  let here := [text "tmp", [slash]]
  { nodes := (here, .folder) :: nodes, here }

/-- The folder to start from holds the given files, later ones in place of earlier ones. -/
def ofFiles (files : List (Bytes × Bytes)) : FileSystem :=
  files.foldl (fun fs f => fs.addFile f.1 f.2) bare

/-! ## Lemmas -/

theorem nodeAt_put (fs : FileSystem) (place : Place) (node : Node) :
    (fs.put place node).nodeAt place = some node := by
  simp [put, nodeAt]

theorem walk_cons_of_not_folder (fs : FileSystem) (place : Place) (part : Bytes)
    (rest : List Bytes) (h : fs.nodeAt place ≠ some .folder) :
    ∃ f, fs.walk place (part :: rest) = .error f := by
  unfold walk
  split
  · exact ⟨_, rfl⟩
  · exact ⟨_, rfl⟩
  · exact ⟨_, rfl⟩
  · rename_i hf
    exact absurd hf h

end FileSystem

end RequestFlow
