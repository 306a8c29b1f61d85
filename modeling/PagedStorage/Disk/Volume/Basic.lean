import PagedStorage.Disk.DataFile
import PagedStorage.Disk.Path

namespace PagedStorage

structure Location where
  /-- How far above the working directory the way down begins. -/
  above : Nat
  /-- The names on the way down, the last one in front. -/
  names : List String
deriving DecidableEq

namespace Location

def start : Location := ⟨0, []⟩

def up : Location → Location
  | ⟨above, []⟩ => ⟨above + 1, []⟩
  | ⟨above, _ :: names⟩ => ⟨above, names⟩

def down (here : Location) (name : String) : Location := ⟨here.above, name :: here.names⟩

end Location

inductive Node
  | directory
  | file (contents : DataFile)

inductive Place
  /-- Nothing, and not even the directory that would hold it. -/
  | missing
  /-- Nothing, in a directory that can take it. -/
  | vacant (location : Location)
  | directory (location : Location)
  | file (location : Location) (contents : DataFile)
  /-- The path needs a directory where a file stands, or cannot be looked up. -/
  | blocked

namespace Place

/-- What the rest of a path leads to once it has come to a place that is no directory. -/
def past (place : Place) : Path → Place
  | [] => place
  | _ :: _ =>
    match place with
    | .missing | .vacant _ => .missing
    | _ => .blocked

def target? : Place → Option Location
  | .vacant location | .file location _ => some location
  | _ => none

def contents : Place → DataFile
  | .file _ contents => contents
  | _ => DataFile.empty

end Place

/-- The files and directories around one working directory. Reading a page never makes a file;
writing one makes the file and the directories above it, and directories stay made even if the file
then cannot be. -/
structure Volume where
  nodes : List (Location × Node)

namespace Volume

def empty : Volume := ⟨[]⟩

def node? (volume : Volume) (location : Location) : Option Node :=
  if location.names = [] then some .directory else volume.nodes.lookup location

def put (volume : Volume) (location : Location) (node : Node) : Volume :=
  ⟨(location, node) :: volume.nodes.filter fun entry => entry.1 ≠ location⟩

/-- The place that one piece of a path leads to from a directory. -/
def step (volume : Volume) (here : Location) (piece : String) : Place :=
  if Path.IsIdle piece then .directory here
  else if piece = ".." then .directory here.up
  else if Path.maxNameSize < piece.utf8ByteSize then .blocked
  else
    let there := here.down piece
    match volume.node? there with
    | none => .vacant there
    | some .directory => .directory there
    | some (.file contents) => .file there contents

def follow (volume : Volume) (here : Location) : Path → Place
  | [] => .directory here
  | piece :: path =>
    match volume.step here piece with
    | .directory there => volume.follow there path
    | place => place.past path

def find (volume : Volume) (path : Path) : Place :=
  if path.IsUsable then volume.follow .start path else .blocked

def extend (volume : Volume) (here : Location) : Path → Except StorageError Unit × Volume
  | [] => (.ok (), volume)
  | piece :: path =>
    match volume.step here piece with
    | .directory there => volume.extend there path
    | .vacant there => (volume.put there .directory).extend there path
    | _ => (.error (.io .system), volume)

/-- Makes the directories that are missing on a path, up to the first that cannot be made. -/
def makeDirectories (volume : Volume) (path : Path) : Except StorageError Unit × Volume :=
  if path.IsUsable then volume.extend .start path else (.error (.io .system), volume)

/-- Changes the contents of a file. The file and the directories above it are made first if they are
missing. -/
def modify (volume : Volume) (path : Path) (change : DataFile → DataFile) :
    Except StorageError Unit × Volume :=
  match volume.makeDirectories path.parent with
  | (.error e, volume) => (.error e, volume)
  | (.ok (), volume) =>
    let place := volume.find path
    match place.target? with
    | some location => (.ok (), volume.put location (.file (change place.contents)))
    | none => (.error (.io .system), volume)

/-- The file at a path is deleted, as anybody may do behind the back of a pool; no call of a store
does it. -/
def removeFile (volume : Volume) (path : Path) : Volume :=
  match volume.find path with
  | .file location _ => ⟨volume.nodes.filter fun entry => entry.1 ≠ location⟩
  | _ => volume

/-- Number of whole pages in the file at `path`, a number of 32 bits as page ids are. -/
def pageCount (volume : Volume) (path : Path) : Except StorageError UInt32 :=
  match volume.find path with
  | .file _ contents => .ok (UInt32.ofNat contents.pageCount)
  | .blocked => .error (.io .system)
  | _ => .ok 0

def readPage (volume : Volume) (path : Path) (id : PageId) : Except StorageError Page :=
  if id.IsValid then
    match volume.find path with
    | .file _ contents => contents.read id
    | .blocked => .error (.io .system)
    | _ => .error (.pageNotFound id)
  else .error (.invalidArgument (.unreadable id))

def writePage (volume : Volume) (path : Path) (page : Page) : Except StorageError Unit × Volume :=
  volume.modify path fun contents => contents.write page

end Volume

end PagedStorage
