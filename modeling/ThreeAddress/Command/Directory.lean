import ThreeAddress.Command.Access
import ThreeAddress.Command.Arguments
import ThreeAddress.Report.Render

/-!
# A system to try the command on

What is proved about the command is proved for all systems.  This is a small one that it can be tried on: a working
directory in the root, the usual directories and a few devices around it, and perhaps a full disk.  Files have contents
and nothing else, so there is none that may not be read or written, and every name is a text.

* `Directory` — files by their names;
* `Sandbox` — the working directory, and the files elsewhere;
* `Station`, `Found` — a directory that a path leads through, and what it holds under a name;
* `Sandbox.read`, `Sandbox.outlet?` — what reading a path and opening it for writing come to;
* `sandbox` — all this as a system with files, `runCommand` — the run of the command there.
-/

namespace ThreeAddress

/-! ### The files -/

/-- Files by their paths from some place, each path once. -/
structure Directory where
  files : List (String × ByteArray)

namespace Directory

/-- The contents of a file. -/
def contents? (d : Directory) (name : String) : Option ByteArray := d.files.lookup name

/-- Whether files lie below a name. -/
def isParent (d : Directory) (name : String) : Bool :=
  d.files.any fun f => (name.toList ++ ['/']).isPrefixOf f.1.toList

/-- Put contents under a name, in place of what was there or behind all others. -/
def put (d : Directory) (name : String) (bytes : ByteArray) : Directory :=
  if (d.contents? name).isSome then
    ⟨d.files.map fun f => if f.1 = name then (name, bytes) else f⟩
  else ⟨d.files ++ [(name, bytes)]⟩

end Directory

/-- The side of the working directory, and all the rest. -/
inductive Side
  | inside
  | outside
deriving DecidableEq

/-- The place of a file: its path from the working directory, or from the root. -/
structure FilePlace where
  side : Side
  name : String
deriving DecidableEq

/-- The files of the working directory, and those elsewhere. -/
structure Sandbox where
  directory : Directory
  outside : Directory

/-- What takes a text without keeping it. -/
inductive Device
  | null
  | full
  | out
  | err
deriving DecidableEq

/-- The device of a name in the root. -/
def Device.ofName? : String → Option Device
  | "dev/null" | "dev/zero" => some .null
  | "dev/full" => some .full
  | "dev/stdout" => some .out
  | "dev/stderr" => some .err
  | _ => none

/-- The directories around the working directory, by their names in the root. -/
def systemDirectories : List String :=
  ["bin", "boot", "dev", "dev/pts", "dev/shm", "etc", "home", "lib", "media", "mnt", "opt", "proc",
    "root", "run", "sbin", "srv", "sys", "tmp", "usr", "usr/bin", "usr/lib", "usr/local", "usr/share",
    "var", "var/lib", "var/log", "var/tmp"]

/-! ### Along a path -/

/-- The names along a path, from left to right.  Slashes in a row are one. -/
def pathNames (path : String) : List String :=
  ((path.toList.splitOn '/').filter fun name => !name.isEmpty).map String.ofList

/-- Whether a path starts in the root. -/
def isRooted (path : String) : Bool := path.toList.head? == some '/'

/-- Whether a path ends in a slash. -/
def hasFinalSlash (path : String) : Bool := path.toList.getLast? == some '/'

/-- Names along a path as one, the last of them first. -/
def joinNames (names : List String) : String := "/".intercalate names.reverse

/-- A directory that a path leads through.  Its names from the working directory, or from the root, stand in reverse
order. -/
structure Station where
  side : Side
  names : List String
deriving DecidableEq

namespace Station

/-- The directory that holds this one.  The root holds itself. -/
def parent : Station → Station
  | ⟨.inside, []⟩ => ⟨.outside, []⟩
  | ⟨side, names⟩ => ⟨side, names.tail⟩

/-- The place of a name in a directory. -/
def place (s : Station) (name : String) : FilePlace := ⟨s.side, joinNames (name :: s.names)⟩

end Station

/-- What a directory holds under a name. -/
inductive Found
  | directory (s : Station)
  | file (place : FilePlace)
  | device (device : Device)
  | nothing
deriving DecidableEq

/-- The most bytes of a name, and of a whole path. -/
def nameLimit : Nat := 255

@[inherit_doc nameLimit]
def pathLimit : Nat := 4095

namespace Sandbox

/-- The contents of a file. -/
def contents? (b : Sandbox) : FilePlace → Option ByteArray
  | ⟨.inside, name⟩ => b.directory.contents? name
  | ⟨.outside, name⟩ => b.outside.contents? name

/-- Put contents in a place. -/
def put (b : Sandbox) (bytes : ByteArray) : FilePlace → Sandbox
  | ⟨.inside, name⟩ => { b with directory := b.directory.put name bytes }
  | ⟨.outside, name⟩ => { b with outside := b.outside.put name bytes }

/-- Whether a place is that of a directory. -/
def isParent (b : Sandbox) : FilePlace → Bool
  | ⟨.inside, name⟩ => b.directory.isParent name
  | ⟨.outside, name⟩ => systemDirectories.contains name

/-- The device in a place. -/
def device? : FilePlace → Option Device
  | ⟨.inside, _⟩ => none
  | ⟨.outside, name⟩ => Device.ofName? name

/-- What lies under a proper name. -/
def find (b : Sandbox) (s : Station) (name : String) : Found :=
  match device? (s.place name) with
  | some device => .device device
  | none =>
    if (b.contents? (s.place name)).isSome then .file (s.place name)
    else if b.isParent (s.place name) then .directory { s with names := name :: s.names }
    else .nothing

/-- What one name of a path leads to; one dot leads nowhere else, and two lead up. -/
def step (b : Sandbox) (s : Station) (name : String) : Except AccessFailure Found :=
  if name = "." then .ok (.directory s)
  else if name = ".." then .ok (.directory s.parent)
  else if nameLimit < name.utf8ByteSize then .error .nameTooLong
  else .ok (b.find s name)

/-- Follow names, each of which leads to a directory. -/
def follow (b : Sandbox) (s : Station) : List String → Except AccessFailure Station
  | [] => .ok s
  | name :: more =>
    match b.step s name with
    | .error failure => .error failure
    | .ok (.directory s') => b.follow s' more
    | .ok .nothing => .error .missing
    | .ok _ => .error .notDirectory

/-- The directory of the final name of a path, and that name, which only the root lacks. -/
def locate (b : Sandbox) (path : String) : Except AccessFailure (Station × Option String) :=
  if path = "" then .error .missing
  else if pathLimit < path.utf8ByteSize then .error .nameTooLong
  else
    let names := pathNames path
    (b.follow ⟨if isRooted path then .outside else .inside, []⟩ names.dropLast).map
      fun s => (s, names.getLast?)

/-! ### Reading and writing -/

/-- Read a path.  A slash at its end asks for a directory, which cannot be read; there is nothing in a device. -/
def read (b : Sandbox) (path : String) : Except AccessFailure ByteArray := do
  match ← b.locate path with
  | (_, none) => throw .isDirectory
  | (s, some name) =>
    match ← b.step s name with
    | .nothing => throw .missing
    | .directory _ => throw .isDirectory
    | .device _ => if hasFinalSlash path then throw .notDirectory else return .empty
    | .file place => if hasFinalSlash path then throw .notDirectory else return (b.contents? place).getD .empty

/-- What a path leads to if it is opened for writing.  Dots and a slash at its end name a directory, whether there is
one or not. -/
def outlet? (b : Sandbox) (path : String) : Except AccessFailure (Outlet FilePlace Device) := do
  match ← b.locate path with
  | (_, none) | (_, some ".") | (_, some "..") => throw .isDirectory
  | (s, some name) =>
    if hasFinalSlash path then throw .isDirectory
    else
      match ← b.step s name with
      | .directory _ => throw .isDirectory
      | .file place => return .file place
      | .nothing => return .file (s.place name)
      | .device device => return .device device

/-- Put bytes behind those of a file, as many as there is room for. -/
def append (b : Sandbox) (room : Option Nat) (bytes : ByteArray) (place : FilePlace) : Received Sandbox :=
  let count := (room.map (min bytes.size)).getD bytes.size
  ⟨b.put ((b.contents? place).getD .empty ++ bytes.extract 0 count) place, "", "",
    if count < bytes.size then some AccessFailure.noSpace.message else none⟩

/-- Put bytes into a device. -/
def send (b : Sandbox) (bytes : ByteArray) : Device → Received Sandbox
  | .null => ⟨b, "", "", none⟩
  | .full => ⟨b, "", "", some AccessFailure.noSpace.message⟩
  | .out => ⟨b, (String.fromUTF8? bytes).getD "", "", none⟩
  | .err => ⟨b, "", (String.fromUTF8? bytes).getD "", none⟩

/-- Where a path leads that is opened for writing; one that is no text leads nowhere. -/
def open? (b : Sandbox) (path : FilePath) : Except AccessFailure (Outlet FilePlace Device) :=
  path.text?.elim (.error .missing) b.outlet?

end Sandbox

/-- The sandbox as a system with files, with so much room on the disk for the bytes that are put into a file, or without
a limit. -/
def sandbox (room : Option Nat) : FileSystem where
  State := Sandbox
  File := FilePlace
  Device := Device
  contents? := Sandbox.contents?
  leadsTo? b path :=
    match b.open? path with
    | .ok (.file place) => some place
    | _ => none
  read b path := (path.text?.elim (.error .missing) b.read).mapError AccessFailure.message
  create b path :=
    match b.open? path with
    | .error failure => (b, .error failure.message)
    | .ok (.file place) => (b.put .empty place, .ok (.file place))
    | .ok (.device device) => (b, .ok (.device device))
  put b outlet bytes :=
    match outlet with
    | .file place => b.append room bytes place
    | .device device => b.send bytes device

/-! ### Runs -/

/-- The working directory after a run. -/
def Ended.directory (e : Ended Sandbox) : Directory := e.state.directory

/-- Run the command with some arguments in a working directory. -/
def runCommand (args : List String) (d : Directory) : Ended Sandbox :=
  ((Request.ofArgs args).script (some ·.draw)).run (sandbox none) ⟨d, ⟨[]⟩⟩

end ThreeAddress
