import ThreeAddress.Command.Access
import ThreeAddress.Command.FilePath

/-!
# What a system does with files

A program does not know the system that it runs on: which files there are, which of them it may read or write, and
when a disk is full.  So this is what the program asks for, with any answers.

* `Outlet` — what takes bytes that are written;
* `FileSystem` — reading a file, opening one for writing, and putting bytes into it;
* `FileSystem.readText`, `FileSystem.writeText` — texts in place of bytes.
-/

namespace ThreeAddress

/-- What takes bytes that are written: a file, or a device, which is no file. -/
inductive Outlet (φ δ : Type)
  | file (f : φ)
  | device (d : δ)
deriving DecidableEq

/-- What comes of bytes that are put somewhere: a state, what appears on the two streams, and the reason if not all
bytes could be put. -/
structure Received (σ : Type) where
  state : σ
  out : String
  err : String
  failure : Option String

/-- A system with files.  Whatever fails gives its reason.

Paths lead to files, and a file holds bytes or is not there.  Opening a path for writing gives an outlet, and bytes are
put into that. -/
structure FileSystem where
  State : Type
  File : Type
  Device : Type
  contents? : State → File → Option ByteArray
  leadsTo? : State → FilePath → Option File
  read : State → FilePath → Except String ByteArray
  create : State → FilePath → State × Except String (Outlet File Device)
  put : State → Outlet File Device → ByteArray → Received State

namespace FileSystem

variable (S : FileSystem)

/-- Read a file as a text, or say why that fails. -/
def readText (s : S.State) (path : FilePath) : Except String String :=
  match S.read s path with
  | .error reason => .error reason
  | .ok bytes =>
    match String.fromUTF8? bytes with
    | some text => .ok text
    | none => .error AccessFailure.notText.message

/-- Write a text: open the path, and put all bytes into what it leads to. -/
def writeText (s : S.State) (path : FilePath) (text : String) : Received S.State :=
  match S.create s path with
  | (s', .error reason) => ⟨s', "", "", some reason⟩
  | (s', .ok outlet) => S.put s' outlet text.toUTF8

end FileSystem

end ThreeAddress
