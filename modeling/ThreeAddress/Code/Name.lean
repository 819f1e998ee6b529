/-!
# Names of generated code

* `NameSupply` — counters for labels `L<n>`, temporaries `t<n>`, condition flags `c<n>` and for the
  ordinals of function bodies.  All start at one and only grow;
* `isReservedName` — whether a name could come from those counters;
* `LocalName` — a parameter or local of the body with some ordinal, written `<name>.<ordinal>`;
* `RenameTable` — the locals of one body.  Any other name stands for itself.
-/

namespace ThreeAddress

/-! ### Fresh names -/

/-- Whether a name has the form of a label, a temporary or a flag: `L`, `t` or `c` before one or more
decimal digits. -/
def isReservedName (s : String) : Bool :=
  match s.toList with
  | c :: d :: more => (c == 't' || c == 'c' || c == 'L') && (d :: more).all Char.isDigit
  | _ => false

/-- The next number of each kind of generated name. -/
structure NameSupply where
  label : Nat
  temp : Nat
  flag : Nat
  ordinal : Nat
deriving DecidableEq

namespace NameSupply

/-- Nothing has been supplied yet. -/
def first : NameSupply := ⟨1, 1, 1, 1⟩

/-- The label of a number. -/
def labelName (n : Nat) : String := "L" ++ toString n

/-- The temporary of a number. -/
def tempName (n : Nat) : String := "t" ++ toString n

/-- The flag of a number. -/
def flagName (n : Nat) : String := "c" ++ toString n

/-- A fresh label. -/
def takeLabel (s : NameSupply) : String × NameSupply :=
  (labelName s.label, { s with label := s.label + 1 })

/-- Two fresh labels with consecutive numbers. -/
def takeLabels (s : NameSupply) : (String × String) × NameSupply :=
  ((labelName s.label, labelName (s.label + 1)), { s with label := s.label + 2 })

/-- A fresh temporary. -/
def takeTemp (s : NameSupply) : String × NameSupply :=
  (tempName s.temp, { s with temp := s.temp + 1 })

/-- A fresh flag. -/
def takeFlag (s : NameSupply) : String × NameSupply :=
  (flagName s.flag, { s with flag := s.flag + 1 })

/-- Go on to the ordinal of the next body. -/
def nextOrdinal (s : NameSupply) : NameSupply := { s with ordinal := s.ordinal + 1 }

end NameSupply

/-! ### Locals -/

/-- A parameter or local: its name in the source, the ordinal of its body, and its place there. -/
structure LocalName where
  name : String
  ordinal : Nat
  index : Nat
deriving DecidableEq

/-- A local name of the body with some ordinal as written in generated code.  No name of a source
holds a dot. -/
def localText (name : String) (ordinal : Nat) : String := name ++ "." ++ toString ordinal

/-- A local as written in generated code. -/
def LocalName.text (l : LocalName) : String := localText l.name l.ordinal

/-- The locals of one body, each name once. -/
structure RenameTable where
  ordinal : Nat
  names : List String
deriving DecidableEq

namespace RenameTable

/-- A table without locals. -/
def empty (ordinal : Nat) : RenameTable := ⟨ordinal, []⟩

/-- Whether a name is local. -/
def contains (t : RenameTable) (name : String) : Bool := t.names.contains name

/-- The number of locals. -/
def size (t : RenameTable) : Nat := t.names.length

/-- The local that the next declaration of a name makes. -/
def localName (t : RenameTable) (name : String) : LocalName := ⟨name, t.ordinal, t.size⟩

/-- Add a name. -/
def insert (t : RenameTable) (name : String) : RenameTable :=
  if t.contains name then t else { t with names := t.names ++ [name] }

/-- A name as written in the code of this body: locals with the ordinal, all others as they are. -/
def resolve (t : RenameTable) (name : String) : String :=
  if t.contains name then localText name t.ordinal else name

end RenameTable

end ThreeAddress
