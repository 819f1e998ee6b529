import ThreeAddress.Program.Text

/-!
# Entities

What a name stands for while a program is checked.

* `EntityKind` — a value of a type or a function with its signature;
* `EntityState` — what has happened to it so far;
* `Entity` — name, kind, state, and the span of its declaration.
-/

namespace ThreeAddress

/-- What kind of thing a name stands for. -/
inductive EntityKind
  | value (type : Ty)
  | function (returnType : Ty) (params : List Ty)
deriving DecidableEq

/-- The history of an entity in one word. -/
inductive EntityState
  | declared
  | assigned
  | used
  | constant
  | parameter
deriving DecidableEq

/-- The name of a state. -/
def EntityState.text : EntityState → String
  | .declared => "Declared"
  | .assigned => "Assigned"
  | .used => "Used"
  | .constant => "Constant"
  | .parameter => "Parameter"

/-- What a name stands for. -/
structure Entity where
  name : String
  kind : EntityKind
  state : EntityState
  span : Span
deriving DecidableEq

namespace Entity

/-- A variable that was just declared. -/
def unassigned (name : String) (type : Ty) (span : Span) : Entity :=
  ⟨name, .value type, .declared, span⟩

/-- A constant. -/
def constant (name : String) (type : Ty) (span : Span) : Entity :=
  ⟨name, .value type, .constant, span⟩

/-- A parameter. -/
def parameter (name : String) (type : Ty) (span : Span) : Entity :=
  ⟨name, .value type, .parameter, span⟩

/-- A function that was just defined. -/
def function (name : String) (returnType : Ty) (params : List Ty) (span : Span) : Entity :=
  ⟨name, .function returnType params, .declared, span⟩

/-- The type of a value. -/
def valueType? (e : Entity) : Option Ty :=
  match e.kind with
  | .value type => some type
  | .function _ _ => none

/-- Whether the entity is a function. -/
def isFunction (e : Entity) : Bool :=
  match e.kind with
  | .value _ => false
  | .function _ _ => true

/-- Whether the entity is a constant. -/
def isConstant (e : Entity) : Bool := e.state == .constant

/-- Whether nothing has happened since the declaration. -/
def isUntouched (e : Entity) : Bool := e.state == .declared

/-- The number of parameters; a value has none. -/
def arity (e : Entity) : Nat :=
  match e.kind with
  | .value _ => 0
  | .function _ params => params.length

/-- The entity in another state. -/
def withState (e : Entity) (state : EntityState) : Entity := { e with state := state }

/-- An entity on one line. -/
def text (e : Entity) : String :=
  match e.kind with
  | .function returnType params =>
    "function " ++ e.name ++ " (" ++ returnType.text ++ ", args: " ++ toString params.length ++ ", " ++
      e.state.text ++ ")"
  | .value type =>
    if e.isConstant then "constant " ++ e.name ++ " (" ++ type.text ++ ")"
    else "variable " ++ e.name ++ " (" ++ type.text ++ ", " ++ e.state.text ++ ")"

end Entity

end ThreeAddress
