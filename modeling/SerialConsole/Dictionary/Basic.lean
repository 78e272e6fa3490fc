import SerialConsole.Dictionary.Entry

/-!
# Dictionaries

The commands that a console knows, in order. A name is searched from the front, so an entry hides
later entries of its name. `Dictionary.standard` holds the console's own commands.
-/

namespace SerialConsole

/-- The commands of a console. No command has an empty name. -/
structure Dictionary where
  entries : List Entry
  name_ne : ∀ entry ∈ entries, entry.name ≠ ""

namespace Dictionary

/-- The dictionary of the given entries; an empty name is refused. -/
def ofEntries (entries : List Entry) : Except Fault Dictionary :=
  if h : ∀ entry ∈ entries, entry.name ≠ "" then .ok ⟨entries, h⟩
  else .error (Fault.withDetail .internalError "EMPTY COMMAND NAME")

/-- The first entry of a name. -/
def find? (dictionary : Dictionary) (name : String) : Option Entry :=
  dictionary.entries.find? fun entry => entry.name == name

/-- Every name behind a blank, and a line end. -/
def listing (dictionary : Dictionary) : String :=
  String.join (dictionary.entries.map fun entry => " " ++ entry.name) ++ "\n"

/-- The text of a dictionary as a record. -/
def text (dictionary : Dictionary) : String :=
  "CommandTable \x7b entries: [" ++ ", ".intercalate (dictionary.entries.map Entry.text)
    ++ "] \x7d"

/-! ## The standard commands -/

/-- What a console is fitted with. -/
structure Features where
  radio : Bool
  rom : Bool
deriving DecidableEq, Repr

namespace Features

/-- A console with a radio and persistent slots. -/
def standard : Features := ⟨true, true⟩

/-- A console with neither. -/
def bare : Features := ⟨false, false⟩

end Features

/-- The entry of one of the console's own commands. -/
def own (name : String) (arity : Nat) (command : Builtin) : Entry :=
  ⟨name, arity, .builtin command⟩

/-- The commands of every console. -/
def coreEntries : List Entry :=
  [own "nl" 0 .newline,
    own "+" 2 (.binary .add),
    own "-" 2 (.binary .subtract),
    own "*" 2 (.binary .multiply),
    own "/" 2 (.binary .divide),
    own "mod" 2 (.binary .modulo),
    own "negate" 1 (.unary .negate),
    own "invert" 1 (.unary .invert),
    own "and" 2 (.binary .bitAnd),
    own "or" 2 (.binary .bitOr),
    own "xor" 2 (.binary .bitXor),
    own "<<" 2 (.binary .shiftLeft),
    own ">>" 2 (.binary .shiftRight),
    own "ram+" 1 (.unary .ramPlus),
    own "dump" 2 .dump,
    own "words" 0 .words]

/-- The commands of a console with a radio. -/
def radioEntries : List Entry :=
  [own "rf-init" 3 .radioInit, own "rf-txpower" 1 .radioPower]

/-- The commands of a console with persistent slots. -/
def romEntries : List Entry :=
  [own "rom@" 1 .romFetch, own "rom!" 2 .romStore]

/-- The console's own commands, in the order in which it lists them. -/
def standardEntries (features : Features) : List Entry :=
  coreEntries ++ (if features.radio then radioEntries else [])
    ++ (if features.rom then romEntries else [])

/-- The dictionary of a console. -/
def standard (features : Features) : Dictionary where
  entries := standardEntries features
  name_ne := by
    rcases features with ⟨radio, rom⟩
    cases radio <;> cases rom <;> decide

end Dictionary

end SerialConsole
