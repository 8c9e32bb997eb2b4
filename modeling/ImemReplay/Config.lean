import ImemReplay.FileTree

/-!
# Configurations

A configuration names a design with its tables, the chains to decode and the files to write. It
is stored with the sections `design` and `tables`, which it must have, and `cex` and `output`,
which it may have. Files are named from where the configuration is.

Main results:

- Definition `Config.ofDocument`: the configuration in a document, read section by section.
- Theorem `resolve_null`: a file that is not named stays unnamed.
- Theorem `prefixFor_empty`: an empty prefix counts as none.
-/

namespace ImemReplay

/-- A configuration. -/
structure Config where
  instLen : Int
  nInsts : Int
  nPis : Int
  resetVar : Int
  placementFile : Option String
  registersFile : Option String
  /-- Where chains come from. -/
  frontend : Value
  chainFiles : List (Option String)
  /-- What the names of written files begin with. -/
  outPrefix : Value
deriving Repr

namespace Config

/-- The written path of a file that is named from a base. -/
def resolve (base : Path) : Value → Except Fault (Option String)
  | .scalar .null => .ok none
  | .scalar (.text s) => .ok (some (base.join (.ofText s)).text)
  | _ => .error .wrongType

@[simp]
theorem resolve_null {base : Path} : resolve base .null = .ok none :=
  rfl

/-- The configuration in a document, with files named from a base. -/
def ofDocument (base : Path) (doc : Value) : Except Fault Config := do
  let design ← doc.field "design"
  let tables ← doc.field "tables"
  let source ← doc.fieldD "cex" (.fields [])
  let output ← doc.fieldD "output" (.fields [])
  let instLen ← (← design.field "inst_len").toInt
  let nInsts ← (← design.field "n_insts").toInt
  let nPis ← (← design.field "n_pis").toInt
  let placementFile ← resolve base (← tables.field "placement")
  let resetVar ← (← design.fieldD "reset_var" (.whole 1)).toInt
  let registersFile ← resolve base (← tables.fieldD "registers" .null)
  let frontend ← source.fieldD "frontend" (.text "yaml")
  let chainFiles ← (← (← source.fieldD "chains" (.list [])).items).mapM (resolve base)
  let outPrefix ← output.fieldD "prefix" (.text "out")
  return { instLen, nInsts, nPis, resetVar, placementFile, registersFile, frontend, chainFiles,
           outPrefix }

/-- The configuration in a file. -/
def load (t : FileTree) (path : String) : Except Fault Config := do
  let doc ← t.document path
  let place ← t.placeOf path
  ofDocument { start := .root, names := place.dropLast } doc

/-- Whether the chains are the built-in one. -/
def isToy (cfg : Config) : Bool :=
  match cfg.frontend with
  | .scalar (.text s) => s = "toy"
  | _ => false

/-- What the names of written files begin with: a given text that is not empty, or what the
configuration says. -/
def prefixFor (cfg : Config) (given : Option String) : Except Fault String :=
  match given.filter (· ≠ "") with
  | some s => .ok s
  | none =>
    match cfg.outPrefix with
    | .scalar (.text s) => .ok s
    | _ => .error .wrongType

theorem prefixFor_empty {cfg : Config} : cfg.prefixFor (some "") = cfg.prefixFor none := by
  rfl

end Config
end ImemReplay
