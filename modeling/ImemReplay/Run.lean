import ImemReplay.Config
import ImemReplay.Decoder
import ImemReplay.Loading.Chain
import ImemReplay.Loading.Placement
import ImemReplay.Loading.Registers
import ImemReplay.ToyChain

/-!
# Runs

A run decodes all chains of a configuration and leaves three files: the reports, the dump of the
ledger, and the table of its assignments. The reports are those of the run, while the ledger is
that of the decoder's whole life. A run that fails at a chain keeps the reports written before, and
leaves the two dumps as they were. A dump that fails keeps what was written of it.

Main results:

- Theorem `run_of_loadChains_error`: a run whose chains cannot be loaded touches no file.
- Definition `Decoder.run`: a run with a prefix of its own or that of the configuration.
-/

namespace ImemReplay

/-- A decoder with the configuration that it was made from. -/
structure Project where
  config : Config
  decoder : Decoder
deriving Repr

/-- The files, and what a decoder changes. -/
structure Desk where
  files : FileTree
  state : DecoderState
deriving DecidableEq, Repr

namespace Project

variable [Memory]

/-- The file that must be named. -/
def named : Option String → Except Fault String
  | some path => .ok path
  | none => .error .wrongType

/-- The decoder of a configuration, and the lines printed while its tables are loaded. -/
def ofConfig (t : FileTree) (config : Config) : Except Fault Project × String :=
  match named config.placementFile >>= fun path =>
      Placement.load t path config.instLen config.nInsts with
  | .error fault => (.error fault, "")
  | .ok placement =>
    match config.registersFile with
    | none => finish config placement {} placement.loadedLine
    | some path =>
      match RegisterTable.load t path with
      | .error fault => (.error fault, placement.loadedLine)
      | .ok registers =>
        finish config placement registers (placement.loadedLine ++ registers.loadedLine)
where
  /-- The decoder of loaded tables. -/
  finish (config : Config) (placement : Placement) (registers : RegisterTable)
      (console : String) : Except Fault Project × String :=
    ((Decoder.ofTables placement registers config.nPis config.resetVar).map
      fun decoder => { config, decoder }, console)

/-- The decoder of a configuration in a file. -/
def load (t : FileTree) (path : String) : Except Fault Project × String :=
  match Config.load t path with
  | .error fault => (.error fault, "")
  | .ok config => ofConfig t config

/-- The chains of a configuration; those from files are counted on the console. -/
def loadChains (p : Project) (t : FileTree) (s : DecoderState) : Outcome (List Chain) :=
  if p.config.isToy then
    ((toyChain p.config.nPis p.config.resetVar).map fun chain => [chain], s)
  else
    match p.config.chainFiles.mapM fun file => named file >>= Chain.load t with
    | .error fault => (.error fault, s)
    | .ok chains =>
      (.ok chains, s.print s!"[CEX] YamlFrontend: loaded {chains.length} chains\n")

/-- Writes passages to a file, as far as they can be written. -/
def put (path : String) (passages : List Passage) (t : FileTree) :
    Except Fault Unit × FileTree :=
  match t.write path (Passage.written passages) with
  | .error fault => (.error fault, t)
  | .ok t => (Passage.ended passages, t)

/-- Writes the dumps of the ledger; a table without rows is not written. -/
def dump (out : String) (ledger : Ledger) (t : FileTree) : Except Fault Unit × FileTree :=
  match put (out ++ ".programs.json") ledger.json t with
  | (.error fault, t) => (.error fault, t)
  | (.ok _, t) =>
    if ledger.rows.isEmpty then (.ok (), t)
    else put (out ++ ".programs.csv") ledger.table t

/-- Decodes chains into the file of reports, and writes the dumps. -/
def decodeInto (p : Project) (out : String) (chains : List Chain) (desk : Desk) :
    Except Fault (List Program) × Desk :=
  match desk.files.target (out ++ ".unsafe.txt") with
  | .error fault => (.error fault, desk)
  | .ok place =>
    match p.decoder.decodeAll chains desk.state with
    | (.error fault, s) => (.error fault, ⟨desk.files.insert place s.sink, s⟩)
    | (.ok programs, s) =>
      match dump out s.ledger (desk.files.insert place s.sink) with
      | (.error fault, t) => (.error fault, ⟨t, s⟩)
      | (.ok _, t) =>
        (.ok programs, ⟨t, s.print s!"[INFO] Unsafe programs decoded: {programs.length}\n"⟩)

/-- A run, which begins with an empty file of reports. -/
def run (p : Project) (given : Option String) (desk : Desk) :
    Except Fault (List Program) × Desk :=
  match p.loadChains desk.files { desk.state with sink := "" } with
  | (.error fault, s) => (.error fault, { desk with state := s })
  | (.ok chains, s) =>
    match p.config.prefixFor given with
    | .error fault => (.error fault, { desk with state := s })
    | .ok out => p.decodeInto out chains { desk with state := s }

theorem run_of_loadChains_error {p : Project} {given : Option String} {desk : Desk}
    {fault : Fault} {s : DecoderState}
    (h : p.loadChains desk.files { desk.state with sink := "" } = (.error fault, s)) :
    p.run given desk = (.error fault, { desk with state := s }) := by
  simp [run, h]

end Project
end ImemReplay
