import ImemReplay.Extraction
import ImemReplay.Ledger

/-!
# Decoding of chains

A decoder holds the tables of a design. Decoding a chain finds its start frame, extracts the
program, writes the report of the frame to a sink, and enters the program in the ledger. What a
decoder changes on the way is a `DecoderState`, and a step that fails keeps what it did before.

Main results:

- Theorem `write_error`: a report that fails changes nothing.
-/

namespace ImemReplay

/-- The tables and numbers of a design. -/
structure Decoder where
  placement : Placement
  registers : RegisterTable := {}
  /-- The number of declared inputs; a variable from there on is no input. -/
  nPis : Int
  resetVar : Int
deriving DecidableEq, Repr

/-- What a decoder changes. -/
structure DecoderState where
  /-- The shape of the reports. -/
  shape : Shape
  ledger : Ledger := {}
  /-- The start frame of the last extraction. -/
  startFrame : Nat := 0
  /-- What was printed. -/
  console : String := ""
  /-- What was written to the sink. -/
  sink : String := ""
deriving DecidableEq, Repr

namespace DecoderState

/-- Prints a text. -/
def print (s : DecoderState) (text : String) : DecoderState :=
  { s with console := s.console ++ text }

/-- Writes a text to the sink. -/
def append (s : DecoderState) (text : String) : DecoderState :=
  { s with sink := s.sink ++ text }

end DecoderState

/-- The end of a step: its value or fault, and the state that it leaves. -/
abbrev Outcome (α : Type) := Except Fault α × DecoderState

namespace Decoder

/-- The decoder of a design. -/
def ofTables (placement : Placement) (registers : RegisterTable) (nPis resetVar : Int) :
    Except Fault Decoder :=
  if resetVar < 0 then .error (.resetVariable resetVar)
  else .ok { placement, registers, nPis, resetVar }

/-- The state in which a decoder starts. -/
def start (d : Decoder) : DecoderState := { shape := d.placement.shape }

variable [Memory]

/-- The picture of a frame in the shape of the state. -/
def render (d : Decoder) (f : Frame) (s : DecoderState) : Except Fault Rendering :=
  Rendering.ofFrame d.placement d.nPis s.shape f

/-- Writes the report of a frame to the sink, under a number without too many digits. -/
def writeUnder (d : Decoder) (f : Frame) (seq : Int) (hasSink : Bool) (s : DecoderState) :
    Outcome Rendering :=
  if hasSink then
    match d.render f s with
    | .error fault => (.error fault, s)
    | .ok r => (.ok r, s.append (r.report seq))
  else
    (.error .sinkMissing, s)

/-- Writes the report of a frame to the sink under any number. The picture is made before the
number is looked at. -/
def write (d : Decoder) (f : Frame) (seq : Int) (hasSink : Bool) (s : DecoderState) :
    Outcome Rendering :=
  match d.writeUnder f seq hasSink s with
  | (.error fault, _) => (.error fault, s)
  | (.ok r, written) => if Text.isWritable seq then (.ok r, written) else (.error .integerSize, s)

theorem write_error {d : Decoder} {f : Frame} {seq : Int} {hasSink : Bool}
    {s s' : DecoderState} {fault : Fault} (h : d.write f seq hasSink s = (.error fault, s')) :
    s' = s := by
  unfold write at h
  split at h
  · cases h
    rfl
  · split at h
    · cases h
    · cases h
      rfl

/-- Writes the report of a frame under the next number and enters a program in the ledger. The
number is taken once the report is written, whatever becomes of the program. It counts reports, so
it does not have too many digits. -/
def log (d : Decoder) (f : Frame) (p : Program) (hasSink : Bool) (s : DecoderState) :
    Outcome Rendering :=
  match d.writeUnder f (s.ledger.count + 1) hasSink s with
  | (.error fault, s) => (.error fault, s)
  | (.ok r, s) =>
    let s := { s with ledger := s.ledger.numbered }
    match p.blockingClause with
    | .error fault => (.error fault, s)
    | .ok clause =>
      let s := { s with ledger := s.ledger.addEntry p clause }
      match Assignment.ofLits d.placement d.nPis p.lits with
      | .error fault => (.error fault, s)
      | .ok rows => (.ok r, { s with ledger := s.ledger.addRows rows })

/-- Extracts the program of a start frame and notes the frame. -/
def extractFrom (d : Decoder) (start : StartFrame) (s : DecoderState) : Outcome Program :=
  match Program.ofStartFrame d.placement d.nPis d.resetVar start with
  | .error fault => (.error fault, s)
  | .ok p => (.ok p, { s with startFrame := start.index })

/-- Extracts the program of a chain. -/
def extract (d : Decoder) (c : Chain) (s : DecoderState) : Outcome Program :=
  match c.startFrame d.resetVar with
  | .error fault => (.error fault, s)
  | .ok start => d.extractFrom start s

/-- The line printed for a decoded chain. -/
def decodedLine (count chainLength : Nat) (p : Program) : String :=
  s!"[CEX] program #{count}: chain length={chainLength}, " ++
    s!"start_frame={p.startFrame}, lits={p.lits.length}\n"

/-- Decodes a chain: start frame, program, report and ledger, and a line on the console. -/
def decode (d : Decoder) (c : Chain) (hasSink : Bool) (s : DecoderState) : Outcome Program :=
  match c.startFrame d.resetVar with
  | .error fault => (.error fault, s)
  | .ok start =>
    match d.extractFrom start s with
    | (.error fault, s) => (.error fault, s)
    | (.ok p, s) =>
      match d.log start.frame p hasSink s with
      | (.error fault, s) => (.error fault, s)
      | (.ok _, s) => (.ok p, s.print (decodedLine s.ledger.count c.length p))

/-- Prints the assignments of a program by instruction, up to a line that cannot be written. -/
def list (d : Decoder) (p : Program) (nPis : Int) (s : DecoderState) : Outcome Unit :=
  match Assignment.ofLits d.placement nPis p.lits with
  | .error fault => (.error fault, s)
  | .ok rows =>
    let listing := Assignment.listing p.startFrame rows
    (Passage.ended listing, s.print (Passage.written listing))

/-- Decodes chains one after the other and lists each program; the first fault ends it. -/
def decodeAll (d : Decoder) : List Chain → DecoderState → Outcome (List Program)
  | [], s => (.ok [], s)
  | c :: chains, s =>
    match d.decode c true s with
    | (.error fault, s) => (.error fault, s)
    | (.ok p, s) =>
      match d.list p d.nPis s with
      | (.error fault, s) => (.error fault, s)
      | (.ok _, s) =>
        match d.decodeAll chains s with
        | (.error fault, s) => (.error fault, s)
        | (.ok programs, s) => (.ok (p :: programs), s)

end Decoder

/-! ## Questions about registers and inputs -/

/-- A question about one register or input. -/
inductive Query where
  /-- The instruction of a register, if it has one. -/
  | registerInstruction
  /-- The position of a register's input in its instruction. -/
  | registerBit
  /-- Whether a register has an instruction. -/
  | registerAddressable
  /-- The copy of a register. -/
  | registerCopy
  /-- The instruction of an input. -/
  | inputInstruction
  /-- The position of an input in its instruction. -/
  | inputBit
deriving DecidableEq, Repr

namespace Decoder

/-- The answer to a question about a register or input. -/
def answer (d : Decoder) (query : Query) (id : Int) : Except Fault (Option Number) := do
  match query with
  | .registerInstruction => return (← d.registers.get id).inst.map .whole
  | .registerBit => return some (← d.placement.bitOf (← d.registers.get id).pi)
  | .registerAddressable => return some (.truth (← d.registers.get id).inst.isSome)
  | .registerCopy => return some (.whole (← d.registers.get id).copy)
  | .inputInstruction => return some (← d.placement.instructionOf id)
  | .inputBit => return some (← d.placement.bitOf id)

end Decoder
end ImemReplay
