import ImemReplay.Decoder
import ImemReplay.ToyChain

/-!
# Sessions

A session is a sequence of steps on one decoder. Each step sees an empty console and an empty
sink, and leaves the ledger, the start frame and the shape to the next one.

Main results:

- Theorem `perform_append`: the steps of a session can be performed in two parts.
-/

namespace ImemReplay

/-- A step of a session. Where a step needs a sink, `hasSink` says whether it is given one. -/
inductive Step where
  | decode (chain : Chain) (hasSink : Bool)
  | resolve (chain : Chain)
  | extract (chain : Chain)
  | render (frame : Frame)
  | write (frame : Frame) (seq : Int) (hasSink : Bool)
  | log (frame : Frame) (program : Program) (hasSink : Bool)
  | list (program : Program) (nPis : Int)
  | describe (lits : List Int) (nPis : Int)
  | block (program : Program)
  | query (query : Query) (id : Int)
  | toy
  | reshape (shape : Shape)
  | dump
deriving DecidableEq, Repr

/-- What a step answers. -/
inductive Answer where
  | program (program : Program)
  | startFrame (start : StartFrame)
  | rendering (rendering : Rendering)
  | nothing
  | assignments (rows : List Assignment)
  | clause (lits : List Int)
  | number (number : Option Number)
  | chains (chains : List Chain)
  | totalBits (total : Int)
  | dumps (json : String) (table : Option String)
deriving DecidableEq, Repr

/-- A step that has ended. -/
structure StepResult where
  result : Except Fault Answer
  /-- The state after the step, with what the step printed and wrote. -/
  state : DecoderState

namespace Outcome

/-- The end of a step with its value as an answer. -/
def answered {α : Type} (outcome : Outcome α) (toAnswer : α → Answer) : StepResult :=
  ⟨outcome.1.map toAnswer, outcome.2⟩

end Outcome

namespace Decoder

variable [Memory]

/-- Performs a step on the state it is given. -/
def stepFrom (d : Decoder) (s : DecoderState) : Step → StepResult
  | .decode chain hasSink => Outcome.answered (d.decode chain hasSink s) .program
  | .resolve chain => ⟨(chain.startFrame d.resetVar).map .startFrame, s⟩
  | .extract chain => Outcome.answered (d.extract chain s) .program
  | .render frame => ⟨(d.render frame s).map .rendering, s⟩
  | .write frame seq hasSink => Outcome.answered (d.write frame seq hasSink s) .rendering
  | .log frame program hasSink => Outcome.answered (d.log frame program hasSink s) .rendering
  | .list program nPis => Outcome.answered (d.list program nPis s) fun _ => .nothing
  | .describe lits nPis => ⟨(Assignment.ofLits d.placement nPis lits).map .assignments, s⟩
  | .block program => ⟨program.blockingClause.map .clause, s⟩
  | .query query id => ⟨(d.answer query id).map .number, s⟩
  | .toy => ⟨(toyChain d.nPis d.resetVar).map fun chain => .chains [chain], s⟩
  | .reshape shape => ⟨.ok (.totalBits shape.totalBits), { s with shape }⟩
  | .dump => ⟨s.ledger.dumps.map fun texts => .dumps texts.1 texts.2, s⟩

/-- Performs a step with an empty console and an empty sink. -/
def step (d : Decoder) (s : DecoderState) (step : Step) : StepResult :=
  d.stepFrom { s with console := "", sink := "" } step

/-- Performs steps in order; a step that fails does not end the session. -/
def perform (d : Decoder) (s : DecoderState) : List Step → List StepResult
  | [] => []
  | first :: steps =>
    let result := d.step s first
    result :: d.perform result.state steps

/-- The state after a sequence of steps. -/
def stateAfter (d : Decoder) (s : DecoderState) (steps : List Step) : DecoderState :=
  steps.foldl (fun s step => (d.step s step).state) s

theorem perform_append {d : Decoder} {s : DecoderState} {front back : List Step} :
    d.perform s (front ++ back) = d.perform s front ++ d.perform (d.stateAfter s front) back := by
  induction front generalizing s with
  | nil => rfl
  | cons first front ih => simp [perform, stateAfter, ih]

end Decoder
end ImemReplay
