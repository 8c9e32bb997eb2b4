import ImemReplay.Number.Basic
import ImemReplay.Text.Numeral
import ImemReplay.Text.Quoted
import ImemReplay.Timestamp

/-!
# Faults

Everything that can go wrong while tables, chains and configurations are read and chains are
decoded. A fault is named for its cause, `Fault.kind` groups the causes, and `Fault.message?` is
the only place that words them. An integer with too many digits cannot be written, so a fault whose
text would show one is reported as that fault.

Main results:

- Definition `kind`: the group of a fault; a fault inside a file has the group of its cause.
- Definition `message?`: the text of a fault, for the groups that are reported with a text.
- Definition `reported`: the fault that is reported in place of a fault.
- Theorem `reported_eq_self`: a fault whose integers can be written is reported as it is.
- Theorem `shown_reported`: the integers in the text of a reported fault can be written.
- Theorem `kind_reported`: the group of a reported fault.
- Theorem `length_excerpt_le`: a text that is no numeral is shown in part if it is long.
- Theorem `bind_eq_error_iff`: where a fault of two steps comes from.
-/

namespace ImemReplay

/-- A cause of failure. -/
inductive Fault where
  /-- A negative number in place of a variable. -/
  | negativeVariable (id : Int)
  /-- A negative number in place of a literal. -/
  | negativeLiteral (literal : Int)
  /-- A state segment that is negative or longer than the frame. -/
  | frameSplit (stateCount : Int) (size : Nat)
  /-- An index outside a chain. -/
  | frameIndex
  /-- An index that no list has. -/
  | indexSize
  /-- A list that there is no room for. -/
  | memory
  /-- An instruction memory without bits. -/
  | memoryShape (instLen nInsts : Int)
  /-- An input placed outside the instruction memory. -/
  | slotRange (input : Nat) (slot : Number) (totalBits : Int)
  /-- Two inputs placed at one bit. -/
  | slotShared (input owner : Nat) (slot : Number)
  /-- An input that the placement does not list. -/
  | inputRange (input : Int)
  /-- An input that drives no bit of the instruction memory. -/
  | inputUnmapped (input : Int)
  /-- Register columns of different lengths. -/
  | registerSizes (inst pi copy : Nat)
  /-- A register with a negative instruction. -/
  | registerInstruction (register : Nat) (inst : Int)
  /-- A register with a negative input. -/
  | registerInput (register : Nat) (pi : Int)
  /-- A register with a negative copy. -/
  | registerCopy (register : Nat) (copy : Int)
  /-- A register that the table does not list. -/
  | registerRange (register : Int)
  /-- A negative reset variable. -/
  | resetVariable (id : Int)
  /-- A chain without frames has no start frame. -/
  | emptyChain
  /-- A program that denies reset in its start frame. -/
  | resetDenied (literal : Int) (frame : Nat)
  /-- A report without a place to go to. -/
  | sinkMissing
  /-- A rendering without bits. -/
  | emptyRendering (totalBits : Int)
  /-- A bit beyond the rendering. -/
  | bitBeyondRendering
  /-- Too few inputs for the toy chain. -/
  | toyInputs (nPis : Int)
  /-- A document that does not follow the grammar. -/
  | malformed
  /-- A document with too many levels. -/
  | nesting
  /-- A code point beyond the last character. -/
  | codePoint
  /-- A text that is no integer of the base. -/
  | numeral (base : Nat) (text : String)
  /-- A numeral with too many digits. -/
  | numeralSize (digits : Nat)
  /-- An integer with too many digits to be shown. -/
  | integerSize
  /-- A text without the character that is asked for. -/
  | textIndex
  /-- A text that is no real. -/
  | realNumeral (text : String)
  /-- A timestamp with a part that does not exist. -/
  | timePart (part : TimePart)
  /-- A real that is no number where an integer is needed. -/
  | notANumber
  /-- A number without an integer or real counterpart. -/
  | unbounded
  /-- A value of another kind than its place needs. -/
  | wrongType
  /-- A value without fields where fields are asked for. -/
  | noFields
  /-- Fields without the key that is asked for. -/
  | keyMissing (key : String)
  /-- A file or directory that does not exist. -/
  | fileMissing
  /-- A directory opened as a file. -/
  | directoryOpened
  /-- A path that goes through a file. -/
  | notADirectory
  /-- A path with the character that ends texts. -/
  | pathTerminator
  /-- A path with a code point that has no bytes. It stands at the index `first`, and surrogates
  follow it up to the index `last`. -/
  | pathEncoding (code first last : Nat)
  /-- A path that is too long, or has a name that is. -/
  | pathSize
  /-- A table file that does not exist. -/
  | tableMissing (path : String)
  /-- A chain file that does not exist. -/
  | chainMissing (path : String)
  /-- A table document without a placement. -/
  | placementMissing
  /-- A placement that is neither a list nor a mapping. -/
  | placementKind
  /-- A key of a placement outside the declared inputs. -/
  | placementKey (key : String) (nPis : Nat)
  /-- A table document without registers. -/
  | registersMissing
  /-- A register entry without an input. -/
  | registerEntry (index : Nat)
  /-- A chain document without frames. -/
  | framesMissing
  /-- A frame that is no mapping. -/
  | frameKind (index : Nat)
  /-- A frame without literals. -/
  | frameLiterals (index : Nat)
  /-- A fault of a file's content, with the file's path. -/
  | inFile (path : String) (cause : Fault)
deriving DecidableEq, Repr

namespace Fault

/-- The groups of faults. -/
inductive Kind where
  /-- A value that its place does not admit. -/
  | invalidValue
  /-- An index outside a table or a list. -/
  | outOfBounds
  /-- A program that contradicts the frame it was taken from. -/
  | contradiction
  /-- A key that is not there. -/
  | missingKey
  /-- A file that is not there. -/
  | missingFile
  /-- A value of the wrong type. -/
  | wrongType
  /-- A value without fields. -/
  | noFields
  /-- A number that is too large. -/
  | overflow
  /-- A directory in place of a file. -/
  | isDirectory
  /-- A file in place of a directory. -/
  | notDirectory
  /-- A document that cannot be read. -/
  | malformedDocument
  /-- A document whose levels cannot be followed. -/
  | deepDocument
  /-- A list that does not fit into memory. -/
  | outOfMemory
  /-- What the file system refuses. -/
  | fileSystem
  /-- A text that has no bytes. -/
  | encoding
deriving DecidableEq, Repr

/-- The group of a fault. -/
def kind : Fault → Kind
  | frameIndex | indexSize | inputRange _ | registerRange _ | bitBeyondRendering | textIndex =>
    .outOfBounds
  | memory => .outOfMemory
  | resetDenied _ _ => .contradiction
  | keyMissing _ => .missingKey
  | fileMissing | tableMissing _ | chainMissing _ => .missingFile
  | wrongType => .wrongType
  | noFields => .noFields
  | unbounded => .overflow
  | directoryOpened => .isDirectory
  | notADirectory => .notDirectory
  | pathSize => .fileSystem
  | pathEncoding _ _ _ => .encoding
  | malformed => .malformedDocument
  | nesting => .deepDocument
  | inFile _ cause => cause.kind
  | negativeVariable _ | negativeLiteral _ | frameSplit _ _ | memoryShape _ _
  | slotRange _ _ _ | slotShared _ _ _ | inputUnmapped _ | registerSizes _ _ _
  | registerInstruction _ _ | registerInput _ _ | registerCopy _ _ | resetVariable _
  | emptyChain | sinkMissing | emptyRendering _ | toyInputs _ | codePoint | numeral _ _
  | numeralSize _ | integerSize | realNumeral _ | timePart _ | notANumber | pathTerminator
  | placementMissing | placementKind | placementKey _ _ | registersMissing | registerEntry _
  | framesMissing | frameKind _ | frameLiterals _ => .invalidValue

/-- The number of characters that are shown of a text. -/
def excerptLimit : Nat := 200

/-- The beginning of a text between quotation marks, the opening mark included. -/
def excerpt (s : String) : String := String.ofList ((Text.quoted s.toList).take excerptLimit)

theorem length_excerpt_le (s : String) : (excerpt s).length ≤ excerptLimit := by
  simp only [excerpt, String.length_ofList, List.length_take]
  omega

/-- The text of a part of a timestamp that does not exist. -/
def timePartMessage : TimePart → String
  | .year value => s!"year {value} is out of range"
  | .month => "month must be in 1..12"
  | .day => "day is out of range for month"
  | .hour => "hour must be in 0..23"
  | .minute => "minute must be in 0..59"
  | .second => "second must be in 0..59"
  | .offset minutes =>
    let seconds := minutes % 1440 * 60
    "offset must be a timedelta strictly between -timedelta(hours=24) and timedelta(hours=24), " ++
      s!"not datetime.timedelta(days={minutes / 1440}" ++
      (if seconds = 0 then "" else s!", seconds={seconds}") ++ ")."

/-- The text of a fault. -/
def message? : Fault → Option String
  | negativeVariable id => s!"negative variable id: {id}"
  | negativeLiteral literal => s!"negative literal: {literal}"
  | frameSplit stateCount size => s!"invalid cube: n_lits={stateCount}, n_total={size}"
  | frameIndex => "list index out of range"
  | indexSize => "cannot fit 'int' into an index-sized integer"
  | memoryShape instLen nInsts => s!"invalid imem shape: inst_len={instLen}, n_insts={nInsts}"
  | slotRange input slot totalBits =>
    s!"placement of PI {input} out of range: {slot.text} (total_bits={totalBits})"
  | slotShared input owner slot => s!"PI {input} and PI {owner} share imem slot {slot.text}"
  | inputRange input => s!"PI id out of range: {input}"
  | inputUnmapped input => s!"PI {input} is not mapped to instruction memory"
  | registerSizes inst pi copy =>
    s!"register tables size mismatch: inst={inst}, pi={pi}, copy={copy}"
  | registerInstruction register inst =>
    s!"register {register}: negative instruction id {inst}, use None"
  | registerInput register pi => s!"register {register}: negative PI id {pi}"
  | registerCopy register copy => s!"register {register}: negative copy index {copy}"
  | registerRange register => s!"register id out of range: {register}"
  | resetVariable id => s!"invalid reset variable id: {id}"
  | emptyChain => "cannot resolve start frame of an empty chain"
  | resetDenied literal frame =>
    s!"complemented reset literal {literal} kept in frame {frame}"
  | sinkMissing => "output sink is required"
  | emptyRendering totalBits => s!"total_bits must be positive, got {totalBits}"
  | bitBeyondRendering => "list assignment index out of range"
  | toyInputs nPis => s!"toy frontend needs two non-reset PIs, got n_pis={nPis}"
  | nesting => "maximum recursion depth exceeded"
  | codePoint => "chr() arg not in range(0x110000)"
  | numeral base text => s!"invalid literal for int() with base {base}: " ++ excerpt text
  | numeralSize digits =>
    s!"Exceeds the limit ({Text.digitLimit} digits) for integer string conversion: " ++
      s!"value has {digits} digits; use sys.set_int_max_str_digits() to increase the limit"
  | integerSize =>
    s!"Exceeds the limit ({Text.digitLimit} digits) for integer string conversion; " ++
      "use sys.set_int_max_str_digits() to increase the limit"
  | textIndex => "string index out of range"
  | realNumeral text =>
    "could not convert string to float: " ++ String.ofList (Text.quoted text.toList)
  | timePart part => timePartMessage part
  | notANumber => "cannot convert float NaN to integer"
  | keyMissing key => String.ofList (Text.quoted key.toList)
  | pathTerminator => "embedded null byte"
  | pathEncoding code first last =>
    if first = last then
      "'utf-8' codec can't encode character '" ++ String.ofList (Text.numbered code) ++
        s!"' in position {first}: surrogates not allowed"
    else
      s!"'utf-8' codec can't encode characters in position {first}-{last}: surrogates not allowed"
  | tableMissing path => s!"table file not found: {path}"
  | chainMissing path => s!"chain file not found: {path}"
  | placementMissing => "missing 'placement' section"
  | placementKind => "'placement' must be a list or a mapping"
  | placementKey key nPis => s!"PI id {key} out of range (n_pis={nPis})"
  | registersMissing => "missing 'registers' list"
  | registerEntry index => s!"register entry {index} must be a mapping with 'pi'"
  | framesMissing => "missing 'frames' list"
  | frameKind index => s!"frame {index} must be a mapping"
  | frameLiterals index => s!"frame {index} has no 'lits'"
  | inFile path cause => cause.message?.map fun text => s!"{path}: {text}"
  | malformed | memory | unbounded | wrongType | noFields | fileMissing
  | directoryOpened | notADirectory | pathSize => none

/-- The integers that the text of a fault takes from the fault. -/
def shown : Fault → List Int
  | negativeVariable value | negativeLiteral value | inputRange value | inputUnmapped value
  | registerRange value | resetVariable value | emptyRendering value | toyInputs value => [value]
  | frameSplit stateCount size => [stateCount, size]
  | memoryShape instLen nInsts => [instLen, nInsts]
  | slotRange input slot totalBits => [(input : Int), totalBits] ++ slot.shown
  | slotShared input owner slot => [(input : Int), owner] ++ slot.shown
  | registerSizes inst pi copy => [inst, pi, copy]
  | registerInstruction register value | registerInput register value
  | registerCopy register value => [register, value]
  | resetDenied literal frame => [literal, frame]
  | placementKey _ nPis => [nPis]
  | registerEntry index | frameKind index | frameLiterals index => [index]
  | numeral base _ => [base]
  | numeralSize digits => [digits]
  | pathEncoding _ first last => [first, last]
  | inFile _ cause => cause.shown
  | frameIndex | indexSize | memory | emptyChain | sinkMissing | bitBeyondRendering | malformed
  | nesting | codePoint | integerSize | textIndex | realNumeral _ | timePart _ | notANumber
  | unbounded | wrongType | noFields | keyMissing _ | fileMissing | directoryOpened
  | notADirectory | pathTerminator | pathSize | tableMissing _ | chainMissing _
  | placementMissing | placementKind | registersMissing | framesMissing => []

/-- The fault of a text that cannot be written; the path of a file stays in front of it. -/
def unwritten : Fault → Fault
  | inFile path cause => inFile path cause.unwritten
  | _ => integerSize

/-- The fault that is reported: an integer with too many digits cannot be written, which is a fault
of its own. -/
def reported (fault : Fault) : Fault :=
  if fault.shown.all Text.isWritable then fault else fault.unwritten

theorem shown_unwritten {fault : Fault} : fault.unwritten.shown = [] := by
  induction fault with
  | inFile path cause ih => exact ih
  | _ => rfl

theorem kind_unwritten {fault : Fault} : fault.unwritten.kind = .invalidValue := by
  induction fault with
  | inFile path cause ih => exact ih
  | _ => rfl

theorem reported_eq_self {fault : Fault} (h : fault.shown.all Text.isWritable = true) :
    fault.reported = fault :=
  if_pos h

@[simp]
theorem shown_reported {fault : Fault} :
    fault.reported.shown.all Text.isWritable = true := by
  by_cases h : fault.shown.all Text.isWritable = true
  · rw [reported_eq_self h]
    exact h
  · rw [reported, if_neg h, shown_unwritten]
    rfl

theorem kind_reported {fault : Fault} :
    fault.reported.kind =
      if fault.shown.all Text.isWritable then fault.kind else .invalidValue := by
  by_cases h : fault.shown.all Text.isWritable = true
  · rw [reported_eq_self h, if_pos h]
  · rw [reported, if_neg h, if_neg h, kind_unwritten]

/-- An invalid value is reported as one, whether or not its text can be written. -/
theorem kind_reported_of_invalidValue {fault : Fault} (h : fault.kind = .invalidValue) :
    fault.reported.kind = .invalidValue := by
  rw [kind_reported, h, ite_self]

end Fault

/-! ## Two steps -/

section Steps

variable {α β : Type} {fault : Fault}

/-- A fault of two steps is one of the first, or one of the second after the first was done. -/
theorem bind_eq_error_iff {x : Except Fault α} {f : α → Except Fault β} :
    (x >>= f) = .error fault ↔ x = .error fault ∨ ∃ a, x = .ok a ∧ f a = .error fault := by
  cases x with
  | error other => simp [bind, Except.bind]
  | ok a => simp [bind, Except.bind]

/-- Two steps succeed if the first one does, and the second one with its result. -/
theorem bind_eq_ok_iff {x : Except Fault α} {f : α → Except Fault β} {b : β} :
    (x >>= f) = .ok b ↔ ∃ a, x = .ok a ∧ f a = .ok b := by
  cases x with
  | error other => simp [bind, Except.bind]
  | ok a => simp [bind, Except.bind]

/-- A value that is changed on the way is there if the step succeeds. -/
theorem map_eq_ok_iff {x : Except Fault α} {f : α → β} {b : β} :
    x.map f = .ok b ↔ ∃ a, x = .ok a ∧ f a = b := by
  cases x with
  | error other => simp [Except.map]
  | ok a => simp [Except.map]

end Steps

end ImemReplay
