import ImemReplay.Proofs.CutTexts
import ImemReplay.Proofs.Decoding
import ImemReplay.Proofs.InstructionGroups
import ImemReplay.Proofs.WrittenNumbers

/-!
# Listings read back

The listing of a program tells its start frame and the number of its assignments, and it has a line
for every instruction, with the bits of the instruction and their values.  A reader who cuts it into
lines and the lines at blanks finds every assignment of the program once, under its instruction.
Each line is printed as a whole, and a line with an integer that cannot be written ends the listing:
what is printed then are the lines in front of it.

Main results:

- Theorem `read?_text`: a listing is read back from its text.
- Theorem `shows_ofRows`: the groups of a listing show the assignments.
- Theorem `list_shows`: what is printed for a program shows the assignments of its literals, up to
  a line that cannot be written.
- Theorem `unwritable_startFrame_not_listed`: a program of which nothing is printed.
-/

namespace ImemReplay

namespace Text

/-! ## Words among blanks -/

/-- The words of a text between blanks, however many blanks there are. -/
def tokens (text : String) : List String := (words ' ' text).filter (· ≠ "")

/-- A text of so many blanks. -/
def blanks (n : Nat) : String := String.ofList (List.replicate n ' ')

theorem tokens_blanks (n : Nat) (text : String) : tokens (blanks n ++ text) = tokens text := by
  rw [tokens, words, blanks, String.toList_append, String.toList_ofList]
  induction n with
  | zero => rfl
  | succ n ih =>
    rw [List.replicate_succ, List.cons_append, parts, if_pos rfl, List.map_cons]
    exact ih

/-- A text without blanks is a word. -/
theorem tokens_word {word : String} (hne : word ≠ "") (h : ' ' ∉ word.toList) :
    tokens word = [word] := by
  rw [tokens, words, parts_of_not_mem h, List.map_singleton, String.ofList_toList,
    List.filter_cons_of_pos (by simpa using hne), List.filter_nil]

/-- A blank ends a word. -/
theorem tokens_append {word : String} (hne : word ≠ "") (h : ' ' ∉ word.toList) (text : String) :
    tokens (word ++ " " ++ text) = word :: tokens text := by
  have hblank : " ".toList = [' '] := rfl
  rw [tokens, words, String.toList_append, String.toList_append, hblank, List.append_assoc,
    List.singleton_append, parts_append_cons h, List.map_cons, String.ofList_toList,
    List.filter_cons_of_pos (by simpa using hne)]
  rfl

/-- Words with blanks between them are found again. -/
theorem tokens_intercalate {ws : List String} (hne : ∀ word ∈ ws, word ≠ "")
    (h : ∀ word ∈ ws, ' ' ∉ word.toList) : tokens (" ".intercalate ws) = ws := by
  cases ws with
  | nil => rfl
  | cons word ws =>
    have hwords : words ' ' (" ".intercalate (word :: ws)) = word :: ws :=
      words_intercalate (List.cons_ne_nil word ws) h
    rw [tokens, hwords, List.filter_eq_self]
    intro part hpart
    simpa using hne part hpart

end Text

/-- A listing as a reader knows it. -/
structure Listing where
  startFrame : Int
  /-- The number of assignments that it tells. -/
  count : Int
  /-- The instructions, each with its bits and their values. -/
  groups : List (Int × List (Int × Bool))
deriving DecidableEq, Repr

namespace Listing

/-! ## Lines of a listing -/

/-- The text of a value. -/
def digit (value : Bool) : String := if value then "1" else "0"

/-- The word of a bit. -/
def bitWord (bit : Int × Bool) : String := "b" ++ (toString bit.1 ++ "=" ++ digit bit.2)

/-- The line of an instruction. -/
def groupLine (group : Int × List (Int × Bool)) : String :=
  "  inst " ++ Assignment.padded group.1 ++ "  " ++ " ".intercalate (group.2.map bitWord)

/-- The word that gives a number to a name. -/
def named (name : String) (i : Int) : String := name ++ "=" ++ toString i

/-- The first line. -/
def heading (listing : Listing) : String :=
  "[EXTRACT]" ++ " " ++
    (named "start_frame" listing.startFrame ++ " " ++ named "lits" listing.count)

/-- The text of a listing. -/
def text (listing : Listing) : String :=
  String.join ((listing.heading :: listing.groups.map groupLine).map (· ++ "\n"))

/-- The lines of a listing, each with the integers that it shows.  The number of assignments is the
length of a list. -/
def lines (listing : Listing) : List Passage :=
  { shown := [listing.startFrame], text := listing.heading ++ "\n" } ::
    listing.groups.map fun group =>
      { shown := group.1 :: group.2.map (·.1), text := groupLine group ++ "\n" }

theorem textOf_lines (listing : Listing) : Passage.textOf listing.lines = listing.text := by
  rw [Passage.textOf, lines, text, List.map_cons, List.map_cons, List.map_map, List.map_map]
  rfl

/-- The integers of a listing can be written. -/
structure Writable (listing : Listing) : Prop where
  startFrame : Text.isWritable listing.startFrame = true
  inst : ∀ group ∈ listing.groups, Text.isWritable group.1 = true
  bit : ∀ group ∈ listing.groups, ∀ bit ∈ group.2, Text.isWritable bit.1 = true

theorem writable_iff {listing : Listing} :
    listing.Writable ↔ Passage.Writable listing.lines := by
  simp only [lines, Passage.Writable, Passage.isWritable, List.all_eq_true, List.forall_mem_cons,
    List.forall_mem_map, List.not_mem_nil, false_implies, implies_true, and_true]
  constructor
  · intro h
    exact ⟨h.startFrame, fun group hgroup => ⟨h.inst group hgroup, h.bit group hgroup⟩⟩
  · intro h
    exact ⟨h.1, fun group hgroup => (h.2 group hgroup).1, fun group hgroup => (h.2 group hgroup).2⟩

/-! ## Reading -/

/-- The value of a digit. -/
def valueOf? (word : String) : Option Bool :=
  if word = "1" then some true else if word = "0" then some false else none

/-- The bit and the value of a word. -/
def bitOf? (word : String) : Option (Int × Bool) :=
  match word.toList with
  | 'b' :: cs =>
    match Text.words '=' (String.ofList cs) with
    | [bit, value] => do return (← Text.integer? bit, ← valueOf? value)
    | _ => none
  | _ => none

/-- The instruction of a line with its bits. -/
def groupOf? (line : String) : Option (Int × List (Int × Bool)) :=
  match Text.tokens line with
  | label :: inst :: bits =>
    if label = "inst" then do return (← Text.integer? inst, ← bits.mapM bitOf?) else none
  | _ => none

/-- The number that a word gives to a name. -/
def numberOf? (name word : String) : Option Int :=
  match Text.words '=' word with
  | [label, number] => if label = name then Text.integer? number else none
  | _ => none

/-- The start frame and the number of assignments in the first line. -/
def headingOf? (line : String) : Option (Int × Int) :=
  match Text.tokens line with
  | [label, startFrame, count] =>
    if label = "[EXTRACT]" then do
      return (← numberOf? "start_frame" startFrame, ← numberOf? "lits" count)
    else none
  | _ => none

/-- The listing in a text. -/
def read? (text : String) : Option Listing :=
  match Text.lines text with
  | [] => none
  | first :: rest => do
    let numbers ← headingOf? first
    let groups ← rest.mapM groupOf?
    return ⟨numbers.1, numbers.2, groups⟩

/-- A character of the words for bits and named numbers, the names apart. -/
def isWordChar (c : Char) : Bool := Text.isIntegerChar c || c = 'b' || c = '='

/-- Any other character is in no word for a bit. -/
theorem not_mem_bitWord {c : Char} (h : isWordChar c = false) (bit : Int × Bool) :
    c ∉ (bitWord bit).toList := by
  simp only [isWordChar, Bool.or_eq_false_iff, decide_eq_false_iff_not] at h
  rcases h with ⟨⟨hinteger, hb⟩, heq⟩
  have hvalue : digit bit.2 = toString bit.2.toInt := by cases bit.2 <;> rfl
  rw [bitWord, hvalue]
  apply Text.not_mem_append (by simpa using hb)
  apply Text.not_mem_append _ (Text.not_mem_toString hinteger bit.2.toInt)
  exact Text.not_mem_append (Text.not_mem_toString hinteger bit.1) (by simpa using heq)

theorem bitWord_ne_empty (bit : Int × Bool) : bitWord bit ≠ "" := by
  simp [bitWord]

/-- Any other character of a named number is one of the name. -/
theorem not_mem_named {c : Char} (h : isWordChar c = false) {name : String}
    (hname : c ∉ name.toList) (i : Int) : c ∉ (named name i).toList := by
  simp only [isWordChar, Bool.or_eq_false_iff, decide_eq_false_iff_not] at h
  rcases h with ⟨⟨hinteger, -⟩, heq⟩
  apply Text.not_mem_append _ (Text.not_mem_toString hinteger i)
  exact Text.not_mem_append hname (by simpa using heq)

theorem named_ne_empty (name : String) (i : Int) : named name i ≠ "" := by
  simp [named]

theorem numberOf?_named {name : String} (h : '=' ∉ name.toList) (i : Int) :
    numberOf? name (named name i) = some i := by
  have hwords : Text.words '=' (named name i) = [name, toString i] :=
    Text.words_pair h (Text.not_mem_toString rfl i)
  rw [numberOf?, hwords]
  simp only [if_true, Text.integer?_toString]

/-- The word of a bit gives the bit and its value. -/
theorem bitOf?_bitWord (bit : Int × Bool) : bitOf? (bitWord bit) = some bit := by
  rcases bit with ⟨place, value⟩
  have hvalue : valueOf? (digit value) = some value := by cases value <;> rfl
  have hwords : Text.words '=' (toString place ++ "=" ++ digit value) =
      [toString place, digit value] :=
    Text.words_pair (Text.not_mem_toString rfl place)
      (by cases value <;> decide)
  have hletter : (bitWord (place, value)).toList =
      'b' :: (toString place ++ "=" ++ digit value).toList := by
    rw [bitWord, String.toList_append]
    rfl
  rw [bitOf?, hletter]
  simp only [String.ofList_toList, hwords, Text.integer?_toString, hvalue]
  rfl

/-- The words of an instruction's line. -/
theorem tokens_groupLine (group : Int × List (Int × Bool)) :
    Text.tokens (groupLine group) = "inst" :: toString group.1 :: group.2.map bitWord := by
  have hline : groupLine group = Text.blanks 2 ++ ("inst" ++ " " ++
      (Text.blanks (4 - (toString group.1).length) ++ (toString group.1 ++ " " ++
        (Text.blanks 1 ++ " ".intercalate (group.2.map bitWord))))) := by
    have hlabel : "  inst " = Text.blanks 2 ++ "inst" ++ " " := rfl
    have hgap : "  " = " " ++ Text.blanks 1 := rfl
    rw [groupLine, hlabel, hgap]
    simp only [Assignment.padded, Text.blanks, String.append_assoc]
  have hbits : Text.tokens (" ".intercalate (group.2.map bitWord)) = group.2.map bitWord := by
    apply Text.tokens_intercalate
    · intro word hword
      rcases List.mem_map.1 hword with ⟨bit, -, rfl⟩
      exact bitWord_ne_empty bit
    · intro word hword
      rcases List.mem_map.1 hword with ⟨bit, -, rfl⟩
      exact not_mem_bitWord rfl bit
  have hinst : toString group.1 ≠ "" := fun h =>
    Text.toString_ne_nil group.1 (by rw [h]; rfl)
  rw [hline, Text.tokens_blanks, Text.tokens_append (by decide) (by decide), Text.tokens_blanks,
    Text.tokens_append hinst (Text.not_mem_toString rfl group.1),
    Text.tokens_blanks, hbits]

/-- The line of an instruction gives the instruction and its bits. -/
theorem groupOf?_groupLine (group : Int × List (Int × Bool)) :
    groupOf? (groupLine group) = some group := by
  have hbits : (group.2.map bitWord).mapM bitOf? = some group.2 :=
    Text.mapM_map_of_read fun bit _ => bitOf?_bitWord bit
  rw [groupOf?, tokens_groupLine]
  simp only [if_true, Text.integer?_toString, hbits]
  rfl

/-- The first line gives the start frame and the number of assignments. -/
theorem headingOf?_heading (listing : Listing) :
    headingOf? listing.heading = some (listing.startFrame, listing.count) := by
  have hblank : ∀ {name : String}, ' ' ∉ name.toList → ∀ i, ' ' ∉ (named name i).toList :=
    not_mem_named rfl
  have htokens : Text.tokens listing.heading =
      ["[EXTRACT]", named "start_frame" listing.startFrame, named "lits" listing.count] := by
    rw [heading, Text.tokens_append (by decide) (by decide),
      Text.tokens_append (named_ne_empty _ _) (hblank (by decide) listing.startFrame),
      Text.tokens_word (named_ne_empty _ _) (hblank (by decide) listing.count)]
  rw [headingOf?, htokens]
  simp only [if_true, numberOf?_named (by decide : '=' ∉ "start_frame".toList),
    numberOf?_named (by decide : '=' ∉ "lits".toList)]
  rfl

theorem unbroken_heading (listing : Listing) : '\n' ∉ listing.heading.toList := by
  have hnamed : ∀ {name : String}, '\n' ∉ name.toList → ∀ i, '\n' ∉ (named name i).toList :=
    not_mem_named rfl
  apply Text.not_mem_append (by decide)
  have hstart := hnamed (by decide : '\n' ∉ "start_frame".toList) listing.startFrame
  have hcount := hnamed (by decide : '\n' ∉ "lits".toList) listing.count
  exact Text.not_mem_append (Text.not_mem_append hstart (by decide)) hcount

theorem unbroken_groupLine (group : Int × List (Int × Bool)) :
    '\n' ∉ (groupLine group).toList := by
  have hinst : '\n' ∉ (Assignment.padded group.1).toList := by
    apply Text.not_mem_append _ (Text.not_mem_toString rfl group.1)
    rw [String.toList_ofList, List.mem_replicate]
    exact fun h => absurd h.2 (by decide)
  have hbits : '\n' ∉ (" ".intercalate (group.2.map bitWord)).toList := by
    apply Text.not_mem_intercalate (by decide)
    intro word hword
    rcases List.mem_map.1 hword with ⟨bit, -, rfl⟩
    exact not_mem_bitWord rfl bit
  have hlabel := Text.not_mem_append (by decide : '\n' ∉ "  inst ".toList) hinst
  exact Text.not_mem_append (Text.not_mem_append hlabel (by decide)) hbits

/-- A listing is read back from its text. -/
theorem read?_text (listing : Listing) : read? listing.text = some listing := by
  have hlines : Text.lines listing.text = listing.heading :: listing.groups.map groupLine := by
    apply Text.lines_join
    rw [List.forall_mem_cons]
    refine ⟨unbroken_heading listing, ?_⟩
    intro line hline
    rcases List.mem_map.1 hline with ⟨group, -, rfl⟩
    exact unbroken_groupLine group
  have hgroups : (listing.groups.map groupLine).mapM groupOf? = some listing.groups :=
    Text.mapM_map_of_read fun group _ => groupOf?_groupLine group
  rw [read?, hlines]
  simp only [headingOf?_heading, hgroups]
  rfl

/-! ## The listing of assignments -/

/-- The listing of assignments. -/
def ofRows (startFrame : Int) (rows : List Assignment) : Listing where
  startFrame := startFrame
  count := rows.length
  groups := (Assignment.instructions rows).map fun inst =>
    (inst, (Assignment.ofInstruction rows inst).map fun row => (row.bit, row.value))

/-- Assignments are listed with the lines of their listing. -/
theorem lines_ofRows (startFrame : Int) {rows : List Assignment} (h : rows ≠ []) :
    (ofRows startFrame rows).lines = Assignment.listing startFrame rows := by
  have hbit : ∀ row : Assignment, bitWord (row.bit, row.value) = row.bitText := by
    intro row
    simp only [bitWord, digit, Assignment.bitText, String.append_assoc]
    rfl
  have hline : ∀ inst, groupLine (inst, (Assignment.ofInstruction rows inst).map fun row =>
      (row.bit, row.value)) ++ "\n" = (Assignment.line rows inst).text := by
    intro inst
    simp only [groupLine, Assignment.line, List.map_map, Function.comp_def, hbit,
      String.append_assoc]
    rfl
  have hheading : (ofRows startFrame rows).heading ++ "\n" =
      (Assignment.heading startFrame rows).text := by
    have hstart : "[EXTRACT] start_frame=" = "[EXTRACT]" ++ " " ++ "start_frame" ++ "=" := rfl
    have hcount : " lits=" = " " ++ "lits" ++ "=" := rfl
    rw [Assignment.heading, hstart, hcount]
    simp only [heading, named, String.append_assoc]
    rfl
  rw [Assignment.listing, if_neg (by simpa using h), lines, hheading, ofRows, List.map_map]
  congr 1
  apply List.map_congr_left
  intro inst _
  rw [Function.comp_apply, hline, List.map_map]
  rfl

/-- What a listing shows of assignments. -/
structure Shows (listing : Listing) (rows : List Assignment) : Prop where
  /-- It tells how many assignments there are. -/
  count_eq : listing.count = rows.length
  /-- It has a line for every instruction of the assignments, and for no other. -/
  mem_instructions : ∀ inst, inst ∈ listing.groups.map (·.1) ↔ ∃ row ∈ rows, row.inst = inst
  /-- The instructions ascend strictly. -/
  ascending : (listing.groups.map (·.1)).Pairwise (· < ·)
  /-- The line of an instruction has the assignments of the instruction, each as often as it was. -/
  group_perm : ∀ group ∈ listing.groups,
    group.2.Perm ((rows.filter (·.inst = group.1)).map fun row => (row.bit, row.value))
  /-- The bits of a line do not ascend. -/
  descending : ∀ group ∈ listing.groups, group.2.Pairwise fun a b => b.1 ≤ a.1
  /-- The assignments of one bit are shown in their order. -/
  stable : ∀ group ∈ listing.groups, ∀ bit, group.2.filter (·.1 = bit) =
    (rows.filter fun row => row.inst = group.1 ∧ row.bit = bit).map fun row => (row.bit, row.value)
  /-- All lines have the instructions, bits and values of the assignments, as often as they were. -/
  all_perm : (listing.groups.flatMap fun group => group.2.map fun bit => (group.1, bit)).Perm
    (rows.map fun row => (row.inst, row.bit, row.value))

/-- The listing of assignments shows them. -/
theorem shows_ofRows (startFrame : Int) (rows : List Assignment) :
    (ofRows startFrame rows).Shows rows := by
  have hinsts : (ofRows startFrame rows).groups.map (·.1) = Assignment.instructions rows := by
    rw [ofRows, List.map_map]
    exact List.map_id _
  constructor
  case count_eq => rfl
  case mem_instructions =>
    intro inst
    rw [hinsts, Assignment.mem_instructions]
  case ascending =>
    rw [hinsts]
    exact Assignment.pairwise_instructions rows
  case group_perm =>
    intro group hgroup
    rcases List.mem_map.1 hgroup with ⟨inst, -, rfl⟩
    exact (Assignment.ofInstruction_perm rows inst).map _
  case descending =>
    intro group hgroup
    rcases List.mem_map.1 hgroup with ⟨inst, -, rfl⟩
    rw [List.pairwise_map]
    exact Assignment.pairwise_ofInstruction rows inst
  case stable =>
    intro group hgroup bit
    rcases List.mem_map.1 hgroup with ⟨inst, -, rfl⟩
    rw [List.filter_map, ← Assignment.filter_ofInstruction]
    rfl
  case all_perm =>
    have hgroups : ((ofRows startFrame rows).groups.flatMap fun group =>
        group.2.map fun bit => (group.1, bit)) =
        ((Assignment.instructions rows).flatMap (Assignment.ofInstruction rows)).map fun row =>
          (row.inst, row.bit, row.value) := by
      rw [ofRows, List.flatMap_map, List.map_flatMap]
      apply List.flatMap_congr
      intro inst _
      rw [List.map_map]
      apply List.map_congr_left
      intro row hrow
      rw [Function.comp_apply, Assignment.inst_of_mem_ofInstruction hrow]
    rw [hgroups]
    exact (Assignment.flatMap_ofInstruction_perm rows).map _

end Listing

namespace Decoder

/-- What is printed for a program with the given assignments. -/
structure Lists (d : Decoder) (p : Program) (nPis : Int) (s : DecoderState)
    (rows : List Assignment) : Prop where
  /-- A line that says so, if there are no assignments. -/
  of_nil : rows = [] → d.list p nPis s = (.ok (), s.print "[EXTRACT] Empty program.\n")
  /-- Otherwise there is a listing with the start frame and the assignments, which is read back from
  its text.  It is printed if all its integers can be written, and else its lines in front of the
  first one that cannot be written. -/
  of_ne_nil : rows ≠ [] → ∃ listing : Listing, listing.startFrame = p.startFrame ∧
    listing.Shows rows ∧ Listing.read? listing.text = some listing ∧
    (listing.Writable → d.list p nPis s = (.ok (), s.print listing.text)) ∧
    (¬listing.Writable → ∃ front last back, listing.lines = front ++ last :: back ∧
      Passage.Writable front ∧ last.isWritable = false ∧
      d.list p nPis s = (.error .integerSize, s.print (Passage.textOf front)))

/-- A program without negative literals is listed with the assignments of its literals, whatever the
number of inputs. -/
theorem list_shows {entries : List (Option Int)} {instLen nInsts : Int} {d : Decoder}
    (hplacement : Placement.ofIndexes entries instLen nInsts = .ok d.placement) {p : Program}
    (hnonneg : ∀ l ∈ p.lits, 0 ≤ l) (nPis : Int) (s : DecoderState) :
    ∃ rows, Assignment.ofLits d.placement nPis p.lits = .ok rows ∧ d.Lists p nPis s rows := by
  have hrows := (Placement.indexed_of_ofIndexes hplacement).ofLits_of_nonneg nPis hnonneg
  refine ⟨_, hrows, ?_, ?_⟩
  · intro hnil
    rw [list, hrows, hnil]
    rfl
  · intro hne
    refine ⟨_, rfl, Listing.shows_ofRows p.startFrame _, Listing.read?_text _, ?_, ?_⟩
    · intro hwritable
      have hended := Passage.ended_eq_ok_iff.2 (Listing.writable_iff.1 hwritable)
      rw [list, hrows, ← Listing.textOf_lines, ← Passage.written_of_ended hended, ← hended,
        Listing.lines_ofRows p.startFrame hne]
    · intro hnot
      rcases Passage.exists_cut (fun h => hnot (Listing.writable_iff.2 h)) with
        ⟨front, last, back, hlines, hfront, hlast⟩
      refine ⟨front, last, back, hlines, hfront, hlast, ?_⟩
      simp only [list, hrows, ← Listing.lines_ofRows p.startFrame hne, hlines,
        Passage.ended_of_cut back hlast, Passage.written_of_cut back hfront hlast]

/-- Assignments of the small design, with a repeated one and contradictory ones. -/
def sampleRows : List Assignment :=
  [⟨5, 2, false, 0, 0⟩, ⟨9, 4, false, 0, 1⟩, ⟨4, 2, true, 0, 0⟩, ⟨6, 3, true, 1, 1⟩,
    ⟨4, 2, true, 0, 0⟩]

/-- The lines of their listing. -/
theorem listing_sampleRows : Assignment.listing (-7) sampleRows =
    [⟨[-7], "[EXTRACT] start_frame=-7 lits=5\n"⟩,
      ⟨[0, 1, 0, 0, 0], "  inst    0  b1=0 b0=0 b0=1 b0=1\n"⟩,
      ⟨[1, 1], "  inst    1  b1=1\n"⟩] := by
  have hinsts : Assignment.instructions sampleRows = [0, 1] := by
    have hdistinct : (sampleRows.map (·.inst)).eraseDups = [0, 1] := rfl
    rw [Assignment.instructions, hdistinct]
    exact List.mergeSort_of_pairwise (by decide)
  have hfirst : Assignment.ofInstruction sampleRows 0 = [⟨9, 4, false, 0, 1⟩, ⟨5, 2, false, 0, 0⟩,
      ⟨4, 2, true, 0, 0⟩, ⟨4, 2, true, 0, 0⟩] := by
    simp [Assignment.ofInstruction, sampleRows, List.mergeSort]
  have hsecond : Assignment.ofInstruction sampleRows 1 = [⟨6, 3, true, 1, 1⟩] := by
    simp [Assignment.ofInstruction, sampleRows]
  rw [Assignment.listing, if_neg (by decide), hinsts]
  simp only [List.map_cons, List.map_nil, Assignment.line, hfirst, hsecond]
  decide +kernel

/-- A program of the small design with these assignments, and with a literal on an input that is not
declared. -/
theorem list_shows_sample :
    (Placement.ofIndexes [none, none, some 0, some 3, some 1] 2 2 = .ok sample.placement ∧
        ∀ l ∈ [5, 9, 4, 6, 40, 4], (0 : Int) ≤ l) ∧
      sample.list ⟨-7, [5, 9, 4, 6, 40, 4]⟩ 5 sample.start = (.ok (), sample.start.print
        ("[EXTRACT] start_frame=-7 lits=5\n" ++ "  inst    0  b1=0 b0=0 b0=1 b0=1\n" ++
          "  inst    1  b1=1\n")) ∧
      ∃ rows, Assignment.ofLits sample.placement 5 [5, 9, 4, 6, 40, 4] = .ok rows ∧
        sample.Lists ⟨-7, [5, 9, 4, 6, 40, 4]⟩ 5 sample.start rows := by
  have hrows : Assignment.ofLits sample.placement 5 [5, 9, 4, 6, 40, 4] = .ok sampleRows := rfl
  have hnonneg : ∀ l ∈ [5, 9, 4, 6, 40, 4], (0 : Int) ≤ l := by decide
  refine ⟨⟨rfl, hnonneg⟩, ?_, ?_⟩
  · simp only [list, hrows, listing_sampleRows]
    decide +kernel
  · exact list_shows (p := ⟨-7, [5, 9, 4, 6, 40, 4]⟩) Placement.ofIndexes_sample hnonneg 5
      sample.start

/-- A program whose start frame cannot be written has an assignment, but nothing is printed for
it. -/
theorem unwritable_startFrame_not_listed :
    Placement.ofIndexes [none, none, some 0, some 3, some 1] 2 2 = .ok sample.placement ∧
      (∀ l ∈ [5], (0 : Int) ≤ l) ∧
      Assignment.ofLits sample.placement 5 [5] = .ok [⟨5, 2, false, 0, 0⟩] ∧
      sample.list ⟨Text.leastUnwritable, [5]⟩ 5 sample.start =
        (.error .integerSize, sample.start.print "") ∧
      Fault.integerSize.kind = .invalidValue := by
  have hrows : Assignment.ofLits sample.placement 5 [5] = .ok [⟨5, 2, false, 0, 0⟩] := rfl
  have hheading : (Assignment.heading Text.leastUnwritable
      [⟨5, 2, false, 0, 0⟩]).isWritable = false := by
    simp [Assignment.heading, Passage.isWritable, Text.isWritable_leastUnwritable]
  have hlisting : ∃ back, Assignment.listing Text.leastUnwritable [⟨5, 2, false, 0, 0⟩] =
      [] ++ Assignment.heading Text.leastUnwritable [⟨5, 2, false, 0, 0⟩] :: back := ⟨_, rfl⟩
  refine ⟨rfl, by decide, hrows, ?_, rfl⟩
  rcases hlisting with ⟨back, hlisting⟩
  simp only [list, hrows, hlisting, Passage.ended_of_cut back hheading,
    Passage.written_of_cut back Passage.writable_nil hheading]
  rfl

end Decoder
end ImemReplay
