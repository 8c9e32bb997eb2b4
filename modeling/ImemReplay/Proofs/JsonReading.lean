import ImemReplay.Document.Value
import ImemReplay.Ledger
import ImemReplay.Proofs.WrittenNumbers
import Mathlib.Data.List.Forall2

/-!
# Reading JSON

A reader of JSON takes a text character by character.  It keeps the brackets that are open with what
was read inside them, so that one step of it looks at one character only, and a text is read by
reading its parts one after the other.  It knows what a dump consists of: objects, arrays, whole
numbers without leading zeros, and texts without escapes, with blanks between them.

A text *reads as* a value if the reader has the value behind the text, wherever the text stands.
A number ends only where another character follows, so this is said for a text in front of a
character that is no digit.

Main results:

- Theorem `run_append`: a text is read part by part.
- Theorem `readsAs_toString`: a written integer reads as the integer.
- Theorem `readsAs_list` and theorem `readsAs_object`: items between brackets, one a line, read as
  the list or the object of what they read as.
-/

namespace ImemReplay
namespace Json

/-! ## The reader -/

/-- Brackets that are open, with what was read inside them. -/
inductive Level where
  | items (before : List Value)
  | member (before : List (String × Value)) (key : String)

/-- What the reader is at. -/
inductive Phase where
  /-- In front of a value. -/
  | value
  /-- Between the quotes of a text. -/
  | text (chars : List Char)
  /-- Behind the sign of a number. -/
  | sign
  /-- Behind digits of a number. -/
  | digits (negative : Bool) (magnitude : Nat)
  /-- Behind a value. -/
  | ended (v : Value)
  /-- In front of a key. -/
  | key (before : List (String × Value))
  /-- Between the quotes of a key. -/
  | keyText (before : List (String × Value)) (chars : List Char)
  /-- Behind a key. -/
  | colon (before : List (String × Value)) (key : String)

/-- The state of the reader. -/
structure Reader where
  levels : List Level
  phase : Phase

/-- The value of a list of members. -/
def object (members : List (String × Value)) : Value :=
  .fields (members.map fun member => (.text member.1, member.2))

/-- A character may stand between values. -/
def isSpace (c : Char) : Bool := c = ' ' || c = '\n' || c = '\r' || c = '\t'

/-- A character stands for itself between quotes. -/
def isPlain (c : Char) : Bool := c ≠ '"' && c ≠ '\\' && 32 ≤ c.toNat

/-- The digit that a character is. -/
def digitOf (c : Char) : Nat := c.toNat - '0'.toNat

/-- A number with a sign. -/
def signed (negative : Bool) (magnitude : Nat) : Int :=
  if negative then -magnitude else magnitude

/-- The state behind a character in front of a value. -/
def stepValue (levels : List Level) (c : Char) : Option Reader :=
  if isSpace c then some ⟨levels, .value⟩
  else if c = '[' then some ⟨.items [] :: levels, .value⟩
  else if c = '\x7b' then some ⟨levels, .key []⟩
  else if c = '"' then some ⟨levels, .text []⟩
  else if c = '-' then some ⟨levels, .sign⟩
  else if c.isDigit then some ⟨levels, .digits false (digitOf c)⟩
  else
    match c, levels with
    -- Without items the brackets may touch; behind a comma an item must follow.
    | ']', .items [] :: levels => some ⟨levels, .ended (.list [])⟩
    | _, _ => none

/-- The state behind a character that follows a value. -/
def stepEnded (levels : List Level) (v : Value) (c : Char) : Option Reader :=
  if isSpace c then some ⟨levels, .ended v⟩
  else
    match c, levels with
    | ',', .items before :: levels => some ⟨.items (before ++ [v]) :: levels, .value⟩
    | ']', .items before :: levels => some ⟨levels, .ended (.list (before ++ [v]))⟩
    | ',', .member before key :: levels => some ⟨levels, .key (before ++ [(key, v)])⟩
    | '\x7d', .member before key :: levels => some ⟨levels, .ended (object (before ++ [(key, v)]))⟩
    | _, _ => none

/-- The state behind a character in front of a key. -/
def stepKey (levels : List Level) (before : List (String × Value)) (c : Char) : Option Reader :=
  if isSpace c then some ⟨levels, .key before⟩
  else if c = '"' then some ⟨levels, .keyText before []⟩
  else if c = '\x7d' ∧ before = [] then some ⟨levels, .ended (object [])⟩
  else none

/-- The state behind a character. -/
def step : Reader → Char → Option Reader
  | ⟨levels, .value⟩, c => stepValue levels c
  | ⟨levels, .text chars⟩, c =>
    if c = '"' then some ⟨levels, .ended (.text (String.ofList chars))⟩
    else if isPlain c then some ⟨levels, .text (chars ++ [c])⟩
    else none
  | ⟨levels, .sign⟩, c => if c.isDigit then some ⟨levels, .digits true (digitOf c)⟩ else none
  | ⟨levels, .digits negative magnitude⟩, c =>
    if c.isDigit then
      if magnitude = 0 then none
      else some ⟨levels, .digits negative (10 * magnitude + digitOf c)⟩
    else stepEnded levels (.whole (signed negative magnitude)) c
  | ⟨levels, .ended v⟩, c => stepEnded levels v c
  | ⟨levels, .key before⟩, c => stepKey levels before c
  | ⟨levels, .keyText before chars⟩, c =>
    if c = '"' then some ⟨levels, .colon before (String.ofList chars)⟩
    else if isPlain c then some ⟨levels, .keyText before (chars ++ [c])⟩
    else none
  | ⟨levels, .colon before key⟩, c =>
    if isSpace c then some ⟨levels, .colon before key⟩
    else if c = ':' then some ⟨.member before key :: levels, .value⟩
    else none

/-- The state behind a text. -/
def run (r : Reader) : List Char → Option Reader
  | [] => some r
  | c :: cs => (step r c).bind fun r => run r cs

/-- The value of a text that is read to its end with all brackets closed.  A number may end with the
text. -/
def read? (text : String) : Option Value :=
  match run ⟨[], .value⟩ text.toList with
  | some ⟨[], .ended v⟩ => some v
  | some ⟨[], .digits negative magnitude⟩ => some (.whole (signed negative magnitude))
  | _ => none

/-- A text is read part by part. -/
theorem run_append (r : Reader) (front back : List Char) :
    run r (front ++ back) = (run r front).bind fun r => run r back := by
  induction front generalizing r with
  | nil => rfl
  | cons c front ih =>
    rw [List.cons_append, run, run]
    cases step r c with
    | none => rfl
    | some next => exact ih next

theorem run_append_of_eq_some {r next : Reader} {front : List Char} (h : run r front = some next)
    (back : List Char) : run r (front ++ back) = run next back := by
  rw [run_append, h, Option.bind_some]

theorem run_cons_of_eq_some {r next : Reader} {c : Char} (h : step r c = some next)
    (cs : List Char) : run r (c :: cs) = run next cs := by
  rw [run, h, Option.bind_some]

/-! ## Parts of a text -/

/-- A text reads as a value: the reader has the value behind it. -/
def ReadsAs (text : String) (v : Value) : Prop :=
  ∀ levels {c : Char} cs, c.isDigit = false →
    run ⟨levels, .value⟩ (text.toList ++ c :: cs) = run ⟨levels, .ended v⟩ (c :: cs)

/-- What ends with the value behind it reads as the value. -/
theorem readsAs_of_run {text : String} {v : Value}
    (h : ∀ levels, run ⟨levels, .value⟩ text.toList = some ⟨levels, .ended v⟩) :
    ReadsAs text v := fun levels _ cs _ => run_append_of_eq_some (h levels) (_ :: cs)

/-- Indentation is skipped where blanks may stand. -/
theorem run_indent {r : Reader} (h : step r ' ' = some r) (depth : Nat) :
    run r (Ledger.indent depth).toList = some r := by
  rw [Ledger.indent, String.toList_ofList]
  induction 2 * depth with
  | zero => rfl
  | succ n ih => rw [List.replicate_succ, run_cons_of_eq_some h, ih]

/-- Plain characters between quotes are those of the key. -/
theorem run_keyText (levels : List Level) (before : List (String × Value)) {cs : List Char}
    (h : ∀ c ∈ cs, isPlain c = true) (chars : List Char) :
    run ⟨levels, .keyText before chars⟩ cs = some ⟨levels, .keyText before (chars ++ cs)⟩ := by
  induction cs generalizing chars with
  | nil => rw [List.append_nil, run]
  | cons c cs ih =>
    rcases List.forall_mem_cons.1 h with ⟨hc, hcs⟩
    have hquote : c ≠ '"' := by
      rintro rfl
      cases hc
    have hstep : step ⟨levels, .keyText before chars⟩ c =
        some ⟨levels, .keyText before (chars ++ [c])⟩ := by
      rw [step, if_neg hquote, if_pos hc]
    rw [run_cons_of_eq_some hstep, ih hcs, List.append_assoc, List.singleton_append]

/-! ## Numbers -/

/-- The digits of a number do not begin with zero. -/
theorem digitOf_head_pos {n : Nat} (h : 0 < n) {c : Char} {cs : List Char}
    (hdigits : Nat.toDigits 10 n = c :: cs) : 0 < digitOf c := by
  induction n using Nat.strongRecOn generalizing cs with
  | ind n ih =>
    by_cases hsmall : n < 10
    · rw [Nat.toDigits_of_lt_base hsmall] at hdigits
      cases hdigits
      rw [digitOf, Nat.toNat_digitChar_of_lt_ten hsmall]
      simp [h]
    · rw [Nat.toDigits_of_base_le (by decide) (Nat.not_lt.1 hsmall)] at hdigits
      cases hfront : Nat.toDigits 10 (n / 10) with
      | nil => exact absurd hfront Nat.toDigits_ne_nil
      | cons d ds =>
        rw [hfront, List.cons_append] at hdigits
        cases hdigits
        exact ih (n / 10) (by omega) (by omega) hfront

/-- Digits behind the first one, which is not zero. -/
theorem run_digits (levels : List Level) (negative : Bool) {cs : List Char}
    (h : ∀ c ∈ cs, c.isDigit = true) {n : Nat} (hpos : 0 < n) :
    run ⟨levels, .digits negative n⟩ cs =
      some ⟨levels, .digits negative (Nat.ofDigitChars 10 cs n)⟩ := by
  induction cs generalizing n with
  | nil => rfl
  | cons c cs ih =>
    rcases List.forall_mem_cons.1 h with ⟨hc, hcs⟩
    have hstep : step ⟨levels, .digits negative n⟩ c =
        some ⟨levels, .digits negative (10 * n + digitOf c)⟩ := by
      rw [step, if_pos hc, if_neg (Nat.ne_of_gt hpos)]
    rw [run_cons_of_eq_some hstep, ih hcs (by omega), Nat.ofDigitChars_cons]
    rfl

/-- All digits of a number, the first of which is read by another step. -/
theorem run_toDigits {r : Reader} (levels : List Level) (negative : Bool)
    (hfirst : ∀ c : Char, c.isDigit = true → step r c = some ⟨levels, .digits negative (digitOf c)⟩)
    (n : Nat) : run r (Nat.toDigits 10 n) = some ⟨levels, .digits negative n⟩ := by
  rcases Nat.eq_zero_or_pos n with rfl | hpos
  · rw [Nat.toDigits_zero, run_cons_of_eq_some (hfirst '0' rfl)]
    rfl
  · rcases Text.toDigits_eq_cons n with ⟨c, cs, hcs, hc, hrest, hvalue⟩
    rw [hcs, run_cons_of_eq_some (hfirst c hc),
      run_digits levels negative hrest (digitOf_head_pos hpos hcs), digitOf, hvalue]

/-- A digit begins a number. -/
theorem step_value_of_isDigit (levels : List Level) {c : Char} (h : c.isDigit = true) :
    step ⟨levels, .value⟩ c = some ⟨levels, .digits false (digitOf c)⟩ := by
  have hne : ∀ d : Char, d.isDigit = false → c ≠ d := by
    rintro d hd rfl
    rw [h] at hd
    cases hd
  have hspace : isSpace c = false := by
    simp only [isSpace, Bool.or_eq_false_iff, decide_eq_false_iff_not]
    exact ⟨⟨⟨hne _ rfl, hne _ rfl⟩, hne _ rfl⟩, hne _ rfl⟩
  rw [step]
  unfold stepValue
  rw [hspace, if_neg Bool.false_ne_true, if_neg (hne _ rfl), if_neg (hne _ rfl),
    if_neg (hne _ rfl), if_neg (hne _ rfl), if_pos h]

/-- A written integer reads as the integer. -/
theorem readsAs_toString (i : Int) : ReadsAs (toString i) (.whole i) := by
  intro levels c cs hc
  have hrun : ∃ negative magnitude, signed negative magnitude = i ∧
      run ⟨levels, .value⟩ (toString i).toList = some ⟨levels, .digits negative magnitude⟩ := by
    rw [Text.toList_toString]
    by_cases hsign : 0 ≤ i
    · refine ⟨false, i.natAbs, ?_, ?_⟩
      · rw [signed, if_neg Bool.false_ne_true]
        omega
      · rw [if_pos hsign]
        exact run_toDigits levels false (fun c hc => step_value_of_isDigit levels hc) i.natAbs
    · refine ⟨true, i.natAbs, ?_, ?_⟩
      · rw [signed, if_pos rfl]
        omega
      · have hminus : step ⟨levels, .value⟩ '-' = some ⟨levels, .sign⟩ := rfl
        rw [if_neg hsign, run_cons_of_eq_some hminus]
        exact run_toDigits levels true (fun c hc => by rw [step, if_pos hc]) i.natAbs
  rcases hrun with ⟨negative, magnitude, rfl, hrun⟩
  have hstep : step ⟨levels, .digits negative magnitude⟩ c =
      step ⟨levels, .ended (.whole (signed negative magnitude))⟩ c := by
    rw [step, hc, if_neg Bool.false_ne_true, step]
  rw [run_append_of_eq_some hrun, run, run, hstep]

/-! ## Items between brackets -/

/-- How a reader takes items between brackets: the state in front of an item, the one behind it, and
the one behind the closing bracket. -/
structure Brackets (α : Type) where
  start : List α → Reader
  ended : List α → α → Reader
  finish : List α → Reader
  closing : Char
  start_closing : step (start []) closing = some (finish [])
  start_space : ∀ before {c : Char}, isSpace c = true → step (start before) c = some (start before)
  ended_space : ∀ before x {c : Char}, isSpace c = true →
    step (ended before x) c = some (ended before x)
  ended_comma : ∀ before x, step (ended before x) ',' = some (start (before ++ [x]))
  ended_closing : ∀ before x, step (ended before x) closing = some (finish (before ++ [x]))

/-- A text reads as an item between brackets. -/
def Brackets.ReadsItem {α : Type} (b : Brackets α) (text : String) (x : α) : Prop :=
  ∀ before {c : Char} cs, c.isDigit = false →
    run (b.start before) (text.toList ++ c :: cs) = run (b.ended before x) (c :: cs)

/-- Items that stand on lines of their own are read one after the other. -/
theorem Brackets.run_items {α : Type} (b : Brackets α) (depth : Nat) {texts : List String}
    {xs : List α} (h : List.Forall₂ b.ReadsItem texts xs) (hne : texts ≠ []) (before : List α) :
    run (b.start before)
        ((",\n".intercalate (texts.map (Ledger.indent (depth + 1) ++ ·))).toList ++
          '\n' :: ((Ledger.indent depth).toList ++ [b.closing])) =
      some (b.finish (before ++ xs)) := by
  -- An item ends at the comma or the line break behind it, neither of which is a digit.
  induction h generalizing before with
  | nil => contradiction
  | @cons text x texts xs hitem hitems ih =>
    have hindent := run_indent (b.start_space before rfl) (depth + 1)
    cases hitems with
    | nil =>
      have hclosing : run (b.ended before x) [b.closing] = some (b.finish (before ++ [x])) := by
        rw [run_cons_of_eq_some (b.ended_closing before x), run]
      rw [List.map_singleton, String.intercalate_singleton, String.toList_append,
        List.append_assoc, run_append_of_eq_some hindent, hitem before _ (by decide),
        run_cons_of_eq_some (b.ended_space before x rfl),
        run_append_of_eq_some (run_indent (b.ended_space before x rfl) depth), hclosing]
    | @cons next y texts xs hnext hitems =>
      have hseparator : ",\n".toList = [',', '\n'] := rfl
      rw [List.map_cons, List.map_cons, String.intercalate_cons_cons, String.toList_append,
        String.toList_append, String.toList_append, hseparator]
      simp only [List.append_assoc, List.cons_append, List.nil_append]
      rw [run_append_of_eq_some hindent, hitem before _ (by decide),
        run_cons_of_eq_some (b.ended_comma before x),
        run_cons_of_eq_some (b.start_space (before ++ [x]) rfl), ← List.map_cons,
        ih (List.cons_ne_nil next texts), List.append_assoc, List.singleton_append]

/-- The items of a list. -/
def listBrackets (levels : List Level) : Brackets Value where
  start before := ⟨.items before :: levels, .value⟩
  ended before v := ⟨.items before :: levels, .ended v⟩
  finish items := ⟨levels, .ended (.list items)⟩
  closing := ']'
  start_closing := rfl
  start_space _ _ h := if_pos h
  ended_space _ _ _ h := if_pos h
  ended_comma _ _ := rfl
  ended_closing _ _ := rfl

/-- The members of an object. -/
def objectBrackets (levels : List Level) : Brackets (String × Value) where
  start before := ⟨levels, .key before⟩
  ended before member := ⟨.member before member.1 :: levels, .ended member.2⟩
  finish members := ⟨levels, .ended (object members)⟩
  closing := '\x7d'
  start_closing := rfl
  start_space _ _ h := if_pos h
  ended_space _ _ _ h := if_pos h
  ended_comma _ _ := rfl
  ended_closing _ _ := rfl

/-- What stands in front of passages stands in front of their text. -/
theorem textOf_behind (text : String) (passages : List Passage) :
    Passage.textOf (Ledger.behind text passages) = text ++ Passage.textOf passages := by
  cases passages with
  | nil => exact (Passage.textOf_singleton _).trans String.append_empty.symm
  | cons p passages =>
    rw [Ledger.behind, Passage.textOf_cons, Passage.textOf_cons, String.append_assoc]

/-- Items stand on lines of their own, indented and with commas between them. -/
theorem textOf_items (separator : String) (depth : Nat) (item : List Passage)
    (items : List (List Passage)) :
    Ledger.indent depth ++ Passage.textOf item ++
        Passage.textOf (items.flatMap (Ledger.behind (separator ++ Ledger.indent depth))) =
      separator.intercalate
        (((item :: items).map Passage.textOf).map (Ledger.indent depth ++ ·)) := by
  induction items generalizing item with
  | nil =>
    rw [List.flatMap_nil, List.map_singleton, List.map_singleton, String.intercalate_singleton]
    exact String.append_empty
  | cons next items ih =>
    have hnext : Passage.textOf
        ((next :: items).flatMap (Ledger.behind (separator ++ Ledger.indent depth))) =
        separator ++ (Ledger.indent depth ++ Passage.textOf next ++ Passage.textOf
          (items.flatMap (Ledger.behind (separator ++ Ledger.indent depth)))) := by
      simp only [List.flatMap_cons, Passage.textOf_append, textOf_behind, String.append_assoc]
    rw [hnext, ih next]
    simp only [List.map_cons, String.intercalate_cons_cons, String.append_assoc]

/-- The text of items between brackets. -/
theorem textOf_nested (opening closing : String) (depth : Nat) (item : List Passage)
    (items : List (List Passage)) :
    Passage.textOf (Ledger.nested opening closing depth (item :: items)) =
      opening ++ "\n" ++
        ",\n".intercalate
          (((item :: items).map Passage.textOf).map (Ledger.indent (depth + 1) ++ ·)) ++
        "\n" ++ Ledger.indent depth ++ closing := by
  rw [← textOf_items]
  simp only [Ledger.nested, Passage.textOf_append, Passage.textOf_singleton, textOf_behind,
    String.append_assoc]

/-- Items, one a line, between brackets. -/
theorem Brackets.run_nested {α : Type} (b : Brackets α) {r : Reader} {opening closing : String}
    (hopening : run r opening.toList = some (b.start []))
    (hclosing : closing.toList = [b.closing]) (depth : Nat) {items : List (List Passage)}
    {xs : List α} (h : List.Forall₂ b.ReadsItem (items.map Passage.textOf) xs) :
    run r (Passage.textOf (Ledger.nested opening closing depth items)).toList =
      some (b.finish xs) := by
  cases items with
  | nil =>
    cases h
    have htext : Passage.textOf (Ledger.nested opening closing depth []) = opening ++ closing :=
      Passage.textOf_singleton _
    rw [htext, String.toList_append, run_append_of_eq_some hopening, hclosing,
      run_cons_of_eq_some b.start_closing, run]
  | cons item items =>
    have hbreak : "\n".toList = ['\n'] := rfl
    have hitems := b.run_items depth h (List.cons_ne_nil _ _) []
    rw [textOf_nested]
    simp only [String.toList_append, List.append_assoc, hbreak, hclosing, List.cons_append,
      List.nil_append]
    rw [run_append_of_eq_some hopening, run_cons_of_eq_some (b.start_space [] rfl), hitems,
      List.nil_append]

/-- Items between square brackets read as the list of what they read as. -/
theorem readsAs_list (depth : Nat) {α : Type} {passages : α → List Passage} {value : α → Value}
    (h : ∀ x, ReadsAs (Passage.textOf (passages x)) (value x)) (xs : List α) :
    ReadsAs (Passage.textOf (Ledger.nested "[" "]" depth (xs.map passages)))
      (.list (xs.map value)) := by
  apply readsAs_of_run
  intro levels
  refine (listBrackets levels).run_nested rfl rfl depth ?_
  rw [List.map_map, List.forall₂_map_left_iff, List.forall₂_map_right_iff, List.forall₂_same]
  intro x _ before c cs hc
  exact h x (.items before :: levels) cs hc

/-- A key and a value read as a member of an object. -/
theorem readsItem_member (levels : List Level) {key : String} {value : List Passage} {v : Value}
    (hkey : key.toList.all isPlain = true) (h : ReadsAs (Passage.textOf value) v) :
    (objectBrackets levels).ReadsItem (Passage.textOf (Ledger.memberJson key value)) (key, v) := by
  intro before c cs hc
  have hquote : step ⟨levels, .key before⟩ '"' = some ⟨levels, .keyText before []⟩ := rfl
  have hend : step ⟨levels, .keyText before key.toList⟩ '"' =
      some ⟨levels, .colon before key⟩ := by
    rw [step, if_pos rfl, String.ofList_toList]
  have hcolon : step ⟨levels, .colon before key⟩ ':' =
      some ⟨.member before key :: levels, .value⟩ := rfl
  have hspace : step ⟨.member before key :: levels, .value⟩ ' ' =
      some ⟨.member before key :: levels, .value⟩ := rfl
  have hopening : "\"".toList = ['"'] := rfl
  have hclosing : "\": ".toList = ['"', ':', ' '] := rfl
  have hplain : ∀ c ∈ key.toList, isPlain c = true := List.all_eq_true.1 hkey
  simp only [objectBrackets, Ledger.memberJson, Passage.textOf_cons, String.toList_append,
    List.append_assoc, hopening, hclosing, List.cons_append, List.nil_append]
  rw [run_cons_of_eq_some hquote, run_append_of_eq_some (run_keyText levels before hplain []),
    List.nil_append, run_cons_of_eq_some hend, run_cons_of_eq_some hcolon,
    run_cons_of_eq_some hspace, h (.member before key :: levels) cs hc]

/-- The reader has the object behind members between braces. -/
theorem run_object (levels : List Level) (depth : Nat) {items : List (List Passage)}
    {members : List (String × Value)}
    (h : List.Forall₂ (objectBrackets levels).ReadsItem (items.map Passage.textOf) members) :
    run ⟨levels, .value⟩ (Passage.textOf (Ledger.nested "\x7b" "\x7d" depth items)).toList =
      some ⟨levels, .ended (object members)⟩ :=
  (objectBrackets levels).run_nested rfl rfl depth h

/-- Members between braces read as the fields of an object. -/
theorem readsAs_object (depth : Nat) {items : List (List Passage)}
    {members : List (String × Value)}
    (h : ∀ levels,
      List.Forall₂ (objectBrackets levels).ReadsItem (items.map Passage.textOf) members) :
    ReadsAs (Passage.textOf (Ledger.nested "\x7b" "\x7d" depth items)) (object members) :=
  readsAs_of_run fun levels => run_object levels depth (h levels)

/-- Members between braces are read as a whole text. -/
theorem read?_object {items : List (List Passage)} {members : List (String × Value)}
    (h : List.Forall₂ (objectBrackets []).ReadsItem (items.map Passage.textOf) members) :
    read? (Passage.textOf (Ledger.nested "\x7b" "\x7d" 0 items)) = some (object members) := by
  rw [read?, run_object [] 0 h]

example : read? "\x7b\"a\": [10, -2,\n []]\x7d" =
    some (object [("a", .list [.whole 10, .whole (-2), .list []])]) := by rfl

example : read? "[1, ]" = none ∧ read? "[01]" = none := ⟨rfl, rfl⟩

end Json
end ImemReplay
