import ImemReplay.Proofs.CutTexts
import ImemReplay.Proofs.Decoding
import ImemReplay.Proofs.WrittenNumbers
import Mathlib.Data.List.Basic

/-!
# Reports read back

A sink holds the reports of one written frame after the other.  All reports of a shape have the same
number of lines, since a row is a line, and so a reader who knows the number of words can cut the
text into the reports and take their numbers and rows from them.  The text of a sink therefore says
what was written into it.

Main results:

- Theorem `ofBlock?_rows`: the lines of a report give the report.
- Theorem `readBack_text`: reports of one shape are read back from their text.
- Theorem `writeAll_eq_ok`: what calls write that succeed.
- Theorem `writeAll_readBack`: what was written by calls is read back from the sink.
-/

namespace ImemReplay

/-- No cell is shown as a line break. -/
theorem Cell.concrete_ne_newline (cell : Cell) : cell.concrete ≠ '\n' := by
  rcases cell with - | value
  · decide
  · cases value <;> decide

theorem Cell.generalized_ne_newline (cell : Cell) : cell.generalized ≠ '\n' := by
  rcases cell with - | value
  · decide
  · cases value <;> decide

/-- A report as a reader knows it: its number, and the rows of both views. -/
structure Report where
  seq : Int
  concrete : List String
  generalized : List String
deriving DecidableEq, Repr

namespace Report

/-! ## Lines of a report -/

/-- The lines of a report. -/
def rows (report : Report) : List String :=
  (toString report.seq ++ "-th Unsafe Program") ::
    ("Concrete one:" :: report.concrete) ++ "Generalized one:" :: report.generalized

/-- The text of a report. -/
def text (report : Report) : String := String.join (report.rows.map (· ++ "\n"))

/-- A report has a number of rows in both views, none of which holds a line break. -/
structure Fits (n : Nat) (report : Report) : Prop where
  length_concrete : report.concrete.length = n
  length_generalized : report.generalized.length = n
  unbroken : ∀ row ∈ report.concrete ++ report.generalized, '\n' ∉ row.toList

theorem length_rows {n : Nat} {report : Report} (h : report.Fits n) :
    report.rows.length = 2 * n + 3 := by
  simp only [rows, List.length_append, List.length_cons, h.length_concrete, h.length_generalized]
  omega

/-- No line of a report holds a line break. -/
theorem unbroken_rows {n : Nat} {report : Report} (h : report.Fits n) :
    ∀ row ∈ report.rows, '\n' ∉ row.toList := by
  intro row hrow
  simp only [rows, List.mem_append, List.mem_cons] at hrow
  rcases hrow with (rfl | rfl | hrow) | rfl | hrow
  · exact Text.not_mem_append (Text.not_mem_toString rfl report.seq) (by decide)
  · decide
  · exact h.unbroken row (List.mem_append_left _ hrow)
  · decide
  · exact h.unbroken row (List.mem_append_right _ hrow)

/-! ## Reading -/

/-- The number in a heading. -/
def seqOf? (heading : String) : Option Int :=
  (heading.toList.dropSuffix? "-th Unsafe Program".toList).bind fun digits =>
    Text.integer? (String.ofList digits)

/-- The rows under a title. -/
def under? (title : String) : List String → Option (List String)
  | [] => none
  | first :: rows => if first = title then some rows else none

/-- The report in a block of lines with a number of rows in both views. -/
def ofBlock? (n : Nat) : List String → Option Report
  | [] => none
  | heading :: views => do
    let seq ← seqOf? heading
    let concrete ← under? "Concrete one:" (views.take (n + 1))
    let generalized ← under? "Generalized one:" (views.drop (n + 1))
    return ⟨seq, concrete, generalized⟩

/-- Lines cut into blocks of a size. -/
def blocks {α : Type} (size : Nat) (lines : List α) : List (List α) :=
  (List.range (lines.length / size)).map fun k => (lines.drop (k * size)).take size

/-- The reports in a text, with a number of rows in both views. -/
def readAll? (n : Nat) (text : String) : Option (List Report) :=
  (blocks (2 * n + 3) (Text.lines text)).mapM (ofBlock? n)

theorem seqOf?_heading (seq : Int) : seqOf? (toString seq ++ "-th Unsafe Program") = some seq := by
  have hdrop : (toString seq ++ "-th Unsafe Program").toList.dropSuffix?
      "-th Unsafe Program".toList = some (toString seq).toList := by
    rw [List.dropSuffix?_eq_some_iff]
    exact ⟨_, String.toList_append, BEq.rfl⟩
  rw [seqOf?, hdrop, Option.bind_some, String.ofList_toList, Text.integer?_toString]

/-- The lines of a report give the report. -/
theorem ofBlock?_rows {n : Nat} {report : Report} (h : report.Fits n) :
    ofBlock? n report.rows = some report := by
  have hlength : ("Concrete one:" :: report.concrete).length = n + 1 :=
    congrArg (· + 1) h.length_concrete
  rw [rows, List.cons_append, ofBlock?, seqOf?_heading, List.take_left' hlength,
    List.drop_left' hlength]
  rfl

/-- A first block of the size is cut off. -/
theorem blocks_append {α : Type} {size : Nat} {block : List α} (hsize : 0 < size)
    (h : block.length = size) (lines : List α) :
    blocks size (block ++ lines) = block :: blocks size lines := by
  have hcount : (block ++ lines).length / size = lines.length / size + 1 := by
    rw [List.length_append, h, Nat.add_div_left _ hsize]
  rw [blocks, hcount, List.range_succ_eq_map, List.map_cons, List.map_map, Nat.zero_mul,
    List.drop_zero, List.take_left' h, blocks]
  congr 2
  funext k
  rw [Function.comp_apply, Nat.succ_mul, Nat.add_comm, ← List.drop_drop, List.drop_left' h]

/-- Blocks of one size are found again. -/
theorem blocks_flatten {α : Type} {size : Nat} {bs : List (List α)} (hsize : 0 < size)
    (h : ∀ block ∈ bs, block.length = size) : blocks size bs.flatten = bs := by
  induction bs with
  | nil => simp [blocks]
  | cons block bs ih =>
    rcases List.forall_mem_cons.1 h with ⟨hblock, hbs⟩
    rw [List.flatten_cons, blocks_append hsize hblock, ih hbs]

/-- What a reader finds in a text that holds reports with a number of rows in both views. -/
structure ReadBack (n : Nat) (text : String) (reports : List Report) : Prop where
  /-- The text is made of lines, each with its line break. -/
  ended : String.join ((Text.lines text).map (· ++ "\n")) = text
  /-- Every report has a heading, two titles, and the rows of both views. -/
  length_lines : (Text.lines text).length = reports.length * (2 * n + 3)
  /-- The blocks of lines give the reports, in their order. -/
  read : readAll? n text = some reports

/-- The text of reports is that of all their lines. -/
theorem join_map_text (reports : List Report) :
    String.join (reports.map text) =
      String.join ((reports.map rows).flatten.map (· ++ "\n")) := by
  induction reports with
  | nil => rfl
  | cons report reports ih =>
    rw [List.map_cons, String.join_cons, ih, List.map_cons, List.flatten_cons, List.map_append,
      String.join_append]
    rfl

/-- Reports of one shape are read back from their text. -/
theorem readBack_text {n : Nat} {reports : List Report} (h : ∀ report ∈ reports, report.Fits n) :
    ReadBack n (String.join (reports.map text)) reports := by
  have hblocks : ∀ block ∈ reports.map rows, block.length = 2 * n + 3 := by
    intro block hblock
    rcases List.mem_map.1 hblock with ⟨report, hreport, rfl⟩
    exact length_rows (h report hreport)
  have hunbroken : ∀ row ∈ (reports.map rows).flatten, '\n' ∉ row.toList := by
    intro row hrow
    rcases List.mem_flatten.1 hrow with ⟨block, hblock, hrow⟩
    rcases List.mem_map.1 hblock with ⟨report, hreport, rfl⟩
    exact unbroken_rows (h report hreport) row hrow
  have hlines : Text.lines (String.join (reports.map text)) = (reports.map rows).flatten := by
    rw [join_map_text, Text.lines_join hunbroken]
  constructor
  case ended => rw [hlines, join_map_text]
  case length_lines =>
    have hsizes : (reports.map rows).map List.length =
        List.replicate reports.length (2 * n + 3) := by
      rw [List.eq_replicate_iff]
      refine ⟨by rw [List.length_map, List.length_map], ?_⟩
      intro size hsize
      rcases List.mem_map.1 hsize with ⟨block, hblock, rfl⟩
      exact hblocks block hblock
    rw [hlines, List.length_flatten, hsizes, List.sum_replicate_nat]
  case read =>
    rw [readAll?, hlines, blocks_flatten (by omega) hblocks]
    exact Text.mapM_map_of_read fun report hreport => ofBlock?_rows (h report hreport)

/-- The report of a picture. -/
def ofRendering (seq : Int) (r : Rendering) : Report := ⟨seq, r.concrete, r.generalized⟩

theorem text_ofRendering (seq : Int) (r : Rendering) :
    (ofRendering seq r).text = r.report seq := by
  simp only [text, rows, ofRendering, Rendering.report, Rendering.report.lines, List.map_cons,
    List.map_append, List.cons_append, String.join_cons, String.join_append, String.append_assoc]
  rfl

/-- The report of a picture has a row for every word. -/
theorem fits_ofRendering (seq : Int) (r : Rendering) : (ofRendering seq r).Fits r.words.length := by
  constructor
  case length_concrete => exact List.length_map ..
  case length_generalized => exact List.length_map ..
  case unbroken =>
    intro row hrow
    rcases List.mem_append.1 hrow with hrow | hrow
    all_goals
      rcases List.mem_map.1 hrow with ⟨word, -, rfl⟩
      rw [String.toList_ofList, List.mem_map]
      rintro ⟨cell, -, hcell⟩
    · exact absurd hcell cell.concrete_ne_newline
    · exact absurd hcell cell.generalized_ne_newline

/-- The report of a picture is read back. -/
theorem readBack_report (seq : Int) {r : Rendering} {words : Nat}
    (hwords : r.words.length = words) : ReadBack words (r.report seq) [ofRendering seq r] := by
  have hfits : ∀ report ∈ [ofRendering seq r], report.Fits words :=
    List.forall_mem_singleton.2 (hwords ▸ fits_ofRendering seq r)
  have hread := readBack_text hfits
  rwa [List.map_singleton, String.join_cons, String.join_nil, String.append_empty,
    text_ofRendering] at hread

end Report

namespace Decoder

/-! ## Calls on one sink -/

section Calls

variable [Memory]

/-- Writes the reports of frames under their numbers; the first fault ends it. -/
def writeAll (d : Decoder) : List (Frame × Int) → DecoderState → Outcome (List Rendering)
  | [], s => (.ok [], s)
  | (f, seq) :: calls, s =>
    match d.write f seq true s with
    | (.error fault, s) => (.error fault, s)
    | (.ok r, s) =>
      match d.writeAll calls s with
      | (.error fault, s) => (.error fault, s)
      | (.ok renderings, s) => (.ok (r :: renderings), s)

/-- The reports of calls, by the numbers they were given and the pictures they returned. -/
def reported (calls : List (Frame × Int)) (renderings : List Rendering) : List Report :=
  List.zipWith (fun call r => Report.ofRendering call.2 r) calls renderings

/-- A call that succeeds adds its report to the sink and leaves the rest as it was. -/
theorem write_eq_ok {d : Decoder} {f : Frame} {seq : Int} {s s' : DecoderState} {r : Rendering}
    (h : d.write f seq true s = (.ok r, s')) :
    d.render f s = .ok r ∧
      s' = { s with sink := s.sink ++ (Report.ofRendering seq r).text } := by
  rcases write_cases d f seq true s with ⟨fault, hfails⟩ | ⟨picture, -, hrender, -, hwrites⟩
  · rw [hfails] at h
    cases h
  · rw [hwrites] at h
    cases h
    rw [Report.text_ofRendering]
    exact ⟨hrender, rfl⟩

/-- A picture has a row for every word of the shape. -/
theorem length_words_of_render {d : Decoder} {f : Frame} {s : DecoderState} {r : Rendering}
    (h : d.render f s = .ok r) : r.words.length = s.shape.nInsts.toNat := by
  rw [(Rendering.ofFrame_eq_ok h).2.2, Rendering.length_wordsOf]

/-- Calls that succeed return one picture each and add their reports to the sink. -/
theorem writeAll_eq_ok {d : Decoder} {calls : List (Frame × Int)} {s s' : DecoderState}
    {renderings : List Rendering} (h : d.writeAll calls s = (.ok renderings, s')) :
    renderings.length = calls.length ∧
      (∀ report ∈ reported calls renderings, report.Fits s.shape.nInsts.toNat) ∧
      s' = { s with
        sink := s.sink ++ String.join ((reported calls renderings).map Report.text) } := by
  induction calls generalizing s renderings with
  | nil =>
    cases h
    exact ⟨rfl, by simp [reported], by simp [reported]⟩
  | cons call calls ih =>
    rcases call with ⟨f, seq⟩
    rw [writeAll] at h
    split at h
    · cases h
    · next r s₁ hwrite =>
      rcases write_eq_ok hwrite with ⟨hrender, rfl⟩
      split at h
      · cases h
      · next rs s₂ hcalls =>
        cases h
        rcases ih hcalls with ⟨hlength, hfits, rfl⟩
        have hfirst : (Report.ofRendering seq r).Fits s.shape.nInsts.toNat :=
          length_words_of_render hrender ▸ Report.fits_ofRendering seq r
        have hreported : reported ((f, seq) :: calls) (r :: rs) =
            Report.ofRendering seq r :: reported calls rs := rfl
        refine ⟨congrArg (· + 1) hlength, ?_, ?_⟩
        · rw [hreported]
          exact List.forall_mem_cons.2 ⟨hfirst, hfits⟩
        · rw [hreported, List.map_cons, String.join_cons, String.append_assoc]

/-- The reports of calls that succeed are read back from a sink that was empty before them. -/
theorem readBack_of_writeAll {d : Decoder} {calls : List (Frame × Int)} {s s' : DecoderState}
    {renderings : List Rendering} (hsink : s.sink = "")
    (hwritten : d.writeAll calls s = (.ok renderings, s')) :
    Report.ReadBack s.shape.nInsts.toNat s'.sink (reported calls renderings) := by
  rcases writeAll_eq_ok hwritten with ⟨-, hfits, rfl⟩
  rw [hsink, String.empty_append]
  exact Report.readBack_text hfits

/-- What calls write that succeed, from an empty sink on, is read back from the sink: the number and
the rows of every call, in order.  Calls that write the same text have the same numbers and rows. -/
theorem writeAll_readBack {d : Decoder} {calls : List (Frame × Int)} {s s' : DecoderState}
    {renderings : List Rendering} (hsink : s.sink = "")
    (hwritten : d.writeAll calls s = (.ok renderings, s')) :
    renderings.length = calls.length ∧
      Report.ReadBack s.shape.nInsts.toNat s'.sink (reported calls renderings) ∧
      ∀ {d₂ : Decoder} {calls₂ : List (Frame × Int)} {s₂ s₂' : DecoderState}
        {renderings₂ : List Rendering}, s₂.sink = "" → s₂.shape.nInsts = s.shape.nInsts →
        d₂.writeAll calls₂ s₂ = (.ok renderings₂, s₂') → s₂'.sink = s'.sink →
        reported calls₂ renderings₂ = reported calls renderings := by
  refine ⟨(writeAll_eq_ok hwritten).1, readBack_of_writeAll hsink hwritten, ?_⟩
  intro d₂ calls₂ s₂ s₂' renderings₂ hsink₂ hshape hwritten₂ hsame
  have hfirst := (readBack_of_writeAll hsink hwritten).read
  have hsecond := (readBack_of_writeAll hsink₂ hwritten₂).read
  rw [hshape, hsame, hfirst] at hsecond
  exact (Option.some.inj hsecond).symm

end Calls

/-- Two calls on the small design, one of them with a negative number. -/
theorem writeAll_readBack_sample :
    (sample.writeAll [({ inputLits := [4] }, -3), ({ inputLits := [5, 7] }, 12)] sample.start).1 =
        .ok [⟨[[none, some true], [none, none]]⟩, ⟨[[none, some false], [some false, none]]⟩] ∧
      Report.ReadBack 2
        (sample.writeAll [({ inputLits := [4] }, -3), ({ inputLits := [5, 7] }, 12)]
          sample.start).2.sink
        [⟨-3, ["01", "00"], ["x1", "xx"]⟩, ⟨12, ["00", "00"], ["x0", "0x"]⟩] := by
  refine ⟨rfl, ?_⟩
  exact (writeAll_readBack rfl
    (Prod.ext rfl rfl :
      sample.writeAll [({ inputLits := [4] }, -3), ({ inputLits := [5, 7] }, 12)] sample.start =
        (.ok [⟨[[none, some true], [none, none]]⟩, ⟨[[none, some false], [some false, none]]⟩],
          (sample.writeAll [({ inputLits := [4] }, -3), ({ inputLits := [5, 7] }, 12)]
            sample.start).2))).2.1

end Decoder
end ImemReplay
