import LangHost.Proofs.Plain.Formatting
import Mathlib.Data.List.Forall2
/-!
# Lines that are too long

A line of more than so many characters has one finding, which marks the characters beyond them. The bound
counts characters and the columns of the mark count code units, so where the mark starts is the width of
the characters that fit (`MarksExcess`).

The findings of a line are at most two, the one about its white space first (`checkLine_eq`), and so the
findings of a document come in one order (`Ahead`). `excess_marked` puts the two together.
-/

namespace LangHost.Plain

open LangHost.Text

/-! ## The mark -/

/-- The finding marks what the line `x.1`, which has the number `x.2`, has beyond its first `max`
characters. -/
structure MarksExcess (max : Nat) (x : List Char × Nat) (f : Diagnostic) : Prop where
  start_line : f.range.start.line = x.2
  stop_line : f.range.stop.line = x.2
  /-- The mark starts between two characters. -/
  start_boundary : ∃ kept excess, x.1 = kept ++ excess ∧ f.range.start.character = width kept
  /-- It ends where the line ends. -/
  stop_eq : f.range.stop.character = width x.1
  start_lt_stop : f.range.start.character < f.range.stop.character
  /-- Between its columns stands the line without its first `max` characters. -/
  slice : ((encode x.1).take f.range.stop.character).drop f.range.start.character = encode (x.1.drop max)

theorem width_pos {cs : List Char} (h : cs ≠ []) : 0 < width cs := by
  obtain ⟨c, cs, rfl⟩ := List.exists_cons_of_ne_nil h
  have hpos := units_pos c
  rw [width_cons]
  omega

theorem exists_tooLong? {max : Nat} {line : List Char} (n : Nat) (hlong : max < line.length) :
    ∃ f, tooLong? max line n = some f ∧ MarksExcess max (line, n) f := by
  unfold tooLong?
  rw [if_pos hlong]
  refine ⟨_, rfl, rfl, rfl, ⟨_, _, (List.take_append_drop max line).symm, rfl⟩, rfl, ?_, ?_⟩
  · show width (line.take max) < width line
    have hrest : 0 < width (line.drop max) := by
      apply width_pos
      intro hnil
      have hle := List.drop_eq_nil_iff.1 hnil
      omega
    have hsum := width_append (line.take max) (line.drop max)
    rw [List.take_append_drop] at hsum
    omega
  · show ((encode line).take (width line)).drop (width (line.take max)) = encode (line.drop max)
    have happend := encode_append (line.take max) (line.drop max)
    rw [List.take_append_drop] at happend
    rw [← length_encode line, List.take_length, happend, ← length_encode, List.drop_left]

/-- The lines that are too long and the findings about them go one by one. -/
theorem forall₂_tooLong? (max : Nat) (xs : List (List Char × Nat)) :
    List.Forall₂ (MarksExcess max) (xs.filter fun x => max < x.1.length)
      (xs.flatMap fun x => (tooLong? max x.1 x.2).toList) := by
  induction xs with
  | nil => exact .nil
  | cons x xs ih =>
    rw [List.flatMap_cons]
    by_cases hlong : max < x.1.length
    · obtain ⟨f, hf, hmarks⟩ := exists_tooLong? x.2 hlong
      rw [List.filter_cons_of_pos (by simpa using hlong), hf]
      exact .cons hmarks ih
    · have hnone : tooLong? max x.1 x.2 = none := if_neg hlong
      rw [List.filter_cons_of_neg (by simpa using hlong), hnone]
      exact ih

/-! ## The order of the findings -/

/-- The finding `f` is on a line before that of `g`, or `f` is about the white space and `g` about the
length of the same line. -/
def Ahead (f g : Diagnostic) : Prop :=
  f.range.start.line < g.range.start.line ∨
    f.range.start.line = g.range.start.line ∧ f.code = some trailingCode ∧ g.code = some tooLongCode

theorem line_of_mem_checkLine {s : Settings} {line : List Char} {n : Nat} {f : Diagnostic}
    (hf : f ∈ checkLine s line n) : f.range.start.line = n := by
  rcases mem_checkLine.1 hf with hf | hf
  · obtain ⟨first, last, -, rfl⟩ := of_trailingFinding? hf
    rfl
  · obtain ⟨first, last, message, rfl⟩ := of_tooLongFinding? hf
    rfl

theorem pairwise_checkLine (s : Settings) (line : List Char) (n : Nat) :
    (checkLine s line n).Pairwise Ahead := by
  have hone (o : Option Diagnostic) : o.toList.Pairwise Ahead := by cases o <;> simp
  rw [checkLine_eq, List.pairwise_append]
  refine ⟨hone _, hone _, ?_⟩
  intro f hf g hg
  obtain ⟨first, last, -, rfl⟩ := of_trailingFinding? (Option.mem_toList.1 hf)
  obtain ⟨first', last', message, rfl⟩ := of_tooLongFinding? (Option.mem_toList.1 hg)
  exact .inr ⟨rfl, rfl, rfl⟩

theorem Model.pairwise_check (m : Model) (s : Settings) : (m.check s).Pairwise Ahead := by
  rw [Model.check, List.pairwise_flatMap]
  constructor
  · rintro ⟨line, n⟩ -
    exact pairwise_checkLine s line n
  · refine m.pairwise_numbered.imp ?_
    rintro ⟨line, n⟩ ⟨line', n'⟩ hlt f hf g hg
    left
    rw [line_of_mem_checkLine hf, line_of_mem_checkLine hg]
    exact hlt

/-! ## The service -/

variable {μ : Type} {embed : Model → μ} {view : μ → Option Model}

/-- Where lines may have `max` characters, each line with more of them has one finding about its length,
which marks all characters beyond the first `max`, and no other line has one. The findings come line by
line, and that about the length of a line after that about its white space. -/
theorem excess_marked (hview : ∀ m, view (embed m) = some m) (trailing : Bool) (max : Nat) (d : Document)
    (n : Nat) (hnul : '\x00' ∉ d.text.toList) :
    let s := service embed view ⟨trailing, some max⟩
    ∃ m ls findings, s.parse d = .ok (embed m) ∧ Cut d.text.toList ls ∧ m.lines = ls.map Line.body ∧
      (s.validate s.settings d (embed m) n).findings = some findings ∧
      List.Forall₂ (MarksExcess max) (m.lines.zipIdx.filter fun x => max < x.1.length)
        (findings.filter fun f => f.code = some tooLongCode) ∧
      findings.Pairwise Ahead := by
  intro s
  let m : Model := ⟨d.lines⟩
  refine ⟨m, split d.text.toList, m.check ⟨trailing, some max⟩, service_parse_ok hnul,
    cut_split d.text.toList, rfl, service_validate hview _ d m n, ?_, m.pairwise_check _⟩
  rw [Model.check, List.filter_flatMap]
  simp only [filter_checkLine]
  exact forall₂_tooLong? max m.numbered

/-- Of three lines with two characters each, all have one too many. -/
theorem excess_marked_mixed :
    '\x00' ∉ mixed.text.toList ∧
      ∃ m findings, (service id some ⟨true, some 1⟩).parse mixed = .ok m ∧
        ((service id some ⟨true, some 1⟩).validate ⟨true, some 1⟩ mixed m 0).findings = some findings ∧
        List.Forall₂ (MarksExcess 1) [("😀 ".toList, 0), ("b\t".toList, 1), (" \r".toList, 2)]
          (findings.filter fun f => f.code = some tooLongCode) ∧
        findings.Pairwise Ahead := by
  have hnul : '\x00' ∉ mixed.text.toList := by decide
  obtain ⟨m, ls, findings, hparse, hcut, hlines, hfindings, hmarks, hahead⟩ :=
    @excess_marked Model id some (fun _ => rfl) true 1 mixed 0 hnul
  refine ⟨hnul, m, findings, hparse, hfindings, ?_, hahead⟩
  rw [hlines, ← hcut.split_eq] at hmarks
  exact hmarks

end LangHost.Plain
