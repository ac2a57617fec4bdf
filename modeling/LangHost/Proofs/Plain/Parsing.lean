import LangHost.Proofs.Plain.Host
/-!
# Parsing

A text is refused just if it holds a NUL character, and the line that is named is the one that the first
such character stands on, which is the number of line feeds before it. Any other text is cut into lines
from which it can be put together again (`parse_exact`).
-/

namespace LangHost

namespace Text

/-! ## What the lines of a text look like -/

/-- The lines with their breaks are the text. -/
theorem Cut.flatMap_chars {cs : List Char} {ls : List Line} (h : Cut cs ls) : ls.flatMap Line.chars = cs := by
  induction h with
  | nil => rfl
  | last => simp [Line.chars, Break.chars]
  | lf _ _ _ ih => simp [Line.chars, Break.chars, ih]
  | crlf _ _ ih => simp [Line.chars, Break.chars, ih]

/-- Only the last line can be without a break. -/
theorem Cut.ending_ne_none {cs : List Char} {ls : List Line} (h : Cut cs ls) :
    ∀ l ∈ ls.dropLast, l.ending ≠ .none := by
  -- a line that is not the last one keeps its place when the last one is dropped
  have hcons (l : Line) (ls : List Line) (hl : l.ending ≠ .none)
      (hls : ∀ l' ∈ ls.dropLast, l'.ending ≠ .none) : ∀ l' ∈ (l :: ls).dropLast, l'.ending ≠ .none := by
    cases ls with
    | nil => simp
    | cons m ls =>
      intro l' hl'
      rcases List.mem_cons.1 hl' with rfl | hl'
      · exact hl
      · exact hls l' hl'
  induction h with
  | nil => simp
  | last => simp
  | lf _ _ _ ih => exact hcons _ _ (by simp) ih
  | crlf _ _ ih => exact hcons _ _ (by simp) ih

/-- A line holds no line feed, no carriage return is left before the line feed that ends it, and where
nothing ends it, it is not empty. -/
theorem Cut.body_of_mem {cs : List Char} {ls : List Line} (h : Cut cs ls) {l : Line} (hl : l ∈ ls) :
    '\n' ∉ l.body ∧ (l.ending = .lf → l.body.getLast? ≠ some '\r') ∧ (l.ending = .none → l.body ≠ []) := by
  induction h with
  | nil => cases hl
  | last hne hbody =>
    obtain rfl := List.mem_singleton.1 hl
    exact ⟨hbody, nofun, fun _ => hne⟩
  | lf hbody hlast _ ih =>
    rcases List.mem_cons.1 hl with rfl | hl
    · exact ⟨hbody, fun _ => hlast, nofun⟩
    · exact ih hl
  | crlf hbody _ ih =>
    rcases List.mem_cons.1 hl with rfl | hl
    · exact ⟨hbody, nofun, nofun⟩
    · exact ih hl

/-! ## The line of a character -/

/-- A character of a text that starts with a line stands in the line, or behind the line and its break. -/
theorem mem_line_or_behind {c : Char} {body ending cs before after : List Char} (hc : c ∉ ending)
    (h : body ++ (ending ++ cs) = before ++ c :: after) :
    (c ∈ body ∧ before <+: body) ∨
      ∃ before', before = body ++ (ending ++ before') ∧ cs = before' ++ c :: after := by
  have hbehind {rest : List Char} (h : ending ++ cs = rest ++ c :: after) :
      ∃ before', rest = ending ++ before' ∧ cs = before' ++ c :: after := by
    rcases List.append_eq_append_iff.1 h with ⟨before', rfl, hcs⟩ | ⟨rest', rfl, hnext⟩
    · exact ⟨before', rfl, hcs⟩
    · rcases List.cons_eq_append_iff.1 hnext with ⟨rfl, hcs⟩ | ⟨tail, rfl, -⟩
      · exact ⟨[], by simp, hcs⟩
      · exact absurd (by simp) hc
  rcases List.append_eq_append_iff.1 h with ⟨rest, rfl, hrest⟩ | ⟨rest, rfl, hrest⟩
  · obtain ⟨before', rfl, hcs⟩ := hbehind hrest
    exact .inr ⟨before', rfl, hcs⟩
  · rcases List.cons_eq_append_iff.1 hrest with ⟨rfl, hnext⟩ | ⟨tail, rfl, -⟩
    · -- the line ends just before the character
      obtain ⟨before', hbefore', hcs⟩ := @hbehind [] hnext
      exact .inr ⟨before', by simp [← hbefore'], hcs⟩
    · exact .inl ⟨by simp, List.prefix_append _ _⟩

/-- One line of the count: a character of the line has no line feed before it, and one behind the line
has those of the rest before it and that of the break. -/
theorem findIdx_line {c : Char} {body ending cs before after : List Char} {bodies : List (List Char)}
    (hbody : '\n' ∉ body) (hc : c ∉ ending) (hending : ending.count '\n' = 1)
    (h : body ++ (ending ++ cs) = before ++ c :: after) (hfirst : c ∉ before)
    (ih : ∀ before', cs = before' ++ c :: after → c ∉ before' →
      bodies.findIdx (·.contains c) = before'.count '\n') :
    (body :: bodies).findIdx (·.contains c) = before.count '\n' := by
  have hfeeds : body.count '\n' = 0 := List.count_eq_zero.2 hbody
  rcases mem_line_or_behind hc h with ⟨hmem, hbefore⟩ | ⟨before', rfl, hcs⟩
  · have hle := hbefore.sublist.count_le '\n'
    have hzero : (body :: bodies).findIdx (·.contains c) = 0 := by
      simp [List.findIdx_cons, hmem]
    omega
  · simp only [List.mem_append, not_or] at hfirst
    obtain ⟨hnot, -, hrest⟩ := hfirst
    have hnext : (body :: bodies).findIdx (·.contains c) = bodies.findIdx (·.contains c) + 1 := by
      simp [List.findIdx_cons, hnot]
    rw [hnext, ih before' hcs hrest, List.count_append, List.count_append]
    omega

/-- The number of the first line with a character is the number of line feeds before the first such
character of the text. -/
theorem Cut.findIdx_eq_count {c : Char} (hr : c ≠ '\r') (hn : c ≠ '\n') {cs : List Char} {ls : List Line}
    (h : Cut cs ls) {before after : List Char} (hcs : cs = before ++ c :: after) (hfirst : c ∉ before) :
    (ls.map Line.body).findIdx (·.contains c) = before.count '\n' := by
  induction h generalizing before with
  | nil => simp at hcs
  | last hne hbody =>
    subst hcs
    have hfeeds : before.count '\n' = 0 := by
      rw [List.count_eq_zero]
      intro hmem
      exact hbody (List.mem_append_left _ hmem)
    simp [hfeeds]
  | lf hbody _ _ ih =>
    apply @findIdx_line c _ ['\n'] _ _ _ _ hbody (by simpa using hn) rfl hcs hfirst
    intro before'
    exact ih
  | crlf hbody _ ih =>
    apply @findIdx_line c _ ['\r', '\n'] _ _ _ _ hbody (by simp [hr, hn]) rfl hcs hfirst
    intro before'
    exact ih

end Text

namespace Plain

open Text

/-! ## The model of a text -/

/-- A text is refused just if it holds a NUL character, with the number of line feeds before the first
one as the number of its line. Any other text is its lines: with a break behind each, which only the last
may lack, they make up the text; no line feed is left in a line, no carriage return before the line feed
that ends a line, and a last line without a break is not empty. The document counts as many lines. -/
theorem parse_exact (d : Document) :
    ((∃ fault, Model.parse d = .error fault) ↔ '\x00' ∈ d.text.toList) ∧
    (∀ before after, d.text.toList = before ++ '\x00' :: after → '\x00' ∉ before →
      Model.parse d = .error (.binaryContent (before.count '\n'))) ∧
    ('\x00' ∉ d.text.toList →
      ∃ (m : Model) (ls : List Line), Model.parse d = .ok m ∧ m.lines = ls.map Line.body ∧
        ls.flatMap (fun l => l.body ++ l.ending.chars) = d.text.toList ∧
        (∀ l ∈ ls.dropLast, l.ending ≠ .none) ∧
        (∀ l ∈ ls, '\n' ∉ l.body) ∧
        (∀ l ∈ ls, l.ending = .lf → l.body.getLast? ≠ some '\r') ∧
        (∀ l ∈ ls, l.ending = .none → l.body ≠ []) ∧
        d.lineCount = m.lines.length) := by
  have hcut := cut_split d.text.toList
  refine ⟨?_, ?_, ?_⟩
  · rw [Model.parse_eq]
    by_cases hnul : '\x00' ∈ d.text.toList
    · simp [hnul]
    · simp [hnul]
  · intro before after htext hfirst
    have hnul : '\x00' ∈ d.text.toList := by simp [htext]
    have hline := hcut.findIdx_eq_count (by decide) (by decide) htext hfirst
    rw [Model.parse_eq, if_pos hnul, ← hline]
    rfl
  · intro hnul
    refine ⟨⟨d.lines⟩, split d.text.toList, by rw [Model.parse_eq, if_neg hnul], rfl, hcut.flatMap_chars,
      hcut.ending_ne_none, ?_, ?_, ?_, rfl⟩
    · intro l hl
      exact (hcut.body_of_mem hl).1
    · intro l hl
      exact (hcut.body_of_mem hl).2.1
    · intro l hl
      exact (hcut.body_of_mem hl).2.2

/-- A text with a NUL character on its third line, behind a carriage return of its own and breaks of
both kinds. -/
def binary : Document := ⟨"file:///a.txt", kind, 1, "a\rb\r\n\nc\x00d\n\x00"⟩

/-- It is refused for that line. -/
theorem parse_exact_binary :
    '\x00' ∈ binary.text.toList ∧ Model.parse binary = .error (.binaryContent 2) := by
  obtain ⟨-, hline, -⟩ := parse_exact binary
  exact ⟨by decide, hline "a\rb\r\n\nc".toList "d\n\x00".toList (by decide) (by decide)⟩

end Plain

end LangHost
