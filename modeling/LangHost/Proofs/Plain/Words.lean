import Mathlib.Data.List.TakeWhile
import LangHost.Plain.Model
import LangHost.Proofs.Text.Client
/-!
# Words of a document

The words of a line are its runs of word characters that cannot be made longer (`IsRun`). Between two
of them stands at least one other character, so a column is on one word at most or directly after it:
looking for a word at a position is reading the only one there (`words_exact`).

A line is read character by character, and a word is known by where it started until it ends. The same
words come from `runsFrom` (`wordsOf_eq`), which takes a text apart in two ways, character by character
outside of words and a word at a time. `isRun_cons` and `isRun_append` say what these two steps do to the
runs of a text.
-/

namespace LangHost.Plain

open LangHost.Text

/-! ## Runs of word characters -/

/-- In `text`, between `before` and `after`, stands a run of word characters that neither its left nor
its right neighbour belongs to. -/
structure IsRun (text before run after : List Char) : Prop where
  eq : text = before ++ run ++ after
  ne_nil : run ≠ []
  all : ∀ c ∈ run, isWordChar c = true
  left : ∀ c ∈ before.getLast?, isWordChar c = false
  right : ∀ c ∈ after.head?, isWordChar c = false

variable {text before run after : List Char}

theorem isRun_nil : ¬ IsRun [] before run after := by
  intro h
  have hnil := h.eq
  simp only [List.nil_eq, List.append_eq_nil_iff] at hnil
  exact h.ne_nil hnil.1.2

/-- A text that starts with something else has no run at its start. -/
theorem IsRun.before_ne_nil (h : IsRun text before run after)
    (hhead : ∀ c ∈ text.head?, isWordChar c = false) : before ≠ [] := by
  rintro rfl
  obtain ⟨c, cs, rfl⟩ := List.exists_cons_of_ne_nil h.ne_nil
  have hword := h.all c List.mem_cons_self
  rw [hhead c (by rw [h.eq]; rfl)] at hword
  cases hword

/-- A character that is no word character is part of no run. -/
theorem isRun_cons {c : Char} (hc : isWordChar c = false) :
    IsRun (c :: text) before run after ↔ ∃ before', before = c :: before' ∧ IsRun text before' run after := by
  constructor
  · intro h
    obtain ⟨b, before', rfl⟩ := List.exists_cons_of_ne_nil (h.before_ne_nil (by simpa using hc))
    have heq := h.eq
    simp only [List.cons_append, List.cons.injEq] at heq
    obtain ⟨rfl, heq⟩ := heq
    refine ⟨before', rfl, heq, h.ne_nil, h.all, ?_, h.right⟩
    intro d hd
    apply h.left
    rw [List.getLast?_cons, Option.mem_def.1 hd]
    rfl
  · rintro ⟨before', rfl, h⟩
    refine ⟨by simp [h.eq], h.ne_nil, h.all, ?_, h.right⟩
    intro d hd
    rw [List.getLast?_cons] at hd
    cases hlast : before'.getLast? with
    | none =>
      rw [hlast] at hd
      cases hd
      exact hc
    | some e =>
      rw [hlast] at hd
      cases hd
      exact h.left e hlast

theorem isRun_takeWhile {c : Char} (hc : isWordChar c = true) :
    IsRun (c :: text) [] (c :: text.takeWhile isWordChar) (text.dropWhile isWordChar) where
  eq := by simp
  ne_nil := List.cons_ne_nil _ _
  all := by
    intro d hd
    rcases List.mem_cons.1 hd with rfl | hd
    · exact hc
    · exact List.mem_takeWhile_imp hd
  left := by simp
  right := by
    intro d hd
    have hhead := List.head?_dropWhile_not isWordChar text
    rw [Option.mem_def.1 hd] at hhead
    exact hhead

/-- A run at the start of a text is all its first word characters. -/
theorem IsRun.takeWhile_eq (h : IsRun text [] run after) : text.takeWhile isWordChar = run := by
  rw [h.eq, List.nil_append, List.takeWhile_append_of_pos h.all]
  cases after with
  | nil => simp
  | cons c after => simp [h.right c rfl]

/-- The runs of a text that starts with a run are this one and those of the rest. -/
theorem isRun_append {piece rest : List Char} (h : IsRun (piece ++ rest) [] piece rest) :
    IsRun (piece ++ rest) before run after ↔
      (before = [] ∧ run = piece ∧ after = rest) ∨
        ∃ before', before = piece ++ before' ∧ IsRun rest before' run after := by
  constructor
  · intro h'
    rcases List.eq_nil_or_concat before with rfl | ⟨init, last, rfl⟩
    · have hrun : run = piece := by rw [← h'.takeWhile_eq, h.takeWhile_eq]
      have heq := h'.eq
      rw [hrun, List.nil_append, List.append_cancel_left_eq] at heq
      exact .inl ⟨rfl, hrun, heq.symm⟩
    · have hlast : isWordChar last = false := h'.left last (by simp)
      have heq := h'.eq
      rw [List.append_assoc, List.append_eq_append_iff] at heq
      rcases heq with ⟨before', hbefore, hrest⟩ | ⟨piece', hpiece, -⟩
      · refine .inr ⟨before', hbefore, by simpa using hrest, h'.ne_nil, h'.all, ?_, h'.right⟩
        intro d hd
        apply h'.left
        rw [hbefore, List.getLast?_append, Option.mem_def.1 hd]
        rfl
      · -- otherwise the neighbour of the run belongs to the first run
        have hword := h.all last (by simp [hpiece])
        rw [hlast] at hword
        cases hword
  · rintro (⟨rfl, rfl, rfl⟩ | ⟨before', rfl, h'⟩)
    · exact h
    · refine ⟨by simp [h'.eq], h'.ne_nil, h'.all, ?_, h'.right⟩
      intro d hd
      cases hlast : before'.getLast? with
      | some e =>
        rw [List.getLast?_append, hlast] at hd
        cases hd
        exact h'.left d hlast
      | none =>
        -- the run would go on with that of the rest
        exact absurd (List.getLast?_eq_none_iff.1 hlast) (h'.before_ne_nil h.right)

/-! ## The words of a line -/

/-- The words of a text that starts at the given column, taken a word at a time. -/
def runsFrom (column : Nat) : List Char → List Word
  | [] => []
  | c :: rest =>
    if isWordChar c then
      let run := c :: rest.takeWhile isWordChar
      ⟨run, column, column + width run⟩ :: runsFrom (column + width run) (rest.dropWhile isWordChar)
    else runsFrom (column + units c) rest
termination_by cs => cs.length
decreasing_by
  · have := (List.dropWhile_suffix isWordChar (l := rest)).length_le
    simp; omega
  · simp

theorem slice_eq {line front run rest : List Char} (h : line = front ++ run ++ rest) :
    slice line front.length (front.length + run.length) = run := by
  rw [slice, h, ← List.length_append, List.take_left, List.drop_left]

/-- Between two words, those of the rest follow. In a word, it goes on up to the next other character,
and those of what is behind it follow. -/
theorem wordsFrom_eq (line rest : List Char) :
    (∀ done column, line = done ++ rest →
      wordsFrom line none ⟨done.length, column⟩ rest = runsFrom column rest) ∧
    ∀ front run column, line = front ++ run ++ rest →
      wordsFrom line (some ⟨front.length, column⟩) ⟨front.length + run.length, column + width run⟩ rest =
        ⟨run ++ rest.takeWhile isWordChar, column, column + width (run ++ rest.takeWhile isWordChar)⟩ ::
          runsFrom (column + width (run ++ rest.takeWhile isWordChar)) (rest.dropWhile isWordChar) := by
  induction rest with
  | nil =>
    refine ⟨fun _ _ _ => by simp [wordsFrom, runsFrom], ?_⟩
    intro front run column hline
    simp [wordsFrom, runsFrom, Word.between, slice_eq hline]
  | cons c rest ih =>
    obtain ⟨ihnone, ihsome⟩ := ih
    cases hc : isWordChar c with
    | true =>
      -- a word starts here, or it gets one character longer
      constructor
      · intro done column hline
        have hword := ihsome done [c] column (by simp [hline])
        simpa [wordsFrom, runsFrom, hc, Mark.behind] using hword
      · intro front run column hline
        have hword := ihsome front (run ++ [c]) column (by simp [hline])
        simpa [wordsFrom, hc, Mark.behind, Nat.add_assoc] using hword
    | false =>
      constructor
      · intro done column hline
        have hrest := ihnone (done ++ [c]) (column + units c) (by simp [hline])
        simpa [wordsFrom, runsFrom, hc, Mark.behind] using hrest
      · -- the word ends here
        intro front run column hline
        have hrest := ihnone (front ++ run ++ [c]) (column + width run + units c) (by simp [hline])
        simpa [wordsFrom, runsFrom, hc, Mark.behind, Word.between, slice_eq hline, Nat.add_assoc]
          using hrest

/-- Reading a line once finds the words that taking it apart gives. -/
theorem wordsOf_eq (line : List Char) : wordsOf line = runsFrom 0 line :=
  (wordsFrom_eq line line).1 [] 0 rfl

/-- The words are the runs, each with the columns it covers. -/
theorem mem_runsFrom {column : Nat} {text : List Char} {w : Word} :
    w ∈ runsFrom column text ↔
      ∃ before after, IsRun text before w.text after ∧ w.start = column + width before ∧
        w.stop = w.start + width w.text := by
  fun_induction runsFrom column text with
  | case1 column => simp [isRun_nil]
  | case2 column c rest hc run ih =>
    have hrun : IsRun (run ++ rest.dropWhile isWordChar) [] run (rest.dropWhile isWordChar) := by
      simpa [run] using isRun_takeWhile hc
    have htext : c :: rest = run ++ rest.dropWhile isWordChar := by simp [run]
    rw [List.mem_cons, ih, htext]
    simp only [isRun_append hrun]
    constructor
    · rintro (rfl | ⟨before, after, h, hstart, hstop⟩)
      · exact ⟨[], _, .inl ⟨rfl, rfl, rfl⟩, rfl, rfl⟩
      · refine ⟨run ++ before, after, .inr ⟨before, rfl, h⟩, ?_, hstop⟩
        rw [hstart, width_append, Nat.add_assoc]
    · rintro ⟨before, after, ⟨rfl, htext, rfl⟩ | ⟨before', rfl, h⟩, hstart, hstop⟩
      · left
        obtain ⟨wtext, start, stop⟩ := w
        simp only [width_nil, Nat.add_zero] at htext hstart hstop
        subst htext hstart hstop
        rfl
      · refine .inr ⟨before', after, h, ?_, hstop⟩
        rw [hstart, width_append, Nat.add_assoc]
  | case3 column c rest hc ih =>
    rw [ih]
    simp only [isRun_cons (Bool.not_eq_true _ ▸ hc)]
    constructor
    · rintro ⟨before, after, h, hstart, hstop⟩
      refine ⟨c :: before, after, ⟨before, rfl, h⟩, ?_, hstop⟩
      rw [hstart, width_cons, Nat.add_assoc]
    · rintro ⟨before, after, ⟨before', rfl, h⟩, hstart, hstop⟩
      refine ⟨before', after, h, ?_, hstop⟩
      rw [hstart, width_cons, Nat.add_assoc]

/-- Behind a word stands something else before the next one starts. -/
theorem pairwise_runsFrom (column : Nat) (text : List Char) :
    (runsFrom column text).Pairwise fun v w => v.stop < w.start := by
  fun_induction runsFrom column text with
  | case1 column => exact .nil
  | case2 column c rest hc run ih =>
    refine List.pairwise_cons.2 ⟨?_, ih⟩
    intro w hw
    obtain ⟨before, after, h, hstart, -⟩ := mem_runsFrom.1 hw
    -- the rest starts with something else, which is at least one column wide
    obtain ⟨b, before, rfl⟩ := List.exists_cons_of_ne_nil (h.before_ne_nil (isRun_takeWhile hc).right)
    have hpos := units_pos b
    simp only [width_cons] at hstart
    show column + width run < w.start
    omega
  | case3 column c rest hc ih => exact ih

theorem mem_wordsOf {line : List Char} {w : Word} :
    w ∈ wordsOf line ↔
      ∃ before after, IsRun line before w.text after ∧ w.start = width before ∧
        w.stop = w.start + width w.text := by
  simp only [wordsOf_eq, mem_runsFrom, Nat.zero_add]

theorem pairwise_wordsOf (line : List Char) : (wordsOf line).Pairwise fun v w => v.stop < w.start := by
  rw [wordsOf_eq]
  exact pairwise_runsFrom 0 line

/-! ## The words of a document -/

/-- Whether a position is on a word or directly after it. -/
def Occurrence.touches (w : Occurrence) (p : Position) : Bool :=
  decide (w.range.start.line = p.line) && decide (w.range.start.character ≤ p.character) &&
    decide (p.character ≤ w.range.stop.character)

/-- The words are the runs of word characters of the lines. -/
theorem Model.mem_words {m : Model} {w : Occurrence} :
    w ∈ m.words ↔
      ∃ n line before after, m.lines[n]? = some line ∧ IsRun line before w.text after ∧
        w.range = Range.onLine n (width before) (width (before ++ w.text)) := by
  simp only [Model.words, Model.numbered, List.mem_flatMap, List.mem_map, Prod.exists,
    List.mem_zipIdx_iff_getElem?]
  constructor
  · rintro ⟨line, n, hline, v, hv, rfl⟩
    obtain ⟨before, after, h, hstart, hstop⟩ := mem_wordsOf.1 hv
    refine ⟨n, line, before, after, hline, h, ?_⟩
    simp [Word.onLine, hstart, hstop]
  · rintro ⟨n, line, before, after, hline, h, hrange⟩
    refine ⟨line, n, hline, ⟨w.text, width before, width (before ++ w.text)⟩, ?_, ?_⟩
    · exact mem_wordsOf.2 ⟨before, after, h, rfl, by simp⟩
    · rw [Word.onLine, ← hrange]

/-- They come in the order of the text, and no two of them touch. -/
theorem Model.pairwise_words (m : Model) :
    m.words.Pairwise fun v w => v.range.stop.line < w.range.start.line ∨
      v.range.stop.line = w.range.start.line ∧ v.range.stop.character < w.range.start.character := by
  rw [Model.words, List.pairwise_flatMap]
  constructor
  · rintro ⟨line, n⟩ -
    refine (pairwise_wordsOf line).map _ ?_
    intro v w hlt
    exact .inr ⟨rfl, hlt⟩
  · refine m.pairwise_numbered.imp ?_
    rintro ⟨line, n⟩ ⟨line', n'⟩ hlt v hv w hw
    obtain ⟨v, -, rfl⟩ := List.mem_map.1 hv
    obtain ⟨w, -, rfl⟩ := List.mem_map.1 hw
    exact .inl hlt

theorem filter_eq_find? {α : Type} {p : α → Bool} {l : List α}
    (h : l.Pairwise fun a b => p a = true → p b = false) : l.filter p = (l.find? p).toList := by
  induction h with
  | nil => rfl
  | @cons a l ha _ ih =>
    cases hp : p a with
    | false => simpa [hp] using ih
    | true => simpa [hp] using fun b hb => ha b hb hp

/-- A column touches one word of a line at most. -/
theorem filter_touches (line : List Char) (column : Nat) :
    (wordsOf line).filter (·.touches column) = ((wordsOf line).find? (·.touches column)).toList := by
  apply filter_eq_find?
  refine (pairwise_wordsOf line).imp ?_
  intro v w hlt hv
  simp only [Word.touches, Bool.and_eq_true, decide_eq_true_eq, Bool.and_eq_false_iff,
    decide_eq_false_iff_not] at hv ⊢
  omega

/-- What is made of the one entry of a list that has the given number. -/
theorem flatMap_zipIdx {α β : Type} (f : α → Option β) (l : List α) (n k : Nat) :
    ((l.zipIdx n).flatMap fun x => if x.2 = n + k then (f x.1).toList else []) =
      (l[k]?.bind f).toList := by
  induction l generalizing n k with
  | nil => rfl
  | cons a l ih =>
    rw [List.zipIdx_cons, List.flatMap_cons]
    cases k with
    | zero =>
      have hrest :
          ((l.zipIdx (n + 1)).flatMap fun x => if x.2 = n + 0 then (f x.1).toList else []) = [] := by
        rw [List.flatMap_eq_nil_iff]
        intro x hx
        have hle := List.le_snd_of_mem_zipIdx hx
        exact if_neg (by omega)
      rw [hrest]
      simp
    | succ k =>
      have hnumber : ∀ i, i = n + (k + 1) ↔ i = n + 1 + k := by omega
      rw [if_neg (by omega), List.nil_append, List.getElem?_cons_succ]
      simp only [hnumber, ih]

/-- The word of a line that a position on this line touches. -/
def touched? (p : Position) (line : List Char) : Option Occurrence :=
  ((wordsOf line).find? (·.touches p.character)).map (·.onLine p.line)

theorem Model.wordAt?_eq (m : Model) (p : Position) :
    m.wordAt? p = m.lines[p.line]?.bind (touched? p) := by
  unfold Model.wordAt? Model.line?
  cases m.lines[p.line]? with
  | none => rfl
  | some line =>
    simp only [Option.bind_eq_bind, Option.bind_some, touched?]
    cases (wordsOf line).find? (·.touches p.character) <;> rfl

theorem touches_onLine (w : Word) (n : Nat) (p : Position) :
    (w.onLine n).touches p = (decide (n = p.line) && w.touches p.character) := Bool.and_assoc _ _ _

theorem filter_onLine (p : Position) (line : List Char) (n : Nat) :
    ((wordsOf line).map (·.onLine n)).filter (·.touches p) =
      if n = p.line then (touched? p line).toList else [] := by
  rw [List.filter_map]
  simp only [Function.comp_def, touches_onLine]
  by_cases hn : n = p.line
  · simp [hn, filter_touches, touched?, Option.toList_map]
  · simp [hn]

/-- The word at a position is the only word that touches it. -/
theorem Model.filter_words (m : Model) (p : Position) :
    m.words.filter (·.touches p) = (m.wordAt? p).toList := by
  rw [Model.words, Model.numbered, List.filter_flatMap, Model.wordAt?_eq]
  simp only [filter_onLine]
  simpa only [Nat.zero_add] using flatMap_zipIdx (touched? p) m.lines 0 p.line

theorem Model.wordAt?_eq_some {m : Model} {p : Position} {w : Occurrence} :
    m.wordAt? p = some w ↔ w ∈ m.words ∧ w.touches p = true := by
  rw [← Option.mem_toList, ← m.filter_words p, List.mem_filter]

/-- On every column of a word, from its first to the one after its last, that word is found. -/
theorem Model.wordAt?_of_mem {m : Model} {w : Occurrence} (hw : w ∈ m.words) {column : Nat}
    (hstart : w.range.start.character ≤ column) (hstop : column ≤ w.range.stop.character) :
    m.wordAt? ⟨w.range.start.line, column⟩ = some w := by
  rw [Model.wordAt?_eq_some]
  refine ⟨hw, ?_⟩
  simp [Occurrence.touches, hstart, hstop]

/-- No two words have the same range. -/
theorem Model.nodup_ranges (m : Model) : (m.words.map (·.range)).Nodup := by
  rw [List.Nodup, List.pairwise_map]
  refine m.pairwise_words.imp_of_mem ?_
  intro v w hv _ hlt heq
  obtain ⟨n, line, before, after, -, -, hrange⟩ := m.mem_words.1 hv
  rw [← heq, hrange] at hlt
  simp only [Range.onLine, width_append] at hlt
  omega

/-- The words of a text are the runs of word characters of its lines, in the order of the text; a word
ends before the next word of its line starts. Each is the part of its line between its columns. At
most one word touches a position, and that is the word that is found there. -/
theorem words_exact (m : Model) :
    (∀ w, w ∈ m.words ↔
      ∃ n line before after, m.lines[n]? = some line ∧ IsRun line before w.text after ∧
        w.range = Range.onLine n (width before) (width (before ++ w.text))) ∧
    m.words.Pairwise (fun v w => v.range.stop.line < w.range.start.line ∨
      v.range.stop.line = w.range.start.line ∧ v.range.stop.character < w.range.start.character) ∧
    (∀ w ∈ m.words, ∃ line, m.lines[w.range.start.line]? = some line ∧
      w.range.stop.character ≤ width line ∧
      encode w.text = ((encode line).take w.range.stop.character).drop w.range.start.character) ∧
    ∀ p, m.words.filter (·.touches p) = (m.wordAt? p).toList := by
  refine ⟨fun w => m.mem_words, m.pairwise_words, ?_, m.filter_words⟩
  intro w hw
  obtain ⟨n, line, before, after, hline, h, hrange⟩ := m.mem_words.1 hw
  have hstop : encode line = encode (before ++ w.text) ++ encode after := by
    rw [h.eq, encode_append]
  rw [hrange]
  refine ⟨line, hline, ?_, ?_⟩
  · simp [Range.onLine, h.eq]
  · simp only [Range.onLine, hstop, ← length_encode, List.take_left]
    rw [encode_append, List.drop_left]

end LangHost.Plain
