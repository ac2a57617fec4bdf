import LangHost.Plain.Service
import LangHost.Proofs.Plain.Words
import Mathlib.Data.Char
import Mathlib.Data.List.Lex
/-!
# Completion

At a position the words of the document are proposed that go on with what is typed there: the part of the
word under the cursor that lies before it. That word itself is left out by its range, which no other word
shares, so another occurrence of it may well be proposed (`completion_exact`).

What is typed is read off the line in a second scan by columns, which stops at the cursor only if a
character starts there (`prefixBefore_eq`). It does so unless the cursor is inside a character
(`Model.exists_typed`).
-/

namespace LangHost.Plain

open LangHost.Text

/-! ## Texts in ascending order -/

theorem mem_insertText {t u : List Char} {us : List (List Char)} :
    t ∈ insertText u us ↔ t = u ∨ t ∈ us := by
  induction us with
  | nil => simp [insertText]
  | cons v us ih =>
    unfold insertText
    split
    · rw [List.mem_cons]
    · split
      · rename_i heq
        simp [heq]
      · rw [List.mem_cons, ih, List.mem_cons]
        exact or_left_comm

theorem pairwise_insertText {us : List (List Char)} (h : us.Pairwise (· < ·)) (t : List Char) :
    (insertText t us).Pairwise (· < ·) := by
  induction h with
  | nil => simp [insertText]
  | @cons u us hu hus ih =>
    unfold insertText
    split
    · rename_i hlt
      refine .cons ?_ (.cons hu hus)
      intro v hv
      rcases List.mem_cons.1 hv with rfl | hv
      · exact hlt
      · exact hlt.trans (hu v hv)
    · split
      · exact .cons hu hus
      · rename_i hlt hne
        refine .cons ?_ ih
        intro v hv
        rcases mem_insertText.1 hv with rfl | hv
        · exact lt_of_le_of_ne (not_lt.1 hlt) (Ne.symm hne)
        · exact hu v hv

/-- Texts put in one by one stand in ascending order, each once. -/
theorem foldr_insertText (ts : List (List Char)) :
    (ts.foldr insertText []).Pairwise (· < ·) ∧ ∀ t, t ∈ ts.foldr insertText [] ↔ t ∈ ts := by
  induction ts with
  | nil => simp
  | cons u ts ih =>
    refine ⟨pairwise_insertText ih.1 u, ?_⟩
    intro t
    rw [List.foldr_cons, mem_insertText, ih.2, List.mem_cons]

/-! ## What stands before a column -/

/-- Whether a code unit is the second of a surrogate pair. -/
def isLowSurrogate (u : Nat) : Bool := decide (0xDC00 ≤ u) && decide (u ≤ 0xDFFF)

theorem exists_lowSurrogate {c : Char} {column : Nat} (hpos : 0 < column) (hlt : column < units c) :
    ∃ u, (encodeChar c)[column]? = some u ∧ isLowSurrogate u = true := by
  unfold units at hlt
  split at hlt
  · omega
  · rename_i hplane
    obtain rfl : column = 1 := by omega
    have hvalid := toNat_valid c
    refine ⟨_, by rw [encodeChar, if_neg hplane]; rfl, ?_⟩
    simp only [isLowSurrogate, Bool.and_eq_true, decide_eq_true_eq]
    omega

/-- A column of a text is where it can be cut, or it is inside a character. -/
theorem exists_front_or_inside {cs : List Char} {column : Nat} (hle : column ≤ width cs) :
    (∃ front rest, cs = front ++ rest ∧ width front = column) ∨
      ∃ front c rest, cs = front ++ c :: rest ∧ width front < column ∧
        column < width front + units c := by
  induction cs generalizing column with
  | nil =>
    left
    refine ⟨[], [], rfl, ?_⟩
    simp only [width_nil] at hle ⊢
    omega
  | cons c cs ih =>
    rcases Nat.eq_zero_or_pos column with rfl | hpos
    · exact .inl ⟨[], c :: cs, rfl, rfl⟩
    · by_cases hlt : column < units c
      · exact .inr ⟨[], c, cs, rfl, hpos, by simpa using hlt⟩
      · rw [width_cons] at hle
        rcases @ih (column - units c) (by omega) with
          ⟨front, rest, rfl, hwidth⟩ | ⟨front, d, rest, rfl, hafter, hbefore⟩
        · refine .inl ⟨c :: front, rest, rfl, ?_⟩
          rw [width_cons]
          omega
        · refine .inr ⟨c :: front, d, rest, rfl, ?_, ?_⟩
          · rw [width_cons]
            omega
          · rw [width_cons]
            omega

/-- Unless a column lies between the two units of a character, the text can be cut there. -/
theorem exists_front {cs : List Char} {column : Nat} (hle : column ≤ width cs)
    (hpair : ∀ u ∈ (encode cs)[column]?, isLowSurrogate u = false) :
    ∃ front rest, cs = front ++ rest ∧ width front = column := by
  rcases exists_front_or_inside hle with hfront | ⟨front, c, rest, rfl, hafter, hbefore⟩
  · exact hfront
  · obtain ⟨u, hu, hlow⟩ := @exists_lowSurrogate c (column - width front) (by omega) (by omega)
    have hunit : (encode (front ++ c :: rest))[column]? = some u := by
      rw [encode_append, List.getElem?_append_right (by rw [length_encode]; omega), length_encode,
        encode_cons, List.getElem?_append_left (by rw [length_encodeChar]; omega), hu]
    have hfirst := hpair u hunit
    rw [hlow] at hfirst
    cases hfirst

/-- What stands before the cursor in a text that starts at the given column; all of the text when none of
its characters starts at the cursor. -/
def before (cursor : Nat) : Nat → List Char → List Char
  | _, [] => []
  | column, c :: cs => if column = cursor then [] else c :: before cursor (column + units c) cs

theorem before_isPrefix (cursor column : Nat) (cs : List Char) : before cursor column cs <+: cs := by
  induction cs generalizing column with
  | nil => exact List.prefix_refl []
  | cons c cs ih =>
    rw [before]
    split
    · exact List.nil_prefix
    · exact (List.prefix_cons_inj c).2 (ih (column + units c))

theorem before_append (column : Nat) (front rest : List Char) :
    before (column + width front) column (front ++ rest) = front := by
  induction front generalizing column with
  | nil => cases rest <;> simp [before]
  | cons c front ih =>
    have hpos := units_pos c
    rw [List.cons_append, before, if_neg (by rw [width_cons]; omega), width_cons, ← Nat.add_assoc,
      ih (column + units c)]

/-- Up to the first of the two columns, nothing is noted. -/
theorem offsets_append {first cursor offset column : Nat} {front : List Char} (start : Option Nat)
    (hfirst : column + width front ≤ first) (hcursor : column + width front ≤ cursor) (rest : List Char) :
    offsets first cursor start ⟨offset, column⟩ (front ++ rest) =
      offsets first cursor start ⟨offset + front.length, column + width front⟩ rest := by
  induction front generalizing offset column with
  | nil => rfl
  | cons c front ih =>
    have hpos := units_pos c
    rw [width_cons, ← Nat.add_assoc] at hfirst hcursor ⊢
    rw [List.cons_append, offsets, if_neg (by dsimp only; omega), if_neg (by dsimp only; omega), Mark.behind,
      ih hfirst hcursor, List.length_cons, Nat.add_assoc, Nat.add_comm 1]

/-- Behind the first column, only the cursor is looked for. -/
theorem offsets_of_lt {first cursor offset column : Nat} (hlt : first < column) (start : Option Nat)
    (cs : List Char) :
    offsets first cursor start ⟨offset, column⟩ cs =
      (start, offset + (before cursor column cs).length) := by
  induction cs generalizing offset column with
  | nil => rfl
  | cons c cs ih =>
    have hfirst : column ≠ first := by omega
    by_cases hcursor : column = cursor
    · simp [offsets, before, hcursor, hcursor ▸ hfirst]
    · rw [before, if_neg hcursor, List.length_cons, offsets, if_neg hfirst, if_neg hcursor, Mark.behind,
        ih (by dsimp only; omega)]
      simp only [Nat.add_assoc, Nat.add_comm 1]

/-- At the first column, its offset is noted. -/
theorem offsets_at {first cursor offset : Nat} (start : Option Nat) (c : Char) (cs : List Char) :
    offsets first cursor start ⟨offset, first⟩ (c :: cs) =
      (some offset, offset + (before cursor first (c :: cs)).length) := by
  have hpos := units_pos c
  rw [offsets, if_pos rfl, before]
  split
  · rfl
  · rw [Mark.behind, offsets_of_lt (by dsimp only; omega), List.length_cons]
    simp only [Nat.add_assoc, Nat.add_comm 1]

/-- From the column behind `front` up to a later cursor stands what is before the cursor in the rest. -/
theorem prefixBefore_eq {front : List Char} {cursor : Nat} (hle : width front ≤ cursor) (rest : List Char) :
    prefixBefore (front ++ rest) (width front) cursor = before cursor (width front) rest := by
  have hoffsets : offsets (width front) cursor none {} (front ++ rest) =
      offsets (width front) cursor none ⟨front.length, width front⟩ rest := by
    simpa using @offsets_append (width front) cursor 0 0 front none (by omega) (by omega) rest
  rw [prefixBefore, hoffsets]
  cases rest with
  | nil => rfl
  | cons c rest =>
    obtain ⟨behind, hrest⟩ := before_isPrefix cursor (width front) (c :: rest)
    have hline : front ++ c :: rest = front ++ before cursor (width front) (c :: rest) ++ behind := by
      rw [List.append_assoc, hrest]
    rw [offsets_at]
    exact slice_eq hline

/-- From the column behind `front` up to that behind `typed` stands `typed`. -/
theorem prefixBefore_append (front typed rest : List Char) :
    prefixBefore (front ++ (typed ++ rest)) (width front) (width front + width typed) = typed := by
  rw [prefixBefore_eq (Nat.le_add_right _ _), before_append]

/-! ## What is typed -/

/-- Whether a position lies between the two code units of a character. -/
def Model.insidePair (m : Model) (p : Position) : Bool :=
  (m.lines[p.line]?.bind fun line => (encode line)[p.character]?).any isLowSurrogate

/-- Where the word under the cursor stands. -/
theorem Model.exists_run {m : Model} {p : Position} {w : Occurrence} (hword : m.wordAt? p = some w) :
    ∃ line front rest, m.lines[p.line]? = some line ∧ IsRun line front w.text rest ∧
      w.range.start.character = width front ∧ width front ≤ p.character ∧
        p.character ≤ width front + width w.text := by
  obtain ⟨hmem, htouches⟩ := Model.wordAt?_eq_some.1 hword
  obtain ⟨n, line, front, rest, hline, hrun, hrange⟩ := m.mem_words.1 hmem
  simp only [Occurrence.touches, hrange, Range.onLine, width_append, Bool.and_eq_true,
    decide_eq_true_eq] at htouches
  obtain ⟨⟨rfl, hstart⟩, hstop⟩ := htouches
  refine ⟨line, front, rest, hline, hrun, ?_, hstart, hstop⟩
  rw [hrange]
  rfl

/-- Unless the cursor is inside a character, it parts the word that it is on. -/
theorem Model.exists_typed {m : Model} {p : Position} {w : Occurrence} (hword : m.wordAt? p = some w)
    (hpair : m.insidePair p = false) :
    ∃ front typed behind rest, m.lines[p.line]? = some (front ++ (typed ++ (behind ++ rest))) ∧
      w.text = typed ++ behind ∧ w.range.start.character = width front ∧
        p.character = width front + width typed := by
  obtain ⟨line, front, rest, hline, hrun, hstart, hle, hstop⟩ := Model.exists_run hword
  have hunit : ∀ u ∈ (encode w.text)[p.character - width front]?, isLowSurrogate u = false := by
    intro u hu
    -- this unit of the word is the one of the line at the cursor
    have hcursor : (encode line)[p.character]? = some u := by
      have hlt := (List.getElem?_eq_some_iff.1 hu).1
      have hright : (encode front).length ≤ p.character := by rwa [length_encode]
      rw [hrun.eq, List.append_assoc, encode_append, encode_append, List.getElem?_append_right hright,
        length_encode, List.getElem?_append_left hlt]
      exact hu
    simpa [Model.insidePair, hline, hcursor] using hpair
  obtain ⟨typed, behind, htext, hwidth⟩ := exists_front (by omega) hunit
  refine ⟨front, typed, behind, rest, ?_, htext, hstart, by omega⟩
  rw [hline, hrun.eq, htext]
  simp

theorem Model.encode_typedAt {m : Model} {p : Position} (hpair : m.insidePair p = false) :
    encode (m.typedAt p) =
      (m.wordAt? p).elim [] fun w => (encode w.text).take (p.character - w.range.start.character) := by
  unfold Model.typedAt
  cases hword : m.wordAt? p with
  | none => rfl
  | some w =>
    obtain ⟨front, typed, behind, rest, hline, htext, hstart, hcursor⟩ := Model.exists_typed hword hpair
    have hwidth : width front + width typed - width front = (encode typed).length := by
      rw [length_encode]
      omega
    simp only [Model.line?, hline, Option.getD_some, hstart, hcursor, prefixBefore_append, Option.elim_some]
    rw [htext, encode_append, hwidth, List.take_left]

/-! ## What is proposed -/

/-- The word under the cursor is known by its range. -/
theorem Model.range_wordAt? {m : Model} {p : Position} {w : Occurrence} (hw : w ∈ m.words) :
    (m.wordAt? p).map (·.range) = some w.range ↔ m.wordAt? p = some w := by
  constructor
  · intro h
    obtain ⟨v, hv, hrange⟩ := Option.map_eq_some_iff.1 h
    have hmem := (Model.wordAt?_eq_some.1 hv).1
    rw [hv, List.inj_on_of_nodup_map m.nodup_ranges hmem hw hrange]
  · intro h
    rw [h]
    rfl

theorem Model.mem_proposals {m : Model} {p : Position} {t : List Char} :
    t ∈ m.proposals p ↔
      (∃ w ∈ m.words, m.wordAt? p ≠ some w ∧ w.text = t) ∧ leastProposal ≤ t.length ∧
        m.typedAt p <+: t ∧ t ≠ m.typedAt p := by
  unfold Model.proposals
  simp only [List.mem_filter, List.mem_map, Bool.and_eq_true, decide_eq_true_eq, bne_iff_ne,
    List.isPrefixOf_iff_prefix, and_assoc]
  constructor
  · rintro ⟨⟨w, hw, hother, rfl⟩, hlength, hprefix, hne⟩
    refine ⟨⟨w, hw, ?_, rfl⟩, hlength, hprefix, hne⟩
    intro hword
    exact hother ((Model.range_wordAt? hw).2 hword).symm
  · rintro ⟨⟨w, hw, hother, rfl⟩, hlength, hprefix, hne⟩
    refine ⟨⟨w, hw, ?_, rfl⟩, hlength, hprefix, hne⟩
    intro hrange
    exact hother ((Model.range_wordAt? hw).1 hrange.symm)

/-! ## The service -/

variable {μ : Type} {embed : Model → μ} {view : μ → Option Model} {settings : Settings}

theorem service_complete (hview : ∀ m, view (embed m) = some m) (s : Settings) (d : Document) (p : Position)
    (m : Model) : (service embed view settings).complete s d p (embed m) = some (m.complete p) := by
  simp [service, hview]

/-- At a position that is not inside a character, the labels of the completions come in ascending order
of code points, each once. They are the texts of at least three characters that start with what is typed
and go on, and that some word other than the one under the cursor has. Typed is what the word under the
cursor has before the cursor, and nothing where there is no word. -/
theorem completion_exact (hview : ∀ m, view (embed m) = some m) (d : Document) (m : Model) (p : Position)
    (hpair : m.insidePair p = false) :
    ∃ list typed, (service embed view settings).complete settings d p (embed m) = some list ∧
      encode typed = ((m.wordAt? p).elim [] fun w =>
        (encode w.text).take (p.character - w.range.start.character)) ∧
      let labels := list.items.map (·.label)
      labels.Pairwise (fun s t => s.toList < t.toList) ∧
      ∀ t, t ∈ labels ↔
        (∃ w ∈ m.words, m.wordAt? p ≠ some w ∧ w.text = t.toList) ∧ 3 ≤ t.toList.length ∧
          typed <+: t.toList ∧ t.toList ≠ typed := by
  obtain ⟨hsorted, hmem⟩ := foldr_insertText (m.proposals p)
  refine ⟨m.complete p, m.typedAt p, service_complete hview settings d p m, Model.encode_typedAt hpair, ?_⟩
  have hlabels : (m.complete p).items.map (·.label) =
      ((m.proposals p).foldr insertText []).map String.ofList := by
    simp [Model.complete]
  simp only [hlabels]
  refine ⟨?_, ?_⟩
  · rw [List.pairwise_map]
    simpa using hsorted
  · intro t
    have hlist : t ∈ ((m.proposals p).foldr insertText []).map String.ofList ↔ t.toList ∈ m.proposals p := by
      rw [List.mem_map, ← hmem]
      constructor
      · rintro ⟨cs, hcs, rfl⟩
        simpa using hcs
      · intro hcs
        exact ⟨t.toList, hcs, by simp⟩
    rw [hlist, Model.mem_proposals]
    rfl

/-- Two lines with words that start with a character of two code units. -/
def begun : Document := ⟨"file:///a.txt", kind, 1, "𝐚bc\n𝐚b"⟩

/-- Behind the first character of the second line the word of the first line is proposed. -/
theorem completion_exact_begun :
    Model.insidePair ⟨begun.lines⟩ ⟨1, 2⟩ = false ∧
      ∃ list, (service id some).complete {} begun ⟨1, 2⟩ ⟨begun.lines⟩ = some list ∧
        "𝐚bc" ∈ list.items.map (·.label) := by
  let m : Model := ⟨begun.lines⟩
  have hpair : m.insidePair ⟨1, 2⟩ = false := by decide
  have hletters : "𝐚bc".toList.all isWordChar = true := by decide +kernel
  have hletters' : "𝐚b".toList.all isWordChar = true := by decide +kernel
  have hfirst : ⟨"𝐚bc".toList, Range.onLine 0 0 4⟩ ∈ m.words :=
    m.mem_words.2 ⟨0, _, [], [], rfl, ⟨rfl, by decide, List.all_eq_true.1 hletters, nofun, nofun⟩, rfl⟩
  have hsecond : ⟨"𝐚b".toList, Range.onLine 1 0 3⟩ ∈ m.words :=
    m.mem_words.2 ⟨1, _, [], [], rfl, ⟨rfl, by decide, List.all_eq_true.1 hletters', nofun, nofun⟩, rfl⟩
  have hword : m.wordAt? ⟨1, 2⟩ = some ⟨"𝐚b".toList, Range.onLine 1 0 3⟩ :=
    Model.wordAt?_of_mem hsecond (by decide) (by decide)
  obtain ⟨list, typed, hlist, htyped, -, hexact⟩ :=
    @completion_exact Model id some {} (fun _ => rfl) begun m ⟨1, 2⟩ hpair
  rw [hword] at htyped hexact
  obtain rfl : typed = "𝐚".toList := encode_injective htyped
  refine ⟨hpair, list, hlist, (hexact "𝐚bc").2 ⟨⟨_, hfirst, by decide, rfl⟩, by decide, by decide, by decide⟩⟩

end LangHost.Plain
