import LangHost.Proofs.Plain.Host
import LangHost.Proofs.Text.Client
import LangHost.Proofs.Text.Cut
/-!
# Formatting

Formatting answers with deletions, one for each line of the range that ends in white space. Applied to
the text, with rows that end at line feeds, they take that white space from those lines and leave all
breaks as they are (`format_strips`): a carriage return of a break is no part of its line, so no edit
reaches it, and one that is left at the end of a line would have been white space.

The step is `applyEdits_stripped`, which says the same of any choice of lines in a text of which other
lines were stripped before. What is reported of a line is one finding about its white space and one about
its length at most (`checkLine_eq`), so a stripped text has none of the first kind.
-/

namespace LangHost.Plain

open LangHost.Text

/-! ## The white space of the lines -/

/-- The columns of the white space at the end of a line, if there is any. -/
def span? (line : List Char) : Option (Nat × Nat) :=
  if trimEnd line = line then none else some (width (trimEnd line), width line)

theorem trailingBlank?_eq (line : List Char) (n : Nat) :
    trailingBlank? line n = (span? line).map fun s => Range.onLine n s.1 s.2 := by
  unfold trailingBlank? span?
  simp only [trimEnd_length_eq]
  split <;> rfl

/-- The columns of the white space at the ends of lines, from the number `n` on, for the lines that
`q` picks. -/
def spans (q : Nat → Bool) (n : Nat) (lines : List (List Char)) : List (Option (Nat × Nat)) :=
  (lines.zipIdx n).map fun (line, i) => if q i then span? line else none

@[simp] theorem spans_nil (q : Nat → Bool) (n : Nat) : spans q n [] = [] := rfl

@[simp] theorem spans_cons (q : Nat → Bool) (n : Nat) (line : List Char) (lines : List (List Char)) :
    spans q n (line :: lines) = (if q n then span? line else none) :: spans q (n + 1) lines := by
  simp [spans]

theorem spans_getElem? {q : Nat → Bool} {n : Nat} {lines : List (List Char)} {i a b : Nat} :
    (spans q n lines)[i]? = some (some (a, b)) ↔
      ∃ line, lines[i]? = some line ∧ q (n + i) = true ∧ trimEnd line ≠ line ∧
        a = width (trimEnd line) ∧ b = width line := by
  simp only [spans, List.getElem?_map, List.getElem?_zipIdx, Option.map_map, Option.map_eq_some_iff,
    Function.comp_apply, span?]
  constructor
  · rintro ⟨line, hline, hspan⟩
    refine ⟨line, hline, ?_⟩
    split at hspan
    · rename_i hq
      split at hspan
      · cases hspan
      · rename_i htrim
        cases hspan
        exact ⟨hq, htrim, rfl, rfl⟩
    · cases hspan
  · rintro ⟨line, hline, hq, htrim, rfl, rfl⟩
    exact ⟨line, hline, by rw [if_pos hq, if_neg htrim]⟩

/-- Whether a line lies in the range to be formatted; without a range every line does. -/
def within (range : Option Range) (n : Nat) : Bool :=
  decide (∀ r ∈ range, r.start.line ≤ n ∧ n ≤ r.stop.line)

theorem all_eq_within (range : Option Range) (n : Nat) :
    range.all (fun r => decide (r.start.line ≤ n ∧ n ≤ r.stop.line)) = within range n := by
  cases range with
  | none => rfl
  | some r => simp [within]

theorem Model.format_eq (m : Model) (range : Option Range) :
    m.format range = deletions 0 (spans (within range) 0 m.lines) := by
  suffices hall : ∀ (lines : List (List Char)) (n : Nat),
      (lines.zipIdx n).filterMap (fun x =>
          if within range x.2 then (trailingBlank? x.1 x.2).map fun r => (⟨r, ""⟩ : TextEdit) else none) =
        deletions n (spans (within range) n lines) by
    simp only [Model.format, all_eq_within]
    exact hall m.lines 0
  intro lines
  induction lines with
  | nil => intro n; rfl
  | cons line lines ih =>
    intro n
    rw [List.zipIdx_cons, List.filterMap_cons, ih, spans_cons, trailingBlank?_eq]
    cases within range n with
    | false => rfl
    | true => cases span? line <;> rfl

/-- Every edit deletes the white space at the end of one of the lines in the range. -/
theorem Model.mem_format {m : Model} {range : Option Range} {e : TextEdit} :
    e ∈ m.format range ↔
      ∃ n line, m.lines[n]? = some line ∧ within range n = true ∧ trimEnd line ≠ line ∧
        e = ⟨Range.onLine n (width (trimEnd line)) (width line), ""⟩ := by
  rw [Model.format_eq, mem_deletions]
  simp only [spans_getElem?, Nat.zero_add]
  constructor
  · rintro ⟨n, a, b, ⟨line, hline, hwithin, htrim, rfl, rfl⟩, rfl⟩
    exact ⟨n, line, hline, hwithin, htrim, rfl⟩
  · rintro ⟨n, line, hline, hwithin, htrim, rfl⟩
    exact ⟨n, _, _, ⟨line, hline, hwithin, htrim, rfl, rfl⟩, rfl⟩

/-! ## Applying the deletions -/

theorem encode_trimEnd (line : List Char) :
    encode line = encode (trimEnd line) ++ encode (line.rtakeWhile isBlank) := by
  rw [← encode_append, trimEnd_append]

/-- A row without the white space at the end of its line keeps what follows the line. -/
theorem without_span? (line : List Char) (rest ending : List Nat) :
    Row.without ⟨encode line ++ rest, ending⟩ (span? line) = encode (trimEnd line) ++ rest ++ ending := by
  unfold span?
  split
  · rename_i h
    rw [h]
    rfl
  · have htake : (encode line ++ rest).take (width (trimEnd line)) = encode (trimEnd line) := by
      rw [encode_trimEnd, List.append_assoc, ← length_encode, List.take_left]
    have hdrop : (encode line ++ rest).drop (width line) = rest := by
      rw [← length_encode, List.drop_left]
    simp only [Row.without, htake, hdrop]

/-- The same for a line that is stripped already, if nothing is to be deleted from it then. -/
theorem without_picked {p q : Bool} (hpq : p = true → q = false) (line : List Char)
    (rest ending : List Nat) :
    Row.without ⟨encode (if p then trimEnd line else line) ++ rest, ending⟩ (if q then span? line else none) =
      encode (if p || q then trimEnd line else line) ++ rest ++ ending := by
  cases q with
  | false => cases p <;> rfl
  | true =>
    cases p with
    | false => exact without_span? line rest ending
    | true => cases hpq rfl

/-- Whether stripped or not, a line holds no line feed. -/
theorem feed_not_mem {body : List Char} (hbody : '\n' ∉ body) (b : Bool) :
    feed ∉ encode (if b then trimEnd body else body) := by
  rw [feed_mem_encode]
  cases b with
  | false => exact hbody
  | true =>
    intro hmem
    exact hbody ((trimEnd_isPrefix body).subset hmem)

theorem withoutSpans_stripped {p q : Nat → Bool} (hpq : ∀ i, p i = true → q i = false)
    {cs : List Char} {ls : List Line} (h : Cut cs ls) (n : Nat) :
    withoutSpans (feedRows (encode (stripped p n ls))) (spans q n (ls.map Line.body)) =
      encode (stripped (fun i => p i || q i) n ls) := by
  induction h generalizing n with
  | nil => rfl
  | @last body hne hbody =>
    have hrow := without_picked (hpq n) body [] []
    simp only [stripped_cons, stripped_nil, Break.chars, List.append_nil, List.map_cons, List.map_nil,
      spans_cons, spans_nil] at hrow ⊢
    by_cases hnil : encode (if p n then trimEnd body else body) = []
    · -- a last line of which nothing is left is no row any more
      rw [hnil] at hrow ⊢
      rw [← hrow]
      cases (if q n then span? body else none) <;> simp [feedRows, withoutSpans, Row.without, Row.units]
    · rw [feedRows_of_not_mem (feed_not_mem hbody _) hnil, withoutSpans, hrow]
      simp [withoutSpans]
  | @lf body cs ls hbody hlast _ ih =>
    have hrow := without_picked (hpq n) body [] [feed]
    simp only [List.append_nil] at hrow
    simp only [stripped_cons, Break.chars, List.map_cons, spans_cons, List.cons_append, List.nil_append,
      encode_append, encode_lf]
    rw [feedRows_append (feed_not_mem hbody _), withoutSpans, ih, hrow]
    simp
  | @crlf body cs ls hbody _ ih =>
    have hrow := without_picked (hpq n) body [carriageReturn] [feed]
    have hfeed : feed ∉ encode (if p n then trimEnd body else body) ++ [carriageReturn] := by
      intro hmem
      rcases List.mem_append.1 hmem with hmem | hmem
      · exact feed_not_mem hbody _ hmem
      · simp [feed, carriageReturn] at hmem
    simp only [stripped_cons, Break.chars, List.map_cons, spans_cons, List.cons_append, List.nil_append,
      encode_append, encode_crlf]
    rw [List.append_cons, feedRows_append hfeed, withoutSpans, ih, hrow]
    simp

/-- Deletions of the white space at the ends of lines strip these lines and leave the others as they
are, whether or not those were stripped before. -/
theorem applyEdits_stripped {p q : Nat → Bool} (hpq : ∀ i, p i = true → q i = false)
    {cs : List Char} {ls : List Line} (h : Cut cs ls) :
    applyEdits feedRows (deletions 0 (spans q 0 (ls.map Line.body))) (encode (stripped p 0 ls)) =
      encode (stripped (fun i => p i || q i) 0 ls) := by
  rw [applyEdits_deletions (flatMap_feedRows _), withoutSpans_stripped hpq h]

/-- The edits of a formatting strip the lines of its range. -/
theorem applyEdits_format {cs : List Char} {ls : List Line} (h : Cut cs ls) (range : Option Range) :
    applyEdits feedRows (Model.format ⟨ls.map Line.body⟩ range) (encode cs) =
      encode (stripped (within range) 0 ls) := by
  have hstripped := applyEdits_stripped (p := fun _ => false) (q := within range) (by simp) h
  simpa only [h.stripped_none, Model.format_eq, Bool.false_or] using hstripped

/-! ## The findings of a line -/

/-- The finding about the white space at the end of a line, if there is any to report. -/
def trailingFinding? (s : Settings) (line : List Char) (n : Nat) : Option Diagnostic :=
  if s.trailingWhitespace then (trailingBlank? line n).map trailingFinding else none

/-- The finding about the length of a line, if it is above the bound. -/
def tooLongFinding? (s : Settings) (line : List Char) (n : Nat) : Option Diagnostic :=
  s.maxLineLength.bind (tooLong? · line n)

/-- A line has one finding of either kind at most, that about its white space first. -/
theorem checkLine_eq (s : Settings) (line : List Char) (n : Nat) :
    checkLine s line n = (trailingFinding? s line n).toList ++ (tooLongFinding? s line n).toList := by
  unfold checkLine trailingFinding? tooLongFinding?
  cases s.trailingWhitespace with
  | false => rfl
  | true => simp [Option.toList_map]

theorem mem_checkLine {s : Settings} {line : List Char} {n : Nat} {f : Diagnostic} :
    f ∈ checkLine s line n ↔ trailingFinding? s line n = some f ∨ tooLongFinding? s line n = some f := by
  rw [checkLine_eq, List.mem_append, Option.mem_toList, Option.mem_toList]

theorem of_trailingFinding? {s : Settings} {line : List Char} {n : Nat} {f : Diagnostic}
    (h : trailingFinding? s line n = some f) :
    ∃ first last, span? line = some (first, last) ∧ f = trailingFinding (Range.onLine n first last) := by
  unfold trailingFinding? at h
  split at h
  · obtain ⟨r, hr, rfl⟩ := Option.map_eq_some_iff.1 h
    rw [trailingBlank?_eq] at hr
    obtain ⟨⟨first, last⟩, hspan, rfl⟩ := Option.map_eq_some_iff.1 hr
    exact ⟨first, last, hspan, rfl⟩
  · cases h

theorem of_tooLongFinding? {s : Settings} {line : List Char} {n : Nat} {f : Diagnostic}
    (h : tooLongFinding? s line n = some f) :
    ∃ first last message, f = finding (Range.onLine n first last) tooLongCode message := by
  obtain ⟨max, -, hlong⟩ := Option.bind_eq_some_iff.1 h
  unfold tooLong? at hlong
  split at hlong
  · cases hlong
    exact ⟨_, _, _, rfl⟩
  · cases hlong

/-- Of the findings of a line, the code picks those of one kind. -/
theorem filter_checkLine (s : Settings) (line : List Char) (n : Nat) :
    (checkLine s line n).filter (fun f => f.code = some trailingCode) = (trailingFinding? s line n).toList ∧
      (checkLine s line n).filter (fun f => f.code = some tooLongCode) = (tooLongFinding? s line n).toList := by
  have hpick (o : Option Diagnostic) (code own : DiagnosticCode) (hown : ∀ f, o = some f → f.code = some own) :
      o.toList.filter (fun f => f.code = some code) = if code = own then o.toList else [] := by
    cases o with
    | none => simp
    | some f =>
      have hcode := hown f rfl
      by_cases heq : code = own
      · simp [hcode, heq]
      · simp [hcode, heq, Ne.symm heq]
  have htrailing (f : Diagnostic) (h : trailingFinding? s line n = some f) : f.code = some trailingCode := by
    obtain ⟨first, last, -, rfl⟩ := of_trailingFinding? h
    rfl
  have hlong (f : Diagnostic) (h : tooLongFinding? s line n = some f) : f.code = some tooLongCode := by
    obtain ⟨first, last, message, rfl⟩ := of_tooLongFinding? h
    rfl
  have hne : trailingCode ≠ tooLongCode := by decide
  rw [checkLine_eq, List.filter_append, List.filter_append]
  simp only [hpick _ _ _ htrailing, hpick _ _ _ hlong, hne, hne.symm, if_true, if_false, List.append_nil,
    List.nil_append, and_self]

/-! ## The service -/

variable {μ : Type} {embed : Model → μ} {view : μ → Option Model} {settings : Settings}

theorem service_format (hview : ∀ m, view (embed m) = some m) (s : Settings) (d : Document)
    (range : Option Range) (options : FormattingOptions) (m : Model) :
    (service embed view settings).format s d range options (embed m) = m.format range := by
  simp [service, hview]

theorem service_validate (hview : ∀ m, view (embed m) = some m) (s : Settings) (d : Document)
    (m : Model) (n : Nat) :
    ((service embed view settings).validate s d (embed m) n).findings = some (m.check s) := by
  simp [service, hview]

theorem service_parse_ok {d : Document} (hnul : '\x00' ∉ d.text.toList) :
    (service embed view settings).parse d = .ok (embed ⟨d.lines⟩) := by
  rw [service_parse, if_neg hnul]

/-- Where no line ends in white space, there is nothing to format. -/
theorem format_eq_nil {m : Model} (h : ∀ line ∈ m.lines, trimEnd line = line) (range : Option Range) :
    m.format range = [] := by
  rw [List.eq_nil_iff_forall_not_mem]
  intro e he
  obtain ⟨n, line, hline, -, htrim, -⟩ := Model.mem_format.1 he
  exact htrim (h line (List.mem_of_getElem? hline))

/-- And nothing is reported but lines that are too long. -/
theorem code_of_mem_check {m : Model} (h : ∀ line ∈ m.lines, trimEnd line = line) {s : Settings}
    {f : Diagnostic} (hf : f ∈ m.check s) : f.code = some tooLongCode := by
  obtain ⟨⟨line, n⟩, hline, hf⟩ := List.mem_flatMap.1 hf
  have htrim : trimEnd line = line := h line (List.fst_mem_of_mem_zipIdx hline)
  rcases mem_checkLine.1 hf with hf | hf
  · obtain ⟨first, last, hspan, -⟩ := of_trailingFinding? hf
    simp [span?, htrim] at hspan
  · obtain ⟨first, last, message, rfl⟩ := of_tooLongFinding? hf
    rfl

/-- Formatting strips the lines of the range, or all lines without one, of the white space at their
ends, and leaves the other lines and every break as they are. Its edits come line by line, one at most
for each, and each deletes a part of its line that is not empty. After the whole text was formatted
there is nothing more to format, and no white space at the end of a line to report. -/
theorem format_strips (hview : ∀ m, view (embed m) = some m) (d : Document) (range : Option Range)
    (options : FormattingOptions) (hnul : '\x00' ∉ d.text.toList) :
    let s := service embed view settings
    ∃ m ls, s.parse d = .ok (embed m) ∧ Cut d.text.toList ls ∧
      let edits := s.format s.settings d range options (embed m)
      let result := applyEdits feedRows edits (encode d.text.toList)
      result = encode (ls.zipIdx.flatMap fun (l, i) =>
        (if ∀ r ∈ range, r.start.line ≤ i ∧ i ≤ r.stop.line then trimEnd l.body else l.body) ++
          l.ending.chars) ∧
      edits.Pairwise (fun e e' => e.range.start.line < e'.range.start.line) ∧
      (∀ e ∈ edits, ∃ n l kept blank, ls[n]? = some l ∧ l.body = kept ++ blank ∧ blank ≠ [] ∧
        e = ⟨Range.onLine n (width kept) (width l.body), ""⟩) ∧
      (range = none → ∀ d' : Document, encode d'.text.toList = result →
        ∃ m', s.parse d' = .ok (embed m') ∧ (∀ settings options, s.format settings d' none options (embed m') = []) ∧
          ∀ settings n, ∃ findings, (s.validate settings d' (embed m') n).findings = some findings ∧
            ∀ f ∈ findings, f.code ≠ some trailingCode) := by
  intro s
  have hcut := cut_split d.text.toList
  refine ⟨⟨d.lines⟩, split d.text.toList, service_parse_ok hnul, hcut, ?_⟩
  intro edits result
  have hedits : edits = Model.format ⟨d.lines⟩ range := service_format hview s.settings d range options ⟨d.lines⟩
  have hresult : result = encode (stripped (within range) 0 (split d.text.toList)) := by
    simp only [result, hedits]
    exact applyEdits_format hcut range
  refine ⟨?_, ?_, ?_, ?_⟩
  · simpa [stripped, within] using hresult
  · rw [hedits, Model.format_eq]
    exact pairwise_deletions 0 _
  · intro e he
    rw [hedits] at he
    obtain ⟨n, line, hline, -, htrim, rfl⟩ := Model.mem_format.1 he
    obtain ⟨l, hl, rfl⟩ := exists_line hline
    refine ⟨n, l, trimEnd l.body, l.body.rtakeWhile isBlank, hl, (trimEnd_append l.body).symm, ?_, rfl⟩
    intro hnil
    have happend := trimEnd_append l.body
    rw [hnil, List.append_nil] at happend
    exact htrim happend
  · rintro rfl d' hd'
    rw [hresult] at hd'
    have htext : d'.text.toList = stripped (fun _ => true) 0 (split d.text.toList) := encode_injective hd'
    obtain ⟨ls', hcut', htrim⟩ := hcut.stripped_all 0
    have hnul' : '\x00' ∉ d'.text.toList := by
      rw [htext]
      intro hmem
      exact hnul ((hcut.stripped_sublist _ 0).subset hmem)
    have hlines : ∀ line ∈ d'.lines, trimEnd line = line := by
      intro line hline
      rw [Document.lines, lines, htext, hcut'.split_eq] at hline
      obtain ⟨l, hl, rfl⟩ := List.mem_map.1 hline
      exact htrim l hl
    refine ⟨⟨d'.lines⟩, service_parse_ok hnul', ?_, ?_⟩
    · intro settings' options'
      rw [service_format hview]
      exact format_eq_nil hlines none
    · intro settings' n
      refine ⟨_, service_validate hview settings' d' ⟨d'.lines⟩ n, ?_⟩
      intro f hf
      rw [code_of_mem_check hlines hf]
      decide

/-- A text with breaks of both kinds, a character of two code units and a carriage return at its end. -/
def mixed : Document := ⟨"file:///a.txt", kind, 1, "😀 \r\nb\t\n \r"⟩

/-- All white space at the ends of lines goes, and the last line with it. -/
theorem format_strips_mixed :
    '\x00' ∉ mixed.text.toList ∧
      ∃ m, (service id some).parse mixed = .ok m ∧
        applyEdits feedRows ((service id some).format {} mixed none ⟨2⟩ m) (encode mixed.text.toList) =
          encode "😀\r\nb\n".toList := by
  have hnul : '\x00' ∉ mixed.text.toList := by decide
  obtain ⟨m, ls, hparse, hcut, hresult, -⟩ :=
    @format_strips Model id some {} (fun _ => rfl) mixed none ⟨2⟩ hnul
  refine ⟨hnul, m, hparse, hresult.trans ?_⟩
  rw [← hcut.split_eq]
  decide

end LangHost.Plain
