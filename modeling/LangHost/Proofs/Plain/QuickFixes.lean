import LangHost.Proofs.Plain.Formatting
/-!
# Quick fixes

The findings about white space at the ends of lines, the quick fixes for them and the edits of a
formatting are made from the same ranges (`Model.trailing`). Each fix strips one line, and no fix moves
the white space of another line, so the fixes may be taken one after the other in any order: in the end
the text is the formatted one (`fixes_agree`).
-/

namespace LangHost.Plain

open LangHost.Text

/-! ## The ranges -/

/-- The ranges of the white space at the ends of lines. -/
def Model.trailing (m : Model) : List Range := m.numbered.filterMap fun (line, n) => trailingBlank? line n

theorem Model.format_none (m : Model) : m.format none = m.trailing.map fun r => ⟨r, ""⟩ := by
  simp [Model.format, Model.trailing, List.map_filterMap]

/-- The findings about white space at the ends of lines mark its ranges. -/
theorem Model.filter_check (m : Model) (max : Option Nat) :
    (m.check ⟨true, max⟩).filter (fun f => f.code = some trailingCode) = m.trailing.map trailingFinding := by
  simp only [Model.check, Model.trailing, List.filter_flatMap, filter_checkLine, trailingFinding?, if_true]
  induction m.numbered with
  | nil => rfl
  | cons x xs ih =>
    rw [List.flatMap_cons, ih, List.filterMap_cons]
    cases trailingBlank? x.1 x.2 <;> rfl

/-- Of its own findings, the module fixes those. -/
theorem Model.quickFixes_check (m : Model) (uri : String) (s : Settings) :
    quickFixes uri (m.check s) =
      ((m.check s).filter fun f => f.code = some trailingCode).map (quickFix uri) := by
  unfold quickFixes
  congr 1
  apply List.filter_congr
  intro f hf
  obtain ⟨⟨line, n⟩, -, hf⟩ := List.mem_flatMap.1 hf
  rcases mem_checkLine.1 hf with hf | hf
  · obtain ⟨first, last, -, rfl⟩ := of_trailingFinding? hf
    rfl
  · obtain ⟨first, last, message, rfl⟩ := of_tooLongFinding? hf
    rfl

/-! ## One fix after the other -/

/-- A line has one edit at most. -/
theorem Model.format_line_inj {m : Model} {range : Option Range} {e e' : TextEdit}
    (he : e ∈ m.format range) (he' : e' ∈ m.format range)
    (hline : e.range.start.line = e'.range.start.line) : e = e' := by
  obtain ⟨n, line, hn, -, -, rfl⟩ := Model.mem_format.1 he
  obtain ⟨n', line', hn', -, -, rfl⟩ := Model.mem_format.1 he'
  obtain rfl : n = n' := hline
  rw [hn] at hn'
  cases hn'
  rfl

theorem Model.nodup_format_lines (m : Model) (range : Option Range) :
    ((m.format range).map (·.range.start.line)).Nodup := by
  rw [Model.format_eq]
  apply List.Pairwise.map
  · intro e e' hlt
    exact Nat.ne_of_lt hlt
  · exact pairwise_deletions 0 _

theorem deletions_spans (q : Nat → Bool) (n : Nat) (lines : List (List Char)) :
    deletions n (spans q n lines) =
      (deletions n (spans (fun _ => true) n lines)).filter fun e => q e.range.start.line := by
  induction lines generalizing n with
  | nil => rfl
  | cons line lines ih =>
    rw [spans_cons, spans_cons, if_pos rfl]
    cases hspan : span? line with
    | none => cases q n <;> exact ih (n + 1)
    | some s =>
      cases hq : q n with
      | false => simp [deletions, ih, Range.onLine, hq]
      | true => simp [deletions, ih, Range.onLine, hq]

/-- The edit of a line is all there is to delete from this line. -/
theorem Model.format_single {m : Model} {e : TextEdit} (he : e ∈ m.format none) :
    deletions 0 (spans (fun i => decide (i = e.range.start.line)) 0 m.lines) = [e] := by
  have hall : within none = fun _ => true := by
    funext i
    simp [within]
  rw [deletions_spans, ← hall, ← Model.format_eq]
  have hsame : (m.format none).filter (fun e' => decide (e'.range.start.line = e.range.start.line)) =
      (m.format none).filter (· == e) := by
    apply List.filter_congr
    intro e' he'
    rw [Bool.eq_iff_iff, decide_eq_true_iff, beq_iff_eq]
    constructor
    · exact Model.format_line_inj he' he
    · rintro rfl
      rfl
  have hnodup : (m.format none).Nodup := (m.nodup_format_lines none).of_map _
  rw [hsame, List.filter_beq, List.count_eq_one_of_mem hnodup he]
  rfl

/-- A fix strips its line. -/
theorem applyEdits_fix {cs : List Char} {ls : List Line} (h : Cut cs ls) {p : Nat → Bool}
    {e : TextEdit} (he : e ∈ Model.format ⟨ls.map Line.body⟩ none) (hp : p e.range.start.line = false) :
    applyEdits feedRows [e] (encode (stripped p 0 ls)) =
      encode (stripped (fun i => p i || decide (i = e.range.start.line)) 0 ls) := by
  rw [← Model.format_single he]
  apply applyEdits_stripped _ h
  intro i hi
  rw [decide_eq_false_iff_not]
  rintro rfl
  rw [hp] at hi
  cases hi

/-- Fixes of different lines strip all these lines. -/
theorem foldl_fixes {cs : List Char} {ls : List Line} (h : Cut cs ls) {es : List TextEdit}
    (hes : ∀ e ∈ es, e ∈ Model.format ⟨ls.map Line.body⟩ none)
    (hnodup : (es.map (·.range.start.line)).Nodup) {p : Nat → Bool}
    (hp : ∀ e ∈ es, p e.range.start.line = false) :
    es.foldl (fun text e => applyEdits feedRows [e] text) (encode (stripped p 0 ls)) =
      encode (stripped (fun i => p i || decide (i ∈ es.map (·.range.start.line))) 0 ls) := by
  induction es generalizing p with
  | nil => simp
  | cons e es ih =>
    obtain ⟨hnot, hnodup⟩ := List.nodup_cons.1 hnodup
    rw [List.foldl_cons, applyEdits_fix h (hes e List.mem_cons_self) (hp e List.mem_cons_self), ih]
    · congr 2
      funext i
      simp [Bool.or_assoc]
    · intro e' he'
      exact hes e' (.tail _ he')
    · exact hnodup
    · intro e' he'
      have hne : e'.range.start.line ≠ e.range.start.line := by
        intro heq
        exact hnot (List.mem_map.2 ⟨e', he', heq⟩)
      simp [hp e' (.tail _ he'), hne]

/-- Fixes of all the lines that need one, in any order, give the formatted text. -/
theorem foldl_fixes_perm {cs : List Char} {ls : List Line} (h : Cut cs ls) {es : List TextEdit}
    (hes : es.Perm (Model.format ⟨ls.map Line.body⟩ none)) :
    es.foldl (fun text e => applyEdits feedRows [e] text) (encode cs) =
      applyEdits feedRows (Model.format ⟨ls.map Line.body⟩ none) (encode cs) := by
  have hlines := hes.map (·.range.start.line)
  have hfixed := foldl_fixes h (p := fun _ => false) (fun e he => hes.subset he)
    (hlines.nodup_iff.2 (Model.nodup_format_lines _ none)) (by simp)
  rw [h.stripped_none] at hfixed
  rw [hfixed, applyEdits_format h]
  congr 1
  apply stripped_congr
  intro i l hl
  by_cases htrim : trimEnd l.body = l.body
  · exact .inr htrim
  · -- the line needs a fix, and it has got it
    have hmem : (⟨Range.onLine i (width (trimEnd l.body)) (width l.body), ""⟩ : TextEdit) ∈
        Model.format ⟨ls.map Line.body⟩ none := by
      rw [Model.mem_format]
      exact ⟨i, l.body, by simp [hl], by simp [within], htrim, rfl⟩
    have hfix : i ∈ es.map (·.range.start.line) := hlines.symm.subset (List.mem_map.2 ⟨_, hmem, rfl⟩)
    exact .inl (by simp [hfix, within])

/-! ## The service -/

/-- The edits of an action in a document. -/
def editsOf (uri : String) (a : CodeAction) : List TextEdit :=
  a.edit.elim [] fun w => (w.changes.lookup uri).getD []

theorem editsOf_quickFix (uri : String) (f : Diagnostic) :
    editsOf uri (quickFix uri f) = [⟨f.range, ""⟩] := by
  simp [editsOf, quickFix]

theorem foldl_actions {uri : String} {actions : List CodeAction}
    (h : ∀ a ∈ actions, ∃ e, editsOf uri a = [e]) (text : List Nat) :
    actions.foldl (fun text a => applyEdits feedRows (editsOf uri a) text) text =
      (actions.flatMap (editsOf uri)).foldl (fun text e => applyEdits feedRows [e] text) text := by
  induction actions generalizing text with
  | nil => rfl
  | cons a actions ih =>
    obtain ⟨e, he⟩ := h a List.mem_cons_self
    rw [List.foldl_cons, List.flatMap_cons, he, List.singleton_append, List.foldl_cons]
    apply ih
    intro b hb
    exact h b (.tail _ hb)

variable {μ : Type} {embed : Model → μ} {view : μ → Option Model}

/-- Findings, fixes and formatting agree. Where white space at the ends of lines is reported, the
findings about it mark just what formatting deletes; each has one fix, which makes this one edit in the
document itself; and the fixes, taken one after the other in any order, give the formatted text. -/
theorem fixes_agree (hview : ∀ m, view (embed m) = some m) (max : Option Nat) (d : Document)
    (range : Range) (options : FormattingOptions) (n : Nat) (hnul : '\x00' ∉ d.text.toList) :
    let s := service embed view ⟨true, max⟩
    ∃ m findings, s.parse d = .ok (embed m) ∧
      (s.validate s.settings d (embed m) n).findings = some findings ∧
      let trailing := findings.filter fun f => f.code = some trailingCode
      let edits := s.format s.settings d none options (embed m)
      let actions := s.codeActions s.settings d range findings (embed m)
      trailing.map (·.range) = edits.map (·.range) ∧
      actions.map (fun a => (a.diagnostics, a.edit)) =
        trailing.map (fun f => (some [f], some ⟨[(d.uri, [⟨f.range, ""⟩])]⟩)) ∧
      ∀ order : List CodeAction, order.Perm actions →
        order.foldl (fun text a => applyEdits feedRows (editsOf d.uri a) text) (encode d.text.toList) =
          applyEdits feedRows edits (encode d.text.toList) := by
  intro s
  let m : Model := ⟨d.lines⟩
  refine ⟨m, m.check ⟨true, max⟩, service_parse_ok hnul, service_validate hview _ d m n, ?_⟩
  intro trailing edits actions
  have hedits : edits = m.format none := service_format hview s.settings d none options m
  have htrailing : trailing = m.trailing.map trailingFinding := m.filter_check max
  have hactions : actions = trailing.map (quickFix d.uri) := m.quickFixes_check d.uri ⟨true, max⟩
  refine ⟨?_, ?_, ?_⟩
  · rw [htrailing, hedits, Model.format_none]
    simp [trailingFinding, finding]
  · rw [hactions]
    simp [quickFix]
  · intro order hperm
    have hfix : ∀ a ∈ order, ∃ e, editsOf d.uri a = [e] := by
      intro a ha
      have ha := hperm.subset ha
      rw [hactions] at ha
      obtain ⟨f, -, rfl⟩ := List.mem_map.1 ha
      exact ⟨_, editsOf_quickFix d.uri f⟩
    have hflat : actions.flatMap (editsOf d.uri) = m.format none := by
      rw [hactions, htrailing, Model.format_none]
      simp only [List.flatMap_map, editsOf_quickFix]
      exact List.map_eq_flatMap.symm
    rw [foldl_actions hfix, hedits]
    apply foldl_fixes_perm (cut_split d.text.toList)
    exact hflat ▸ hperm.flatMap_right (editsOf d.uri)

/-- Three lines that end in white space, all of them reported as too long too, are fixed from the last
one up. -/
theorem fixes_agree_mixed :
    '\x00' ∉ mixed.text.toList ∧
      ∃ m findings, (service id some ⟨true, some 1⟩).parse mixed = .ok m ∧
        ((service id some ⟨true, some 1⟩).validate ⟨true, some 1⟩ mixed m 0).findings = some findings ∧
        (quickFixes mixed.uri findings).reverse.foldl
            (fun text a => applyEdits feedRows (editsOf mixed.uri a) text) (encode mixed.text.toList) =
          encode "😀\r\nb\n".toList := by
  have hnul : '\x00' ∉ mixed.text.toList := by decide
  obtain ⟨m, findings, hparse, hfindings, -, -, horder⟩ :=
    @fixes_agree Model id some (fun _ => rfl) (some 1) mixed Range.origin ⟨2⟩ 0 hnul
  refine ⟨hnul, m, findings, hparse, hfindings, (horder _ (List.reverse_perm _)).trans ?_⟩
  obtain rfl : (⟨mixed.lines⟩ : Model) = m := by
    have hlines := @service_parse_ok Model id some ⟨true, some 1⟩ mixed hnul
    exact Except.ok.inj (hlines.symm.trans hparse)
  decide

end LangHost.Plain
