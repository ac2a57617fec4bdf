import LangHost.Text.Blank
import LangHost.Text.Line
import Mathlib.Data.List.DropRight
/-!
# Texts and their lines

`Cut cs ls` says of lines with their breaks that they make up a text: every line but the last has a
break, no line feed is left in a line, and no carriage return before a line feed is. There is exactly
one such cut, the one that `split` finds (`cut_iff`).

`stripped` is what becomes of a text when some of its lines lose the white space at their ends. Lines
of which all white space at the end is gone are cut again into such lines (`Cut.stripped_all`).
-/

namespace LangHost.Text

/-! ## The cut of a text -/

/-- `Cut cs ls`: the text `cs` is made up of the lines `ls`. -/
inductive Cut : List Char → List Line → Prop
  | nil : Cut [] []
  | last {body : List Char} : body ≠ [] → '\n' ∉ body → Cut body [⟨body, .none⟩]
  | lf {body cs : List Char} {ls : List Line} : '\n' ∉ body → body.getLast? ≠ some '\r' → Cut cs ls →
      Cut (body ++ '\n' :: cs) (⟨body, .lf⟩ :: ls)
  | crlf {body cs : List Char} {ls : List Line} : '\n' ∉ body → Cut cs ls →
      Cut (body ++ '\r' :: '\n' :: cs) (⟨body, .crlf⟩ :: ls)

/-- A character that neither is a line feed nor belongs to a break is put before the first line. -/
theorem Cut.cons {c : Char} {cs : List Char} {l : Line} {ls : List Line} (h : Cut cs (l :: ls))
    (hc : c ≠ '\n') (hbreak : ∀ rest, c = '\r' → cs ≠ '\n' :: rest) : Cut (c :: cs) (l.cons c :: ls) := by
  cases h with
  | last hne hbody => exact .last (by simp) (by simp [hc.symm, hbody])
  | @lf body cs _ hbody hlast h =>
    refine @Cut.lf (c :: body) _ _ (by simp [hc.symm, hbody]) ?_ h
    cases body with
    | nil =>
      intro hreturn
      exact hbreak cs (by simpa using hreturn) rfl
    | cons d body => simpa using hlast
  | @crlf body cs _ hbody h => exact @Cut.crlf (c :: body) _ _ (by simp [hc.symm, hbody]) h

theorem cut_split (cs : List Char) : Cut cs (split cs) := by
  fun_induction split cs with
  | case1 => exact .nil
  | case2 rest ih => exact @Cut.lf [] _ _ (by simp) (by simp) ih
  | case3 rest ih => exact @Cut.crlf [] _ _ (by simp) ih
  | case4 c rest hc hbreak hnil ih =>
    rw [hnil] at ih
    cases ih
    exact .last (by simp) (by simpa using Ne.symm hc)
  | case5 c rest hc hbreak l ls hcons ih =>
    rw [hcons] at ih
    exact ih.cons hc hbreak

/-- Characters without a line feed lengthen the first line, unless a break reaches into them. -/
theorem split_append {body cs : List Char} {l : Line} {ls : List Line} (hbody : '\n' ∉ body)
    (hbreak : ∀ rest, body.getLast? = some '\r' → cs ≠ '\n' :: rest) (h : split cs = l :: ls) :
    split (body ++ cs) = ⟨body ++ l.body, l.ending⟩ :: ls := by
  induction body with
  | nil => exact h
  | cons c body ih =>
    obtain ⟨hc, hbody⟩ : '\n' ≠ c ∧ '\n' ∉ body := by simpa using hbody
    have hrest : split (body ++ cs) = ⟨body ++ l.body, l.ending⟩ :: ls := by
      apply ih hbody
      intro rest hlast
      apply hbreak
      simp [List.getLast?_cons, hlast]
    rw [List.cons_append, split.eq_4 _ _ hc.symm, hrest]
    · rfl
    · rintro rest rfl hnext
      cases body with
      | nil => exact hbreak rest rfl hnext
      | cons d body =>
        rw [List.cons_append, List.cons.injEq] at hnext
        exact hbody (by simp [hnext.1])

theorem Cut.split_eq {cs : List Char} {ls : List Line} (h : Cut cs ls) : split cs = ls := by
  induction h with
  | nil => rfl
  | @last body hne hbody =>
    rcases List.eq_nil_or_concat body with rfl | ⟨init, c, rfl⟩
    · exact absurd rfl hne
    · obtain ⟨hinit, hc⟩ : '\n' ∉ init ∧ '\n' ≠ c := by simpa using hbody
      rw [List.concat_eq_append]
      have hend : split [c] = [⟨[c], .none⟩] := by
        rw [split.eq_4 _ _ hc.symm (by simp)]
        rfl
      apply split_append hinit _ hend
      intro rest _ hnext
      exact hc (List.cons.inj hnext).1.symm
  | @lf body cs ls hbody hlast _ ih =>
    have hend : split ('\n' :: cs) = ⟨[], .lf⟩ :: ls := by rw [split, ih]
    simpa using split_append hbody (fun rest hreturn => absurd hreturn hlast) hend
  | @crlf body cs ls hbody _ ih =>
    have hend : split ('\r' :: '\n' :: cs) = ⟨[], .crlf⟩ :: ls := by rw [split, ih]
    simpa using split_append hbody (by simp) hend

/-- A text has one cut, and `split` finds it. -/
theorem cut_iff {cs : List Char} {ls : List Line} : Cut cs ls ↔ split cs = ls := by
  constructor
  · exact Cut.split_eq
  · rintro rfl
    exact cut_split cs

/-- A character that is in no break stands in a text just if it stands in one of its lines. -/
theorem Cut.exists_mem {c : Char} (hr : c ≠ '\r') (hn : c ≠ '\n') {cs : List Char} {ls : List Line}
    (h : Cut cs ls) : (∃ l ∈ ls, c ∈ l.body) ↔ c ∈ cs := by
  induction h with
  | nil => simp
  | last => simp
  | lf _ _ _ ih => simpa [hn] using or_congr_right ih
  | crlf _ _ ih => simpa [hn, hr] using or_congr_right ih

theorem exists_mem_lines {c : Char} (hr : c ≠ '\r') (hn : c ≠ '\n') (cs : List Char) :
    (∃ line ∈ lines cs, c ∈ line) ↔ c ∈ cs := by
  rw [← (cut_split cs).exists_mem hr hn, lines]
  constructor
  · rintro ⟨line, hline, hc⟩
    obtain ⟨l, hl, rfl⟩ := List.mem_map.1 hline
    exact ⟨l, hl, hc⟩
  · rintro ⟨l, hl, hc⟩
    exact ⟨l.body, List.mem_map.2 ⟨l, hl, rfl⟩, hc⟩

theorem exists_line {cs : List Char} {n : Nat} {line : List Char} (h : (lines cs)[n]? = some line) :
    ∃ l, (split cs)[n]? = some l ∧ l.body = line := by
  simpa [lines] using h

/-! ## White space at the ends of lines -/

theorem isBlank_return : isBlank '\r' = true := by decide

/-- A text is what is left without the white space at its end, and that white space. -/
theorem trimEnd_append (cs : List Char) : trimEnd cs ++ cs.rtakeWhile isBlank = cs :=
  List.rdropWhile_append_rtakeWhile

theorem trimEnd_isPrefix (cs : List Char) : trimEnd cs <+: cs := List.rdropWhile_prefix isBlank cs

theorem trimEnd_trimEnd (cs : List Char) : trimEnd (trimEnd cs) = trimEnd cs :=
  List.rdropWhile_idempotent isBlank cs

theorem trimEnd_length_eq {cs : List Char} : (trimEnd cs).length = cs.length ↔ trimEnd cs = cs := by
  constructor
  · exact (trimEnd_isPrefix cs).eq_of_length
  · intro h
    rw [h]

/-- No white space is left at the end. -/
theorem getLast?_trimEnd_ne (cs : List Char) {c : Char} (hc : isBlank c = true) :
    (trimEnd cs).getLast? ≠ some c := by
  intro hlast
  have hne : trimEnd cs ≠ [] := by
    intro hnil
    simp [hnil] at hlast
  rw [List.getLast?_eq_some_getLast hne, Option.some.injEq] at hlast
  have hnot : ¬ isBlank ((trimEnd cs).getLast hne) = true := List.rdropWhile_last_not isBlank cs hne
  exact hnot (hlast ▸ hc)

/-- The text of lines from the number `n` on, of which those that `p` picks have lost the white space
at their ends. -/
def stripped (p : Nat → Bool) (n : Nat) (ls : List Line) : List Char :=
  (ls.zipIdx n).flatMap fun (l, i) => (if p i then trimEnd l.body else l.body) ++ l.ending.chars

@[simp] theorem stripped_nil (p : Nat → Bool) (n : Nat) : stripped p n [] = [] := rfl

@[simp] theorem stripped_cons (p : Nat → Bool) (n : Nat) (l : Line) (ls : List Line) :
    stripped p n (l :: ls) =
      (if p n then trimEnd l.body else l.body) ++ (l.ending.chars ++ stripped p (n + 1) ls) := by
  simp [stripped]

/-- Whether a line without white space at its end is picked makes no difference. -/
theorem stripped_congr {p q : Nat → Bool} {ls : List Line}
    (h : ∀ i l, ls[i]? = some l → p i = q i ∨ trimEnd l.body = l.body) :
    stripped p 0 ls = stripped q 0 ls := by
  unfold stripped
  apply List.flatMap_congr
  rintro ⟨l, i⟩ hmem
  rcases h i l (List.mem_zipIdx_iff_getElem?.1 hmem) with hpq | htrim
  · simp only [hpq]
  · simp only [htrim, ite_self]

/-- Where no line is picked the text stays as it is. -/
theorem Cut.stripped_none {cs : List Char} {ls : List Line} (h : Cut cs ls) (n : Nat) :
    stripped (fun _ => false) n ls = cs := by
  induction h generalizing n with
  | nil => rfl
  | last => simp [Break.chars]
  | lf _ _ _ ih => simp [Break.chars, ih]
  | crlf _ _ ih => simp [Break.chars, ih]

/-- Nothing comes into a text when its lines are stripped. -/
theorem Cut.stripped_sublist {cs : List Char} {ls : List Line} (h : Cut cs ls) (p : Nat → Bool) (n : Nat) :
    (stripped p n ls).Sublist cs := by
  have hbody (body : List Char) (b : Bool) : (if b then trimEnd body else body).Sublist body := by
    cases b with
    | false => exact .refl body
    | true => exact (trimEnd_isPrefix body).sublist
  induction h generalizing n with
  | nil => exact .refl []
  | @last body => simpa [Break.chars] using hbody body (p n)
  | @lf body _ _ _ _ _ ih => simpa [Break.chars] using (hbody body (p n)).append ((ih (n + 1)).cons_cons '\n')
  | @crlf body _ _ _ _ ih =>
    simpa [Break.chars] using (hbody body (p n)).append (((ih (n + 1)).cons_cons '\n').cons_cons '\r')

/-- A text without white space at the ends of its lines is cut into lines without it. -/
theorem Cut.stripped_all {cs : List Char} {ls : List Line} (h : Cut cs ls) (n : Nat) :
    ∃ ls', Cut (stripped (fun _ => true) n ls) ls' ∧ ∀ l ∈ ls', trimEnd l.body = l.body := by
  have hfeed {body : List Char} (hbody : '\n' ∉ body) : '\n' ∉ trimEnd body := by
    intro hmem
    exact hbody ((trimEnd_isPrefix body).subset hmem)
  induction h generalizing n with
  | nil => exact ⟨[], .nil, by simp⟩
  | @last body hne hbody =>
    -- a last line of white space only is gone altogether
    by_cases hnil : trimEnd body = []
    · exact ⟨[], by simpa [Break.chars, hnil] using Cut.nil, by simp⟩
    · refine ⟨[⟨trimEnd body, .none⟩], ?_, by simp [trimEnd_trimEnd]⟩
      simpa [Break.chars] using Cut.last hnil (hfeed hbody)
  | @lf body cs ls hbody hlast _ ih =>
    obtain ⟨ls', hcut, hls'⟩ := ih (n + 1)
    refine ⟨⟨trimEnd body, .lf⟩ :: ls', ?_, by simpa [trimEnd_trimEnd] using hls'⟩
    simpa [Break.chars] using Cut.lf (hfeed hbody) (getLast?_trimEnd_ne body isBlank_return) hcut
  | @crlf body cs ls hbody _ ih =>
    obtain ⟨ls', hcut, hls'⟩ := ih (n + 1)
    refine ⟨⟨trimEnd body, .crlf⟩ :: ls', ?_, by simpa [trimEnd_trimEnd] using hls'⟩
    simpa [Break.chars] using Cut.crlf (hfeed hbody) hcut

end LangHost.Text
