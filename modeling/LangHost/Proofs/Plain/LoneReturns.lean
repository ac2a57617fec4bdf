import LangHost.Proofs.Plain.Formatting
/-!
# Formatting at a client that ends rows at every carriage return

The service ends a line at a line feed only, the protocol at a carriage return of its own too. Behind
such a carriage return the client counts more rows than the service counts lines, and an edit that
means white space comes to lie on a row before it, whatever stands there (`content_lost`). So formatting
takes only white space from the text just if each of its edits finds white space on the client's row
(`only_blank_lost_iff`), which is so as long as no carriage return stands in a line before an edit.
-/

namespace LangHost.Plain

open LangHost.Text

/-! ## Texts that lose white space only -/

/-- Whether a code unit is white space. -/
def isBlankUnit (u : Nat) : Bool := covers blankRanges u

/-- `OnlyBlankLost before after`: the text `after` is `before` without some of its white space. -/
def OnlyBlankLost (before after : List Nat) : Prop :=
  after.Sublist before ∧ after.filter (!isBlankUnit ·) = before.filter (!isBlankUnit ·)

theorem onlyBlankLost_refl (us : List Nat) : OnlyBlankLost us us := ⟨.refl us, rfl⟩

theorem onlyBlankLost_nil {us : List Nat} : OnlyBlankLost us [] ↔ ∀ u ∈ us, isBlankUnit u = true := by
  have hnil : [] = us.filter (!isBlankUnit ·) ↔ us.filter (!isBlankUnit ·) = [] := eq_comm
  simp [OnlyBlankLost, hnil]

/-- What two parts of a text lose together is lost by each of them. -/
theorem onlyBlankLost_append {us us' vs vs' : List Nat} (h : vs.Sublist us) (h' : vs'.Sublist us') :
    OnlyBlankLost (us ++ us') (vs ++ vs') ↔ OnlyBlankLost us vs ∧ OnlyBlankLost us' vs' := by
  simp only [OnlyBlankLost, List.filter_append, h, h', h.append h', true_and]
  constructor
  · intro heq
    have hle := (h.filter (!isBlankUnit ·)).length_le
    have hle' := (h'.filter (!isBlankUnit ·)).length_le
    have hsum := congrArg List.length heq
    simp only [List.length_append] at hsum
    exact ⟨(h.filter _).eq_of_length (by omega), (h'.filter _).eq_of_length (by omega)⟩
  · rintro ⟨heq, heq'⟩
    rw [heq, heq']

/-! ## Rows that lose white space only -/

/-- A row is what is left of it without a stretch, with the stretch put back. -/
theorem units_eq_append (r : Row) {a b : Nat} (hab : a ≤ b) :
    r.units = r.body.take a ++ ((r.body.take b).drop a ++ (r.body.drop b ++ r.ending)) := by
  have htake : r.body.take a ++ (r.body.take b).drop a = r.body.take b := by
    have hsplit := List.take_append_drop a (r.body.take b)
    rwa [List.take_take, Nat.min_eq_left hab] at hsplit
  rw [← List.append_assoc, htake, ← List.append_assoc, List.take_append_drop]
  rfl

theorem without_eq_append (r : Row) (a b : Nat) :
    r.without (some (a, b)) = r.body.take a ++ ([] ++ (r.body.drop b ++ r.ending)) := by
  simp [Row.without]

theorem without_sublist (r : Row) {span : Option (Nat × Nat)} (hspan : ∀ a b, span = some (a, b) → a ≤ b) :
    (r.without span).Sublist r.units := by
  rcases span with _ | ⟨a, b⟩
  · exact .refl _
  · rw [without_eq_append, units_eq_append r (hspan a b rfl)]
    exact (List.Sublist.refl _).append ((List.nil_sublist _).append (.refl _))

theorem onlyBlankLost_without (r : Row) {a b : Nat} (hab : a ≤ b) :
    OnlyBlankLost r.units (r.without (some (a, b))) ↔
      ∀ u ∈ (r.body.take b).drop a, isBlankUnit u = true := by
  rw [without_eq_append, units_eq_append r hab, onlyBlankLost_append (.refl _) (by simp),
    onlyBlankLost_append (List.nil_sublist _) (.refl _), onlyBlankLost_nil]
  simp [onlyBlankLost_refl]

theorem withoutSpans_sublist {rows : List Row} {spans : List (Option (Nat × Nat))}
    (hspans : ∀ a b, some (a, b) ∈ spans → a ≤ b) :
    (withoutSpans rows spans).Sublist (rows.flatMap Row.units) := by
  induction rows generalizing spans with
  | nil => exact .refl []
  | cons r rs ih =>
    cases spans with
    | nil => rw [withoutSpans_nil]
    | cons s ss =>
      have hrow := without_sublist r fun a b hs => hspans a b (hs ▸ List.mem_cons_self)
      exact hrow.append (ih fun a b hs => hspans a b (.tail _ hs))

/-- Deletions within rows take only white space just if each finds white space on its row. -/
theorem onlyBlankLost_withoutSpans {rows : List Row} {spans : List (Option (Nat × Nat))}
    (hspans : ∀ a b, some (a, b) ∈ spans → a ≤ b) :
    OnlyBlankLost (rows.flatMap Row.units) (withoutSpans rows spans) ↔
      ∀ (i a b : Nat) (r : Row), spans[i]? = some (some (a, b)) → rows[i]? = some r →
        ∀ u ∈ (r.body.take b).drop a, isBlankUnit u = true := by
  induction rows generalizing spans with
  | nil => simp [withoutSpans, onlyBlankLost_refl]
  | cons r rs ih =>
    cases spans with
    | nil => simp [withoutSpans_nil, onlyBlankLost_refl]
    | cons s ss =>
      have hs : ∀ a b, s = some (a, b) → a ≤ b := fun a b hs => hspans a b (hs ▸ List.mem_cons_self)
      have hss : ∀ a b, some (a, b) ∈ ss → a ≤ b := fun a b hs => hspans a b (.tail _ hs)
      have hrow : OnlyBlankLost r.units (r.without s) ↔
          ∀ a b, s = some (a, b) → ∀ u ∈ (r.body.take b).drop a, isBlankUnit u = true := by
        rcases s with _ | ⟨a, b⟩
        · simp [Row.without, onlyBlankLost_refl]
        · simp [onlyBlankLost_without r (hs a b rfl)]
      rw [List.flatMap_cons, withoutSpans, onlyBlankLost_append (without_sublist r hs) (withoutSpans_sublist hss),
        hrow, ih hss]
      constructor
      · rintro ⟨hfirst, hrest⟩ i a b r' hspan hr'
        cases i with
        | zero =>
          cases hr'
          exact hfirst a b (by simpa using hspan)
        | succ i => exact hrest i a b r' hspan hr'
      · intro hall
        refine ⟨fun a b hspan => hall 0 a b r (by simp [hspan]) rfl, fun i a b r' hspan hr' => ?_⟩
        exact hall (i + 1) a b r' hspan hr'

/-! ## Where the edits come to lie -/

theorem exists_of_covers {ranges : List (Nat × Nat)} {n : Nat} (h : covers ranges n = true) :
    ∃ r ∈ ranges, n ≤ r.2 := by
  induction ranges with
  | nil => cases h
  | cons r ranges ih =>
    unfold covers at h
    split at h
    · cases h
    · rcases Bool.or_eq_true_iff.1 h with hle | hrest
      · exact ⟨r, List.mem_cons_self, of_decide_eq_true hle⟩
      · obtain ⟨r', hr', hle⟩ := ih hrest
        exact ⟨r', .tail _ hr', hle⟩

/-- White space lies in the basic plane, so that each of its characters is one code unit. -/
theorem isBlankUnit_of_mem_encode {cs : List Char} (h : ∀ c ∈ cs, isBlank c = true) {u : Nat}
    (hu : u ∈ encode cs) : isBlankUnit u = true := by
  obtain ⟨c, hc, hu⟩ := List.mem_flatMap.1 hu
  have hblank := h c hc
  obtain ⟨r, hr, hle⟩ := exists_of_covers hblank
  have hplane : ∀ r ∈ blankRanges, r.2 < 0x10000 := by decide
  have hlt : c.toNat < 0x10000 := Nat.lt_of_le_of_lt hle (hplane r hr)
  rw [encodeChar, if_pos hlt, List.mem_singleton] at hu
  rw [hu]
  exact hblank

/-- A line without a carriage return is part of one row. -/
theorem protocolRows_line {body : List Char} (hfeed : '\n' ∉ body) (hreturn : '\r' ∉ body)
    {us : List Nat} {r : Row} {rs : List Row} (h : protocolRows us = r :: rs) :
    protocolRows (encode body ++ us) = ⟨encode body ++ r.body, r.ending⟩ :: rs := by
  apply protocolRows_append _ _ h
  · rwa [feed_mem_encode]
  · rwa [carriageReturn_mem_encode]

/-- As long as no carriage return stands in a line before, the client's row of a number is the line of
that number, up to the first carriage return in it. -/
theorem body_of_row {cs : List Char} {ls : List Line} (h : Cut cs ls) {n : Nat} {l : Line} {r : Row}
    (hl : ls[n]? = some l) (hreturn : ∀ l' ∈ ls.take n, '\r' ∉ l'.body)
    (hr : (protocolRows (encode cs))[n]? = some r) : r.body <+: encode l.body := by
  induction h generalizing n with
  | nil => cases hl
  | @last body hne hbody =>
    cases n with
    | zero =>
      cases hl
      rw [← List.append_nil (encode body)] at hr
      exact body_of_first_row (by simp) hr
    | succ n => cases hl
  | @lf body cs ls hbody hlast _ ih =>
    rw [encode_append, encode_lf] at hr
    cases n with
    | zero =>
      cases hl
      exact body_of_first_row (by simp) hr
    | succ n =>
      have hfirst : '\r' ∉ body := hreturn _ List.mem_cons_self
      rw [protocolRows_line hbody hfirst (protocolRows_feed _)] at hr
      exact ih hl (fun l' hl' => hreturn l' (.tail _ hl')) hr
  | @crlf body cs ls hbody _ ih =>
    rw [encode_append, encode_crlf] at hr
    cases n with
    | zero =>
      cases hl
      exact body_of_first_row (by simp) hr
    | succ n =>
      have hfirst : '\r' ∉ body := hreturn _ List.mem_cons_self
      rw [protocolRows_line hbody hfirst (protocolRows_return_feed _)] at hr
      exact ih hl (fun l' hl' => hreturn l' (.tail _ hl')) hr

/-- What stands on such a row where the line ends in white space is white space. -/
theorem blank_of_mem_row {line : List Char} {r : Row} (h : r.body <+: encode line) {u : Nat}
    (hu : u ∈ (r.body.take (width line)).drop (width (trimEnd line))) : isBlankUnit u = true := by
  have hdrop : (encode line).drop (width (trimEnd line)) = encode (line.rtakeWhile isBlank) := by
    rw [encode_trimEnd line, ← length_encode, List.drop_left]
  have hmem : u ∈ (encode line).drop (width (trimEnd line)) :=
    (((List.take_sublist _ _).trans h.sublist).drop _).subset hu
  rw [hdrop] at hmem
  exact isBlankUnit_of_mem_encode (fun c hc => List.mem_rtakeWhile_imp hc) hmem

/-! ## The service -/

/-- The edits of a formatting take only white space just if each finds white space on its row. -/
theorem onlyBlankLost_format (m : Model) (range : Option Range) (text : List Nat) :
    OnlyBlankLost text (applyEdits protocolRows (m.format range) text) ↔
      ∀ e ∈ m.format range, ∀ r, (protocolRows text)[e.range.start.line]? = some r →
        ∀ u ∈ (r.body.take e.range.stop.character).drop e.range.start.character,
          isBlankUnit u = true := by
  have hspans : ∀ a b, some (a, b) ∈ spans (within range) 0 m.lines → a ≤ b := by
    intro a b hmem
    obtain ⟨i, hi⟩ := List.mem_iff_getElem?.1 hmem
    obtain ⟨line, -, -, -, rfl, rfl⟩ := spans_getElem?.1 hi
    have hwidth := congrArg width (trimEnd_append line)
    rw [width_append] at hwidth
    omega
  have hread := flatMap_protocolRows text
  have hlost := @onlyBlankLost_withoutSpans (protocolRows text) _ hspans
  rw [hread] at hlost
  rw [Model.format_eq, applyEdits_deletions hread, hlost]
  simp only [mem_deletions, Nat.zero_add]
  constructor
  · rintro hall e ⟨i, a, b, hi, rfl⟩ r hr
    exact hall i a b r hi hr
  · intro hall i a b r hi hr
    exact hall _ ⟨i, a, b, hi, rfl⟩ r hr

variable {μ : Type} {embed : Model → μ} {view : μ → Option Model} {settings : Settings}

/-- At a client that ends rows as the protocol has it, formatting takes only white space from the text
just if every edit finds nothing but white space on the client's row of its number. This is so as long
as no line before an edit holds a carriage return. -/
theorem only_blank_lost_iff (hview : ∀ m, view (embed m) = some m) (d : Document) (range : Option Range)
    (options : FormattingOptions) (hnul : '\x00' ∉ d.text.toList) :
    let s := service embed view settings
    ∃ m, s.parse d = .ok (embed m) ∧
      let edits := s.format s.settings d range options (embed m)
      let before := encode d.text.toList
      let after := applyEdits protocolRows edits before
      (OnlyBlankLost before after ↔
        ∀ e ∈ edits, ∀ r, (protocolRows before)[e.range.start.line]? = some r →
          ∀ u ∈ (r.body.take e.range.stop.character).drop e.range.start.character,
            isBlankUnit u = true) ∧
      ((∀ e ∈ edits, ∀ line ∈ m.lines.take e.range.start.line, '\r' ∉ line) →
        OnlyBlankLost before after) := by
  intro s
  let m : Model := ⟨d.lines⟩
  refine ⟨m, service_parse_ok hnul, ?_⟩
  intro edits before after
  have hedits : edits = m.format range := service_format hview s.settings d range options m
  have hiff := onlyBlankLost_format m range before
  rw [← hedits] at hiff
  refine ⟨hiff, fun hreturn => hiff.2 ?_⟩
  intro e he r hr u hu
  have hmem := he
  rw [hedits] at hmem
  obtain ⟨n, line, hline, -, -, rfl⟩ := Model.mem_format.1 hmem
  obtain ⟨l, hl, rfl⟩ := exists_line hline
  have hbefore : ∀ l' ∈ (split d.text.toList).take n, '\r' ∉ l'.body := by
    intro l' hl'
    apply hreturn _ he
    show l'.body ∈ (((split d.text.toList).map Line.body).take n)
    rw [← List.map_take]
    exact List.mem_map.2 ⟨l', hl', rfl⟩
  exact blank_of_mem_row (body_of_row (cut_split d.text.toList) hl hbefore hr) hu

/-- A carriage return in the line that is edited does no harm, nor does one of a break before it. -/
theorem only_blank_lost_iff_returns :
    '\x00' ∉ mixed.text.toList ∧
      ∃ m, (service id some).parse mixed = .ok m ∧
        OnlyBlankLost (encode mixed.text.toList)
          (applyEdits protocolRows ((service id some).format {} mixed none ⟨2⟩ m)
            (encode mixed.text.toList)) := by
  have hnul : '\x00' ∉ mixed.text.toList := by decide
  obtain ⟨m, hparse, -, hlost⟩ :=
    @only_blank_lost_iff Model id some {} (fun _ => rfl) mixed none ⟨2⟩ hnul
  refine ⟨hnul, m, hparse, hlost ?_⟩
  obtain rfl : (⟨mixed.lines⟩ : Model) = m := by
    have hlines := @service_parse_ok Model id some {} mixed hnul
    exact Except.ok.inj (hlines.symm.trans hparse)
  decide

/-- A text whose first line holds a carriage return and whose second line is white space. -/
def returning : Document := ⟨"file:///a.txt", kind, 1, "x\rab\n  "⟩

/-- Formatting the text deletes letters: the second line is the client's third row. -/
theorem content_lost :
    '\x00' ∉ returning.text.toList ∧
      ∃ m, (service id some).parse returning = .ok m ∧
        ¬ OnlyBlankLost (encode returning.text.toList)
          (applyEdits protocolRows ((service id some).format {} returning none ⟨2⟩ m)
            (encode returning.text.toList)) := by
  have hnul : '\x00' ∉ returning.text.toList := by decide
  refine ⟨hnul, ⟨returning.lines⟩, @service_parse_ok Model id some {} returning hnul, ?_⟩
  rintro ⟨-, hkept⟩
  revert hkept
  decide

end LangHost.Plain
