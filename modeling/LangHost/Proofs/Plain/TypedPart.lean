import LangHost.Proofs.Plain.Completion
/-!
# What is typed of a word

The scan for what is typed ends at the cursor only if a character starts there, and else at the end of the
line. A cursor on a word is between two of its characters, or behind the last one, unless it stands between
the two code units of one of them (`exists_front_or_inside`). In that case nothing stops the scan, neither
at the cursor nor at the end of the word: all that follows on the line counts as typed
(`typed_within_word_iff`).
-/

namespace LangHost.Plain

open LangHost.Text

/-! ## Where the scan ends -/

/-- The first code unit of a text is that of a character, or the first of its two. -/
theorem first_not_lowSurrogate (cs : List Char) : ∀ u ∈ (encode cs)[0]?, isLowSurrogate u = false := by
  intro u hu
  cases cs with
  | nil => cases hu
  | cons c cs =>
    have hvalid := toNat_valid c
    rw [encode_cons, encodeChar] at hu
    split at hu
    all_goals
      simp only [List.cons_append, List.getElem?_cons_zero, Option.mem_some_iff] at hu
      subst hu
      simp only [isLowSurrogate, Bool.and_eq_false_iff, decide_eq_false_iff_not]
      omega

/-- A scan that is past its target goes on to the end. -/
theorem before_of_lt {target column : Nat} (hlt : target < column) (cs : List Char) :
    before target column cs = cs := by
  induction cs generalizing column with
  | nil => rfl
  | cons c cs ih => rw [before, if_neg (by omega), ih (by omega)]

/-- So does a scan for a column inside a character. -/
theorem before_of_inside {column cursor : Nat} {front : List Char} {c : Char}
    (hafter : column + width front < cursor) (hbefore : cursor < column + width front + units c)
    (rest : List Char) : before cursor column (front ++ c :: rest) = front ++ c :: rest := by
  induction front generalizing column with
  | nil =>
    rw [width_nil, Nat.add_zero] at hafter hbefore
    rw [List.nil_append, before, if_neg (by omega), before_of_lt hbefore]
  | cons d front ih =>
    rw [width_cons, ← Nat.add_assoc] at hafter hbefore
    rw [List.cons_append, before, if_neg (by omega), ih hafter hbefore]

/-- From the column behind `front` up to one inside a character stands all the rest. -/
theorem prefixBefore_inside {front typed : List Char} {c : Char} {cursor : Nat}
    (hafter : width front + width typed < cursor) (hbefore : cursor < width front + width typed + units c)
    (rest : List Char) :
    prefixBefore (front ++ (typed ++ c :: rest)) (width front) cursor = typed ++ c :: rest := by
  rw [prefixBefore_eq (by omega), before_of_inside hafter hbefore]

/-! ## The characters before a column -/

/-- The characters of a word that end at a column or before it. -/
def Occurrence.endingBy (w : Occurrence) (column : Nat) : List Char :=
  (w.text.zipIdx.filter fun x =>
    decide (w.range.start.character + width (w.text.take (x.2 + 1)) ≤ column)).map (·.1)

theorem width_take_le (cs : List Char) (n : Nat) : width (cs.take n) ≤ width cs := by
  have hwidth := congrArg width (cs.take_append_drop n)
  rw [width_append] at hwidth
  omega

/-- They are what stands before the first character that ends behind the column. -/
theorem Occurrence.endingBy_eq {w : Occurrence} {column : Nat} {typed behind : List Char}
    (htext : w.text = typed ++ behind) (hle : w.range.start.character + width typed ≤ column)
    (hnext : ∀ c ∈ behind.head?, column < w.range.start.character + width typed + units c) :
    w.endingBy column = typed := by
  unfold Occurrence.endingBy
  rw [htext, List.zipIdx_append, List.filter_append]
  have hkept : ∀ x ∈ typed.zipIdx,
      decide (w.range.start.character + width ((typed ++ behind).take (x.2 + 1)) ≤ column) = true := by
    rintro ⟨c, i⟩ hx
    obtain ⟨hlt, -⟩ := List.getElem?_eq_some_iff.1 (List.mem_zipIdx_iff_getElem?.1 hx)
    have hwidth := width_take_le typed (i + 1)
    rw [List.take_append_of_le_length (by omega), decide_eq_true_eq]
    dsimp only
    omega
  have hleft : ∀ x ∈ behind.zipIdx (0 + typed.length),
      ¬ decide (w.range.start.character + width ((typed ++ behind).take (x.2 + 1)) ≤ column) = true := by
    rintro ⟨c, i⟩ hx
    have hi := List.le_snd_of_mem_zipIdx hx
    obtain ⟨d, behind', rfl⟩ := List.exists_cons_of_ne_nil (List.ne_nil_of_mem (List.fst_mem_of_mem_zipIdx hx))
    have hd := hnext d rfl
    have htake : (typed ++ d :: behind').take (i + 1) = typed ++ d :: behind'.take (i - typed.length) := by
      rw [List.take_append, List.take_of_length_le (by omega),
        show i + 1 - typed.length = i - typed.length + 1 by omega, List.take_succ_cons]
    rw [htake, width_append, width_cons, decide_eq_true_eq]
    omega
  rw [List.filter_eq_self.2 hkept, List.filter_eq_nil_iff.2 hleft, List.append_nil, List.zipIdx_map_fst]

/-! ## What is typed -/

/-- A cursor inside a character is inside one of the word that it is on. -/
theorem Model.exists_inside {m : Model} {p : Position} {w : Occurrence} (hword : m.wordAt? p = some w)
    (hpair : m.insidePair p = true) :
    ∃ front typed c behind rest,
      m.lines[p.line]? = some (front ++ (typed ++ c :: (behind ++ rest))) ∧
      w.text = typed ++ c :: behind ∧ w.range.start.character = width front ∧
      width front + width typed < p.character ∧ p.character < width front + width typed + units c := by
  obtain ⟨line, front, rest, hline, hrun, hstart, hle, hstop⟩ := Model.exists_run hword
  rcases @exists_front_or_inside w.text (p.character - width front) (by omega) with
    ⟨typed, behind, htext, hwidth⟩ | ⟨typed, c, behind, htext, hafter, hbefore⟩
  · -- where the line can be cut stands the first unit of what follows
    have hunit : (encode line)[p.character]? = (encode (behind ++ rest))[0]? := by
      have hcolumn : p.character = (encode (front ++ typed)).length := by
        rw [length_encode, width_append]
        omega
      have hsplit : line = (front ++ typed) ++ (behind ++ rest) := by
        rw [hrun.eq, htext]
        simp
      rw [hsplit, encode_append, hcolumn, List.getElem?_append_right (Nat.le_refl _), Nat.sub_self]
    have hfirst := first_not_lowSurrogate (behind ++ rest)
    rw [Model.insidePair, hline, Option.bind_some, hunit] at hpair
    cases hu : (encode (behind ++ rest))[0]? with
    | none =>
      rw [hu] at hpair
      cases hpair
    | some u =>
      rw [hu, Option.any_some, hfirst u hu] at hpair
      cases hpair
  · refine ⟨front, typed, c, behind, rest, ?_, htext, hstart, by omega, by omega⟩
    rw [hline, hrun.eq, htext]
    simp

/-- What is typed of the word under the cursor is a first part of this word, namely its characters that end
at the cursor or before it, just if the cursor is not inside a character. If it is, then the whole word
counts as typed and with it the rest of the line. -/
theorem typed_within_word_iff {m : Model} {p : Position} {line : List Char} {w : Occurrence}
    (hline : m.lines[p.line]? = some line) (hword : m.wordAt? p = some w) :
    let typed := prefixBefore line w.range.start.character p.character
    (typed <+: w.text ∧ typed = w.endingBy p.character ↔ m.insidePair p = false) ∧
      (m.insidePair p = true → ∃ front rest, line = front ++ w.text ++ rest ∧
        width front = w.range.start.character ∧ typed = w.text ++ rest) := by
  intro typed
  cases hpair : m.insidePair p with
  | false =>
    obtain ⟨front, text, behind, rest, hline', htext, hstart, hcursor⟩ := Model.exists_typed hword hpair
    obtain rfl : front ++ (text ++ (behind ++ rest)) = line := Option.some.inj (hline'.symm.trans hline)
    have htyped : typed = text := by
      simp only [typed, hstart, hcursor]
      exact prefixBefore_append front text (behind ++ rest)
    have hending : w.endingBy p.character = text := by
      apply Occurrence.endingBy_eq htext
      · omega
      · intro c _
        have hpos := units_pos c
        omega
    refine ⟨iff_of_true ⟨?_, ?_⟩ rfl, nofun⟩
    · rw [htyped, htext]
      exact List.prefix_append text behind
    · rw [htyped, hending]
  | true =>
    obtain ⟨front, text, c, behind, rest, hline', htext, hstart, hafter, hbefore⟩ :=
      Model.exists_inside hword hpair
    obtain rfl : front ++ (text ++ c :: (behind ++ rest)) = line := Option.some.inj (hline'.symm.trans hline)
    have htyped : typed = text ++ c :: (behind ++ rest) := by
      simp only [typed, hstart]
      exact prefixBefore_inside hafter hbefore (behind ++ rest)
    have hending : w.endingBy p.character = text := by
      apply Occurrence.endingBy_eq htext
      · omega
      · rintro d ⟨⟩
        omega
    refine ⟨iff_of_false ?_ nofun, fun _ => ⟨front, rest, ?_, hstart.symm, ?_⟩⟩
    · rintro ⟨-, heq⟩
      rw [htyped, hending] at heq
      simpa using congrArg List.length heq
    · simp [htext]
    · rw [htyped, htext]
      simp

/-- Two words, of which the first starts with a character of two code units. -/
def twoWords : Model := ⟨["𝐚b x".toList]⟩

theorem wordAt?_twoWords {column : Nat} (h : column ≤ 3) :
    twoWords.wordAt? ⟨0, column⟩ = some ⟨"𝐚b".toList, Range.onLine 0 0 3⟩ := by
  have hletters : "𝐚b".toList.all isWordChar = true := by decide +kernel
  have hspace : isWordChar ' ' = false := by decide
  have hmem : ⟨"𝐚b".toList, Range.onLine 0 0 3⟩ ∈ twoWords.words :=
    twoWords.mem_words.2 ⟨0, _, [], " x".toList, rfl,
      ⟨rfl, by decide, List.all_eq_true.1 hletters, nofun, by rintro c ⟨⟩; exact hspace⟩, rfl⟩
  exact Model.wordAt?_of_mem hmem (Nat.zero_le column) h

/-- Behind the first character, this character is typed. -/
theorem typed_within_word_iff_behind :
    twoWords.insidePair ⟨0, 2⟩ = false ∧ prefixBefore "𝐚b x".toList 0 2 = ['𝐚'] ∧
      prefixBefore "𝐚b x".toList 0 2 <+: "𝐚b".toList := by
  have hpair : twoWords.insidePair ⟨0, 2⟩ = false := by decide
  obtain ⟨hiff, -⟩ := @typed_within_word_iff twoWords ⟨0, 2⟩ _ _ rfl (wordAt?_twoWords (by decide))
  exact ⟨hpair, (hiff.2 hpair).2.trans (by decide), (hiff.2 hpair).1⟩

/-- In the middle of it, where nothing of the word ends, both words are. -/
theorem typed_beyond_word :
    let w : Occurrence := ⟨"𝐚b".toList, Range.onLine 0 0 3⟩
    let typed := prefixBefore "𝐚b x".toList w.range.start.character 1
    twoWords.lines[0]? = some "𝐚b x".toList ∧ twoWords.wordAt? ⟨0, 1⟩ = some w ∧
      typed = "𝐚b x".toList ∧ ¬ typed <+: w.text ∧ w.endingBy 1 = [] :=
  ⟨rfl, wordAt?_twoWords (by decide), by decide, by decide, by decide⟩

end LangHost.Plain
