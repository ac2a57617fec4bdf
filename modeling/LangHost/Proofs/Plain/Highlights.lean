import LangHost.Plain.Service
import LangHost.Proofs.Plain.Words
/-!
# Highlights

The occurrences of a word form a class: whichever of them the cursor is on, and wherever it is on it, all
of them are highlighted, in the order of the text (`highlights_exact`). It comes down to this, that every
column of a word finds the word itself, its two ends and the middle of a character included
(`Model.wordAt?_of_mem`).
-/

namespace LangHost

/-- Whether a range ends before another one starts. -/
def Range.Before (r s : Range) : Prop :=
  r.stop.line < s.start.line ∨ r.stop.line = s.start.line ∧ r.stop.character < s.start.character

namespace Plain

open Text

/-! ## The highlights of a word -/

theorem Model.highlights_eq_nil (m : Model) (p : Position) : m.highlights p = [] ↔ m.wordAt? p = none := by
  unfold Model.highlights
  cases hword : m.wordAt? p with
  | none => simp
  | some w =>
    -- the word is an occurrence of itself
    have hmem := (Model.wordAt?_eq_some.1 hword).1
    simp only [List.map_eq_nil_iff, List.filter_eq_nil_iff, reduceCtorEq, iff_false]
    intro hnone
    exact hnone w hmem (by simp)

theorem Model.map_range_highlights {m : Model} {p : Position} {w : Occurrence} (hw : m.wordAt? p = some w) :
    (m.highlights p).map (·.range) = (m.words.filter fun v => v.text == w.text).map (·.range) := by
  simp [Model.highlights, hw]

/-- Of the word under the cursor only its text matters. -/
theorem Model.highlights_congr {m : Model} {p q : Position} {v w : Occurrence} (hv : m.wordAt? p = some v)
    (hw : m.wordAt? q = some w) (htext : v.text = w.text) : m.highlights p = m.highlights q := by
  simp only [Model.highlights, hv, hw, htext]

theorem Model.mem_highlights {m : Model} {p : Position} {w : Occurrence} (hw : m.wordAt? p = some w)
    {r : Range} :
    r ∈ (m.highlights p).map (·.range) ↔ ∃ v ∈ m.words, v.text = w.text ∧ v.range = r := by
  rw [Model.map_range_highlights hw]
  simp [and_assoc]

/-! ## The service -/

variable {μ : Type} {embed : Model → μ} {view : μ → Option Model} {settings : Settings}

theorem service_highlights (hview : ∀ m, view (embed m) = some m) (s : Settings) (d : Document)
    (p : Position) (m : Model) : (service embed view settings).highlights s d p (embed m) = m.highlights p := by
  simp [service, hview]

/-- Nothing is highlighted just where no word is found. Else the highlights are the words of the same
text, that one among them, each once and in the order of the text; and on every column of any of them
the highlights are the same. -/
theorem highlights_exact (hview : ∀ m, view (embed m) = some m) (d : Document) (m : Model) (p : Position) :
    let found := fun q => (service embed view settings).highlights settings d q (embed m)
    (found p = [] ↔ m.wordAt? p = none) ∧
    ∀ w, m.wordAt? p = some w →
      let ranges := (found p).map (·.range)
      (∀ r, r ∈ ranges ↔ ∃ v ∈ m.words, v.text = w.text ∧ v.range = r) ∧
      w.range ∈ ranges ∧ ranges.Pairwise Range.Before ∧ ranges.Nodup ∧
      ∀ r ∈ ranges, ∀ column, r.start.character ≤ column → column ≤ r.stop.character →
        found ⟨r.start.line, column⟩ = found p := by
  intro found
  have hfound : ∀ q, found q = m.highlights q := fun q => service_highlights hview settings d q m
  simp only [hfound]
  refine ⟨m.highlights_eq_nil p, ?_⟩
  intro w hw
  refine ⟨fun r => Model.mem_highlights hw, ?_, ?_, ?_, ?_⟩
  · rw [Model.mem_highlights hw]
    exact ⟨w, (Model.wordAt?_eq_some.1 hw).1, rfl, rfl⟩
  · rw [Model.map_range_highlights hw, List.pairwise_map]
    exact m.pairwise_words.sublist List.filter_sublist
  · rw [Model.map_range_highlights hw]
    exact m.nodup_ranges.sublist (List.filter_sublist.map _)
  · intro r hr column hstart hstop
    obtain ⟨v, hv, htext, rfl⟩ := (Model.mem_highlights hw).1 hr
    exact Model.highlights_congr (Model.wordAt?_of_mem hv hstart hstop) hw htext

/-- Two lines with the same word, which starts with a character of two code units. -/
def bold : Document := ⟨"file:///a.txt", kind, 1, "𝐚b x\ny 𝐚b"⟩

/-- The word of the first line is found in the middle of its first character; behind the word of the
second line the same is highlighted, and it is something. -/
theorem highlights_exact_bold :
    ∃ w, Model.wordAt? ⟨bold.lines⟩ ⟨0, 1⟩ = some w ∧
      (service id some).highlights {} bold ⟨0, 1⟩ ⟨bold.lines⟩ ≠ [] ∧
      (service id some).highlights {} bold ⟨1, 5⟩ ⟨bold.lines⟩ =
        (service id some).highlights {} bold ⟨0, 1⟩ ⟨bold.lines⟩ := by
  let m : Model := ⟨bold.lines⟩
  have hletters : "𝐚b".toList.all isWordChar = true := by decide +kernel
  have hspace : isWordChar ' ' = false := by decide
  have hfirst : ⟨"𝐚b".toList, Range.onLine 0 0 3⟩ ∈ m.words :=
    m.mem_words.2 ⟨0, _, [], " x".toList, rfl,
      ⟨rfl, by decide, List.all_eq_true.1 hletters, nofun, by rintro c ⟨⟩; exact hspace⟩, rfl⟩
  have hsecond : ⟨"𝐚b".toList, Range.onLine 1 2 5⟩ ∈ m.words :=
    m.mem_words.2 ⟨1, _, "y ".toList, [], rfl,
      ⟨rfl, by decide, List.all_eq_true.1 hletters, by rintro c ⟨⟩; exact hspace, nofun⟩, rfl⟩
  have hword : m.wordAt? ⟨0, 1⟩ = some ⟨"𝐚b".toList, Range.onLine 0 0 3⟩ :=
    Model.wordAt?_of_mem hfirst (by decide) (by decide)
  obtain ⟨hempty, hclass⟩ := @highlights_exact Model id some {} (fun _ => rfl) bold m ⟨0, 1⟩
  obtain ⟨hmem, -, -, -, hsame⟩ := hclass _ hword
  refine ⟨_, hword, ?_, ?_⟩
  · intro hnone
    rw [hempty.1 hnone] at hword
    cases hword
  · exact hsame _ ((hmem _).2 ⟨_, hsecond, rfl, rfl⟩) 5 (by decide) (by decide)

end Plain

end LangHost
