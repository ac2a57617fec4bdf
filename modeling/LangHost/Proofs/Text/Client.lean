import LangHost.Feature
import LangHost.Text.Column
import Mathlib.Data.List.Sort
/-!
# A text at the client

A client holds a text as UTF-16 code units and finds a position in it by row and column. Where a row
ends is a matter of how the text is read: `feedRows` ends rows at line feeds only, `protocolRows` at
every end of a line that the protocol knows, to which a carriage return of its own belongs. Edits are
replacements in the text as it was before all of them.

`applyEdits_deletions`: under either reading, deletions that stay within their rows, at most one in
each, take its own stretch from every row and leave all else as it was.
-/

namespace LangHost.Text

/-! ## Code units -/

/-- The UTF-16 code units of a character: the character itself in the basic plane, else the two
surrogates that stand for it. -/
def encodeChar (c : Char) : List Nat :=
  if c.toNat < 0x10000 then [c.toNat]
  else [0xD800 + (c.toNat - 0x10000) / 0x400, 0xDC00 + (c.toNat - 0x10000) % 0x400]

/-- The UTF-16 code units of a text. -/
def encode (cs : List Char) : List Nat := cs.flatMap encodeChar

@[simp] theorem encode_nil : encode [] = [] := rfl

@[simp] theorem encode_cons (c : Char) (cs : List Char) :
    encode (c :: cs) = encodeChar c ++ encode cs := rfl

@[simp] theorem encode_append (cs ds : List Char) : encode (cs ++ ds) = encode cs ++ encode ds := by
  simp [encode]

@[simp] theorem length_encodeChar (c : Char) : (encodeChar c).length = units c := by
  unfold encodeChar units
  split <;> rfl

@[simp] theorem length_encode (cs : List Char) : (encode cs).length = width cs := by
  induction cs with
  | nil => rfl
  | cons c cs ih => rw [encode_cons, List.length_append, width_cons, length_encodeChar, ih]

/-- No character is a surrogate. -/
theorem toNat_valid (c : Char) : c.toNat < 0xD800 ∨ 0xDFFF < c.toNat ∧ c.toNat < 0x110000 := c.valid

/-- A character of the basic plane is a code unit of a text only where it stands in it. -/
theorem mem_encode {c : Char} (hc : c.toNat < 0x10000) {cs : List Char} :
    c.toNat ∈ encode cs ↔ c ∈ cs := by
  unfold encode
  rw [List.mem_flatMap]
  constructor
  · rintro ⟨d, hd, hmem⟩
    unfold encodeChar at hmem
    split at hmem
    · rw [List.mem_singleton, Char.toNat_inj] at hmem
      rwa [hmem]
    · have hvalid := toNat_valid c
      have hlast := toNat_valid d
      simp only [List.mem_cons, List.not_mem_nil, or_false] at hmem
      omega
  · intro hmem
    refine ⟨c, hmem, ?_⟩
    simp [encodeChar, hc]

theorem encodeChar_append_inj {c d : Char} {us vs : List Nat}
    (h : encodeChar c ++ us = encodeChar d ++ vs) : c = d ∧ us = vs := by
  have hc := toNat_valid c
  have hd := toNat_valid d
  unfold encodeChar at h
  rw [← Char.toNat_inj]
  split at h <;> split at h
  all_goals
    simp only [List.cons_append, List.nil_append, List.cons.injEq] at h
  · exact h
  · omega
  · omega
  · obtain ⟨hhigh, hlow, hrest⟩ := h
    exact ⟨by omega, hrest⟩

/-- The code units of a text tell the text. -/
theorem encode_injective {cs ds : List Char} (h : encode cs = encode ds) : cs = ds := by
  have hne (c : Char) : encodeChar c ≠ [] := by
    unfold encodeChar
    split <;> simp
  induction cs generalizing ds with
  | nil =>
    cases ds with
    | nil => rfl
    | cons d ds => simp [hne] at h
  | cons c cs ih =>
    cases ds with
    | nil => simp [hne] at h
    | cons d ds =>
      obtain ⟨rfl, hrest⟩ := encodeChar_append_inj h
      rw [ih hrest]

/-! ## Rows -/

/-- The code unit of a line feed. -/
def feed : Nat := 10

/-- The code unit of a carriage return. -/
def carriageReturn : Nat := 13

theorem encode_lf (cs : List Char) : encode ('\n' :: cs) = feed :: encode cs := rfl

theorem encode_crlf (cs : List Char) :
    encode ('\r' :: '\n' :: cs) = carriageReturn :: feed :: encode cs := rfl

theorem feed_mem_encode {cs : List Char} : feed ∈ encode cs ↔ '\n' ∈ cs :=
  mem_encode (c := '\n') (by decide)

theorem carriageReturn_mem_encode {cs : List Char} : carriageReturn ∈ encode cs ↔ '\r' ∈ cs :=
  mem_encode (c := '\r') (by decide)

/-- A row of a text and what ends it. -/
structure Row where
  body : List Nat
  ending : List Nat
  deriving DecidableEq, Repr

/-- The code units of a row with its end. -/
def Row.units (r : Row) : List Nat := r.body ++ r.ending

/-- The rows with a code unit put before the first. -/
def pushUnit (u : Nat) : List Row → List Row
  | [] => [⟨[u], []⟩]
  | r :: rs => ⟨u :: r.body, r.ending⟩ :: rs

/-- The rows of a text that end at line feeds only. -/
def feedRows : List Nat → List Row
  | [] => []
  | u :: us => if u = feed then ⟨[], [feed]⟩ :: feedRows us else pushUnit u (feedRows us)

/-- The rows of a text that end at a line feed, at a carriage return, or at both in this order. -/
def protocolRows : List Nat → List Row
  | [] => []
  | [u] => if u = feed ∨ u = carriageReturn then [⟨[], [u]⟩] else [⟨[u], []⟩]
  | u :: v :: us =>
    if u = carriageReturn ∧ v = feed then ⟨[], [carriageReturn, feed]⟩ :: protocolRows us
    else if u = feed ∨ u = carriageReturn then ⟨[], [u]⟩ :: protocolRows (v :: us)
    else pushUnit u (protocolRows (v :: us))

@[simp] theorem flatMap_pushUnit (u : Nat) (rs : List Row) :
    (pushUnit u rs).flatMap Row.units = u :: rs.flatMap Row.units := by
  cases rs with
  | nil => rfl
  | cons r rs => simp [pushUnit, Row.units]

theorem flatMap_feedRows (us : List Nat) : (feedRows us).flatMap Row.units = us := by
  induction us with
  | nil => rfl
  | cons u us ih =>
    unfold feedRows
    split
    · rename_i hu
      simp [Row.units, ih, hu]
    · rw [flatMap_pushUnit, ih]

theorem feedRows_append {us : List Nat} (hus : feed ∉ us) (vs : List Nat) :
    feedRows (us ++ feed :: vs) = ⟨us, [feed]⟩ :: feedRows vs := by
  induction us with
  | nil => simp [feedRows]
  | cons u us ih =>
    obtain ⟨hu, hus⟩ : feed ≠ u ∧ feed ∉ us := by simpa using hus
    rw [List.cons_append, feedRows, if_neg hu.symm, ih hus]
    rfl

theorem feedRows_of_not_mem {us : List Nat} (hus : feed ∉ us) (hne : us ≠ []) :
    feedRows us = [⟨us, []⟩] := by
  induction us with
  | nil => exact absurd rfl hne
  | cons u us ih =>
    obtain ⟨hu, hus⟩ : feed ≠ u ∧ feed ∉ us := by simpa using hus
    rw [feedRows, if_neg hu.symm]
    by_cases hnil : us = []
    · rw [hnil]
      rfl
    · rw [ih hus hnil]
      rfl

theorem flatMap_protocolRows (us : List Nat) : (protocolRows us).flatMap Row.units = us := by
  fun_induction protocolRows us with
  | case1 => rfl
  | case2 u h => simp [Row.units]
  | case3 u h => simp [Row.units]
  | case4 u v us h ih => simp [Row.units, ih, h]
  | case5 u v us h hend ih => simp [Row.units, ih]
  | case6 u v us h hend ih => rw [flatMap_pushUnit, ih]

theorem protocolRows_feed (us : List Nat) :
    protocolRows (feed :: us) = ⟨[], [feed]⟩ :: protocolRows us := by
  cases us <;> simp [protocolRows, feed, carriageReturn]

theorem protocolRows_return_feed (us : List Nat) :
    protocolRows (carriageReturn :: feed :: us) = ⟨[], [carriageReturn, feed]⟩ :: protocolRows us := by
  simp [protocolRows]

theorem protocolRows_cons {u : Nat} (hfeed : u ≠ feed) (hreturn : u ≠ carriageReturn) (us : List Nat) :
    protocolRows (u :: us) = pushUnit u (protocolRows us) := by
  cases us <;> simp [protocolRows, hfeed, hreturn, pushUnit]

/-- Code units that end no row lengthen the first one. -/
theorem protocolRows_append {us vs : List Nat} (hfeed : feed ∉ us) (hreturn : carriageReturn ∉ us)
    {r : Row} {rs : List Row} (h : protocolRows vs = r :: rs) :
    protocolRows (us ++ vs) = ⟨us ++ r.body, r.ending⟩ :: rs := by
  induction us with
  | nil => exact h
  | cons u us ih =>
    obtain ⟨hu, hfeed⟩ : feed ≠ u ∧ feed ∉ us := by simpa using hfeed
    obtain ⟨hu', hreturn⟩ : carriageReturn ≠ u ∧ carriageReturn ∉ us := by simpa using hreturn
    rw [List.cons_append, protocolRows_cons hu.symm hu'.symm, ih hfeed hreturn]
    rfl

/-- A row is at an end where a line feed or a carriage return comes. -/
theorem body_of_row_break {u : Nat} (hu : u = feed ∨ u = carriageReturn) {us : List Nat} {r : Row}
    (h : (protocolRows (u :: us))[0]? = some r) : r.body = [] := by
  cases us with
  | nil =>
    rw [protocolRows, if_pos hu] at h
    cases h
    rfl
  | cons v us =>
    rw [protocolRows, if_pos hu] at h
    split at h
    · cases h
      rfl
    · cases h
      rfl

/-- The first row goes no further than to the first line feed or carriage return. -/
theorem body_of_first_row {us vs : List Nat} (hvs : ∀ v ∈ vs.head?, v = feed ∨ v = carriageReturn)
    {r : Row} (h : (protocolRows (us ++ vs))[0]? = some r) : r.body <+: us := by
  induction us generalizing r with
  | nil =>
    cases vs with
    | nil => cases h
    | cons v vs => simp [body_of_row_break (hvs v rfl) h]
  | cons u us ih =>
    by_cases hu : u = feed ∨ u = carriageReturn
    · simp [body_of_row_break hu h]
    · obtain ⟨hfeed, hreturn⟩ := not_or.1 hu
      rw [List.cons_append, protocolRows_cons hfeed hreturn] at h
      cases hrows : protocolRows (us ++ vs) with
      | nil =>
        rw [hrows] at h
        cases h
        simp
      | cons r' rs =>
        rw [hrows] at h
        cases h
        simpa using ih (by rw [hrows]; rfl)

/-! ## Edits -/

/-- The number of code units before a row and column. A column past the end of its row is the end of
the row, and a row past the last is the end of the text. -/
def offset : List Row → Nat → Nat → Nat
  | [], _, _ => 0
  | r :: _, 0, column => min column r.body.length
  | r :: rs, row + 1, column => r.units.length + offset rs row column

/-- A replacement of the code units from one offset up to another. -/
structure Patch where
  first : Nat
  last : Nat
  units : List Nat
  deriving DecidableEq, Repr

/-- An edit as a replacement by offsets. -/
def patchOf (rows : List Row) (e : TextEdit) : Patch where
  first := offset rows e.range.start.line e.range.start.character
  last := offset rows e.range.stop.line e.range.stop.character
  units := encode e.newText.toList

/-- The text from an offset on after replacements, which come in the order of their places. -/
def splice (start : Nat) (text : List Nat) : List Patch → List Nat
  | [] => text
  | p :: ps =>
    text.take (p.first - start) ++ p.units ++ splice p.last (text.drop (p.last - start)) ps

/-- The text after edits, in whatever order they are given, that all refer to the text before. -/
def applyEdits (read : List Nat → List Row) (edits : List TextEdit) (text : List Nat) : List Nat :=
  splice 0 text ((edits.map (patchOf (read text))).insertionSort fun p q => p.first ≤ q.first)

/-! ## Deletions within rows -/

/-- The deletions of stretches of columns, one stretch or none for each row from row `n` on. -/
def deletions (n : Nat) : List (Option (Nat × Nat)) → List TextEdit
  | [] => []
  | none :: spans => deletions (n + 1) spans
  | some (a, b) :: spans => ⟨Range.onLine n a b, ""⟩ :: deletions (n + 1) spans

/-- A row without a stretch of its columns. -/
def Row.without (r : Row) : Option (Nat × Nat) → List Nat
  | none => r.units
  | some (a, b) => r.body.take a ++ r.body.drop b ++ r.ending

/-- The rows, each without its stretch of columns. -/
def withoutSpans : List Row → List (Option (Nat × Nat)) → List Nat
  | [], _ => []
  | r :: rs, [] => r.units ++ withoutSpans rs []
  | r :: rs, s :: ss => r.without s ++ withoutSpans rs ss

theorem withoutSpans_nil (rows : List Row) : withoutSpans rows [] = rows.flatMap Row.units := by
  induction rows with
  | nil => rfl
  | cons r rs ih => simp [withoutSpans, ih]

/-- Each deletion is that of the stretch of its row. -/
theorem mem_deletions {n : Nat} {spans : List (Option (Nat × Nat))} {e : TextEdit} :
    e ∈ deletions n spans ↔
      ∃ i a b, spans[i]? = some (some (a, b)) ∧ e = ⟨Range.onLine (n + i) a b, ""⟩ := by
  induction spans generalizing n with
  | nil => simp [deletions]
  | cons s spans ih =>
    constructor
    · intro he
      rcases s with _ | ⟨a, b⟩
      · obtain ⟨i, a, b, hi, rfl⟩ := ih.1 he
        exact ⟨i + 1, a, b, hi, by rw [Nat.add_assoc, Nat.add_comm 1 i]⟩
      · rcases List.mem_cons.1 he with rfl | he
        · exact ⟨0, a, b, rfl, rfl⟩
        · obtain ⟨i, a, b, hi, rfl⟩ := ih.1 he
          exact ⟨i + 1, a, b, hi, by rw [Nat.add_assoc, Nat.add_comm 1 i]⟩
    · rintro ⟨i, a, b, hi, rfl⟩
      cases i with
      | zero =>
        obtain rfl : s = some (a, b) := by simpa using hi
        exact List.mem_cons_self
      | succ i =>
        have hmem : ⟨Range.onLine (n + (i + 1)) a b, ""⟩ ∈ deletions (n + 1) spans :=
          ih.2 ⟨i, a, b, hi, by rw [Nat.add_assoc, Nat.add_comm 1 i]⟩
        rcases s with _ | ⟨a', b'⟩
        · exact hmem
        · exact List.mem_cons_of_mem _ hmem

theorem pairwise_deletions (n : Nat) (spans : List (Option (Nat × Nat))) :
    (deletions n spans).Pairwise fun e e' => e.range.start.line < e'.range.start.line := by
  fun_induction deletions n spans with
  | case1 => exact .nil
  | case2 n spans ih => exact ih
  | case3 n a b spans ih =>
    refine .cons ?_ ih
    intro e he
    obtain ⟨i, a', b', -, rfl⟩ := mem_deletions.1 he
    show n < n + 1 + i
    omega

theorem offset_le_of_lt (rows : List Row) {n n' : Nat} (h : n < n') (a a' : Nat) :
    offset rows n a ≤ offset rows n' a' := by
  induction rows generalizing n n' with
  | nil => exact Nat.le_refl _
  | cons r rs ih =>
    cases n' with
    | zero => omega
    | succ n' =>
      cases n with
      | zero =>
        simp only [offset, Row.units, List.length_append]
        omega
      | succ n =>
        have := ih (Nat.lt_of_succ_lt_succ h)
        simp only [offset]
        omega

/-- Edits that come row by row are in the order of their places already. -/
theorem insertionSort_patches (rows : List Row) {edits : List TextEdit}
    (h : edits.Pairwise fun e e' => e.range.start.line < e'.range.start.line) :
    (edits.map (patchOf rows)).insertionSort (fun p q => p.first ≤ q.first) =
      edits.map (patchOf rows) := by
  apply List.Pairwise.insertionSort_eq
  rw [List.pairwise_map]
  apply h.imp
  intro e e' hlt
  exact offset_le_of_lt rows hlt _ _

/-- What stands before the first replacement stays as it is. -/
theorem splice_append (start : Nat) (before text : List Nat) (ps : List Patch)
    (h : ∀ p ∈ ps.head?, start + before.length ≤ p.first ∧ start + before.length ≤ p.last) :
    splice start (before ++ text) ps = before ++ splice (start + before.length) text ps := by
  cases ps with
  | nil => rfl
  | cons p ps =>
    obtain ⟨hfirst, hlast⟩ := h p rfl
    have hf : p.first - start = before.length + (p.first - (start + before.length)) := by omega
    have hl : p.last - start = before.length + (p.last - (start + before.length)) := by omega
    simp only [splice, hf, hl, List.take_length_add_append, List.drop_length_add_append,
      List.append_assoc]

/-- Where no text is left, deletions leave none. -/
theorem splice_nil (start : Nat) (ps : List Patch) (h : ∀ p ∈ ps, p.units = []) :
    splice start [] ps = [] := by
  induction ps generalizing start with
  | nil => rfl
  | cons p ps ih =>
    simp [splice, h p List.mem_cons_self, ih _ fun q hq => h q (.tail _ hq)]

/-- An edit as a replacement by offsets, in rows of which the first has the number `n` and starts at
the offset `start`. -/
def patchFrom (start n : Nat) (rows : List Row) (e : TextEdit) : Patch where
  first := start + offset rows (e.range.start.line - n) e.range.start.character
  last := start + offset rows (e.range.stop.line - n) e.range.stop.character
  units := encode e.newText.toList

theorem patchFrom_zero (rows : List Row) : patchFrom 0 0 rows = patchOf rows := by
  funext e
  simp [patchFrom, patchOf]

/-- A replacement in a later row lies behind the first row. -/
theorem patchFrom_cons {start n : Nat} {spans : List (Option (Nat × Nat))} {e : TextEdit}
    (he : e ∈ deletions (n + 1) spans) (r : Row) (rs : List Row) :
    patchFrom start n (r :: rs) e = patchFrom (start + r.units.length) (n + 1) rs e := by
  obtain ⟨i, a, b, -, rfl⟩ := mem_deletions.1 he
  have hnext : n + 1 + i - n = i + 1 := by omega
  have hrest : n + 1 + i - (n + 1) = i := by omega
  simp only [patchFrom, Range.onLine, hnext, hrest, offset]
  simp only [Nat.add_assoc]

/-- Replacing by offsets what the deletions mark takes its own stretch from every row. -/
theorem splice_deletions (start n : Nat) (rows : List Row) (spans : List (Option (Nat × Nat))) :
    splice start (rows.flatMap Row.units) ((deletions n spans).map (patchFrom start n rows)) =
      withoutSpans rows spans := by
  induction rows generalizing start n spans with
  | nil =>
    apply splice_nil
    intro p hp
    obtain ⟨e, he, rfl⟩ := List.mem_map.1 hp
    obtain ⟨i, a, b, -, rfl⟩ := mem_deletions.1 he
    rfl
  | cons r rs ih =>
    -- from wherever in the first row the text goes on, the other rows are left to later replacements
    have hlater (ss : List (Option (Nat × Nat))) (start' : Nat) (before : List Nat)
        (hstart : start' + before.length = start + r.units.length) :
        splice start' (before ++ rs.flatMap Row.units)
            ((deletions (n + 1) ss).map (patchFrom start n (r :: rs))) =
          before ++ withoutSpans rs ss := by
      rw [List.map_congr_left fun e he => patchFrom_cons he r rs, splice_append, hstart, ih]
      intro p hp
      obtain ⟨e, -, rfl⟩ := List.mem_map.1 (List.mem_of_mem_head? hp)
      rw [hstart]
      exact ⟨Nat.le_add_right _ _, Nat.le_add_right _ _⟩
    rcases spans with _ | ⟨_ | ⟨a, b⟩, ss⟩
    · simp [deletions, splice, withoutSpans, withoutSpans_nil]
    · exact hlater ss start r.units rfl
    · have hfirst : start + min a r.body.length - start = min a r.body.length := by omega
      have hlast : start + min b r.body.length - start = min b r.body.length := by omega
      have htake : (r.units ++ rs.flatMap Row.units).take (min a r.body.length) = r.body.take a := by
        rw [Row.units, List.append_assoc, List.take_append_of_le_length (Nat.min_le_right _ _),
          ← List.take_eq_take_min]
      have hdrop : (r.units ++ rs.flatMap Row.units).drop (min b r.body.length) =
          r.body.drop b ++ r.ending ++ rs.flatMap Row.units := by
        rw [Row.units, List.append_assoc, List.drop_append_of_le_length (Nat.min_le_right _ _),
          List.append_assoc, ← List.drop_eq_drop_min]
      have hrest := hlater ss (start + min b r.body.length) (r.body.drop b ++ r.ending)
        (by simp only [Row.units, List.length_append, List.length_drop]; omega)
      simp only [deletions, List.map_cons, List.flatMap_cons, splice]
      simp only [patchFrom, Range.onLine, Nat.sub_self, offset, hfirst, hlast, htake, hdrop]
      rw [hrest]
      simp [withoutSpans, Row.without]

/-- Deletions that stay within their rows, at most one in each, take its own stretch from every row. -/
theorem applyEdits_deletions {read : List Nat → List Row} {text : List Nat}
    (hread : (read text).flatMap Row.units = text) (spans : List (Option (Nat × Nat))) :
    applyEdits read (deletions 0 spans) text = withoutSpans (read text) spans := by
  have hsplice := splice_deletions 0 0 (read text) spans
  rw [hread, patchFrom_zero] at hsplice
  rw [applyEdits, insertionSort_patches _ (pairwise_deletions 0 spans), hsplice]

end LangHost.Text
