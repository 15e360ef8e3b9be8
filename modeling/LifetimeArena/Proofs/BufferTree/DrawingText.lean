import LifetimeArena.BufferTree.Drawing

/-!
# Reading drawings back

The text of a drawing is cut into lines at its line breaks, which no line contains. A line is known
by the numbers in it, the runs of digits between other characters: there are two in an edge, three
in a record without an offset, four in one with an offset, one in the label with the arena size. The
three lines without numbers begin differently.

- `Drawing.numbers`: the numbers in a text.
- `Drawing.Line.ofText`, `Drawing.read`: the line of a text, the lines of a text.
- `Drawing.numbers_text_append`: the numbers in a line are its fields.
- `Drawing.read_render`: a drawing reads back as the lines that it was made of.
-/

namespace LifetimeArena

namespace Drawing

/-! ## Numbers in a text -/

/-- The numbers in a text: its runs of digits. -/
def numbers (text : List Char) : List Nat :=
  ((text.splitOnP (!·.isDigit)).filter (!·.isEmpty)).map (Nat.ofDigitChars 10 · 0)

/-- A number ends where another character stands. -/
theorem numbers_append_cons {c : Char} (hc : c.isDigit = false) (front rest : List Char) :
    numbers (front ++ c :: rest) = numbers front ++ numbers rest := by
  unfold numbers
  rw [List.splitOnP_append_cons front rest (by rw [hc]; rfl), List.filter_append, List.map_append]

/-- A run of digits is one number. -/
theorem numbers_toString (n : Nat) : numbers (toString n).toList = [n] := by
  have hdigits : ∀ c ∈ Nat.toDigits 10 n, (!c.isDigit) = false := fun c hc => by
    rw [Nat.isDigit_of_mem_toDigits (by decide) (by decide) hc]
    rfl
  rw [Nat.toString_eq_repr, Nat.toList_repr, numbers, List.splitOnP_eq_singleton hdigits]
  simp [Nat.toDigits_ne_nil]

/-- Words between numbers count for nothing. -/
theorem numbers_append {word : List Char} (hword : word.all (!·.isDigit) = true)
    (rest : List Char) : numbers (word ++ rest) = numbers rest := by
  induction word with
  | nil => rfl
  | cons c word ih =>
    rw [List.all_cons, Bool.and_eq_true, Bool.not_eq_true'] at hword
    rw [List.cons_append, ← List.nil_append (c :: (word ++ rest)), numbers_append_cons hword.1,
      ih hword.2]
    rfl

/-- A number with a word behind it is read to its end. -/
theorem numbers_toString_append (n : Nat) {word : List Char} (hne : word.isEmpty = false)
    (hword : word.all (!·.isDigit) = true) (rest : List Char) :
    numbers ((toString n).toList ++ (word ++ rest)) = n :: numbers rest := by
  obtain ⟨c, word, rfl⟩ := List.exists_cons_of_ne_nil (List.isEmpty_eq_false_iff.1 hne)
  rw [List.all_cons, Bool.and_eq_true, Bool.not_eq_true'] at hword
  rw [List.cons_append, numbers_append_cons hword.1, numbers_append hword.2, numbers_toString,
    List.singleton_append]

/-! ## Lines -/

/-- The numbers that a line shows. -/
def Line.fields : Line → List Nat
  | .opening | .recordShape | .closing => []
  | .arenaLabel bytes => [bytes]
  | .record index stage weight offset => index :: stage.val.toNat :: weight :: offset.toList
  | .edge parent child => [parent, child]

/-- The numbers in a line are its fields, whatever follows. -/
theorem numbers_text_append (l : Line) (rest : List Char) :
    numbers (l.text.toList ++ rest) = l.fields ++ numbers rest := by
  cases l with
  | opening => exact numbers_append (by rfl) rest
  | recordShape => exact numbers_append (by rfl) rest
  | closing => exact numbers_append (by rfl) rest
  | arenaLabel bytes =>
    unfold Line.text
    simp only [String.toList_append, List.append_assoc]
    rw [numbers_append (by rfl), numbers_toString_append _ (by rfl) (by rfl)]
    rfl
  | record index stage weight offset =>
    have hstage : (toString stage).toList = (toString stage.val.toNat).toList := rfl
    unfold Line.text
    simp only [String.toList_append, List.append_assoc]
    rw [numbers_append (by rfl), numbers_toString_append _ (by rfl) (by rfl), hstage,
      numbers_toString_append _ (by rfl) (by rfl),
      numbers_toString_append _ (by rfl) (by rfl)]
    cases offset with
    | none =>
      rw [numbers_append (by rfl), numbers_append (by rfl)]
      rfl
    | some offset =>
      have hoffset : (toString (offsetText (some offset))).toList = (toString offset).toList := rfl
      rw [hoffset, numbers_toString_append _ (by rfl) (by rfl)]
      rfl
  | edge parent child =>
    unfold Line.text
    simp only [String.toList_append, List.append_assoc]
    rw [numbers_append (by rfl), numbers_toString_append _ (by rfl) (by rfl),
      numbers_toString_append _ (by rfl) (by rfl)]
    rfl

/-- The line with a given text. What is no text of a line is taken for one as well. -/
def Line.ofText (text : List Char) : Line :=
  match numbers text with
  | [bytes] => .arenaLabel bytes
  | [parent, child] => .edge parent child
  | [index, stage, weight] => .record index (.ofNat stage) weight none
  | [index, stage, weight, offset] => .record index (.ofNat stage) weight (some offset)
  | _ =>
    match text with
    | 'd' :: _ => .opening
    | ' ' :: _ => .recordShape
    | _ => .closing

theorem Line.ofText_text (l : Line) : Line.ofText l.text.toList = l := by
  have hnumbers : numbers l.text.toList = l.fields := by
    rw [← List.append_nil l.text.toList, numbers_text_append]
    exact List.append_nil _
  unfold Line.ofText
  rw [hnumbers]
  cases l with
  | opening => rfl
  | recordShape => rfl
  | closing => rfl
  | arenaLabel bytes => rfl
  | record index stage weight offset =>
    have hstage : StageId.ofNat stage.val.toNat = stage := by
      rw [StageId.ofNat, UInt32.ofNat_toNat]
    cases offset <;> exact congrArg (Line.record index · weight _) hstage
  | edge parent child => rfl

/-! ## Lines of a text -/

theorem newline_notMem_toString (n : Nat) : '\n' ∉ (toString n).toList := by
  intro h
  rw [Nat.toString_eq_repr, Nat.toList_repr] at h
  exact absurd (Nat.isDigit_of_mem_toDigits (by decide) (by decide) h) (by decide)

theorem newline_notMem_text (l : Line) : '\n' ∉ l.text.toList := by
  cases l with
  | opening => decide
  | recordShape => decide
  | closing => decide
  | arenaLabel bytes =>
    unfold Line.text
    simp only [String.toList_append, List.mem_append, not_or, and_assoc]
    exact ⟨by decide, newline_notMem_toString bytes, by decide⟩
  | record index stage weight offset =>
    have hoffset : '\n' ∉ (toString (offsetText offset)).toList := by
      cases offset with
      | none => decide
      | some offset => exact newline_notMem_toString offset
    unfold Line.text
    simp only [String.toList_append, List.mem_append, not_or, and_assoc]
    exact ⟨by decide, newline_notMem_toString index, by decide,
      newline_notMem_toString stage.val.toNat, by decide, newline_notMem_toString weight,
      by decide, hoffset, by decide⟩
  | edge parent child =>
    unfold Line.text
    simp only [String.toList_append, List.mem_append, not_or, and_assoc]
    exact ⟨by decide, newline_notMem_toString parent, by decide, newline_notMem_toString child,
      by decide⟩

theorem toList_render_cons (l : Line) (lines : List Line) :
    (render (l :: lines)).toList = l.text.toList ++ '\n' :: (render lines).toList := by
  simp [render, String.toList_join]

/-- The text falls into the texts of its lines at its line breaks. -/
theorem splitOn_render (lines : List Line) :
    (render lines).toList.splitOn '\n' = lines.map (·.text.toList) ++ [[]] := by
  induction lines with
  | nil => rfl
  | cons l lines ih =>
    rw [toList_render_cons, List.splitOn_append_cons_self_of_not_mem (newline_notMem_text l), ih]
    rfl

/-- The lines of a text, of which the last one ends with a line break as well. -/
def read (text : String) : List Line :=
  (text.toList.splitOn '\n').dropLast.map Line.ofText

theorem read_render (lines : List Line) : read (render lines) = lines := by
  rw [read, splitOn_render, List.dropLast_concat, List.map_map]
  exact (List.map_congr_left fun l _ => l.ofText_text).trans (List.map_id lines)

end Drawing

end LifetimeArena
