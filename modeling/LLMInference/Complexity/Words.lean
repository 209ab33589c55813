import Mathlib.Data.List.Infix
import LLMInference.Complexity

/-!
Which occurrences of a keyword count (`app/complexity.py`, `_keyword_hits`).

An occurrence is whole when no word runs over either of its ends.

* `searchWord_iff`: the regular expression finds the occurrences that begin and end at a word
  boundary.
* `hits_whole_iff`: a keyword is reported exactly for a whole occurrence, unless it is a phrase
  that the text only has inside of longer words.
-/

namespace LLMInference

section Search

variable {ts : TextSupport} {kw text : List Char}

/-- `kw in text` asks for an occurrence. -/
theorem hasSubstring_iff : hasSubstring kw text = true ↔ kw <:+: text := by
  rw [hasSubstring, List.any_eq_true, List.infix_iff_prefix_suffix]
  constructor
  · rintro ⟨rest, mem, here⟩
    exact ⟨rest, List.isPrefixOf_iff_prefix.mp here, (List.mem_tails _ _).mp mem⟩
  · rintro ⟨rest, here, suffix'⟩
    exact ⟨rest, (List.mem_tails _ _).mpr suffix', List.isPrefixOf_iff_prefix.mpr here⟩

theorem matchesHere_iff {before : Option Char} :
    matchesHere ts kw before text = true ↔ ∃ after, text = kw ++ after ∧
      atBoundary ts before text.head? = true ∧
      atBoundary ts (kw.getLast?.or before) after.head? = true := by
  rw [matchesHere, Bool.and_eq_true, Bool.and_eq_true, List.isPrefixOf_iff_prefix, and_assoc]
  constructor
  · rintro ⟨⟨after, rfl⟩, first, last⟩
    rw [List.drop_left] at last
    exact ⟨after, rfl, first, last⟩
  · rintro ⟨after, rfl, first, last⟩
    rw [List.drop_left]
    exact ⟨List.prefix_append kw after, first, last⟩

/-- The character passed last. -/
theorem last_passed (c : Char) (front : List Char) (before : Option Char) :
    (c :: front).getLast?.or before = front.getLast?.or (some c) := by
  rw [List.getLast?_cons]
  cases front.getLast? <;> rfl

/-- The pattern matches somewhere. -/
theorem searchWord_iff {before : Option Char} :
    searchWord ts kw before text = true ↔ ∃ front after, text = front ++ (kw ++ after) ∧
      atBoundary ts (front.getLast?.or before) (kw ++ after).head? = true ∧
      atBoundary ts (kw.getLast?.or (front.getLast?.or before)) after.head? = true := by
  induction text generalizing before with
  | nil =>
      rw [searchWord, matchesHere_iff]
      constructor
      · rintro ⟨after, whole, first, last⟩
        rw [whole] at first
        exact ⟨[], after, whole, first, last⟩
      · rintro ⟨front, after, whole, first, last⟩
        obtain ⟨rfl, empty⟩ := List.append_eq_nil_iff.mp whole.symm
        rw [empty] at first
        exact ⟨after, empty.symm, first, last⟩
  | cons c rest ih =>
      rw [searchWord, Bool.or_eq_true, matchesHere_iff, ih]
      constructor
      · rintro (⟨after, whole, first, last⟩ | ⟨front, after, whole, first, last⟩)
        · rw [whole] at first
          exact ⟨[], after, whole, first, last⟩
        · refine ⟨c :: front, after, by rw [whole, List.cons_append], ?_, ?_⟩
          · rwa [last_passed]
          · rwa [last_passed]
      · rintro ⟨front, after, whole, first, last⟩
        cases front with
        | nil =>
            rw [List.nil_append] at whole
            rw [← whole] at first
            exact .inl ⟨after, whole, first, last⟩
        | cons c' front =>
            obtain ⟨rfl, rest'⟩ := List.cons_eq_cons.mp whole
            rw [last_passed] at first last
            exact .inr ⟨front, after, rest', first, last⟩

end Search

/-! ### Whole occurrences -/

/-- The word characters that `re` documents for ASCII. -/
def TextSupport.AsciiWords (ts : TextSupport) : Prop :=
  ∀ c : Char, c.toNat < 128 → ts.isWord c = (c.isAlphanum || c == '_')

/-- No word runs from one character to the next, `none` being an end of the text. -/
def Apart (ts : TextSupport) (before after : Option Char) : Prop :=
  ¬(before.any ts.isWord = true ∧ after.any ts.isWord = true)

/-- The keyword occurs behind `front`, and no word runs over either of its ends. -/
def WholeAt (ts : TextSupport) (kw front after : List Char) : Prop :=
  Apart ts front.getLast? kw.head? ∧ Apart ts kw.getLast? after.head?

/-- The text has a whole occurrence of the keyword. -/
def HasWhole (ts : TextSupport) (kw text : List Char) : Prop :=
  ∃ front after, text = front ++ (kw ++ after) ∧ WholeAt ts kw front after

instance (ts : TextSupport) (before after : Option Char) : Decidable (Apart ts before after) :=
  inferInstanceAs (Decidable (¬_))

instance (ts : TextSupport) (kw front after : List Char) : Decidable (WholeAt ts kw front after) :=
  inferInstanceAs (Decidable (_ ∧ _))

/-- An occurrence is one at some position. -/
theorem exists_position_iff {ts : TextSupport} {kw text : List Char} :
    (∃ i ∈ List.range (text.length + 1), kw <+: text.drop i ∧
      WholeAt ts kw (text.take i) (text.drop (i + kw.length))) ↔ HasWhole ts kw text := by
  constructor
  · rintro ⟨i, -, ⟨after, here⟩, whole⟩
    have tail : text.drop (i + kw.length) = after := by
      rw [← List.drop_drop, ← here, List.drop_left]
    rw [tail] at whole
    exact ⟨text.take i, after, by rw [here, List.take_append_drop], whole⟩
  · rintro ⟨front, after, rfl, whole⟩
    refine ⟨front.length, List.mem_range.mpr ?_, ?_, ?_⟩
    · simp only [List.length_append]
      omega
    · rw [List.drop_left]
      exact List.prefix_append kw after
    · rwa [List.take_left, ← List.drop_drop, List.drop_left, List.drop_left]

instance (ts : TextSupport) (kw text : List Char) : Decidable (HasWhole ts kw text) :=
  decidable_of_iff _ exists_position_iff

/-- The text has the phrase, but only inside of longer words. -/
def OnlyInside (ts : TextSupport) (phrase text : List Char) : Prop :=
  ' ' ∈ phrase ∧ phrase <:+: text ∧
    ∀ front after, text = front ++ (phrase ++ after) → ¬WholeAt ts phrase front after

/-- The character is an ASCII letter or digit. -/
def asciiAlphanum (c : Char) : Bool := decide (c.toNat < 128) && c.isAlphanum

section Whole

variable {ts : TextSupport} {kw text : List Char}

/-- At the edge of a word, a word boundary is where the word does not go on. -/
theorem atBoundary_iff_left {before : Option Char} {c : Char} (word : ts.isWord c = true) :
    atBoundary ts before (some c) = true ↔ Apart ts before (some c) := by
  simp [atBoundary, Apart, word]

theorem atBoundary_iff_right {after : Option Char} {c : Char} (word : ts.isWord c = true) :
    atBoundary ts (some c) after = true ↔ Apart ts (some c) after := by
  cases after <;> simp [atBoundary, Apart, word]

/-- For a keyword that begins and ends with word characters, the regular expression finds the
whole occurrences. -/
theorem searchWord_whole_iff {c d : Char} (head : kw.head? = some c) (last : kw.getLast? = some d)
    (word : ts.isWord c = true) (word' : ts.isWord d = true) :
    searchWord ts kw none text = true ↔ HasWhole ts kw text := by
  have first : ∀ after, (kw ++ after).head? = some c := fun after => by
    rw [List.head?_append, head, Option.some_or]
  simp only [searchWord_iff, HasWhole, WholeAt, first, head, last, Option.some_or, Option.or_none,
    atBoundary_iff_left word, atBoundary_iff_right word']

theorem HasWhole.infix (whole : HasWhole ts kw text) : kw <:+: text := by
  obtain ⟨front, after, split, -⟩ := whole
  exact ⟨front, after, by rw [split, List.append_assoc]⟩

/-- A text has a phrase whole, or only inside of longer words, or not at all. -/
theorem not_onlyInside_iff (phrase : ' ' ∈ kw) :
    ¬OnlyInside ts kw text ↔ (kw <:+: text → HasWhole ts kw text) := by
  simp only [OnlyInside, HasWhole, phrase, true_and]
  push Not
  rfl

end Whole

/-- A keyword without a blank begins and ends with a letter. -/
theorem ends_of_keyword {kw : String} (mem : kw ∈ reasoningKeywords ++ simpleKeywords)
    (single : ' ' ∉ kw.toList) : ∃ c d, kw.toList.head? = some c ∧ kw.toList.getLast? = some d ∧
      asciiAlphanum c = true ∧ asciiAlphanum d = true := by
  have ends : ∀ kw ∈ reasoningKeywords ++ simpleKeywords, ' ' ∉ kw.toList →
      kw.toList.head?.any asciiAlphanum = true ∧ kw.toList.getLast?.any asciiAlphanum = true := by
    decide +kernel
  obtain ⟨first, last⟩ := ends kw mem single
  rw [Option.any_eq_true] at first last
  obtain ⟨c, head, letter⟩ := first
  obtain ⟨d, last, letter'⟩ := last
  exact ⟨c, d, head, last, letter, letter'⟩

theorem TextSupport.AsciiWords.word {ts : TextSupport} (table : ts.AsciiWords) {c : Char}
    (letter : asciiAlphanum c = true) : ts.isWord c = true := by
  rw [asciiAlphanum, Bool.and_eq_true, decide_eq_true_eq] at letter
  rw [table c letter.1, letter.2, Bool.true_or]

/-- A keyword is reported exactly when the text has a whole occurrence of it, if and only if it
is no phrase that the text has only inside of longer words. -/
theorem hits_whole_iff {ts : TextSupport} (table : ts.AsciiWords) (text : String)
    {keywords : List String} (known : keywords = reasoningKeywords ∨ keywords = simpleKeywords)
    {kw : String} (mem : kw ∈ keywords) :
    (kw ∈ keywordHits ts text keywords ↔ HasWhole ts kw.toList text.toList) ↔
      ¬OnlyInside ts kw.toList text.toList := by
  rw [keywordHits, List.mem_filter, and_iff_right mem]
  by_cases phrase : ' ' ∈ kw.toList
  · rw [if_pos phrase, hasSubstring_iff, not_onlyInside_iff phrase]
    exact ⟨fun both => both.mp, fun whole => ⟨whole, HasWhole.infix⟩⟩
  · have listed : kw ∈ reasoningKeywords ++ simpleKeywords := by
      rcases known with rfl | rfl
      · exact List.mem_append_left _ mem
      · exact List.mem_append_right _ mem
    obtain ⟨c, d, head, last, letter, letter'⟩ := ends_of_keyword listed phrase
    rw [if_neg phrase, searchWord_whole_iff head last (table.word letter) (table.word letter')]
    exact iff_of_true Iff.rfl fun inside => phrase inside.1

theorem asciiWords_ascii : TextSupport.ascii.AsciiWords := fun _ _ => rfl

/-- The single word is not reported inside of a longer one. -/
theorem hits_whole_iff_designated :
    "design" ∈ keywordHits .ascii "the designated survivor" reasoningKeywords ↔
      HasWhole .ascii "design".toList "the designated survivor".toList := by
  refine (hits_whole_iff asciiWords_ascii "the designated survivor" (.inl rfl) (by decide)).mpr ?_
  rintro ⟨blank, -⟩
  exact absurd blank (by decide)

/-- A greeting is reported in a city. -/
theorem delhi_is_no_greeting :
    "hi " ∈ keywordHits .ascii "delhi is large" simpleKeywords ∧
      ¬HasWhole .ascii "hi ".toList "delhi is large".toList := by
  decide +kernel

end LLMInference
