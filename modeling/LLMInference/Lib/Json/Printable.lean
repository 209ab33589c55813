import LLMInference.Lib.Json.RoundTrip

/-!
The characters JSON is written in: with `ensure_ascii` a document is printable ASCII, on one
line (`text_printable`).
-/

namespace Json

section Characters

variable {f : Floats} {o : Options}

/-- A character of printable ASCII. -/
def Printable (c : Char) : Prop := ' ' ≤ c ∧ c ≤ '~'

instance (c : Char) : Decidable (Printable c) := inferInstanceAs (Decidable (_ ∧ _))

theorem printable_of_all {cs : List Char} (all : cs.all (fun c => decide (Printable c)) = true) :
    ∀ c ∈ cs, Printable c := by
  simpa using all

theorem printable_digit {c : Char} (digit : c.isDigit = true) : Printable c := by
  simp only [Char.isDigit, Bool.and_eq_true, decide_eq_true_eq] at digit
  exact ⟨le_trans (by decide) digit.1, le_trans digit.2 (by decide)⟩

theorem printable_digitChar {d : ℕ} (small : d < 16) : Printable d.digitChar := by
  have all : ∀ d : Fin 16, Printable (Nat.digitChar d) := by decide
  exact all ⟨d, small⟩

theorem printable_escapeUnit (unit : ℕ) : ∀ c ∈ escapeUnit unit, Printable c := by
  have digit : ∀ n, Printable (n % 16).digitChar := fun n =>
    printable_digitChar (Nat.mod_lt _ (by decide))
  simp only [escapeUnit, unitDigits, List.forall_mem_cons, List.not_mem_nil, false_implies,
    implies_true, and_true, digit]
  decide

theorem printable_escape (ascii : o.ensureAscii = true) (c : Char) :
    ∀ e ∈ o.escape c, Printable e := by
  unfold Options.escape
  cases short : shortEscape c with
  | some letter =>
      have letters : Printable letter := by
        unfold shortEscape at short
        split_ifs at short <;> cases short <;> decide
      simp only [List.forall_mem_cons, List.not_mem_nil, false_implies, implies_true, and_true,
        letters]
      decide
  | none =>
      cases plain : o.plain c with
      | true =>
          simp only [Options.plain, ascii, Bool.not_true, Bool.false_or, Bool.and_eq_true,
            decide_eq_true_eq] at plain
          simpa [Printable] using plain
      | false =>
          simp only [Bool.false_eq_true, if_false, escapeUnits]
          split
          · exact printable_escapeUnit _
          · intro e mem
            rcases List.mem_append.mp mem with first | second
            · exact printable_escapeUnit _ e first
            · exact printable_escapeUnit _ e second

theorem printable_stringText (ascii : o.ensureAscii = true) (s : String) :
    ∀ c ∈ stringText o s, Printable c := by
  intro c mem
  simp only [stringText, List.mem_cons, List.mem_append, List.mem_flatMap, List.not_mem_nil,
    or_false] at mem
  rcases mem with (rfl | ⟨e, -, inside⟩) | rfl
  · decide
  · exact printable_escape ascii e c inside
  · decide

theorem mem_intercalate {α : Type} {a : α} {sep : List α} {parts : List (List α)}
    (mem : a ∈ sep.intercalate parts) : a ∈ sep ∨ ∃ part ∈ parts, a ∈ part := by
  induction parts with
  | nil => simp at mem
  | cons part rest ih =>
      cases rest with
      | nil => exact .inr ⟨part, List.mem_cons_self, by simpa using mem⟩
      | cons next rest =>
          rw [List.intercalate_cons_cons, List.mem_append, List.mem_append] at mem
          rcases mem with (inPart | inSep) | later
          · exact .inr ⟨part, List.mem_cons_self, inPart⟩
          · exact .inl inSep
          · rcases ih later with inSep | ⟨other, mem, inside⟩
            · exact .inl inSep
            · exact .inr ⟨other, List.mem_cons_of_mem _ mem, inside⟩

theorem printable_enclose {opening closing : Char}
    (brackets : Printable opening ∧ Printable closing)
    {parts : List (List Char)} (all : ∀ part ∈ parts, ∀ c ∈ part, Printable c) :
    ∀ c ∈ enclose opening closing parts, Printable c := by
  intro c mem
  simp only [enclose, List.mem_cons, List.mem_append, List.not_mem_nil, or_false] at mem
  rcases mem with (rfl | inside) | rfl
  · exact brackets.1
  · rcases mem_intercalate inside with sep | ⟨part, mem, inside⟩
    · have blank : ∀ e ∈ [',', ' '], Printable e := printable_of_all rfl
      exact blank c sep
    · exact all part mem c inside
  · exact brackets.2

theorem isNumberChar_digit {c : Char} (digit : c.isDigit = true) : isNumberChar c = true := by
  rw [isNumberChar, digit, Bool.true_or]

theorem isNumberChar_takeWhile {cs : List Char} {c : Char}
    (mem : c ∈ cs.takeWhile Char.isDigit) : isNumberChar c = true :=
  isNumberChar_digit (List.mem_takeWhile_imp mem)

theorem isNumberChar_integer {cs : List Char} {found : List Char × List Char}
    (read : scanInteger cs = some found) : ∀ c ∈ found.1, isNumberChar c = true := by
  have unsigned : ∀ {cs found}, scanUnsigned cs = some found →
      ∀ c ∈ found.1, isNumberChar c = true := by
    intro cs found read c mem
    cases cs with
    | nil => cases read
    | cons first cs =>
        simp only [scanUnsigned] at read
        split_ifs at read with zero digit <;> cases read
        · rw [List.mem_singleton.mp mem]
          decide
        · rcases List.mem_cons.mp mem with rfl | rest
          · exact isNumberChar_digit digit
          · exact isNumberChar_takeWhile rest
  unfold scanInteger at read
  split at read
  · obtain ⟨rest, here, rfl⟩ := Option.map_eq_some_iff.mp read
    exact List.forall_mem_cons.mpr ⟨by decide, unsigned here⟩
  · exact unsigned read

theorem isNumberChar_fraction (cs : List Char) :
    ∀ c ∈ (scanFraction cs).1, isNumberChar c = true := by
  unfold scanFraction
  split
  · split
    · simp
    · exact List.forall_mem_cons.mpr ⟨by decide, fun c mem => isNumberChar_takeWhile mem⟩
  · simp

theorem isNumberChar_exponent (cs : List Char) :
    ∀ c ∈ (scanExponent cs).1, isNumberChar c = true := by
  have sign : ∀ cs, ∀ c ∈ (scanSign cs).1, isNumberChar c = true := by
    intro cs c mem
    cases cs with
    | nil => cases mem
    | cons first cs =>
        simp only [scanSign] at mem
        split at mem
        · rename_i known
          rw [List.mem_singleton.mp mem]
          rcases known with rfl | rfl <;> decide
        · cases mem
  cases cs with
  | nil => simp [scanExponent]
  | cons first cs =>
      intro c mem
      simp only [scanExponent] at mem
      split_ifs at mem with letter
      · cases mem
      · simp only [List.mem_append, List.mem_cons] at mem
        rcases mem with (rfl | signed) | digits
        · rcases letter with rfl | rfl <;> decide
        · exact sign cs c signed
        · exact isNumberChar_takeWhile digits
      · cases mem

theorem printable_numberChar {c : Char} (number : isNumberChar c = true) : Printable c := by
  rcases Bool.or_eq_true_iff.mp number with digit | other
  · exact printable_digit digit
  · have all : ∀ e ∈ ['.', 'e', 'E', '+', '-'], Printable e := printable_of_all rfl
    exact all c (List.contains_iff_mem.mp other)

/-- Number literals are printable. -/
theorem printable_scanParts {cs : List Char} {parts : List Char × List Char × List Char}
    (alone : scanParts cs = some (parts, [])) : ∀ c ∈ cs, Printable c := by
  intro c mem
  obtain ⟨whole, -⟩ := scanParts_eq alone
  obtain ⟨integer, here, same⟩ := Option.map_eq_some_iff.mp alone
  rw [List.append_nil] at whole
  rw [← whole, List.mem_append, List.mem_append, ← congrArg Prod.fst same] at mem
  rcases mem with (inInteger | inFraction) | inExponent
  · exact printable_numberChar (isNumberChar_integer here c inInteger)
  · exact printable_numberChar (isNumberChar_fraction _ c inFraction)
  · exact printable_numberChar (isNumberChar_exponent _ c inExponent)

/-- With `ensure_ascii` a document is written in printable ASCII. -/
theorem text_printable (ascii : o.ensureAscii = true) {x : PyValue} (document : Document f o x) :
    ∀ c ∈ text f o x, Printable c := by
  induction document with
  | none => exact printable_of_all rfl
  | bool b => cases b <;> exact printable_of_all rfl
  | int n => exact printable_scanParts (scanParts_intText n)
  | finite faithful =>
      obtain ⟨parts, alone, -⟩ := faithful.literal
      exact printable_scanParts alone
  | infinite negative => cases negative <;> exact printable_of_all rfl
  | nan => exact printable_of_all rfl
  | str s => exact printable_stringText ascii s
  | list all ih =>
      rw [text, itemTexts_eq]
      refine printable_enclose (by decide) fun part mem => ?_
      obtain ⟨x, isItem, rfl⟩ := List.mem_map.mp mem
      exact ih x isItem
  | dict distinct sorted all ih =>
      rw [text, map_order sorted]
      refine printable_enclose (by decide) fun part mem c inside => ?_
      obtain ⟨item, isItem, rfl⟩ := List.mem_map.mp mem
      simp only [memberOf, memberText, List.mem_append] at inside
      rcases inside with (key | colon) | value
      · exact printable_stringText ascii _ c key
      · exact printable_of_all rfl c colon
      · exact ih item isItem c value

end Characters

end Json
