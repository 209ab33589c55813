import LLMInference.Lib.Json.Literals

/-!
What `json.dumps` writes, `json.loads` reads back.

* `Document`: the values this holds of: the keys of each object are distinct, and floats are
  written as number literals that read back.
* `loads_dumps`: the round trip, by induction on the document. Hence `dumps_injective`: the text
  determines the value.
* `text_insertionSort`: with `sort_keys` a text depends on the members only.
-/

theorem PyDict.update_append {d items : List (String × PyValue)}
    (distinct : ((d ++ items).map Prod.fst).Nodup) : PyDict.update d items = d ++ items := by
  induction items generalizing d with
  | nil => simp [PyDict.update]
  | cons item items ih =>
      have new : item.1 ∉ d.map Prod.fst := by
        rw [List.map_append, List.nodup_append] at distinct
        intro mem
        exact distinct.2.2 _ mem _ (by simp) rfl
      have step : PyDict.update d (item :: items) = PyDict.update (d ++ [item]) items := by
        rw [PyDict.update, List.foldl_cons, PyDict.set, if_neg new]
        rfl
      rw [step, ih (by rwa [List.append_assoc]), List.append_assoc]
      rfl

/-- A dict made of distinct keys has the items in their order. -/
theorem PyDict.update_of_distinct {items : List (String × PyValue)}
    (distinct : (items.map Prod.fst).Nodup) : PyDict.update [] items = items :=
  PyDict.update_append distinct

namespace Json

/-! ### Documents -/

/-- The float is written as a literal that is not an integer's, and reads back. -/
structure Floats.Faithful (f : Floats) (x : ℚ) : Prop where
  literal : ∃ parts, scanParts (f.repr x).toList = some (parts, []) ∧
    ¬ (parts.2.1 = [] ∧ parts.2.2 = [])
  back : f.read (f.repr x) = .finite x

/-- What survives being written and read. With `sort_keys` the keys come back sorted. -/
inductive Document (f : Floats) (o : Options) : PyValue → Prop where
  | none : Document f o .none
  | bool (b : Bool) : Document f o (.bool b)
  | int (n : ℤ) : Document f o (.int n)
  | finite {x : ℚ} : f.Faithful x → Document f o (.float (.finite x))
  | infinite (negative : Bool) : Document f o (.float (.infinite negative))
  | nan : Document f o (.float .nan)
  | str (s : String) : Document f o (.str s)
  | list {items : List PyValue} : (∀ x ∈ items, Document f o x) → Document f o (.list items)
  | dict {items : List (String × PyValue)} : (items.map Prod.fst).Nodup →
      (o.sortKeys = true → items.Pairwise fun a b => a.1 ≤ b.1) →
      (∀ item ∈ items, Document f o item.2) → Document f o (.dict items)

/-- A value is read back from its text, whatever follows. -/
def ReadsBack (f : Floats) (o : Options) (x : PyValue) : Prop :=
  ∀ n rest, (text f o x).length ≤ n → Delimited rest →
    scan f n (text f o x ++ rest) = some (x, rest)

/-- The text of a value begins with neither space, nor a closing bracket, nor a byte order
mark. -/
def Opens (cs : List Char) : Prop :=
  ∃ c tail, cs = c :: tail ∧ isSpace c = false ∧ c ≠ ']' ∧ c ≠ '\ufeff'

section Reading

variable {f : Floats} {o : Options}

theorem Opens.append {cs : List Char} (opens : Opens cs) (rest : List Char) :
    Opens (cs ++ rest) := by
  obtain ⟨c, tail, rfl, solid⟩ := opens
  exact ⟨c, tail ++ rest, rfl, solid⟩

theorem Opens.skipSpace {cs : List Char} (opens : Opens cs) : skipSpace cs = cs := by
  obtain ⟨c, tail, rfl, solid, -⟩ := opens
  simp [Json.skipSpace, solid]

/-- One space before it is skipped. -/
theorem Opens.skipSpace_blank {cs : List Char} (opens : Opens cs) :
    Json.skipSpace (' ' :: cs) = cs := by
  have blank : Json.skipSpace (' ' :: cs) = Json.skipSpace cs := rfl
  rw [blank, opens.skipSpace]

theorem skipSpace_cons {c : Char} {cs : List Char} (solid : isSpace c = false) :
    skipSpace (c :: cs) = c :: cs := by
  simp [skipSpace, solid]

theorem opens_number {c : Char} (number : c = '-' ∨ c.isDigit = true) :
    (isSpace c = false ∧ c ≠ ']' ∧ c ≠ '\ufeff') ∧ c ≠ '"' ∧ c ≠ '[' ∧ c ≠ '\x7b' := by
  have distinct : ∀ e ∈ [' ', '\t', '\n', '\r', ']', '\ufeff', '"', '[', '\x7b'], c ≠ e := by
    rintro e mem rfl
    rcases number with rfl | digit
    · revert mem
      decide
    · have none : [' ', '\t', '\n', '\r', ']', '\ufeff', '"', '[', '\x7b'].all
          (fun e => !e.isDigit) = true := rfl
      have plain := List.all_eq_true.mp none _ mem
      rw [digit] at plain
      cases plain
  simp only [List.mem_cons, List.not_mem_nil, or_false, forall_eq_or_imp, forall_eq] at distinct
  obtain ⟨blank, tab, newline, feed, closing, mark, rest⟩ := distinct
  exact ⟨⟨by simp [isSpace, blank, tab, newline, feed], closing, mark⟩, rest⟩

theorem scan_atom {c : Char} (n : ℕ) (cs : List Char)
    (other : c ≠ '"' ∧ c ≠ '[' ∧ c ≠ '\x7b') : scan f (n + 1) (c :: cs) = scanAtom f (c :: cs) := by
  simp [scan, other.1, other.2.1, other.2.2]

/-! ### Each kind of value -/

/-- A number literal is read as the number it is. -/
theorem scan_number {cs rest : List Char} {parts : List Char × List Char × List Char} {n : ℕ}
    (enough : cs.length ≤ n) (stop : Delimited rest) (alone : scanParts cs = some (parts, [])) :
    scan f n (cs ++ rest) = some (readNumber f parts, rest) := by
  obtain ⟨-, c, tail, rfl, number⟩ := scanParts_eq alone
  cases n with
  | zero => cases enough
  | succ n =>
      have parts' := scanParts_append stop alone
      rw [List.cons_append] at parts' ⊢
      rw [scan_atom _ _ (opens_number number).2, scanAtom, parts']
      rfl

theorem readsBack_int (n : ℤ) : ReadsBack f o (.int n) := by
  intro fuel rest enough stop
  simp only [text] at enough ⊢
  rw [scan_number enough stop (scanParts_intText n), readNumber, if_pos ⟨rfl, rfl⟩,
    readInt_intText]

theorem readsBack_finite {x : ℚ} (faithful : f.Faithful x) :
    ReadsBack f o (.float (.finite x)) := by
  intro fuel rest enough stop
  obtain ⟨parts, alone, fractional⟩ := faithful.literal
  have whole := (scanParts_eq alone).1
  rw [List.append_nil] at whole
  simp only [text, floatText] at enough ⊢
  rw [scan_number enough stop alone, readNumber, if_neg fractional, whole, String.ofList_toList,
    faithful.back]

theorem scanConstant_append {constant : List Char × PyValue} (known : constant ∈ constants)
    (rest : List Char) :
    scanConstant (constant.1 ++ rest) = some (constant.2, rest) ∧
      scanParts (constant.1 ++ rest) = none := by
  simp only [constants, List.mem_cons, List.not_mem_nil, or_false] at known
  rcases known with rfl | rfl | rfl | rfl | rfl | rfl <;>
    exact ⟨by simp [scanConstant, constants, List.dropPrefix?], rfl⟩

theorem readsBack_constant {x : PyValue} (known : (text f o x, x) ∈ constants) :
    ReadsBack f o x := by
  intro n rest enough stop
  obtain ⟨constant, notNumber⟩ := scanConstant_append known rest
  have other : ∃ c cs, text f o x = c :: cs ∧ c ≠ '"' ∧ c ≠ '[' ∧ c ≠ '\x7b' := by
    have all : ∀ constant ∈ constants, ∃ c cs, constant.1 = c :: cs ∧
        c ≠ '"' ∧ c ≠ '[' ∧ c ≠ '\x7b' := by
      simp [constants]
    exact all _ known
  obtain ⟨c, cs, starts, other⟩ := other
  rw [starts] at enough constant notNumber ⊢
  cases n with
  | zero => cases enough
  | succ n =>
      rw [List.cons_append] at notNumber constant ⊢
      rw [scan_atom _ _ other, scanAtom, notNumber]
      exact constant

theorem readsBack_str (s : String) : ReadsBack f o (.str s) := by
  intro n rest enough stop
  have longer := length_le_flatMap_escape o s.toList
  simp only [text, stringText, List.cons_append, List.append_assoc, List.nil_append,
    List.length_cons, List.length_append, List.length_nil] at enough ⊢
  cases n with
  | zero => cases enough
  | succ n =>
      rw [scan, if_pos rfl, scanString_text o s.toList (by omega)]
      simp

/-! ### Containers -/

theorem itemTexts_eq (items : List PyValue) : itemTexts f o items = items.map (text f o) := by
  induction items with
  | nil => rfl
  | cons x rest ih => rw [itemTexts, ih, List.map_cons]

theorem memberTexts_eq (items : List (String × PyValue)) :
    memberTexts f o items = items.map fun item => (item.1, text f o item.2) := by
  induction items with
  | nil => rfl
  | cons item rest ih => rw [memberTexts, ih, List.map_cons]

theorem isNumberChar_closing : isNumberChar ',' = false ∧ isNumberChar ']' = false ∧
    isNumberChar '\x7d' = false := by decide

theorem opens_of_document {x : PyValue} (document : Document f o x) : Opens (text f o x) := by
  cases document with
  | none => exact ⟨_, _, rfl, by decide⟩
  | bool b => cases b <;> exact ⟨_, _, rfl, by decide⟩
  | int n =>
      obtain ⟨-, c, tail, starts, number⟩ := scanParts_eq (scanParts_intText n)
      exact ⟨c, tail, starts, (opens_number number).1⟩
  | finite faithful =>
      obtain ⟨parts, alone, -⟩ := faithful.literal
      obtain ⟨-, c, tail, starts, number⟩ := scanParts_eq alone
      exact ⟨c, tail, starts, (opens_number number).1⟩
  | infinite negative => cases negative <;> exact ⟨_, _, rfl, by decide⟩
  | nan => exact ⟨_, _, rfl, by decide⟩
  | str s => exact ⟨_, _, rfl, by decide⟩
  | list _ => exact ⟨_, _, rfl, by decide⟩
  | dict _ _ _ => exact ⟨_, _, rfl, by decide⟩

theorem Opens.intercalate {cs : List Char} (opens : Opens cs) (sep : List Char)
    (rest : List (List Char)) : Opens (sep.intercalate (cs :: rest)) := by
  cases rest with
  | nil => rwa [List.intercalate_singleton]
  | cons c rest =>
      rw [List.intercalate_cons_cons, List.append_assoc]
      exact opens.append _

/-- The items of a list are read one after the other. -/
theorem scanItems_texts {x : PyValue} {items : List PyValue}
    (opens : ∀ y ∈ x :: items, Opens (text f o y))
    (back : ∀ y ∈ x :: items, ReadsBack f o y) {n : ℕ} (rest : List Char)
    (enough : ([',', ' '].intercalate ((x :: items).map (text f o))).length < n) :
    scanItems f n ([',', ' '].intercalate ((x :: items).map (text f o)) ++ ']' :: rest) =
      some (x :: items, rest) := by
  induction items generalizing x n with
  | nil =>
      simp only [List.map_cons, List.map_nil, List.intercalate_singleton] at enough ⊢
      cases n with
      | zero => cases enough
      | succ n =>
          rw [scanItems, back x List.mem_cons_self n _ (by omega)
            (delimited_cons isNumberChar_closing.2.1)]
          simp only
          rw [skipSpace_cons (by decide)]
          rfl
  | cons y items ih =>
      have next : Opens ([',', ' '].intercalate ((y :: items).map (text f o)) ++ ']' :: rest) :=
        ((opens y (by simp)).intercalate _ _).append _
      simp only [List.map_cons, List.intercalate_cons_cons, List.length_append, List.append_assoc,
        List.cons_append, List.nil_append, List.length_cons] at enough ⊢
      rw [← List.map_cons] at enough ⊢
      cases n with
      | zero => cases enough
      | succ n =>
          rw [scanItems, back x List.mem_cons_self n _ (by omega)
            (delimited_cons isNumberChar_closing.1)]
          simp only
          rw [skipSpace_cons (by decide)]
          simp only
          rw [next.skipSpace_blank, ih (fun z mem => opens z (List.mem_cons_of_mem _ mem))
            (fun z mem => back z (List.mem_cons_of_mem _ mem)) (by omega)]
          rfl

/-- A member of an object, as it is written. -/
def memberOf (f : Floats) (o : Options) (item : String × PyValue) : List Char :=
  memberText o (item.1, text f o item.2)

theorem memberOf_eq (item : String × PyValue) (rest : List Char) :
    memberOf f o item ++ rest =
      '"' :: (item.1.toList.flatMap o.escape ++
        '"' :: ':' :: ' ' :: (text f o item.2 ++ rest)) := by
  simp [memberOf, memberText, stringText]

theorem length_memberOf (item : String × PyValue) :
    item.1.toList.length + (text f o item.2).length + 4 ≤ (memberOf f o item).length := by
  have := length_le_flatMap_escape o item.1.toList
  simp only [memberOf, memberText, stringText, List.length_append, List.length_cons,
    List.length_nil]
  omega

theorem opens_memberOf (item : String × PyValue) : Opens (memberOf f o item) :=
  ⟨_, _, rfl, by decide⟩

/-- Up to what follows its value, a member is read back. -/
theorem scanMembers_member {item : String × PyValue} (opens : Opens (text f o item.2))
    (back : ReadsBack f o item.2) {n : ℕ} {c : Char} {rest : List Char}
    (enough : (memberOf f o item).length ≤ n + 1) (solid : isSpace c = false)
    (other : isNumberChar c = false) :
    scanMembers f (n + 1) (memberOf f o item ++ c :: rest) =
      if c = '\x7d' then some ([item], rest)
      else if c = ',' then
        (scanMembers f n (skipSpace rest)).map fun found => (item :: found.1, found.2)
      else none := by
  have long := length_memberOf (f := f) (o := o) item
  rw [memberOf_eq, scanMembers, scanString_text o _ (by omega)]
  simp only
  rw [skipSpace_cons (by decide)]
  simp only
  rw [(opens.append _).skipSpace_blank, back n _ (by omega) (delimited_cons other)]
  simp only
  rw [skipSpace_cons solid, String.ofList_toList]
  split
  · rename_i same
    cases same
    rfl
  · rename_i same
    cases same
    rfl
  · rename_i notClosing notComma
    rw [if_neg, if_neg]
    · rintro rfl
      exact notComma _ rfl
    · rintro rfl
      exact notClosing _ rfl

/-- The members of an object are read one after the other. -/
theorem scanMembers_texts {item : String × PyValue} {items : List (String × PyValue)}
    (opens : ∀ other ∈ item :: items, Opens (text f o other.2))
    (back : ∀ other ∈ item :: items, ReadsBack f o other.2) {n : ℕ} (rest : List Char)
    (enough : ([',', ' '].intercalate ((item :: items).map (memberOf f o))).length < n) :
    scanMembers f n
        ([',', ' '].intercalate ((item :: items).map (memberOf f o)) ++ '\x7d' :: rest) =
      some (item :: items, rest) := by
  induction items generalizing item n with
  | nil =>
      simp only [List.map_cons, List.map_nil, List.intercalate_singleton] at enough ⊢
      cases n with
      | zero => cases enough
      | succ n =>
          rw [scanMembers_member (opens item List.mem_cons_self) (back item List.mem_cons_self)
            (by omega) (by decide) isNumberChar_closing.2.2, if_pos rfl]
  | cons next items ih =>
      have nextOpens : Opens ([',', ' '].intercalate ((next :: items).map (memberOf f o)) ++
          '\x7d' :: rest) := ((opens_memberOf next).intercalate _ _).append _
      simp only [List.map_cons, List.intercalate_cons_cons, List.length_append, List.append_assoc,
        List.cons_append, List.nil_append, List.length_cons] at enough ⊢
      rw [← List.map_cons] at enough ⊢
      cases n with
      | zero => cases enough
      | succ n =>
          rw [scanMembers_member (opens item List.mem_cons_self) (back item List.mem_cons_self)
            (by omega) (by decide) isNumberChar_closing.1, if_neg (by decide), if_pos rfl,
            nextOpens.skipSpace_blank, ih (fun z mem => opens z (List.mem_cons_of_mem _ mem))
            (fun z mem => back z (List.mem_cons_of_mem _ mem)) (by omega)]
          rfl

theorem readsBack_list {items : List PyValue} (opens : ∀ x ∈ items, Opens (text f o x))
    (back : ∀ x ∈ items, ReadsBack f o x) : ReadsBack f o (.list items) := by
  intro n rest enough stop
  rw [text, itemTexts_eq, enclose] at enough ⊢
  cases n with
  | zero => cases enough
  | succ n =>
      cases items with
      | nil => rfl
      | cons x items =>
          have start :
              Opens ([',', ' '].intercalate ((x :: items).map (text f o)) ++ ']' :: rest) :=
            ((opens x List.mem_cons_self).intercalate _ _).append _
          have notClosing : ([',', ' '].intercalate ((x :: items).map (text f o)) ++
              ']' :: rest).head? ≠ some ']' := by
            obtain ⟨c, tail, eq, -, other, -⟩ := start
            rw [eq]
            simpa using other
          simp only [List.cons_append, List.length_cons, List.length_append, List.length_nil,
            List.append_assoc, List.nil_append] at enough ⊢
          rw [scan, if_neg (by decide), if_pos rfl, start.skipSpace, if_neg notClosing,
            scanItems_texts opens back rest (by omega)]
          rfl

/-- Members whose keys are in order stay where they are. -/
theorem map_order {items : List (String × PyValue)}
    (sorted : o.sortKeys = true → items.Pairwise fun a b => a.1 ≤ b.1) :
    (o.order (memberTexts f o items)).map (memberText o) = items.map (memberOf f o) := by
  have kept : o.order (memberTexts f o items) = memberTexts f o items := by
    unfold Options.order
    split
    · rename_i sorts
      apply List.Pairwise.insertionSort_eq
      rw [memberTexts_eq, List.pairwise_map]
      exact sorted sorts
    · rfl
  rw [kept, memberTexts_eq, List.map_map]
  rfl

/-- With `sort_keys` the order of the items makes no difference. -/
theorem text_insertionSort (sorts : o.sortKeys = true) (items : List (String × PyValue)) :
    text f o (.dict (items.insertionSort fun a b => a.1 ≤ b.1)) = text f o (.dict items) := by
  have sorted : ∀ items : List (String × PyValue),
      memberTexts f o (items.insertionSort fun a b => a.1 ≤ b.1) =
        (memberTexts f o items).insertionSort fun a b => a.1 ≤ b.1 := by
    intro items
    rw [memberTexts_eq, memberTexts_eq]
    exact List.map_insertionSort _ _ _ _ fun _ _ _ _ => Iff.rfl
  have again : ∀ members : List (String × List Char),
      (members.insertionSort fun a b => a.1 ≤ b.1).insertionSort (fun a b => a.1 ≤ b.1) =
        members.insertionSort fun a b => a.1 ≤ b.1 := fun members =>
    (List.pairwise_insertionSort _ members).insertionSort_eq
  rw [text, text, sorted]
  simp only [Options.order, sorts, if_true, again]

theorem readsBack_dict {items : List (String × PyValue)} (distinct : (items.map Prod.fst).Nodup)
    (sorted : o.sortKeys = true → items.Pairwise fun a b => a.1 ≤ b.1)
    (opens : ∀ item ∈ items, Opens (text f o item.2))
    (back : ∀ item ∈ items, ReadsBack f o item.2) : ReadsBack f o (.dict items) := by
  intro n rest enough stop
  rw [text, map_order sorted, enclose] at enough ⊢
  cases n with
  | zero => cases enough
  | succ n =>
      cases items with
      | nil => rfl
      | cons item items =>
          have start : Opens ([',', ' '].intercalate ((item :: items).map (memberOf f o)) ++
              '\x7d' :: rest) := ((opens_memberOf item).intercalate _ _).append _
          have notClosing : ([',', ' '].intercalate ((item :: items).map (memberOf f o)) ++
              '\x7d' :: rest).head? ≠ some '\x7d' := by
            cases items with
            | nil => simp [memberOf_eq]
            | cons next items => simp [List.intercalate_cons_cons, memberOf_eq]
          simp only [List.cons_append, List.length_cons, List.length_append, List.length_nil,
            List.append_assoc, List.nil_append] at enough ⊢
          rw [scan, if_neg (by decide), if_neg (by decide), if_pos rfl, start.skipSpace,
            if_neg notClosing, scanMembers_texts opens back rest (by omega)]
          simp only [Option.map_some, PyDict.update_of_distinct distinct]

/-! ### The round trip -/

/-- A document is read back from its text. -/
theorem readsBack {x : PyValue} (document : Document f o x) : ReadsBack f o x := by
  induction document with
  | none => exact readsBack_constant (by simp [constants, text])
  | bool b => cases b <;> exact readsBack_constant (by simp [constants, text])
  | int n => exact readsBack_int n
  | finite faithful => exact readsBack_finite faithful
  | infinite negative =>
      cases negative <;> exact readsBack_constant (by simp [constants, text, floatText])
  | nan => exact readsBack_constant (by simp [constants, text, floatText])
  | str s => exact readsBack_str s
  | list all back => exact readsBack_list (fun x mem => opens_of_document (all x mem)) back
  | dict distinct sorted all back =>
      exact readsBack_dict distinct sorted (fun item mem => opens_of_document (all item mem)) back

theorem parse_text {x : PyValue} (document : Document f o x) : parse f (text f o x) = some x := by
  have back := readsBack document ((text f o x).length + 1) [] (Nat.le_succ _) (by rintro c ⟨⟩)
  rw [List.append_nil] at back
  rw [parse, (opens_of_document document).skipSpace, back]
  rfl

/-- What `dumps` writes, `loads` reads. -/
theorem loads_dumps {x : PyValue} (document : Document f o x) :
    loads f (dumps f o x) = some x := by
  have noMark : (dumps f o x).toList.head? ≠ some '\ufeff' := by
    obtain ⟨c, tail, starts, -, -, other⟩ := opens_of_document document
    rw [dumps, String.toList_ofList, starts]
    simpa using other
  rw [loads, if_neg noMark, dumps, String.toList_ofList, parse_text document]

theorem dumps_ne_empty {x : PyValue} (document : Document f o x) : dumps f o x ≠ "" := by
  obtain ⟨c, tail, starts, -⟩ := opens_of_document document
  intro empty
  have := congrArg String.toList empty
  rw [dumps, String.toList_ofList, starts] at this
  cases this

/-- The text determines the document. -/
theorem dumps_injective {x y : PyValue} (hx : Document f o x) (hy : Document f o y)
    (same : dumps f o x = dumps f o y) : x = y :=
  Option.some.inj ((loads_dumps hx).symm.trans ((congrArg (loads f) same).trans (loads_dumps hy)))

end Reading

end Json

/-- Such an interpreter reads what it writes. -/
theorem PyHost.withJson_loads {f : Json.Floats} {o : Json.Options} {x : PyValue}
    (document : Json.Document f o x) (h : PyHost) (explain : String → String) :
    (h.withJson f explain).loads (Json.dumps f o x) = .ok x := by
  simp only [PyHost.withJson]
  rw [Json.loads_dumps document]
