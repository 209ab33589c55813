import Mathlib.Data.Rat.Defs

/-!
What a JSON document decodes to in a dynamically typed program, and what Python's operations
do with it: what counts as true, what has a length, what can be subscripted or asked for a
key, what converts to an integer. Every other use raises.

* `get_eq_ok_iff`, `first_eq_dict_iff`, `len_ok_iff`, `toInt_ok_iff`: which values an operation
  is for.
-/

/-- A raised exception: `type(e).__name__` and `str(e)`. -/
structure PyError where
  typeName : String
  detail : String
  deriving DecidableEq, Repr

inductive PyFloat where
  | finite (x : ℚ)
  | infinite (negative : Bool)
  | nan
  deriving DecidableEq, Repr

inductive PyValue where
  | none
  | bool (b : Bool)
  | int (n : ℤ)
  | float (x : PyFloat)
  | str (s : String)
  | list (items : List PyValue)
  /-- The items in order, the keys distinct. -/
  | dict (items : List (String × PyValue))

/-- What the interpreter decides: how documents are decoded, and how text is read and shown. -/
structure PyHost where
  /-- `json.loads`. -/
  loads : String → Except PyError PyValue
  /-- `int` of a string, where it does not raise. -/
  intOf : String → Option ℤ
  /-- `repr` of a string. -/
  repr : String → String

/-- A computation that goes on returns what its second part does, once the first has
returned. -/
theorem bind_eq_ok_iff {α β : Type} {ε : Type*} {x : Except ε α} {f : α → Except ε β} {b : β} :
    (x >>= f) = .ok b ↔ ∃ a, x = .ok a ∧ f a = .ok b := by
  cases x <;> simp [bind, Except.bind]

theorem exists_bind_ok_iff {α β : Type} {ε : Type*} {x : Except ε α} {f : α → Except ε β} :
    (∃ b, (x >>= f) = .ok b) ↔ ∃ a, x = .ok a ∧ ∃ b, f a = .ok b := by
  simp only [bind_eq_ok_iff]
  exact ⟨fun ⟨b, a, here, there⟩ => ⟨a, here, b, there⟩,
    fun ⟨a, here, b, there⟩ => ⟨b, a, here, there⟩⟩

abbrev PyDict := List (String × PyValue)

/-- `d.get(key, default)`. -/
def PyDict.get (d : PyDict) (key : String) (default : PyValue) : PyValue :=
  (d.lookup key).getD default

namespace PyValue

/-- `type(x).__name__`. -/
def typeName : PyValue → String
  | none => "NoneType"
  | bool _ => "bool"
  | int _ => "int"
  | float _ => "float"
  | str _ => "str"
  | list _ => "list"
  | dict _ => "dict"

/-- `bool(x)`. -/
def truthy : PyValue → Bool
  | none => false
  | bool b => b
  | int n => decide (n ≠ 0)
  | float (.finite x) => decide (x ≠ 0)
  | float _ => true
  | str s => decide (s ≠ "")
  | list items => !items.isEmpty
  | dict items => !items.isEmpty

/-- `x is None`. -/
def isNone : PyValue → Bool
  | none => true
  | _ => false

theorem isNone_iff {x : PyValue} : x.isNone = true ↔ x = none := by
  cases x <;> simp [isNone]

/-- `x or y`. -/
def orElse (x y : PyValue) : PyValue := if x.truthy then x else y

/-- `x.get(key, default)`. -/
def get (x : PyValue) (key : String) (default : PyValue) : Except PyError PyValue :=
  match x with
  | dict items => .ok (PyDict.get items key default)
  | x => .error ⟨"AttributeError", "'" ++ x.typeName ++ "' object has no attribute 'get'"⟩

/-- `x[0]`. -/
def first : PyValue → Except PyError PyValue
  | list (x :: _) => .ok x
  | list [] => .error ⟨"IndexError", "list index out of range"⟩
  | str s =>
      match s.toList with
      | c :: _ => .ok (str (String.singleton c))
      | [] => .error ⟨"IndexError", "string index out of range"⟩
  | dict _ => .error ⟨"KeyError", "0"⟩
  | x => .error ⟨"TypeError", "'" ++ x.typeName ++ "' object is not subscriptable"⟩

/-- `len(x)`. -/
def len : PyValue → Except PyError ℕ
  | str s => .ok s.length
  | list items => .ok items.length
  | dict items => .ok items.length
  | x => .error ⟨"TypeError", "object of type '" ++ x.typeName ++ "' has no len()"⟩

/-- `int(x)`. -/
def toInt (h : PyHost) : PyValue → Except PyError ℤ
  | bool b => .ok (if b then 1 else 0)
  | int n => .ok n
  | float (.finite x) => .ok (x.num.tdiv x.den)
  | float (.infinite _) => .error ⟨"OverflowError", "cannot convert float infinity to integer"⟩
  | float .nan => .error ⟨"ValueError", "cannot convert float NaN to integer"⟩
  | str s =>
      match h.intOf s with
      | some n => .ok n
      | .none =>
          .error ⟨"ValueError", "invalid literal for int() with base 10: " ++ h.repr s⟩
  | x => .error ⟨"TypeError",
      "int() argument must be a string, a bytes-like object or a real number, not '" ++
        x.typeName ++ "'"⟩

/-- `"".join(xs)`, from item `i` on. -/
def joinFrom (i : ℕ) : List PyValue → Except PyError String
  | [] => .ok ""
  | str s :: rest => (joinFrom (i + 1) rest).map fun text => s ++ text
  | x :: _ => .error ⟨"TypeError",
      "sequence item " ++ toString i ++ ": expected str instance, " ++ x.typeName ++ " found"⟩

/-- `"".join(xs)`. -/
def join (xs : List PyValue) : Except PyError String := joinFrom 0 xs

section Defaults

variable {x y : PyValue}

theorem orElse_of_truthy (truth : x.truthy = true) : x.orElse y = x := if_pos truth

theorem orElse_of_falsy (falsity : x.truthy = false) : x.orElse y = y :=
  if_neg (by simp [falsity])

/-- A default that is not true makes no difference to what is. -/
theorem truthy_orElse (falsity : y.truthy = false) : (x.orElse y).truthy = x.truthy := by
  cases truth : x.truthy with
  | true => rw [orElse_of_truthy truth, truth]
  | false => rw [orElse_of_falsy truth, falsity]

end Defaults

/-! ### Which values an operation is for -/

/-- A dict. -/
def IsDict (x : PyValue) : Prop := ∃ items, x = dict items

/-- What has a length. -/
def Sized (x : PyValue) : Prop := (∃ s, x = str s) ∨ (∃ items, x = list items) ∨ x.IsDict

/-- What stands for an integer: a number that is finite, a boolean, or the text of one. -/
def Integral (h : PyHost) : PyValue → Prop
  | bool _ => True
  | int _ => True
  | float x => ∃ q, x = .finite q
  | str s => (h.intOf s).isSome = true
  | _ => False

section Domains

variable {x : PyValue} {h : PyHost}

theorem get_eq_ok_iff {key : String} {default y : PyValue} :
    x.get key default = .ok y ↔ ∃ items, x = dict items ∧ PyDict.get items key default = y := by
  cases x <;> simp [get]

/-- An object stands first in a list only. -/
theorem first_eq_dict_iff {items : PyDict} :
    x.first = .ok (dict items) ↔ ∃ rest, x = list (dict items :: rest) := by
  cases x with
  | str s =>
      cases chars : s.toList <;> simp [first, chars]
  | list elements => cases elements <;> simp [first]
  | _ => simp [first]

theorem len_ok_iff : (∃ n, x.len = .ok n) ↔ x.Sized := by
  cases x <;> simp [len, Sized, IsDict]

theorem len_pos (truth : x.truthy = true) {n : ℕ} (len : x.len = .ok n) : 0 < n := by
  cases x with
  | str s =>
      cases len
      have some' : s ≠ "" := by simpa [truthy] using truth
      rw [Nat.pos_iff_ne_zero, ne_eq, String.length_eq_zero_iff]
      exact some'
  | list items =>
      cases len
      simpa [truthy, List.length_pos_iff] using truth
  | dict items =>
      cases len
      simpa [truthy, List.length_pos_iff] using truth
  | _ => cases len

theorem toInt_ok_iff : (∃ n, x.toInt h = .ok n) ↔ x.Integral h := by
  cases x with
  | float y => cases y <;> simp [toInt, Integral]
  | str s => cases read : h.intOf s <;> simp [toInt, Integral, read]
  | _ => simp [toInt, Integral]

theorem toInt_orElse_ok_iff {m : ℤ} :
    (∃ n, (x.orElse (int m)).toInt h = .ok n) ↔ (x.truthy = true → x.Integral h) := by
  cases truth : x.truthy with
  | true => rw [orElse_of_truthy truth, toInt_ok_iff, forall_prop_of_true rfl]
  | false => simp [orElse_of_falsy truth, toInt]

/-- Texts join to their concatenation. -/
theorem joinFrom_map_str (i : ℕ) (texts : List String) :
    joinFrom i (texts.map str) = .ok (String.join texts) := by
  induction texts generalizing i with
  | nil => rfl
  | cons s rest ih => simp [joinFrom, ih, Except.map, String.join_cons]

theorem join_map_str (texts : List String) : join (texts.map str) = .ok (String.join texts) :=
  joinFrom_map_str 0 texts

end Domains

end PyValue
