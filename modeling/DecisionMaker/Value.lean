import Mathlib.Data.List.Basic

/-!
# Python values

The values that `json.loads` builds and that the graph state holds, with the builtins the nodes
and routers apply to them.
-/

namespace DecisionMaker

inductive NodeError
  | jsonParseError
  | doubleTrueError
  | typeError
  | llmError
  | searchError
  deriving DecidableEq, Repr

inductive Value
  | none
  | bool (b : Bool)
  | int (n : Int)
  -- the bits of the double
  | float (bits : BitVec 64)
  | str (s : String)
  | list (items : List Value)
  | dict (entries : List (String × Value))
  deriving Repr, Inhabited

abbrev Dict := List (String × Value)

namespace Value

def truthy : Value → Bool
  | .none => false
  | .bool b => b
  | .int n => n != 0
  -- both zeros are falsy, NaN is not
  | .float bits => bits.setWidth 63 != 0
  | .str s => s != ""
  | .list items => !items.isEmpty
  | .dict entries => !entries.isEmpty

def orElse (v d : Value) : Value := if v.truthy then v else d

def len : Value → Except NodeError Nat
  | .str s => .ok s.length
  | .list items => .ok items.length
  | .dict entries => .ok entries.length
  | _ => .error .typeError

def iter : Value → Except NodeError (List Value)
  | .str s => .ok (s.toList.map fun c => .str (String.singleton c))
  | .list items => .ok items
  | .dict entries => .ok (entries.map fun e => .str e.1)
  | _ => .error .typeError

end Value

def Dict.get (d : Dict) (key : String) (default : Value) : Value :=
  (d.lookup key).getD default

def getOr (field : Option Value) (default : Value) : Value :=
  (field.getD .none).orElse default

namespace Value

@[simp] theorem truthy_none : Value.none.truthy = false := rfl
@[simp] theorem truthy_bool (b : Bool) : (Value.bool b).truthy = b := rfl
@[simp] theorem truthy_str (s : String) : (Value.str s).truthy = (s != "") := rfl
@[simp] theorem truthy_list (items : List Value) : (Value.list items).truthy = !items.isEmpty := rfl

theorem truthy_orElse (v d : Value) : (v.orElse d).truthy = (v.truthy || d.truthy) := by
  unfold orElse
  cases h : v.truthy <;> simp [h]

@[simp] theorem orElse_empty_truthy (v : Value) : (v.orElse (.str "")).truthy = v.truthy := by
  simp [truthy_orElse]

theorem iter_len {v : Value} {items : List Value} (iterated : v.iter = .ok items) :
    v.len = .ok items.length := by
  cases v <;> cases iterated <;> simp [len, String.length_toList]

theorem len_iter {v : Value} {n : Nat} (sized : v.len = .ok n) :
    ∃ items, v.iter = .ok items ∧ items.length = n := by
  cases v <;> cases sized <;> exact ⟨_, rfl, by simp [String.length_toList]⟩

theorem iter_ne_nil {v : Value} {items : List Value} (some : v.truthy = true) (iterated : v.iter = .ok items) :
    items ≠ [] := by
  rintro rfl
  cases v with
  | list => cases iterated; cases some
  | dict entries =>
      rw [List.map_eq_nil_iff.mp (Except.ok.inj iterated)] at some
      cases some
  | str s =>
      have empty : s = "" := String.toList_eq_nil_iff.mp (List.map_eq_nil_iff.mp (Except.ok.inj iterated))
      rw [empty] at some
      cases some
  | none | bool | int | float => cases iterated

end Value

@[simp] theorem getOr_empty_truthy (field : Option Value) :
    (getOr field (.str "")).truthy = (field.getD .none).truthy :=
  Value.orElse_empty_truthy _

@[simp] theorem Dict.get_nil (key : String) (default : Value) : Dict.get [] key default = default := rfl

theorem Dict.get_cons (name key : String) (v : Value) (d : Dict) (default : Value) :
    Dict.get ((name, v) :: d) key default = if key = name then v else Dict.get d key default := by
  by_cases same : key = name
  · simp [Dict.get, same]
  · simp [Dict.get, List.lookup_cons, same, beq_false_of_ne same]

end DecisionMaker
