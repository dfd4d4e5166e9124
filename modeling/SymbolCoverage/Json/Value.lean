import SymbolCoverage.Json.Double

/-!
JSON values.  The members that are given to an object one after the other stand in the order
of their names, and a name that is given again replaces the earlier value.
-/

namespace SymbolCoverage.Json

inductive Number
  | integer (value : Int)
  | double (value : Double)
deriving DecidableEq

inductive Value
  | null
  | bool (value : Bool)
  | number (value : Number)
  | string (text : String)
  | array (elements : List Value)
  | object (members : List (String × Value))

instance : Inhabited Value := ⟨.null⟩

abbrev Members := List (String × Value)

namespace Members

/-- Gives `name` the value `v`, at its place among the names, which are ascending. -/
def set (members : Members) (name : String) (v : Value) : Members :=
  match members with
  | [] => [(name, v)]
  | (name', v') :: rest =>
    if name' < name then (name', v') :: set rest name v
    else if name' = name then (name, v) :: rest
    else (name, v) :: (name', v') :: rest

/-- The members of an object, as they are given one after the other. -/
def ofGiven (given : Members) : Members := given.foldl (fun ms m => ms.set m.1 m.2) []

theorem set_of_lt {members : Members} {name : String} (h : ∀ m ∈ members, m.1 < name)
    (v : Value) : members.set name v = members ++ [(name, v)] := by
  induction members with
  | nil => rfl
  | cons m rest ih =>
    rw [List.forall_mem_cons] at h
    rw [set, if_pos h.1, ih h.2, List.cons_append]

end Members

namespace Value

/-- The kind of a value, as diagnostics name it. -/
def kindName : Value → String
  | .null => "null"
  | .bool _ => "boolean"
  | .number _ => "number"
  | .string _ => "string"
  | .array _ => "array"
  | .object _ => "object"

def natural (n : Nat) : Value := .number (.integer n)

mutual

def same : Value → Value → Bool
  | .null, .null => true
  | .bool a, .bool b => a == b
  | .number a, .number b => decide (a = b)
  | .string a, .string b => a == b
  | .array a, .array b => sameElements a b
  | .object a, .object b => sameMembers a b
  | _, _ => false

def sameElements : List Value → List Value → Bool
  | [], [] => true
  | a :: as, b :: bs => same a b && sameElements as bs
  | _, _ => false

def sameMembers : List (String × Value) → List (String × Value) → Bool
  | [], [] => true
  | (m, a) :: as, (n, b) :: bs => m == n && same a b && sameMembers as bs
  | _, _ => false

end

mutual

theorem eq_of_same : ∀ {a b : Value}, same a b = true → a = b
  | .null, b, h => by cases b <;> simp_all [same]
  | .bool _, b, h => by cases b <;> simp_all [same]
  | .number _, b, h => by cases b <;> simp_all [same]
  | .string _, b, h => by cases b <;> simp_all [same]
  | .array as, b, h => by
    cases b <;> simp only [same, Bool.false_eq_true] at h
    exact congrArg Value.array (eq_of_sameElements h)
  | .object as, b, h => by
    cases b <;> simp only [same, Bool.false_eq_true] at h
    exact congrArg Value.object (eq_of_sameMembers h)

theorem eq_of_sameElements : ∀ {as bs : List Value}, sameElements as bs = true → as = bs
  | [], bs, h => by cases bs <;> simp_all [sameElements]
  | a :: as, bs, h => by
    cases bs with
    | nil => simp [sameElements] at h
    | cons b bs =>
      simp only [sameElements, Bool.and_eq_true] at h
      rw [eq_of_same h.1, eq_of_sameElements h.2]

theorem eq_of_sameMembers :
    ∀ {as bs : List (String × Value)}, sameMembers as bs = true → as = bs
  | [], bs, h => by cases bs <;> simp_all [sameMembers]
  | (m, a) :: as, bs, h => by
    cases bs with
    | nil => simp [sameMembers] at h
    | cons b bs =>
      obtain ⟨n, b⟩ := b
      simp only [sameMembers, Bool.and_eq_true, beq_iff_eq] at h
      rw [h.1.1, eq_of_same h.1.2, eq_of_sameMembers h.2]

end

mutual

theorem same_self : ∀ a : Value, same a a = true
  | .null => rfl
  | .bool _ => by simp [same]
  | .number _ => by simp [same]
  | .string _ => by simp [same]
  | .array as => by simp [same, sameElements_self as]
  | .object as => by simp [same, sameMembers_self as]

theorem sameElements_self : ∀ as : List Value, sameElements as as = true
  | [] => rfl
  | a :: as => by simp [sameElements, same_self a, sameElements_self as]

theorem sameMembers_self : ∀ as : List (String × Value), sameMembers as as = true
  | [] => rfl
  | (_, a) :: as => by simp [sameMembers, same_self a, sameMembers_self as]

end

instance : DecidableEq Value := fun a b =>
  if h : same a b = true then .isTrue (eq_of_same h)
  else .isFalse fun e => h (e ▸ same_self a)

end Value
end SymbolCoverage.Json
