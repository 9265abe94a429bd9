import MediaCatalog.Decimal.Double

/-! JSON values. Objects are lists of members in the order in which they are written. -/

namespace MediaCatalog

/-- Whole numbers and doubles are told apart, as `1` and `1.0` are in a text. -/
inductive Number where
  | whole (n : Int)
  | real (x : Double)
  deriving DecidableEq

inductive Json where
  | null
  | bool (b : Bool)
  | number (n : Number)
  | string (s : String)
  | array (items : List Json)
  | object (members : List (String × Json))

namespace Json

mutual

def decEq : (a b : Json) → Decidable (a = b)
  | .null, .null => isTrue rfl
  | .bool a, .bool b => decidable_of_iff (a = b) (by simp)
  | .number a, .number b => decidable_of_iff (a = b) (by simp)
  | .string a, .string b => decidable_of_iff (a = b) (by simp)
  | .array a, .array b =>
    match decEqItems a b with
    | isTrue h => isTrue (by rw [h])
    | isFalse h => isFalse (fun e => h (Json.array.inj e))
  | .object a, .object b =>
    match decEqMembers a b with
    | isTrue h => isTrue (by rw [h])
    | isFalse h => isFalse (fun e => h (Json.object.inj e))
  | .null, .bool _ | .null, .number _ | .null, .string _ | .null, .array _ | .null, .object _
  | .bool _, .null | .bool _, .number _ | .bool _, .string _ | .bool _, .array _
  | .bool _, .object _ | .number _, .null | .number _, .bool _ | .number _, .string _
  | .number _, .array _ | .number _, .object _ | .string _, .null | .string _, .bool _
  | .string _, .number _ | .string _, .array _ | .string _, .object _ | .array _, .null
  | .array _, .bool _ | .array _, .number _ | .array _, .string _ | .array _, .object _
  | .object _, .null | .object _, .bool _ | .object _, .number _ | .object _, .string _
  | .object _, .array _ => isFalse (fun e => Json.noConfusion e)

def decEqItems : (a b : List Json) → Decidable (a = b)
  | [], [] => isTrue rfl
  | [], _ :: _ => isFalse (by simp)
  | _ :: _, [] => isFalse (by simp)
  | x :: a, y :: b =>
    match decEq x y, decEqItems a b with
    | isTrue hx, isTrue ha => isTrue (by rw [hx, ha])
    | isFalse hx, _ => isFalse (fun e => hx (List.cons.inj e).1)
    | _, isFalse ha => isFalse (fun e => ha (List.cons.inj e).2)

def decEqMembers : (a b : List (String × Json)) → Decidable (a = b)
  | [], [] => isTrue rfl
  | [], _ :: _ => isFalse (by simp)
  | _ :: _, [] => isFalse (by simp)
  | (k, x) :: a, (l, y) :: b =>
    if hk : k = l then
      match decEq x y, decEqMembers a b with
      | isTrue hx, isTrue ha => isTrue (by rw [hk, hx, ha])
      | isFalse hx, _ => isFalse (fun e => hx (Prod.mk.inj (List.cons.inj e).1).2)
      | _, isFalse ha => isFalse (fun e => ha (List.cons.inj e).2)
    else isFalse (fun e => hk (Prod.mk.inj (List.cons.inj e).1).1)

end

instance : DecidableEq Json := decEq

instance : Inhabited Json := ⟨.null⟩

/-- Members of an object. -/
abbrev Members := List (String × Json)

/-- The value under a key. -/
def Members.get? (key : String) : Members → Option Json
  | [] => none
  | (k, v) :: rest => if k = key then some v else Members.get? key rest

/-- Sets a key: one that is there keeps its place, a new one goes to the end. -/
def Members.put (key : String) (value : Json) : Members → Members
  | [] => [(key, value)]
  | (k, v) :: rest => if k = key then (k, value) :: rest else (k, v) :: Members.put key value rest

/-- The value under a key that may occur once; the outer `none` refuses a second one. -/
def Members.once? (key : String) (members : Members) : Option (Option Json) :=
  match members.filter (·.1 == key) with
  | [] => some none
  | [(_, v)] => some (some v)
  | _ => none

def Members.keys (members : Members) : List String :=
  members.map Prod.fst

mutual

/-- Keeps one member per key in every object: the first place and the last value. -/
def settle : Json → Json
  | .array items => .array (settleItems items)
  | .object members => .object (settleMembers [] members)
  | .null => .null
  | .bool b => .bool b
  | .number n => .number n
  | .string s => .string s

def settleItems : List Json → List Json
  | [] => []
  | v :: rest => v.settle :: settleItems rest

def settleMembers (done : Members) : List (String × Json) → Members
  | [] => done
  | (k, v) :: rest => settleMembers (done.put k v.settle) rest

end

/-- The member of an object under a key; nothing else has members. -/
def get? (key : String) : Json → Option Json
  | .object members => Members.get? key members
  | _ => none

def string? : Json → Option String
  | .string s => some s
  | _ => none

def bool? : Json → Option Bool
  | .bool b => some b
  | _ => none

def array? : Json → Option (List Json)
  | .array items => some items
  | _ => none

def ofNat (n : Nat) : Json :=
  .number (.whole n)

/-- A value that may be missing, missing written as null. -/
def ofOption {α : Type} (f : α → Json) : Option α → Json
  | some a => f a
  | none => .null

end Json

end MediaCatalog
