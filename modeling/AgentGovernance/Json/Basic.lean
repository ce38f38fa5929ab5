import AgentGovernance.Number
import AgentGovernance.Bytes
import AgentGovernance.Table

/-!
# JSON values

Objects keep their members as they were given, duplicates included. The canonical form of a value
sorts the members of every object by the UTF-8 bytes of their keys and keeps the last of members
with one key; two values that differ only in these respects have one canonical form.

The compact text of a value has no spaces. Strings escape the quotation mark, the backslash and
the control characters and hold everything else as it is.
-/
namespace AgentGovernance

/-- A number is an integer or a double; `1` and `1.0` are different values. -/
inductive Json.Number where
  | integer (n : Int)
  | double (x : Binary64)
  deriving DecidableEq, Repr

inductive Json where
  | null
  | bool (b : Bool)
  | number (n : Json.Number)
  | string (s : String)
  | array (items : List Json)
  | object (members : List (String × Json))
  deriving Repr, Inhabited

namespace Json

mutual

def beq : Json → Json → Bool
  | .null, .null => true
  | .bool a, .bool b => a = b
  | .number a, .number b => a = b
  | .string a, .string b => a = b
  | .array a, .array b => beqItems a b
  | .object a, .object b => beqMembers a b
  | _, _ => false

def beqItems : List Json → List Json → Bool
  | [], [] => true
  | a :: as, b :: bs => beq a b && beqItems as bs
  | _, _ => false

def beqMembers : List (String × Json) → List (String × Json) → Bool
  | [], [] => true
  | (k, a) :: as, (l, b) :: bs => k = l && beq a b && beqMembers as bs
  | _, _ => false

end

mutual

theorem eq_of_beq : ∀ {v w : Json}, beq v w = true → v = w
  | .null, w, h => by cases w <;> simp_all [beq]
  | .bool a, w, h => by cases w <;> simp_all [beq]
  | .number a, w, h => by cases w <;> simp_all [beq]
  | .string a, w, h => by cases w <;> simp_all [beq]
  | .array a, w, h => by
      cases w with
      | array b => exact congrArg Json.array (eq_of_beqItems (by simpa only [beq] using h))
      | _ => simp [beq] at h
  | .object a, w, h => by
      cases w with
      | object b => exact congrArg Json.object (eq_of_beqMembers (by simpa only [beq] using h))
      | _ => simp [beq] at h

theorem eq_of_beqItems : ∀ {vs ws : List Json}, beqItems vs ws = true → vs = ws
  | [], ws, h => by cases ws <;> simp_all [beqItems]
  | v :: vs, ws, h => by
      cases ws with
      | nil => simp [beqItems] at h
      | cons w ws =>
          simp only [beqItems, Bool.and_eq_true] at h
          rw [eq_of_beq h.1, eq_of_beqItems h.2]

theorem eq_of_beqMembers : ∀ {vs ws : List (String × Json)}, beqMembers vs ws = true → vs = ws
  | [], ws, h => by cases ws <;> simp_all [beqMembers]
  | (k, v) :: vs, ws, h => by
      cases ws with
      | nil => simp [beqMembers] at h
      | cons w ws =>
          obtain ⟨l, w⟩ := w
          simp only [beqMembers, Bool.and_eq_true, decide_eq_true_eq] at h
          rw [h.1.1, eq_of_beq h.1.2, eq_of_beqMembers h.2]

end

mutual

theorem beq_self : ∀ v : Json, beq v v = true
  | .null => rfl
  | .bool _ => by simp [beq]
  | .number _ => by simp [beq]
  | .string _ => by simp [beq]
  | .array items => by simp [beq, beqItems_self items]
  | .object members => by simp [beq, beqMembers_self members]

theorem beqItems_self : ∀ vs : List Json, beqItems vs vs = true
  | [] => rfl
  | v :: vs => by simp [beqItems, beq_self v, beqItems_self vs]

theorem beqMembers_self : ∀ vs : List (String × Json), beqMembers vs vs = true
  | [] => rfl
  | (k, v) :: vs => by simp [beqMembers, beq_self v, beqMembers_self vs]

end

instance : DecidableEq Json := fun v w =>
  if h : beq v w = true then .isTrue (eq_of_beq h)
  else .isFalse fun e => h (e ▸ beq_self v)

/-- Equality of numbers as values: the two zeros among the doubles are equal. -/
def Number.agrees : Number → Number → Bool
  | .integer a, .integer b => a = b
  | .double x, .double y => x = y || (x.isZero && y.isZero)
  | _, _ => false

mutual

/-- Equality up to the signs of zeros. -/
def agrees : Json → Json → Bool
  | .number a, .number b => a.agrees b
  | .array a, .array b => agreesItems a b
  | .object a, .object b => agreesMembers a b
  | v, w => beq v w

def agreesItems : List Json → List Json → Bool
  | [], [] => true
  | a :: as, b :: bs => agrees a b && agreesItems as bs
  | _, _ => false

def agreesMembers : List (String × Json) → List (String × Json) → Bool
  | [], [] => true
  | (k, a) :: as, (l, b) :: bs => k = l && agrees a b && agreesMembers as bs
  | _, _ => false

end

def int (n : Int) : Json := .number (.integer n)

def nat (n : Nat) : Json := .int n

def word (n : UInt64) : Json := .nat n.toNat

/-- Members in order of their keys, the last of each key. -/
def sortMembers (members : List (String × Json)) : List (String × Json) :=
  (Table.ofList members).entries

mutual

def canonical : Json → Json
  | .array items => .array (canonicalItems items)
  | .object members => .object (sortMembers (canonicalMembers members))
  | v => v

def canonicalItems : List Json → List Json
  | [] => []
  | v :: vs => canonical v :: canonicalItems vs

def canonicalMembers : List (String × Json) → List (String × Json)
  | [] => []
  | (k, v) :: rest => (k, canonical v) :: canonicalMembers rest

end

/-- The value of the last member with a key. -/
def lookup (key : String) (members : List (String × Json)) : Option Json :=
  (members.reverse.find? (·.1 = key)).map (·.2)

def member? (v : Json) (key : String) : Option Json :=
  match v with
  | .object members => lookup key members
  | _ => none

/-- An object without its absent members. -/
def record (members : List (String × Option Json)) : Json :=
  .object (members.filterMap fun (k, v) => v.map ((k, ·)))

/-- A control character without a short escape is written with two hexadecimal digits. -/
def escape (c : Char) : List Char :=
  if c = '"' then ['\\', '"']
  else if c = '\\' then ['\\', '\\']
  else if c = '\n' then ['\\', 'n']
  else if c = '\r' then ['\\', 'r']
  else if c = '\t' then ['\\', 't']
  else if c.toNat = 8 then ['\\', 'b']
  else if c.toNat = 12 then ['\\', 'f']
  else if c.toNat < 32 then
    ['\\', 'u', '0', '0', Hex.digit (c.toNat / 16), Hex.digit (c.toNat % 16)]
  else [c]

def renderString (s : String) : List Char := '"' :: (s.toList.flatMap escape ++ ['"'])

/-- From `1e-5` up to below `1e16` a double is written positionally with at least one fractional
digit, otherwise with one digit before the point and a signed exponent. -/
def renderPositive (x : Binary64) : List Char :=
  let (ds, top) := x.shortestDigits
  if top < -5 ∨ 16 ≤ top then
    let mantissa := match ds with
      | [] => []
      | [d] => [d]
      | d :: rest => d :: '.' :: rest
    let exponent := Binary64.digitsOf top.natAbs
    mantissa ++ 'e' :: (if top < 0 then '-' else '+') :: exponent
  else if top < 0 then
    '0' :: '.' :: List.replicate (top.natAbs - 1) '0' ++ ds
  else
    let whole := top.toNat + 1
    let front := ds.take whole ++ List.replicate (whole - ds.length) '0'
    let back := ds.drop whole
    front ++ '.' :: (if back.isEmpty then ['0'] else back)

def renderDouble (x : Binary64) : List Char :=
  let body := if x.isZero then ['0', '.', '0'] else renderPositive ⟨UInt64.ofNat x.magnitudeBits⟩
  if x.isNegative then '-' :: body else body

def renderNumber : Number → List Char
  | .integer n => (toString n).toList
  | .double x => renderDouble x

mutual

def render : Json → List Char
  | .null => ['n', 'u', 'l', 'l']
  | .bool true => ['t', 'r', 'u', 'e']
  | .bool false => ['f', 'a', 'l', 's', 'e']
  | .number n => renderNumber n
  | .string s => renderString s
  | .array items => '[' :: (renderItems items ++ [']'])
  | .object members => '\x7b' :: (renderMembers members ++ ['\x7d'])

def renderItems : List Json → List Char
  | [] => []
  | [v] => render v
  | v :: w :: rest => render v ++ ',' :: renderItems (w :: rest)

def renderMembers : List (String × Json) → List Char
  | [] => []
  | [(k, v)] => renderString k ++ ':' :: render v
  | (k, v) :: m :: rest => renderString k ++ ':' :: (render v ++ ',' :: renderMembers (m :: rest))

end

/-- The text of a value as it stands. -/
def compact (v : Json) : String := String.ofList (render v)

end Json

end AgentGovernance
