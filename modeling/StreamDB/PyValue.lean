import Mathlib.Algebra.Field.Rat
import Mathlib.Algebra.Order.Ring.Rat
import Mathlib.Tactic.SplitIfs
import StreamDB.OrderedDict

/-!
# Python values on the wire

The JSON-like values that reach the translator: tool arguments, message contents, artifacts,
custom payloads and state snapshots. Dictionaries are kept as their entries in insertion order.
-/

namespace StreamDB

inductive PyValue where
  | none
  | bool (b : Bool)
  | int (n : ℤ)
  | float (bits : UInt64)
  | str (s : String)
  | list (xs : List PyValue)
  | dict (entries : List (String × PyValue))
  deriving Inhabited

abbrev Entries := List (String × PyValue)

/-- A row, or any other dictionary the translator builds key by key. -/
abbrev Row := OrderedDict String PyValue

/-- The number a Python number denotes, as `==` sees it. -/
inductive Number where
  | finite (q : ℚ)
  | infinite (negative : Bool)
  | nan
  deriving DecidableEq

def Number.eq : Number → Number → Bool
  | .nan, _ => false
  | a, b => a = b

/-- The value of an IEEE double: 1 sign bit, 11 exponent bits, 52 fraction bits. -/
def floatNumber (bits : UInt64) : Number :=
  let negative : Bool := bits.toNat / 2 ^ 63 = 1
  let exponent : ℕ := bits.toNat / 2 ^ 52 % 2 ^ 11
  let fraction : ℕ := bits.toNat % 2 ^ 52
  if exponent = 2047 then
    if fraction = 0 then .infinite negative else .nan
  else
    let magnitude : ℚ := if exponent = 0 then (fraction : ℚ) / 2 ^ 1074
      else ((2 ^ 52 + fraction : ℕ) : ℚ) * 2 ^ exponent / 2 ^ 1075
    .finite (if negative then -magnitude else magnitude)

namespace PyValue

def number : PyValue → Option Number
  | .bool b => some (.finite (if b then 1 else 0))
  | .int n => some (.finite n)
  | .float bits => some (floatNumber bits)
  | _ => Option.none

/-- `bool(value)`. -/
def truthy : PyValue → Bool
  | .none => false
  | .bool b => b
  | .int n => n ≠ 0
  | .float bits => floatNumber bits ≠ .finite 0
  | .str s => s ≠ ""
  | .list xs => !xs.isEmpty
  | .dict entries => !entries.isEmpty

def isStr (v : PyValue) (s : String) : Bool :=
  match v with
  | .str t => t = s
  | _ => false

theorem isStr_iff {v : PyValue} {s : String} : v.isStr s ↔ v = .str s := by
  cases v with
  | str t => simp [isStr]
  | _ => simp [isStr]

/-- A `str` that is not empty. -/
def nonemptyStr : PyValue → Option String
  | .str s => if s = "" then Option.none else some s
  | _ => Option.none

theorem nonemptyStr_ne {v : PyValue} {s : String} (h : v.nonemptyStr = some s) : s ≠ "" := by
  cases v with
  | str t =>
      rw [nonemptyStr] at h
      split_ifs at h with ht
      rw [← Option.some.inj h]
      exact ht
  | _ => cases h

def hashable : PyValue → Bool
  | .list _ => false
  | .dict _ => false
  | _ => true

mutual

/-- `a == b`. -/
def eq : PyValue → PyValue → Bool
  | .none, b => match b with
    | .none => true
    | _ => false
  | .str s, b => b.isStr s
  | .list xs, b => match b with
    | .list ys => eqList xs ys
    | _ => false
  | .dict xs, b => match b with
    | .dict ys => xs.length = ys.length && eqEntries xs ys
    | _ => false
  | .bool a, b => eqNumber (.finite (if a then 1 else 0)) b
  | .int n, b => eqNumber (.finite n) b
  | .float bits, b => eqNumber (floatNumber bits) b

def eqNumber (a : Number) (b : PyValue) : Bool :=
  match b.number with
  | some m => a.eq m
  | Option.none => false

def eqList : List PyValue → List PyValue → Bool
  | [], [] => true
  | x :: xs, y :: ys => eq x y && eqList xs ys
  | _, _ => false

def eqEntries : List (String × PyValue) → List (String × PyValue) → Bool
  | [], _ => true
  | (k, x) :: xs, ys => (match OrderedDict.lookupEntries k ys with
    | some y => eq x y
    | Option.none => false) && eqEntries xs ys

end

end PyValue

/-- `entries.get(key)`. -/
def Entries.get (entries : Entries) (key : String) : PyValue :=
  (OrderedDict.lookupEntries key entries).getD .none

/-- `entries.get(key, default)`. -/
def Entries.getD (entries : Entries) (key : String) (default : PyValue) : PyValue :=
  (OrderedDict.lookupEntries key entries).getD default

end StreamDB
