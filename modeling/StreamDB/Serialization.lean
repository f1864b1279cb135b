import StreamDB.PyValue

/-!
# Serialization of payload fields

`Runtime` is what the translator takes from the interpreter and its libraries: JSON encoding and
`str` of a value, the date parser, the uuid source and the wall clock. The uuid source and the
clock are read through a counter, one step for each reading.
-/

namespace StreamDB

structure Runtime where
  toJson : PyValue → String
  str : PyValue → String
  str_str : ∀ s, str (.str s) = s
  isoMillis : String → Option ℤ
  uuidHex : ℕ → String
  clockMs : ℕ → ℤ

mutual

def jsonText : PyValue → String
  | .none => "null"
  | .bool b => if b then "true" else "false"
  | .int n => toString n
  | .float bits => toString bits
  | .str s => "\"" ++ s ++ "\""
  | .list xs => "[" ++ ",".intercalate (jsonTexts xs) ++ "]"
  | .dict entries => "\x7b" ++ ",".intercalate (jsonEntries entries) ++ "\x7d"

def jsonTexts : List PyValue → List String
  | [] => []
  | x :: xs => jsonText x :: jsonTexts xs

def jsonEntries : List (String × PyValue) → List String
  | [] => []
  | (k, v) :: es => ("\"" ++ k ++ "\":" ++ jsonText v) :: jsonEntries es

end

/-- A runtime for concrete runs, exact on integers, on strings without escapes and on the
containers of these. -/
def plainRuntime : Runtime where
  toJson := jsonText
  str v := match v with
    | .str s => s
    | _ => jsonText v
  str_str _ := rfl
  isoMillis _ := none
  uuidHex n := toString n
  clockMs n := n

/-- The code points `str.strip` removes. -/
def isSpace (c : Char) : Bool :=
  let n := c.toNat
  (9 ≤ n && n ≤ 13) || (28 ≤ n && n ≤ 32) || n = 0x85 || n = 0xa0 || n = 0x1680 ||
    (0x2000 ≤ n && n ≤ 0x200a) || n = 0x2028 || n = 0x2029 || n = 0x202f || n = 0x205f ||
    n = 0x3000

def strip (s : String) : String :=
  String.ofList ((s.toList.dropWhile isSpace).reverse.dropWhile isSpace).reverse

/-- `s.startswith(start)`. -/
def startsWith (s start : String) : Bool := start.toList.isPrefixOf s.toList

variable (rt : Runtime)

def toAgUiJson (value : PyValue) : String := rt.toJson value

def toAgUiContent (value : PyValue) : String :=
  match value with
  | .str s => s
  | _ => toAgUiJson rt value

def toAgUiToolName (value : PyValue) : String :=
  let name := match value with
    | .none => ""
    | _ => strip (rt.str value)
  if name = "" then "tool" else name

/-! ## Decimal suffixes -/

theorem toString_injective {m n : ℕ} (h : toString m = toString n) : m = n := by
  have hdigits := congrArg String.toList h
  simp only [Nat.toString_eq_repr, Nat.toList_repr] at hdigits
  rw [← Nat.ofDigitChars_ten_toDigits (n := m), hdigits, Nat.ofDigitChars_ten_toDigits]

theorem colon_notMem_toString (n : ℕ) : ':' ∉ (toString n).toList := by
  intro h
  rw [Nat.toString_eq_repr, Nat.toList_repr] at h
  have hdigit := Nat.isDigit_of_mem_toDigits (by decide) (by decide) h
  cases hdigit

/-- The part before the last colon and the number after it. -/
theorem numbered_inj {a b : String} {m n : ℕ}
    (h : a ++ ":" ++ toString m = b ++ ":" ++ toString n) :
    a = b ∧ m = n := by
  have hchars := congrArg String.toList h
  simp only [String.toList_append] at hchars
  rw [List.append_assoc, List.append_assoc, List.append_eq_append_iff] at hchars
  have hcolon : ":".toList = [':'] := rfl
  have hm := colon_notMem_toString m
  have hn := colon_notMem_toString n
  rw [hcolon, List.singleton_append, List.singleton_append] at hchars
  rcases hchars with ⟨cs, hb, hrest⟩ | ⟨cs, ha, hrest⟩
  · cases cs with
    | nil =>
        rw [List.append_nil] at hb
        have hdigits : (toString m).toList = (toString n).toList := by simpa using hrest
        exact ⟨String.toList_inj.mp hb.symm, toString_injective (String.toList_inj.mp hdigits)⟩
    | cons c cs =>
        rw [List.cons_append, List.cons.injEq] at hrest
        exact absurd (hrest.2 ▸ List.mem_append_right cs (.head _)) hm
  · cases cs with
    | nil =>
        rw [List.append_nil] at ha
        have hdigits : (toString m).toList = (toString n).toList := by simpa using hrest.symm
        exact ⟨String.toList_inj.mp ha, toString_injective (String.toList_inj.mp hdigits)⟩
    | cons c cs =>
        rw [List.cons_append, List.cons.injEq] at hrest
        exact absurd (hrest.2 ▸ List.mem_append_right cs (.head _)) hn

end StreamDB
