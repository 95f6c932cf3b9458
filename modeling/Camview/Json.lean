/-
The values of json-c and what its functions do with them, as far as the controls
file goes. `NULL` and a JSON `null` are the same to json-c, and both are `null`.
Printing, parsing, and reading a number from a string or a double are left to
`JsonC`.

What C passes around as a `char *` is a `CString`.
-/
import Mathlib.Data.List.Basic
import Mathlib.Data.List.TakeWhile

namespace Camview

/-! ## C strings -/

structure CString where
  chars : List Char
  noNul : '\x00' ∉ chars
deriving DecidableEq

namespace CString

/-- What is read at a pointer to these characters. -/
def ofChars (cs : List Char) : CString where
  chars := cs.takeWhile (· ≠ '\x00')
  noNul := by
    intro h
    simpa using List.mem_takeWhile_imp h

def ofString (s : String) : CString := ofChars s.toList

def text (c : CString) : String := .ofList c.chars

theorem ofString_text (c : CString) : ofString c.text = c := by
  obtain ⟨cs, h⟩ := c
  have ht : cs.takeWhile (· ≠ '\x00') = cs :=
    List.takeWhile_eq_self_iff.2 fun x hx => by simpa using fun e : x = '\x00' => h (e ▸ hx)
  simp only [ofString, ofChars, text, String.toList_ofList, ht]

/-- What `fputs` writes. -/
def bytes (c : CString) : List UInt8 := c.chars.flatMap String.utf8EncodeChar

theorem toNat_ofNat {n : Nat} {b : UInt8} (hn : n < 256) (h : b = UInt8.ofNat n) : b.toNat = n := by
  have := congrArg UInt8.toNat h
  simp at this
  omega

/-- A byte below 128 in the encoding of a character is that character. -/
theorem eq_of_mem_utf8EncodeChar {c d : Char} (hd : d.toNat < 128)
    (h : UInt8.ofNat d.toNat ∈ String.utf8EncodeChar c) : c = d := by
  have hb : (UInt8.ofNat d.toNat).toNat = d.toNat := by simp; omega
  generalize UInt8.ofNat d.toNat = b at hb h
  simp only [String.utf8EncodeChar] at h
  split at h
  · simp only [List.mem_singleton] at h
    have := toNat_ofNat (by omega) h
    exact Char.ext (UInt32.toNat_inj.1 (this.symm.trans hb))
  split at h
  · simp only [List.mem_cons, List.not_mem_nil, or_false] at h
    rcases h with h | h <;> have := toNat_ofNat (by omega) h <;> omega
  split at h
  · simp only [List.mem_cons, List.not_mem_nil, or_false] at h
    rcases h with h | h | h <;> have := toNat_ofNat (by omega) h <;> omega
  · simp only [List.mem_cons, List.not_mem_nil, or_false] at h
    rcases h with h | h | h | h <;> have := toNat_ofNat (by omega) h <;> omega

theorem not_mem_bytes {c : CString} {d : Char} (hd : d.toNat < 128) (h : d ∉ c.chars) :
    UInt8.ofNat d.toNat ∉ c.bytes := by
  intro hb
  obtain ⟨x, hx, hb⟩ := List.mem_flatMap.1 hb
  exact h (eq_of_mem_utf8EncodeChar hd hb ▸ hx)

theorem zero_not_mem_bytes (c : CString) : 0 ∉ c.bytes := not_mem_bytes (d := '\x00') (by decide) c.noNul

end CString

/-! ## Values -/

/-- `struct json_object *`. A double is its bits. -/
inductive Json
  | null
  | boolean (b : Bool)
  | int (v : Int)
  | double (bits : UInt64)
  | string (s : String)
  | array (items : List Json)
  | object (fields : List (String × Json))

/-- The part of json-c that is not modelled. -/
structure JsonC where
  /-- `json_object_get_string` of a value that is not a string -/
  print : Json → CString
  /-- `json_tokener_parse`, on what stands before the first NUL -/
  parse : List UInt8 → Option Json
  intOfString : String → Int32
  intOfDouble : UInt64 → Int32

namespace Json

/-- `json_object_new_int`. -/
def newInt (n : Int32) : Json := .int n.toInt

/-- A value of 64 bits as an `int32_t`, limited to its range. -/
def clampInt (v : Int) : Int32 :=
  if v ≤ Int32.minValue.toInt then Int32.minValue
  else if Int32.maxValue.toInt ≤ v then Int32.maxValue
  else Int32.ofInt v

/-- `json_object_get_int`. -/
def getInt (J : JsonC) : Json → Int32
  | .int v => clampInt v
  | .boolean b => if b then 1 else 0
  | .double bits => J.intOfDouble bits
  | .string s => J.intOfString s
  | _ => 0

/-- `json_object_get_string`; `none` is `NULL`. -/
def getString (J : JsonC) : Json → Option CString
  | .null => none
  | .string s => some (.ofString s)
  | json => some (J.print json)

/-- `json_object_new_string`. -/
def newString (s : CString) : Json := .string s.text

/-- `json_object_object_get`; the key of an object is there once. -/
def objectGet (json : Json) (key : String) : Json :=
  match json with
  | .object fields => (fields.lookup key).getD .null
  | _ => .null

/-- `json_object_object_add` on the fields of an object: a key that is there keeps
its place. -/
def objectAdd (key : String) (val : Json) : List (String × Json) → List (String × Json)
  | [] => [(key, val)]
  | (k, v) :: fields => if k = key then (k, val) :: fields else (k, v) :: objectAdd key val fields

/-- The fields after adding each entry. -/
def addAll (fields : List (String × Json)) : List (String × Json) → List (String × Json)
  | [] => fields
  | (key, val) :: entries => addAll (objectAdd key val fields) entries

/-- `json_object_new_object`, with each entry added. -/
def build (entries : List (String × Json)) : Json := .object (addAll [] entries)

theorem toInt_clampInt (n : Int32) : clampInt n.toInt = n := by
  unfold clampInt
  split
  · next h => exact Int32.toInt_inj.1 (Int.le_antisymm (Int32.minValue_le_toInt n) h)
  split
  · next h => exact Int32.toInt_inj.1 (Int.le_antisymm h (Int32.toInt_le n))
  · exact Int32.ofInt_toInt n

theorem getInt_newInt (J : JsonC) (n : Int32) : getInt J (newInt n) = n := toInt_clampInt n

theorem getString_newString (J : JsonC) (s : CString) : getString J (newString s) = some s :=
  congrArg some s.ofString_text

theorem lookup_objectAdd_self (key : String) (val : Json) (fields : List (String × Json)) :
    (objectAdd key val fields).lookup key = some val := by
  induction fields with
  | nil => simp [objectAdd]
  | cons f fields ih =>
    obtain ⟨k, v⟩ := f
    unfold objectAdd
    by_cases hk : k = key
    · simp [hk]
    · have hb : (key == k) = false := by simpa using fun e : key = k => hk e.symm
      simp [hk, List.lookup_cons, hb, ih]

theorem lookup_objectAdd_ne {key key' : String} (h : key' ≠ key) (val : Json) (fields : List (String × Json)) :
    (objectAdd key val fields).lookup key' = fields.lookup key' := by
  have hb : (key' == key) = false := by simpa using h
  induction fields with
  | nil => simp [objectAdd, List.lookup_cons, hb]
  | cons f fields ih =>
    obtain ⟨k, v⟩ := f
    unfold objectAdd
    by_cases hk : k = key
    · simp [hk, List.lookup_cons, hb]
    · simp [hk, List.lookup_cons, ih]

theorem lookup_addAll_none {key : String} {entries : List (String × Json)} (h : key ∉ entries.map Prod.fst)
    (fields : List (String × Json)) : (addAll fields entries).lookup key = fields.lookup key := by
  induction entries generalizing fields with
  | nil => rfl
  | cons e entries ih =>
    obtain ⟨k, v⟩ := e
    simp only [List.map_cons, List.mem_cons, not_or] at h
    rw [addAll, ih h.2, lookup_objectAdd_ne h.1]

theorem lookup_addAll_some {key : String} {val : Json} {entries : List (String × Json)}
    (hn : (entries.map Prod.fst).Nodup) (h : (key, val) ∈ entries) (fields : List (String × Json)) :
    (addAll fields entries).lookup key = some val := by
  induction entries generalizing fields with
  | nil => cases h
  | cons e entries ih =>
    obtain ⟨k, v⟩ := e
    rw [List.map_cons, List.nodup_cons] at hn
    rcases List.mem_cons.1 h with h | h
    · cases h
      rw [addAll, lookup_addAll_none hn.1, lookup_objectAdd_self]
    · exact ih hn.2 h _

/-- Where the keys are distinct, each reads as what was added under it. -/
theorem objectGet_build {entries : List (String × Json)} (hn : (entries.map Prod.fst).Nodup) {key : String}
    {val : Json} (h : (key, val) ∈ entries) : (build entries).objectGet key = val := by
  unfold build objectGet
  dsimp only
  rw [lookup_addAll_some hn h]
  rfl

end Json

end Camview
