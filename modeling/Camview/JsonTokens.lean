/-
The tokens of a JSON text. White space between two of them says nothing, and the texts
that write the same tokens (`Renders`) differ only in that. `tokens` reads a text, and
`tokens_of_renders` says that it finds what was written.
-/
import Mathlib.Data.List.Basic

namespace Camview.JsonText

def quote : UInt8 := 0x22
def backslash : UInt8 := 0x5c

def IsSpace (b : UInt8) : Prop := b ∈ [0x20, 0x09, 0x0a, 0x0d]

def IsPunct (b : UInt8) : Prop := b ∈ [0x7b, 0x7d, 0x5b, 0x5d, 0x3a, 0x2c]

/-- A byte of a number, or of `true` and its likes. -/
def IsWord (b : UInt8) : Prop :=
  (0x30 ≤ b ∧ b ≤ 0x39) ∨ (0x41 ≤ b ∧ b ≤ 0x5a) ∨ (0x61 ≤ b ∧ b ≤ 0x7a) ∨ b ∈ [0x2b, 0x2d, 0x2e]

instance (b : UInt8) : Decidable (IsSpace b) := inferInstanceAs (Decidable (_ ∈ _))
instance (b : UInt8) : Decidable (IsPunct b) := inferInstanceAs (Decidable (_ ∈ _))
instance (b : UInt8) : Decidable (IsWord b) := inferInstanceAs (Decidable (_ ∨ _))

/-- A string is what stands between its quotes. -/
inductive Token
  | punct (b : UInt8)
  | string (body : List UInt8)
  | word (bytes : List UInt8)
deriving DecidableEq

/-! ## Writing -/

/-- What may stand between two quotes. -/
inductive StringBody : List UInt8 → Prop
  | nil : StringBody []
  | plain {b : UInt8} {bs : List UInt8} : b ≠ quote → b ≠ backslash → StringBody bs → StringBody (b :: bs)
  | escape {b : UInt8} {bs : List UInt8} : StringBody bs → StringBody (backslash :: b :: bs)

/-- The text writes the tokens, with white space anywhere between them. -/
inductive Renders : List Token → List UInt8 → Prop
  | nil : Renders [] []
  | space {b : UInt8} {ts : List Token} {bs : List UInt8} : IsSpace b → Renders ts bs → Renders ts (b :: bs)
  | punct {b : UInt8} {ts : List Token} {bs : List UInt8} : IsPunct b → Renders ts bs →
      Renders (.punct b :: ts) (b :: bs)
  | string {body : List UInt8} {ts : List Token} {bs : List UInt8} : StringBody body → Renders ts bs →
      Renders (.string body :: ts) (quote :: (body ++ quote :: bs))
  /-- What comes after a word does not go on with it. -/
  | word {b : UInt8} {w : List UInt8} {ts : List Token} {bs : List UInt8} : IsWord b → (∀ c ∈ w, IsWord c) →
      (∀ c ∈ bs.head?, ¬ IsWord c) → Renders ts bs → Renders (.word (b :: w) :: ts) (b :: (w ++ bs))

/-- More white space before a text is one more way to write it. -/
theorem Renders.spaces {ts : List Token} {gap bs : List UInt8} (h : Renders ts bs) (hg : ∀ b ∈ gap, IsSpace b) :
    Renders ts (gap ++ bs) := by
  induction gap with
  | nil => exact h
  | cons b gap ih =>
    rw [List.forall_mem_cons] at hg
    exact .space hg.1 (ih hg.2)

/-! ## Reading -/

/-- Where the reader is, with the bytes of the token so far. -/
inductive Place
  | outside
  | word (acc : List UInt8)
  | string (acc : List UInt8)
  | escape (acc : List UInt8)

/-- The tokens of the text from there on; `none` if it is not made of tokens. -/
def tokensFrom : Place → List UInt8 → Option (List Token)
  | .outside, [] => some []
  | .outside, b :: bs =>
    if IsWord b then tokensFrom (.word [b]) bs
    else if IsSpace b then tokensFrom .outside bs
    else if IsPunct b then (tokensFrom .outside bs).map (.punct b :: ·)
    else if b = quote then tokensFrom (.string []) bs
    else none
  | .word acc, [] => some [.word acc]
  | .word acc, b :: bs =>
    if IsWord b then tokensFrom (.word (acc ++ [b])) bs
    else if IsSpace b then (tokensFrom .outside bs).map (.word acc :: ·)
    else if IsPunct b then ((tokensFrom .outside bs).map (.punct b :: ·)).map (.word acc :: ·)
    else if b = quote then (tokensFrom (.string []) bs).map (.word acc :: ·)
    else none
  | .string _, [] => none
  | .string acc, b :: bs =>
    if b = quote then (tokensFrom .outside bs).map (.string acc :: ·)
    else if b = backslash then tokensFrom (.escape (acc ++ [b])) bs
    else tokensFrom (.string (acc ++ [b])) bs
  | .escape _, [] => none
  | .escape acc, b :: bs => tokensFrom (.string (acc ++ [b])) bs

def tokens : List UInt8 → Option (List Token) := tokensFrom .outside

theorem not_isWord_of_isSpace {b : UInt8} (h : IsSpace b) : ¬ IsWord b := by
  unfold IsSpace at h
  simp only [List.mem_cons, List.not_mem_nil, or_false] at h
  rcases h with rfl | rfl | rfl | rfl
  all_goals decide

theorem not_isWord_of_isPunct {b : UInt8} (h : IsPunct b) : ¬ IsWord b ∧ ¬ IsSpace b := by
  unfold IsPunct at h
  simp only [List.mem_cons, List.not_mem_nil, or_false] at h
  rcases h with rfl | rfl | rfl | rfl | rfl | rfl
  all_goals decide

theorem tokensFrom_string {body bs : List UInt8} (h : StringBody body) (acc : List UInt8) :
    tokensFrom (.string acc) (body ++ quote :: bs) = (tokensFrom .outside bs).map (.string (acc ++ body) :: ·) := by
  induction h generalizing acc with
  | nil => rw [List.nil_append, tokensFrom, if_pos rfl, List.append_nil]
  | plain hq hb _ ih =>
    rw [List.cons_append, tokensFrom, if_neg hq, if_neg hb, ih, List.append_assoc, List.singleton_append]
  | escape _ ih =>
    rw [List.cons_append, List.cons_append, tokensFrom, if_neg (by decide), if_pos rfl, tokensFrom, ih,
      List.append_assoc, List.append_assoc, List.singleton_append, List.singleton_append]

/-- A word ends where it does not go on. -/
theorem tokensFrom_word_end {acc bs : List UInt8} (h : ∀ c ∈ bs.head?, ¬ IsWord c) :
    tokensFrom (.word acc) bs = (tokensFrom .outside bs).map (.word acc :: ·) := by
  cases bs with
  | nil => rfl
  | cons b bs =>
    have hb : ¬ IsWord b := h b rfl
    rw [tokensFrom, tokensFrom, if_neg hb, if_neg hb]
    split
    · rfl
    split
    · rfl
    split
    · rfl
    · rfl

theorem tokensFrom_word {w bs : List UInt8} (hw : ∀ c ∈ w, IsWord c) (h : ∀ c ∈ bs.head?, ¬ IsWord c)
    (acc : List UInt8) :
    tokensFrom (.word acc) (w ++ bs) = (tokensFrom .outside bs).map (.word (acc ++ w) :: ·) := by
  induction w generalizing acc with
  | nil => rw [List.nil_append, tokensFrom_word_end h, List.append_nil]
  | cons b w ih =>
    rw [List.forall_mem_cons] at hw
    rw [List.cons_append, tokensFrom, if_pos hw.1, ih hw.2, List.append_assoc, List.singleton_append]

/-- What is written is read. -/
theorem tokens_of_renders {ts : List Token} {bs : List UInt8} (h : Renders ts bs) : tokens bs = some ts := by
  unfold tokens
  induction h with
  | nil => rfl
  | space hs _ ih => rw [tokensFrom, if_neg (not_isWord_of_isSpace hs), if_pos hs, ih]
  | punct hp _ ih =>
    obtain ⟨hw, hs⟩ := not_isWord_of_isPunct hp
    rw [tokensFrom, if_neg hw, if_neg hs, if_pos hp, ih, Option.map_some]
  | string hb _ ih =>
    rw [tokensFrom, if_neg (by decide), if_neg (by decide), if_neg (by decide), if_pos rfl, tokensFrom_string hb, ih,
      Option.map_some, List.nil_append]
  | word hb hw hend _ ih =>
    rw [tokensFrom, if_pos hb, tokensFrom_word hw hend, ih, Option.map_some, List.singleton_append]

end Camview.JsonText
