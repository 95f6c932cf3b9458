/-
`setPlanesColorFormat`: the properties of the two planes it looks for, and the values
it sets.

The enumeration of a property is read into an array for ten entries, of which five are
looked at, and which is not cleared: with fewer entries than that, those of the
properties before are still there. `colors_set_iff` says for which lists of properties
and entries this makes no difference, and neither does the end of the search at the
first pair found.
-/
import Camview.FinSizes
import Camview.Json
import Camview.Refill
import Mathlib.Data.List.Infix

namespace Camview.ColorFormat

/-! ## The properties -/

/-- `struct drm_mode_property_enum`. -/
structure PropertyEnum where
  name : CString
  value : UInt64
deriving DecidableEq

/-- What `DRM_IOCTL_MODE_GETPROPERTY` tells of a property. -/
structure Property where
  name : CString
  enums : List PropertyEnum
deriving DecidableEq

/-- The answers of the ioctls; `none` is one that fails. -/
structure Kernel where
  /-- `DRM_IOCTL_MODE_OBJ_GETPROPERTIES`, for a plane -/
  getProperties : UInt32 → Option (List UInt32)
  getProperty : UInt32 → Option Property

/-- The columns of `prop_ids` and `prop_values`. -/
inductive Kind
  | encoding
  | range
deriving DecidableEq, Repr

/-- The name the property has. -/
def Kind.name : Kind → CString
  | .encoding => .ofString "COLOR_ENCODING"
  | .range => .ofString "COLOR_RANGE"

/-- What the name of an entry has in it. -/
def Kind.part : Kind → List Char
  | .encoding => ['6', '0', '1']
  | .range => ['f', 'u', 'l', 'l']

/-- `strstr`. -/
def PropertyEnum.isFor (e : PropertyEnum) (kind : Kind) : Bool := decide (kind.part <:+: e.name.chars)

/-! ## The search -/

/-- A row of `prop_ids` and `prop_values`. -/
structure Row where
  ids : Kind → UInt32
  values : Kind → UInt64

/-- The array at `enum_blob_ptr`, and the row of the plane. -/
structure Search where
  enums : Fin 10 → PropertyEnum
  row : Row

/-- The entries the loops over `k` look at. -/
def scanned : List (Fin 10) := [0, 1, 2, 3, 4]

/-- The section for one of the names. -/
def Row.lookFor (kind : Kind) (id : UInt32) (p : Property) (enums : Fin 10 → PropertyEnum) (row : Row) : Row :=
  if p.name = kind.name then
    match scanned.find? fun k => (enums k).isFor kind with
    | some k => ⟨Function.update row.ids kind id, Function.update row.values kind (enums k).value⟩
    | none => row
  else row

/-- A property that could be read. -/
def Search.property (id : UInt32) (p : Property) (s : Search) : Search :=
  let enums := refill p.enums s.enums
  ⟨enums, (s.row.lookFor .encoding id p enums).lookFor .range id p enums⟩

/-- The loop over the properties of a plane, from `j` on. `props_ptr` has room for 500
of them; `none` is that it is read beyond. -/
def searchProperties (K : Kernel) : Nat → List UInt32 → Search → Option Search
  | _, [], s => some s
  | j, id :: ids, s =>
    if 500 ≤ j then none
    else if id = 0 then searchProperties K (j + 1) ids s
    else
      match K.getProperty id with
      | none => searchProperties K (j + 1) ids s
      | some p =>
        let s := s.property id p
        if s.row.ids .encoding ≠ 0 ∧ s.row.ids .range ≠ 0 then some s else searchProperties K (j + 1) ids s

/-- The body of the loop over the planes, with the array as it is. -/
def searchPlane (K : Kernel) (plane : Option UInt32) (enums : Fin 10 → PropertyEnum) : Option Search :=
  match plane.bind K.getProperties with
  | none => some ⟨enums, fun _ => 0, fun _ => 0⟩
  | some ids => searchProperties K 0 ids ⟨enums, fun _ => 0, fun _ => 0⟩

/-! ## The values -/

/-- `DRM_IOCTL_MODE_OBJ_SETPROPERTY`. -/
structure SetProperty where
  objId : UInt32
  propId : UInt32
  value : UInt64
deriving DecidableEq, Repr

/-- What is set for a row. -/
def Row.setOn (plane : UInt32) (row : Row) : List SetProperty :=
  [Kind.encoding, Kind.range].filterMap fun kind =>
    if row.ids kind ≠ 0 then some ⟨plane, row.ids kind, row.values kind⟩ else none

/-- The array `calloc` returns. -/
def noEnums : Fin 10 → PropertyEnum := fun _ => ⟨.ofString "", 0⟩

/-- `setPlanesColorFormat`, for the ids of the planes in `new_planes`. -/
def setPlanesColorFormat (K : Kernel) (newPlanes : Fin 2 → Option UInt32) : Option (List SetProperty) := do
  let s0 ← searchPlane K (newPlanes 0) noEnums
  let s1 ← searchPlane K (newPlanes 1) s0.enums
  pure (((newPlanes 0).elim [] fun plane => s0.row.setOn plane) ++ (newPlanes 1).elim [] fun plane => s1.row.setOn plane)

/-- The property is one of the plane's; no property has the id 0. -/
def HasProperty (K : Kernel) (plane id : UInt32) (p : Property) : Prop :=
  id ≠ 0 ∧ ∃ ids, K.getProperties plane = some ids ∧ id ∈ ids ∧ K.getProperty id = some p

/-- What is set is what the properties ask for. -/
structure ColorsSet (K : Kernel) (newPlanes : Fin 2 → Option UInt32) (calls : List SetProperty) : Prop where
  sound : ∀ c ∈ calls, ∃ i kind p, newPlanes i = some c.objId ∧ HasProperty K c.objId c.propId p ∧ p.name = kind.name ∧
    ∃ e ∈ p.enums, e.isFor kind = true ∧ c.value = e.value
  complete : ∀ i kind plane id p, newPlanes i = some plane → HasProperty K plane id p → p.name = kind.name →
    (∃ e ∈ p.enums.take 10, e.isFor kind = true) →
    ∃ e ∈ p.enums, e.isFor kind = true ∧ ⟨plane, id, e.value⟩ ∈ calls

/-! ## What is found where -/

/-- The id and the answer for a property that is read. -/
abbrev Answer := UInt32 × Property

/-- What is read for an entry of `props_ptr`; `none` is that it is skipped. -/
def answer (K : Kernel) (id : UInt32) : Option Answer := if id = 0 then none else (K.getProperty id).map (id, ·)

/-- The properties of the plane in an entry of `new_planes`. -/
def planeAnswers (K : Kernel) (plane : Option UInt32) : List (Option Answer) :=
  ((plane.bind K.getProperties).getD []).map (answer K)

/-- Those that were read. -/
def readOnes (as : List (Option Answer)) : List Property := as.filterMap (·.map Prod.snd)

/-- One of the first `n` entries of the property is for the kind. -/
def Property.Has (p : Property) (n : Nat) (kind : Kind) : Prop := ∃ e ∈ p.enums.take n, e.isFor kind = true

/-- A place of the five that the property has no entry for is for the kind: the last one
before it with an entry for the place has one for the kind. -/
def LeftOver (kind : Kind) (before : List Property) (p : Property) : Prop :=
  ∃ k < 5, p.enums.length ≤ k ∧ ∃ pre q post e, before = pre ++ q :: post ∧ q.enums[k]? = some e ∧
    e.isFor kind = true ∧ ∀ r ∈ post, r.enums.length ≤ k

/-- An entry for the kind is found at the property, its own or one left over. -/
def Found (kind : Kind) (before : List Property) (p : Property) : Prop :=
  p.name = kind.name ∧ (p.Has 5 kind ∨ LeftOver kind before p)

/-- One is found at one of these properties of a plane. -/
def FoundIn (kind : Kind) (before : List Property) (as : List (Option Answer)) : Prop :=
  ∃ pre a post, as = pre ++ some a :: post ∧ Found kind (before ++ readOnes pre) a.2

/-- One is found for both kinds. -/
def BothIn (before : List Property) (as : List (Option Answer)) : Prop := ∀ kind, FoundIn kind before as

/-- The properties of a plane up to the first by which both kinds have been found, or all
of them. -/
structure GoneThrough (before : List Property) (as gone : List (Option Answer)) : Prop where
  isPrefix : gone <+: as
  goesOn : ∀ pre, pre <+: gone → pre ≠ gone → ¬ BothIn before pre
  ends : gone = as ∨ BothIn before gone

/-- The properties read before those of a plane. -/
def readBefore (gone : Fin 2 → List (Option Answer)) : Fin 2 → List Property
  | 0 => []
  | 1 => readOnes (gone 0)

/-- The lists of properties with which all entries that are found, and those only, are the
properties' own. -/
structure EntriesOwn (K : Kernel) (newPlanes : Fin 2 → Option UInt32) (gone : Fin 2 → List (Option Answer)) : Prop where
  through : ∀ i, GoneThrough (readBefore gone i) (planeAnswers K (newPlanes i)) (gone i)
  /-- A plane has 500 properties at most, or both kinds are found among the first 500. -/
  room : ∀ i, (planeAnswers K (newPlanes i)).length ≤ 500 ∨
    BothIn (readBefore gone i) ((planeAnswers K (newPlanes i)).take 500)
  /-- Behind a property for which only an entry left over is found comes another of this
  name with one of its own among the first five. -/
  own : ∀ i kind pre a post, gone i = pre ++ some a :: post → a.2.name = kind.name → ¬ a.2.Has 5 kind →
    LeftOver kind (readBefore gone i ++ readOnes pre) a.2 → ∃ b, some b ∈ post ∧ b.2.name = kind.name ∧ b.2.Has 5 kind
  /-- A property with an entry among the ten read has one among the five looked at, is gone
  through, and behind it none is found for this kind. -/
  last : ∀ i kind a, some a ∈ planeAnswers K (newPlanes i) → a.2.name = kind.name → a.2.Has 10 kind →
    a.2.Has 5 kind ∧ ∃ i' pre post, newPlanes i' = newPlanes i ∧ gone i' = pre ++ some a :: post ∧
      ¬ FoundIn kind (readBefore gone i' ++ readOnes pre ++ [a.2]) post

/-! ## What is read and seen -/

/-- The first of the entries looked at that is for the kind, when these properties have
been read: an entry of the last of them, or one that was left there. -/
def firstFor (kind : Kind) (read : List Property) : Option PropertyEnum :=
  scanned.findSome? fun k => (leftAt (read.map (·.enums)) k.val).filter (·.isFor kind)

/-- What is seen for the kind at a property, after those that were read before. -/
def sees (kind : Kind) (read : List Property) (p : Property) : Option PropertyEnum :=
  if p.name = kind.name then firstFor kind (read ++ [p]) else none

/-- The last property at which something is seen for the kind, and what it is. -/
def lastSeen (kind : Kind) (read : List Property) : List (Option Answer) → Option (Answer × PropertyEnum)
  | [] => none
  | none :: as => lastSeen kind read as
  | some a :: as => (lastSeen kind (read ++ [a.2]) as).or ((sees kind read a.2).map (a, ·))

/-- Something has been seen for both kinds. -/
def Both (read : List Property) (as : List (Option Answer)) : Prop := ∀ kind, (lastSeen kind read as).isSome

instance (read : List Property) (as : List (Option Answer)) : Decidable (Both read as) :=
  decidable_of_iff ((lastSeen .encoding read as).isSome ∧ (lastSeen .range read as).isSome)
    ⟨fun h kind => by cases kind <;> simp [h], fun h => ⟨h .encoding, h .range⟩⟩

/-- The properties of a plane that are read when these have been, one after the other
until something has been seen for both kinds. -/
def readFrom (read : List Property) (got : List (Option Answer)) : List (Option Answer) → List (Option Answer)
  | [] => got
  | a :: as => if Both read (got ++ [a]) then got ++ [a] else readFrom read (got ++ [a]) as

variable {K : Kernel} {kind : Kind} {read : List Property} {got as : List (Option Answer)} {a : Answer}
  {e : PropertyEnum}

theorem readOnes_append_some (a : Answer) : readOnes (got ++ [some a]) = readOnes got ++ [a.2] := by
  simp [readOnes]

theorem readOnes_append_none : readOnes (got ++ [none]) = readOnes got := by
  simp [readOnes]

theorem lastSeen_append_none : lastSeen kind read (got ++ [none]) = lastSeen kind read got := by
  induction got generalizing read with
  | nil => rfl
  | cons b got ih =>
    cases b with
    | none => exact ih
    | some b => rw [List.cons_append, lastSeen, ih, lastSeen]

theorem lastSeen_append_some (a : Answer) :
    lastSeen kind read (got ++ [some a]) =
      ((sees kind (read ++ readOnes got) a.2).map (a, ·)).or (lastSeen kind read got) := by
  induction got generalizing read with
  | nil => simp [lastSeen, readOnes]
  | cons b got ih =>
    cases b with
    | none =>
      rw [List.cons_append, lastSeen, ih, lastSeen]
      rfl
    | some b =>
      rw [List.cons_append, lastSeen, ih, lastSeen, Option.or_assoc, List.append_assoc]
      rfl

/-- What is last seen is seen where it is, and nothing is after it. -/
theorem lastSeen_eq_some_iff :
    lastSeen kind read as = some (a, e) ↔
      ∃ pre post, as = pre ++ some a :: post ∧ sees kind (read ++ readOnes pre) a.2 = some e ∧
        lastSeen kind (read ++ readOnes pre ++ [a.2]) post = none := by
  induction as generalizing read with
  | nil =>
    refine iff_of_false (Option.some_ne_none _ ·.symm) ?_
    rintro ⟨pre, post, h, -⟩
    exact absurd h (by simp)
  | cons b as ih =>
    cases b with
    | none =>
      rw [lastSeen, ih]
      constructor
      · rintro ⟨pre, post, rfl, hs, hpost⟩
        exact ⟨none :: pre, post, rfl, hs, hpost⟩
      · rintro ⟨pre, post, h, hs, hpost⟩
        rcases List.cons_eq_append_iff.1 h with ⟨-, h⟩ | ⟨pre, rfl, rfl⟩
        · cases h
        · exact ⟨pre, post, rfl, hs, hpost⟩
    | some b =>
      have hassoc (pre : List (Option Answer)) : read ++ [b.2] ++ readOnes pre = read ++ readOnes (some b :: pre) :=
        List.append_assoc ..
      rw [lastSeen, Option.or_eq_some_iff, ih]
      constructor
      · rintro (⟨pre, post, rfl, hs, hpost⟩ | ⟨hnone, hs⟩)
        · rw [hassoc] at hs hpost
          exact ⟨some b :: pre, post, rfl, hs, hpost⟩
        · obtain ⟨e', hs, he⟩ := Option.map_eq_some_iff.1 hs
          cases he
          exact ⟨[], as, rfl, by rwa [readOnes, List.filterMap_nil, List.append_nil],
            by rwa [readOnes, List.filterMap_nil, List.append_nil]⟩
      · rintro ⟨pre, post, h, hs, hpost⟩
        rcases List.cons_eq_append_iff.1 h with ⟨rfl, h⟩ | ⟨pre, rfl, rfl⟩
        · cases h
          rw [readOnes, List.filterMap_nil, List.append_nil] at hs hpost
          exact .inr ⟨hpost, by rw [hs]; rfl⟩
        · rw [← hassoc] at hs hpost
          exact .inl ⟨pre, post, rfl, hs, hpost⟩

theorem lastSeen_mem (h : lastSeen kind read as = some (a, e)) :
    some a ∈ as ∧ ∃ read', sees kind read' a.2 = some e := by
  obtain ⟨pre, post, rfl, hs, -⟩ := lastSeen_eq_some_iff.1 h
  exact ⟨List.mem_append_right _ (List.mem_cons_self ..), _, hs⟩

theorem exists_append_readFrom (read : List Property) (got as : List (Option Answer)) :
    ∃ more rest, readFrom read got as = got ++ more ∧ as = more ++ rest := by
  induction as generalizing got with
  | nil => exact ⟨[], [], (List.append_nil got).symm, rfl⟩
  | cons a as ih =>
    rw [readFrom]
    split
    · exact ⟨[a], as, rfl, rfl⟩
    · obtain ⟨more, rest, h, hrest⟩ := ih (got ++ [a])
      exact ⟨a :: more, rest, by rw [h, List.append_assoc]; rfl, by rw [hrest]; rfl⟩

/-! ## The search sees it -/

theorem isFor_noEnums (kind : Kind) (k : Fin 10) : (noEnums k).isFor kind = false := by
  cases kind <;> rfl

/-- The array holds what was left, and nothing is seen in it before. -/
theorem find_scanned (read : List Property) (ks : List (Fin 10)) :
    (ks.find? fun k => (refills (read.map (·.enums)) noEnums k).isFor kind).map (refills (read.map (·.enums)) noEnums) =
      ks.findSome? fun k => (leftAt (read.map (·.enums)) k.val).filter (·.isFor kind) := by
  induction ks with
  | nil => rfl
  | cons k ks ih =>
    rw [List.find?_cons, List.findSome?_cons, ← ih]
    have hk : refills (read.map (·.enums)) noEnums k = (leftAt (read.map (·.enums)) k.val).getD (noEnums k) :=
      refills_apply ..
    cases hl : leftAt (read.map (·.enums)) k.val with
    | none =>
      rw [hl, Option.getD_none] at hk
      rw [hk, isFor_noEnums]
      rfl
    | some e =>
      rw [hl, Option.getD_some] at hk
      rw [hk]
      cases hf : e.isFor kind with
      | true =>
        have hp : (some e).filter (PropertyEnum.isFor · kind) = some e := by rw [Option.filter_some, hf, if_pos rfl]
        rw [hp, Option.map_some, hk]
      | false =>
        have hp : (some e).filter (PropertyEnum.isFor · kind) = none := by
          rw [Option.filter_some, hf, if_neg Bool.false_ne_true]
        rw [hp]

/-- The entries of a row for a kind. -/
def Row.column (row : Row) (kind : Kind) : UInt32 × UInt64 := (row.ids kind, row.values kind)

/-- The state of the search after what it has got: the array, and the row. -/
structure Tracks (read : List Property) (got : List (Option Answer)) (s : Search) : Prop where
  enums : s.enums = refills ((read ++ readOnes got).map (·.enums)) noEnums
  column : ∀ kind, s.row.column kind = ((lastSeen kind read got).map fun (a, e) => (a.1, e.value)).getD (0, 0)
  nonzero : ∀ a, some a ∈ got → a.1 ≠ 0

theorem tracks_nil (read : List Property) :
    Tracks read [] ⟨refills (read.map (·.enums)) noEnums, fun _ => 0, fun _ => 0⟩ where
  enums := by rw [readOnes, List.filterMap_nil, List.append_nil]
  column _ := rfl
  nonzero _ h := absurd h List.not_mem_nil

theorem Tracks.none {s : Search} (h : Tracks read got s) : Tracks read (got ++ [none]) s where
  enums := by rw [readOnes_append_none, h.enums]
  column kind := by rw [lastSeen_append_none, h.column]
  nonzero a ha := h.nonzero a (by simpa using ha)

/-- The section for a kind. -/
theorem lookFor_eq (kind : Kind) (id : UInt32) (p : Property) (row : Row) :
    row.lookFor kind id p (refills ((read ++ [p]).map (·.enums)) noEnums) =
      match sees kind read p with
      | some e => ⟨Function.update row.ids kind id, Function.update row.values kind e.value⟩
      | none => row := by
  unfold Row.lookFor sees
  by_cases hp : p.name = kind.name
  · rw [if_pos hp, if_pos hp, firstFor, ← find_scanned]
    cases scanned.find? fun k => (refills ((read ++ [p]).map (·.enums)) noEnums k).isFor kind with
    | none => rfl
    | some k => rfl
  · rw [if_neg hp, if_neg hp]

/-- It leaves the other column as it is. -/
theorem lookFor_column (kind kind' : Kind) (id : UInt32) (p : Property) (row : Row) :
    (row.lookFor kind' id p (refills ((read ++ [p]).map (·.enums)) noEnums)).column kind =
      if kind = kind' then ((sees kind read p).map fun e => (id, e.value)).getD (row.column kind)
      else row.column kind := by
  rw [lookFor_eq]
  by_cases hk : kind = kind'
  · subst hk
    rw [if_pos rfl]
    cases sees kind read p with
    | none => rfl
    | some e => exact Prod.ext (Function.update_self ..) (Function.update_self ..)
  · rw [if_neg hk]
    cases sees kind' read p with
    | none => rfl
    | some e => exact Prod.ext (Function.update_of_ne hk ..) (Function.update_of_ne hk ..)

theorem Tracks.property {s : Search} (h : Tracks read got s) {id : UInt32} (hid : id ≠ 0) (p : Property) :
    Tracks read (got ++ [some (id, p)]) (s.property id p) := by
  have henums : refill p.enums s.enums = refills ((read ++ readOnes got ++ [p]).map (·.enums)) noEnums := by
    rw [List.map_append, h.enums, List.map_singleton, refills_append]
  have hrow : (s.property id p).row =
      (s.row.lookFor .encoding id p (refills ((read ++ readOnes got ++ [p]).map (·.enums)) noEnums)).lookFor .range id p
        (refills ((read ++ readOnes got ++ [p]).map (·.enums)) noEnums) := by
    rw [← henums]
    rfl
  constructor
  case enums =>
    rw [readOnes_append_some, ← List.append_assoc]
    exact henums
  case column =>
    intro kind
    -- Each kind is looked for in one of the two sections.
    have hcolumn : (s.property id p).row.column kind =
        ((sees kind (read ++ readOnes got) p).map fun e => (id, e.value)).getD (s.row.column kind) := by
      rw [hrow, lookFor_column, lookFor_column]
      cases kind <;> rfl
    rw [hcolumn, lastSeen_append_some, h.column]
    cases sees kind (read ++ readOnes got) p <;> rfl
  case nonzero =>
    intro a ha
    rcases List.mem_append.1 ha with ha | ha
    · exact h.nonzero a ha
    · cases List.mem_singleton.1 ha
      exact hid

/-- The column of a kind is that of the property it was last seen at. -/
theorem Tracks.column_eq {s : Search} (h : Tracks read got s) (hs : lastSeen kind read got = some (a, e)) :
    s.row.ids kind = a.1 ∧ s.row.values kind = e.value := by
  have hcolumn := h.column kind
  rw [hs] at hcolumn
  exact Prod.ext_iff.1 hcolumn

theorem Tracks.ids_ne_zero {s : Search} (h : Tracks read got s) (kind : Kind) :
    s.row.ids kind ≠ 0 ↔ (lastSeen kind read got).isSome := by
  cases hs : lastSeen kind read got with
  | none =>
    have hcolumn := h.column kind
    rw [hs] at hcolumn
    exact iff_of_false (not_not.2 (congrArg Prod.fst hcolumn)) Bool.false_ne_true
  | some ae =>
    rw [(h.column_eq hs).1]
    exact iff_of_true (h.nonzero ae.1 (lastSeen_mem hs).1) rfl

theorem Tracks.both {s : Search} (h : Tracks read got s) :
    (s.row.ids .encoding ≠ 0 ∧ s.row.ids .range ≠ 0) ↔ Both read got := by
  rw [h.ids_ne_zero, h.ids_ne_zero]
  exact ⟨fun hb kind => by cases kind; exacts [hb.1, hb.2], fun hb => ⟨hb .encoding, hb .range⟩⟩

theorem le_length_readFrom (read : List Property) (got as : List (Option Answer)) :
    got.length ≤ (readFrom read got as).length := by
  obtain ⟨more, -, h, -⟩ := exists_append_readFrom read got as
  rw [h, List.length_append]
  exact Nat.le_add_right ..

theorem answer_eq_some {id : UInt32} (h : answer K id = some a) : a.1 = id ∧ id ≠ 0 ∧ K.getProperty id = some a.2 := by
  unfold answer at h
  split at h
  · cases h
  · rename_i hid
    obtain ⟨p, hp, rfl⟩ := Option.map_eq_some_iff.1 h
    exact ⟨rfl, hid, hp⟩

theorem searchProperties_cons {j : Nat} (hj : j < 500) (id : UInt32) (ids : List UInt32) (s : Search) :
    searchProperties K j (id :: ids) s =
      match answer K id with
      | none => searchProperties K (j + 1) ids s
      | some a =>
        let s := s.property a.1 a.2
        if s.row.ids .encoding ≠ 0 ∧ s.row.ids .range ≠ 0 then some s else searchProperties K (j + 1) ids s := by
  rw [searchProperties, if_neg (Nat.not_le.2 hj), answer]
  by_cases hid : id = 0
  · rw [if_pos hid, if_pos hid]
  · rw [if_neg hid, if_neg hid]
    cases K.getProperty id <;> rfl

/-- The loop goes on as long as there is room. -/
theorem searchProperties_spec (ids : List UInt32) {s : Search} (h : Tracks read got s) (hb : ¬ Both read got)
    (hroom : got.length ≤ 500) :
    ((readFrom read got (ids.map (answer K))).length ≤ 500 ∧
      ∃ s', searchProperties K got.length ids s = some s' ∧ Tracks read (readFrom read got (ids.map (answer K))) s') ∨
    (500 < (readFrom read got (ids.map (answer K))).length ∧ searchProperties K got.length ids s = none) := by
  induction ids generalizing got s with
  | nil => exact .inl ⟨hroom, s, rfl, h⟩
  | cons id ids ih =>
    rw [List.map_cons, readFrom]
    have hlen : (got ++ [answer K id]).length = got.length + 1 := List.length_append
    rcases Nat.lt_or_ge got.length 500 with hj | hj
    · rw [searchProperties_cons hj, ← hlen]
      cases ha : answer K id with
      | none =>
        rw [ha] at hlen
        have hb' : ¬ Both read (got ++ [none]) := fun hall => hb fun kind => lastSeen_append_none ▸ hall kind
        rw [if_neg hb']
        exact ih h.none hb' (hlen ▸ hj)
      | some a =>
        rw [ha] at hlen
        have ht : Tracks read (got ++ [some a]) (s.property a.1 a.2) := by
          obtain ⟨haid, hid, -⟩ := answer_eq_some ha
          exact h.property (haid ▸ hid) a.2
        by_cases hb' : Both read (got ++ [some a])
        · rw [if_pos hb']
          exact .inl ⟨hlen ▸ hj, _, if_pos (ht.both.2 hb'), ht⟩
        · simp only [if_neg hb', if_neg (ht.both.not.2 hb')]
          exact ih ht hb' (hlen ▸ hj)
    · right
      constructor
      · split
        · exact hlen ▸ Nat.lt_succ_of_le hj
        · exact Nat.lt_of_lt_of_le (hlen ▸ Nat.lt_succ_of_le hj) (le_length_readFrom ..)
      · exact if_pos hj

/-! ## Both planes -/

variable {newPlanes : Fin 2 → Option UInt32} {plane : Option UInt32} {i : Fin 2}

/-- What has been read before the first property of a plane. -/
def before (K : Kernel) (newPlanes : Fin 2 → Option UInt32) : Fin 2 → List Property
  | 0 => []
  | 1 => readOnes (readFrom [] [] (planeAnswers K (newPlanes 0)))

/-- The properties of a plane that are read. -/
def looked (K : Kernel) (newPlanes : Fin 2 → Option UInt32) (i : Fin 2) : List (Option Answer) :=
  readFrom (before K newPlanes i) [] (planeAnswers K (newPlanes i))

/-- The property is the last one seen for the kind on the plane, with this entry. -/
def LastSeen (K : Kernel) (newPlanes : Fin 2 → Option UInt32) (i : Fin 2) (kind : Kind) (a : Answer) (e : PropertyEnum) :
    Prop :=
  lastSeen kind (before K newPlanes i) (looked K newPlanes i) = some (a, e)

theorem searchPlane_spec (plane : Option UInt32) (read : List Property) :
    ((readFrom read [] (planeAnswers K plane)).length ≤ 500 ∧
      ∃ s, searchPlane K plane (refills (read.map (·.enums)) noEnums) = some s ∧
        Tracks read (readFrom read [] (planeAnswers K plane)) s) ∨
    (500 < (readFrom read [] (planeAnswers K plane)).length ∧
      searchPlane K plane (refills (read.map (·.enums)) noEnums) = none) := by
  unfold searchPlane planeAnswers
  cases plane.bind K.getProperties with
  | none => exact .inl ⟨Nat.zero_le _, _, rfl, tracks_nil read⟩
  | some ids => exact searchProperties_spec ids (tracks_nil read) (fun h => Bool.noConfusion (h .range)) (Nat.zero_le _)

theorem Tracks.mem_setOn {s : Search} (h : Tracks read got s) {plane : UInt32} {c : SetProperty} :
    c ∈ s.row.setOn plane ↔ ∃ kind a e, lastSeen kind read got = some (a, e) ∧ c = ⟨plane, a.1, e.value⟩ := by
  have hmem : c ∈ s.row.setOn plane ↔ ∃ kind, s.row.ids kind ≠ 0 ∧ c = ⟨plane, s.row.ids kind, s.row.values kind⟩ := by
    unfold Row.setOn
    rw [List.mem_filterMap]
    constructor
    · rintro ⟨kind, -, hk⟩
      split at hk
      · exact ⟨kind, ‹_›, (Option.some.inj hk).symm⟩
      · cases hk
    · rintro ⟨kind, hk, rfl⟩
      exact ⟨kind, by cases kind <;> decide, if_pos hk⟩
  rw [hmem]
  refine exists_congr fun kind => ?_
  rw [h.ids_ne_zero]
  constructor
  · rintro ⟨hsome, rfl⟩
    obtain ⟨⟨a, e⟩, hs⟩ := Option.isSome_iff_exists.1 hsome
    rw [(h.column_eq hs).1, (h.column_eq hs).2]
    exact ⟨a, e, hs, rfl⟩
  · rintro ⟨a, e, hs, rfl⟩
    rw [(h.column_eq hs).1, (h.column_eq hs).2, hs]
    exact ⟨rfl, rfl⟩

/-- The calls for an entry of `new_planes`. -/
theorem Tracks.mem_elim {s : Search} (h : Tracks read got s) (plane : Option UInt32) (c : SetProperty) :
    c ∈ plane.elim [] (fun plane => s.row.setOn plane) ↔
      ∃ kind a e, plane = some c.objId ∧ lastSeen kind read got = some (a, e) ∧ c.propId = a.1 ∧ c.value = e.value := by
  cases plane with
  | none => exact ⟨fun h0 => absurd h0 List.not_mem_nil, fun ⟨_, _, _, h0, _⟩ => nomatch h0⟩
  | some plane =>
    rw [Option.elim_some, h.mem_setOn]
    constructor
    · rintro ⟨kind, a, e, hs, rfl⟩
      exact ⟨kind, a, e, rfl, hs, rfl, rfl⟩
    · rintro ⟨kind, a, e, hp, hs, hid, hv⟩
      obtain ⟨obj, id, v⟩ := c
      cases hp
      cases hid
      cases hv
      exact ⟨kind, a, e, hs, rfl⟩

/-- What is set, if the properties are read at all. -/
theorem setPlanesColorFormat_spec (K : Kernel) (newPlanes : Fin 2 → Option UInt32) :
    ((∀ i, (looked K newPlanes i).length ≤ 500) ∧ ∃ calls, setPlanesColorFormat K newPlanes = some calls ∧
      ∀ c, c ∈ calls ↔ ∃ i kind a e, newPlanes i = some c.objId ∧ LastSeen K newPlanes i kind a e ∧
        c.propId = a.1 ∧ c.value = e.value) ∨
    ((¬ ∀ i, (looked K newPlanes i).length ≤ 500) ∧ setPlanesColorFormat K newPlanes = none) := by
  rw [Fin.forall_fin_two]
  unfold setPlanesColorFormat
  rcases searchPlane_spec (newPlanes 0) [] (K := K) with ⟨h0, s0, hs0, ht0⟩ | ⟨h0, hs0⟩
  · have henums : s0.enums = refills ((before K newPlanes 1).map (·.enums)) noEnums := ht0.enums
    have hs0 : searchPlane K (newPlanes 0) noEnums = some s0 := hs0
    rw [hs0, Option.bind_eq_bind, Option.bind_some, henums]
    rcases searchPlane_spec (newPlanes 1) (before K newPlanes 1) (K := K) with ⟨h1, s1, hs1, ht1⟩ | ⟨h1, hs1⟩
    · rw [hs1, Option.bind_some]
      refine .inl ⟨⟨h0, h1⟩, _, rfl, fun c => ?_⟩
      rw [List.mem_append, ht0.mem_elim, ht1.mem_elim, Fin.exists_fin_two]
      rfl
    · rw [hs1]
      exact .inr ⟨fun h => absurd h.2 (Nat.not_le.2 h1), rfl⟩
  · have hs0 : searchPlane K (newPlanes 0) noEnums = none := hs0
    rw [hs0]
    exact .inr ⟨fun h => absurd h.1 (Nat.not_le.2 h0), rfl⟩

/-! ## Own entries -/

theorem Kind.name_injective {kind kind' : Kind} (h : kind.name = kind'.name) : kind = kind' := by
  cases kind <;> cases kind' <;> first | rfl | exact absurd h (by decide)

theorem mem_scanned (k : Fin 10) : k ∈ scanned ↔ k.val < 5 := by
  revert k
  decide

/-- The entry is the first of those there that is for the kind. -/
theorem firstFor_eq_some (h : firstFor kind read = some e) :
    ∃ k < 5, leftAt (read.map (·.enums)) k = some e ∧ e.isFor kind = true ∧
      ∀ k' < k, ∀ e', leftAt (read.map (·.enums)) k' = some e' → e'.isFor kind = false := by
  obtain ⟨l, k, l', hl, hk, hbefore⟩ := List.findSome?_eq_some_iff.1 h
  obtain ⟨hleft, hfor⟩ := Option.filter_eq_some_iff.1 hk
  have hmem : k ∈ scanned := by
    rw [hl]
    exact List.mem_append_right _ (List.mem_cons_self ..)
  refine ⟨k, (mem_scanned k).1 hmem, hleft, hfor, fun k' hk' e' he' => ?_⟩
  have hmem' : (⟨k', hk'.trans k.isLt⟩ : Fin 10) ∈ l ++ k :: l' := by
    rw [← hl, mem_scanned]
    exact hk'.trans ((mem_scanned k).1 hmem)
  have hsorted : (l ++ k :: l').Pairwise (· < ·) := by
    rw [← hl]
    decide
  have hk'l : (⟨k', hk'.trans k.isLt⟩ : Fin 10) ∈ l := by
    rcases List.mem_append.1 hmem' with hin | hin
    · exact hin
    · have hlater := List.pairwise_cons.1 (List.pairwise_append.1 hsorted).2.1
      rcases List.mem_cons.1 hin with heq | hin
      · exact absurd (Fin.val_eq_of_eq heq) hk'.ne
      · exact absurd (Fin.lt_def.1 (hlater.1 _ hin)) (Nat.lt_asymm hk')
  have hnone := Option.filter_eq_none_iff.1 (hbefore _ hk'l) e' he'
  exact Bool.eq_false_iff.2 hnone

/-- Among five entries of its own, one that is for the kind is found first. -/
theorem firstFor_own {p : Property} (h : firstFor kind (read ++ [p]) = some e)
    (hown : ∃ e' ∈ p.enums.take 5, e'.isFor kind = true) : e ∈ p.enums ∧ e.isFor kind = true := by
  obtain ⟨k, -, hleft, hfor, hfirst⟩ := firstFor_eq_some h
  rw [List.map_append, List.map_singleton] at hleft hfirst
  refine ⟨?_, hfor⟩
  rcases Nat.lt_or_ge k p.enums.length with hk | hk
  · rw [leftAt_append_of_lt _ hk] at hleft
    exact Option.some.inj hleft ▸ List.getElem_mem hk
  · obtain ⟨e', he', hfor'⟩ := hown
    obtain ⟨m, hm, rfl⟩ := List.getElem_of_mem (List.mem_of_mem_take he')
    have hno := hfirst m (hm.trans_le hk) _ (leftAt_append_of_lt _ hm)
    rw [hfor'] at hno
    exact Bool.noConfusion hno

/-- If what is found is not the property's own, then it has no other that is for the kind. -/
theorem firstFor_not_own {p : Property} (h : firstFor kind (read ++ [p]) = some e)
    (hown : ∃ e' ∈ p.enums, e'.isFor kind = true) : ∃ e' ∈ p.enums.take 5, e'.isFor kind = true := by
  obtain ⟨k, hk5, hleft, hfor, -⟩ := firstFor_eq_some h
  rw [List.map_append, List.map_singleton] at hleft
  rcases Nat.lt_or_ge k p.enums.length with hk | hk
  · rw [leftAt_append_of_lt _ hk] at hleft
    cases hleft
    exact ⟨_, List.mem_take_iff_getElem.2 ⟨k, lt_min hk5 hk, rfl⟩, hfor⟩
  · rwa [List.take_of_length_le (hk.trans hk5.le)]

/-- What has been seen at a property was its kind. -/
theorem name_of_sees {p : Property} (h : sees kind read p = some e) :
    p.name = kind.name ∧ firstFor kind (read ++ [p]) = some e := by
  unfold sees at h
  split at h
  · exact ⟨‹_›, h⟩
  · cases h

theorem mem_planeAnswers : some a ∈ planeAnswers K plane ↔ ∃ id, plane = some id ∧ HasProperty K id a.1 a.2 := by
  unfold planeAnswers
  rw [List.mem_map]
  constructor
  · rintro ⟨id, hid, ha⟩
    obtain ⟨rfl, hne, hp⟩ := answer_eq_some ha
    cases hids : plane.bind K.getProperties with
    | none =>
      rw [hids] at hid
      exact absurd hid List.not_mem_nil
    | some ids =>
      obtain ⟨plane, rfl, hget⟩ := Option.bind_eq_some_iff.1 hids
      rw [hids] at hid
      exact ⟨plane, rfl, hne, ids, hget, hid, hp⟩
  · rintro ⟨plane, rfl, hid, ids, hget, hin, hprop⟩
    rw [Option.bind_some, hget]
    exact ⟨a.1, hin, by rw [answer, if_neg hid, hprop]; rfl⟩

theorem HasProperty.unique {plane plane' id : UInt32} {p p' : Property} (h : HasProperty K plane id p)
    (h' : HasProperty K plane' id p') : p = p' := by
  obtain ⟨-, -, -, -, hp⟩ := h
  obtain ⟨-, -, -, -, hp'⟩ := h'
  exact Option.some.inj (hp.symm.trans hp')

/-! ## What is found is seen -/

/-- What is left at a place behind the property's own entries. -/
theorem leftAt_eq_some_iff_of_le {p : Property} {k : Nat} (hk : p.enums.length ≤ k) :
    leftAt ((read ++ [p]).map (·.enums)) k = some e ↔
      ∃ pre q post, read = pre ++ q :: post ∧ q.enums[k]? = some e ∧ ∀ r ∈ post, r.enums.length ≤ k := by
  rw [List.map_append, List.map_singleton, leftAt_append_of_le _ hk, leftAt_eq_some_iff]
  constructor
  · rintro ⟨pre, es, post, hread, he, hpost⟩
    obtain ⟨pre', rest, rfl, rfl, hrest⟩ := List.map_eq_append_iff.1 hread
    obtain ⟨q, post', rfl, rfl, rfl⟩ := List.map_eq_cons_iff.1 hrest
    exact ⟨pre', q, post', rfl, he, fun r hr => hpost _ (List.mem_map_of_mem hr)⟩
  · rintro ⟨pre, q, post, rfl, he, hpost⟩
    refine ⟨pre.map (·.enums), q.enums, post.map (·.enums), by rw [List.map_append, List.map_cons], he, ?_⟩
    simpa using hpost

theorem firstFor_isSome_iff {p : Property} :
    (firstFor kind (read ++ [p])).isSome ↔ p.Has 5 kind ∨ LeftOver kind read p := by
  have hplaces : (firstFor kind (read ++ [p])).isSome ↔
      ∃ k < 5, ∃ e, leftAt ((read ++ [p]).map (·.enums)) k = some e ∧ e.isFor kind = true := by
    unfold firstFor
    rw [List.findSome?_isSome_iff]
    constructor
    · rintro ⟨k, hk, hsome⟩
      obtain ⟨e, he⟩ := Option.isSome_iff_exists.1 hsome
      obtain ⟨hleft, hfor⟩ := Option.filter_eq_some_iff.1 he
      exact ⟨k, (mem_scanned k).1 hk, e, hleft, hfor⟩
    · rintro ⟨k, hk, e, hleft, hfor⟩
      refine ⟨⟨k, by omega⟩, (mem_scanned _).2 hk, ?_⟩
      rw [hleft, Option.filter_some, if_pos hfor]
      rfl
  rw [hplaces]
  constructor
  · rintro ⟨k, hk5, e, hleft, hfor⟩
    rcases Nat.lt_or_ge k p.enums.length with hk | hk
    · rw [List.map_append, List.map_singleton, leftAt_append_of_lt _ hk] at hleft
      cases hleft
      exact .inl ⟨_, List.mem_take_iff_getElem.2 ⟨k, lt_min hk5 hk, rfl⟩, hfor⟩
    · obtain ⟨pre, q, post, hread, he, hpost⟩ := (leftAt_eq_some_iff_of_le hk).1 hleft
      exact .inr ⟨k, hk5, hk, pre, q, post, e, hread, he, hfor, hpost⟩
  · rintro (⟨e, he, hfor⟩ | ⟨k, hk5, hk, pre, q, post, e, hread, he, hfor, hpost⟩)
    · obtain ⟨k, hk, rfl⟩ := List.mem_take_iff_getElem.1 he
      refine ⟨k, hk.trans_le (min_le_left ..), _, ?_, hfor⟩
      rw [List.map_append, List.map_singleton]
      exact leftAt_append_of_lt _ (hk.trans_le (min_le_right ..))
    · exact ⟨k, hk5, e, (leftAt_eq_some_iff_of_le hk).2 ⟨pre, q, post, hread, he, hpost⟩, hfor⟩

theorem sees_isSome_iff {p : Property} : (sees kind read p).isSome ↔ Found kind read p := by
  unfold sees Found
  by_cases hp : p.name = kind.name
  · rw [if_pos hp, firstFor_isSome_iff]
    simp [hp]
  · simp [hp]

/-- What is last seen behind a place is last seen of all. -/
theorem lastSeen_split (pre : List (Option Answer)) (a : Answer) (post : List (Option Answer)) :
    lastSeen kind read (pre ++ some a :: post) =
      ((lastSeen kind (read ++ readOnes pre ++ [a.2]) post).or
        ((sees kind (read ++ readOnes pre) a.2).map (a, ·))).or (lastSeen kind read pre) := by
  induction pre generalizing read with
  | nil => simp [lastSeen, readOnes]
  | cons b pre ih =>
    cases b with
    | none => exact ih
    | some b =>
      rw [List.cons_append, lastSeen, ih, lastSeen, Option.or_assoc]
      have hassoc : read ++ [b.2] ++ readOnes pre = read ++ readOnes (some b :: pre) := List.append_assoc ..
      rw [hassoc]

theorem foundIn_iff : (lastSeen kind read as).isSome ↔ FoundIn kind read as := by
  constructor
  · intro h
    obtain ⟨⟨a, e⟩, hs⟩ := Option.isSome_iff_exists.1 h
    obtain ⟨pre, post, has, hsees, -⟩ := lastSeen_eq_some_iff.1 hs
    exact ⟨pre, a, post, has, sees_isSome_iff.1 (by rw [hsees]; rfl)⟩
  · rintro ⟨pre, a, post, rfl, hfound⟩
    obtain ⟨e, he⟩ := Option.isSome_iff_exists.1 (sees_isSome_iff.2 hfound)
    rw [lastSeen_split, he]
    simp

theorem both_iff : Both read as ↔ BothIn read as := forall_congr' fun _ => foundIn_iff

theorem not_foundIn_iff : ¬ FoundIn kind read as ↔ lastSeen kind read as = none := by
  rw [← foundIn_iff, Option.not_isSome_iff_eq_none]

/-- What is found among the first properties is found. -/
theorem BothIn.mono {as' : List (Option Answer)} (h : BothIn read as) (hp : as <+: as') : BothIn read as' := by
  obtain ⟨rest, rfl⟩ := hp
  intro kind
  obtain ⟨pre, a, post, rfl, hfound⟩ := h kind
  exact ⟨pre, a, post ++ rest, by simp, hfound⟩

/-! ## What is gone through is read -/

theorem goneThrough_append (hgot : ∀ pre, pre <+: got → ¬ BothIn read pre) :
    ∃ more, readFrom read got as = got ++ more ∧ more <+: as ∧
      (∀ pre, pre <+: got ++ more → pre ≠ got ++ more → ¬ BothIn read pre) ∧
        (more = as ∨ BothIn read (got ++ more)) := by
  induction as generalizing got with
  | nil =>
    exact ⟨[], (List.append_nil got).symm, List.prefix_rfl, fun pre hp _ => hgot pre (by simpa using hp), .inl rfl⟩
  | cons a as ih =>
    rw [readFrom]
    by_cases hb : Both read (got ++ [a])
    · rw [if_pos hb]
      refine ⟨[a], rfl, ⟨as, rfl⟩, fun pre hp hne => ?_, .inr (both_iff.1 hb)⟩
      exact hgot pre ((List.prefix_concat_iff.1 hp).resolve_left hne)
    · rw [if_neg hb]
      have hnot : ∀ pre, pre <+: got ++ [a] → ¬ BothIn read pre := by
        intro pre hp
        rcases List.prefix_concat_iff.1 hp with rfl | hp
        · exact both_iff.not.1 hb
        · exact hgot pre hp
      obtain ⟨more, hread, hgone, hgoes, hends⟩ := ih hnot
      rw [List.append_assoc] at hread hgoes hends
      exact ⟨a :: more, hread, List.cons_prefix_cons.2 ⟨rfl, hgone⟩, hgoes, hends.imp (by rintro rfl; rfl) id⟩

theorem goneThrough_readFrom (read : List Property) (as : List (Option Answer)) :
    GoneThrough read as (readFrom read [] as) := by
  have hnil : ∀ pre, pre <+: [] → ¬ BothIn read pre := by
    intro pre hp hb
    rw [List.prefix_nil.1 hp] at hb
    obtain ⟨pre, a, post, h, -⟩ := hb .range
    simp at h
  obtain ⟨more, hread, hgone, hgoes, hends⟩ : ∃ more, readFrom read [] as = [] ++ more ∧ more <+: as ∧ _ :=
    goneThrough_append hnil
  rw [hread]
  exact ⟨hgone, hgoes, hends⟩

theorem GoneThrough.eq_of_prefix {gone gone' : List (Option Answer)} (h : GoneThrough read as gone)
    (h' : GoneThrough read as gone') (hp : gone <+: gone') : gone = gone' := by
  by_contra hne
  rcases h.ends with rfl | hb
  · exact hne (hp.eq_of_length_le h'.isPrefix.length_le)
  · exact h'.goesOn gone hp hne hb

/-- There is one way to go through the properties of a plane. -/
theorem GoneThrough.unique {gone gone' : List (Option Answer)} (h : GoneThrough read as gone)
    (h' : GoneThrough read as gone') : gone = gone' := by
  rcases List.prefix_or_prefix_of_prefix h.isPrefix h'.isPrefix with hp | hp
  · exact h.eq_of_prefix h' hp
  · exact (h'.eq_of_prefix h hp).symm

/-- There is room for those gone through if there is for all, or both kinds are found before
the end of it. -/
theorem GoneThrough.room_iff {gone : List (Option Answer)} (h : GoneThrough read as gone) :
    gone.length ≤ 500 ↔ as.length ≤ 500 ∨ BothIn read (as.take 500) := by
  constructor
  · intro hlen
    rcases h.ends with rfl | hb
    · exact .inl hlen
    · exact .inr (hb.mono (List.prefix_take_iff.2 ⟨h.isPrefix, hlen⟩))
  · rintro (hlen | hb)
    · exact h.isPrefix.length_le.trans hlen
    · by_contra hlen
      have htake : (as.take 500).length ≤ 500 := List.length_take_le ..
      have hp : as.take 500 <+: gone :=
        List.prefix_of_prefix_length_le (List.take_prefix ..) h.isPrefix (by omega)
      exact h.goesOn _ hp (fun e => hlen (e ▸ htake)) hb

/-- What the search has to see. -/
structure SeesOwn (K : Kernel) (newPlanes : Fin 2 → Option UInt32) : Prop where
  room : ∀ i, (looked K newPlanes i).length ≤ 500
  own : ∀ i kind a e, LastSeen K newPlanes i kind a e → a.2.Has 5 kind
  last : ∀ i kind plane id p, newPlanes i = some plane → HasProperty K plane id p → p.name = kind.name →
    p.Has 10 kind → ∃ i' e, newPlanes i' = some plane ∧ LastSeen K newPlanes i' kind (id, p) e

theorem readBefore_looked (i : Fin 2) : readBefore (looked K newPlanes) i = before K newPlanes i := by
  match i with
  | 0 => rfl
  | 1 => rfl

theorem goneThrough_looked (i : Fin 2) :
    GoneThrough (readBefore (looked K newPlanes) i) (planeAnswers K (newPlanes i)) (looked K newPlanes i) := by
  rw [readBefore_looked]
  exact goneThrough_readFrom ..

theorem LastSeen.spec (h : LastSeen K newPlanes i kind a e) :
    ∃ plane, newPlanes i = some plane ∧ HasProperty K plane a.1 a.2 ∧ a.2.name = kind.name ∧
      ∃ read, firstFor kind (read ++ [a.2]) = some e := by
  obtain ⟨hmem, read, hsees⟩ := lastSeen_mem h
  obtain ⟨plane, hplane, hp⟩ := mem_planeAnswers.1 ((goneThrough_looked i).isPrefix.subset hmem)
  obtain ⟨hname, hfirst⟩ := name_of_sees hsees
  exact ⟨plane, hplane, hp, hname, read, hfirst⟩

/-- What is gone through is what is looked at. -/
theorem eq_looked {gone : Fin 2 → List (Option Answer)}
    (h : ∀ i, GoneThrough (readBefore gone i) (planeAnswers K (newPlanes i)) (gone i)) : gone = looked K newPlanes := by
  have h0 : gone 0 = looked K newPlanes 0 := (h 0).unique (goneThrough_looked 0)
  have hbefore : readBefore gone 1 = readBefore (looked K newPlanes) 1 := congrArg readOnes h0
  have h1 : gone 1 = looked K newPlanes 1 := (hbefore ▸ h 1).unique (goneThrough_looked 1)
  funext i
  match i with
  | 0 => exact h0
  | 1 => exact h1

theorem lastSeen_iff :
    LastSeen K newPlanes i kind a e ↔
      ∃ pre post, looked K newPlanes i = pre ++ some a :: post ∧
        sees kind (readBefore (looked K newPlanes) i ++ readOnes pre) a.2 = some e ∧
        ¬ FoundIn kind (readBefore (looked K newPlanes) i ++ readOnes pre ++ [a.2]) post := by
  unfold LastSeen
  rw [lastSeen_eq_some_iff, readBefore_looked]
  simp only [not_foundIn_iff]

/-- An entry of its own among the five is seen where it is gone through. -/
theorem sees_of_has {p : Property} (hname : p.name = kind.name) (h : p.Has 5 kind) : ∃ e, sees kind read p = some e :=
  Option.isSome_iff_exists.1 (sees_isSome_iff.2 ⟨hname, .inl h⟩)

theorem EntriesOwn.seesOwn (h : EntriesOwn K newPlanes (looked K newPlanes)) : SeesOwn K newPlanes := by
  refine ⟨fun i => (h.through i).room_iff.2 (h.room i), fun i kind a e hs => ?_,
    fun i kind plane id p hplane hp hname hten => ?_⟩
  · obtain ⟨pre, post, hlooked, hsees, hnone⟩ := lastSeen_iff.1 hs
    by_contra hno
    obtain ⟨hname, hfound⟩ := sees_isSome_iff.1 (by rw [hsees]; rfl : (sees kind _ a.2).isSome)
    obtain ⟨b, hb, hbname, hbown⟩ := h.own i kind pre a post hlooked hname hno (hfound.resolve_left hno)
    obtain ⟨pre', post', rfl⟩ := List.append_of_mem hb
    exact hnone ⟨pre', b, post', rfl, hbname, .inl hbown⟩
  · obtain ⟨hfive, i', pre, post, hi', hlooked, hnone⟩ :=
      h.last i kind (id, p) (mem_planeAnswers.2 ⟨plane, hplane, hp⟩) hname hten
    obtain ⟨e, he⟩ : ∃ e, sees kind (readBefore (looked K newPlanes) i' ++ readOnes pre) p = some e :=
      sees_of_has hname hfive
    exact ⟨i', e, hi'.trans hplane, lastSeen_iff.2 ⟨pre, post, hlooked, he, hnone⟩⟩

theorem SeesOwn.entriesOwn (h : SeesOwn K newPlanes) : EntriesOwn K newPlanes (looked K newPlanes) := by
  refine ⟨goneThrough_looked, fun i => (goneThrough_looked i).room_iff.1 (h.room i), ?_, ?_⟩
  · intro i kind pre a post hlooked hname hno hleft
    -- The last property seen is behind this one, or it is this one.
    obtain ⟨e, he⟩ := Option.isSome_iff_exists.1 (sees_isSome_iff.2 ⟨hname, .inr hleft⟩)
    by_cases hfound : FoundIn kind (readBefore (looked K newPlanes) i ++ readOnes pre ++ [a.2]) post
    · obtain ⟨⟨b, e'⟩, hb⟩ := Option.isSome_iff_exists.1 (foundIn_iff.2 hfound)
      have hlast : LastSeen K newPlanes i kind b e' := by
        unfold LastSeen
        rw [← readBefore_looked, hlooked, lastSeen_split, hb]
        rfl
      obtain ⟨hmem, _, hsees⟩ := lastSeen_mem hb
      exact ⟨b, hmem, (name_of_sees hsees).1, h.own i kind b e' hlast⟩
    · exact absurd (h.own i kind a e (lastSeen_iff.2 ⟨pre, post, hlooked, he, hfound⟩)) hno
  · intro i kind a ha hname hten
    obtain ⟨plane, hplane, hp⟩ := mem_planeAnswers.1 ha
    obtain ⟨i', e, hi', hlast⟩ := h.last i kind plane a.1 a.2 hplane hp hname hten
    obtain ⟨pre, post, hlooked, -, hnone⟩ := lastSeen_iff.1 hlast
    exact ⟨h.own i' kind _ e hlast, i', pre, post, hi'.trans hplane.symm, hlooked, hnone⟩

theorem exists_entriesOwn : (∃ gone, EntriesOwn K newPlanes gone) ↔ SeesOwn K newPlanes := by
  constructor
  · rintro ⟨gone, h⟩
    obtain rfl := eq_looked h.through
    exact h.seesOwn
  · exact fun h => ⟨_, h.entriesOwn⟩

/-- **The values that are set** are the ones the properties have, and none is missing,
exactly for the lists of properties and entries with which the array that is never
cleared, the five entries looked at and the end of the search do not matter. -/
theorem colors_set_iff (K : Kernel) (newPlanes : Fin 2 → Option UInt32) :
    (∃ calls, setPlanesColorFormat K newPlanes = some calls ∧ ColorsSet K newPlanes calls) ↔
      ∃ gone, EntriesOwn K newPlanes gone := by
  rw [exists_entriesOwn]
  rcases setPlanesColorFormat_spec K newPlanes with ⟨hroom, calls, hcalls, hmem⟩ | ⟨hroom, hnone⟩
  · constructor
    · rintro ⟨calls', hcalls', hset⟩
      cases hcalls.symm.trans hcalls'
      refine ⟨hroom, fun i kind a e h => ?_, fun i kind plane id p hplane hp hname hfor => ?_⟩
      · obtain ⟨plane, hplane, hp, hname, read, hfirst⟩ := h.spec
        have hc : ⟨plane, a.1, e.value⟩ ∈ calls := (hmem _).2 ⟨i, kind, a, e, hplane, h, rfl, rfl⟩
        obtain ⟨-, kind', p, -, hp', hname', e', he', hfor', -⟩ := hset.sound _ hc
        cases hp.unique hp'
        cases Kind.name_injective (hname.symm.trans hname')
        exact firstFor_not_own hfirst ⟨e', he', hfor'⟩
      · obtain ⟨e, -, -, hc⟩ := hset.complete i kind plane id p hplane hp hname hfor
        obtain ⟨i', kind', ⟨id', p'⟩, e', hplane', hlast, hid, -⟩ := (hmem _).1 hc
        obtain ⟨_, -, hp', hname', -⟩ := hlast.spec
        cases hid
        cases hp.unique hp'
        cases Kind.name_injective (hname.symm.trans hname')
        exact ⟨i', e', hplane', hlast⟩
    · intro h
      refine ⟨calls, hcalls, fun c hc => ?_, fun i kind plane id p hplane hp hname hfor => ?_⟩
      · obtain ⟨i, kind, a, e, hplane, hlast, hid, hvalue⟩ := (hmem c).1 hc
        obtain ⟨plane, hplane', hp, hname, read, hfirst⟩ := hlast.spec
        cases hplane.symm.trans hplane'
        obtain ⟨he, hfor⟩ := firstFor_own hfirst (h.own i kind a e hlast)
        exact ⟨i, kind, a.2, hplane, hid ▸ hp, hname, e, he, hfor, hvalue⟩
      · obtain ⟨i', e, hplane', hlast⟩ := h.last i kind plane id p hplane hp hname hfor
        obtain ⟨-, -, -, -, read, hfirst⟩ := hlast.spec
        obtain ⟨he, hfor'⟩ := firstFor_own hfirst (h.own i' kind (id, p) e hlast)
        exact ⟨e, he, hfor', (hmem _).2 ⟨i', kind, (id, p), e, hplane', hlast, rfl, rfl⟩⟩
  · constructor
    · rintro ⟨calls, hcalls, -⟩
      cases hnone.symm.trans hcalls
    · exact fun h => absurd h.room hroom

def limitedRange : PropertyEnum := ⟨.ofString "YCbCr limited range", 0⟩

def fullRange : PropertyEnum := ⟨.ofString "YCbCr full range", 1⟩

/-- A plane with both ranges, and one with the first only. -/
def twoPlanes : Kernel where
  getProperties plane := if plane = 31 then some [41] else if plane = 32 then some [42] else none
  getProperty id :=
    if id = 41 then some ⟨.ofString "COLOR_RANGE", [limitedRange, fullRange]⟩
    else if id = 42 then some ⟨.ofString "COLOR_RANGE", [limitedRange]⟩
    else none

/-- The second plane is set to the entry left from the first. -/
theorem not_colors_set :
    ¬ ∀ (K : Kernel) (newPlanes : Fin 2 → Option UInt32) (calls : List SetProperty),
      setPlanesColorFormat K newPlanes = some calls → ColorsSet K newPlanes calls := by
  intro h
  have hcalls : setPlanesColorFormat twoPlanes (fun i => if i = 0 then some 31 else some 32) =
      some [⟨31, 41, 1⟩, ⟨32, 42, 1⟩] := by decide +kernel
  obtain ⟨-, kind, p, -, ⟨-, -, -, -, hp⟩, -, e, he, hfor, -⟩ :=
    (h _ _ _ hcalls).sound ⟨32, 42, 1⟩ (List.mem_cons_of_mem _ (List.mem_cons_self ..))
  have henums : p.enums = [limitedRange] := congrArg Property.enums (Option.some.inj hp).symm
  rw [henums] at he
  obtain rfl := List.mem_singleton.1 he
  have hno : limitedRange.isFor kind = false := by cases kind <;> decide +kernel
  exact Bool.noConfusion (hno.symm.trans hfor)

/-! ## Properties as they should be -/

/-- With at most 500 properties on a plane, one of each name and its entry among the first
five, nothing goes wrong, whatever the entries of the others are. -/
theorem entriesOwn_of_first_five (hroom : ∀ i, (planeAnswers K (newPlanes i)).length ≤ 500)
    (hone : ∀ i (kind : Kind) plane id id' p p', newPlanes i = some plane → HasProperty K plane id p →
      HasProperty K plane id' p' → p.name = kind.name → p'.name = kind.name → id = id')
    (hfive : ∀ i (kind : Kind) plane id p, newPlanes i = some plane → HasProperty K plane id p → p.name = kind.name →
      p.Has 5 kind) : ∃ gone, EntriesOwn K newPlanes gone := by
  refine exists_entriesOwn.2 ⟨fun i => ?_, fun i kind a e h => ?_, fun i kind plane id p hplane hp hname _ => ⟨i, ?_⟩⟩
  · exact (goneThrough_looked i).isPrefix.length_le.trans (hroom i)
  · obtain ⟨plane, hplane, hp, hname, -⟩ := h.spec
    exact hfive i kind plane a.1 a.2 hplane hp hname
  · have hsome : (lastSeen kind (before K newPlanes i) (looked K newPlanes i)).isSome := by
      have hthrough := goneThrough_readFrom (before K newPlanes i) (planeAnswers K (newPlanes i))
      rcases hthrough.ends with hall | hb
      · -- All are gone through, this one with them.
        have hmem := (mem_planeAnswers (a := (id, p))).2 ⟨plane, hplane, hp⟩
        obtain ⟨pre, post, hsplit⟩ := List.append_of_mem hmem
        rw [foundIn_iff, looked, hall]
        exact ⟨pre, (id, p), post, hsplit, hname, .inl (hfive i kind plane id p hplane hp hname)⟩
      · exact foundIn_iff.2 (hb kind)
    obtain ⟨⟨⟨id', p'⟩, e⟩, hlast⟩ := Option.isSome_iff_exists.1 hsome
    have hlast : LastSeen K newPlanes i kind (id', p') e := hlast
    obtain ⟨plane', hplane', hp', hname', -⟩ := hlast.spec
    cases hplane.symm.trans hplane'
    cases hone i kind plane id id' p p' hplane hp hp' hname hname'
    cases hp.unique hp'
    exact ⟨e, hplane, hlast⟩

end Camview.ColorFormat
