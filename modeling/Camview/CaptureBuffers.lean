/-
The mappings of the capture buffers, over the iterations of `main`'s device loop.
`buffer_memory_map` holds `NULL` at first and `MAP_FAILED` after a session, and only
the latter is told apart from a mapping.

`capture_mappings_iff`: a mapping is lost where the first buffer cannot be queued,
since the iteration then goes on without a session; and in the first session of the
program `NULL` is unmapped for every buffer the iteration did not get to.
-/
import Camview.Ledger
import Camview.MainLoop
import Mathlib.Data.Fin.VecNotation
import Mathlib.Data.List.Induction
import Mathlib.Data.Multiset.OrderedMonoid

namespace Camview.Capture

/-! ## The loops -/

/-- `MAP_FAILED`. -/
def mapFailed : UInt32 := 0xffffffff

/-- The address and the length of a mapping. -/
structure Area where
  addr : UInt32
  length : UInt32
deriving DecidableEq, Repr

/-- The answers for one of the buffers: `buf.length` of `VIDIOC_QUERYBUF` unless that
fails, what `mmap` returns, and whether `VIDIOC_QBUF` succeeds. -/
structure Answers where
  querybuf : Option UInt32
  mmap : UInt32
  qbuf : Bool
deriving DecidableEq, Repr

/-- `buffer_memory_map` and `buffer_memory_map_size`, for `CAPTURE_BUFFER_COUNT`
buffers, and what is mapped. -/
structure State where
  memoryMap : Fin 3 → UInt32
  memoryMapSize : Fin 3 → UInt32
  ledger : Ledger Area

/-- The loop over the buffers, with `has_buffer_mapped`. -/
def mapBuffers (answers : Fin 3 → Answers) : List (Fin 3) → Bool → State → State × Bool
  | [], hasBufferMapped, s => (s, hasBufferMapped)
  | i :: is, hasBufferMapped, s =>
    match (answers i).querybuf with
    | none =>
      ({ s with
        memoryMap := Function.update s.memoryMap i mapFailed
        memoryMapSize := Function.update s.memoryMapSize i 0 }, hasBufferMapped)
    | some length =>
      let addr := (answers i).mmap
      let s := { s with memoryMap := Function.update s.memoryMap i addr }
      if addr = mapFailed then (s, hasBufferMapped)
      else
        let s := { s with
          memoryMapSize := Function.update s.memoryMapSize i length
          ledger := s.ledger.obtain [⟨addr, length⟩] }
        if (answers i).qbuf then mapBuffers answers is true s else (s, hasBufferMapped)

/-- The loop after a session. -/
def unmapBuffers : List (Fin 3) → State → State
  | [], s => s
  | i :: is, s =>
    if s.memoryMap i ≠ mapFailed then
      unmapBuffers is
        { memoryMap := Function.update s.memoryMap i mapFailed
          memoryMapSize := Function.update s.memoryMapSize i 0
          ledger := s.ledger.release ⟨s.memoryMap i, s.memoryMapSize i⟩ }
    else unmapBuffers is s

/-- An iteration of the device loop that comes to its end: one that is given up before
buffers are queried, or one with these answers, and a session if a buffer was queued. -/
inductive Iteration
  | early
  | buffers (answers : Fin 3 → Answers)

def iterate (s : State) : Iteration → State
  | .early => s
  | .buffers answers =>
    let (s, hasBufferMapped) := mapBuffers answers (List.finRange 3) false s
    if hasBufferMapped then unmapBuffers (List.finRange 3) s else s

/-- At the start of the program. -/
def initState : State := ⟨fun _ => 0, fun _ => 0, .empty⟩

/-- After these iterations. -/
def after (run : List Iteration) : State := run.foldl iterate initState

/-! ## What they do -/

/-- The buffer is mapped. -/
def Answers.area (a : Answers) : Option Area :=
  a.querybuf.bind fun length => if a.mmap = mapFailed then none else some ⟨a.mmap, length⟩

/-- It is mapped and queued. -/
def Answers.queued (a : Answers) : Bool := a.area.isSome && a.qbuf

/-- The buffers the first loop gets to: those that are queued, and the next one. -/
def reached (answers : Fin 3 → Answers) : List (Fin 3) → List (Fin 3)
  | [] => []
  | i :: is => i :: if (answers i).queued then reached answers is else []

/-- What is unmapped for a buffer. -/
def State.entry (s : State) (i : Fin 3) : Option Area :=
  if s.memoryMap i = mapFailed then none else some ⟨s.memoryMap i, s.memoryMapSize i⟩

variable {answers : Fin 3 → Answers} {s : State} {i : Fin 3} {is : List (Fin 3)}

/-- The body of the first loop, up to the tests that leave it. -/
def mapBuffer (a : Answers) (i : Fin 3) (s : State) : State where
  memoryMap := Function.update s.memoryMap i (if a.querybuf.isSome then a.mmap else mapFailed)
  memoryMapSize :=
    match a.querybuf with
    | none => Function.update s.memoryMapSize i 0
    | some length =>
      if a.mmap = mapFailed then s.memoryMapSize else Function.update s.memoryMapSize i length
  ledger := s.ledger.obtain a.area.toList

theorem mapBuffers_cons (hasBufferMapped : Bool) :
    mapBuffers answers (i :: is) hasBufferMapped s =
      if (answers i).queued then mapBuffers answers is true (mapBuffer (answers i) i s)
      else (mapBuffer (answers i) i s, hasBufferMapped) := by
  rw [mapBuffers]
  obtain ⟨querybuf, mmap, qbuf⟩ := answers i
  cases querybuf with
  | none => simp [mapBuffer, Answers.queued, Answers.area]
  | some length =>
    by_cases hm : mmap = mapFailed
    · simp [mapBuffer, Answers.queued, Answers.area, hm]
    · simp [mapBuffer, Answers.queued, Answers.area, hm]

theorem entry_mapBuffer (a : Answers) : (mapBuffer a i s).entry i = a.area := by
  obtain ⟨querybuf, mmap, qbuf⟩ := a
  cases querybuf with
  | none => simp [mapBuffer, State.entry, Answers.area]
  | some length =>
    by_cases hm : mmap = mapFailed
    · simp [mapBuffer, State.entry, Answers.area, hm]
    · simp [mapBuffer, State.entry, Answers.area, hm]

theorem memoryMap_mapBuffer (a : Answers) {j : Fin 3} (h : j ≠ i) : (mapBuffer a i s).memoryMap j = s.memoryMap j :=
  Function.update_of_ne h ..

theorem entry_mapBuffer_of_ne (a : Answers) {j : Fin 3} (h : j ≠ i) : (mapBuffer a i s).entry j = s.entry j := by
  unfold State.entry
  rw [memoryMap_mapBuffer a h]
  have hsize : (mapBuffer a i s).memoryMapSize j = s.memoryMapSize j := by
    obtain ⟨querybuf, mmap, qbuf⟩ := a
    cases querybuf with
    | none => exact Function.update_of_ne h ..
    | some length =>
      by_cases hm : mmap = mapFailed
      · simp [mapBuffer, hm]
      · simp [mapBuffer, hm, h]
  rw [hsize]

/-- What the first loop leaves: the mappings of the buffers it gets to, and for the
others what there was. -/
structure Filled (answers : Fin 3 → Answers) (is : List (Fin 3)) (s s' : State) : Prop where
  entry : ∀ j, s'.entry j = if j ∈ reached answers is then (answers j).area else s.entry j
  memoryMap : ∀ j ∉ reached answers is, s'.memoryMap j = s.memoryMap j
  ledger : s'.ledger = s.ledger.obtain ((reached answers is).filterMap fun j => (answers j).area)

theorem reached_subset : reached answers is ⊆ is := by
  induction is with
  | nil => exact List.Subset.refl _
  | cons i is ih =>
    rw [reached]
    refine List.cons_subset_cons i ?_
    split
    · exact ih
    · exact List.nil_subset is

theorem filled_mapBuffer (h : ¬ (answers i).queued = true) :
    Filled answers (i :: is) s (mapBuffer (answers i) i s) := by
  have hreached : reached answers (i :: is) = [i] := by rw [reached, if_neg h]
  refine ⟨?_, ?_, ?_⟩
  · intro j
    by_cases hj : j = i
    · rw [hreached, hj, if_pos (List.mem_singleton_self i), entry_mapBuffer]
    · rw [hreached, if_neg (by simpa using hj), entry_mapBuffer_of_ne _ hj]
  · intro j hj
    rw [hreached] at hj
    exact memoryMap_mapBuffer _ (by simpa using hj)
  · rw [hreached]
    cases ha : (answers i).area with
    | none => simp [mapBuffer, ha]
    | some area => simp [mapBuffer, ha]

theorem Filled.cons {s' : State} (h : (answers i).queued = true) (hi : i ∉ is)
    (hf : Filled answers is (mapBuffer (answers i) i s) s') : Filled answers (i :: is) s s' := by
  have hreached : reached answers (i :: is) = i :: reached answers is := by rw [reached, if_pos h]
  refine ⟨?_, ?_, ?_⟩
  · intro j
    rw [hf.entry, hreached]
    by_cases hj : j = i
    · rw [hj, if_neg fun hr => hi (reached_subset hr), entry_mapBuffer, if_pos (List.mem_cons_self ..)]
    · simp only [List.mem_cons, hj, false_or, entry_mapBuffer_of_ne _ hj]
  · intro j hj
    rw [hreached, List.mem_cons, not_or] at hj
    rw [hf.memoryMap j hj.2, memoryMap_mapBuffer _ hj.1]
  · rw [hf.ledger, hreached]
    cases ha : (answers i).area with
    | none => simp [mapBuffer, ha]
    | some area => simp [mapBuffer, ha, ← Ledger.obtain_append]

theorem filled_mapBuffers (hasBufferMapped : Bool) (hn : is.Nodup) :
    Filled answers is s (mapBuffers answers is hasBufferMapped s).1 := by
  induction is generalizing s hasBufferMapped with
  | nil => exact ⟨fun _ => rfl, fun _ _ => rfl, by simp [mapBuffers, reached]⟩
  | cons i is ih =>
    obtain ⟨hi, hn⟩ := List.nodup_cons.1 hn
    rw [mapBuffers_cons]
    split
    · next h => exact .cons h hi (ih true hn)
    · next h => exact filled_mapBuffer h

/-- There is a session if the first buffer is queued. -/
theorem snd_mapBuffers (hasBufferMapped : Bool) :
    (mapBuffers answers is hasBufferMapped s).2 = (hasBufferMapped || is.head?.any fun i => (answers i).queued) := by
  induction is generalizing s hasBufferMapped with
  | nil => simp [mapBuffers]
  | cons i is ih =>
    rw [mapBuffers_cons]
    split
    · next h => simp [ih, h]
    · next h => simp [h]

/-- The second loop unmaps every buffer that is not `MAP_FAILED`, in order. -/
theorem unmapBuffers_spec (hn : is.Nodup) :
    (unmapBuffers is s).ledger = s.ledger.releaseAll (is.filterMap s.entry) ∧
      ∀ j, (unmapBuffers is s).memoryMap j = if j ∈ is then mapFailed else s.memoryMap j := by
  induction is generalizing s with
  | nil => exact ⟨rfl, fun _ => rfl⟩
  | cons i is ih =>
    obtain ⟨hi, hn⟩ := List.nodup_cons.1 hn
    rw [unmapBuffers]
    split
    · next h =>
      obtain ⟨hledger, hmap⟩ := @ih
        { memoryMap := Function.update s.memoryMap i mapFailed
          memoryMapSize := Function.update s.memoryMapSize i 0
          ledger := s.ledger.release ⟨s.memoryMap i, s.memoryMapSize i⟩ } hn
      refine ⟨?_, ?_⟩
      · have hentry : s.entry i = some ⟨s.memoryMap i, s.memoryMapSize i⟩ := if_neg h
        rw [hledger, List.filterMap_cons, hentry]
        dsimp only
        rw [Ledger.releaseAll_cons]
        congr 1
        refine List.filterMap_congr fun j hj => ?_
        have hne : j ≠ i := fun e => hi (e ▸ hj)
        simp [State.entry, hne]
      · intro j
        rw [hmap]
        by_cases hj : j = i
        · simp [hj]
        · simp [hj]
    · next h =>
      obtain ⟨hledger, hmap⟩ := @ih s hn
      have hfailed : s.memoryMap i = mapFailed := not_not.1 h
      refine ⟨?_, ?_⟩
      · have hentry : s.entry i = none := if_pos hfailed
        rw [hledger, List.filterMap_cons_none hentry]
      · intro j
        rw [hmap]
        by_cases hj : j = i
        · simp [hj, hfailed]
        · simp [hj]

theorem exists_append_reached (answers : Fin 3 → Answers) (is : List (Fin 3)) :
    ∃ rest, is = reached answers is ++ rest := by
  induction is with
  | nil => exact ⟨[], rfl⟩
  | cons i is ih =>
    rw [reached]
    split
    · obtain ⟨rest, h⟩ := ih
      exact ⟨rest, by rw [List.cons_append, ← h]⟩
    · exact ⟨is, rfl⟩

/-- How the calls for the buffers turn out for the main loop. -/
def outcomes (answers : Fin 3 → Answers) : List Main.Act :=
  (reached answers (List.finRange 3)).map fun i => .main (if (answers i).queued then .ok else .fail)

/-- The main loop goes on with a session if `has_buffer_mapped` is set. -/
theorem main_querying {m : Main.State} (h : m.pc = .querying 0 false) (s : State) :
    Main.machine.exec m (outcomes answers) =
      some (m.goto (if (mapBuffers answers (List.finRange 3) false s).2 then .initCec else .top)) := by
  rw [snd_mapBuffers, outcomes, show List.finRange 3 = [0, 1, 2] from rfl]
  obtain ⟨d, c, k, pc, handler, cr, n, g, f⟩ := m
  cases h
  rcases h0 : (answers 0).queued
  · simp [reached, h0, Machine.exec, Main.machine, Main.step, Main.mainStep, Main.State.goto]
  rcases h1 : (answers 1).queued
  · simp [reached, h0, h1, Machine.exec, Main.machine, Main.step, Main.mainStep, Main.State.goto, Main.captureBufferCount]
  rcases h2 : (answers 2).queued
  · simp [reached, h0, h1, h2, Machine.exec, Main.machine, Main.step, Main.mainStep, Main.State.goto,
      Main.captureBufferCount]
  · simp [reached, h0, h1, h2, Machine.exec, Main.machine, Main.step, Main.mainStep, Main.State.goto,
      Main.captureBufferCount]

/-! ## An iteration -/

/-- All that was mapped was unmapped, once and with its length, and nothing else was. -/
structure Settled (s : State) : Prop where
  held : s.ledger.held = 0
  bad : s.ledger.bad = []

theorem entry_eq_none : s.entry i = none ↔ s.memoryMap i = mapFailed := by
  unfold State.entry
  split
  · next h => exact iff_of_true rfl h
  · next h => exact iff_of_false (Option.some_ne_none _) h

/-- An iteration is the first loop, and the second one if the first buffer is queued. -/
theorem iterate_buffers (answers : Fin 3 → Answers) (s : State) :
    ∃ s₁, Filled answers (List.finRange 3) s s₁ ∧
      iterate s (.buffers answers) = if (answers 0).queued then unmapBuffers (List.finRange 3) s₁ else s₁ := by
  have hf : Filled answers (List.finRange 3) s (mapBuffers answers (List.finRange 3) false s).1 :=
    filled_mapBuffers false (List.nodup_finRange 3)
  have hsession : (mapBuffers answers (List.finRange 3) false s).2 = (answers 0).queued := snd_mapBuffers false
  refine ⟨_, hf, ?_⟩
  rw [← hsession]
  rfl

/-- A session unmaps the mappings of the iteration, and what is in the variables of
the buffers it did not get to. -/
theorem ledger_session (hq : (answers 0).queued = true) {rest : List (Fin 3)}
    (hrest : List.finRange 3 = reached answers (List.finRange 3) ++ rest) :
    (iterate s (.buffers answers)).ledger =
      (s.ledger.obtain ((reached answers (List.finRange 3)).filterMap fun j => (answers j).area)).releaseAll
        ((reached answers (List.finRange 3)).filterMap (fun j => (answers j).area) ++ rest.filterMap s.entry) := by
  have hn : (List.finRange 3).Nodup := List.nodup_finRange 3
  obtain ⟨s₁, hf, hit⟩ := iterate_buffers answers s
  rw [if_pos hq] at hit
  have hentries : (List.finRange 3).filterMap s₁.entry =
      (reached answers (List.finRange 3)).filterMap (fun j => (answers j).area) ++ rest.filterMap s.entry := by
    have hentry := hf.entry
    generalize reached answers (List.finRange 3) = R at hrest hentry ⊢
    rw [hrest] at hn ⊢
    rw [List.filterMap_append]
    congr 1
    · refine List.filterMap_congr fun j hj => ?_
      rw [hentry, if_pos hj]
    · refine List.filterMap_congr fun j hj => ?_
      rw [hentry, if_neg fun hr => (List.nodup_append.1 hn).2.2 j hr j hj rfl]
  rw [hit, (unmapBuffers_spec hn).1, hf.ledger, hentries]

theorem settled_session (h : Settled s) (hq : (answers 0).queued = true) :
    Settled (iterate s (.buffers answers)) ↔ ∀ j ∉ reached answers (List.finRange 3), s.memoryMap j = mapFailed := by
  obtain ⟨rest, hrest⟩ := exists_append_reached answers (List.finRange 3)
  obtain ⟨hheld, hbad⟩ := ledger_session hq hrest ▸
    Ledger.releaseAll_obtain (h.held : s.ledger.held = 0) (rest.filterMap s.entry)
  have hmem : ∀ j, j ∉ reached answers (List.finRange 3) ↔ j ∈ rest := by
    intro j
    have hn : (List.finRange 3).Nodup := List.nodup_finRange 3
    have hj : j ∈ List.finRange 3 := List.mem_finRange j
    rw [hrest] at hn hj
    constructor
    · intro hr
      exact (List.mem_append.1 hj).resolve_left hr
    · intro hr hr'
      exact (List.nodup_append.1 hn).2.2 j hr' j hr rfl
  calc
    _ ↔ (iterate s (.buffers answers)).ledger.bad = [] := ⟨Settled.bad, fun hb => ⟨hheld, hb⟩⟩
    _ ↔ rest.filterMap s.entry = [] := by rw [hbad, and_iff_right h.bad]
    _ ↔ ∀ j ∉ reached answers (List.finRange 3), s.memoryMap j = mapFailed := by
      simp only [List.filterMap_eq_nil_iff, entry_eq_none, hmem]

/-- Without a session the mapping of the first buffer stays, if there is one. -/
theorem settled_no_session (h : Settled s) (hq : ¬ (answers 0).queued = true) :
    Settled (iterate s (.buffers answers)) ↔ (answers 0).area = none := by
  have hledger : (iterate s (.buffers answers)).ledger = s.ledger.obtain (answers 0).area.toList := by
    simp only [iterate, show List.finRange 3 = [0, 1, 2] from rfl, mapBuffers_cons, if_neg hq, Bool.false_eq_true]
    rfl
  constructor
  · intro hs
    have hheld := hs.held
    rw [hledger, Ledger.obtain_held, h.held, Multiset.zero_add, Multiset.coe_eq_zero] at hheld
    exact Option.toList_eq_nil_iff.1 hheld
  · intro ha
    rw [ha, Option.toList_none, Ledger.obtain_nil] at hledger
    exact ⟨hledger ▸ h.held, hledger ▸ h.bad⟩

/-! ## Runs -/

/-- The mapping an iteration has of a buffer, unless it stops before. -/
def Iteration.area : Iteration → Fin 3 → Option Area
  | .early, _ => none
  | .buffers answers, i => (answers i).area

def Iteration.queued : Iteration → Fin 3 → Bool
  | .early, _ => false
  | .buffers answers, i => (answers i).queued

variable {run : List Iteration} {it : Iteration}

theorem after_append (run : List Iteration) (it : Iteration) : after (run ++ [it]) = iterate (after run) it :=
  List.foldl_append

/-- A session leaves `MAP_FAILED` in the variables, and the rest of the iterations
only gets to the first buffer. -/
theorem memoryMap_iterate {j : Fin 3} (hj : j ≠ 0) :
    (iterate s it).memoryMap j = if it.queued 0 then mapFailed else s.memoryMap j := by
  cases it with
  | early => rfl
  | buffers answers =>
    obtain ⟨s₁, hf, hit⟩ := iterate_buffers answers s
    rw [hit, Iteration.queued]
    split
    · rw [(unmapBuffers_spec (List.nodup_finRange 3)).2, if_pos (List.mem_finRange j)]
    · next hq =>
      refine hf.memoryMap j ?_
      rw [show List.finRange 3 = [0, 1, 2] from rfl, reached, if_neg hq]
      simpa using hj

/-- Before the first session they hold `NULL`. -/
theorem memoryMap_after {j : Fin 3} (hj : j ≠ 0) :
    (after run).memoryMap j = if ∃ it ∈ run, it.queued 0 then mapFailed else 0 := by
  induction run using List.reverseRecOn with
  | nil => simp [after, initState]
  | append_singleton run it ih =>
    rw [after_append, memoryMap_iterate hj, ih]
    by_cases hq : it.queued 0
    · simp [hq]
    · simp [hq]

theorem forall_reached_iff (hq : (answers 0).queued = true) :
    (∀ j : Fin 3, j ≠ 0 → j ∈ reached answers (List.finRange 3)) ↔ (answers 1).queued = true := by
  rw [show List.finRange 3 = [0, 1, 2] from rfl, reached, if_pos hq, reached]
  constructor
  · intro h
    by_contra hq1
    rw [if_neg hq1] at h
    exact absurd (h 2 (by decide)) (by decide)
  · intro hq1 j hj
    rw [if_pos hq1, reached]
    rcases (by decide : ∀ j : Fin 3, j ≠ 0 → j = 1 ∨ j = 2) j hj with rfl | rfl
    · simp
    · simp

/-- What an iteration has to meet after those of `run`. -/
structure Keeps (run : List Iteration) (it : Iteration) : Prop where
  /-- The first buffer is queued if it is mapped. -/
  queued : (it.area 0).isSome → it.queued 0
  /-- In the first session the second buffer is queued, too. -/
  first : (∀ it' ∈ run, ¬ it'.queued 0) → it.queued 0 → it.queued 1

theorem settled_iterate_iff (h : Settled (after run)) : Settled (iterate (after run) it) ↔ Keeps run it := by
  cases it with
  | early => exact iff_of_true h ⟨fun ha => absurd ha Bool.false_ne_true, fun _ hq => absurd hq Bool.false_ne_true⟩
  | buffers answers =>
    by_cases hq : (answers 0).queued = true
    · rw [settled_session h hq]
      have h0 : 0 ∈ reached answers (List.finRange 3) := List.mem_cons_self ..
      by_cases hs : ∃ it ∈ run, it.queued 0
      · refine iff_of_true ?_ ⟨fun _ => hq, fun hn => ?_⟩
        · intro j hj
          rw [memoryMap_after fun e : j = 0 => hj (e.symm ▸ h0), if_pos hs]
        · obtain ⟨it, hit, hqit⟩ := hs
          exact absurd hqit (hn it hit)
      · have hnull : (∀ j ∉ reached answers (List.finRange 3), (after run).memoryMap j = mapFailed) ↔
            ∀ j : Fin 3, j ≠ 0 → j ∈ reached answers (List.finRange 3) := by
          refine forall_congr' fun j => ⟨fun hj hne => ?_, fun hj hr => absurd (hj fun e => hr (e.symm ▸ h0)) hr⟩
          by_contra hr
          have hfailed := hj hr
          rw [memoryMap_after hne, if_neg hs] at hfailed
          exact absurd hfailed (by decide)
        rw [hnull, forall_reached_iff hq]
        constructor
        · intro hq1
          exact ⟨fun _ => hq, fun _ _ => hq1⟩
        · intro hk
          exact hk.first (fun it hit hqit => hs ⟨it, hit, hqit⟩) hq
    · rw [settled_no_session h hq]
      constructor
      · intro ha
        refine ⟨fun hs => ?_, fun _ h0 => absurd h0 hq⟩
        rw [Iteration.area, ha] at hs
        exact absurd hs Bool.false_ne_true
      · intro hk
        by_contra ha
        exact hq (hk.queued (Option.isSome_iff_ne_none.2 ha))

/-- Every iteration of the run does. -/
def AllKeep (run : List Iteration) : Prop := ∀ pre it post, run = pre ++ it :: post → Keeps pre it

theorem allKeep_append : AllKeep (run ++ [it]) ↔ AllKeep run ∧ Keeps run it := by
  constructor
  · intro h
    refine ⟨fun pre it' post he => h pre it' (post ++ [it]) ?_, h run it [] rfl⟩
    rw [he, List.append_assoc, List.cons_append]
  · intro h pre it' post he
    obtain ⟨hrun, hit⟩ := h
    rcases List.eq_nil_or_concat post with rfl | ⟨post, x, rfl⟩
    · obtain ⟨rfl, hx⟩ := List.append_inj' he rfl
      cases hx
      exact hit
    · rw [List.concat_eq_append, ← List.cons_append, ← List.append_assoc] at he
      exact hrun pre it' post (List.append_inj' he rfl).1

theorem settled_init : Settled (after []) := ⟨rfl, rfl⟩

/-- **Capture mappings are unmapped once**: in every run, all mappings of an iteration
are unmapped by its end and nothing else is, as long as the iterations meet `Keeps`. -/
theorem capture_mappings_iff (run : List Iteration) : (∀ pre, pre <+: run → Settled (after pre)) ↔ AllKeep run := by
  induction run using List.reverseRecOn with
  | nil =>
    refine iff_of_true (fun pre hpre => ?_) fun pre it post he => ?_
    · rw [List.prefix_nil.1 hpre]
      exact settled_init
    · exact absurd he (by simp)
  | append_singleton run it ih =>
    rw [allKeep_append, ← ih]
    constructor
    · intro h
      refine ⟨fun pre hpre => h pre (hpre.trans (List.prefix_append ..)), ?_⟩
      rw [← settled_iterate_iff (h run (List.prefix_append ..)), ← after_append]
      exact h _ (List.prefix_refl _)
    · intro h pre hpre
      obtain ⟨hrun, hit⟩ := h
      rcases List.prefix_concat_iff.1 hpre with rfl | hpre
      · rw [after_append]
        exact (settled_iterate_iff (hrun run (List.prefix_refl _))).2 hit
      · exact hrun pre hpre

/-- Answers as a camera gives them. -/
def answer (n : UInt32) (qbuf : Bool) : Answers := ⟨some 0x1000, 0x10000 * n, qbuf⟩

/-- A first buffer that cannot be queued stays mapped, and its variable gets the next
mapping; with one buffer queued out of two, `NULL` is unmapped. -/
theorem not_capture_mappings :
    (after [.buffers ![answer 1 false, answer 2 true, answer 3 true],
      .buffers ![answer 2 true, answer 3 true, answer 4 true]]).ledger = ⟨{⟨0x10000, 0x1000⟩}, []⟩ ∧
      (after [.buffers ![answer 1 true, ⟨none, 0, false⟩, answer 3 true]]).ledger = ⟨0, [⟨0, 0⟩]⟩ ∧
      ¬ ∀ run pre, pre <+: run → Settled (after pre) := by
  refine ⟨by rfl, by rfl, fun h => ?_⟩
  have hbad := (h _ _ (List.prefix_refl [.buffers ![answer 1 true, ⟨none, 0, false⟩, answer 3 true]])).bad
  exact absurd hbad (by decide)

end Camview.Capture
