/-
The planes `find_new_plane` keeps, one for each CRTC: what they are good for, what
`display_thread_loop` shows on them and what `stop_drm` frees.

The loop gives every plane that supports the format to all CRTCs it can be on, so that
a CRTC has the last of them in the end. `own_planes_iff`: two CRTCs have planes of their
own unless one plane is the last for both.
-/
import Camview.Divisions
import Camview.LastWith
import Mathlib.Data.List.Nodup

namespace Camview.OutputPlanes

/-! ## find_new_plane -/

/-- `drmModePlane`, as far as it is looked at. -/
structure DrmModePlane where
  planeId : UInt32
  formats : List UInt32
  possibleCrtcs : UInt32
deriving DecidableEq, Repr

/-- What a call of `drmModeGetPlane` returns: each allocates a structure of its own. -/
structure PlanePtr where
  call : Nat
  plane : DrmModePlane
deriving DecidableEq, Repr

/-- The loop over `plane->formats`. -/
def PlanePtr.hasFormat (p : PlanePtr) (format : UInt32) : Bool := p.plane.formats.contains format

/-- `plane->possible_crtcs & (1 << j)`. -/
def PlanePtr.reaches (p : PlanePtr) (j : Nat) : Bool := p.plane.possibleCrtcs.toNat.testBit j

/-- `new_planes`, and the planes that were freed. -/
structure Found where
  newPlanes : Nat → Option PlanePtr
  freed : List PlanePtr

/-- The loop over the CRTCs. -/
def assignCrtcs (countCrtcs : Nat) (plane : PlanePtr) (newPlanes : Nat → Option PlanePtr) : Nat → Option PlanePtr :=
  (List.range countCrtcs).foldl
    (fun newPlanes j => if plane.reaches j then Function.update newPlanes j (some plane) else newPlanes) newPlanes

/-- The body of the loop over the planes. -/
def visit (countCrtcs : Nat) (format : UInt32) (r : Found) (plane : PlanePtr) : Found :=
  if plane.hasFormat format then { r with newPlanes := assignCrtcs countCrtcs plane r.newPlanes }
  else { r with freed := r.freed ++ [plane] }

/-- The planes of the device as `drmModeGetPlane` returns them, without the `NULL`s. -/
def getPlanes (planes : List (Option DrmModePlane)) : List PlanePtr :=
  planes.zipIdx.filterMap fun (plane, call) => plane.map (⟨call, ·⟩)

/-- `find_new_plane`; `none` when it ends the process. -/
def findNewPlane (countCrtcs : Nat) (planes : List (Option DrmModePlane)) (format : UInt32) : Option Found :=
  let r := (getPlanes planes).foldl (visit countCrtcs format) ⟨fun _ => none, []⟩
  if (List.range countCrtcs).any fun i => (r.newPlanes i).isSome then some r else none

/-! ## What is done with the planes -/

/-- `drmModeSetPlane`: the plane is on this CRTC, and on no other one. -/
def setPlane (shown : UInt32 → Option UInt32) (planeId crtcId : UInt32) : UInt32 → Option UInt32 :=
  Function.update shown planeId (some crtcId)

/-- `display_thread_loop` sets the plane of a CRTC, if there are both. -/
def drawOn (crtc : Option UInt32) (plane : Option PlanePtr) (shown : UInt32 → Option UInt32) : UInt32 → Option UInt32 :=
  match crtc, plane with
  | some crtc, some plane => setPlane shown plane.plane.planeId crtc
  | _, _ => shown

/-- The section under `if (should_draw)`, as to which CRTC the planes are on. -/
def draw (r : Found) (crtcs : Fin 2 → Option UInt32) (shown : UInt32 → Option UInt32) : UInt32 → Option UInt32 :=
  drawOn (crtcs 1) (r.newPlanes 1) (drawOn (crtcs 0) (r.newPlanes 0) shown)

/-- What `stop_drm` frees. -/
def stopDrm (countCrtcs : Nat) (r : Found) : List PlanePtr := (List.range countCrtcs).filterMap r.newPlanes

/-- Each output has a plane of its own. -/
structure OwnPlanes (countCrtcs : Nat) (format : UInt32) (r : Found) : Prop where
  supports : ∀ j p, j < countCrtcs → r.newPlanes j = some p → p.hasFormat format ∧ p.reaches j
  apart : ∀ i j p q, i < countCrtcs → j < countCrtcs → i ≠ j → r.newPlanes i = some p → r.newPlanes j = some q →
    p.plane.planeId ≠ q.plane.planeId
  /-- After drawing, the plane of the first CRTC is on it. -/
  shown : 1 < countCrtcs → ∀ crtcs shown crtc p, crtcs 0 = some crtc → r.newPlanes 0 = some p →
    draw r crtcs shown p.plane.planeId = some crtc
  freed : ∀ j p, j < countCrtcs → r.newPlanes j = some p → (r.freed ++ stopDrm countCrtcs r).count p = 1

/-! ## Which plane a CRTC has -/

/-- The plane can show pictures of the format on CRTC `j`. -/
def PlanePtr.suits (format : UInt32) (j : Nat) (p : PlanePtr) : Bool := p.hasFormat format && p.reaches j

variable {countCrtcs j : Nat} {format : UInt32} {planes : List (Option DrmModePlane)} {r : Found} {p : PlanePtr}

theorem assignCrtcs_apply (newPlanes : Nat → Option PlanePtr) :
    assignCrtcs countCrtcs p newPlanes j = if j < countCrtcs ∧ p.reaches j then some p else newPlanes j := by
  unfold assignCrtcs
  induction countCrtcs with
  | zero => simp
  | succ n ih =>
    rw [List.range_succ, List.foldl_append, List.foldl_cons, List.foldl_nil]
    by_cases hj : j = n
    · subst hj
      by_cases hr : p.reaches j
      · simp [hr]
      · simp [hr, ih]
    · have hlt : j < n + 1 ↔ j < n := by omega
      by_cases hr : p.reaches n
      · simp [hr, hj, hlt, ih]
      · simp [hr, hlt, ih]

/-- Every plane is overwritten by the next one that suits. -/
theorem newPlanes_foldl (l : List PlanePtr) (r : Found) (hj : j < countCrtcs) :
    (l.foldl (visit countCrtcs format) r).newPlanes j =
      (lastWith (PlanePtr.suits format j) true l).or (r.newPlanes j) := by
  induction l generalizing r with
  | nil => rfl
  | cons p l ih =>
    rw [List.foldl_cons, ih, lastWith_cons, Option.or_assoc]
    congr 1
    unfold visit PlanePtr.suits
    by_cases hf : p.hasFormat format
    · by_cases hr : p.reaches j
      · simp [hf, hr, hj, assignCrtcs_apply]
      · simp [hf, hr, assignCrtcs_apply]
    · simp [hf]

theorem freed_foldl (l : List PlanePtr) (r : Found) :
    (l.foldl (visit countCrtcs format) r).freed = r.freed ++ l.filter fun p => !p.hasFormat format := by
  induction l generalizing r with
  | nil => simp
  | cons p l ih =>
    rw [List.foldl_cons, ih]
    unfold visit
    by_cases hf : p.hasFormat format
    · simp [hf]
    · simp [hf]

/-- The last plane that suits, for each CRTC; those without the format are freed. -/
structure LastOf (countCrtcs : Nat) (planes : List (Option DrmModePlane)) (format : UInt32) (r : Found) : Prop where
  newPlanes : ∀ j < countCrtcs, r.newPlanes j = lastWith (PlanePtr.suits format j) true (getPlanes planes)
  freed : r.freed = (getPlanes planes).filter fun p => !p.hasFormat format

theorem lastOf_foldl :
    LastOf countCrtcs planes format ((getPlanes planes).foldl (visit countCrtcs format) ⟨fun _ => none, []⟩) where
  newPlanes j hj := by rw [newPlanes_foldl _ _ hj, Option.or_none]
  freed := by rw [freed_foldl, List.nil_append]

theorem lastOf_findNewPlane (h : findNewPlane countCrtcs planes format = some r) : LastOf countCrtcs planes format r := by
  unfold findNewPlane at h
  dsimp only at h
  split at h
  · cases h
    exact lastOf_foldl
  · cases h

theorem LastOf.eq_some (h : LastOf countCrtcs planes format r) (hj : j < countCrtcs) :
    r.newPlanes j = some p ↔ ∃ pre post, getPlanes planes = pre ++ p :: post ∧ p.suits format j = true ∧
      ∀ q ∈ post, q.suits format j ≠ true := by
  rw [h.newPlanes j hj, lastWith_eq_some_iff]

theorem LastOf.suits (h : LastOf countCrtcs planes format r) (hj : j < countCrtcs) (hp : r.newPlanes j = some p) :
    p.hasFormat format = true ∧ p.reaches j = true := by
  obtain ⟨pre, post, -, hs, -⟩ := (h.eq_some hj).1 hp
  exact Bool.and_eq_true_iff.1 hs

/-- The process goes on if some CRTC has got a plane. -/
theorem findNewPlane_eq (hj : j < countCrtcs)
    (hp : ((getPlanes planes).foldl (visit countCrtcs format) ⟨fun _ => none, []⟩).newPlanes j = some p) :
    findNewPlane countCrtcs planes format = some ((getPlanes planes).foldl (visit countCrtcs format) ⟨fun _ => none, []⟩) :=
  if_pos (List.any_eq_true.2 ⟨j, List.mem_range.2 hj, by rw [hp]; rfl⟩)

/-- The sessions of `Hw.session` end the process for the same planes. -/
theorem findNewPlane_isSome (countCrtcs : Nat) (planes : List (Option DrmModePlane)) (format : UInt32) :
    (findNewPlane countCrtcs planes format).isSome =
      Hw.findNewPlane countCrtcs
        ((getPlanes planes).map fun p => ⟨p.plane.formats, p.plane.possibleCrtcs.toNat⟩) format := by
  have hlast : LastOf countCrtcs planes format _ := lastOf_foldl
  have hsome : (findNewPlane countCrtcs planes format).isSome = true ↔
      ∃ j < countCrtcs, ∃ p ∈ getPlanes planes, p.suits format j = true := by
    constructor
    · intro h
      obtain ⟨r, hr⟩ := Option.isSome_iff_exists.1 h
      unfold findNewPlane at hr
      dsimp only at hr
      split at hr
      · next hany =>
        obtain ⟨j, hj, hs⟩ := List.any_eq_true.1 hany
        rw [hlast.newPlanes j (List.mem_range.1 hj), lastWith_isSome] at hs
        exact ⟨j, List.mem_range.1 hj, hs⟩
      · cases hr
    · intro h
      obtain ⟨j, hj, h⟩ := h
      rw [← lastWith_isSome, ← hlast.newPlanes j hj] at h
      obtain ⟨p, hp⟩ := Option.isSome_iff_exists.1 h
      rw [findNewPlane_eq hj hp]
      rfl
  rw [Bool.eq_iff_iff, hsome]
  unfold Hw.findNewPlane
  rw [List.any_map, List.any_eq_true]
  constructor
  · rintro ⟨j, hj, p, hp, hs⟩
    obtain ⟨hf, hr⟩ := Bool.and_eq_true_iff.1 hs
    exact ⟨p, hp, Bool.and_eq_true_iff.2 ⟨hf, List.any_eq_true.2 ⟨j, List.mem_range.2 hj, hr⟩⟩⟩
  · rintro ⟨p, hp, hs⟩
    obtain ⟨hf, hany⟩ := Bool.and_eq_true_iff.1 hs
    obtain ⟨j, hj, hr⟩ := List.any_eq_true.1 hany
    exact ⟨j, List.mem_range.1 hj, p, hp, Bool.and_eq_true_iff.2 ⟨hf, hr⟩⟩

/-! ## A plane of its own -/

/-- Of two CRTCs no plane is the last one for both: where a plane suits both, a later
one suits one of them. -/
def OneEach (countCrtcs : Nat) (planes : List (Option DrmModePlane)) (format : UInt32) : Prop :=
  ∀ i j, i < countCrtcs → j < countCrtcs → i ≠ j → ∀ pre p post pre' q post',
    getPlanes planes = pre ++ p :: post → getPlanes planes = pre' ++ q :: post' →
    p.plane.planeId = q.plane.planeId → p.suits format i = true → q.suits format j = true →
    (∃ x ∈ post, x.suits format i = true) ∨ ∃ x ∈ post', x.suits format j = true

/-- In a list without two planes of one id, `OneEach` says that each plane that suits two
CRTCs comes before one that suits one of them. -/
theorem oneEach_iff (hids : ((getPlanes planes).map fun p => p.plane.planeId).Nodup) :
    OneEach countCrtcs planes format ↔ ∀ i j, i < countCrtcs → j < countCrtcs → i ≠ j → ∀ pre p post,
      getPlanes planes = pre ++ p :: post → p.suits format i = true → p.suits format j = true →
      ∃ x ∈ post, x.suits format i = true ∨ x.suits format j = true := by
  constructor
  · intro h i j hi hj hij pre p post he hpi hpj
    rcases h i j hi hj hij pre p post pre p post he he rfl hpi hpj with ⟨x, hx, hs⟩ | ⟨x, hx, hs⟩
    · exact ⟨x, hx, .inl hs⟩
    · exact ⟨x, hx, .inr hs⟩
  · intro h i j hi hj hij pre p post pre' q post' he he' hid hpi hqj
    have hpq : p = q := List.inj_on_of_nodup_map hids (by simp [he]) (by simp [he']) hid
    subst hpq
    have hn : (getPlanes planes).Nodup := hids.of_map
    rw [he, List.nodup_middle, List.nodup_cons, List.mem_append, not_or] at hn
    obtain ⟨-, -, rfl⟩ := (List.append_cons_inj_of_notMem hn.1.1 hn.1.2).1 (he.symm.trans he')
    obtain ⟨x, hx, hs | hs⟩ := h i j hi hj hij pre p post he hpi hqj
    · exact .inl ⟨x, hx, hs⟩
    · exact .inr ⟨x, hx, hs⟩

theorem LastOf.apart_iff (h : LastOf countCrtcs planes format r) :
    OneEach countCrtcs planes format ↔ ∀ i j p q, i < countCrtcs → j < countCrtcs → i ≠ j → r.newPlanes i = some p →
      r.newPlanes j = some q → p.plane.planeId ≠ q.plane.planeId := by
  constructor
  · intro hone i j p q hi hj hij hp hq hid
    obtain ⟨pre, post, he, hps, hlast⟩ := (h.eq_some hi).1 hp
    obtain ⟨pre', post', he', hqs, hlast'⟩ := (h.eq_some hj).1 hq
    rcases hone i j hi hj hij pre p post pre' q post' he he' hid hps hqs with ⟨x, hx, hs⟩ | ⟨x, hx, hs⟩
    · exact hlast x hx hs
    · exact hlast' x hx hs
  · intro hapart i j hi hj hij pre p post pre' q post' he he' hid hps hqs
    by_contra hno
    obtain ⟨hlast, hlast'⟩ := not_or.1 hno
    exact hapart i j p q hi hj hij ((h.eq_some hi).2 ⟨pre, post, he, hps, fun x hx hs => hlast ⟨x, hx, hs⟩⟩)
      ((h.eq_some hj).2 ⟨pre', post', he', hqs, fun x hx hs => hlast' ⟨x, hx, hs⟩⟩) hid

/-- Setting the plane of the second CRTC leaves the other plane where it is. -/
theorem draw_apart {crtcs : Fin 2 → Option UInt32} {shown : UInt32 → Option UInt32} {crtc : UInt32}
    (hc : crtcs 0 = some crtc) (hp : r.newPlanes 0 = some p)
    (hapart : ∀ q, r.newPlanes 1 = some q → p.plane.planeId ≠ q.plane.planeId) :
    draw r crtcs shown p.plane.planeId = some crtc := by
  have hfirst : drawOn (crtcs 0) (r.newPlanes 0) shown p.plane.planeId = some crtc := by
    rw [hc, hp]
    exact Function.update_self ..
  unfold draw
  generalize drawOn (crtcs 0) (r.newPlanes 0) shown = shown' at hfirst ⊢
  cases hq : r.newPlanes 1 with
  | none =>
    cases crtcs 1 with
    | none => exact hfirst
    | some crtc' => exact hfirst
  | some q =>
    cases crtcs 1 with
    | none => exact hfirst
    | some crtc' => exact (Function.update_of_ne (hapart q hq) ..).trans hfirst

/-- A plane that one CRTC has is freed for this one. -/
theorem count_stopDrm (hj : j < countCrtcs) (hp : r.newPlanes j = some p)
    (hapart : ∀ i < countCrtcs, r.newPlanes i = some p → i = j) : (stopDrm countCrtcs r).count p = 1 := by
  unfold stopDrm
  rw [List.count_filterMap]
  have hone : (List.range countCrtcs).countP (fun i => r.newPlanes i == some p) = (List.range countCrtcs).count j := by
    refine List.countP_congr fun i hi => ?_
    rw [beq_iff_eq, beq_iff_eq]
    constructor
    · exact hapart i (List.mem_range.1 hi)
    · rintro rfl
      exact hp
  rw [hone]
  exact List.count_eq_one_of_mem List.nodup_range (List.mem_range.2 hj)

/-- The structures differ, whatever the ids are. -/
theorem nodup_getPlanes (planes : List (Option DrmModePlane)) : (getPlanes planes).Nodup := by
  have hn : planes.zipIdx.Nodup := by
    have hcalls : (planes.zipIdx.map Prod.snd).Nodup := by
      rw [List.zipIdx_map_snd]
      exact List.nodup_range'
    exact hcalls.of_map
  refine hn.filterMap ?_
  rintro ⟨plane, call⟩ ⟨plane', call'⟩ p hp hp'
  obtain ⟨q, rfl, rfl⟩ := Option.map_eq_some_iff.1 hp
  obtain ⟨q', rfl, he⟩ := Option.map_eq_some_iff.1 hp'
  cases he
  rfl

/-- A plane with the format is freed for each CRTC that has it in the end, and never if
it was overwritten everywhere. -/
theorem LastOf.count_freed (h : LastOf countCrtcs planes format r) (hp : p ∈ getPlanes planes) :
    (r.freed ++ stopDrm countCrtcs r).count p =
      if p.hasFormat format then (List.range countCrtcs).countP (fun j => r.newPlanes j == some p) else 1 := by
  rw [List.count_append, h.freed, stopDrm, List.count_filterMap]
  by_cases hf : p.hasFormat format = true
  · have hkept : p ∉ (getPlanes planes).filter fun p => !p.hasFormat format := by
      rw [List.mem_filter, hf]
      exact fun hm => Bool.noConfusion hm.2
    rw [if_pos hf, List.count_eq_zero_of_not_mem hkept, Nat.zero_add]
  · have hnone : ∀ j ∈ List.range countCrtcs, ¬ (r.newPlanes j == some p) = true := by
      intro j hj he
      exact hf (h.suits (List.mem_range.1 hj) (beq_iff_eq.1 he)).1
    rw [if_neg hf, List.countP_eq_zero.2 hnone]
    refine List.count_eq_one_of_mem ((nodup_getPlanes planes).filter _) (List.mem_filter.2 ⟨hp, ?_⟩)
    simpa using hf

theorem LastOf.ownPlanes (h : LastOf countCrtcs planes format r)
    (hapart : ∀ i j p q, i < countCrtcs → j < countCrtcs → i ≠ j → r.newPlanes i = some p → r.newPlanes j = some q →
      p.plane.planeId ≠ q.plane.planeId) : OwnPlanes countCrtcs format r where
  supports _ _ hj hp := h.suits hj hp
  apart := hapart
  shown hcount _ _ _ p hc hp :=
    draw_apart hc hp fun q hq => hapart 0 1 p q (Nat.zero_lt_of_lt hcount) hcount Nat.zero_ne_one hp hq
  freed j p hj hp := by
    have hkept : p ∉ r.freed := by
      rw [h.freed, List.mem_filter, (h.suits hj hp).1]
      exact fun hf => Bool.noConfusion hf.2
    rw [List.count_append, List.count_eq_zero_of_not_mem hkept, Nat.zero_add]
    refine count_stopDrm hj hp fun i hi hpi => ?_
    by_contra hij
    exact hapart i j p p hi hj hij hpi hp rfl

/-- **Each output gets its own plane**, for every list of planes and any number of
CRTCs, exactly where `OneEach` holds. -/
theorem own_planes_iff (countCrtcs : Nat) (planes : List (Option DrmModePlane)) (format : UInt32) :
    (∀ r, findNewPlane countCrtcs planes format = some r → OwnPlanes countCrtcs format r) ↔
      OneEach countCrtcs planes format := by
  constructor
  · intro h
    have hlast : LastOf countCrtcs planes format _ := lastOf_foldl
    refine hlast.apart_iff.2 fun i j p q hi hj hij hp hq => ?_
    exact (h _ (findNewPlane_eq hi hp)).apart i j p q hi hj hij hp hq
  · intro hone r hr
    have hlast := lastOf_findNewPlane hr
    exact hlast.ownPlanes (hlast.apart_iff.1 hone)

/-- A plane for two CRTCs, and nothing else. -/
def onlyPlane : DrmModePlane := ⟨31, [0x32315559], 3⟩

/-- Both CRTCs have it: it leaves the first one when the second is drawn, and is freed
twice. -/
theorem not_own_planes :
    ∃ r, findNewPlane 2 [some onlyPlane] 0x32315559 = some r ∧ r.newPlanes 0 = r.newPlanes 1 ∧
      draw r (fun j => some (50 + UInt32.ofNat j)) (fun _ => none) 31 = some 51 ∧
      stopDrm 2 r = [⟨0, onlyPlane⟩, ⟨0, onlyPlane⟩] ∧ ¬ OwnPlanes 2 0x32315559 r := by
  refine ⟨_, rfl, rfl, rfl, rfl, fun h => ?_⟩
  exact h.apart 0 1 _ _ (by decide) (by decide) (by decide) rfl rfl rfl

end Camview.OutputPlanes
