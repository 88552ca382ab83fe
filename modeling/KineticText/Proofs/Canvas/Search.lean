import KineticText.Proofs.Canvas.Mask
import KineticText.Proofs.Canvas.Run
import KineticText.Proofs.Number.Rounded

/-!
# The end of a search

A search for a free place goes from ring to ring, and each radius is the one
before it plus a step, rounded.  It finds the answer of the first ring below the
limit that has one (`searchFrom_eq_found_iff`), and is endless exactly where all
these radii are below the limit and no ring has an answer
(`searchFrom_eq_endless_iff`).  All radii are below the limit exactly where there
is a radius below it that the step does not change any more
(`forall_radiusAfter_lt_iff`): the sums grow up to such a radius and never pass
it.  There is none as long as the limit is at most `2 ^ 53` steps away
(`add_ne_of_lt`).

There are three groups: one step, the rings of a search, and the search on a
canvas.
-/

namespace KineticText

namespace Binary64

/-! ## One step -/

variable {r step limit x : Binary64}

theorem le_of_le_of_lt (h : x ≤ r) (hlt : r < limit) : x ≤ limit := by
  obtain ⟨hx, -, hle⟩ := le_iff_key.1 h
  obtain ⟨-, hlimit, hkey⟩ := lt_iff_key.1 hlt
  exact le_iff_key.2 ⟨hx, hlimit, hle.trans hkey.le⟩

/-- A finite number to which a step is added without growth has a finite step. -/
theorem isFinite_of_not_lt (hr : r.isFinite = true) (hstep : ¬step ≤ 0)
    (hnan : (r + step).isNaN = false) (h : ¬r < r + step) : step.isFinite = true := by
  obtain ⟨sign, m, rfl⟩ := exists_finite_of_isFinite hr
  cases step with
  | finite => rfl
  | nan => cases hnan
  | infinity negative =>
    have hsum : finite sign m + infinity negative = infinity negative := rfl
    cases negative with
    | true => exact absurd (le_of_lt infinity_lt_zero) hstep
    | false =>
      refine absurd (lt_iff_key.2 ⟨rfl, rfl, ?_⟩) h
      have hkey := (isFinite_iff.1 hr).2
      rw [hsum, show (infinity false).key = rankLimit from rfl]
      omega

/-- A radius that does not grow below the limit stays the same. -/
theorem add_eq_of_not_lt (hr : 0 ≤ r) (hlimit : r < limit) (hstep : ¬step ≤ 0)
    (hnext : r + step < limit) (h : ¬r < r + step) : r + step = r := by
  have hfinite := isFinite_of_lt hr hlimit
  have hnan := (lt_iff_key.1 hnext).1
  have hstepFinite := isFinite_of_not_lt hfinite hstep hnan h
  have hpos := pos_of_not_le hstep hstepFinite
  have hnonneg := (nonneg_iff_of_isFinite hfinite).1 hr
  have hkey : (r + step).key = r.key := by
    refine le_antisymm ?_ (key_le_key_add hfinite hstepFinite hpos.le)
    rw [lt_iff_key, isNaN_of_isFinite hfinite, hnan] at h
    simpa using h
  have hsum : (r + step).isFinite = true := by
    rw [isFinite_iff, hkey]
    exact ⟨hnan, (isFinite_iff.1 hfinite).2⟩
  -- The sum is not below the step either, so that the radius is no zero.
  have hgrow := (isRounded_value hstepFinite).key_mono (isRounded_add hfinite hstepFinite)
    (by linarith)
  have hstepKey := (value_pos_iff hstepFinite).1 hpos
  exact eq_of_key_eq hsum hfinite hkey (by omega)

/-- What a step leads to a number below the limit from is below it. -/
theorem lt_of_add_lt (hstep : ¬step ≤ 0) (h : r + step < limit) : r < limit := by
  obtain ⟨hnan, hlimit, hkey⟩ := lt_iff_key.1 h
  cases r with
  | nan => cases hnan
  | infinity negative =>
    cases step with
    | nan => cases hnan
    | infinity other => cases negative <;> cases other <;> first | exact h | cases hnan
    | finite => exact h
  | finite negative m =>
    cases step with
    | nan => cases hnan
    | infinity other =>
      cases other with
      | true => exact absurd (le_of_lt infinity_lt_zero) hstep
      | false =>
        have hsum : (finite negative m + infinity false).key = rankLimit := rfl
        have hbound := natAbs_key_le limit
        omega
    | finite =>
      have hgrow := key_le_key_add (x := finite negative m) rfl rfl (pos_of_not_le hstep rfl).le
      exact lt_iff_key.2 ⟨rfl, hlimit, hgrow.trans_lt hkey⟩

/-- A radius within `2 ^ 53` steps grows. -/
theorem add_ne_of_lt (hr : 0 ≤ r) (hlimit : r < limit) (hstep : 0 < step.value)
    (hfinite : step.isFinite = true) (hlimitFinite : limit.isFinite = true)
    (h : limit.value ≤ 2 ^ 53 * step.value) : r + step ≠ r := by
  have hrFinite := isFinite_of_lt hr hlimit
  have hvalue := (value_lt_value_iff hrFinite hlimitFinite).2 (key_lt_of_lt hlimit)
  have hgrow := lt_add_of_lt hrFinite hfinite ((nonneg_iff_of_isFinite hrFinite).1 hr) hstep
    (hvalue.trans_le h)
  intro heq
  rw [heq] at hgrow
  exact (key_lt_of_lt hgrow).false

theorem wholeBelow_zero_iff {x : Binary64} : Quantity.wholeBelow 0 x = true ↔ 0 < x := by
  cases x with
  | nan => exact iff_of_false (by simp [Quantity.wholeBelow]) fun h => by cases (lt_iff_key.1 h).2.1
  | infinity negative => cases negative <;> decide +kernel
  | finite negative m =>
    have hpos := value_pos_iff (x := finite negative m) rfl
    rw [value, div_pos_iff_of_pos_right (by positivity), Int.cast_pos] at hpos
    have hbelow : Quantity.wholeBelow 0 (finite negative m) =
        decide (0 * (twoPow 1074 : ℤ) < (finite negative m).units) := rfl
    rw [hbelow, zero_mul, decide_eq_true_iff, hpos, lt_iff_key, key_zero, isNaN_zero]
    simp [isNaN]

end Binary64

theorem Quantity.le_zero_of_toBinary64_le {q : Quantity} (h : q.toBinary64 ≤ 0) : q ≤ 0 := by
  obtain ⟨hnan, -, hkey⟩ := Binary64.le_iff_key.1 h
  rw [Binary64.key_zero] at hkey
  cases hq : q.whole? with
  | none =>
    have hnot : ¬(0 : Binary64) < q.toBinary64 := by
      intro hlt
      have := Binary64.key_lt_of_lt hlt
      rw [Binary64.key_zero] at this
      omega
    rw [← Binary64.wholeBelow_zero_iff, Bool.not_eq_true] at hnot
    rw [eq_real_of_whole? hq]
    show (!q.toBinary64.isNaN && !false && !wholeBelow 0 q.toBinary64) = true
    rw [hnan, hnot]
    rfl
  | some n =>
    have hn : n ≤ 0 := by
      by_contra hpos
      have hone := (Binary64.isNearest_ofInt 1).key_mono (Binary64.isNearest_ofInt n)
        (by exact_mod_cast (show 1 ≤ n by omega))
      have hkeyOne : 0 < (Binary64.ofInt 1).key := by decide +kernel
      rw [ofInt_of_whole? hq] at hkey
      omega
    have hzero : (0 : Quantity).whole? = some 0 := rfl
    have hnan' : q.isNaN = false := by
      cases q with
      | real => cases hq
      | whole => rfl
      | truth => rfl
    show (!q.isNaN && !false && !(0 : Quantity).lt q) = true
    rw [lt, hzero, hq, hnan']
    simp [hn]

namespace Canvas

/-! ## The rings of a search -/

/-- The radius behind `n` steps. -/
def radiusAfter (step radius : Binary64) : ℕ → Binary64
  | 0 => radius
  | n + 1 => radiusAfter step (radius + step) n

theorem radiusAfter_of_add_eq {step radius : Binary64} (h : radius + step = radius) (n : ℕ) :
    radiusAfter step radius n = radius := by
  induction n with
  | zero => rfl
  | succ n ih => rw [radiusAfter, h, ih]

theorem radiusAfter_succ (step radius : Binary64) (n : ℕ) :
    radiusAfter step radius (n + 1) = radiusAfter step radius n + step := by
  induction n generalizing radius with
  | zero => rfl
  | succ n ih => exact ih (radius + step)

/-- A search is endless exactly where no ring ends it. -/
theorem searchFrom_eq_endless_iff {onRing? : Binary64 → Option Position}
    {limit step radius : Binary64} (hradius : 0 ≤ radius) (hstep : ¬step ≤ 0) :
    searchFrom onRing? limit step radius = .endless ↔
      ∀ n, radiusAfter step radius n < limit ∧ onRing? (radiusAfter step radius n) = none := by
  fun_induction searchFrom onRing? limit step radius with
  | case1 radius hlimit place hplace =>
    refine iff_of_false (by simp) fun h => ?_
    have hnone := (h 0).2
    rw [radiusAfter, hplace] at hnone
    cases hnone
  | case2 radius hlimit hnone hgrows ih =>
    rw [ih (Binary64.le_of_le_of_lt hradius hgrows)]
    constructor
    · intro h n
      cases n with
      | zero => exact ⟨hlimit, hnone⟩
      | succ n => exact h n
    · intro h n
      exact h (n + 1)
  | case3 radius hlimit hnone hgrows hnext =>
    have hstays := Binary64.add_eq_of_not_lt hradius hlimit hstep hnext hgrows
    refine iff_of_true rfl fun n => ?_
    rw [radiusAfter_of_add_eq hstays]
    exact ⟨hlimit, hnone⟩
  | case4 radius hlimit hnone hgrows hnext =>
    exact iff_of_false (by simp) fun h => hnext (h 1).1
  | case5 radius hlimit => exact iff_of_false (by simp) fun h => hlimit (h 0).1

/-- A search finds the answer of the first ring below the limit that has one. -/
theorem searchFrom_eq_found_iff {onRing? : Binary64 → Option Position}
    {limit step radius : Binary64} {place : Position} (hradius : 0 ≤ radius) (hstep : ¬step ≤ 0) :
    searchFrom onRing? limit step radius = .found place ↔
      ∃ n, (∀ m ≤ n, radiusAfter step radius m < limit) ∧
        (∀ m < n, onRing? (radiusAfter step radius m) = none) ∧
          onRing? (radiusAfter step radius n) = some place := by
  fun_induction searchFrom onRing? limit step radius with
  | case1 radius hlimit found hfound =>
    constructor
    · intro h
      cases h
      refine ⟨0, fun m hm => ?_, fun m hm => absurd hm m.not_lt_zero, hfound⟩
      rw [Nat.le_zero.1 hm, radiusAfter]
      exact hlimit
    · intro h
      obtain ⟨n, -, hnone, hplace⟩ := h
      cases n with
      | zero => exact congrArg _ (Option.some.inj (hfound.symm.trans hplace))
      | succ n => cases hfound.symm.trans (hnone 0 n.succ_pos)
  | case2 radius hlimit hnone hgrows ih =>
    rw [ih (Binary64.le_of_le_of_lt hradius hgrows)]
    constructor
    · intro h
      obtain ⟨n, hbelow, hbefore, hplace⟩ := h
      refine ⟨n + 1, fun m hm => ?_, fun m hm => ?_, hplace⟩
      · cases m with
        | zero => exact hlimit
        | succ m => exact hbelow m (Nat.le_of_succ_le_succ hm)
      · cases m with
        | zero => exact hnone
        | succ m => exact hbefore m (Nat.lt_of_succ_lt_succ hm)
    · intro h
      obtain ⟨n, hbelow, hbefore, hplace⟩ := h
      cases n with
      | zero => cases hnone.symm.trans hplace
      | succ n =>
        exact ⟨n, fun m hm => hbelow (m + 1) (Nat.succ_le_succ hm),
          fun m hm => hbefore (m + 1) (Nat.succ_lt_succ hm), hplace⟩
  | case3 radius hlimit hnone hgrows hnext =>
    have hstays := Binary64.add_eq_of_not_lt hradius hlimit hstep hnext hgrows
    refine iff_of_false (by simp) fun h => ?_
    obtain ⟨n, -, -, hplace⟩ := h
    rw [radiusAfter_of_add_eq hstays] at hplace
    cases hnone.symm.trans hplace
  | case4 radius hlimit hnone hgrows hnext =>
    refine iff_of_false (by simp) fun h => ?_
    obtain ⟨n, hbelow, -, hplace⟩ := h
    cases n with
    | zero => cases hnone.symm.trans hplace
    | succ n => exact hnext (hbelow 1 (Nat.le_add_left 1 n))
  | case5 radius hlimit =>
    refine iff_of_false (by simp) fun h => ?_
    obtain ⟨n, hbelow, -⟩ := h
    exact hlimit (hbelow 0 n.zero_le)

theorem exists_of_searchFrom_endless {onRing? : Binary64 → Option Position}
    {limit step radius : Binary64} (hradius : 0 ≤ radius) (hstep : ¬step ≤ 0)
    (h : searchFrom onRing? limit step radius = .endless) :
    ∃ r, 0 ≤ r ∧ r < limit ∧ r + step = r := by
  fun_induction searchFrom onRing? limit step radius with
  | case1 => cases h
  | case2 radius hlimit hnone hgrows ih => exact ih (Binary64.le_of_le_of_lt hradius hgrows) h
  | case3 radius hlimit hnone hgrows hnext =>
    exact ⟨radius, hradius, hlimit, Binary64.add_eq_of_not_lt hradius hlimit hstep hnext hgrows⟩
  | case4 => cases h
  | case5 => cases h

/-- Sums never pass a radius that the step does not change. -/
theorem radiusAfter_lt {limit step radius r : Binary64} (hstep : ¬step ≤ 0) (hr : 0 ≤ r)
    (hlimit : r < limit) (hfixed : r + step = r) (hradius : 0 ≤ radius)
    (hle : radius.key ≤ r.key) (n : ℕ) : radiusAfter step radius n < limit := by
  have hrFinite := Binary64.isFinite_of_lt hr hlimit
  have hfinite : step.isFinite = true := by
    refine Binary64.isFinite_of_not_lt hrFinite hstep ?_ ?_
    · rw [hfixed]
      exact Binary64.isNaN_of_isFinite hrFinite
    · rw [hfixed]
      exact fun h => (Binary64.key_lt_of_lt h).false
  induction n generalizing radius with
  | zero =>
    obtain ⟨-, hlimitNaN, hkey⟩ := Binary64.lt_iff_key.1 hlimit
    exact Binary64.lt_iff_key.2 ⟨(Binary64.le_iff_key.1 hradius).2.1, hlimitNaN, hle.trans_lt hkey⟩
  | succ n ih =>
    obtain ⟨hzero, hnan, hkey⟩ := Binary64.le_iff_key.1 hradius
    have hbound := (Binary64.isFinite_iff.1 hrFinite).2
    have hradiusFinite : radius.isFinite = true := by
      rw [Binary64.key_zero] at hkey
      exact Binary64.isFinite_iff.2 ⟨hnan, by omega⟩
    have hgrow := Binary64.key_le_key_add hradiusFinite hfinite
      (Binary64.pos_of_not_le hstep hfinite).le
    refine ih (Binary64.le_iff_key.2 ⟨hzero, ?_, hkey.trans hgrow⟩) ?_
    · exact (Binary64.isRounded_add hradiusFinite hfinite).1
    · calc (radius + step).key ≤ (r + step).key :=
            Binary64.key_add_mono hradiusFinite hrFinite hfinite hfinite hle le_rfl
        _ = r.key := by rw [hfixed]

/-- All radii are below the limit exactly where one that is stays the same. -/
theorem forall_radiusAfter_lt_iff {limit step : Binary64} (hstep : ¬step ≤ 0) :
    (∀ n, radiusAfter step 0 n < limit) ↔ ∃ r, 0 ≤ r ∧ r < limit ∧ r + step = r := by
  have hzero : (0 : Binary64) ≤ 0 := Binary64.le_refl Binary64.isNaN_zero
  constructor
  · intro h
    -- A search among rings without an answer goes from radius to radius.
    have hendless : searchFrom (fun _ => none) limit step 0 = .endless := by
      rw [searchFrom_eq_endless_iff hzero hstep]
      exact fun n => ⟨h n, rfl⟩
    exact exists_of_searchFrom_endless hzero hstep hendless
  · intro h n
    obtain ⟨r, hr, hlimit, hfixed⟩ := h
    exact radiusAfter_lt hstep hr hlimit hfixed hzero (Binary64.le_iff_key.1 hr).2.2 n

/-! ## The search on a canvas -/

theorem not_ringStep_le (c : Canvas) : ¬c.ringStep.toBinary64 ≤ 0 :=
  fun h => c.ringStep_pos (Quantity.le_zero_of_toBinary64_le h)

/-- The radius of the ring behind `n` others. -/
def radiusAt (c : Canvas) (n : ℕ) : Binary64 := radiusAfter c.ringStep.toBinary64 0 n

theorem radiusAt_zero (c : Canvas) : c.radiusAt 0 = 0 := rfl

theorem radiusAt_succ (c : Canvas) (n : ℕ) :
    c.radiusAt (n + 1) = c.radiusAt n + c.ringStep.toBinary64 :=
  radiusAfter_succ _ _ n

/-- The rings inside one below the limit are below the limit. -/
theorem radiusAt_lt_of_le {c : Canvas} {limit : Binary64} {m n : ℕ} (hmn : m ≤ n)
    (h : c.radiusAt n < limit) : c.radiusAt m < limit := by
  induction n, hmn using Nat.le_induction with
  | base => exact h
  | succ n _ ih =>
    rw [radiusAt_succ] at h
    exact ih (Binary64.lt_of_add_lt c.not_ringStep_le h)

/-- A radius below the limit that a step does not change. -/
structure StallsAt (c : Canvas) (r : Binary64) : Prop where
  nonneg : 0 ≤ r
  below : r < c.shortSide.half
  fixed : r + c.ringStep.toBinary64 = r

variable {c : Canvas} {directions : List (Binary64 × Binary64)} {e : Extent} {occupied : List Box}
  {r : Binary64}

/-- A search finds the free place of the first ring that has one. -/
theorem search_eq_found_iff {place : Position} :
    c.search directions e occupied = .found place ↔
      ∃ n, (∀ m ≤ n, c.radiusAt m < c.shortSide.half) ∧
        (∀ m < n, c.freeOnRing? directions e (occupied.map Box.rounded) (c.radiusAt m) = none) ∧
          c.freeOnRing? directions e (occupied.map Box.rounded) (c.radiusAt n) = some place :=
  searchFrom_eq_found_iff (Binary64.le_refl Binary64.isNaN_zero) c.not_ringStep_le

/-- A search is endless exactly where all rings are below the limit and none
has a free place. -/
theorem search_eq_endless_iff :
    c.search directions e occupied = .endless ↔ ∀ n, c.radiusAt n < c.shortSide.half ∧
      c.freeOnRing? directions e (occupied.map Box.rounded) (c.radiusAt n) = none :=
  searchFrom_eq_endless_iff (Binary64.le_refl Binary64.isNaN_zero) c.not_ringStep_le

theorem exists_ringPlace_eq (c : Canvas) (e : Extent) (radius : Binary64)
    (direction : Binary64 × Binary64) :
    ∃ x y, ringPlace c.center e.half radius direction = ⟨.real x, .real y⟩ :=
  ⟨_, _, rfl⟩

/-- A place that is found has been found on a ring. -/
theorem exists_ringPlace_of_search {place : Position}
    (h : c.search directions e occupied = .found place) :
    ∃ radius direction, ringPlace c.center e.half radius direction = place := by
  obtain ⟨n, -, -, hring⟩ := search_eq_found_iff.1 h
  obtain ⟨-, direction, -, hplace⟩ := exists_of_freeOnRing? hring
  exact ⟨c.radiusAt n, direction, hplace⟩

/-- The numbers that are asked for before there is a ring. -/
structure CanStart (c : Canvas) (occupied : List Box) : Prop where
  boxes : occupied.all Box.hasDoubles = true
  shortSide : c.shortSide.hasDouble = true

/-- Where there is a ring, a free place is what the search finds, and there is
none where the search is full. -/
theorem freePlace?_eq_ok_iff_of_lt {rings : Except Failure (List (Binary64 × Binary64))}
    {found : Option Position} (hlimit : 0 < c.shortSide.half) :
    c.freePlace? rings e occupied = .ok found ↔ c.CanStart occupied ∧ c.hasCenter = true ∧
      ∃ directions, rings = .ok directions ∧ c.canCompare e occupied = true ∧
        ((∃ place, c.search directions e occupied = .found place ∧ found = some place) ∨
          c.search directions e occupied = .full ∧ c.ringStep.hasDouble = true ∧ found = none) := by
  simp only [freePlace?, if_pos hlimit, guard_eq_ok_iff, bind_eq_ok_iff, Bool.not_eq_true',
    Bool.not_eq_false, Bool.and_eq_true]
  refine and_congr ⟨fun h => ⟨h.1, h.2⟩, fun h => ⟨h.boxes, h.shortSide⟩⟩ ?_
  refine and_congr_right fun _ => exists_congr fun directions => ?_
  refine and_congr_right fun _ => and_congr_right fun _ => ?_
  cases c.search directions e occupied with
  | found place =>
    constructor
    · intro h
      cases h
      exact .inl ⟨place, rfl, rfl⟩
    · intro h
      obtain ⟨_, ⟨⟩, rfl⟩ | ⟨⟨⟩, -⟩ := h
      rfl
  | full =>
    dsimp only
    constructor
    · intro h
      split_ifs at h with hstep
      cases h
      exact .inr ⟨rfl, hstep, rfl⟩
    · intro h
      obtain ⟨_, ⟨⟩, -⟩ | ⟨-, hstep, rfl⟩ := h
      exact if_pos hstep
  | endless =>
    refine iff_of_false (fun h => by cases h) fun h => ?_
    obtain ⟨_, ⟨⟩, -⟩ | ⟨⟨⟩, -⟩ := h

/-- Without a ring there is no free place. -/
theorem freePlace?_eq_ok_iff_of_not_lt {rings : Except Failure (List (Binary64 × Binary64))}
    {found : Option Position} (hlimit : ¬0 < c.shortSide.half) :
    c.freePlace? rings e occupied = .ok found ↔ c.CanStart occupied ∧ found = none := by
  simp only [freePlace?, if_neg hlimit, guard_eq_ok_iff, Bool.not_eq_true', Bool.not_eq_false,
    Bool.and_eq_true]
  refine and_congr ⟨fun h => ⟨h.1, h.2⟩, fun h => ⟨h.boxes, h.shortSide⟩⟩ ?_
  exact ⟨fun h => (Except.ok.inj h).symm, fun h => congrArg Except.ok h.symm⟩

/-- A free place is found by a search in known directions. -/
theorem exists_search_of_freePlace? {rings : Except Failure (List (Binary64 × Binary64))}
    {place : Position} (h : c.freePlace? rings e occupied = .ok (some place)) :
    ∃ directions, rings = .ok directions ∧ c.search directions e occupied = .found place := by
  by_cases hlimit : 0 < c.shortSide.half
  · obtain ⟨-, -, directions, hrings, -, ⟨found, hsearch, hfound⟩ | ⟨-, -, ⟨⟩⟩⟩ :=
      (freePlace?_eq_ok_iff_of_lt hlimit).1 h
    cases hfound
    exact ⟨directions, hrings, hsearch⟩
  · cases ((freePlace?_eq_ok_iff_of_not_lt hlimit).1 h).2

/-- A place is chosen for the middle of a text, and goes back by half its size. -/
theorem Chooses.exists_eq {rings : Except Failure (List (Binary64 × Binary64))}
    {g g' : Generator} {s : Segment} {place : Position} {advice : List Diagnostic}
    (h : c.Chooses rings occupied g s e place advice g') :
    ∃ x y, place = ⟨.real (x - e.width.half), .real (y - e.height.half)⟩ := by
  cases h with
  | tagged | middle => exact ⟨_, _, rfl⟩
  | free _ hfree =>
    obtain ⟨directions, -, hsearch⟩ := exists_search_of_freePlace? hfree
    obtain ⟨radius, direction, rfl⟩ := exists_ringPlace_of_search hsearch
    exact ⟨_, _, rfl⟩

/-- The rings come to an end exactly where no radius stalls. -/
theorem exists_not_radiusAt_lt_iff :
    (∃ n, ¬c.radiusAt n < c.shortSide.half) ↔ ∀ r, ¬c.StallsAt r := by
  rw [← not_iff_not]
  push Not
  refine (forall_radiusAfter_lt_iff c.not_ringStep_le).trans ?_
  constructor
  · intro h
    obtain ⟨r, hr, hlimit, hfixed⟩ := h
    exact ⟨r, hr, hlimit, hfixed⟩
  · intro h
    obtain ⟨r, hr, hlimit, hfixed⟩ := h
    exact ⟨r, hr, hlimit, hfixed⟩

theorem search_ne_endless (h : ∀ r, ¬c.StallsAt r) : c.search directions e occupied ≠ .endless := by
  obtain ⟨n, hn⟩ := exists_not_radiusAt_lt_iff.2 h
  rw [Ne, search_eq_endless_iff]
  exact fun hall => hn (hall n).1

/-- No radius stalls where the limit is at most `2 ^ 53` steps away. -/
theorem not_stallsAt_of_le (hlimit : c.shortSide.half.isFinite = true)
    (hstep : c.ringStep.toBinary64.isFinite = true)
    (h : c.shortSide.half.value ≤ 2 ^ 53 * c.ringStep.toBinary64.value) : ¬c.StallsAt r := by
  intro hstalls
  have hpos := Binary64.pos_of_not_le c.not_ringStep_le hstep
  exact Binary64.add_ne_of_lt hstalls.nonneg hstalls.below hpos hstep hlimit h hstalls.fixed

/-! ## Texts that fit nowhere -/

/-- A text fits nowhere if none of the places on rings, which are doubles, is
inside the margins. -/
def FitsNowhere (c : Canvas) (e : Extent) : Prop :=
  ∀ x y, c.insideMargins e ⟨.real x, .real y⟩ = false

theorem FitsNowhere.search_eq_endless (h : c.FitsNowhere e) (hr : c.StallsAt r) :
    c.search directions e occupied = .endless := by
  rw [search_eq_endless_iff]
  intro n
  constructor
  · by_contra hn
    exact exists_not_radiusAt_lt_iff.1 ⟨n, hn⟩ r hr
  · refine freeOnRing?_eq_none_iff.2 fun direction _ hfree => ?_
    have houtside : c.insideMargins e (ringPlace c.center e.half (c.radiusAt n) direction) = false :=
      h _ _
    rw [hfree.inside] at houtside
    cases houtside

/-- A text that is wider than the room between the margins fits nowhere. -/
theorem fitsNowhere_of_lt {width margin w : Binary64} (hwidth : c.width = .real width)
    (hmargin : c.margin = .real margin) (hw : e.width = .real w)
    (hmarginFinite : margin.isFinite = true) (hwFinite : w.isFinite = true)
    (h : width - margin < margin + w) : c.FitsNowhere e := by
  intro x y
  by_contra hinside
  rw [Bool.not_eq_false, insideMargins, hwidth, hmargin, hw] at hinside
  simp only [Bool.and_eq_true, decide_eq_true_eq] at hinside
  obtain ⟨⟨⟨hleft, -⟩, hright⟩, -⟩ := hinside
  obtain ⟨-, hxNaN, hx⟩ := Binary64.le_iff_key.1 (Quantity.real_le_real.1 hleft)
  have hsum := (Binary64.le_iff_key.1 (Quantity.real_le_real.1 hright)).2.2
  have hroom := Binary64.key_lt_of_lt h
  have hbound := Binary64.natAbs_key_le (margin + w)
  -- The right side is at least that of a text at the margin, or infinite.
  cases x with
  | finite negative m =>
    have hmono := Binary64.key_add_mono hmarginFinite rfl hwFinite hwFinite hx le_rfl
    exact absurd (hmono.trans hsum) hroom.not_ge
  | infinity negative =>
    obtain ⟨sign, m, rfl⟩ := Binary64.exists_finite_of_isFinite hwFinite
    cases negative with
    | true =>
      have hlow := (Binary64.isFinite_iff.1 hmarginFinite).2
      have hkey : (Binary64.infinity true).key = -rankLimit := rfl
      have hxKey : margin.key ≤ (Binary64.infinity true).key := hx
      omega
    | false =>
      have hkey : (Binary64.infinity false + Binary64.finite sign m).key = rankLimit := rfl
      have hsumKey : (Binary64.infinity false + Binary64.finite sign m).key ≤
        (width - margin).key := hsum
      omega
  | nan => cases hxNaN

/-- No text has a place on a canvas whose right margin is not defined. -/
theorem fitsNowhere_of_isNaN {width margin : Binary64} (hwidth : c.width = .real width)
    (hmargin : c.margin = .real margin) (h : (width - margin).isNaN = true) : c.FitsNowhere e := by
  intro x y
  by_contra hinside
  rw [Bool.not_eq_false, insideMargins, hwidth, hmargin] at hinside
  simp only [Bool.and_eq_true, decide_eq_true_eq] at hinside
  have hright : (!(Quantity.real x + e.width).isNaN && !(width - margin).isNaN && _) = true :=
    hinside.1.2
  rw [h] at hright
  simp at hright

end Canvas

end KineticText
