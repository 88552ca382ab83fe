import KineticText.Canvas.Basic
import KineticText.Proofs.Datum.Number
import KineticText.Proofs.Number.Clamp
import KineticText.Proofs.Number.Line

/-!
# Canvases that are made

A canvas is made from named values.  Its width, height and margin are the named
numbers, and its fonts the named values (`ends_ofEntries`); with a size given
apart, the sides are the nearest doubles (`ends_ofSize`).  Where all values are
numbers of known names, and the sides are not beyond all doubles, nothing but a
fault keeps a canvas from being made, and none does where the values are in range
(`exists_ofEntries_iff`).
-/

namespace KineticText

def Datum.IsNumber (v : Datum) : Prop := ∃ q, v.quantity? = some q

namespace Canvas

variable {entries others : List (String × Datum)} {width height v usual : Datum} {c : Canvas}

/-! ## Named values -/

theorem lookup_getD {P : Datum → Prop} {key : String} (h : ∀ v, (key, v) ∈ entries → P v)
    (husual : P usual) : P ((entries.lookup key).getD usual) := by
  cases hlookup : entries.lookup key with
  | none => exact husual
  | some v =>
    obtain ⟨l, r, hentries, -⟩ := List.lookup_eq_some_iff.1 hlookup
    exact h v (by simp [hentries])

/-- A number is accepted or refused by a fault.  `fit` is what makes the value a
number. -/
theorem ends_accept {fit : Prop} (p : Quantity → Prop) [DecidablePred p] (fault : Fault)
    {v : Datum} (hv : fit → v.IsNumber) :
    Ends (fun q => v.quantity? = some q.1) (fun f => f.IsFault ∨ ¬fit) (accept p fault v) := by
  have hquantity : Ends (fun q => v.quantity? = some q) (fun f => f.IsFault ∨ ¬fit)
      v.quantity := by
    unfold Datum.quantity
    cases hquantity : v.quantity? with
    | some q => exact rfl
    | none =>
      refine .inr fun hfit => ?_
      obtain ⟨q, hq⟩ := hv hfit
      rw [hquantity] at hq
      cases hq
  refine hquantity.bind fun q hq => ?_
  split_ifs with h
  · exact hq
  · exact .inl ⟨fault, rfl⟩

theorem ends_double {fit : Prop} {q : Quantity} (hq : fit → q.hasDouble = true) :
    Ends (fun x => x = q.toBinary64 ∧ q.hasDouble = true) (fun f => f.IsFault ∨ ¬fit)
      q.double := by
  unfold Quantity.double
  split_ifs with h
  · exact ⟨rfl, h⟩
  · exact .inr fun hfit => h (hq hfit)

/-- Named values that fit a canvas: all of them are numbers of known names, and
size and margin are among them. -/
structure Fit (entries : List (String × Datum)) : Prop where
  known : ∀ e ∈ entries, e.1 ∈ sizeKeys ∨ e.1 ∈ layoutKeys
  needed : ∀ key ∈ "margin" :: sizeKeys, (entries.lookup key).isSome
  numbers : ∀ e ∈ entries, e.2.IsNumber

theorem Fit.all_known (h : Fit entries) :
    (entries.all fun (key, _) => sizeKeys.contains key || layoutKeys.contains key) = true :=
  List.all_eq_true.2 fun e he => by simpa using h.known e he

theorem Fit.all_needed (h : Fit entries) :
    (("margin" :: sizeKeys).all fun key => (entries.lookup key).isSome) = true :=
  List.all_eq_true.2 h.needed

/-- The size, margin and fonts of a canvas of named values. -/
structure Describes (entries : List (String × Datum)) (c : Canvas) : Prop where
  width : ((entries.lookup "canvas_width").getD (.real 0)).quantity? = some c.width
  height : ((entries.lookup "canvas_height").getD (.real 0)).quantity? = some c.height
  margin : ((entries.lookup "margin").getD (.real 0)).quantity? = some c.margin
  fontSize : c.fontSize = (entries.lookup "font_size").getD (.real 32)
  glyphWidthRatio : c.glyphWidthRatio = (entries.lookup "glyph_width_ratio").getD (.real 0.6)
  lineHeightRatio : c.lineHeightRatio = (entries.lookup "line_height_ratio").getD (.real 1.2)

theorem ends_ofEntries (entries : List (String × Datum)) :
    Ends (Describes entries) (fun f => f.IsFault ∨ ¬Fit entries) (ofEntries entries) := by
  have haccept (p : Quantity → Prop) [DecidablePred p] (fault : Fault) (key : String)
      (usual : Datum) (husual : usual.IsNumber) :=
    ends_accept p fault fun hfit : Fit entries =>
      lookup_getD (fun v hv => hfit.numbers (key, v) hv) husual
  have hreal (x : Binary64) : (Datum.real x).IsNumber := ⟨_, rfl⟩
  unfold ofEntries
  refine Ends.guard ?_ fun _ => Ends.guard ?_ fun _ => ?_
  · intro hunknown
    refine .inr fun hfit => ?_
    rw [hfit.all_known] at hunknown
    cases hunknown
  · intro hmissing
    refine .inr fun hfit => ?_
    rw [hfit.all_needed] at hmissing
    cases hmissing
  dsimp only
  refine (haccept _ _ _ _ (hreal _)).bind fun width hwidth => ?_
  refine (haccept _ _ _ _ (hreal _)).bind fun height hheight => ?_
  refine (haccept _ _ _ _ (hreal _)).bind fun margin hmargin => ?_
  refine (haccept _ _ _ _ (hreal _)).bind fun minSpacing _ => ?_
  refine (haccept _ _ _ _ (hreal _)).bind fun ringStep _ => ?_
  refine (haccept _ _ _ _ ⟨_, rfl⟩).bind fun ringSamples _ => ?_
  exact ⟨hwidth, hheight, hmargin, rfl, rfl, rfl⟩

/-! ## Values in range -/

/-- The value of a name, or the usual one, is a number with a property. -/
def Named (entries : List (String × Datum)) (key : String) (usual : Datum)
    (p : Quantity → Prop) : Prop :=
  ∃ q, ((entries.lookup key).getD usual).quantity? = some q ∧ p q

/-- Named values that no check of a canvas refuses. -/
structure InRange (entries : List (String × Datum)) : Prop where
  width : Named entries "canvas_width" (.real 0) (¬· ≤ 0)
  height : Named entries "canvas_height" (.real 0) (¬· ≤ 0)
  margin : Named entries "margin" (.real 0) (¬· < 0)
  minSpacing : Named entries "min_spacing" (.real 20) (¬· < 0)
  ringStep : Named entries "spiral_step" (.real 20) (¬· ≤ 0)
  ringSamples : Named entries "spiral_samples" (.int 8) (¬· < 1)

theorem ends_accept_inRange (p : Quantity → Prop) [DecidablePred p] (fault : Fault) (v : Datum) :
    Ends (fun q => v.quantity? = some q.1) (fun _ => ¬∃ q, v.quantity? = some q ∧ p q)
      (accept p fault v) := by
  unfold accept Datum.quantity
  cases v.quantity? with
  | none => exact fun ⟨q, hq, _⟩ => nomatch hq
  | some q =>
    simp only [bind, Except.bind]
    split_ifs with h
    · exact rfl
    · rintro ⟨_, ⟨⟩, hq⟩
      exact h hq

/-- Where the values fit, a canvas is made if and only if they are in range. -/
theorem exists_ofEntries_iff (hfit : Fit entries) :
    (∃ c, ofEntries entries = .ok c) ↔ InRange entries := by
  have haccept (p : Quantity → Prop) [DecidablePred p] (fault : Fault) (key : String)
      (usual : Datum) (hkey : InRange entries → Named entries key usual p) :=
    (ends_accept_inRange p fault ((entries.lookup key).getD usual)).mono (fun _ h => h)
      fun _ hnone hrange => hnone (hkey hrange)
  unfold ofEntries
  refine Ends.exists_ok_iff (Ends.guard (fun hunknown => ?_) fun _ =>
    Ends.guard (fun hmissing => ?_) fun _ => ?_)
  · rw [hfit.all_known] at hunknown
    cases hunknown
  · rw [hfit.all_needed] at hmissing
    cases hmissing
  dsimp only
  refine (haccept _ _ _ _ InRange.width).bind fun width hwidth => ?_
  refine (haccept _ _ _ _ InRange.height).bind fun height hheight => ?_
  refine (haccept _ _ _ _ InRange.margin).bind fun margin hmargin => ?_
  refine (haccept _ _ _ _ InRange.minSpacing).bind fun minSpacing hminSpacing => ?_
  refine (haccept _ _ _ _ InRange.ringStep).bind fun ringStep hringStep => ?_
  refine (haccept _ _ _ _ InRange.ringSamples).bind fun ringSamples hringSamples => ?_
  exact ⟨⟨_, hwidth, width.2⟩, ⟨_, hheight, height.2⟩, ⟨_, hmargin, margin.2⟩,
    ⟨_, hminSpacing, minSpacing.2⟩, ⟨_, hringStep, ringStep.2⟩, ⟨_, hringSamples, ringSamples.2⟩⟩

/-! ## Sizes -/

/-- A size and named values that fit a canvas: all of them are numbers, the
sides with a double near them, and the names are known. -/
structure SizeFit (width height : Datum) (others : List (String × Datum)) : Prop where
  width : ∃ q, width.quantity? = some q ∧ q.hasDouble = true
  height : ∃ q, height.quantity? = some q ∧ q.hasDouble = true
  known : ∀ e ∈ others, e.1 ∈ layoutKeys
  numbers : ∀ e ∈ others, e.2.IsNumber

/-- The size, margin and fonts of a canvas of a size and named values. -/
structure Sized (width height : Datum) (others : List (String × Datum)) (c : Canvas) : Prop where
  width : ∃ q, width.quantity? = some q ∧ q.hasDouble = true ∧ c.width = q.rounded
  height : ∃ q, height.quantity? = some q ∧ q.hasDouble = true ∧ c.height = q.rounded
  margin : ((others.lookup "margin").getD (.real (c.width.toBinary64.smaller
    c.height.toBinary64 * 0.05))).quantity? = some c.margin
  fontSize : c.fontSize = (others.lookup "font_size").getD (.real 32)
  glyphWidthRatio : c.glyphWidthRatio = (others.lookup "glyph_width_ratio").getD (.real 0.6)
  lineHeightRatio : c.lineHeightRatio = (others.lookup "line_height_ratio").getD (.real 1.2)

/-- The named values that a size adds behind others. -/
def sizeEntries (x y : Binary64) : List (String × Datum) :=
  [("canvas_width", .real x), ("canvas_height", .real y), ("margin", .real (x.smaller y * 0.05))]

variable {x y : Binary64}

theorem fit_append_sizeEntries (hknown : ∀ e ∈ others, e.1 ∈ layoutKeys)
    (hnumbers : ∀ e ∈ others, e.2.IsNumber) : Fit (others ++ sizeEntries x y) where
  known := List.forall_mem_append.2 ⟨fun e he => .inr (hknown e he), by simp [sizeEntries, sizeKeys,
    layoutKeys]⟩
  needed := by
    intro key hkey
    have hlast : ((sizeEntries x y).lookup key).isSome = true := by
      simp only [sizeKeys, List.mem_cons, List.not_mem_nil, or_false] at hkey
      rcases hkey with rfl | rfl | rfl <;> rfl
    rw [List.lookup_append, Option.isSome_or, hlast, Bool.or_true]
  numbers := List.forall_mem_append.2 ⟨hnumbers, by simp [sizeEntries, Datum.IsNumber,
    Datum.quantity?]⟩

/-- Behind a size, names of a canvas stand for what they stand for without. -/
theorem Describes.sized {q r : Quantity} (hq : width.quantity? = some q)
    (hr : height.quantity? = some r) (hqDouble : q.hasDouble = true)
    (hrDouble : r.hasDouble = true) (hnames : ∀ e ∈ others, e.1 ∉ sizeKeys)
    (h : Describes (others ++ sizeEntries q.toBinary64 r.toBinary64) c) :
    Sized width height others c := by
  have hother (key : String) (hkey : key ∈ sizeKeys) : others.lookup key = none := by
    refine List.lookup_eq_none_iff.2 fun e he => bne_iff_ne.2 ?_
    rintro rfl
    exact hnames e he hkey
  obtain ⟨hwidth, hheight, hmargin, hfont, hglyph, hline⟩ := h
  simp only [List.lookup_append] at hwidth hheight hmargin hfont hglyph hline
  rw [hother "canvas_width" (by decide), Option.none_or] at hwidth
  rw [hother "canvas_height" (by decide), Option.none_or] at hheight
  have hwidth : Quantity.real q.toBinary64 = c.width := Option.some.inj hwidth
  have hheight : Quantity.real r.toBinary64 = c.height := Option.some.inj hheight
  have hnone {key : String} (hlast : (sizeEntries q.toBinary64 r.toBinary64).lookup key = none) :
      (others.lookup key).or ((sizeEntries q.toBinary64 r.toBinary64).lookup key) =
        others.lookup key := by
    rw [hlast, Option.or_none]
  refine ⟨⟨q, hq, hqDouble, hwidth.symm⟩, ⟨r, hr, hrDouble, hheight.symm⟩, ?_, ?_, ?_, ?_⟩
  · have hlast : (sizeEntries q.toBinary64 r.toBinary64).lookup "margin" =
        some (.real (q.toBinary64.smaller r.toBinary64 * 0.05)) := rfl
    rw [← hmargin, ← hwidth, ← hheight, hlast, Option.getD_or]
    rfl
  · rw [hfont, hnone rfl]
  · rw [hglyph, hnone rfl]
  · rw [hline, hnone rfl]

theorem notMem_sizeKeys : ∀ key ∈ layoutKeys, key ∉ sizeKeys := by decide

theorem ends_ofSize (width height : Datum) (others : List (String × Datum)) :
    Ends (Sized width height others) (fun f => f.IsFault ∨ ¬SizeFit width height others)
      (ofSize width height others) := by
  have hnumber {v : Datum} (hv : ∃ q, v.quantity? = some q ∧ q.hasDouble = true) : v.IsNumber :=
    hv.imp fun _ => And.left
  have hdouble {v : Datum} {q : Quantity} (hq : v.quantity? = some q)
      (hv : ∃ q, v.quantity? = some q ∧ q.hasDouble = true) : q.hasDouble = true := by
    obtain ⟨q', hq', hdouble⟩ := hv
    obtain rfl := Option.some.inj (hq.symm.trans hq')
    exact hdouble
  unfold ofSize
  refine Ends.guard ?_ fun hnames => ?_
  · intro hnames
    obtain ⟨e, he, hkey⟩ := List.any_eq_true.1 hnames
    refine .inr fun hfit => ?_
    exact notMem_sizeKeys e.1 (hfit.known e he) (List.contains_iff_mem.1 hkey)
  refine (ends_accept _ _ fun hfit => hnumber hfit.width).bind fun q hq => ?_
  refine (ends_accept _ _ fun hfit => hnumber hfit.height).bind fun r hr => ?_
  refine (ends_double fun hfit => hdouble hq hfit.width).bind fun x hx => ?_
  refine (ends_double fun hfit => hdouble hr hfit.height).bind fun y hy => ?_
  obtain ⟨rfl, hqDouble⟩ := hx
  obtain ⟨rfl, hrDouble⟩ := hy
  refine (ends_ofEntries _).mono (fun c hc => hc.sized hq hr hqDouble hrDouble ?_)
    fun f => Or.imp_right ?_
  · intro e he hkey
    exact hnames (List.any_eq_true.2 ⟨e, he, List.contains_iff_mem.2 hkey⟩)
  · intro hnot hfit
    exact hnot (fit_append_sizeEntries hfit.known hfit.numbers)

theorem accept_of_quantity? {p : Quantity → Prop} [DecidablePred p] {q : Quantity} (fault : Fault)
    (hq : v.quantity? = some q) (h : p q) : accept p fault v = .ok ⟨q, h⟩ := by
  simp only [accept, Datum.quantity, hq, bind, Except.bind, dif_pos h]
  rfl

/-- A canvas of a positive size is that of the values with the size behind them. -/
theorem SizeFit.ofSize_eq {q r : Quantity} (h : SizeFit width height others)
    (hq : width.quantity? = some q) (hr : height.quantity? = some r) (hqPos : ¬q ≤ 0)
    (hrPos : ¬r ≤ 0) :
    ofSize width height others = ofEntries (others ++ sizeEntries q.toBinary64 r.toBinary64) := by
  obtain ⟨q', hq', hqDouble⟩ := h.width
  obtain ⟨r', hr', hrDouble⟩ := h.height
  obtain rfl := Option.some.inj (hq.symm.trans hq')
  obtain rfl := Option.some.inj (hr.symm.trans hr')
  have hnames : (others.any fun (key, _) => sizeKeys.contains key) = false :=
    List.any_eq_false.2 fun e he hkey =>
      notMem_sizeKeys e.1 (h.known e he) (List.contains_iff_mem.1 hkey)
  have hdouble {q : Quantity} (h : q.hasDouble = true) : q.double = .ok q.toBinary64 := if_pos h
  have hwidth : accept (¬· ≤ 0) .canvasSize width = .ok ⟨q, hqPos⟩ := accept_of_quantity? _ hq hqPos
  have hheight : accept (¬· ≤ 0) .canvasSize height = .ok ⟨r, hrPos⟩ :=
    accept_of_quantity? _ hr hrPos
  unfold ofSize
  rw [hnames, if_neg Bool.false_ne_true, hwidth, hheight]
  simp only [bind, Except.bind, hdouble hqDouble, hdouble hrDouble]
  rfl

/-- A name stands for its value among others, and else for that of the size or the
usual one, which has the property. -/
theorem named_append_iff {p : Quantity → Prop} {key : String} (hnumbers : ∀ e ∈ others, e.2.IsNumber)
    (husual : ∃ q, (((sizeEntries x y).lookup key).getD usual).quantity? = some q ∧ p q) :
    Named (others ++ sizeEntries x y) key usual p ↔
      ∀ v q, others.lookup key = some v → v.quantity? = some q → p q := by
  rw [Named, List.lookup_append]
  cases hlookup : others.lookup key with
  | none => simpa using husual
  | some v =>
    obtain ⟨l, r, hmem, -⟩ := List.lookup_eq_some_iff.1 hlookup
    obtain ⟨q, hq⟩ := hnumbers (key, v) (by simp [hmem])
    constructor
    · rintro ⟨q', hq', hp⟩ _ r ⟨⟩ hr
      obtain rfl := Option.some.inj (hq'.symm.trans hr)
      exact hp
    · exact fun hall => ⟨q, hq, hall v q rfl hq⟩

/-- With a positive size behind them, named numbers are in range if those given
for a margin, a spacing and the rings are. -/
theorem inRange_append_iff (hknown : ∀ e ∈ others, e.1 ∈ layoutKeys)
    (hnumbers : ∀ e ∈ others, e.2.IsNumber) (hx : 0 < x) (hy : 0 < y) :
    InRange (others ++ sizeEntries x y) ↔
      (∀ v q, others.lookup "margin" = some v → v.quantity? = some q → ¬q < 0) ∧
      (∀ v q, others.lookup "min_spacing" = some v → v.quantity? = some q → ¬q < 0) ∧
      (∀ v q, others.lookup "spiral_step" = some v → v.quantity? = some q → ¬q ≤ 0) ∧
      ∀ v q, others.lookup "spiral_samples" = some v → v.quantity? = some q → ¬q < 1 := by
  have hside {x : Binary64} (hx : 0 < x) : ¬Quantity.real x ≤ 0 := by
    rw [Quantity.real_le_zero_iff]
    exact fun hle => Binary64.not_lt_of_le hle hx
  have hshort : ¬x.smaller y < 0 := by
    rw [Binary64.smaller]
    split_ifs
    · exact Binary64.not_lt_of_le (Binary64.le_of_lt hy)
    · exact Binary64.not_lt_of_le (Binary64.le_of_lt hx)
  have hmargin : ¬Quantity.real (x.smaller y * 0.05) < 0 := by
    rw [Quantity.real_lt_zero_iff]
    exact Binary64.not_mul_lt_zero hshort (by decide +kernel)
  have hnone {key : String} (hkey : key ∈ sizeKeys) (p : Quantity → Prop) :
      ∀ v q, others.lookup key = some v → v.quantity? = some q → p q := by
    intro v _ hlookup
    obtain ⟨l, r, hmem, -⟩ := List.lookup_eq_some_iff.1 hlookup
    exact absurd hkey (notMem_sizeKeys key (hknown (key, v) (by simp [hmem])))
  have hnamed (key : String) (usual : Datum) (p : Quantity → Prop)
      (husual : ∃ q, (((sizeEntries x y).lookup key).getD usual).quantity? = some q ∧ p q) :
      Named (others ++ sizeEntries x y) key usual p ↔
        ∀ v q, others.lookup key = some v → v.quantity? = some q → p q :=
    named_append_iff hnumbers husual
  have hwidth := hnamed "canvas_width" (.real 0) (¬· ≤ 0) ⟨_, rfl, hside hx⟩
  have hheight := hnamed "canvas_height" (.real 0) (¬· ≤ 0) ⟨_, rfl, hside hy⟩
  have hmargin := hnamed "margin" (.real 0) (¬· < 0) ⟨_, rfl, hmargin⟩
  have hspacing := hnamed "min_spacing" (.real 20) (¬· < 0) ⟨_, rfl, by decide +kernel⟩
  have hstep := hnamed "spiral_step" (.real 20) (¬· ≤ 0) ⟨_, rfl, by decide +kernel⟩
  have hsamples := hnamed "spiral_samples" (.int 8) (¬· < 1) ⟨_, rfl, by decide +kernel⟩
  constructor
  · intro h
    exact ⟨hmargin.1 h.margin, hspacing.1 h.minSpacing, hstep.1 h.ringStep,
      hsamples.1 h.ringSamples⟩
  · rintro ⟨h₁, h₂, h₃, h₄⟩
    exact ⟨hwidth.2 (hnone (by decide) _), hheight.2 (hnone (by decide) _), hmargin.2 h₁,
      hspacing.2 h₂, hstep.2 h₃, hsamples.2 h₄⟩

end Canvas

end KineticText
