/-
# ForwardBackward.Proofs.Secants -- directions stay in the space

Every slot of a history holds two vectors of one structure with finite entries,
and a real factor (`History.Fits`).  That is so before there is any pair, and an
offered pair keeps it so (`Fits.update`): a pair is stored only if its curvature
is a positive number.  The direction for a residual is then a vector of the
structure again (`Fits.direction`).
-/
import ForwardBackward.Proofs.Computations
import ForwardBackward.Proofs.Points
import ForwardBackward.History

namespace ForwardBackward

set_option autoImplicit false

variable {s : Structure}

theorem Entries.zeros_denotes (n : Nat) {k : Kind} (inexact : ∀ w, k ≠ .whole w) :
    (Entries.zeros n k : Entries Exact).Denotes (List.replicate n 0) := by
  cases k with
  | whole w => exact absurd rfl (inexact w)
  | real p => exact Denotes.real_iff.mpr ⟨List.replicate n 0, by simp, by simp⟩
  | complex p => exact Denotes.complex_iff.mpr (by simp)

namespace NDArray

/-- Slots shaped after an array of fractions hold fractions. -/
theorem spec_inexact {a : NDArray Exact} {us : List ℂ} (ha : a.entries.Denotes us) (w : Width) :
    a.spec.kind ≠ .whole w := by
  intro firm
  change a.kind.firm = .whole w at firm
  cases kind : a.kind with
  | whole v => exact ha.kind_ne_whole v kind
  | real p => simp [kind, Kind.firm] at firm
  | complex p => simp [kind, Kind.firm] at firm

theorem zeros_denotes {a : NDArray Exact} {us : List ℂ} (ha : a.entries.Denotes us) :
    (zeros a.spec : NDArray Exact).entries.Denotes (us.map fun _ => 0) := by
  have count : us.length = volume a.shape := by rw [ha.length_eq, a.fits]
  rw [List.map_const', count]
  exact Entries.zeros_denotes _ (spec_inexact ha)

end NDArray

namespace LeavesDenote

variable {as bs : List (NDArray Exact)} {ps : List Spec} {us vs : List ℂ}

/-- Arrays stored over slots of the same shapes. -/
theorem stored (ha : LeavesDenote as ps us) (hb : LeavesDenote bs ps vs) :
    ∃ cs ws, List.Forall₂ (fun p c =>
        (do p.1.storedIn (← Vec.toArray (Tree.leaf p.2))) = Except.ok c) (as.zip bs) cs ∧
      LeavesDenote cs ps ws := by
  induction ha generalizing bs vs with
  | nil =>
      cases hb
      exact ⟨[], [], .nil, .nil⟩
  | cons shape denotes _ ih =>
      cases hb with
      | cons shape' denotes' rest =>
          obtain ⟨cs, ws, each, kept⟩ := ih rest
          obtain ⟨c, zs, made, shape'', denoted⟩ := NDArray.storedIn_denotes denotes
            (NDArray.denotes_enter denotes') (shape'.trans shape.symm)
          refine ⟨c :: cs, zs ++ ws, .cons ?_ each, .cons (shape''.trans shape) denoted kept⟩
          rw [Vec.toArray_leaf, NDArray.asArray_of_denotes denotes']
          exact made

end LeavesDenote

namespace Vec.Fits

variable {x slot z : Vec Exact}

theorem zeros (hx : x.Fits s) : (Vec.zeros x.spec : Vec Exact).Fits s := by
  obtain ⟨us, hx⟩ := hx
  have leaves := hx.leaves.map (fun a => NDArray.zeros a.spec) (fun _ => 0) fun denotes =>
    ⟨rfl, NDArray.zeros_denotes denotes⟩
  refine ⟨us.map fun _ => 0, hx.skeleton, ?_⟩
  simpa [Vec.zeros, Vec.spec, Tree.map, Function.comp_def] using leaves

/-- A vector stored over a slot of the ring. -/
theorem fill (hs : slot.Fits s) (hx : x.Fits s) (stored : History.fill slot x = .ok z) :
    z.Fits s := by
  obtain ⟨vs, hs⟩ := hs
  obtain ⟨us, hx⟩ := hx
  obtain ⟨cs, ws, each, leaves⟩ := hs.leaves.stored hx.leaves
  obtain ⟨fits, done⟩ := Tree.combineParts_same
    (f := fun a u => do NDArray.storedIn a (← toArray u))
    (hs.skeleton.trans hx.skeleton.symm) each
  cases stored.symm.trans done
  exact ⟨ws, hs.skeleton, leaves⟩

end Vec.Fits

/-- A slot that holds two vectors of a structure and a real factor. -/
structure SecantPair.Fits (s : Structure) (p : SecantPair Exact) : Prop where
  step : p.s.Fits s
  change : p.y.Fits s
  factor : ∃ ρ, p.rho = .real ρ

namespace History

/-- A history whose slots, filled or not, hold vectors of a structure. -/
def Fits (s : Structure) (h : History Exact) : Prop := ∀ p ∈ h.slots, p.Fits s

theorem empty_fits {x : Vec Exact} (hx : x.Fits s) (capacity : Nat) :
    (empty x capacity).Fits s := by
  intro p inside
  obtain rfl := List.eq_of_mem_replicate inside
  exact ⟨hx.zeros, hx.zeros, 0, by simp⟩

/-- An accepted pair has a positive curvature. -/
theorem curvature_pos {x y : Vec Exact} {curvature : ℝ} (hx : x.Fits s) (hy : y.Fits s)
    (accepted : accepts x y (.real curvature) = true) : 0 < curvature := by
  have flat : ∃ f : ℝ, 0 ≤ f ∧ (flatness : Exact) = .real f := by
    refine ⟨1 / 10 ^ 10, by positivity, ?_⟩
    change Exact.real (((1 : ℕ) : ℝ) / 10 ^ 10) = _
    norm_num
  obtain ⟨f, nonneg, flat⟩ := flat
  simp only [accepts, hx.norm_eq, hy.norm_eq, flat, Exact.real_mul, Bool.and_eq_true,
    Bool.not_eq_true', Bool.or_eq_false_iff] at accepted
  have above : ¬ curvature ≤ f * ‖x.point s‖ * ‖y.point s‖ := by
    rw [← Exact.le_real]
    simp [accepted.2.2]
  have product : 0 ≤ f * ‖x.point s‖ * ‖y.point s‖ := by positivity
  linarith

theorem Fits.store {h h' : History Exact} {x y : Vec Exact} {curvature : ℝ} (hh : h.Fits s)
    (hx : x.Fits s) (hy : y.Fits s) (positive : 0 < curvature)
    (stored : h.store x y (.real curvature) = .ok h') : h'.Fits s := by
  unfold History.store at stored
  split at stored
  · cases stored
    exact hh
  · next slot found =>
      simp only [bind_accepts, pure_accepts] at stored
      obtain ⟨x', filled, y', filled', rfl⟩ := stored
      have old := hh slot (List.mem_of_getElem? found)
      intro p inside
      rcases List.mem_or_eq_of_mem_set inside with inside | rfl
      · exact hh p inside
      · refine ⟨old.step.fill hx filled, old.change.fill hy filled', 1 / curvature, ?_⟩
        rw [Exact.one_eq, Exact.real_div _ _ positive.ne']

/-- A pair that is offered leaves only vectors of the structure in the slots. -/
theorem Fits.update {h h' : History Exact} {xbar xbarPrev r rPrev : Vec Exact} (hh : h.Fits s)
    (hx : xbar.Fits s) (hx' : xbarPrev.Fits s) (hr : r.Fits s) (hr' : rPrev.Fits s)
    (offered : h.update xbar xbarPrev r rPrev = .ok h') : h'.Fits s := by
  unfold History.update at offered
  split at offered
  · cases offered
    exact hh
  · simp only [bind_accepts] at offered
    obtain ⟨x, moved, y, turned, curvature, product, offered⟩ := offered
    obtain ⟨fitsX, _⟩ := hx.of_sub hx' moved
    obtain ⟨fitsY, _⟩ := hr.of_sub hr' turned
    cases product.symm.trans (fitsX.inner_eq fitsY)
    split at offered
    · next accepted =>
        exact hh.store fitsX fitsY (curvature_pos fitsX fitsY accepted) offered
    · cases offered
      exact hh

theorem twoLoop_fits {start : Vec Exact → Except Fault (Vec Exact)}
    (scaled : ∀ q z, q.Fits s → start q = .ok z → z.Fits s) {pairs : List (SecantPair Exact)}
    (each : ∀ p ∈ pairs, p.Fits s) {q z : Vec Exact} (hq : q.Fits s)
    (done : twoLoop start pairs q = .ok z) : z.Fits s := by
  induction pairs generalizing q z with
  | nil => exact scaled q z hq done
  | cons p older ih =>
      obtain ⟨hs, hy, ρ, factor⟩ := each p List.mem_cons_self
      simp only [twoLoop, bind_accepts, hs.inner_eq hq, factor] at done
      obtain ⟨_, ⟨⟩, q', lowered, z', looped, _, product, raised⟩ := done
      obtain ⟨fitsQ, _⟩ := hq.of_sub (hy.scale _) lowered
      have fitsZ := ih (fun p inside => each p (List.mem_cons_of_mem _ inside)) fitsQ looped
      cases product.symm.trans (hy.inner_eq fitsZ)
      rw [Exact.real_mul, Exact.real_mul, Exact.real_sub] at raised
      exact (fitsZ.of_add (hs.scale _) raised).1

theorem scaling_fits {p : SecantPair Exact} {q z : Vec Exact} (hp : p.Fits s) (hq : q.Fits s)
    (done : scaling p q = .ok z) : z.Fits s := by
  obtain ⟨_, hy, ρ, factor⟩ := hp
  simp only [scaling, bind_accepts, pure_accepts, hy.sqnorm_eq, factor] at done
  obtain ⟨_, ⟨⟩, h, quotient, rfl⟩ := done
  rw [Exact.one_eq, Exact.real_mul, Exact.quotient_real] at quotient
  rw [quotient.2]
  exact hq.scale _

/-- The direction for a vector of the structure is one. -/
theorem Fits.direction {h : History Exact} {r d : Vec Exact} (hh : h.Fits s) (hr : r.Fits s)
    (asked : h.direction r = .ok d) : d.Fits s := by
  have negated : (r.scale (-1)).Fits s := by
    rw [Exact.one_eq, Exact.neg_real]
    exact hr.scale _
  have recent : ∀ p ∈ h.recent, p.Fits s := by
    intro p inside
    obtain ⟨k, _, found⟩ := List.mem_filterMap.mp inside
    exact hh p (List.mem_of_getElem? found)
  unfold History.direction at asked
  split at asked
  · cases asked
    exact negated
  · next newest older pairs =>
      rw [pairs] at recent
      simp only [hr.isFinite_eq, bind_accepts] at asked
      obtain ⟨_, ⟨⟩, asked⟩ := asked
      rw [if_pos rfl, bind_accepts] at asked
      obtain ⟨z, looped, asked⟩ := asked
      have fitsZ : z.Fits s := twoLoop_fits
        (fun q z hq done => scaling_fits (recent newest List.mem_cons_self) hq done) recent hr
        looped
      rw [pure_accepts] at asked
      split at asked
      · rw [asked, Exact.one_eq, Exact.neg_real]
        exact fitsZ.scale _
      · rw [asked]
        exact negated

end History

end ForwardBackward
