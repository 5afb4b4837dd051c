/-
# ForwardBackward.Proofs.Queue -- a ring of secant pairs is a bounded queue

An `Offer` is what a history is offered at a time, and `Offer.pair?` its pair if
the pair is accepted.  After any offers a ring of `M` slots is a queue of the last
`M` accepted pairs (`History.Queues`): with `n` pairs accepted, pair `j` is in slot
`j mod M` as long as fewer than `M` pairs came after it, `head` is `n mod M`, and
the pairs are read from the newest to the oldest (`Queues.recent_eq`).  What is in
a slot is the pair as a slot keeps it, stored over a slot of zeros
(`SecantPair.StoredAs`).

One offer is `Queues.offer`, all of them `Queues.offerAll`.  Neither says anything
about what is offered; if the vectors are like the one that the ring is shaped
after, every slot holds the pair itself, and `refines_queue` is the statement
about the whole history.

The direction depends on the pairs alone (`directionAlong`).  All of this holds
for every arithmetic.
-/
import ForwardBackward.Proofs.Exact
import ForwardBackward.Proofs.Slots

namespace ForwardBackward

set_option autoImplicit false

variable {R : Type} [Scalar R]

/-! ## Offers -/

/-- Two iterates and their residuals, each pair with the newer one first. -/
structure Offer (R : Type) [Scalar R] where
  xbar : Vec R
  xbarPrev : Vec R
  r : Vec R
  rPrev : Vec R

namespace Offer

/-- The step, the change of residual and the reciprocal of the curvature, if the pair is
accepted. -/
def pair? (o : Offer R) : Option (SecantPair R) := do
  let s ← (o.xbar.sub o.xbarPrev).toOption
  let y ← (o.r.sub o.rPrev).toOption
  let curvature ← (s.inner y).toOption
  if History.accepts s y curvature then some ⟨s, y, 1 / curvature⟩ else none

theorem toOption_eq_some {α : Type} {x : Except Fault α} {a : α} :
    x.toOption = some a ↔ x = .ok a := by
  cases x <;> simp [Except.toOption]

theorem pair?_eq_some {o : Offer R} {p : SecantPair R} :
    o.pair? = some p ↔ o.xbar.sub o.xbarPrev = .ok p.s ∧ o.r.sub o.rPrev = .ok p.y ∧
      ∃ curvature, p.s.inner p.y = .ok curvature ∧ History.accepts p.s p.y curvature = true ∧
        p.rho = 1 / curvature := by
  unfold pair?
  constructor
  · intro pair
    simp only [Option.bind_eq_bind, Option.bind_eq_some_iff, Option.ite_none_right_eq_some,
      toOption_eq_some, Option.some.injEq] at pair
    obtain ⟨s, moved, y, turned, curvature, product, accepted, rfl⟩ := pair
    exact ⟨moved, turned, curvature, product, accepted, rfl⟩
  · rintro ⟨moved, turned, curvature, product, accepted, rho⟩
    obtain ⟨s, y, _⟩ := p
    simp only at moved turned product accepted rho
    simp [moved, turned, product, accepted, rho, Except.toOption]

/-- An offer of vectors like the ones of a structure. -/
structure Like (s : Structure) (o : Offer R) : Prop where
  xbar : o.xbar.Like s
  xbarPrev : o.xbarPrev.Like s
  r : o.r.Like s
  rPrev : o.rPrev.Like s

end Offer

/-- The accepted pairs of some offers, the oldest first. -/
def accepted (os : List (Offer R)) : List (SecantPair R) := os.filterMap Offer.pair?

/-- How many offers are skipped. -/
def skipped (os : List (Offer R)) : Nat := os.countP fun o => o.pair?.isNone

theorem accepted_add_skipped (os : List (Offer R)) :
    (accepted os).length + skipped os = os.length := by
  induction os with
  | nil => rfl
  | cons o os ih =>
      simp only [accepted, skipped] at ih ⊢
      cases pair : o.pair? with
      | none =>
          simp only [List.filterMap_cons_none pair, List.countP_cons, pair, Option.isNone_none,
            if_true, List.length_cons]
          omega
      | some p =>
          simp only [List.filterMap_cons_some pair, List.countP_cons, pair, Option.isNone_some,
            Bool.false_eq_true, if_false, List.length_cons]
          omega

namespace SecantPair

/-- A pair as a ring keeps it: each vector stored over a slot of zeros. -/
structure StoredAs (S : Structure) (raw p : SecantPair R) : Prop where
  s : History.fill (Vec.zeros S) raw.s = .ok p.s
  y : History.fill (Vec.zeros S) raw.y = .ok p.y
  rho : p.rho = raw.rho

/-- The same pair, in the kinds that its numbers are kept in. -/
def firm (p : SecantPair R) : SecantPair R := ⟨p.s.firm, p.y.firm, p.rho⟩

/-- A slot shaped after a structure. -/
structure Keeps (S : Structure) (p : SecantPair R) : Prop where
  s : p.s.Keeps S
  y : p.y.Keeps S

end SecantPair

/-- The history after an offer. -/
def History.offer (h : History R) (o : Offer R) : Except Fault (History R) :=
  h.update o.xbar o.xbarPrev o.r o.rPrev

/-- An offer that every ring shaped after a structure answers. -/
def Offer.Answered (S : Structure) (o : Offer R) : Prop :=
  ∀ h : History R, (∀ p ∈ h.slots, p.Keeps S) → ∃ h', h.offer o = .ok h'

namespace History

variable {S : Structure} {M q : Nat} {Q : List (SecantPair R)} {h h' : History R}
  {o : Offer R} {os : List (Offer R)}

/-- The history after some offers. -/
def offerAll (h : History R) (os : List (Offer R)) : Except Fault (History R) :=
  os.foldlM offer h

/-- The history with an offer counted and nothing stored. -/
def skip (h : History R) : History R := { h with rejected := h.rejected + 1 }

/-- The history with a pair in the next slot. -/
def push (h : History R) (p : SecantPair R) : History R :=
  { h with
    slots := h.slots.set h.head p
    head := (h.head + 1) % h.capacity
    size := min (h.size + 1) h.capacity }

theorem offerAll_cons : h.offerAll (o :: os) = h.offer o >>= fun h => h.offerAll os :=
  List.foldlM_cons

/-- What an offer does to a ring with slots: it is counted, or its pair is stored. -/
theorem offer_accepts {slot : SecantPair R} (slots : h.capacity ≠ 0)
    (found : h.slots[h.head]? = some slot) (offered : h.offer o = .ok h') :
    (o.pair? = none ∧ h' = h.skip) ∨
      ∃ raw s y, o.pair? = some raw ∧ fill slot.s raw.s = .ok s ∧ fill slot.y raw.y = .ok y ∧
        h' = h.push ⟨s, y, raw.rho⟩ := by
  unfold offer update at offered
  rw [if_neg slots] at offered
  simp only [bind_accepts] at offered
  obtain ⟨s, moved, y, turned, curvature, product, offered⟩ := offered
  have pair : o.pair? = if accepts s y curvature then some ⟨s, y, 1 / curvature⟩ else none := by
    unfold Offer.pair?
    rw [moved, turned]
    simp only [Except.toOption, bind, Option.bind, product]
  split at offered
  · next accepted =>
      rw [if_pos accepted] at pair
      unfold store at offered
      rw [found] at offered
      simp only [bind_accepts, pure_accepts] at offered
      obtain ⟨s', filled, y', filled', rfl⟩ := offered
      exact .inr ⟨_, s', y', pair, filled, filled', rfl⟩
  · next refused =>
      rw [if_neg refused] at pair
      cases offered
      exact .inl ⟨pair, rfl⟩

/-! ## The queue -/

/-- A ring of `M` slots that holds the last `M` of some pairs, `q` offers having been skipped. -/
structure Queues (S : Structure) (M q : Nat) (Q : List (SecantPair R)) (h : History R) : Prop where
  capacity : h.capacity = M
  shaped : ∀ p ∈ h.slots, p.Keeps S
  head : h.head = Q.length % M
  size : h.size = min Q.length M
  rejected : h.rejected = q
  slot : ∀ j < Q.length, Q.length ≤ j + M → h.slots[j % M]? = Q[j]?

theorem empty_queues (x : Vec R) (M : Nat) : (empty x M).Queues x.spec M 0 [] := by
  refine ⟨List.length_replicate, ?_, ?_, ?_, rfl, ?_⟩
  · intro p inside
    obtain rfl := List.eq_of_mem_replicate inside
    exact ⟨Vec.zeros_keeps _, Vec.zeros_keeps _⟩
  · simp [empty]
  · simp [empty]
  · intro j below
    simp at below

/-- Two numbers less than `M` apart have different slots. -/
theorem mod_ne_mod_of_near {j n : Nat} (below : j < n) (near : n < j + M) : j % M ≠ n % M := by
  intro same
  have multiple : M ∣ n - j := Nat.dvd_of_mod_eq_zero (Nat.sub_mod_eq_zero_of_mod_eq same.symm)
  have large : M ≤ n - j := Nat.le_of_dvd (by omega) multiple
  omega

theorem Queues.skip (queue : h.Queues S M q Q) : h.skip.Queues S M (q + 1) Q :=
  ⟨queue.capacity, queue.shaped, queue.head, queue.size, by simp [History.skip, queue.rejected],
    queue.slot⟩

theorem Queues.push {p : SecantPair R} (queue : h.Queues S M q Q) (slots : 0 < M)
    (keeps : p.Keeps S) : (h.push p).Queues S M q (Q ++ [p]) := by
  have inside : h.head < h.slots.length := by
    rw [queue.head, show h.slots.length = M from queue.capacity]
    exact Nat.mod_lt _ slots
  refine ⟨?_, ?_, ?_, ?_, queue.rejected, ?_⟩
  · simp [History.push, History.capacity, ← queue.capacity]
  · intro p' member
    rcases List.mem_or_eq_of_mem_set member with member | rfl
    · exact queue.shaped p' member
    · exact keeps
  · simp [History.push, queue.head, queue.capacity]
  · simp only [History.push, queue.size, queue.capacity, List.length_append, List.length_singleton]
    omega
  · -- the slot that is written is the one of the pair `M` places before
    intro j below near
    rw [List.length_append, List.length_singleton] at below near
    simp only [History.push]
    rcases Nat.lt_or_eq_of_le (Nat.le_of_lt_succ below) with older | rfl
    · have apart : h.head ≠ j % M := by
        rw [queue.head]
        exact (mod_ne_mod_of_near older (by omega)).symm
      rw [List.getElem?_set_ne apart, queue.slot j older (by omega),
        List.getElem?_append_left older]
    · rw [← queue.head, List.getElem?_set_self inside, List.getElem?_concat_length]

/-- One offer to a ring: it is counted, or its pair joins the queue. -/
theorem Queues.offer (queue : h.Queues S M q Q) (slots : 0 < M)
    (offered : h.offer o = .ok h') :
    (o.pair? = none ∧ h' = h.skip ∧ h'.Queues S M (q + 1) Q) ∨
      ∃ raw p, o.pair? = some raw ∧ raw.StoredAs S p ∧ h' = h.push p ∧
        h'.Queues S M q (Q ++ [p]) := by
  have some : h.capacity ≠ 0 := by rw [queue.capacity]; omega
  have inside : h.head < h.slots.length := by
    rw [queue.head, show h.slots.length = M from queue.capacity]
    exact Nat.mod_lt _ slots
  have old := queue.shaped _ (List.getElem_mem inside)
  rcases offer_accepts some (List.getElem?_eq_getElem inside) offered with
    ⟨refused, rfl⟩ | ⟨raw, s, y, pair, filled, filled', rfl⟩
  · exact .inl ⟨refused, rfl, queue.skip⟩
  · refine .inr ⟨raw, ⟨s, y, raw.rho⟩, pair, ⟨?_, ?_, rfl⟩, rfl, queue.push slots ⟨?_, ?_⟩⟩
    · exact Vec.fill_of_keeps old.s (Vec.zeros_keeps S) filled
    · exact Vec.fill_of_keeps old.y (Vec.zeros_keeps S) filled'
    · exact old.s.fill filled
    · exact old.y.fill filled'

/-- All offers to a ring: the accepted pairs join the queue, in order. -/
theorem Queues.offerAll (queue : h.Queues S M q Q) (slots : 0 < M)
    (offered : h.offerAll os = .ok h') :
    ∃ P, List.Forall₂ (SecantPair.StoredAs S) (accepted os) P ∧
      h'.Queues S M (q + skipped os) (Q ++ P) := by
  induction os generalizing h q Q with
  | nil =>
      cases offered
      exact ⟨[], .nil, by simpa [skipped] using queue⟩
  | cons o os ih =>
      rw [offerAll_cons, bind_accepts] at offered
      obtain ⟨h₁, first, rest⟩ := offered
      rcases queue.offer slots first with ⟨refused, _, next⟩ | ⟨raw, p, pair, stored, _, next⟩
      · obtain ⟨P, kept, last⟩ := ih next rest
        refine ⟨P, ?_, ?_⟩
        · simpa [accepted, refused] using kept
        · have count : q + skipped (o :: os) = q + 1 + skipped os := by
            simp only [skipped, List.countP_cons, refused, Option.isNone_none, if_true]
            omega
          rw [count]
          exact last
      · obtain ⟨P, kept, last⟩ := ih next rest
        refine ⟨p :: P, ?_, ?_⟩
        · simpa [accepted, pair] using List.Forall₂.cons stored kept
        · simpa [skipped, pair] using last

/-! ## Answers -/

/-- An offer is answered if its vectors can be subtracted, multiplied and stored. -/
theorem answered_of_stored {s y s' y' : Vec R} {curvature : R}
    (moved : o.xbar.sub o.xbarPrev = .ok s) (turned : o.r.sub o.rPrev = .ok y)
    (product : s.inner y = .ok curvature) (filled : fill (Vec.zeros S) s = .ok s')
    (filled' : fill (Vec.zeros S) y = .ok y') : o.Answered S := by
  intro h shaped
  unfold offer update
  split
  · exact ⟨h, rfl⟩
  · simp only [moved, turned, product, bind, Except.bind]
    split
    · unfold store
      split
      · exact ⟨h, rfl⟩
      · next slot found =>
          have keeps := shaped slot (List.mem_of_getElem? found)
          simp only [Vec.fill_of_keeps (Vec.zeros_keeps S) keeps.s filled,
            Vec.fill_of_keeps (Vec.zeros_keeps S) keeps.y filled', bind, Except.bind]
          exact ⟨_, rfl⟩
    · exact ⟨_, rfl⟩

theorem Queues.answers (queue : h.Queues S M q Q) (slots : 0 < M)
    (answered : ∀ o ∈ os, o.Answered S) : ∃ h', h.offerAll os = .ok h' := by
  induction os generalizing h q Q with
  | nil => exact ⟨h, rfl⟩
  | cons o os ih =>
      obtain ⟨h₁, first⟩ := answered o List.mem_cons_self h queue.shaped
      have others : ∀ o ∈ os, o.Answered S := fun o inside =>
        answered o (List.mem_cons_of_mem _ inside)
      rw [offerAll_cons, first]
      rcases queue.offer slots first with ⟨_, _, next⟩ | ⟨_, _, _, _, _, next⟩
      · exact ih next others
      · exact ih next others

theorem offerAll_of_nil (none : h.slots = []) (os : List (Offer R)) : h.offerAll os = .ok h := by
  induction os with
  | nil => rfl
  | cons o os ih =>
      rw [offerAll_cons, offer, update_of_nil none]
      exact ih

/-- A ring answers all offers if each is one that rings answer. -/
theorem empty_answers (x : Vec R) (M : Nat) (answered : ∀ o ∈ os, o.Answered x.spec) :
    ∃ h, (empty x M).offerAll os = .ok h := by
  rcases Nat.eq_zero_or_pos M with rfl | slots
  · exact ⟨_, offerAll_of_nil rfl os⟩
  · exact (empty_queues x M).answers slots answered

/-! ## Reading the queue -/

/-- `k` places back from the head of `n` pairs is the slot of pair `n - 1 - k`. -/
theorem back_mod {n k : Nat} (old : k < n) (near : k < M) :
    (n % M + M - 1 - k) % M = (n - 1 - k) % M := by
  have parts : M * (n / M) + n % M = n := Nat.div_add_mod n M
  have places : n - 1 - k + M = n % M + M - 1 - k + M * (n / M) := by omega
  rw [← Nat.add_mod_right (n - 1 - k) M, places, Nat.add_mul_mod_self_left]

/-- The slot `k` places back from the head holds the `k`-th newest pair. -/
theorem Queues.slot_eq {k : Nat} (queue : h.Queues S M q Q) (filled : k < h.size) :
    h.slots[(h.head + M - 1 - k) % M]? = Q.reverse[k]? := by
  rw [queue.size] at filled
  have old : k < Q.length := by omega
  have near : k < M := by omega
  rw [queue.head, back_mod old near, queue.slot _ (by omega) (by omega),
    List.getElem?_reverse old]

theorem filterMap_range_getElem? {α : Type} (l : List α) (n : Nat) :
    (List.range n).filterMap (fun k => l[k]?) = l.take n := by
  induction n with
  | zero => simp
  | succ n ih =>
      rw [List.range_succ, List.filterMap_append, ih, List.take_add_one]
      cases found : l[n]? <;> simp [found]

/-- The pairs that are read are the last ones, the newest first. -/
theorem Queues.recent_eq (queue : h.Queues S M q Q) : h.recent = Q.reverse.take M := by
  have slots : ∀ k ∈ List.range h.size,
      h.slots[(h.head + h.capacity - 1 - k) % h.capacity]? = Q.reverse[k]? := by
    intro k inside
    rw [queue.capacity]
    exact queue.slot_eq (List.mem_range.mp inside)
  have length : Q.reverse.take (min Q.length M) = Q.reverse.take M := by
    rw [List.take_eq_take_iff, List.length_reverse]
    omega
  unfold recent
  rw [List.filterMap_congr slots, filterMap_range_getElem?, queue.size, length]

/-- The direction along some pairs, the newest first. -/
def directionAlong (pairs : List (SecantPair R)) (r : Vec R) : Except Fault (Vec R) :=
  match pairs with
  | [] => .ok (r.scale (-1))
  | newest :: older => do
    if ← r.isFinite then
      let z ← twoLoop (scaling newest) (newest :: older) r
      let d := z.scale (-1)
      pure (if d.allFinite then d else r.scale (-1))
    else pure (r.scale (-1))

theorem direction_eq (h : History R) (r : Vec R) : h.direction r = directionAlong h.recent r := by
  unfold direction directionAlong
  cases h.recent <;> rfl

theorem ofCapacity_accepts {x : Vec R} (begun : ofCapacity x (.whole M) = .ok h) :
    h = empty x M := by
  have arrays : ∀ {as bs : List (NDArray R)},
      List.Forall₂ (fun a b => a.requireArray "shape" = .ok b) as bs → bs = as := by
    intro as bs each
    induction each with
    | nil => rfl
    | cons head _ ih =>
        unfold NDArray.requireArray at head
        split at head
        · cases head
          rw [ih]
        · cases head
  unfold ofCapacity at begun
  simp only [bind_accepts, pure_accepts] at begun
  obtain ⟨x', traversed, _, slots, rfl⟩ := begun
  cases slots
  obtain ⟨skeleton, each⟩ := Tree.forall_of_traverse traversed
  obtain rfl : x' = x := Tree.ext skeleton (arrays each)
  rfl

theorem offerAll_empty {x : Vec R} (offered : (empty x 0).offerAll os = .ok h) :
    h = empty x 0 := by
  cases offered.symm.trans (offerAll_of_nil rfl os)
  rfl

/-- The pairs that are read are the last accepted ones, as they are stored. -/
theorem recent_stored {x : Vec R} (offered : (empty x M).offerAll os = .ok h) :
    List.Forall₂ (SecantPair.StoredAs x.spec) ((accepted os).reverse.take M) h.recent := by
  rcases Nat.eq_zero_or_pos M with rfl | slots
  · obtain rfl := offerAll_empty offered
    rw [List.take_zero]
    exact .nil
  · obtain ⟨P, stored, queue⟩ := (empty_queues x M).offerAll slots offered
    rw [queue.recent_eq, List.nil_append]
    exact List.forall₂_take M (List.rel_reverse stored)

theorem length_recent {x : Vec R} (offered : (empty x M).offerAll os = .ok h) :
    h.recent.length = h.size := by
  rcases Nat.eq_zero_or_pos M with rfl | slots
  · obtain rfl := offerAll_empty offered
    rfl
  · obtain ⟨P, _, queue⟩ := (empty_queues x M).offerAll slots offered
    rw [queue.recent_eq, queue.size, List.length_take, List.length_reverse, Nat.min_comm]

/-! ## Offers of vectors like the first one -/

theorem storable_of_pair (like : o.Like S) {p : SecantPair R} (pair : o.pair? = some p) :
    p.s.Storable S ∧ p.y.Storable S := by
  obtain ⟨moved, turned, _⟩ := Offer.pair?_eq_some.mp pair
  exact ⟨like.xbar.of_sub like.xbarPrev moved, like.r.of_sub like.rPrev turned⟩

/-- Truth values have no difference; every other offer is answered. -/
theorem answered_of_like (like : o.Like S) (numbers : ∀ p ∈ S.leaves, p.kind ≠ .whole .flag) :
    o.Answered S := by
  obtain ⟨s, moved⟩ := like.xbar.sub like.xbarPrev numbers
  obtain ⟨y, turned⟩ := like.r.sub like.rPrev numbers
  have storable := like.xbar.of_sub like.xbarPrev moved
  have storable' := like.r.of_sub like.rPrev turned
  obtain ⟨curvature, product⟩ := storable.like.inner storable'.like
  exact answered_of_stored moved turned product (Vec.fill_firm (Vec.zeros_keeps S) storable)
    (Vec.fill_firm (Vec.zeros_keeps S) storable')

/-- Pairs that slots can hold are held as they are. -/
theorem stored_eq_firm {ps Q : List (SecantPair R)}
    (stored : List.Forall₂ (SecantPair.StoredAs S) ps Q)
    (storable : ∀ p ∈ ps, p.s.Storable S ∧ p.y.Storable S) : Q = ps.map SecantPair.firm := by
  induction stored with
  | nil => rfl
  | @cons raw p _ _ head _ ih =>
      obtain ⟨hs, hy⟩ := storable raw List.mem_cons_self
      have first : p = raw.firm := by
        obtain ⟨s, y, rho⟩ := p
        cases head.s.symm.trans (Vec.fill_firm (Vec.zeros_keeps S) hs)
        cases head.y.symm.trans (Vec.fill_firm (Vec.zeros_keeps S) hy)
        rw [SecantPair.firm, ← head.rho]
        rfl
      rw [first, ih fun p inside => storable p (List.mem_cons_of_mem _ inside), List.map_cons]

/-- What the history of the last `M` of some accepted pairs holds after `q` skipped ones: its
numbers, and in the slot `k` places back from the head the `k`-th newest pair `(s, y)` with
`1 / ⟨s, y⟩`. -/
structure Holds (M : Nat) (P : List (SecantPair R)) (q : Nat) (h : History R) : Prop where
  head : h.head = P.length % M
  size : h.size = min P.length M
  rejected : h.rejected = q
  slot : ∀ k < h.size, ∃ p curvature, P.reverse[k]? = some p ∧
    p.s.inner p.y = .ok curvature ∧
    h.slots[(h.head + M - 1 - k) % M]? = some ⟨p.s.firm, p.y.firm, 1 / curvature⟩

section Reached

variable {x : Vec R} {h₀ : History R}

theorem storable_of_accepted (like : ∀ o ∈ os, o.Like S) :
    ∀ p ∈ accepted os, p.s.Storable S ∧ p.y.Storable S := by
  intro p inside
  obtain ⟨o, offered, pair⟩ := List.mem_filterMap.mp inside
  exact storable_of_pair (like o offered) pair

/-- After offers of vectors like the first one, the queue is that of the pairs themselves. -/
theorem reached_queues (begun : ofCapacity x (.whole M) = .ok h₀)
    (like : ∀ o ∈ os, o.Like x.spec) (slots : 0 < M) (offered : h₀.offerAll os = .ok h) :
    h.Queues x.spec M (skipped os) ((accepted os).map SecantPair.firm) := by
  obtain rfl := ofCapacity_accepts begun
  obtain ⟨P, stored, queue⟩ := (empty_queues x M).offerAll slots offered
  obtain rfl := stored_eq_firm stored (storable_of_accepted like)
  simpa using queue

theorem Queues.holds (queue : h.Queues S M q ((accepted os).map SecantPair.firm)) :
    h.Holds M (accepted os) q := by
  have length : ((accepted os).map SecantPair.firm).length = (accepted os).length :=
    List.length_map _
  refine ⟨length ▸ queue.head, length ▸ queue.size, queue.rejected, ?_⟩
  intro k filled
  have old : k < (accepted os).reverse.length := by
    have size := queue.size
    rw [length] at size
    rw [List.length_reverse]
    omega
  have found := List.getElem?_eq_getElem old
  obtain ⟨o, _, pair⟩ := List.mem_filterMap.mp
    (List.mem_reverse.mp (List.getElem_mem old))
  obtain ⟨_, _, curvature, product, _, rho⟩ := Offer.pair?_eq_some.mp pair
  refine ⟨_, curvature, found, product, ?_⟩
  rw [queue.slot_eq filled, ← List.map_reverse, List.getElem?_map, found, ← rho]
  rfl

/-- What one more offer changes. -/
theorem Queues.changes (queue : h.Queues S M q Q) (slots : 0 < M) (like : o.Like S)
    (offered : h.offer o = .ok h') :
    (o.pair? = none → h' = h.skip) ∧ ∀ p, o.pair? = some p → h' = h.push p.firm := by
  rcases queue.offer slots offered with ⟨refused, skipped, _⟩ | ⟨raw, p, pair, stored, pushed, _⟩
  · exact ⟨fun _ => skipped, fun p pair => by simp [refused] at pair⟩
  · refine ⟨fun refused => by simp [pair] at refused, ?_⟩
    rintro _ same
    cases pair.symm.trans same
    have kept := stored_eq_firm (.cons stored .nil) fun p inside => by
      obtain rfl := List.mem_singleton.mp inside
      exact storable_of_pair like pair
    rw [pushed, List.head_eq_of_cons_eq kept]

/-- The direction is one along the last accepted pairs. -/
theorem reached_direction (begun : ofCapacity x (.whole M) = .ok h₀)
    (like : ∀ o ∈ os, o.Like x.spec) (offered : h₀.offerAll os = .ok h) (r : Vec R) :
    h.direction r = directionAlong (((accepted os).reverse.take M).map SecantPair.firm) r := by
  obtain rfl := ofCapacity_accepts begun
  have storable : ∀ p ∈ (accepted os).reverse.take M,
      p.s.Storable x.spec ∧ p.y.Storable x.spec := by
    intro p inside
    exact storable_of_accepted like p (List.mem_reverse.mp (List.mem_of_mem_take inside))
  rw [direction_eq, stored_eq_firm (recent_stored offered) storable]

end Reached

/-- A ring of `M` slots that was offered vectors like the one it is shaped after is the queue
of the last `M` accepted pairs, and the direction is a function of these. -/
theorem refines_queue {x : Vec R} {M : Nat} {h₀ : History R} {os : List (Offer R)}
    (begun : ofCapacity x (.whole M) = .ok h₀) (like : ∀ o ∈ os, o.Like x.spec) :
    ((M = 0 ∨ ∀ p ∈ x.spec.leaves, p.kind ≠ .whole .flag) → ∃ h, h₀.offerAll os = .ok h) ∧
      ∀ h, h₀.offerAll os = .ok h →
        (M = 0 → h = h₀) ∧ (0 < M → h.Holds M (accepted os) (skipped os)) ∧
        (∀ o h', o.Like x.spec → h.offer o = .ok h' →
          (M = 0 → h' = h) ∧
          (0 < M → o.pair? = none → h' = { h with rejected := h.rejected + 1 }) ∧
          (0 < M → ∀ p, o.pair? = some p → h' = { h with
            slots := h.slots.set h.head p.firm
            head := (h.head + 1) % M
            size := min (h.size + 1) M })) ∧
        (∀ r, h.direction r =
          directionAlong (((accepted os).reverse.take M).map SecantPair.firm) r) ∧
        ∀ M' h₀' h', (accepted os).length ≤ M → (accepted os).length ≤ M' →
          ofCapacity x (.whole M') = .ok h₀' → h₀'.offerAll os = .ok h' →
          ∀ r, h'.direction r = h.direction r := by
  refine ⟨?_, fun h offered => ⟨?_, ?_, ?_, reached_direction begun like offered, ?_⟩⟩
  · intro answered
    obtain rfl := ofCapacity_accepts begun
    rcases answered with rfl | numbers
    · exact ⟨_, offerAll_of_nil rfl os⟩
    · exact empty_answers x M fun o inside => answered_of_like (like o inside) numbers
  · rintro rfl
    obtain rfl := ofCapacity_accepts begun
    exact offerAll_empty offered
  · intro slots
    exact (reached_queues begun like slots offered).holds
  · intro o h' likeO next
    refine ⟨?_, fun slots => ?_, fun slots => ?_⟩
    · rintro rfl
      obtain rfl := ofCapacity_accepts begun
      obtain rfl := offerAll_empty offered
      have single : (empty x 0).offerAll [o] = .ok h' := by
        rw [offerAll_cons, next]
        rfl
      exact offerAll_empty single
    · exact ((reached_queues begun like slots offered).changes slots likeO next).1
    · have queue := reached_queues begun like slots offered
      intro p pair
      rw [(queue.changes slots likeO next).2 p pair, push, queue.capacity]
  · intro M' h₀' h' fits fits' begun' offered' r
    have all : ∀ N, (accepted os).length ≤ N →
        (accepted os).reverse.take N = (accepted os).reverse :=
      fun N enough => List.take_of_length_le (by rwa [List.length_reverse])
    rw [reached_direction begun like offered, reached_direction begun' like offered', all M fits,
      all M' fits']

/-- An array of one number. -/
def single (a : R) : Vec R := .leaf ⟨[1], .real .double [a], rfl⟩

/-- Two slots and four offers of single numbers, one of them without a step. -/
theorem single_refines_queue :
    ∃ h₀ h : History Exact, ∃ os : List (Offer Exact), os.length = 4 ∧
      ofCapacity (single (0 : Exact)) (.whole 2) = .ok h₀ ∧ h₀.offerAll os = .ok h ∧
      h.Holds 2 (accepted os) (skipped os) := by
  have alike : ∀ a b : Exact, (single a).Like (single b).spec := by
    intro a b
    exact ⟨rfl, .cons ⟨rfl, rfl⟩ .nil⟩
  have like : ∀ o ∈ [⟨single 1, single 0, single 2, single 0⟩,
      ⟨single 1, single 1, single 3, single 2⟩, ⟨single 3, single 1, single 3, single 2⟩,
      (⟨single 4, single 3, single 4, single 3⟩ : Offer Exact)],
      o.Like (single (0 : Exact)).spec := by
    intro o inside
    simp only [List.mem_cons, List.not_mem_nil, or_false] at inside
    rcases inside with rfl | rfl | rfl | rfl <;>
      exact ⟨alike _ _, alike _ _, alike _ _, alike _ _⟩
  have begun : ofCapacity (single (0 : Exact)) (.whole 2) =
      .ok (empty (single (0 : Exact)) 2) := rfl
  have numbers : ∀ p ∈ (single (0 : Exact)).spec.leaves, p.kind ≠ .whole .flag := by
    intro p inside flags
    obtain rfl := List.mem_singleton.mp inside
    cases flags
  obtain ⟨answered, refines⟩ := refines_queue begun like
  obtain ⟨h, offered⟩ := answered (.inr numbers)
  exact ⟨_, h, _, rfl, begun, offered, (refines h offered).2.1 (by decide)⟩

end History

end ForwardBackward
