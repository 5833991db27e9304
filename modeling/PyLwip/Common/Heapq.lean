import Mathlib.Order.Basic
import Mathlib.Data.Prod.Lex

/-!
# CPython's binary heap, with comparisons that may raise

`heapq` keeps a list so that every element is at most its two children.
Its comparisons are calls of `<`, and a call of `<` may raise, so each
operation returns the list it leaves behind beside its outcome: the C
implementation swaps elements in place, and a comparison that raises in
the middle of a sift leaves the swaps made so far.

The order a heap keeps is that of a `key`, a linear order the comparison
agrees with wherever the keys differ (`KeyedOn`). Where two keys are equal
the comparison may answer anything, or raise.
-/

namespace Heapq

variable {α ε κ : Type*} {lt : α → α → Except ε Bool}

/-! ## The operations -/

/-- Follow the path to the root, moving the element at `pos` up while it is
less than its parent. The position decreases, so `pos` is fuel enough. -/
def siftdown (lt : α → α → Except ε Bool) : ℕ → Array α → ℕ → Array α × Except ε Unit
  | 0, heap, _ => (heap, .ok ())
  | fuel + 1, heap, pos =>
    if h : 0 < pos ∧ pos < heap.size then
      match lt heap[pos] heap[(pos - 1) / 2] with
      | .error e => (heap, .error e)
      | .ok false => (heap, .ok ())
      | .ok true => siftdown lt fuel (heap.swap pos ((pos - 1) / 2)) ((pos - 1) / 2)
    else (heap, .ok ())

/-- Bubble the smaller child up until a leaf is hit, and return the leaf's
position. The position grows, so the size is fuel enough. -/
def sinkToLeaf (lt : α → α → Except ε Bool) : ℕ → Array α → ℕ → Array α × Except ε ℕ
  | 0, heap, pos => (heap, .ok pos)
  | fuel + 1, heap, pos =>
    if h : 2 * pos + 1 < heap.size then
      if h' : 2 * pos + 2 < heap.size then
        match lt heap[2 * pos + 1] heap[2 * pos + 2] with
        | .error e => (heap, .error e)
        | .ok true => sinkToLeaf lt fuel (heap.swap pos (2 * pos + 1)) (2 * pos + 1)
        | .ok false => sinkToLeaf lt fuel (heap.swap pos (2 * pos + 2)) (2 * pos + 2)
      else sinkToLeaf lt fuel (heap.swap pos (2 * pos + 1)) (2 * pos + 1)
    else (heap, .ok pos)

/-- Sink the root to a leaf, then move it up to its place. -/
def siftup (lt : α → α → Except ε Bool) (heap : Array α) : Array α × Except ε Unit :=
  match sinkToLeaf lt heap.size heap 0 with
  | (heap', .error e) => (heap', .error e)
  | (heap', .ok pos) => siftdown lt pos heap' pos

/-- `heapq.heappush`: append, then sift towards the root. -/
def heappush (lt : α → α → Except ε Bool) (heap : Array α) (item : α) :
    Array α × Except ε Unit :=
  siftdown lt heap.size (heap.push item) heap.size

/-- `heapq.heappop`, on a heap that is not empty: take the root away, put
the last element in its place and sift. -/
def heappop (lt : α → α → Except ε Bool) (heap : Array α) (h : 0 < heap.size) :
    Array α × Except ε α :=
  if h' : 0 < heap.pop.size then
    let r := siftup lt (heap.pop.set 0 heap[heap.size - 1])
    (r.1, r.2.map fun _ => heap[0])
  else (heap.pop, .ok heap[heap.size - 1])

/-! ## What the operations keep -/

theorem mem_of_mem_pop {heap : Array α} {x : α} (h : x ∈ heap.pop) : x ∈ heap := by
  rw [← Array.mem_toList_iff, Array.toList_pop] at h
  exact Array.mem_toList_iff.mp ((List.dropLast_subset _) h)

/-- With the last element in the root's place there is nothing new. -/
theorem mem_of_mem_pop_set {heap : Array α} (h : 0 < heap.size) (h' : 0 < heap.pop.size) {x : α}
    (hx : x ∈ heap.pop.set 0 heap[heap.size - 1]) : x ∈ heap := by
  rcases Array.mem_or_eq_of_mem_set hx with hx | rfl
  · exact mem_of_mem_pop hx
  · exact Array.getElem_mem _

theorem siftdown_perm (lt : α → α → Except ε Bool) (fuel : ℕ) (heap : Array α) (pos : ℕ) :
    (siftdown lt fuel heap pos).1.Perm heap := by
  induction fuel generalizing heap pos with
  | zero => exact Array.Perm.refl _
  | succ fuel ih =>
    rw [siftdown]
    split
    · split
      · exact Array.Perm.refl _
      · exact Array.Perm.refl _
      · exact (ih _ _).trans (Array.swap_perm ..)
    · exact Array.Perm.refl _

theorem sinkToLeaf_perm (lt : α → α → Except ε Bool) (fuel : ℕ) (heap : Array α) (pos : ℕ) :
    (sinkToLeaf lt fuel heap pos).1.Perm heap := by
  induction fuel generalizing heap pos with
  | zero => exact Array.Perm.refl _
  | succ fuel ih =>
    rw [sinkToLeaf]
    split
    · split
      · split
        · exact Array.Perm.refl _
        · exact (ih _ _).trans (Array.swap_perm ..)
        · exact (ih _ _).trans (Array.swap_perm ..)
      · exact (ih _ _).trans (Array.swap_perm ..)
    · exact Array.Perm.refl _

theorem siftup_perm (lt : α → α → Except ε Bool) (heap : Array α) :
    (siftup lt heap).1.Perm heap := by
  have hsink := sinkToLeaf_perm lt heap.size heap 0
  rw [siftup]
  split
  · next heap' e heq => rw [heq] at hsink; exact hsink
  · next heap' pos heq => rw [heq] at hsink; exact (siftdown_perm lt _ _ _).trans hsink

/-- **A push adds the item**, and keeps it also where a comparison raises. -/
theorem heappush_perm (lt : α → α → Except ε Bool) (heap : Array α) (item : α) :
    (heappush lt heap item).1.toList.Perm (item :: heap.toList) := by
  have h := (siftdown_perm lt heap.size (heap.push item) heap.size).toList
  rw [Array.toList_push] at h
  exact h.trans (List.perm_append_singleton _ _)

/-- **A pop takes the root away**, also where a comparison raises. -/
theorem heappop_perm (lt : α → α → Except ε Bool) (heap : Array α) (h : 0 < heap.size) :
    (heap[0] :: (heappop lt heap h).1.toList).Perm heap.toList := by
  obtain ⟨xs⟩ := heap
  obtain ⟨init, last, rfl⟩ : ∃ init last, xs = init ++ [last] :=
    ⟨_, _, (List.dropLast_concat_getLast (List.ne_nil_of_length_pos h)).symm⟩
  have hlast : (Array.mk (init ++ [last]))[(Array.mk (init ++ [last])).size - 1] = last := by
    simp
  have hpop : (Array.mk (init ++ [last])).pop = Array.mk init := by simp
  rw [heappop]
  split
  · next h' =>
    have hsift := (siftup_perm lt ((Array.mk (init ++ [last])).pop.set 0 last)).toList
    simp only [hlast]
    cases init with
    | nil => simp at h'
    | cons root init =>
      -- the root leaves, and the last element takes its place
      refine (List.Perm.cons root hsift).trans ?_
      have hdrop : (root :: (init ++ [last])).dropLast = root :: init := by
        rw [List.dropLast_cons_of_ne_nil (by simp), List.dropLast_concat]
      simpa [hdrop] using (List.perm_append_singleton last init).symm
  · next h' =>
    obtain rfl : init = [] := by simpa using h'
    simp

theorem mem_of_mem_heappop {heap : Array α} {h : 0 < heap.size} {x : α}
    (hx : x ∈ (heappop lt heap h).1) : x ∈ heap := by
  have hmem : x ∈ heap[0] :: (heappop lt heap h).1.toList :=
    List.mem_cons_of_mem _ (Array.mem_toList_iff.mpr hx)
  exact Array.mem_toList_iff.mp ((heappop_perm lt heap h).mem_iff.mp hmem)

theorem heappop_size (lt : α → α → Except ε Bool) (heap : Array α) (h : 0 < heap.size) :
    (heappop lt heap h).1.size + 1 = heap.size := by
  simpa using (heappop_perm lt heap h).length_eq

/-! ## Raising -/

/-- Every comparison of two elements of the heap returns. -/
def Comparable (lt : α → α → Except ε Bool) (heap : Array α) : Prop :=
  ∀ a ∈ heap, ∀ b ∈ heap, ∃ r, lt a b = .ok r

instance (lt : α → α → Except ε Bool) (heap : Array α) : Decidable (Comparable lt heap) :=
  decidable_of_iff (∀ a ∈ heap, ∀ b ∈ heap, (lt a b).isOk = true) <| by
    have hok : ∀ a b, (lt a b).isOk = true ↔ ∃ r, lt a b = .ok r := fun a b => by
      cases lt a b <;> simp [Except.isOk, Except.toBool]
    simp only [Comparable, hok]

theorem Comparable.of_perm {heap heap' : Array α} (h : Comparable lt heap)
    (hp : heap'.Perm heap) : Comparable lt heap' :=
  fun a ha b hb => h a (hp.mem_iff.mp ha) b (hp.mem_iff.mp hb)

theorem siftdown_ok {heap : Array α} (h : Comparable lt heap) (fuel pos : ℕ) :
    (siftdown lt fuel heap pos).2 = .ok () := by
  induction fuel generalizing heap pos with
  | zero => rfl
  | succ fuel ih =>
    rw [siftdown]
    split
    · next hpos =>
      obtain ⟨r, hr⟩ := h heap[pos] (Array.getElem_mem _) heap[(pos - 1) / 2] (Array.getElem_mem _)
      split
      · next e heq => rw [hr] at heq; cases heq
      · rfl
      · exact ih (h.of_perm (Array.swap_perm ..)) _
    · rfl

theorem sinkToLeaf_ok {heap : Array α} (h : Comparable lt heap) (fuel pos : ℕ) :
    ∃ leaf, (sinkToLeaf lt fuel heap pos).2 = .ok leaf := by
  induction fuel generalizing heap pos with
  | zero => exact ⟨pos, rfl⟩
  | succ fuel ih =>
    rw [sinkToLeaf]
    split
    · next hl =>
      split
      · next hr =>
        obtain ⟨r, hr⟩ := h heap[2 * pos + 1] (Array.getElem_mem _) heap[2 * pos + 2]
          (Array.getElem_mem _)
        split
        · next e heq => rw [hr] at heq; cases heq
        · exact ih (h.of_perm (Array.swap_perm ..)) _
        · exact ih (h.of_perm (Array.swap_perm ..)) _
      · exact ih (h.of_perm (Array.swap_perm ..)) _
    · exact ⟨pos, rfl⟩

/-- **A pop raises nothing** where the elements can all be compared. -/
theorem heappop_returns {heap : Array α} (hc : Comparable lt heap) (h : 0 < heap.size) :
    ∃ x, (heappop lt heap h).2 = .ok x := by
  rw [heappop]
  split
  · next h' =>
    have hset : Comparable lt (heap.pop.set 0 heap[heap.size - 1]) := fun a ha b hb =>
      hc a (mem_of_mem_pop_set h h' ha) b (mem_of_mem_pop_set h h' hb)
    obtain ⟨leaf, hleaf⟩ := sinkToLeaf_ok hset (heap.pop.set 0 heap[heap.size - 1]).size 0
    refine ⟨heap[0], ?_⟩
    have hperm := sinkToLeaf_perm lt (heap.pop.set 0 heap[heap.size - 1]).size
      (heap.pop.set 0 heap[heap.size - 1]) 0
    have hup : (siftup lt (heap.pop.set 0 heap[heap.size - 1])).2 = .ok () := by
      rw [siftup]
      split
      · next heq => rw [heq] at hleaf; cases hleaf
      · next heq => rw [heq] at hperm; exact siftdown_ok (hset.of_perm hperm) _ _
    simp [hup, Except.map]
  · exact ⟨_, rfl⟩

/-- The elements above a position, from its parent to the root. The position
decreases, so it is fuel enough. -/
def path (heap : Array α) : ℕ → ℕ → List α
  | 0, _ => []
  | _ + 1, 0 => []
  | fuel + 1, pos + 1 => heap[pos / 2]?.toList ++ path heap fuel (pos / 2)

/-- Moving up past the elements that it is less than, an item meets no
comparison that raises. -/
def climbs (lt : α → α → Except ε Bool) (item : α) : List α → Bool
  | [] => true
  | a :: rest =>
    match lt item a with
    | .error _ => false
    | .ok false => true
    | .ok true => climbs lt item rest

/-- The path depends on what is below the position. -/
theorem path_congr {heap heap' : Array α} {fuel pos : ℕ}
    (h : ∀ i < pos, heap[i]? = heap'[i]?) : path heap fuel pos = path heap' fuel pos := by
  induction fuel generalizing pos with
  | zero => rfl
  | succ fuel ih =>
    cases pos with
    | zero => rfl
    | succ pos =>
      rw [path, path, h (pos / 2) (by omega), ih fun i hi => h i (by omega)]

/-- **A sift towards the root returns** exactly if the element climbs. -/
theorem siftdown_returns_iff {fuel pos : ℕ} {heap : Array α} (hpos : pos < heap.size) :
    (siftdown lt fuel heap pos).2 = .ok () ↔ climbs lt heap[pos] (path heap fuel pos) = true := by
  induction fuel generalizing heap pos with
  | zero => simp [siftdown, path, climbs]
  | succ fuel ih =>
    cases pos with
    | zero => simp [siftdown, path, climbs]
    | succ pos =>
      have hpar : pos / 2 < heap.size := by omega
      have hpath : path heap (fuel + 1) (pos + 1) = heap[pos / 2] :: path heap fuel (pos / 2) := by
        simp [path, hpar]
      rw [hpath, siftdown, dif_pos ⟨Nat.succ_pos pos, hpos⟩]
      simp only [Nat.add_sub_cancel, climbs]
      cases hlt : lt heap[pos + 1] heap[pos / 2] with
      | error e => simp
      | ok b =>
        cases b with
        | false => simp
        | true =>
          -- the swap leaves the rest of the path as it is
          have hsame : path (heap.swap (pos + 1) (pos / 2)) fuel (pos / 2) =
              path heap fuel (pos / 2) := by
            refine path_congr fun i hi => ?_
            rw [Array.getElem?_swap, if_neg (by omega), if_neg (by omega)]
          have hpar' : pos / 2 < (heap.swap (pos + 1) (pos / 2)).size := by simpa using hpar
          have hswap := ih hpar'
          rw [hsame, Array.getElem_swap_right] at hswap
          exact hswap

/-- **A push returns** exactly if the item climbs the path to the root. -/
theorem heappush_returns_iff {heap : Array α} {item : α} :
    (heappush lt heap item).2 = .ok () ↔
      climbs lt item (path heap heap.size heap.size) = true := by
  rw [heappush, siftdown_returns_iff (by simp)]
  have hsame : path (heap.push item) heap.size heap.size = path heap heap.size heap.size :=
    path_congr fun i hi => by rw [Array.getElem?_push, if_neg (by omega)]
  rw [hsame, Array.getElem_push_eq]

/-! ## The order -/

/-- The element at `i` has at most the key of the element at `j`, where
both positions are in the heap. -/
def LeAt [LE κ] (key : α → κ) (heap : Array α) (i j : ℕ) : Prop :=
  ∀ (hi : i < heap.size) (hj : j < heap.size), key heap[i] ≤ key heap[j]

/-- **Heap order**: every element has at least its parent's key. -/
def Ordered [LE κ] (key : α → κ) (heap : Array α) : Prop :=
  ∀ i, 0 < i → LeAt key heap ((i - 1) / 2) i

/-- The comparison agrees with the key on the elements `s` wherever the
keys differ; on a tie it may answer anything or raise. -/
structure KeyedOn [LT κ] (lt : α → α → Except ε Bool) (key : α → κ) (s : α → Prop) : Prop where
  lt_true : ∀ a b, s a → s b → key a < key b → lt a b = .ok true
  lt_false : ∀ a b, s a → s b → key b < key a → lt a b = .ok false

section Order

variable [LinearOrder κ] {key : α → κ} {s : α → Prop} {heap : Array α}

theorem KeyedOn.le_of_true (hk : KeyedOn lt key s) {a b : α} (ha : s a) (hb : s b)
    (h : lt a b = .ok true) : key a ≤ key b := by
  by_contra hlt
  have := hk.lt_false a b ha hb (not_le.mp hlt)
  rw [h] at this
  cases this

theorem KeyedOn.le_of_not_true (hk : KeyedOn lt key s) {a b : α} (ha : s a) (hb : s b)
    (h : lt a b ≠ .ok true) : key b ≤ key a := by
  by_contra hlt
  exact h (hk.lt_true a b ha hb (not_le.mp hlt))

/-- Heap order but for the edge from `pos` to its parent; the parent of
`pos` is at most the children of `pos`. -/
structure UpOrder (key : α → κ) (heap : Array α) (pos : ℕ) : Prop where
  except : ∀ i, 0 < i → i ≠ pos → LeAt key heap ((i - 1) / 2) i
  grand : ∀ i, 0 < i → (i - 1) / 2 = pos → 0 < pos → LeAt key heap ((pos - 1) / 2) i

/-- Heap order but for the edges at `pos`; the parent of `pos` is at most
the children of `pos`. -/
structure HoleOrder (key : α → κ) (heap : Array α) (pos : ℕ) : Prop where
  except : ∀ i, 0 < i → i ≠ pos → (i - 1) / 2 ≠ pos → LeAt key heap ((i - 1) / 2) i
  grand : ∀ i, 0 < i → (i - 1) / 2 = pos → 0 < pos → LeAt key heap ((pos - 1) / 2) i

theorem UpOrder.finish {pos : ℕ} (o : UpOrder key heap pos)
    (h : 0 < pos → LeAt key heap ((pos - 1) / 2) pos) : Ordered key heap := by
  intro i hi
  by_cases hip : i = pos
  · subst hip; exact h hi
  · exact o.except i hi hip

/-- Moving the element up past its parent leaves only the parent's edge
open. -/
theorem UpOrder.move {pos : ℕ} (o : UpOrder key heap pos) (hpos : 0 < pos)
    (hlt : pos < heap.size) (hpar : (pos - 1) / 2 < heap.size)
    (hle : key heap[pos] ≤ key heap[(pos - 1) / 2]) :
    UpOrder key (heap.swap pos ((pos - 1) / 2)) ((pos - 1) / 2) := by
  have hsame : ∀ i (hi : i < heap.size), 0 < i → i ≠ pos → (i - 1) / 2 = (pos - 1) / 2 →
      key heap[(pos - 1) / 2] ≤ key heap[i] := fun i hi h0 hne hp => by
    have := o.except i h0 hne (by omega) hi
    simpa only [hp] using this
  constructor
  · intro i h0 hne hp hi
    simp only [Array.size_swap] at hp hi
    simp only [Array.getElem_swap]
    -- the edges at the swap: the one swapped, those below it, and that to the sibling
    by_cases hip : i = pos
    · subst hip
      simpa [show ¬ (i - 1) / 2 = i by omega] using hle
    by_cases hpi : (i - 1) / 2 = pos
    · simpa [hip, hne, hpi] using o.grand i h0 hpi hpos hpar hi
    by_cases hpp : (i - 1) / 2 = (pos - 1) / 2
    · simpa [hip, hne, hpp, show (pos - 1) / 2 ≠ pos by omega] using
        hle.trans (hsame i hi h0 hip hpp)
    · simpa [hip, hne, hpi, hpp] using o.except i h0 hip hp hi
  · intro i h0 hip hpar0 hp hi
    simp only [Array.size_swap] at hp hi
    -- the grandparent was at most the parent, and the parent at most its other child
    have htop : key heap[((pos - 1) / 2 - 1) / 2] ≤ key heap[(pos - 1) / 2] :=
      o.except ((pos - 1) / 2) hpar0 (by omega) hp hpar
    simp only [Array.getElem_swap]
    have hne₁ : ((pos - 1) / 2 - 1) / 2 ≠ pos := by omega
    have hne₂ : ((pos - 1) / 2 - 1) / 2 ≠ (pos - 1) / 2 := by omega
    by_cases hipos : i = pos
    · simpa [hne₁, hne₂, hipos] using htop
    · simpa [hne₁, hne₂, hipos, show i ≠ (pos - 1) / 2 by omega] using
        htop.trans (hsame i hi h0 hipos hip)

theorem siftdown_ordered (hk : KeyedOn lt key s) {fuel pos : ℕ} (hs : ∀ x ∈ heap, s x)
    (o : UpOrder key heap pos) (hfuel : pos ≤ fuel) (hpos : pos < heap.size) :
    Ordered key (siftdown lt fuel heap pos).1 := by
  induction fuel generalizing heap pos with
  | zero => exact o.finish fun h => by omega
  | succ fuel ih =>
    rw [siftdown]
    split
    · next h =>
      have hpar : (pos - 1) / 2 < heap.size := by omega
      -- where the sift stops or raises, the element is not less than its parent
      have hmem : s heap[pos] ∧ s heap[(pos - 1) / 2] :=
        ⟨hs _ (Array.getElem_mem _), hs _ (Array.getElem_mem _)⟩
      split
      · next e heq =>
        exact o.finish fun _ _ _ => hk.le_of_not_true hmem.1 hmem.2 (by simp [heq])
      · next heq =>
        exact o.finish fun _ _ _ => hk.le_of_not_true hmem.1 hmem.2 (by simp [heq])
      · next heq =>
        refine ih (fun x hx => hs x ?_)
          (o.move h.1 h.2 hpar (hk.le_of_true hmem.1 hmem.2 heq)) (by omega) (by simpa using hpar)
        exact (Array.swap_perm ..).mem_iff.mp hx
    · exact o.finish fun h => by omega

theorem HoleOrder.toUpOrder {pos : ℕ} (o : HoleOrder key heap pos)
    (hleaf : heap.size ≤ 2 * pos + 1) : UpOrder key heap pos where
  except i h0 hne hp hi := o.except i h0 hne (by omega) hp hi
  grand := o.grand

/-- Moving the smaller child up leaves the hole where the child was. -/
theorem HoleOrder.move {pos c : ℕ} (o : HoleOrder key heap pos) (hc : (c - 1) / 2 = pos)
    (hc0 : 0 < c) (hcs : c < heap.size) (hpos : pos < heap.size)
    (hmin : ∀ i, 0 < i → (i - 1) / 2 = pos → LeAt key heap c i) :
    HoleOrder key (heap.swap pos c) c := by
  constructor
  · intro i h0 hic hpc hp hi
    simp only [Array.size_swap] at hp hi
    simp only [Array.getElem_swap]
    -- the child is above its sibling now, and below the parent of the hole
    by_cases hip : i = pos
    · subst hip
      simpa [show ¬ (i - 1) / 2 = i by omega, hpc] using o.grand c hc0 hc h0 (by omega) hcs
    by_cases hpp : (i - 1) / 2 = pos
    · simpa [hip, hic, hpp] using hmin i h0 hpp hcs hi
    · simpa [hip, hic, hpp, hpc] using o.except i h0 hip hpp hp hi
  · intro i h0 hi' _ hp hi
    simp only [Array.size_swap] at hp hi
    simp only [Array.getElem_swap]
    have := o.except i h0 (by omega) (by omega) (by omega) hi
    simpa [hc, hi', show i ≠ pos by omega, show i ≠ c by omega] using this

/-- Sinking the hole ends at a leaf, unless a comparison raises. -/
theorem sinkToLeaf_ordered (hk : KeyedOn lt key s) {fuel pos leaf : ℕ} (hs : ∀ x ∈ heap, s x)
    (o : HoleOrder key heap pos) (hpos : pos < heap.size) (hfuel : heap.size ≤ pos + fuel)
    (hok : (sinkToLeaf lt fuel heap pos).2 = .ok leaf) :
    UpOrder key (sinkToLeaf lt fuel heap pos).1 leaf ∧ leaf < heap.size := by
  induction fuel generalizing heap pos with
  | zero => omega
  | succ fuel ih =>
    have hmem : ∀ c (hc : c < heap.size), ∀ x ∈ heap.swap pos c, s x := fun c hc x hx =>
      hs x ((Array.swap_perm hpos hc).mem_iff.mp hx)
    rw [sinkToLeaf] at hok ⊢
    split at hok
    · next h =>
      rw [dif_pos h]
      split at hok
      · next h' =>
        rw [dif_pos h']
        have hs₁ : s heap[2 * pos + 1] := hs _ (Array.getElem_mem _)
        have hs₂ : s heap[2 * pos + 2] := hs _ (Array.getElem_mem _)
        have hchild : ∀ i, 0 < i → (i - 1) / 2 = pos → i = 2 * pos + 1 ∨ i = 2 * pos + 2 :=
          fun i _ _ => by omega
        split at hok
        · cases hok
        · next heq =>
          have hmin : ∀ i, 0 < i → (i - 1) / 2 = pos → LeAt key heap (2 * pos + 1) i := by
            intro i h0 hp hi hj
            rcases hchild i h0 hp with rfl | rfl
            · exact le_rfl
            · exact hk.le_of_true hs₁ hs₂ heq
          simpa using ih (hmem _ h) (o.move (by omega) (by omega) h hpos hmin) (by simpa using h)
            (by simp; omega) hok
        · next heq =>
          have hmin : ∀ i, 0 < i → (i - 1) / 2 = pos → LeAt key heap (2 * pos + 2) i := by
            intro i h0 hp hi hj
            rcases hchild i h0 hp with rfl | rfl
            · exact hk.le_of_not_true hs₁ hs₂ (by simp [heq])
            · exact le_rfl
          simpa using ih (hmem _ h') (o.move (by omega) (by omega) h' hpos hmin)
            (by simpa using h') (by simp; omega) hok
      · next h' =>
        rw [dif_neg h']
        have hmin : ∀ i, 0 < i → (i - 1) / 2 = pos → LeAt key heap (2 * pos + 1) i := by
          intro i h0 hp hi hj
          obtain rfl : i = 2 * pos + 1 := by omega
          exact le_rfl
        simpa using ih (hmem _ h) (o.move (by omega) (by omega) h hpos hmin) (by simpa using h)
          (by simp; omega) hok
    · next h =>
      rw [dif_neg h]
      obtain rfl : pos = leaf := by simpa using hok
      exact ⟨o.toUpOrder (by omega), hpos⟩

theorem siftup_ordered (hk : KeyedOn lt key s) (hs : ∀ x ∈ heap, s x)
    (o : HoleOrder key heap 0) (hpos : 0 < heap.size) (hok : (siftup lt heap).2 = .ok ()) :
    Ordered key (siftup lt heap).1 := by
  have hperm := sinkToLeaf_perm lt heap.size heap 0
  rw [siftup] at hok ⊢
  split at hok
  · cases hok
  · next heap' leaf heq =>
    -- the sink ends at a leaf, from which the second sift starts
    have hsink : UpOrder key (sinkToLeaf lt heap.size heap 0).1 leaf ∧ leaf < heap.size :=
      sinkToLeaf_ordered hk hs o hpos (by omega) (by rw [heq])
    rw [heq] at hperm hsink
    refine siftdown_ordered hk (fun x hx => hs x (hperm.mem_iff.mp hx)) hsink.1 le_rfl ?_
    simpa [hperm.size_eq] using hsink.2

/-- **A push keeps the order**, also where a comparison raises: it raises
only on a tie, where either order is heap order. -/
theorem heappush_ordered (hk : KeyedOn lt key s) {item : α} (hs : ∀ x ∈ heap, s x) (hi : s item)
    (o : Ordered key heap) : Ordered key (heappush lt heap item).1 := by
  refine siftdown_ordered hk ?_ ⟨?_, ?_⟩ le_rfl (by simp)
  · intro x hx
    rcases Array.mem_push.mp hx with hx | rfl
    · exact hs x hx
    · exact hi
  · intro i h0 hne hp hj
    have hj' : i < heap.size := by simp at hj; omega
    have hp' : (i - 1) / 2 < heap.size := by omega
    simpa [Array.getElem_push, hj', hp'] using o i h0 hp' hj'
  · intro i h0 hi _ _ hj
    simp at hj
    omega

/-- **A pop that does not raise keeps the order.** -/
theorem heappop_ordered (hk : KeyedOn lt key s) (hs : ∀ x ∈ heap, s x) (o : Ordered key heap)
    {h : 0 < heap.size} {x : α} (hok : (heappop lt heap h).2 = .ok x) :
    Ordered key (heappop lt heap h).1 := by
  rw [heappop] at hok ⊢
  split at hok
  · next h' =>
    rw [dif_pos h']
    have hmem : ∀ x ∈ heap.pop.set 0 heap[heap.size - 1], s x := fun x hx =>
      hs x (mem_of_mem_pop_set h h' hx)
    -- only the edges at the root are open
    have hhole : HoleOrder key (heap.pop.set 0 heap[heap.size - 1]) 0 := by
      refine ⟨fun i h0 hne hp hi hj => ?_, fun i _ _ h0 => by omega⟩
      have hp0 : 0 ≠ (i - 1) / 2 := fun heq => hp heq.symm
      have hi0 : 0 ≠ i := by omega
      have hj' : i < heap.size := by simp at hj; omega
      simpa [Array.getElem_set, hp0, hi0] using o i h0 (by omega) hj'
    refine siftup_ordered hk hmem hhole (by simpa using h') ?_
    cases hr : (siftup lt (heap.pop.set 0 heap[heap.size - 1])).2 with
    | error e => simp [hr, Except.map] at hok
    | ok u => rfl
  · next h' =>
    rw [dif_neg h']
    intro i h0 _ hj
    simp at h' hj
    omega

/-- **The root has the least key.** -/
theorem Ordered.root_le (o : Ordered key heap) (h0 : 0 < heap.size) {i : ℕ}
    (hi : i < heap.size) : key heap[0] ≤ key heap[i] := by
  induction i using Nat.strong_induction_on with
  | h i ih =>
    by_cases hroot : i = 0
    · subst hroot; exact le_rfl
    · exact (ih ((i - 1) / 2) (by omega) (by omega)).trans (o i (by omega) (by omega) hi)

end Order

end Heapq
