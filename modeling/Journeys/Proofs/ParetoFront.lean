import Journeys.Front
import Mathlib.Data.List.Forall2
import Mathlib.Data.List.Induction
import Mathlib.Data.List.Nodup
import Mathlib.Data.List.Perm.Basic
import Mathlib.Data.Set.List

/-!
# Proofs: what a front holds of a stream

An element is turned away after a look at the front alone, and an element of the front may leave
later because of a third one. So it is not obvious that the front of a stream depends on the stream
as a whole. Two invariants settle it: every two elements of a front beat each other somewhere, and
everything that was ever offered has an element in the front that is at least as good.

The first one holds for any relation. The second one needs that not being beaten is reflexive and
transitive (`Unbeaten`). Often it is so only among elements that can be compared (`UnbeatenAmong`);
a stream of such elements is the image of a stream of a smaller type.
-/

namespace Journeys

variable {α : Type} {better : α → α → Bool}

/-- Not being beaten orders the elements: `a` is at least as good as `b` when `b` beats it nowhere,
and this is reflexive and transitive. -/
structure Unbeaten (better : α → α → Bool) : Prop where
  refl : ∀ a, better a a = false
  trans : ∀ a b c, better b a = false → better c b = false → better c a = false

theorem dominates_eq_false_iff {a b : α} :
    dominates better a b = false ↔ (better a b = true → better b a = true) := by
  unfold dominates
  cases better a b <;> cases better b a <;> simp

/-- An element escapes both domination by and a tie with another one exactly when it beats it. -/
theorem not_dominates_and_not_ties {a b : α} :
    (!dominates better a b && !ties better a b) = better b a := by
  unfold dominates ties
  cases better a b <;> cases better b a <;> rfl

theorem ties_iff {a b : α} :
    ties better a b = true ↔ better a b = false ∧ better b a = false := by
  unfold ties
  cases better a b <;> cases better b a <;> simp

theorem ties_symm {a b : α} (h : ties better a b = true) : ties better b a = true :=
  ties_iff.2 (ties_iff.1 h).symm

theorem Unbeaten.ties_trans (hb : Unbeaten better) {a b c : α} (hab : ties better a b = true)
    (hbc : ties better b c = true) : ties better a c = true := by
  obtain ⟨hab, hba⟩ := ties_iff.1 hab
  obtain ⟨hbc, hcb⟩ := ties_iff.1 hbc
  exact ties_iff.2 ⟨hb.trans c b a hbc hab, hb.trans a b c hba hcb⟩

namespace Front

/-! ## One offer -/

/-- An element is in the front after an offer if it was there and was not driven out, or if it is
the one that was offered and joined. -/
theorem mem_elements_offer {front : Front better} {c x : α} :
    x ∈ (front.offer c).elements ↔
      (x ∈ front.elements ∧ (front.admits c = true → better x c = true)) ∨
        (x = c ∧ front.admits c = true) := by
  unfold offer
  split
  · rename_i h
    simp [join, h]
  · rename_i h
    simp [h]

theorem exists_loses_of_not_admits {front : Front better} {c : α} (hadm : front.admits c ≠ true) :
    ∃ e ∈ front.elements, better c e = false := by
  simpa [admits_iff] using hadm

/-- Every two elements at different places of a front beat each other somewhere. -/
def Balanced (front : Front better) : Prop :=
  front.elements.Pairwise fun a b => better a b = true ∧ better b a = true

theorem balanced_empty : (empty : Front better).Balanced := List.Pairwise.nil

/-- An offer keeps a front balanced: the candidate joins only if it beats all elements, and those
that it finds there stay only if they beat it. -/
theorem Balanced.offer {front : Front better} (h : front.Balanced) (c : α) :
    (front.offer c).Balanced := by
  unfold Front.offer
  split
  · rename_i hadm
    refine List.pairwise_append.2 ⟨h.filter _, List.pairwise_singleton _ _, ?_⟩
    intro a ha b hb
    obtain rfl := List.mem_singleton.1 hb
    obtain ⟨hmem, hab⟩ := List.mem_filter.1 ha
    exact ⟨hab, admits_iff.1 hadm a hmem⟩
  · exact h

/-- Two elements of a balanced front, one of which does not beat the other, are the same. -/
theorem Balanced.eq_of_better_eq_false {front : Front better} (h : front.Balanced) {a b : α}
    (ha : a ∈ front.elements) (hb : b ∈ front.elements) (hab : better a b = false) : a = b := by
  by_contra hne
  have hall : ∀ x ∈ front.elements, ∀ y ∈ front.elements, x ≠ y → better x y = true := by
    refine List.Pairwise.forall_of_forall_of_flip ?_ ?_ ?_
    · intro x _ hx
      exact absurd rfl hx
    · exact h.imp fun hxy _ => hxy.1
    · exact h.imp fun hxy _ => hxy.2
  rw [hall a ha b hb hne] at hab
  cases hab

theorem Balanced.eq_of_ties {front : Front better} (h : front.Balanced) {a b : α}
    (ha : a ∈ front.elements) (hb : b ∈ front.elements) (hab : ties better a b = true) : a = b :=
  h.eq_of_better_eq_false ha hb (ties_iff.1 hab).1

theorem Balanced.act {front : Front better} (h : front.Balanced) (step : Step α) :
    (front.act step).Balanced := by
  cases step with
  | offer x => exact h.offer x
  | clear => exact balanced_empty

/-- Whatever is offered to a front, and however often it is cleared, it stays balanced. -/
theorem Balanced.run {front : Front better} (h : front.Balanced) (steps : List (Step α)) :
    (front.run steps).Balanced := by
  induction steps generalizing front with
  | nil => exact h
  | cons step steps ih => exact ih (h.act step)

/-- An element of the front is at least as good as `x`. -/
def Covers (front : Front better) (x : α) : Prop := ∃ e ∈ front.elements, better x e = false

/-- What is offered is covered afterwards: if it did not join, an element that it fails to beat
kept it out. -/
theorem covers_offer_self (hb : Unbeaten better) (front : Front better) (c : α) :
    (front.offer c).Covers c := by
  by_cases hadm : front.admits c = true
  · exact ⟨c, mem_elements_offer.2 (Or.inr ⟨rfl, hadm⟩), hb.refl c⟩
  · obtain ⟨e, he, hce⟩ := exists_loses_of_not_admits hadm
    exact ⟨e, mem_elements_offer.2 (Or.inl ⟨he, fun h => absurd h hadm⟩), hce⟩

/-- What was covered stays covered: an element leaves only for one that is at least as good. -/
theorem Covers.offer (hb : Unbeaten better) {front : Front better} {x : α} (h : front.Covers x)
    (c : α) : (front.offer c).Covers x := by
  obtain ⟨e, he, hxe⟩ := h
  by_cases hstay : front.admits c = true → better e c = true
  · exact ⟨e, mem_elements_offer.2 (Or.inl ⟨he, hstay⟩), hxe⟩
  · have hadm : front.admits c = true := by
      by_contra hn
      exact hstay fun h => absurd h hn
    have hec : better e c = false := by
      rw [← Bool.not_eq_true]
      exact fun h => hstay fun _ => h
    exact ⟨c, mem_elements_offer.2 (Or.inr ⟨rfl, hadm⟩), hb.trans c e x hec hxe⟩

/-! ## A stream of offers -/

@[simp] theorem ofList_concat (xs : List α) (c : α) :
    (ofList (xs ++ [c]) : Front better) = (ofList xs).offer c := by
  simp [ofList]

theorem balanced_ofList (xs : List α) : (ofList xs : Front better).Balanced := by
  induction xs using List.reverseRecOn with
  | nil => exact balanced_empty
  | append_singleton xs c ih =>
    rw [ofList_concat]
    exact ih.offer c

theorem mem_of_mem_ofList {xs : List α} {x : α} (h : x ∈ (ofList xs : Front better).elements) :
    x ∈ xs := by
  induction xs using List.reverseRecOn with
  | nil => exact h
  | append_singleton xs c ih =>
    rw [ofList_concat] at h
    rcases mem_elements_offer.1 h with ⟨hx, -⟩ | ⟨rfl, -⟩
    · exact List.mem_append_left _ (ih hx)
    · simp

/-- Everything that was offered is covered in the end. -/
theorem covers_ofList (hb : Unbeaten better) {xs : List α} {x : α} (h : x ∈ xs) :
    (ofList xs : Front better).Covers x := by
  induction xs using List.reverseRecOn with
  | nil => cases h
  | append_singleton xs c ih =>
    rw [ofList_concat]
    rcases List.mem_append.1 h with hx | hx
    · exact (ih hx).offer hb c
    · rw [List.mem_singleton.1 hx]
      exact covers_offer_self hb _ c

/-- The front of a stream admits a candidate exactly when it beats the whole stream. -/
theorem admits_ofList (hb : Unbeaten better) (xs : List α) (c : α) :
    (ofList xs : Front better).admits c = xs.all fun x => better c x := by
  rw [Bool.eq_iff_iff, admits_iff, List.all_eq_true]
  constructor
  · intro h x hx
    obtain ⟨e, he, hxe⟩ := covers_ofList hb hx
    by_contra hcx
    have hce : better c e = false := hb.trans e x c hxe (by simpa using hcx)
    rw [h e he] at hce
    cases hce
  · intro h e he
    exact h e (mem_of_mem_ofList he)

end Front

/-! ## The survivors of a stream -/

/-- Whether the element `x` at place `i` of a stream survives: nothing in the stream dominates it,
and nothing before it ties with it. -/
def survives (better : α → α → Bool) (xs : List α) (x : α) (i : Nat) : Bool :=
  (xs.all fun y => !dominates better y x) && (xs.take i).all fun y => !ties better y x

/-- The elements of a stream that survive, in the order of the stream. -/
def survivors (better : α → α → Bool) (xs : List α) : List α :=
  (xs.zipIdx.filter fun p => survives better xs p.1 p.2).map (·.1)

/-- A further element comes after those that a test of elements and places selects. -/
theorem map_fst_filter_zipIdx_concat (f : α × Nat → Bool) (xs : List α) (c : α) :
    (((xs ++ [c]).zipIdx.filter f).map fun p => p.1) =
      ((xs.zipIdx.filter f).map fun p => p.1) ++ if f (c, xs.length) then [c] else [] := by
  rw [List.zipIdx_append, List.filter_append, List.map_append]
  simp only [List.zipIdx_cons, List.zipIdx_nil, Nat.zero_add, List.filter_cons, List.filter_nil]
  congr 1
  split <;> rfl

/-- A further element takes away from an earlier one only by dominating it. -/
theorem survives_concat_of_lt {xs : List α} {i : Nat} (hi : i < xs.length) (x c : α) :
    survives better (xs ++ [c]) x i = (survives better xs x i && !dominates better c x) := by
  unfold survives
  rw [List.take_append_of_le_length (Nat.le_of_lt hi), List.all_append]
  simp only [List.all_cons, List.all_nil, Bool.and_true]
  rw [Bool.and_right_comm]

/-- The last element of a stream survives exactly when it beats all that came before it. -/
theorem survives_concat_self (xs : List α) (c : α) :
    survives better (xs ++ [c]) c xs.length = xs.all fun x => better c x := by
  have hself : dominates better c c = false := by
    rw [dominates_eq_false_iff]
    exact id
  have hboth (y : α) : (!dominates better y c && !ties better y c) = better c y :=
    not_dominates_and_not_ties
  unfold survives
  rw [List.take_left, List.all_append, List.all_cons, List.all_nil, hself, Bool.eq_iff_iff]
  simp only [Bool.not_false, Bool.and_true, Bool.and_eq_true, List.all_eq_true, ← hboth]
  constructor
  · intro h y hy
    exact ⟨h.1 y hy, h.2 y hy⟩
  · intro h
    exact ⟨fun y hy => (h y hy).1, fun y hy => (h y hy).2⟩

theorem survivors_concat (xs : List α) (c : α) :
    survivors better (xs ++ [c]) =
      ((survivors better xs).filter fun x => !dominates better c x) ++
        if xs.all fun x => better c x then [c] else [] := by
  -- the places of the earlier elements stay the same, so only the candidate can take one away
  have hold : (xs.zipIdx.filter fun p => survives better (xs ++ [c]) p.1 p.2) =
      (xs.zipIdx.filter fun p => survives better xs p.1 p.2).filter
        fun p => !dominates better c p.1 := by
    rw [List.filter_filter]
    refine List.filter_congr fun p hp => ?_
    have hi : p.2 < xs.length := List.snd_lt_of_mem_zipIdx hp
    rw [survives_concat_of_lt hi, Bool.and_comm]
  unfold survivors
  rw [map_fst_filter_zipIdx_concat, hold, survives_concat_self, List.filter_map]
  rfl

/-- What a front finds there when it admits a candidate stays exactly if the candidate does not
dominate it. -/
theorem filter_not_dominates_of_admits {front : Front better} {c : α}
    (hadm : front.admits c = true) :
    (front.elements.filter fun x => !dominates better c x) =
      front.elements.filter fun x => better x c := by
  refine List.filter_congr fun x hx => ?_
  unfold dominates
  rw [Front.admits_iff.1 hadm x hx]
  simp

/-- A candidate that a balanced front turns away dominates nothing in it: the element that kept it
out would be at least as good as another element of the front. -/
theorem filter_not_dominates_of_not_admits (hb : Unbeaten better) {front : Front better}
    (hbal : front.Balanced) {c : α} (hadm : front.admits c ≠ true) :
    (front.elements.filter fun x => !dominates better c x) = front.elements := by
  refine List.filter_eq_self.2 fun x hx => ?_
  obtain ⟨e, he, hce⟩ := Front.exists_loses_of_not_admits hadm
  rw [Bool.not_eq_true', dominates_eq_false_iff]
  intro hcx
  by_contra hxc
  have hxe : better x e = false := hb.trans e c x hce (by simpa using hxc)
  have hsame : x = e := hbal.eq_of_better_eq_false hx he hxe
  rw [← hsame, hcx] at hce
  cases hce

/-- The front of a stream is the list of its survivors. -/
theorem elements_ofList (hb : Unbeaten better) (xs : List α) :
    (Front.ofList xs : Front better).elements = survivors better xs := by
  induction xs using List.reverseRecOn with
  | nil => rfl
  | append_singleton xs c ih =>
    rw [Front.ofList_concat, survivors_concat, ← ih, ← Front.admits_ofList hb]
    unfold Front.offer
    split
    · rename_i hadm
      rw [filter_not_dominates_of_admits hadm]
      rfl
    · rename_i hadm
      rw [filter_not_dominates_of_not_admits hb (Front.balanced_ofList xs) hadm, List.append_nil]

/-! ## Streams of comparable elements -/

variable {β : Type}

/-- A front of images, under the relation between them, is the image of a front. -/
theorem Front.elements_offer_map (f : β → α) {front : Front better}
    {front' : Front fun a b => better (f a) (f b)} (h : front.elements = front'.elements.map f)
    (c : β) : (front.offer (f c)).elements = (front'.offer c).elements.map f := by
  have hadm : front.admits (f c) = front'.admits c := by
    unfold admits
    rw [h, List.all_map]
    rfl
  unfold offer
  rw [hadm]
  split
  · simp only [join, h, List.filter_map, List.map_append, List.map_cons, List.map_nil]
    rfl
  · exact h

theorem Front.elements_ofList_map (f : β → α) (xs : List β) :
    (ofList (xs.map f) : Front better).elements =
      (ofList xs : Front fun a b => better (f a) (f b)).elements.map f := by
  induction xs using List.reverseRecOn with
  | nil => rfl
  | append_singleton xs c ih =>
    rw [List.map_append, List.map_cons, List.map_nil, ofList_concat, ofList_concat]
    exact elements_offer_map f ih c

theorem survivors_map (f : β → α) (xs : List β) :
    survivors better (xs.map f) = (survivors (fun a b => better (f a) (f b)) xs).map f := by
  have hsurvives (p : β × Nat) : survives better (xs.map f) (f p.1) p.2 =
      survives (fun a b => better (f a) (f b)) xs p.1 p.2 := by
    unfold survives
    rw [← List.map_take, List.all_map, List.all_map]
    rfl
  have hfilter : (xs.zipIdx.filter fun p => survives better (xs.map f) (f p.1) p.2) =
      xs.zipIdx.filter fun p => survives (fun a b => better (f a) (f b)) xs p.1 p.2 :=
    List.filter_congr fun p _ => hsurvives p
  unfold survivors
  rw [List.zipIdx_map, List.filter_map, List.map_map, List.map_map]
  exact congrArg (List.map (f ∘ Prod.fst)) hfilter

/-- Not being beaten orders the elements that have a property. -/
def UnbeatenAmong (P : α → Prop) (better : α → α → Bool) : Prop :=
  Unbeaten fun a b : { x // P x } => better a b

namespace UnbeatenAmong

variable {P Q : α → Prop} {xs : List α}

theorem mono (hb : UnbeatenAmong P better) (hQ : ∀ a, Q a → P a) : UnbeatenAmong Q better where
  refl a := hb.refl ⟨a, hQ a a.property⟩
  trans a b c hab hbc :=
    hb.trans ⟨a, hQ a a.property⟩ ⟨b, hQ b b.property⟩ ⟨c, hQ c c.property⟩ hab hbc

theorem elements_ofList (hb : UnbeatenAmong P better) (hxs : ∀ x ∈ xs, P x) :
    (Front.ofList xs : Front better).elements = survivors better xs := by
  lift xs to List { x // P x } using hxs
  rw [Front.elements_ofList_map, survivors_map, Journeys.elements_ofList hb]

theorem covers_ofList (hb : UnbeatenAmong P better) (hxs : ∀ x ∈ xs, P x) {x : α} (hx : x ∈ xs) :
    (Front.ofList xs : Front better).Covers x := by
  lift xs to List { x // P x } using hxs
  obtain ⟨x', hx', rfl⟩ := List.mem_map.1 hx
  obtain ⟨e, he, hxe⟩ := Front.covers_ofList hb hx'
  refine ⟨e, ?_, hxe⟩
  rw [Front.elements_ofList_map]
  exact List.mem_map_of_mem he

end UnbeatenAmong

/-! ## The order of a stream -/

namespace Front

/-- If nothing beats itself, nothing is in a balanced front twice. -/
theorem Balanced.nodup (hself : ∀ a, better a a = false) {front : Front better}
    (h : front.Balanced) : front.elements.Nodup := by
  refine List.Pairwise.imp ?_ h
  rintro a b ⟨hab, -⟩ rfl
  rw [hself a] at hab
  cases hab

/-- Whatever is in one front of a stream has a tie in the front of the same elements in another
order: a covering element of the second front is covered in turn by the first. -/
theorem exists_tie_of_perm (hb : Unbeaten better) {xs ys : List α} (hp : ys.Perm xs) {x : α}
    (hx : x ∈ (ofList xs : Front better).elements) :
    ∃ y ∈ (ofList ys : Front better).elements, ties better x y = true := by
  obtain ⟨y, hy, hxy⟩ := covers_ofList hb (hp.mem_iff.2 (mem_of_mem_ofList hx))
  -- `x'` covers `y` and so covers `x` too, but in one front no element covers another
  obtain ⟨x', hx', hyx'⟩ := covers_ofList hb (hp.mem_iff.1 (mem_of_mem_ofList hy))
  have hxx' : better x x' = false := hb.trans x' y x hyx' hxy
  have hsame : x = x' := (balanced_ofList xs).eq_of_better_eq_false hx hx' hxx'
  rw [← hsame] at hyx'
  exact ⟨y, hy, ties_iff.2 ⟨hxy, hyx'⟩⟩

/-- The fronts of a stream in two orders differ at most in the representatives of ties: the second
one can be listed so that the elements of the two tie place by place. -/
theorem forall₂_ties_of_perm (hb : Unbeaten better) {xs ys : List α} (hp : ys.Perm xs) :
    ∃ zs, zs.Perm (ofList ys : Front better).elements ∧
      List.Forall₂ (fun x y => ties better x y = true) (ofList xs : Front better).elements zs := by
  have hex : ∀ x : α, ∃ y : α, x ∈ (ofList xs : Front better).elements →
      y ∈ (ofList ys : Front better).elements ∧ ties better x y = true := by
    intro x
    by_cases hx : x ∈ (ofList xs : Front better).elements
    · obtain ⟨y, hy, hxy⟩ := exists_tie_of_perm hb hp hx
      exact ⟨y, fun _ => ⟨hy, hxy⟩⟩
    · exact ⟨x, fun h => absurd h hx⟩
  choose partner hpartner using hex
  -- no two elements share a partner, since a common tie would make them tie with each other
  have hnodup : ((ofList xs : Front better).elements.map partner).Nodup := by
    refine ((balanced_ofList xs).nodup hb.refl).map_on ?_
    intro a ha b hb' hab
    have hay := (hpartner a ha).2
    have hby := (hpartner b hb').2
    rw [← hab] at hby
    exact (balanced_ofList xs).eq_of_ties ha hb' (hb.ties_trans hay (ties_symm hby))
  refine ⟨(ofList xs : Front better).elements.map partner, ?_, ?_⟩
  · rw [List.perm_ext_iff_of_nodup hnodup ((balanced_ofList ys).nodup hb.refl)]
    intro y
    rw [List.mem_map]
    constructor
    · rintro ⟨x, hx, rfl⟩
      exact (hpartner x hx).1
    · intro hy
      obtain ⟨x, hx, hyx⟩ := exists_tie_of_perm hb hp.symm hy
      obtain ⟨hpx, hxp⟩ := hpartner x hx
      exact ⟨x, hx, ((balanced_ofList ys).eq_of_ties hy hpx (hb.ties_trans hyx hxp)).symm⟩
  · rw [List.forall₂_map_right_iff]
    exact List.forall₂_same.2 fun x hx => (hpartner x hx).2

end Front

/-- What ties agree on does not depend on the order of a stream. -/
theorem UnbeatenAmong.map_perm {κ : Type} {P : α → Prop} {key : α → κ}
    (hb : UnbeatenAmong P better)
    (hkey : ∀ a b, P a → P b → ties better a b = true → key a = key b) {xs ys : List α}
    (hxs : ∀ x ∈ xs, P x) (hp : ys.Perm xs) :
    ((Front.ofList ys : Front better).elements.map key).Perm
      ((Front.ofList xs : Front better).elements.map key) := by
  have hys : ∀ y ∈ ys, P y := fun y hy => hxs y (hp.mem_iff.1 hy)
  lift xs to List { x // P x } using hxs
  lift ys to List { x // P x } using hys
  have hp' : ys.Perm xs := (List.map_perm_map_iff Subtype.val_injective).1 hp
  obtain ⟨zs, hzs, hties⟩ := Front.forall₂_ties_of_perm hb hp'
  rw [Front.elements_ofList_map, Front.elements_ofList_map, List.map_map, List.map_map]
  have hkeys : (Front.ofList xs : Front fun a b : { x // P x } => better a b).elements.map
      (key ∘ Subtype.val) = zs.map (key ∘ Subtype.val) := by
    rw [← List.forall₂_eq_eq_eq, List.forall₂_map_left_iff, List.forall₂_map_right_iff]
    refine hties.imp ?_
    rintro ⟨a, ha⟩ ⟨b, hb⟩ hab
    exact hkey a b ha hb hab
  rw [hkeys]
  exact (hzs.map _).symm

/-- The front of a stream holds exactly the survivors of the stream, in the order in which they were
offered. Everything offered is covered, and another order of the same offers changes at most which
element represents a tie. -/
theorem front_eq_survivors (hb : Unbeaten better) (xs : List α) :
    (Front.ofList xs : Front better).elements = survivors better xs ∧
      (∀ x ∈ xs, ∃ e ∈ (Front.ofList xs : Front better).elements, better x e = false) ∧
      ∀ ys : List α, ys.Perm xs →
        ∃ zs, zs.Perm (Front.ofList ys : Front better).elements ∧
          List.Forall₂ (fun x y => ties better x y = true)
            (Front.ofList xs : Front better).elements zs := by
  refine ⟨elements_ofList hb xs, ?_, ?_⟩
  · intro x hx
    exact Front.covers_ofList hb hx
  · intro ys hp
    exact Front.forall₂_ties_of_perm hb hp

/-- Earlier arrivals and fewer rides are better; the label in the last place does not count. -/
def earlierOrFewer (l r : Nat × Nat × String) : Bool := l.1 < r.1 || l.2.1 < r.2.1

theorem unbeaten_earlierOrFewer : Unbeaten earlierOrFewer := by
  refine ⟨fun a => by simp [earlierOrFewer], fun a b c hab hbc => ?_⟩
  simp only [earlierOrFewer, Bool.or_eq_false_iff, decide_eq_false_iff_not] at *
  omega

/-- An arrival that evicts one element and ties with a later one, in a front that keeps two. -/
theorem front_eq_survivors_arrivals :
    (Front.ofList [(610, 2, "a"), (620, 1, "b"), (600, 2, "c"), (600, 2, "d")] :
        Front earlierOrFewer).elements = [(620, 1, "b"), (600, 2, "c")] ∧
      survivors earlierOrFewer [(610, 2, "a"), (620, 1, "b"), (600, 2, "c"), (600, 2, "d")] =
        [(620, 1, "b"), (600, 2, "c")] := by
  have h := (front_eq_survivors unbeaten_earlierOrFewer
    [(610, 2, "a"), (620, 1, "b"), (600, 2, "c"), (600, 2, "d")]).1
  have hs : survivors earlierOrFewer
      [(610, 2, "a"), (620, 1, "b"), (600, 2, "c"), (600, 2, "d")] =
        [(620, 1, "b"), (600, 2, "c")] := by decide
  exact ⟨h.trans hs, hs⟩

end Journeys
