import Journeys.Linked

/-!
# Proofs: relations along a linked list

What a reconstruction guarantees, it guarantees of every two rides that follow each other and of the
connection between them. `Chained` states a relation of this kind, in the recursion in which rides
are gone through: the element at hand, and the further ones behind their links.
-/

namespace Journeys

namespace Linked

variable {κ κ' α β : Type}

/-- The list with its links and its elements replaced. -/
def map (f : κ → κ') (g : α → β) (l : Linked κ α) : Linked κ' β :=
  ⟨g l.first, l.rest.map (Prod.map f g)⟩

/-- The last one of an element and those behind it. -/
def lastFrom : α → List (κ × α) → α
  | a, [] => a
  | _, (_, b) :: rest => lastFrom b rest

/-- The last element. -/
def last (l : Linked κ α) : α := lastFrom l.first l.rest

/-- Puts a link and an element behind. -/
def snoc (l : Linked κ α) (link : κ) (a : α) : Linked κ α := ⟨l.first, l.rest ++ [(link, a)]⟩

/-- An element and those behind it from the last one to the first. -/
def reverseFrom : α → List (κ × α) → Linked κ α
  | a, [] => ⟨a, []⟩
  | a, (link, b) :: rest => (reverseFrom b rest).snoc link a

/-- The list from its last element to its first. -/
def reverse (l : Linked κ α) : Linked κ α := reverseFrom l.first l.rest

/-- The relation holds between every two elements that follow each other and the link between
them. -/
def Chained (R : α → κ → α → Prop) : α → List (κ × α) → Prop
  | _, [] => True
  | a, (link, b) :: rest => R a link b ∧ Chained R b rest

/-- Lists grow from their last element, by elements that are put in front. -/
@[elab_as_elim]
theorem induction {motive : Linked κ α → Prop} (single : ∀ a, motive ⟨a, []⟩)
    (cons : ∀ a link l, motive l → motive (l.cons a link)) (l : Linked κ α) : motive l := by
  obtain ⟨a, rest⟩ := l
  induction rest generalizing a with
  | nil => exact single a
  | cons p rest ih => exact cons a p.1 ⟨p.2, rest⟩ (ih p.2)

/-! ## Shape -/

theorem mem_toList {l : Linked κ α} {a : α} :
    a ∈ l.toList ↔ a = l.first ∨ ∃ link, (link, a) ∈ l.rest := by
  simp [toList]

theorem first_mem_toList (l : Linked κ α) : l.first ∈ l.toList := by
  simp [toList]

theorem lastFrom_mem (a : α) (rest : List (κ × α)) :
    lastFrom a rest ∈ (⟨a, rest⟩ : Linked κ α).toList := by
  induction rest generalizing a with
  | nil => exact first_mem_toList _
  | cons p rest ih =>
    have hmem : lastFrom p.2 rest ∈ (⟨p.2, rest⟩ : Linked κ α).toList := ih p.2
    exact List.mem_cons_of_mem a hmem

theorem last_mem_toList (l : Linked κ α) : l.last ∈ l.toList := lastFrom_mem l.first l.rest

@[simp] theorem last_cons (a : α) (link : κ) (l : Linked κ α) : (l.cons a link).last = l.last := rfl

theorem map_cons (f : κ → κ') (g : α → β) (a : α) (link : κ) (l : Linked κ α) :
    (l.cons a link).map f g = (l.map f g).cons (g a) (f link) := rfl

@[simp] theorem toList_map (f : κ → κ') (g : α → β) (l : Linked κ α) :
    (l.map f g).toList = l.toList.map g := by
  simp [map, toList, Function.comp_def]

@[simp] theorem links_map (f : κ → κ') (g : α → β) (l : Linked κ α) :
    (l.map f g).links = l.links.map f := by
  simp [map, links, Function.comp_def]

theorem map_map {κ'' γ : Type} (f' : κ' → κ'') (g' : β → γ) (f : κ → κ') (g : α → β)
    (l : Linked κ α) : (l.map f g).map f' g' = l.map (f' ∘ f) (g' ∘ g) := by
  simp [map]

theorem last_map (f : κ → κ') (g : α → β) (l : Linked κ α) : (l.map f g).last = g l.last := by
  induction l using Linked.induction with
  | single a => rfl
  | cons a link l ih => exact ih

/-! ## Reversal -/

@[simp] theorem toList_snoc (l : Linked κ α) (link : κ) (a : α) :
    (l.snoc link a).toList = l.toList ++ [a] := by
  simp [snoc, toList]

theorem last_snoc (l : Linked κ α) (link : κ) (b : α) : (l.snoc link b).last = b := by
  induction l using Linked.induction with
  | single a => rfl
  | cons a link' l ih => exact ih

theorem reverse_cons (a : α) (link : κ) (l : Linked κ α) :
    (l.cons a link).reverse = l.reverse.snoc link a := rfl

@[simp] theorem toList_reverse (l : Linked κ α) : l.reverse.toList = l.toList.reverse := by
  induction l using Linked.induction with
  | single a => rfl
  | cons a link l ih => rw [reverse_cons, toList_snoc, ih, toList_cons, List.reverse_cons]

theorem last_reverse (l : Linked κ α) : l.reverse.last = l.first := by
  induction l using Linked.induction with
  | single a => rfl
  | cons a link l _ => exact last_snoc l.reverse link a

theorem first_reverse (l : Linked κ α) : l.reverse.first = l.last := by
  induction l using Linked.induction with
  | single a => rfl
  | cons a link l ih => exact ih

/-- Two lists are the same if their elements and their links are. -/
theorem ext_toList {l l' : Linked κ α} (hlist : l.toList = l'.toList)
    (hlinks : l.links = l'.links) : l = l' := by
  obtain ⟨a, rest⟩ := l
  obtain ⟨a', rest'⟩ := l'
  obtain ⟨rfl, hrest⟩ := List.cons.inj hlist
  have hlinks : rest.map Prod.fst = rest'.map Prod.fst := hlinks
  have hrest : rest.map Prod.snd = rest'.map Prod.snd := hrest
  rw [← List.zip_unzip rest, ← List.zip_unzip rest', List.unzip_eq_map, List.unzip_eq_map, hlinks,
    hrest]

/-- If every element comes from one with a property, so does the list. -/
theorem exists_map_of_forall {P : β → Prop} {f : β → α} (l : Linked κ α)
    (h : ∀ a ∈ l.toList, ∃ b, f b = a ∧ P b) :
    ∃ l' : Linked κ β, l'.map id f = l ∧ ∀ b ∈ l'.toList, P b := by
  induction l using Linked.induction with
  | single a =>
    obtain ⟨b, rfl, hb⟩ := h a (first_mem_toList _)
    exact ⟨⟨b, []⟩, rfl, by simpa [toList] using hb⟩
  | cons a link l ih =>
    obtain ⟨ha, hmore⟩ := List.forall_mem_cons.1 h
    obtain ⟨b, rfl, hb⟩ := ha
    obtain ⟨l', rfl, hP⟩ := ih hmore
    exact ⟨l'.cons b link, rfl, List.forall_mem_cons.2 ⟨hb, hP⟩⟩

/-! ## Relations along the list -/

namespace Chained

variable {R S T : α → κ → α → Prop}

/-- A relation may be weakened, knowing what holds of all elements. -/
theorem imp_of_mem {a : α} {rest : List (κ × α)} (h : Chained R a rest)
    (hRS : ∀ x ∈ (⟨a, rest⟩ : Linked κ α).toList, ∀ link, ∀ y ∈ (⟨a, rest⟩ : Linked κ α).toList,
      R x link y → S x link y) : Chained S a rest := by
  induction rest generalizing a with
  | nil => trivial
  | cons p rest ih =>
    obtain ⟨link, b⟩ := p
    refine ⟨hRS a (by simp [toList]) link b (by simp [toList]) h.1, ih h.2 ?_⟩
    intro x hx link' y hy
    exact hRS x (List.mem_cons_of_mem a hx) link' y (List.mem_cons_of_mem a hy)

theorem imp {a : α} {rest : List (κ × α)} (h : Chained R a rest)
    (hRS : ∀ x link y, R x link y → S x link y) : Chained S a rest :=
  h.imp_of_mem fun x _ link y _ => hRS x link y

theorem congr_of_mem {a : α} {rest : List (κ × α)}
    (hRS : ∀ x ∈ (⟨a, rest⟩ : Linked κ α).toList, ∀ link, ∀ y ∈ (⟨a, rest⟩ : Linked κ α).toList,
      (R x link y ↔ S x link y)) : Chained R a rest ↔ Chained S a rest :=
  ⟨fun h => h.imp_of_mem fun x hx link y hy => (hRS x hx link y hy).1,
    fun h => h.imp_of_mem fun x hx link y hy => (hRS x hx link y hy).2⟩

theorem and {a : α} {rest : List (κ × α)} (hR : Chained R a rest) (hS : Chained S a rest) :
    Chained (fun x link y => R x link y ∧ S x link y) a rest := by
  induction rest generalizing a with
  | nil => trivial
  | cons p rest ih => exact ⟨⟨hR.1, hS.1⟩, ih hR.2 hS.2⟩

/-- A relation along a list is one along the list that it was made from. -/
theorem map_iff {R : β → κ' → β → Prop} (f : κ → κ') (g : α → β) {a : α} {rest : List (κ × α)} :
    Chained R (g a) (rest.map (Prod.map f g)) ↔
      Chained (fun x link y => R (g x) (f link) (g y)) a rest := by
  induction rest generalizing a with
  | nil => exact Iff.rfl
  | cons p rest ih => exact and_congr Iff.rfl ih

theorem snoc_iff {l : Linked κ α} {link : κ} {b : α} :
    Chained R (l.snoc link b).first (l.snoc link b).rest ↔
      Chained R l.first l.rest ∧ R l.last link b := by
  induction l using Linked.induction with
  | single a => exact and_comm
  | cons a link' l ih => exact (and_congr Iff.rfl ih).trans and_assoc.symm

/-- Along the reversed list, a relation holds the other way round. -/
theorem reverse_iff {l : Linked κ α} :
    Chained R l.reverse.first l.reverse.rest ↔
      Chained (fun x link y => R y link x) l.first l.rest := by
  induction l using Linked.induction with
  | single a => exact Iff.rfl
  | cons a link l ih =>
    rw [reverse_cons, snoc_iff, ih, last_reverse]
    exact and_comm

/-- What holds of all links holds along the list. -/
theorem of_links {P : κ → Prop} {a : α} {rest : List (κ × α)}
    (h : ∀ link ∈ (⟨a, rest⟩ : Linked κ α).links, P link) :
    Chained (fun _ link _ => P link) a rest := by
  induction rest generalizing a with
  | nil => trivial
  | cons p rest ih =>
    obtain ⟨hlink, hlinks⟩ := List.forall_mem_cons.1 h
    exact ⟨hlink, ih hlinks⟩

/-- What holds of the first element and of each one that a link leads to holds of all. -/
theorem forall_of_first {P : α → Prop} {a : α} {rest : List (κ × α)} (ha : P a)
    (h : Chained (fun _ _ y => P y) a rest) : ∀ x ∈ (⟨a, rest⟩ : Linked κ α).toList, P x := by
  induction rest generalizing a with
  | nil => simpa [toList] using ha
  | cons p rest ih =>
    have hbehind := ih h.1 h.2
    exact List.forall_mem_cons.2 ⟨ha, hbehind⟩

/-- What holds of the last element and of each one that a link follows holds of all. -/
theorem forall_of_last {P : α → Prop} {a : α} {rest : List (κ × α)} (ha : P (lastFrom a rest))
    (h : Chained (fun x _ _ => P x) a rest) : ∀ x ∈ (⟨a, rest⟩ : Linked κ α).toList, P x := by
  induction rest generalizing a with
  | nil => simpa [toList, lastFrom] using ha
  | cons p rest ih =>
    have hbehind := ih (a := p.2) ha h.2
    exact List.forall_mem_cons.2 ⟨h.1, hbehind⟩

/-- Place by place, a relation along the list holds of each element, the link behind it and the
element behind that. -/
theorem getElem? {l : Linked κ α} (h : Chained R l.first l.rest) {i : Nat} {x y : α} {link : κ}
    (hx : l.toList[i]? = some x) (hlink : l.links[i]? = some link)
    (hy : l.toList[i + 1]? = some y) : R x link y := by
  obtain ⟨a, rest⟩ := l
  induction rest generalizing a i with
  | nil => simp [links] at hlink
  | cons p rest ih =>
    obtain ⟨link', b⟩ := p
    cases i with
    | zero =>
      simp only [toList, links, List.map_cons, List.getElem?_cons_zero, List.getElem?_cons_succ,
        Option.some.injEq] at hx hlink hy
      rw [← hx, ← hlink, ← hy]
      exact h.1
    | succ i =>
      refine ih b h.2 (i := i) ?_ ?_ ?_
      · simpa [toList] using hx
      · simpa [links] using hlink
      · simpa [toList] using hy

/-- A relation that holds place by place holds along the list. -/
theorem of_getElem? {l : Linked κ α} (h : ∀ (i : Nat) (x : α) (link : κ) (y : α),
    l.toList[i]? = some x → l.links[i]? = some link → l.toList[i + 1]? = some y → R x link y) :
    Chained R l.first l.rest := by
  induction l using Linked.induction with
  | single a => trivial
  | cons a link l ih =>
    refine ⟨h 0 a link l.first rfl rfl rfl, ih ?_⟩
    intro i x link' y hx hlink hy
    exact h (i + 1) x link' y hx hlink hy

end Chained

end Linked

end Journeys
