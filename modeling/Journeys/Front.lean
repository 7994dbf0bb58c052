/-!
# Pareto fronts

A `Front` keeps the elements of a stream that no other element makes unnecessary. What "unnecessary"
means comes from one relation: `better a b` says that `a` beats `b` on at least one criterion. Then
`a` dominates `b` when it beats `b` somewhere and `b` beats it nowhere, and two elements tie when
neither beats the other.

A new element is turned away as soon as it fails to beat some element of the front. Otherwise it
joins the front at the end, and the elements that fail to beat it leave. Nothing is assumed of the
relation; if not being beaten is transitive, the front holds what the whole stream would leave.
-/

namespace Journeys

/-- `a` makes `b` unnecessary: it is better somewhere and worse nowhere. -/
def dominates {α : Type} (better : α → α → Bool) (a b : α) : Bool := better a b && !better b a

/-- Neither of two elements is better than the other anywhere. -/
def ties {α : Type} (better : α → α → Bool) (a b : α) : Bool := !better a b && !better b a

/-- What became of an element that was offered to a front. -/
inductive Verdict (α : Type) where
  /-- It joined the front, and these elements left. -/
  | accepted (evicted : List α)
  /-- An element of the front dominates it. -/
  | dominated
  /-- An element of the front ties with it. -/
  | duplicate
deriving DecidableEq, Repr

/-- Whether the element joined the front. -/
def Verdict.isAccepted {α : Type} : Verdict α → Bool
  | accepted _ => true
  | dominated => false
  | duplicate => false

/-- The elements of a stream that are still in the running, in the order in which they joined. -/
structure Front {α : Type} (better : α → α → Bool) where
  /-- The elements. -/
  elements : List α

namespace Front

variable {α : Type} {better : α → α → Bool}

/-- The front of no elements. -/
def empty : Front better := ⟨[]⟩

instance : Inhabited (Front better) := ⟨empty⟩

/-- Whether an element would join the front if it were offered now. -/
def admits (front : Front better) (candidate : α) : Bool :=
  front.elements.all fun e => better candidate e

/-- What would become of an element if it were offered now. The first element of the front that it
fails to beat decides whether it counts as dominated or as a duplicate. -/
def judge (front : Front better) (candidate : α) : Verdict α :=
  match front.elements.find? fun e => !better candidate e with
  | some e => if better e candidate then .dominated else .duplicate
  | none => .accepted (front.elements.filter fun e => !better e candidate)

/-- The front with the candidate in it, and without the elements that fail to beat it. -/
def join (front : Front better) (candidate : α) : Front better :=
  ⟨(front.elements.filter fun e => better e candidate) ++ [candidate]⟩

/-- The front after an element was offered. -/
def offer (front : Front better) (candidate : α) : Front better :=
  if front.admits candidate then front.join candidate else front

/-- The front after a list of elements was offered one by one. -/
def ofList (xs : List α) : Front better := xs.foldl offer empty

/-- The front after everything was taken out of it. -/
def clear (_ : Front better) : Front better := empty

/-- What a stream does to a front. -/
inductive Step (α : Type) where
  /-- It offers an element. -/
  | offer (element : α)
  /-- It takes everything out and starts anew. -/
  | clear

/-- The front after one step of a stream. -/
def act (front : Front better) : Step α → Front better
  | .offer element => front.offer element
  | .clear => front.clear

/-- The front after a list of steps, one after the other. -/
def run (front : Front better) (steps : List (Step α)) : Front better := steps.foldl act front

/-- The number of elements. -/
def size (front : Front better) : Nat := front.elements.length

/-- Whether there are no elements. -/
def isEmpty (front : Front better) : Bool := front.elements.isEmpty

theorem eq_empty_of_elements {front : Front better} (h : front.elements = []) : front = empty := by
  cases front
  rw [empty, ← h]

/-- An element would join exactly when it beats every element of the front. -/
theorem admits_iff {front : Front better} {candidate : α} :
    front.admits candidate = true ↔ ∀ e ∈ front.elements, better candidate e = true := by
  simp [admits]

/-- The verdict is acceptance exactly when the element would join. -/
theorem isAccepted_judge (front : Front better) (candidate : α) :
    (front.judge candidate).isAccepted = front.admits candidate := by
  unfold judge
  split
  · rename_i e h
    have hmem := List.mem_of_find?_eq_some h
    have hnot : better candidate e = false := by simpa using List.find?_some h
    have hadm : front.admits candidate = false := by
      rw [Bool.eq_false_iff]
      intro hall
      simp [admits_iff.1 hall e hmem] at hnot
    rw [hadm]
    split <;> rfl
  · rename_i h
    have hadm : front.admits candidate = true := by
      rw [admits_iff]
      intro e he
      simpa using List.find?_eq_none.1 h e he
    rw [hadm]
    rfl

end Front

end Journeys
