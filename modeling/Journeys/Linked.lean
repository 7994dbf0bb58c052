/-!
# Linked lists of rides

The rides of a journey and the connections between them alternate, and there is one ride more than
there are connections. `Linked κ α` has this shape by construction: a first element, and further
elements each with the link that leads to it. So nothing has to be said about the two lengths.
-/

namespace Journeys

/-- At least one element of `α`, with a link of `κ` between every two that follow each other. -/
structure Linked (κ α : Type) where
  /-- The first element. -/
  first : α
  /-- The others, each behind the link that leads to it. -/
  rest : List (κ × α)
deriving DecidableEq, Repr

namespace Linked

variable {κ α : Type}

/-- The elements in order. -/
def toList (l : Linked κ α) : List α := l.first :: l.rest.map (·.2)

/-- The links in order. -/
def links (l : Linked κ α) : List κ := l.rest.map (·.1)

/-- The number of elements. -/
def length (l : Linked κ α) : Nat := l.rest.length + 1

/-- Puts an element and a link in front. -/
def cons (a : α) (link : κ) (l : Linked κ α) : Linked κ α := ⟨a, (link, l.first) :: l.rest⟩

@[simp] theorem length_toList (l : Linked κ α) : l.toList.length = l.length := by
  simp [toList, length]

/-- There is one element more than there are links. -/
theorem length_links (l : Linked κ α) : l.links.length + 1 = l.length := by
  simp [links, length]

@[simp] theorem toList_cons (a : α) (link : κ) (l : Linked κ α) :
    (l.cons a link).toList = a :: l.toList := rfl

end Linked

end Journeys
