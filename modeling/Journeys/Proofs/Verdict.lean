import Journeys.Proofs.ParetoFront

/-!
# Proofs: the verdict on a candidate

The first element of a front that a candidate fails to beat decides whether the candidate counts as
dominated or as a duplicate. Another element might have decided otherwise, so the label says
something about the front as a whole only if the elements that keep a candidate out agree. They do
if the front is balanced and if not being beaten passes on through the candidate.
-/

namespace Journeys

variable {α : Type} {better : α → α → Bool}

/-- Not being beaten passes on through `c`: what does not beat `c` does not beat what `c` does not
beat. -/
def UnbeatenThrough (better : α → α → Bool) (c : α) : Prop :=
  ∀ a b, better c a = false → better b c = false → better b a = false

namespace Front

variable {front : Front better} {c : α}

theorem judge_of_admits (hadm : front.admits c = true) :
    front.judge c = .accepted (front.elements.filter fun e => !better e c) := by
  have hnone : (front.elements.find? fun e => !better c e) = none := by
    rw [List.find?_eq_none]
    intro e he
    simp [admits_iff.1 hadm e he]
  unfold judge
  rw [hnone]

/-- The elements that keep a candidate out of a balanced front all dominate it, unless there is a
single one and that one ties with it. -/
theorem Balanced.better_eq_of_loses (hbal : front.Balanced) (hc : UnbeatenThrough better c)
    {e e' : α} (he : e ∈ front.elements) (he' : e' ∈ front.elements) (hce : better c e = false)
    (hce' : better c e' = false) : better e c = better e' c := by
  by_cases hec : better e c = true
  · by_cases hec' : better e' c = true
    · rw [hec, hec']
    · have hee' : better e' e = false := hc e e' hce (by simpa using hec')
      rw [hbal.eq_of_better_eq_false he' he hee']
  · have hee' : better e e' = false := hc e' e hce' (by simpa using hec)
    rw [hbal.eq_of_better_eq_false he he' hee']

theorem judge_of_loses (hbal : front.Balanced) (hc : UnbeatenThrough better c) {e : α}
    (he : e ∈ front.elements) (hce : better c e = false) :
    front.judge c = if better e c then .dominated else .duplicate := by
  unfold judge
  split
  · rename_i e' hfind
    -- the one that decides need not be `e`, but it says the same of the candidate
    have he' : e' ∈ front.elements := List.mem_of_find?_eq_some hfind
    have hce' : better c e' = false := by simpa using List.find?_some hfind
    rw [hbal.better_eq_of_loses hc he' he hce' hce]
  · rename_i hnone
    have hbeats := List.find?_eq_none.1 hnone e he
    rw [hce] at hbeats
    exact absurd rfl hbeats

theorem exists_loses_of_not_isAccepted (h : (front.judge c).isAccepted ≠ true) :
    ∃ e ∈ front.elements, better c e = false := by
  rw [isAccepted_judge] at h
  exact exists_loses_of_not_admits h

theorem judge_eq_dominated_iff (hbal : front.Balanced) (hc : UnbeatenThrough better c) :
    front.judge c = .dominated ↔ ∃ e ∈ front.elements, dominates better e c = true := by
  constructor
  · intro h
    obtain ⟨e, he, hce⟩ := exists_loses_of_not_isAccepted (by rw [h]; nofun)
    rw [judge_of_loses hbal hc he hce] at h
    by_cases hec : better e c = true
    · exact ⟨e, he, by simp [dominates, hec, hce]⟩
    · rw [if_neg hec] at h
      cases h
  · rintro ⟨e, he, hdom⟩
    obtain ⟨hec, hce⟩ : better e c = true ∧ better c e = false := by
      simpa [dominates] using hdom
    rw [judge_of_loses hbal hc he hce, if_pos hec]

theorem judge_eq_duplicate_iff (hbal : front.Balanced) (hc : UnbeatenThrough better c) :
    front.judge c = .duplicate ↔ ∃ e ∈ front.elements, ties better e c = true := by
  constructor
  · intro h
    obtain ⟨e, he, hce⟩ := exists_loses_of_not_isAccepted (by rw [h]; nofun)
    rw [judge_of_loses hbal hc he hce] at h
    by_cases hec : better e c = true
    · rw [if_pos hec] at h
      cases h
    · exact ⟨e, he, ties_iff.2 ⟨by simpa using hec, hce⟩⟩
  · rintro ⟨e, he, hties⟩
    obtain ⟨hec, hce⟩ := ties_iff.1 hties
    rw [judge_of_loses hbal hc he hce, hec]
    rfl

/-- A candidate that nothing dominates or ties with joins the front, and what leaves is what it
dominates. -/
theorem judge_of_unchallenged
    (hfree : ∀ e ∈ front.elements, dominates better e c = false ∧ ties better e c = false) :
    front.judge c = .accepted (front.elements.filter fun e => dominates better c e) := by
  have hadm : front.admits c = true := by
    rw [admits_iff]
    intro e he
    have hboth : (!dominates better e c && !ties better e c) = better c e :=
      not_dominates_and_not_ties
    rw [← hboth, (hfree e he).1, (hfree e he).2]
    rfl
  rw [judge_of_admits hadm]
  congr 1
  refine List.filter_congr fun e he => ?_
  simp [dominates, admits_iff.1 hadm e he]

end Front

end Journeys
