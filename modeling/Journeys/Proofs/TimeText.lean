import Journeys.Proofs.Failure
import Journeys.Time.Text

/-!
# Proofs: the text of a time

Which texts are read as a time is said without the reader (`Time.Spells`): two ASCII digits to a
component, colons between them, nothing else. Reader and writer meet in the parts between the
colons. The parts of a text are those that `Time.components` finds, the parts that are written of a
time hold no colon, so the writer's parts are found again (`Time.components_text`).

A component may be longer than two digits when it is written, so reading only undoes writing up to
`99:59:59`. No two times have the same text all the same.
-/

namespace Journeys

namespace Time

/-! ## Parts between colons -/

theorem components_eq_splitOn (cs : List Char) : components cs = cs.splitOn ':' := by
  induction cs with
  | nil => rfl
  | cons c rest ih =>
    rw [components, ih, List.splitOn_cons_eq_if_modifyHead]
    by_cases hc : c = ':'
    · simp [hc]
    · cases hrest : rest.splitOn ':' with
      | nil => exact absurd hrest (List.splitOn_ne_nil _ _)
      | cons first others => simp [hc]

theorem intercalate_components (cs : List Char) : [':'].intercalate (components cs) = cs := by
  rw [components_eq_splitOn, List.intercalate_splitOn]

theorem components_intercalate {parts : List (List Char)} (h : ∀ part ∈ parts, ':' ∉ part)
    (hne : parts ≠ []) : components ([':'].intercalate parts) = parts := by
  rw [components_eq_splitOn, List.splitOn_intercalate _ h hne]

/-! ## Two digits -/

/-- Two ASCII digits, and the number that they make up. -/
def TwoDigits (cs : List Char) (n : Nat) : Prop :=
  ∃ a b, cs = [a, b] ∧ a.isDigit = true ∧ b.isDigit = true ∧ Nat.ofDigitChars 10 cs 0 = n

theorem ofDigitChars_pair (a b : Char) :
    Nat.ofDigitChars 10 [a, b] 0 = 10 * (a.toNat - 48) + (b.toNat - 48) := by
  simp [Nat.ofDigitChars_cons]

theorem bounds_of_isDigit {c : Char} (h : c.isDigit = true) : 48 ≤ c.toNat ∧ c.toNat ≤ 57 :=
  Char.isDigit_iff_toNat.1 h

namespace TwoDigits

variable {cs cs' : List Char} {n : Nat}

theorem lt_hundred (h : TwoDigits cs n) : n < 100 := by
  obtain ⟨a, b, rfl, ha, hb, rfl⟩ := h
  have hbounds := bounds_of_isDigit ha
  have hbounds' := bounds_of_isDigit hb
  rw [ofDigitChars_pair]
  omega

/-- Two digits are known from the number that they make up. -/
theorem unique (h : TwoDigits cs n) (h' : TwoDigits cs' n) : cs = cs' := by
  obtain ⟨a, b, rfl, ha, hb, hn⟩ := h
  obtain ⟨a', b', rfl, ha', hb', hn'⟩ := h'
  rw [ofDigitChars_pair] at hn hn'
  have h₁ := bounds_of_isDigit ha
  have h₂ := bounds_of_isDigit hb
  have h₃ := bounds_of_isDigit ha'
  have h₄ := bounds_of_isDigit hb'
  have htens : a = a' := Char.toNat_inj.1 (by omega)
  have hones : b = b' := Char.toNat_inj.1 (by omega)
  rw [htens, hones]

theorem colon_not_mem (h : TwoDigits cs n) : ':' ∉ cs := by
  obtain ⟨a, b, rfl, ha, hb, -⟩ := h
  intro hmem
  rcases List.mem_cons.1 hmem with rfl | hmem
  · exact absurd ha (by decide)
  · obtain rfl := List.mem_singleton.1 hmem
    exact absurd hb (by decide)

end TwoDigits

theorem digitValue?_eq_some_iff {c : Char} {n : Nat} :
    digitValue? c = some n ↔ c.isDigit = true ∧ c.toNat - 48 = n := by
  have hdigit : ('0' ≤ c ∧ c ≤ '9') ↔ c.isDigit = true := by
    rw [Char.isDigit_iff_toNat, Char.le_def, Char.le_def, UInt32.le_iff_toNat_le,
      UInt32.le_iff_toNat_le]
    rfl
  simp [digitValue?, hdigit]

theorem twoDigits?_eq_some_iff {cs : List Char} {n : Nat} :
    twoDigits? cs = some n ↔ TwoDigits cs n := by
  unfold twoDigits?
  split
  · rename_i a b
    simp only [Option.bind_eq_bind, Option.bind_eq_some_iff, digitValue?_eq_some_iff,
      Option.pure_def, Option.some.injEq, TwoDigits, ofDigitChars_pair]
    constructor
    · rintro ⟨tens, ⟨ha, rfl⟩, ones, ⟨hb, rfl⟩, rfl⟩
      exact ⟨a, b, rfl, ha, hb, by omega⟩
    · rintro ⟨a', b', hcs, ha, hb, hn⟩
      obtain ⟨rfl, rfl⟩ : a = a' ∧ b = b' := by simpa using hcs
      exact ⟨_, ⟨ha, rfl⟩, _, ⟨hb, rfl⟩, by omega⟩
  · rename_i hshape
    simp only [reduceCtorEq, false_iff]
    rintro ⟨a, b, rfl, -⟩
    exact hshape a b rfl

/-! ## Reading -/

/-- A text is `HH:MM` or `HH:MM:SS` with these hours, minutes and seconds. -/
inductive Spells : List Char → Time → Prop
  /-- Hours and minutes. -/
  | minutes {hh mm : List Char} {h m : Nat} {t : Time} (hhours : TwoDigits hh h)
      (hminutes : TwoDigits mm m) (hm : m ≤ 59) (ht : t.seconds = h * 3600 + m * 60) :
      Spells (hh ++ ':' :: mm) t
  /-- Hours, minutes and seconds. -/
  | seconds {hh mm ss : List Char} {h m s : Nat} {t : Time} (hhours : TwoDigits hh h)
      (hminutes : TwoDigits mm m) (hm : m ≤ 59) (hseconds : TwoDigits ss s) (hs : s ≤ 59)
      (ht : t.seconds = h * 3600 + m * 60 + s) : Spells (hh ++ ':' :: (mm ++ ':' :: ss)) t

theorem sexagesimal?_eq_some_iff {cs : List Char} {n : Nat} :
    sexagesimal? cs = some n ↔ TwoDigits cs n ∧ n ≤ 59 := by
  rw [sexagesimal?, Option.filter_eq_some_iff, twoDigits?_eq_some_iff, decide_eq_true_iff,
    Nat.lt_succ_iff]

/-- Two digits take up two bytes, so the hours are only refused for their length where they are no
two digits. -/
theorem readHours_eq_ok_iff {cs : List Char} {n : Nat} :
    readHours cs = .ok n ↔ TwoDigits cs n := by
  have hbytes (h : TwoDigits cs n) : byteLength cs = 2 := by
    obtain ⟨a, b, rfl, ha, hb, -⟩ := h
    have hsize {c : Char} (hc : c.isDigit = true) : c.utf8Size = 1 := by
      have hbounds := bounds_of_isDigit hc
      have hval : c.val ≤ 127 := UInt32.le_iff_toNat_le.2 (by change c.toNat ≤ 127; omega)
      simp [Char.utf8Size, hval]
    simp [byteLength, hsize ha, hsize hb]
  unfold readHours
  rw [← twoDigits?_eq_some_iff] at hbytes ⊢
  by_cases hlength : byteLength cs = 2
  · cases hdigits : twoDigits? cs <;> simp [hlength]
  · have hnone : twoDigits? cs ≠ some n := fun h => hlength (hbytes h)
    simp [hlength, hnone]

theorem seconds_ofHms {h m s : Nat} (hh : h < 100) (hm : m ≤ 59) (hs : s ≤ 59) :
    (ofHms h m s).seconds = h * 3600 + m * 60 + s := by
  have hrange : InRange (h * 3600 + m * 60 + s) := by
    unfold InRange
    omega
  exact seconds_clamp_of_inRange hrange

theorem ofComponents_none_eq_ok_iff {hh mm : List Char} {t : Time} :
    ofComponents hh mm none = .ok t ↔ ∃ h m, TwoDigits hh h ∧ (TwoDigits mm m ∧ m ≤ 59) ∧
      t.seconds = h * 3600 + m * 60 := by
  rw [ofComponents, bind_eq_ok_iff]
  constructor
  · rintro ⟨h, hhours, hrest⟩
    cases hminutes : sexagesimal? mm with
    | none => simp [hminutes] at hrest
    | some m =>
      simp only [hminutes, Except.ok.injEq] at hrest
      rw [readHours_eq_ok_iff] at hhours
      rw [sexagesimal?_eq_some_iff] at hminutes
      have ht := seconds_ofHms hhours.lt_hundred hminutes.2 (Nat.zero_le 59)
      rw [← hrest]
      exact ⟨h, m, hhours, hminutes, by simpa using ht⟩
  · rintro ⟨h, m, hhours, hminutes, ht⟩
    have hseconds := seconds_ofHms hhours.lt_hundred hminutes.2 (Nat.zero_le 59)
    refine ⟨h, readHours_eq_ok_iff.2 hhours, ?_⟩
    rw [sexagesimal?_eq_some_iff.2 hminutes]
    refine congrArg Except.ok (Time.ext ?_)
    rw [ht]
    simpa using hseconds

theorem ofComponents_some_eq_ok_iff {hh mm ss : List Char} {t : Time} :
    ofComponents hh mm (some ss) = .ok t ↔ ∃ h m s, TwoDigits hh h ∧ (TwoDigits mm m ∧ m ≤ 59) ∧
      (TwoDigits ss s ∧ s ≤ 59) ∧ t.seconds = h * 3600 + m * 60 + s := by
  rw [ofComponents, bind_eq_ok_iff]
  constructor
  · rintro ⟨h, hhours, hrest⟩
    cases hminutes : sexagesimal? mm with
    | none => simp [hminutes] at hrest
    | some m =>
      cases hseconds : sexagesimal? ss with
      | none => simp [hminutes, hseconds] at hrest
      | some s =>
        simp only [hminutes, hseconds, Except.ok.injEq] at hrest
        rw [readHours_eq_ok_iff] at hhours
        rw [sexagesimal?_eq_some_iff] at hminutes hseconds
        rw [← hrest]
        exact ⟨h, m, s, hhours, hminutes, hseconds,
          seconds_ofHms hhours.lt_hundred hminutes.2 hseconds.2⟩
  · rintro ⟨h, m, s, hhours, hminutes, hseconds, ht⟩
    refine ⟨h, readHours_eq_ok_iff.2 hhours, ?_⟩
    rw [sexagesimal?_eq_some_iff.2 hminutes]
    simp only [sexagesimal?_eq_some_iff.2 hseconds]
    refine congrArg Except.ok (Time.ext ?_)
    rw [ht]
    exact seconds_ofHms hhours.lt_hundred hminutes.2 hseconds.2

/-- A text is read as a time exactly if it spells it. -/
theorem parse_eq_ok_iff_spells {text : String} {t : Time} :
    parse text = .ok t ↔ Spells text.toList t := by
  unfold parse
  constructor
  · intro hread
    have hjoined := intercalate_components text.toList
    split at hread
    · rename_i hh mm hparts
      rw [hparts] at hjoined
      obtain ⟨h, m, hhours, ⟨hminutes, hm⟩, ht⟩ := ofComponents_none_eq_ok_iff.1 hread
      rw [← hjoined]
      simpa [List.intercalate] using Spells.minutes hhours hminutes hm ht
    · rename_i hh mm ss hparts
      rw [hparts] at hjoined
      obtain ⟨h, m, s, hhours, ⟨hminutes, hm⟩, ⟨hseconds, hs⟩, ht⟩ :=
        ofComponents_some_eq_ok_iff.1 hread
      rw [← hjoined]
      simpa [List.intercalate] using Spells.seconds hhours hminutes hm hseconds hs ht
    · cases hread
    · cases hread
  · intro hspells
    generalize htext : text.toList = cs at hspells
    cases hspells with
    | @minutes hh mm h m _ hhours hminutes hm ht =>
      have hparts : components (hh ++ ':' :: mm) = [hh, mm] := by
        have hcolons : ∀ part ∈ [hh, mm], ':' ∉ part := by
          simp [hhours.colon_not_mem, hminutes.colon_not_mem]
        simpa [List.intercalate] using components_intercalate hcolons (List.cons_ne_nil _ _)
      rw [hparts]
      exact ofComponents_none_eq_ok_iff.2 ⟨h, m, hhours, ⟨hminutes, hm⟩, ht⟩
    | @seconds hh mm ss h m s _ hhours hminutes hm hseconds hs ht =>
      have hparts : components (hh ++ ':' :: (mm ++ ':' :: ss)) = [hh, mm, ss] := by
        have hcolons : ∀ part ∈ [hh, mm, ss], ':' ∉ part := by
          simp [hhours.colon_not_mem, hminutes.colon_not_mem, hseconds.colon_not_mem]
        simpa [List.intercalate] using components_intercalate hcolons (List.cons_ne_nil _ _)
      rw [hparts]
      exact ofComponents_some_eq_ok_iff.2 ⟨h, m, s, hhours, ⟨hminutes, hm⟩, ⟨hseconds, hs⟩, ht⟩

/-! ## Writing -/

theorem toList_padded (n : Nat) :
    (padded n).toList = if n < 10 then '0' :: Nat.toDigits 10 n else Nat.toDigits 10 n := by
  unfold padded
  split
  · rw [String.toList_append, Nat.toList_repr]
    rfl
  · rw [Nat.toList_repr]

theorem isDigit_of_mem_padded {n : Nat} {c : Char} (h : c ∈ (padded n).toList) :
    c.isDigit = true := by
  have hdigits : ∀ c ∈ Nat.toDigits 10 n, c.isDigit = true := fun c hc =>
    Nat.isDigit_of_mem_toDigits (by decide) (by decide) hc
  rw [toList_padded] at h
  split at h
  · rcases List.mem_cons.1 h with rfl | h
    · rfl
    · exact hdigits c h
  · exact hdigits c h

theorem ofDigitChars_padded (n : Nat) : Nat.ofDigitChars 10 (padded n).toList 0 = n := by
  have hdigits : Nat.ofDigitChars 10 (Nat.toDigits 10 n) 0 = n :=
    Nat.ofDigitChars_toDigits (by decide) (by decide)
  rw [toList_padded]
  split
  · rw [Nat.ofDigitChars_cons]
    exact hdigits
  · exact hdigits

theorem padded_inj {n n' : Nat} (h : (padded n).toList = (padded n').toList) : n = n' := by
  rw [← ofDigitChars_padded n, h, ofDigitChars_padded]

theorem twoDigits_padded {n : Nat} (h : n < 100) : TwoDigits (padded n).toList n := by
  have hvalue := ofDigitChars_padded n
  rw [toList_padded] at hvalue ⊢
  split
  · rename_i hlt
    rw [if_pos hlt] at hvalue
    rw [Nat.toDigits_of_lt_base hlt] at hvalue ⊢
    exact ⟨'0', n.digitChar, rfl, rfl, by simp [Nat.isDigit_digitChar, hlt], hvalue⟩
  · rename_i hge
    have htens : n / 10 < 10 := by omega
    have hones : n % 10 < 10 := by omega
    rw [if_neg hge] at hvalue
    rw [Nat.toDigits_eq_if (by decide), if_neg hge, Nat.toDigits_of_lt_base htens] at hvalue ⊢
    exact ⟨(n / 10).digitChar, (n % 10).digitChar, rfl, by simp [Nat.isDigit_digitChar, htens],
      by simp [Nat.isDigit_digitChar, hones], hvalue⟩

theorem TwoDigits.padded_eq {cs : List Char} {n : Nat} (h : TwoDigits cs n) :
    (padded n).toList = cs :=
  (twoDigits_padded h.lt_hundred).unique h

/-- The hours of a time as they are written, the sign in front. -/
def signedHours (t : Time) : List Char :=
  (if t.seconds < 0 then ['-'] else []) ++ (padded (t.seconds.natAbs / 3600)).toList

/-- The parts of the text of a time between its colons. -/
def parts (t : Time) : List (List Char) :=
  [t.signedHours, (padded (t.seconds.natAbs / 60 % 60)).toList] ++
    if t.seconds.natAbs % 60 = 0 then [] else [(padded (t.seconds.natAbs % 60)).toList]

variable {t t' : Time}

theorem toList_text (t : Time) : t.text.toList = [':'].intercalate t.parts := by
  have hsign : (if t.seconds < 0 then "-" else "").toList =
      if t.seconds < 0 then ['-'] else [] := by
    split <;> rfl
  have hcolon : ":".toList = [':'] := rfl
  unfold text parts signedHours
  by_cases hzero : t.seconds.natAbs % 60 = 0
  · simp [hzero, hsign, hcolon, List.intercalate]
  · simp [hzero, hsign, hcolon, List.intercalate]

theorem colon_not_mem_parts (t : Time) : ∀ part ∈ t.parts, ':' ∉ part := by
  have hpadded (n : Nat) : ':' ∉ (padded n).toList := by
    intro h
    exact absurd (isDigit_of_mem_padded h) (by decide)
  have hhours : ':' ∉ t.signedHours := by
    unfold signedHours
    split <;> simp [hpadded]
  unfold parts
  split <;> simp [hpadded, hhours]

theorem components_text (t : Time) : components t.text.toList = t.parts := by
  rw [toList_text]
  exact components_intercalate t.colon_not_mem_parts (by simp [parts])

theorem minus_mem_signedHours_iff : '-' ∈ t.signedHours ↔ t.seconds < 0 := by
  have hpadded : '-' ∉ (padded (t.seconds.natAbs / 3600)).toList := by
    intro h
    exact absurd (isDigit_of_mem_padded h) (by decide)
  unfold signedHours
  split
  · rename_i hneg
    simp [hneg]
  · rename_i hneg
    simp [hneg, hpadded]

/-- Sign and hours, minutes and seconds can be read off the text, whichever way they are shown. -/
theorem text_injective : Function.Injective text := by
  intro t t' h
  have hparts : t.parts = t'.parts := by rw [← components_text, ← components_text, h]
  obtain ⟨hhours, hminutes, hseconds⟩ : t.signedHours = t'.signedHours ∧
      (padded (t.seconds.natAbs / 60 % 60)).toList =
        (padded (t'.seconds.natAbs / 60 % 60)).toList ∧
      (if t.seconds.natAbs % 60 = 0 then [] else [(padded (t.seconds.natAbs % 60)).toList]) =
        if t'.seconds.natAbs % 60 = 0 then [] else [(padded (t'.seconds.natAbs % 60)).toList] := by
    simpa [parts] using hparts
  have hsign : t.seconds < 0 ↔ t'.seconds < 0 := by
    rw [← minus_mem_signedHours_iff, hhours, minus_mem_signedHours_iff]
  have hhour : t.seconds.natAbs / 3600 = t'.seconds.natAbs / 3600 := by
    simp only [signedHours, hsign] at hhours
    exact padded_inj (List.append_cancel_left hhours)
  have hminute := padded_inj hminutes
  have hsecond : t.seconds.natAbs % 60 = t'.seconds.natAbs % 60 := by
    split at hseconds
    · split at hseconds
      · omega
      · simp at hseconds
    · split at hseconds
      · simp at hseconds
      · exact padded_inj (List.singleton_inj.1 hseconds)
  apply Time.ext
  omega

/-! ## Reading what is written -/

/-- A text that spells a time is how the time is written, but for a final `:00`. -/
theorem Spells.eq_text {cs : List Char} (h : Spells cs t) :
    cs = t.text.toList ∨ cs = t.text.toList ++ ":00".toList := by
  rw [toList_text]
  unfold parts signedHours
  cases h with
  | @minutes hh mm h m _ hhours hminutes hm ht =>
    have hnonneg : ¬t.seconds < 0 := by omega
    have hhour : t.seconds.natAbs / 3600 = h := by omega
    have hminute : t.seconds.natAbs / 60 % 60 = m := by omega
    have hzero : t.seconds.natAbs % 60 = 0 := by omega
    rw [if_neg hnonneg, hhour, hminute, if_pos hzero, hhours.padded_eq, hminutes.padded_eq]
    exact .inl (by simp [List.intercalate])
  | @seconds hh mm ss h m s _ hhours hminutes hm hseconds hs ht =>
    have hnonneg : ¬t.seconds < 0 := by omega
    have hhour : t.seconds.natAbs / 3600 = h := by omega
    have hminute : t.seconds.natAbs / 60 % 60 = m := by omega
    have hsecond : t.seconds.natAbs % 60 = s := by omega
    rw [if_neg hnonneg, hhour, hminute, hsecond, hhours.padded_eq, hminutes.padded_eq,
      hseconds.padded_eq]
    by_cases hzero : s = 0
    · have hss : ss = "00".toList := by
        rw [hzero] at hseconds
        exact hseconds.padded_eq.symm
      rw [if_pos hzero, hss]
      exact .inr (by simp [List.intercalate])
    · rw [if_neg hzero]
      exact .inl (by simp [List.intercalate])

/-- From midnight to `99:59:59` the text of a time spells it. -/
theorem spells_text (hlower : 0 ≤ t.seconds) (hupper : t.seconds ≤ 359999) :
    Spells t.text.toList t := by
  have hnonneg : ¬t.seconds < 0 := by omega
  have hhours := twoDigits_padded (show t.seconds.natAbs / 3600 < 100 by omega)
  have hminutes := twoDigits_padded (show t.seconds.natAbs / 60 % 60 < 100 by omega)
  have hseconds := twoDigits_padded (show t.seconds.natAbs % 60 < 100 by omega)
  rw [toList_text]
  unfold parts signedHours
  rw [if_neg hnonneg]
  by_cases hzero : t.seconds.natAbs % 60 = 0
  · rw [if_pos hzero]
    simpa [List.intercalate] using Spells.minutes (t := t) hhours hminutes (by omega) (by omega)
  · rw [if_neg hzero]
    simpa [List.intercalate] using
      Spells.seconds (t := t) hhours hminutes (by omega) hseconds (by omega) (by omega)

/-- Reading and writing times: exactly the texts `HH:MM` and `HH:MM:SS` are read, as the time that
they spell. What was read is written as it was, but for a final `:00`; what is written from midnight
to `99:59:59` is read as the same time; and no two times are written alike. -/
theorem texts_of_times :
    (∀ (s : String) (t : Time), parse s = .ok t ↔ Spells s.toList t) ∧
      (∀ (s : String) (t : Time), parse s = .ok t → s = t.text ∨ s = t.text ++ ":00") ∧
      (∀ t : Time, 0 ≤ t.seconds → t.seconds ≤ 359999 → parse t.text = .ok t) ∧
      Function.Injective text := by
  refine ⟨fun s t => parse_eq_ok_iff_spells, ?_, ?_, text_injective⟩
  · intro s t hread
    rcases (parse_eq_ok_iff_spells.1 hread).eq_text with hs | hs
    · exact .inl (String.toList_inj.1 hs)
    · rw [← String.toList_append] at hs
      exact .inr (String.toList_inj.1 hs)
  · intro t hlower hupper
    exact parse_eq_ok_iff_spells.2 (spells_text hlower hupper)

/-- Ten past one in the night after the service day. -/
def lateTime : Time := { seconds := 90600 }

/-- `25:10:00` is read as that time, which is written without its seconds. -/
theorem texts_of_times_late :
    parse "25:10:00" = .ok lateTime ∧
      ("25:10:00" = lateTime.text ∨ "25:10:00" = lateTime.text ++ ":00") ∧
      lateTime.text = "25:10" ∧ 0 ≤ lateTime.seconds ∧ lateTime.seconds ≤ 359999 ∧
      parse lateTime.text = .ok lateTime := by
  have hhours : TwoDigits ['2', '5'] 25 := ⟨'2', '5', rfl, rfl, rfl, rfl⟩
  have hminutes : TwoDigits ['1', '0'] 10 := ⟨'1', '0', rfl, rfl, rfl, rfl⟩
  have hseconds : TwoDigits ['0', '0'] 0 := ⟨'0', '0', rfl, rfl, rfl, rfl⟩
  have hspells : Spells "25:10:00".toList lateTime :=
    Spells.seconds hhours hminutes (by decide) hseconds (by decide) rfl
  obtain ⟨hreads, hback, hwritten, -⟩ := texts_of_times
  have hread := (hreads _ _).2 hspells
  have hlower : 0 ≤ lateTime.seconds := by decide
  have hupper : lateTime.seconds ≤ 359999 := by decide
  exact ⟨hread, hback _ _ hread, rfl, hlower, hupper, hwritten lateTime hlower hupper⟩

end Time

end Journeys
