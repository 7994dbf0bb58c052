import Journeys.Json.Decode
import Journeys.Proofs.Failure

/-!
# Proofs: decoding of records, and where it overflows

Decoding stops in two ways: at what is malformed, and at a number of seconds that is no span. The
lemmas here tell of each decoder when it stops in the second way (`Overflows`).

A text is decoded from front to back, so a list or a record overflows exactly if one of its parts
does and everything before that part was in order. `Decoder.Reaches` tells what came before a field
of a record; of a record that was read, `Decoder.Stores` tells where the value of a field went.
-/

namespace Journeys

/-- Decoding came to a number of seconds that is no span, and stopped there. -/
def Overflows {α : Type} (x : Except DecodeError α) : Prop := x = .error .spanOutOfRange

instance {α : Type} (x : Except DecodeError α) : Decidable (Overflows x) :=
  match x with
  | .ok _ => isFalse nofun
  | .error .malformed => isFalse nofun
  | .error .spanOutOfRange => isTrue rfl

namespace Overflows

variable {α β : Type}

@[simp] theorem ok_iff {a : α} : Overflows (.ok a) ↔ False := by simp [Overflows]

@[simp] theorem pure_iff {a : α} : Overflows (pure a) ↔ False := ok_iff

@[simp] theorem malformed_iff : Overflows (.error .malformed : Except DecodeError α) ↔ False := by
  simp [Overflows]

@[simp] theorem functorMap_iff {x : Except DecodeError α} {f : α → β} :
    Overflows (f <$> x) ↔ Overflows x := map_eq_error_iff

@[simp] theorem map_iff {x : Except DecodeError α} {f : α → β} :
    Overflows (x.map f) ↔ Overflows x := functorMap_iff

theorem bind_iff {x : Except DecodeError α} {f : α → Except DecodeError β} :
    Overflows (x >>= f) ↔ Overflows x ∨ ∃ a, x = .ok a ∧ Overflows (f a) :=
  bind_eq_error_iff

/-- Steps that never overflow can be left out behind another. -/
theorem bind_iff_left {x : Except DecodeError α} {f : α → Except DecodeError β}
    (hf : ∀ a, ¬Overflows (f a)) : Overflows (x >>= f) ↔ Overflows x := by
  simp [bind_iff, hf]

end Overflows

/-! ## Decoders -/

namespace Decoder

open Overflows

variable {α δ : Type} {v : Json}

@[simp] theorem overflows_ofOption {x : Option α} : Overflows (ofOption x) ↔ False := by
  cases x <;> simp [ofOption]

@[simp] theorem overflows_int {least greatest : Int} :
    Overflows (int least greatest v) ↔ False := by
  unfold int
  split
  · split <;> simp
  · simp

@[simp] theorem overflows_int64 : Overflows (int64 v) ↔ False := overflows_int

@[simp] theorem overflows_nat64 : Overflows (nat64 v) ↔ False := by simp [nat64]

@[simp] theorem overflows_nat32 : Overflows (nat32 v) ↔ False := by simp [nat32]

@[simp] theorem overflows_float : Overflows (float v) ↔ False := by
  unfold float
  split <;> simp

@[simp] theorem overflows_bool : Overflows (bool v) ↔ False := by
  unfold bool
  split <;> simp

@[simp] theorem overflows_string : Overflows (string v) ↔ False := by
  unfold string
  split <;> simp

@[simp] theorem overflows_skip {draft : δ} : Overflows (skip draft v) ↔ False := by
  unfold skip
  split <;> simp

@[simp] theorem overflows_unit {a : α} {payload : Option Json} :
    Overflows (unit a payload) ↔ False := by
  unfold unit
  split <;> simp

@[simp] theorem overflows_payload_none {decode : Decoder α} :
    Overflows (payload decode none) ↔ False := by
  simp [payload]

@[simp] theorem overflows_payload_some {decode : Decoder α} :
    Overflows (payload decode (some v)) ↔ Overflows (decode v) := Iff.rfl

@[simp] theorem overflows_optional {decode : Decoder α} :
    Overflows (optional decode v) ↔ v ≠ .null ∧ Overflows (decode v) := by
  unfold optional
  split
  · simp
  · rename_i hnull
    simpa using fun _ => hnull

@[simp] theorem overflows_once {seen : Option α} {decode : Decoder α} :
    Overflows (once seen decode v) ↔ seen = none ∧ Overflows (decode v) := by
  cases seen <;> simp [once]

theorem overflows_variant {read : String → Option Json → Except DecodeError α}
    (hnone : ∀ name, ¬Overflows (read name none)) :
    Overflows (variant read v) ↔ ∃ name w others closed,
      v = .object ((some name, w) :: others) closed ∧ Overflows (read name (some w)) := by
  unfold variant
  split
  · simp [bind_iff, hnone]
  · rename_i key w others closed
    cases key with
    | none => simp [ofOption, bind_iff]
    | some name =>
      rw [ofOption, ok_bind, bind_iff_left fun a => by split <;> simp]
      constructor
      · exact fun h => ⟨name, w, others, closed, rfl, h⟩
      · rintro ⟨name', w', others', closed', heq, h⟩
        simp only [Json.object.injEq, List.cons.injEq, Prod.mk.injEq, Option.some.injEq] at heq
        obtain ⟨⟨⟨rfl, rfl⟩, -⟩, -⟩ := heq
        exact h
  · rename_i hobject
    simp only [malformed_iff, false_iff]
    rintro ⟨name, w, others, closed, rfl, -⟩
    exact hobject _ _ _ _ rfl

theorem overflows_mapM {decode : Decoder α} {items : List Json} :
    Overflows (items.mapM decode) ↔ ∃ before w after, items = before ++ w :: after ∧
      (∀ u ∈ before, ∃ a, decode u = .ok a) ∧ Overflows (decode w) := by
  induction items with
  | nil => simp [Overflows, pure, Except.pure]
  | cons u items ih =>
    rw [List.mapM_cons, bind_iff]
    constructor
    · rintro (hu | ⟨a, hu, hrest⟩)
      · exact ⟨[], u, items, rfl, nofun, hu⟩
      · rw [bind_iff_left fun _ => by simp] at hrest
        obtain ⟨before, w, after, rfl, hbefore, hw⟩ := ih.1 hrest
        exact ⟨u :: before, w, after, rfl, List.forall_mem_cons.2 ⟨⟨a, hu⟩, hbefore⟩, hw⟩
    · rintro ⟨before, w, after, hitems, hbefore, hw⟩
      cases before with
      | nil =>
        obtain ⟨rfl, -⟩ := List.cons.inj hitems
        exact .inl hw
      | cons first before =>
        obtain ⟨rfl, hrest⟩ := List.cons.inj hitems
        obtain ⟨⟨a, hu⟩, hbefore⟩ := List.forall_mem_cons.1 hbefore
        refine .inr ⟨a, hu, ?_⟩
        rw [bind_iff_left fun _ => by simp]
        exact ih.2 ⟨before, w, after, hrest, hbefore, hw⟩

/-- A list overflows at an item if the items before it are in order. -/
theorem overflows_list {decode : Decoder α} :
    Overflows (list decode v) ↔ ∃ before w after closed, v = .array (before ++ w :: after) closed ∧
      (∀ u ∈ before, ∃ a, decode u = .ok a) ∧ Overflows (decode w) := by
  unfold list
  split
  · rename_i items closed
    rw [bind_iff_left fun _ => by split <;> simp, overflows_mapM]
    constructor
    · rintro ⟨before, w, after, rfl, h⟩
      exact ⟨before, w, after, closed, rfl, h⟩
    · rintro ⟨before, w, after, closed', heq, h⟩
      obtain ⟨rfl, -⟩ := Json.array.inj heq
      exact ⟨before, w, after, rfl, h⟩
  · rename_i harray
    simp only [malformed_iff, false_iff]
    rintro ⟨before, w, after, closed, rfl, -⟩
    exact harray _ _ rfl

/-! ## Records -/

/-- Filling a record comes to a field of this name and value: those before it were taken, and have
filled the draft so far. -/
inductive Reaches (set : FieldSetter δ) :
    δ → List (JsonText × Json) → δ → String → Json → Prop
  /-- The field is the first one. -/
  | here {draft : δ} {name : String} {w : Json} {rest : List (JsonText × Json)} :
      Reaches set draft ((some name, w) :: rest) draft name w
  /-- The field comes behind one that was taken. -/
  | behind {draft draft' filled : δ} {key name : String} {u w : Json}
      {rest : List (JsonText × Json)} (htaken : set draft key u = .ok draft')
      (hrest : Reaches set draft' rest filled name w) :
      Reaches set draft ((some key, u) :: rest) filled name w

/-- The fields of a record. Those of an array have their names in order, as far as they go. -/
def fieldsOf (names : List String) : Json → List (JsonText × Json)
  | .object fields _ => fields
  | .array items _ => (names.map some).zip items
  | _ => []

variable {set : FieldSetter δ} {draft : δ}

theorem exists_reaches_cons {key : String} {u : Json} {rest : List (JsonText × Json)}
    {P : δ → String → Json → Prop} :
    (∃ filled name w, Reaches set draft ((some key, u) :: rest) filled name w ∧ P filled name w) ↔
      P draft key u ∨ ∃ draft', set draft key u = .ok draft' ∧
        ∃ filled name w, Reaches set draft' rest filled name w ∧ P filled name w := by
  constructor
  · rintro ⟨filled, name, w, hreaches, hP⟩
    cases hreaches with
    | here => exact .inl hP
    | behind htaken hrest => exact .inr ⟨_, htaken, filled, name, w, hrest, hP⟩
  · rintro (hP | ⟨draft', htaken, filled, name, w, hrest, hP⟩)
    · exact ⟨draft, key, u, .here, hP⟩
    · exact ⟨filled, name, w, .behind htaken hrest, hP⟩

theorem overflows_setFields {fields : List (JsonText × Json)} :
    Overflows (setFields set draft fields) ↔ ∃ filled name w,
      Reaches set draft fields filled name w ∧ Overflows (set filled name w) := by
  induction fields generalizing draft with
  | nil =>
    simp only [setFields, ok_iff, false_iff]
    rintro ⟨filled, name, w, hreaches, -⟩
    cases hreaches
  | cons field fields ih =>
    obtain ⟨key, u⟩ := field
    cases key with
    | none =>
      simp only [setFields, malformed_iff, false_iff]
      rintro ⟨filled, name, w, hreaches, -⟩
      cases hreaches
    | some key =>
      rw [setFields, bind_iff, exists_reaches_cons]
      simp only [ih]

/-- Only the items that have a name are looked at before an array turns out too long. -/
theorem overflows_setItems {names : List String} {items : List Json} :
    Overflows (setItems set draft names items) ↔
      Overflows (setFields set draft ((names.map some).zip items)) := by
  induction items generalizing draft names with
  | nil => simp [setItems, setFields]
  | cons u items ih =>
    cases names with
    | nil => simp [setItems, setFields]
    | cons key names =>
      simp only [setItems, List.map_cons, List.zip_cons_cons, setFields, bind_iff, ih]

theorem setFields_of_setItems {names missing : List String} {items : List Json} {filled : δ}
    (h : setItems set draft names items = .ok (filled, missing)) :
    setFields set draft ((names.map some).zip items) = .ok filled := by
  induction items generalizing draft names with
  | nil =>
    rw [setItems] at h
    rw [List.zip_nil_right, setFields]
    exact congrArg (Except.map Prod.fst) h
  | cons u items ih =>
    cases names with
    | nil => cases h
    | cons key names =>
      obtain ⟨draft', htaken, hrest⟩ := bind_eq_ok_iff.1 h
      exact bind_eq_ok_iff.2 ⟨draft', htaken, ih hrest⟩

/-- A record overflows at a field if filling it comes to the field and overflows there. -/
theorem overflows_record {names : List String} {mayStop : Bool} :
    Overflows (record names mayStop draft set v) ↔ ∃ filled name w,
      Reaches set draft (fieldsOf names v) filled name w ∧ Overflows (set filled name w) := by
  rw [← overflows_setFields]
  unfold record
  split
  · rw [bind_iff_left fun _ => by split <;> simp]
    rfl
  · rw [bind_iff_left fun ⟨_, _⟩ => by dsimp only; split <;> simp, overflows_setItems]
    rfl
  · rename_i hobject harray
    have hnone : fieldsOf names v = [] := by
      unfold fieldsOf
      split
      · exact absurd rfl (hobject _ _)
      · exact absurd rfl (harray _ _)
      · rfl
    simp [hnone, setFields]

/-- What a record was filled with are its fields. -/
theorem setFields_of_record {names : List String} {mayStop : Bool} {filled : δ}
    (h : record names mayStop draft set v = .ok filled) :
    setFields set draft (fieldsOf names v) = .ok filled := by
  unfold record at h
  split at h
  · obtain ⟨filled', hfill, hclosed⟩ := bind_eq_ok_iff.1 h
    split at hclosed
    · rwa [← Except.ok.inj hclosed]
    · cases hclosed
  · obtain ⟨⟨filled', missing⟩, hfill, hclosed⟩ := bind_eq_ok_iff.1 h
    dsimp only at hclosed
    split at hclosed
    · rw [← Except.ok.inj hclosed]
      exact setFields_of_setItems hfill
    · cases hclosed
  · cases h

theorem once_eq_ok_iff {seen x : Option α} {decode : Decoder α} :
    once seen decode v = .ok x ↔ seen = none ∧ ∃ a, decode v = .ok a ∧ x = some a := by
  rw [once]
  cases seen with
  | none => cases decode v <;> simp [Except.map, eq_comm]
  | some _ => simp

theorem filled_of_once {seen : Option α} {decode : Decoder α} {fill : Option α → δ} {filled : δ}
    (h : (once seen decode v >>= fun x => pure (fill x)) = .ok filled) :
    seen = none ∧ ∃ a, decode v = .ok a ∧ filled = fill (some a) := by
  obtain ⟨x, honce, hfill⟩ := bind_eq_ok_iff.1 h
  obtain ⟨hnone, a, hread, rfl⟩ := once_eq_ok_iff.1 honce
  exact ⟨hnone, a, hread, (Except.ok.inj hfill).symm⟩

/-- The setter reads fields of this name, each no more than once, to where `get` finds them. -/
structure Stores (set : FieldSetter δ) (name : String) (decode : Decoder α)
    (get : δ → Option α) : Prop where
  /-- A field of the name is the first one, and its value is found. -/
  stored {draft draft' : δ} {v : Json} (h : set draft name v = .ok draft') :
    get draft = none ∧ ∃ a, decode v = .ok a ∧ get draft' = some a
  /-- Other fields make no difference. -/
  kept {draft draft' : δ} {key : String} {v : Json} (hkey : key ≠ name)
    (h : set draft key v = .ok draft') : get draft' = get draft

theorem Stores.get_eq_some_iff {name : String} {decode : Decoder α} {get : δ → Option α}
    (hstores : Stores set name decode get) {fields : List (JsonText × Json)} {filled : δ} {a : α}
    (h : setFields set draft fields = .ok filled) :
    get filled = some a ↔ get draft = some a ∨ ∃ w, (some name, w) ∈ fields ∧ decode w = .ok a := by
  induction fields generalizing draft with
  | nil =>
    obtain rfl := Except.ok.inj h
    simp
  | cons field fields ih =>
    obtain ⟨key, u⟩ := field
    cases key with
    | none => cases h
    | some key =>
      obtain ⟨draft', htaken, hrest⟩ := bind_eq_ok_iff.1 h
      rw [ih hrest]
      by_cases hkey : key = name
      · -- the field is new, so its value is what is found
        subst hkey
        obtain ⟨hnone, b, hread, hb⟩ := hstores.stored htaken
        simp [hnone, hb, hread, or_and_right, exists_or]
      · have hother : name ≠ key := Ne.symm hkey
        simp [hstores.kept hkey htaken, hother]

theorem not_overflows_record {names : List String} {mayStop : Bool}
    (h : ∀ draft name w, ¬Overflows (set draft name w)) :
    ¬Overflows (record names mayStop draft set v) := by
  rw [overflows_record]
  rintro ⟨filled, name, w, -, hset⟩
  exact h filled name w hset

theorem overflows_ofText {decode : Decoder α} {text : String} :
    Overflows (ofText decode text) ↔ Overflows (decode (JsonDocument.ofString text).value) :=
  bind_iff_left fun _ => by split <;> simp

end Decoder

end Journeys
