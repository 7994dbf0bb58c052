import Journeys.Format.Settings
import Journeys.Proofs.DecodedRecords
import Journeys.Proofs.LegForm

/-!
# Proofs: numbers of seconds that are no span

A number of seconds in a text fits 64 bits, and spans hold a thousandth of that. So there are
numbers that are read and then turn out to be no span. Where such a number stands in settings, it is
taken as it is, and only the slack that is computed from it is missing. Where it stands in legs,
decoding stops at it (`Overflows`), other than at what is malformed.

The predicates from `OverlongSpan` to `OverlongLegs` say where in legs such a number can stand, with
everything before it in order. Settings are all read before anything becomes of them, so there it
only matters which number is in the field (`OverlongSetting`).
-/

namespace Journeys

/-- A number of seconds that no span has. -/
def Span.Overlong (seconds : Int) : Prop :=
  seconds < -9223372036854775 ∨ 9223372036854775 < seconds

instance (seconds : Int) : Decidable (Span.Overlong seconds) :=
  inferInstanceAs (Decidable (_ ∨ _))

theorem Span.ofSeconds?_eq_none_iff {seconds : Int} :
    ofSeconds? seconds = none ↔ Overlong seconds := by
  rw [ofSeconds?, ofMillis?, ofNanos?, Overlong]
  split
  · rename_i h
    simp only [reduceCtorEq, false_iff]
    omega
  · rename_i h
    simp only [true_iff]
    omega

/-! ## Where a number of seconds can stand -/

namespace Format

open Overflows Decoder

variable {v : Json}

/-- A number that fits 64 bits and is no span. -/
def OverlongSpan (v : Json) : Prop :=
  ∃ n, v = .integer n ∧ (-9223372036854775808 ≤ n ∧ n ≤ 9223372036854775807) ∧ Span.Overlong n

/-- A transfer rule with such a number. -/
def OverlongRule (v : Json) : Prop :=
  ∃ name w others closed, v = .object ((some name, w) :: others) closed ∧
    (name = "MinimumTime" ∨ name = "ExactTime") ∧ OverlongSpan w

/-- The details of a ride are in order up to such a number, which is one of the slacks or stands in
the rule. -/
def OverlongDetails (v : Json) : Prop :=
  ∃ d name w, Reaches DetailsDraft.set {} (fieldsOf ["trip_id", "trip", "board_pos", "alight_pos",
      "board_slack", "alight_slack", "constraint"] v) d name w ∧
    ((name = "board_slack" ∧ d.boardSlack = none ∧ OverlongSpan w) ∨
      (name = "alight_slack" ∧ d.alightSlack = none ∧ OverlongSpan w) ∨
      (name = "constraint" ∧ d.rule = none ∧ OverlongRule w))

/-- A leg is in order up to such a number in the details of its ride. -/
def OverlongLeg (v : Json) : Prop :=
  ∃ d ride others closed, Reaches LegDraft.set {}
      (fieldsOf ["kind", "from", "to", "start", "end", "cost"] v) d "kind"
      (.object ((some "Transit", ride) :: others) closed) ∧
    d.kind = none ∧ OverlongDetails ride

/-- A list of legs is in order up to such a number in one of them. -/
def OverlongLegs (v : Json) : Prop :=
  ∃ before w after closed, v = .array (before ++ w :: after) closed ∧
    (∀ u ∈ before, ∃ leg, Format.leg u = .ok leg) ∧ OverlongLeg w

/-- The fields of settings. -/
def settingsFields (v : Json) : List (JsonText × Json) :=
  fieldsOf ["direction", "include_cost", "relax_cost_at_destination", "timetable",
    "prefer_late_departure", "approximate_trip_search", "time_limit", "board_slack_secs",
    "alight_slack_secs"] v

/-- Settings with such a number in the field of this name. -/
def OverlongSetting (name : String) (v : Json) : Prop :=
  ∃ w, (some name, w) ∈ settingsFields v ∧ OverlongSpan w

theorem int64_eq_ok_iff {n : Int} : int64 v = .ok n ↔
    v = .integer n ∧ -9223372036854775808 ≤ n ∧ n ≤ 9223372036854775807 := by
  constructor
  · intro h
    cases v with
    | integer m =>
      rw [int64, int] at h
      split at h
      · rename_i hbounds
        obtain rfl := Except.ok.inj h
        exact ⟨rfl, hbounds⟩
      · cases h
    | _ => cases h
  · rintro ⟨rfl, hlower, hupper⟩
    exact int64_integer hlower hupper

theorem overlongSpan_iff : OverlongSpan v ↔ ∃ n, int64 v = .ok n ∧ Span.Overlong n := by
  simp only [OverlongSpan, int64_eq_ok_iff, and_assoc]

theorem overflows_span : Overflows (span v) ↔ OverlongSpan v := by
  rw [span, bind_iff, overflows_int64, false_or, overlongSpan_iff]
  refine exists_congr fun n => and_congr_right fun _ => ?_
  rw [← Span.ofSeconds?_eq_none_iff]
  cases Span.ofSeconds? n with
  | some d => simp
  | none => simp [Overflows]

@[simp] theorem overflows_time : Overflows (time v) ↔ False := by
  simp [time, bind_iff]

@[simp] theorem overflows_cost : Overflows (cost v) ↔ False := by simp [cost]

@[simp] theorem overflows_stop : Overflows (stop v) ↔ False := by simp [stop]

@[simp] theorem overflows_patternId : Overflows (patternId v) ↔ False := by simp [patternId]

@[simp] theorem overflows_tripId : Overflows (tripId v) ↔ False := by simp [tripId]

@[simp] theorem overflows_place : Overflows (place v) ↔ False := by
  rw [place, overflows_variant fun name => by split <;> simp]
  simp only [iff_false]
  rintro ⟨name, w, others, closed, -, hread⟩
  split at hread <;> simp at hread

@[simp] theorem overflows_tripSlot : Overflows (tripSlot v) ↔ False := by
  have hset : ∀ d name w, ¬Overflows (TripSlotDraft.set d name w) := by
    intro d name w
    unfold TripSlotDraft.set
    split <;> simp
  simp [tripSlot, bind_iff, not_overflows_record hset]

theorem overflows_rule : Overflows (rule v) ↔ OverlongRule v := by
  rw [rule, overflows_variant fun name => by split <;> simp, OverlongRule]
  refine exists_congr fun name => exists_congr fun w => exists_congr fun others =>
    exists_congr fun closed => and_congr_right fun _ => ?_
  split <;> simp_all [overflows_span]

theorem overflows_setDetails {d : DetailsDraft} {name : String} :
    Overflows (d.set name v) ↔
      (name = "board_slack" ∧ d.boardSlack = none ∧ OverlongSpan v) ∨
      (name = "alight_slack" ∧ d.alightSlack = none ∧ OverlongSpan v) ∨
      (name = "constraint" ∧ d.rule = none ∧ OverlongRule v) := by
  -- a rule may be `null`, which is taken without looking for a number of seconds
  have hnull : OverlongRule v → v ≠ .null := by
    rintro ⟨name, w, others, closed, rfl, -⟩
    exact nofun
  unfold DetailsDraft.set
  split <;> simp_all [overflows_span, overflows_rule]

theorem overflows_details : Overflows (details v) ↔ OverlongDetails v := by
  unfold details OverlongDetails
  rw [bind_iff_left fun d => by simp [bind_iff], overflows_record]
  simp only [overflows_setDetails]

theorem overflows_kind : Overflows (Format.kind v) ↔ ∃ ride others closed,
    v = .object ((some "Transit", ride) :: others) closed ∧ OverlongDetails ride := by
  rw [Format.kind, overflows_variant fun name => by split <;> simp]
  constructor
  · rintro ⟨name, w, others, closed, rfl, hread⟩
    -- only a ride has anything in it that can overflow
    split at hread
    case h_2 => exact ⟨w, others, closed, rfl, by simpa [overflows_details] using hread⟩
    all_goals simp at hread
  · rintro ⟨ride, others, closed, rfl, hride⟩
    exact ⟨"Transit", ride, others, closed, rfl, by simpa [overflows_details] using hride⟩

theorem overflows_setLeg {d : LegDraft} {name : String} :
    Overflows (d.set name v) ↔ name = "kind" ∧ d.kind = none ∧ Overflows (Format.kind v) := by
  unfold LegDraft.set
  split <;> simp_all

theorem overflows_leg : Overflows (Format.leg v) ↔ OverlongLeg v := by
  unfold Format.leg
  rw [bind_iff_left fun d => by simp [bind_iff], overflows_record]
  simp only [overflows_setLeg, overflows_kind]
  constructor
  · rintro ⟨d, name, w, hreaches, rfl, hseen, ride, others, closed, rfl, hride⟩
    exact ⟨d, ride, others, closed, hreaches, hseen, hride⟩
  · rintro ⟨d, ride, others, closed, hreaches, hseen, hride⟩
    exact ⟨d, "kind", _, hreaches, rfl, hseen, ride, others, closed, rfl, hride⟩

theorem overflows_legs : Overflows (legs v) ↔ OverlongLegs v := by
  rw [legs, overflows_list]
  simp only [overflows_leg]
  rfl

@[simp] theorem overflows_direction : Overflows (direction v) ↔ False := by
  rw [direction, overflows_variant fun name => by split <;> simp]
  simp only [iff_false]
  rintro ⟨name, w, others, closed, -, hread⟩
  split at hread <;> simp at hread

/-- Settings hold plain numbers of seconds, which are never made into spans when they are read. -/
theorem not_overflows_settings : ¬Overflows (settings v) := by
  have hset : ∀ d name w, ¬Overflows (SettingsDraft.set d name w) := by
    intro d name w
    unfold SettingsDraft.set
    split <;> simp
  simp [settings, not_overflows_record hset]

theorem slack_of_setSettings {d d' : SettingsDraft} {key : String}
    (h : SettingsDraft.set d key v = .ok d') :
    (key ≠ "board_slack_secs" → d'.boardSlackSeconds = d.boardSlackSeconds) ∧
      (key ≠ "alight_slack_secs" → d'.alightSlackSeconds = d.alightSlackSeconds) := by
  unfold SettingsDraft.set at h
  split at h
  case h_8 =>
    obtain ⟨-, n, -, rfl⟩ := filled_of_once h
    exact ⟨fun hkey => absurd rfl hkey, fun _ => rfl⟩
  case h_9 =>
    obtain ⟨-, n, -, rfl⟩ := filled_of_once h
    exact ⟨fun _ => rfl, fun hkey => absurd rfl hkey⟩
  case h_10 =>
    rw [skip] at h
    split at h
    · rw [Except.ok.inj h]
      exact ⟨fun _ => rfl, fun _ => rfl⟩
    · cases h
  all_goals
    obtain ⟨-, a, -, rfl⟩ := filled_of_once h
    exact ⟨fun _ => rfl, fun _ => rfl⟩

theorem stores_boardSlack :
    Stores SettingsDraft.set "board_slack_secs" int64 SettingsDraft.boardSlackSeconds where
  stored h := by
    obtain ⟨hnone, n, hread, rfl⟩ := filled_of_once h
    exact ⟨hnone, n, hread, rfl⟩
  kept hkey h := (slack_of_setSettings h).1 hkey

theorem stores_alightSlack :
    Stores SettingsDraft.set "alight_slack_secs" int64 SettingsDraft.alightSlackSeconds where
  stored h := by
    obtain ⟨hnone, n, hread, rfl⟩ := filled_of_once h
    exact ⟨hnone, n, hread, rfl⟩
  kept hkey h := (slack_of_setSettings h).2 hkey

/-- The slacks of settings are read from the fields of their names, and are zero without them. -/
theorem overlong_getD_iff {name : String} {get : SettingsDraft → Option Int}
    (hstores : Stores SettingsDraft.set name int64 get) (hempty : get {} = none)
    {d : SettingsDraft} (h : setFields SettingsDraft.set {} (settingsFields v) = .ok d) :
    Span.Overlong ((get d).getD 0) ↔ OverlongSetting name v := by
  have hzero : ¬Span.Overlong 0 := by decide
  have hget : Span.Overlong ((get d).getD 0) ↔ ∃ n, get d = some n ∧ Span.Overlong n := by
    cases get d <;> simp [hzero]
  rw [hget]
  simp only [hstores.get_eq_some_iff h, hempty, OverlongSetting, overlongSpan_iff]
  constructor
  · rintro ⟨n, hread | ⟨w, hfield, hread⟩, hlong⟩
    · cases hread
    · exact ⟨w, hfield, n, hread, hlong⟩
  · rintro ⟨w, hfield, n, hread, hlong⟩
    exact ⟨n, .inr ⟨w, hfield, hread⟩, hlong⟩

end Format

/-! ## Settings and legs from a text -/

namespace SearchSettings

open Decoder Format

theorem checked_eq_ok {s s' : SearchSettings} (h : s.checked = .ok s') : s' = s := by
  obtain ⟨_, -, h⟩ := bind_eq_ok_iff.1 h
  exact (Except.ok.inj h).symm

theorem settings_of_ofText {text : String} {s : SearchSettings} (h : ofText text = .ok s) :
    Format.settings (JsonDocument.ofString text).value = .ok s := by
  rw [ofText] at h
  split at h
  · rename_i read hread
    obtain ⟨a, hvalue, hend⟩ := bind_eq_ok_iff.1 hread
    split at hend
    · rw [hvalue, Except.ok.inj hend, checked_eq_ok h]
    · cases hend
  · cases h

theorem slack?_eq_none_iff {s : SearchSettings} :
    s.slack? = none ↔ s.boardSlack? = none ∨ s.alightSlack? = none := by
  unfold slack?
  cases s.boardSlack? <;> cases s.alightSlack? <;> simp

theorem slack_eq_none_iff_of_settings {v : Json} {s : SearchSettings}
    (h : Format.settings v = .ok s) :
    (s.boardSlack? = none ↔ OverlongSetting "board_slack_secs" v) ∧
      (s.alightSlack? = none ↔ OverlongSetting "alight_slack_secs" v) := by
  obtain ⟨d, hrecord, hs⟩ := bind_eq_ok_iff.1 h
  obtain rfl := Except.ok.inj hs
  have hfields := setFields_of_record hrecord
  exact ⟨Span.ofSeconds?_eq_none_iff.trans (overlong_getD_iff stores_boardSlack rfl hfields),
    Span.ofSeconds?_eq_none_iff.trans (overlong_getD_iff stores_alightSlack rfl hfields)⟩

end SearchSettings

/-- Settings that are taken from a text have no slack exactly if the text gives a number of seconds
for it that is no span, and reading them never comes to a span. Legs from a text overflow exactly if
the text is in order up to such a number in the details of a ride, and are read or malformed
otherwise. -/
theorem text_overflows_iff (text : String) :
    (∀ s, SearchSettings.ofText text = .ok s →
        (s.boardSlack? = none ↔
          Format.OverlongSetting "board_slack_secs" (JsonDocument.ofString text).value) ∧
        (s.alightSlack? = none ↔
          Format.OverlongSetting "alight_slack_secs" (JsonDocument.ofString text).value) ∧
        (s.slack? = none ↔ s.boardSlack? = none ∨ s.alightSlack? = none)) ∧
      ¬Overflows (Decoder.ofText Format.settings text) ∧
      (Overflows (Decoder.ofText Format.legs text) ↔
        Format.OverlongLegs (JsonDocument.ofString text).value) := by
  refine ⟨?_, ?_, ?_⟩
  · intro s hs
    have hread := SearchSettings.settings_of_ofText hs
    obtain ⟨hboard, halight⟩ := SearchSettings.slack_eq_none_iff_of_settings hread
    exact ⟨hboard, halight, SearchSettings.slack?_eq_none_iff⟩
  · rw [Decoder.overflows_ofText]
    exact Format.not_overflows_settings
  · rw [Decoder.overflows_ofText, Format.overflows_legs]

/-- Settings with the largest number of seconds before boarding that fits 64 bits. -/
def endlessSlackText : String := "\x7b\"board_slack_secs\": 9223372036854775807\x7d"

theorem exists_endlessSlack : ∃ s, SearchSettings.ofText endlessSlackText = .ok s ∧
    s.boardSlack? = none ∧ s.alightSlack? ≠ none ∧ s.slack? = none := by
  have hread : (SearchSettings.ofText endlessSlackText).toOption.any (fun s =>
      s.boardSlack?.isNone && s.alightSlack?.isSome && s.slack?.isNone) = true := by
    decide +kernel
  cases hs : SearchSettings.ofText endlessSlackText with
  | error e =>
    rw [hs] at hread
    cases hread
  | ok s =>
    simp only [hs, Except.toOption, Option.any_some, Bool.and_eq_true, Option.isNone_iff_eq_none,
      Option.isSome_iff_ne_none] at hread
    exact ⟨s, rfl, hread.1.1, hread.1.2, hread.2⟩

theorem text_overflows_iff_endlessSlack :
    ∃ s, SearchSettings.ofText endlessSlackText = .ok s ∧ s.slack? = none ∧
      Format.OverlongSetting "board_slack_secs" (JsonDocument.ofString endlessSlackText).value ∧
      ¬Format.OverlongSetting "alight_slack_secs"
        (JsonDocument.ofString endlessSlackText).value := by
  obtain ⟨s, hs, hboard, halight, hslack⟩ := exists_endlessSlack
  obtain ⟨hboardIff, halightIff, -⟩ := (text_overflows_iff endlessSlackText).1 s hs
  exact ⟨s, hs, hslack, hboardIff.1 hboard, fun h => halight (halightIff.2 h)⟩

/-- Settings are taken that have no slack, and a list with one ride, in order but for its slack, is
not refused as malformed. -/
theorem endless_slack_is_let_in :
    (∃ s, SearchSettings.ofText "\x7b\"board_slack_secs\": 9223372036854775807\x7d" = .ok s ∧
      s.boardSlack? = none ∧ s.slack? = none) ∧
    Overflows (Decoder.ofText Format.legs
      ("[[\x7b\"Transit\":[\"T1\",[0,0],0,1,9223372036854775807,0,null]\x7d," ++
        "\x7b\"Stop\":1\x7d,\x7b\"Stop\":3\x7d,36000,37200,null]]")) := by
  obtain ⟨s, hs, hboard, -, hslack⟩ := exists_endlessSlack
  exact ⟨⟨s, hs, hboard, hslack⟩, by decide +kernel⟩

end Journeys
