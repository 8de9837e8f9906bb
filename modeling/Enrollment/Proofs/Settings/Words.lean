import Enrollment.Proofs.Decimal.Integer
import Enrollment.Proofs.Text.Lower
import Enrollment.Settings

/-! # What the texts of settings mean

A setting takes some texts for values, and refuses all others under its own name. How a value has to
be written is said here without regard to how it is read.
-/

namespace Enrollment.Settings

open Decimal (IntegerError WritesNat WritesInt readNat_eq_ok_iff readInt_eq_ok_iff)

/-- A directory is found at a URL for https. -/
structure DirectoryWord (text : String) (url : Url) : Prop where
  parsed : Url.parse text = .ok url
  secure : url.scheme = "https"

/-- A number from one to a limit. -/
structure CountWord (limit : Nat) (text : String) (n : Nat) : Prop where
  writes : WritesNat text.toList n
  pos : 1 ≤ n
  le_limit : n ≤ limit

structure UnitWord (last : Nat) (text : String) (n : Nat) : Prop where
  writes : WritesNat text.toList n
  le_last : n ≤ last

structure DaysWord (text : String) (n : Int) : Prop where
  writes : WritesInt text.toList n
  nonneg : 0 ≤ n
  le_limit : n ≤ 3650

def flagSpellings : Bool → List String
  | true => ["1", "true", "yes", "on"]
  | false => ["0", "false", "no", "off"]

/-- A text that differs from a word by no more than the case of its letters. -/
inductive AnyCase : List Char → List Char → Prop where
  | nil : AnyCase [] []
  | cons {c d : Char} {text word : List Char} (same : c = d ∨ c = d.toUpper)
      (rest : AnyCase text word) : AnyCase (c :: text) (d :: word)

def FlagWord (text : String) (b : Bool) : Prop :=
  ∃ word ∈ flagSpellings b, AnyCase text.toList word.toList

section Understanding

variable {α : Type} {key : String} {meaning other : String → α → Prop} {default : α}
  {understand : Option String → Except SettingError α}

structure Understands (key : String) (meaning : String → α → Prop) (default : α)
    (understand : Option String → Except SettingError α) : Prop where
  none_eq : understand none = .ok default
  some_eq_ok_iff : ∀ text a, understand (some text) = .ok a ↔ meaning text a
  of_error : ∀ text e, understand (some text) = .error e → e.key = key ∧ e.fault ≠ .encoding

theorem Understands.congr (h : Understands key meaning default understand)
    (hMeaning : ∀ text a, meaning text a ↔ other text a) :
    Understands key other default understand where
  none_eq := h.none_eq
  some_eq_ok_iff := fun text a => (h.some_eq_ok_iff text a).trans (hMeaning text a)
  of_error := h.of_error

def number (read : String → Except IntegerError α) (key : String) (default : α) :
    Option String → Except SettingError α
  | none => .ok default
  | some s => (read s).mapError fun e => ⟨key, .number e⟩

def tested (refused : α → Prop) [DecidablePred refused] (key : String) (fault : SettingFault)
    (a : α) : Except SettingError α :=
  if refused a then .error ⟨key, fault⟩ else .ok a

theorem understands_number {read : String → Except IntegerError α}
    (h : ∀ text a, read text = .ok a ↔ meaning text a) (key : String) (default : α) :
    Understands key meaning default (number read key default) := by
  constructor
  · rfl
  · intro text a
    rw [← h, number]
    cases read text with
    | error e => exact ⟨nofun, nofun⟩
    | ok b =>
      constructor <;>
      · rintro ⟨⟩
        rfl
  · intro text e hError
    rw [number] at hError
    cases hRead : read text with
    | error cause =>
      rw [hRead] at hError
      cases hError
      exact ⟨rfl, nofun⟩
    | ok a =>
      rw [hRead] at hError
      cases hError

theorem tested_eq_ok_iff {refused : α → Prop} [DecidablePred refused] {fault : SettingFault}
    {a b : α} : tested refused key fault a = .ok b ↔ a = b ∧ ¬refused b := by
  unfold tested
  split
  · next ha =>
    constructor
    · intro h
      cases h
    · rintro ⟨rfl, hb⟩
      exact absurd ha hb
  · next ha =>
    constructor
    · rintro ⟨⟩
      exact ⟨rfl, ha⟩
    · rintro ⟨rfl, -⟩
      rfl

theorem Understands.tested (h : Understands key meaning default understand) (refused : α → Prop)
    [DecidablePred refused] (fault : SettingFault) (hFault : fault ≠ .encoding)
    (hDefault : ¬refused default) :
    Understands key (fun text a => meaning text a ∧ ¬refused a) default fun text =>
      understand text >>= tested refused key fault := by
  constructor
  · rw [h.none_eq]
    exact tested_eq_ok_iff.mpr ⟨rfl, hDefault⟩
  · intro text a
    rw [← h.some_eq_ok_iff]
    cases understand (some text) with
    | error e => exact ⟨nofun, nofun⟩
    | ok b =>
      rw [Except.ok.injEq]
      exact tested_eq_ok_iff
  · intro text e hError
    cases hText : understand (some text) with
    | error cause =>
      rw [hText] at hError
      cases hError
      exact h.of_error text e hText
    | ok a =>
      rw [hText] at hError
      change Settings.tested refused key fault a = .error e at hError
      unfold Settings.tested at hError
      split at hError
      · cases hError
        exact ⟨rfl, hFault⟩
      · cases hError

end Understanding

theorem understands_natural (limit : Nat) (key : String) (default : Nat) :
    Understands key (fun text n => WritesNat text.toList n ∧ n ≤ limit) default
      (natural limit key · default) :=
  understands_number (fun _ _ => readNat_eq_ok_iff) key default

theorem understands_positive (limit : Nat) (fault : SettingFault) (key : String)
    {default : Nat} (hFault : fault ≠ .encoding) (hDefault : default ≠ 0) :
    Understands key (CountWord limit) default (positive limit fault key · default) := by
  have h := (understands_natural limit key default).tested (· = 0) fault hFault hDefault
  apply h.congr
  intro text n
  constructor
  · rintro ⟨⟨hText, hLimit⟩, hZero⟩
    exact ⟨hText, Nat.pos_of_ne_zero hZero, hLimit⟩
  · rintro ⟨hText, hPos, hLimit⟩
    exact ⟨⟨hText, hLimit⟩, Nat.ne_of_gt hPos⟩

theorem understands_unitOf (key : String) {last default : Nat} (hLast : last ≤ 255)
    (hDefault : default ≤ last) :
    Understands key (UnitWord last) default (unitOf last key · default) := by
  have h := (understands_natural word8 key default).tested (last < ·)
    (.aboveUnits last) nofun (Nat.not_lt.mpr hDefault)
  apply h.congr
  intro text n
  constructor
  · rintro ⟨⟨hText, -⟩, hUnit⟩
    exact ⟨hText, Nat.not_lt.mp hUnit⟩
  · rintro ⟨hText, hUnit⟩
    exact ⟨⟨hText, Nat.le_trans hUnit hLast⟩, Nat.not_lt.mpr hUnit⟩

theorem thresholdDays_eq (key : String) (text : Option String) (default : Int) :
    thresholdDays key text default =
      (number (Decimal.readInt 64) key default text >>= tested (· < 0) key .negative) >>=
        tested ((maxRenewalThresholdDays : Int) < ·) key (.aboveDays maxRenewalThresholdDays) := by
  -- The first test that fails ends the reading, so the second stands within it.
  have hTests (n : Int) : (tested (· < 0) key .negative n >>=
      tested ((maxRenewalThresholdDays : Int) < ·) key (.aboveDays maxRenewalThresholdDays)) =
      if n < 0 then .error ⟨key, .negative⟩
      else tested ((maxRenewalThresholdDays : Int) < ·) key
        (.aboveDays maxRenewalThresholdDays) n := by
    rw [tested]
    split <;> rfl
  cases text with
  | none => exact (hTests default).symm
  | some s =>
    rw [number, thresholdDays]
    cases Decimal.readInt 64 s with
    | error e => rfl
    | ok n => exact (hTests n).symm

theorem understands_thresholdDays (key : String) {default : Int} (hNonneg : 0 ≤ default)
    (hLimit : default ≤ 3650) :
    Understands key DaysWord default (thresholdDays key · default) := by
  have hRead (text : String) (n : Int) : Decimal.readInt 64 text = .ok n ↔
      WritesInt text.toList n ∧ -9223372036854775808 ≤ n ∧ n < 9223372036854775808 :=
    readInt_eq_ok_iff
  have hNonnegative := (understands_number hRead key default).tested (· < 0)
    .negative nofun (Int.not_lt.mpr hNonneg)
  have h := hNonnegative.tested ((maxRenewalThresholdDays : Int) < ·)
    (.aboveDays maxRenewalThresholdDays) nofun (Int.not_lt.mpr hLimit)
  have hEq := funext fun text => thresholdDays_eq key text default
  rw [hEq]
  apply h.congr
  intro text n
  change (((_ ∧ _ ∧ _) ∧ _) ∧ ¬(3650 : Int) < n) ↔ _
  constructor
  · rintro ⟨⟨⟨hText, -, -⟩, hZero⟩, hDays⟩
    exact ⟨hText, Int.not_lt.mp hZero, Int.not_lt.mp hDays⟩
  · rintro ⟨hText, hZero, hDays⟩
    exact ⟨⟨⟨hText, by omega, by omega⟩, Int.not_lt.mpr hZero⟩, Int.not_lt.mpr hDays⟩

/-! Flags -/

theorem anyCase_iff {text word : List Char} (hWord : ∀ d ∈ word, d.toLower = d) :
    AnyCase text word ↔ text.map Char.toLower = word := by
  induction word generalizing text with
  | nil =>
    rw [List.map_eq_nil_iff]
    constructor
    · rintro ⟨⟩
      rfl
    · rintro rfl
      exact .nil
  | cons d word ih =>
    rw [List.forall_mem_cons] at hWord
    rw [List.map_eq_cons_iff]
    constructor
    · rintro (_ | ⟨same, rest⟩)
      exact ⟨_, _, rfl, (Text.toLower_eq_iff_of_toLower hWord.1 _).mpr same, (ih hWord.2).mp rest⟩
    · rintro ⟨c, rest, rfl, hSame, hRest⟩
      exact .cons ((Text.toLower_eq_iff_of_toLower hWord.1 c).mp hSame) ((ih hWord.2).mpr hRest)

theorem lookup_flagWords (word : String) (b : Bool) :
    flagWords.lookup word = some b ↔ word ∈ flagSpellings b := by
  constructor
  · intro h
    obtain ⟨before, after, hWords, -⟩ := List.lookup_eq_some_iff.mp h
    have hMem : (word, b) ∈ flagWords := by
      rw [hWords]
      exact List.mem_append_right before List.mem_cons_self
    revert hMem
    cases b <;> simp [flagWords, flagSpellings]
  · intro h
    cases b <;>
    · simp only [flagSpellings, List.mem_cons, List.not_mem_nil, or_false] at h
      rcases h with rfl | rfl | rfl | rfl <;> rfl

theorem toLower_of_mem_flagSpellings {b : Bool} {word : String} (h : word ∈ flagSpellings b) :
    ∀ d ∈ word.toList, d.toLower = d := by
  have hAll : ∀ b, (flagSpellings b).all fun word => word.toList.all fun d => d.toLower == d := by
    decide
  intro d hd
  exact beq_iff_eq.mp (List.all_eq_true.mp (List.all_eq_true.mp (hAll b) word h) d hd)

theorem flagWord_iff {text : String} {b : Bool} :
    FlagWord text b ↔ flagWords.lookup (Text.lower text) = some b := by
  rw [lookup_flagWords]
  constructor
  · rintro ⟨word, hWord, hText⟩
    rw [anyCase_iff (toLower_of_mem_flagSpellings hWord)] at hText
    rwa [Text.lower, hText, String.ofList_toList]
  · intro h
    refine ⟨_, h, (anyCase_iff (toLower_of_mem_flagSpellings h)).mpr ?_⟩
    rw [Text.lower, String.toList_ofList]

theorem understands_flag (key : String) (default : Bool) :
    Understands key FlagWord default (flag key · default) := by
  constructor
  · rfl
  · intro text b
    rw [flagWord_iff]
    dsimp only [flag]
    cases flagWords.lookup (Text.lower text) with
    | some c => simp
    | none => simp
  · intro text e h
    dsimp only [flag] at h
    split at h
    · cases h
    · cases h
      exact ⟨rfl, nofun⟩

/-! Directories -/

theorem understands_directory (key : String) {default : String} {url : Url}
    (hDefault : DirectoryWord default url) :
    Understands key DirectoryWord url (directory key · default) := by
  constructor
  · dsimp only [directory, Option.getD_none]
    rw [hDefault.parsed]
    exact if_pos hDefault.secure
  · intro text url
    dsimp only [directory, Option.getD_some]
    constructor
    · intro h
      split at h
      · cases h
      · next found hText =>
        split at h
        · next hScheme =>
          cases h
          exact ⟨hText, hScheme⟩
        · cases h
    · rintro ⟨hText, hScheme⟩
      rw [hText]
      exact if_pos hScheme
  · intro text e h
    dsimp only [directory] at h
    split at h
    · cases h
      exact ⟨rfl, nofun⟩
    · split at h
      · cases h
      · cases h
        exact ⟨rfl, nofun⟩

end Enrollment.Settings
