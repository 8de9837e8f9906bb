import Enrollment.Proofs.Calendar.Range
import Enrollment.Proofs.Procedure.Completion
import Enrollment.Proofs.Sorted
import Enrollment.Renewal.Scan

/-! # What a scan selects

A scan selects the certificates that expire by the end of its window, each as often as the inventory
has it, in the order of their ends and among equal ends in the order of the inventory. That leaves
one answer, and the answer for a shorter window is the start of the one for a longer window.
-/

namespace Enrollment

def RenewalCandidate.expiry (candidate : RenewalCandidate) : Int :=
  candidate.certificate.expires.nanos

def ManagedCertificate.candidate (now : Calendar.Instant) (certificate : ManagedCertificate) :
    RenewalCandidate :=
  ⟨certificate, ⟨certificate.expires.nanos - now.nanos⟩⟩

namespace Renewal

open Calendar (Instant Span HasDate)
open Procedure (Runs)

/-- What is selected from an inventory by a window that ends at a number of nanoseconds. -/
structure Selected (now : Instant) (last : Int) (inventory : List ManagedCertificate)
    (result : List RenewalCandidate) : Prop where
  count_eq : ∀ certificate, (result.map (·.certificate)).count certificate =
    if certificate.expires.nanos ≤ last then inventory.count certificate else 0
  sorted : result.Pairwise fun a b => a.certificate.expires.nanos ≤ b.certificate.expires.nanos
  ties : ∀ nanos ≤ last, (result.map (·.certificate)).filter (fun c => c.expires.nanos = nanos) =
    inventory.filter fun c => c.expires.nanos = nanos
  left_eq : ∀ candidate ∈ result,
    candidate.left.nanos = candidate.certificate.expires.nanos - now.nanos

/-- Whether the end of a window has a date on the clock that shows its start. -/
def EndsInCalendar (threshold : Span) (now : Instant) : Prop :=
  HasDate (((now.nanos + threshold.nanos) / 1000000000 + now.offset) / 86400)

variable {now : Instant} {last : Int} {inventory : List ManagedCertificate}
  {result other : List RenewalCandidate}

theorem candidates_eq (t : Instant) : candidates now t inventory =
    ((inventory.filter fun c => c.expires.nanos ≤ t.nanos).map
      (ManagedCertificate.candidate now)).mergeSort (byKey RenewalCandidate.expiry) := rfl

theorem map_certificate (now : Instant) (certificates : List ManagedCertificate) :
    (certificates.map (ManagedCertificate.candidate now)).map (·.certificate) = certificates := by
  rw [List.map_map]
  exact List.map_id certificates

theorem perm_candidates (t : Instant) : ((candidates now t inventory).map (·.certificate)).Perm
    (inventory.filter fun c => c.expires.nanos ≤ t.nanos) := by
  have hPerm := (List.mergeSort_perm ((inventory.filter fun c => c.expires.nanos ≤ t.nanos).map
    (ManagedCertificate.candidate now)) (byKey RenewalCandidate.expiry)).map (·.certificate)
  rwa [map_certificate, ← candidates_eq] at hPerm

theorem filter_expiry_eq (nanos : Int) (candidates : List RenewalCandidate) :
    (candidates.filter fun c => c.expiry = nanos).map (·.certificate) =
      (candidates.map (·.certificate)).filter fun c => c.expires.nanos = nanos := by
  rw [List.filter_map]
  rfl

theorem filter_expiry_le (last : Int) (candidates : List RenewalCandidate) :
    (candidates.filter fun c => c.expiry ≤ last).map (·.certificate) =
      (candidates.map (·.certificate)).filter fun c => c.expires.nanos ≤ last := by
  rw [List.filter_map]
  rfl

theorem selected_candidates (t : Instant) :
    Selected now t.nanos inventory (candidates now t inventory) where
  count_eq := by
    intro certificate
    rw [(perm_candidates t).count_eq]
    exact count_filter_le (fun c : ManagedCertificate => c.expires.nanos) t.nanos certificate
  sorted := by
    rw [candidates_eq]
    exact pairwise_mergeSort_byKey RenewalCandidate.expiry _
  ties := by
    intro nanos hDue
    rw [← filter_expiry_eq, candidates_eq, filter_key_mergeSort, filter_expiry_eq, map_certificate]
    exact filter_key_filter_le (fun c : ManagedCertificate => c.expires.nanos) hDue
  left_eq := by
    intro candidate hMem
    rw [candidates_eq, List.mem_mergeSort, List.mem_map] at hMem
    obtain ⟨certificate, -, rfl⟩ := hMem
    rfl

namespace Selected

theorem expiry_le (h : Selected now last inventory result) :
    ∀ candidate ∈ result, candidate.expiry ≤ last := by
  intro candidate hMem
  refine Int.not_lt.mp fun hLate => ?_
  have hCount := h.count_eq candidate.certificate
  rw [RenewalCandidate.expiry] at hLate
  rw [if_neg (Int.not_le.mpr hLate), List.count_eq_zero] at hCount
  exact hCount (List.mem_map_of_mem hMem)

theorem filter_late (h : Selected now last inventory result) {nanos : Int} (hLate : last < nanos) :
    (result.map (·.certificate)).filter (fun c => c.expires.nanos = nanos) = [] := by
  refine List.filter_eq_nil_iff.mpr fun certificate hMem => ?_
  obtain ⟨candidate, hCandidate, rfl⟩ := List.mem_map.mp hMem
  have hDue := h.expiry_le candidate hCandidate
  rw [RenewalCandidate.expiry] at hDue
  rw [decide_eq_true_eq]
  omega

/-- The candidates are told by their certificates. -/
theorem eq_map (h : Selected now last inventory result) :
    result = (result.map (·.certificate)).map (ManagedCertificate.candidate now) := by
  rw [List.map_map]
  refine (List.map_id result).symm.trans (List.map_congr_left fun candidate hMem => ?_)
  have hLeft := h.left_eq candidate hMem
  obtain ⟨certificate, ⟨nanos⟩⟩ := candidate
  simp only [Function.comp_apply, ManagedCertificate.candidate, ← hLeft]
  rfl

/-- What is selected is determined. -/
theorem unique (h : Selected now last inventory result)
    (hOther : Selected now last inventory other) : result = other := by
  have hCertificates : result.map (·.certificate) = other.map (·.certificate) := by
    refine eq_of_filter_key_eq (fun c : ManagedCertificate => c.expires.nanos)
      (List.pairwise_map.mpr h.sorted) (List.pairwise_map.mpr hOther.sorted) fun nanos => ?_
    by_cases hDue : nanos ≤ last
    · rw [h.ties nanos hDue, hOther.ties nanos hDue]
    · rw [h.filter_late (Int.not_le.mp hDue), hOther.filter_late (Int.not_le.mp hDue)]
  rw [h.eq_map, hOther.eq_map, hCertificates]

/-- A shorter window selects what is due in it of what a longer one selects. -/
theorem restrict (h : Selected now last inventory result) {shorter : Int} (hLast : shorter ≤ last) :
    Selected now shorter inventory (result.filter fun c => c.expiry ≤ shorter) where
  count_eq := by
    intro certificate
    rw [filter_expiry_le]
    refine (count_filter_le (fun c : ManagedCertificate => c.expires.nanos) shorter
      certificate).trans ?_
    split
    · next hDue => rw [h.count_eq, if_pos (Int.le_trans hDue hLast)]
    · rfl
  sorted := h.sorted.filter _
  ties := by
    intro nanos hDue
    rw [filter_expiry_le]
    exact (filter_key_filter_le (fun c : ManagedCertificate => c.expires.nanos) hDue).trans
      (h.ties nanos (Int.le_trans hDue hLast))
  left_eq := fun candidate hMem => h.left_eq candidate (List.mem_filter.mp hMem).1

theorem prefix_of_le (h : Selected now last inventory result) {shorter : Int}
    (hOther : Selected now shorter inventory other) (hLast : shorter ≤ last) : other <+: result := by
  rw [hOther.unique (h.restrict hLast)]
  exact filter_key_prefix RenewalCandidate.expiry h.sorted shorter

end Selected

section

variable {threshold : Span} {Call : Type} {Answer : Call → Type}
  {load : Procedure Call Answer (Except String (List ManagedCertificate))}
  {trace : List (Turn Answer)} {found : Except RenewalScanError (List RenewalCandidate)}

theorem isNegative_iff : threshold.isNegative = true ↔ threshold.nanos < 0 := by
  rw [Span.isNegative, decide_eq_true_eq]

theorem inRange_iff_endsInCalendar :
    (⟨now.nanos + threshold.nanos, now.offset⟩ : Instant).inRange = true ↔
      EndsInCalendar threshold now :=
  Instant.inRange_iff ⟨now.nanos + threshold.nanos, now.offset⟩

theorem addSpan?_eq_some (h : EndsInCalendar threshold now) :
    now.addSpan? threshold = some ⟨now.nanos + threshold.nanos, now.offset⟩ :=
  if_pos (inRange_iff_endsInCalendar.mpr h)

theorem addSpan?_eq_none (h : ¬EndsInCalendar threshold now) : now.addSpan? threshold = none :=
  if_neg (mt inRange_iff_endsInCalendar.mp h)

/-- What becomes of the end of a window. -/
theorem windowEnd_cases (threshold : Span) (now : Instant) :
    (threshold.nanos < 0 ∧ windowEnd threshold now = .error .negativeThreshold) ∨
      (0 ≤ threshold.nanos ∧ ¬EndsInCalendar threshold now ∧
        windowEnd threshold now = .error .thresholdRange) ∨
      (0 ≤ threshold.nanos ∧ EndsInCalendar threshold now ∧
        windowEnd threshold now = .ok ⟨now.nanos + threshold.nanos, now.offset⟩) := by
  unfold windowEnd
  by_cases hNegative : threshold.nanos < 0
  · exact .inl ⟨hNegative, if_pos (isNegative_iff.mpr hNegative)⟩
  · rw [if_neg (mt isNegative_iff.mp hNegative)]
    by_cases hEnd : EndsInCalendar threshold now
    · rw [addSpan?_eq_some hEnd]
      exact .inr (.inr ⟨Int.not_lt.mp hNegative, hEnd, rfl⟩)
    · rw [addSpan?_eq_none hEnd]
      exact .inr (.inl ⟨Int.not_lt.mp hNegative, hEnd, rfl⟩)

theorem scan_of_error {e : RenewalScanError} (h : windowEnd threshold now = .error e)
    (loaded : Except String (List ManagedCertificate)) : scan threshold now loaded = .error e := by
  simp [scan, scanWith, h]

theorem scan_of_ok {t : Instant} (h : windowEnd threshold now = .ok t)
    (loaded : Except String (List ManagedCertificate)) : scan threshold now loaded =
      match loaded with
      | .error cause => .error (.inventory cause)
      | .ok inventory => .ok (candidates now t inventory) := by
  cases loaded <;> simp [scan, scanWith, h]

theorem scan_eq_ok_iff : scan threshold now (.ok inventory) = .ok result ↔
    0 ≤ threshold.nanos ∧ EndsInCalendar threshold now ∧
      Selected now (now.nanos + threshold.nanos) inventory result := by
  rcases windowEnd_cases threshold now with
    ⟨hNegative, h⟩ | ⟨hPositive, hEnd, h⟩ | ⟨hPositive, hEnd, h⟩
  · rw [scan_of_error h]
    exact iff_of_false nofun fun hSound => by omega
  · rw [scan_of_error h]
    exact iff_of_false nofun fun hSound => hEnd hSound.2.1
  · rw [scan_of_ok h]
    have hSelected : Selected now (now.nanos + threshold.nanos) inventory
        (candidates now ⟨now.nanos + threshold.nanos, now.offset⟩ inventory) :=
      selected_candidates ⟨now.nanos + threshold.nanos, now.offset⟩
    constructor
    · intro hResult
      cases hResult
      exact ⟨hPositive, hEnd, hSelected⟩
    · rintro ⟨-, -, hOther⟩
      exact congrArg Except.ok (hSelected.unique hOther)

theorem scan_eq_error_iff {loaded : Except String (List ManagedCertificate)}
    {e : RenewalScanError} : scan threshold now loaded = .error e ↔
      (threshold.nanos < 0 ∧ e = .negativeThreshold) ∨
      (0 ≤ threshold.nanos ∧ ¬EndsInCalendar threshold now ∧ e = .thresholdRange) ∨
      (0 ≤ threshold.nanos ∧ EndsInCalendar threshold now ∧
        ∃ cause, loaded = .error cause ∧ e = .inventory cause) := by
  rcases windowEnd_cases threshold now with
    ⟨hNegative, h⟩ | ⟨hPositive, hEnd, h⟩ | ⟨hPositive, hEnd, h⟩
  · rw [scan_of_error h]
    constructor
    · intro hError
      cases hError
      exact .inl ⟨hNegative, rfl⟩
    · rintro (⟨-, rfl⟩ | ⟨hPositive, -⟩ | ⟨hPositive, -⟩)
      · rfl
      · omega
      · omega
  · rw [scan_of_error h]
    constructor
    · intro hError
      cases hError
      exact .inr (.inl ⟨hPositive, hEnd, rfl⟩)
    · rintro (⟨hNegative, -⟩ | ⟨-, -, rfl⟩ | ⟨-, hOther, -⟩)
      · omega
      · rfl
      · exact absurd hOther hEnd
  · rw [scan_of_ok h]
    constructor
    · intro hError
      cases loaded with
      | error cause =>
        cases hError
        exact .inr (.inr ⟨hPositive, hEnd, cause, rfl, rfl⟩)
      | ok inventory => cases hError
    · rintro (⟨hNegative, -⟩ | ⟨-, hOther, -⟩ | ⟨-, -, cause, rfl, rfl⟩)
      · omega
      · exact absurd hEnd hOther
      · rfl

theorem runs_scanWith_of_error {e : RenewalScanError} (h : windowEnd threshold now = .error e) :
    Runs (scanWith load threshold now) trace found ↔
      trace = [] ∧ ∀ loaded, found = scan threshold now loaded := by
  simp only [scan_of_error h, forall_const]
  rw [scanWith, h]
  exact Procedure.runs_done_iff

theorem runs_scanWith_of_ok {t : Instant} (h : windowEnd threshold now = .ok t) :
    Runs (scanWith load threshold now) trace found ↔
      ∃ loaded, Runs load trace loaded ∧ found = scan threshold now loaded := by
  rw [scanWith, h]
  refine Procedure.runs_bind_iff.trans ?_
  constructor
  · rintro ⟨before, loaded, after, rfl, hLoad, hRest⟩
    have hDone : after = [] ∧ found = scan threshold now loaded := by
      rw [scan_of_ok h]
      cases loaded with
      | error cause => exact Procedure.runs_done_iff.mp hRest
      | ok inventory => exact Procedure.runs_done_iff.mp hRest
    obtain ⟨rfl, rfl⟩ := hDone
    exact ⟨loaded, by rwa [List.append_nil], rfl⟩
  · rintro ⟨loaded, hLoad, rfl⟩
    refine ⟨trace, loaded, [], (List.append_nil trace).symm, hLoad, ?_⟩
    rw [scan_of_ok h]
    cases loaded with
    | error cause => exact .here _
    | ok inventory => exact .here _

/-- The inventory is read when the window has been found sound, and not otherwise. -/
theorem runs_scanWith_iff : Runs (scanWith load threshold now) trace found ↔
    (0 ≤ threshold.nanos ∧ EndsInCalendar threshold now ∧
      ∃ loaded, Runs load trace loaded ∧ found = scan threshold now loaded) ∨
    (¬(0 ≤ threshold.nanos ∧ EndsInCalendar threshold now) ∧ trace = [] ∧
      ∀ loaded, found = scan threshold now loaded) := by
  rcases windowEnd_cases threshold now with
    ⟨hNegative, h⟩ | ⟨hPositive, hEnd, h⟩ | ⟨hPositive, hEnd, h⟩
  · have hUnsound : ¬(0 ≤ threshold.nanos ∧ EndsInCalendar threshold now) := fun hSound => by omega
    rw [runs_scanWith_of_error h]
    constructor
    · exact fun hFound => .inr ⟨hUnsound, hFound⟩
    · rintro (⟨hPositive, -⟩ | ⟨-, hFound⟩)
      · omega
      · exact hFound
  · have hUnsound : ¬(0 ≤ threshold.nanos ∧ EndsInCalendar threshold now) :=
      fun hSound => hEnd hSound.2
    rw [runs_scanWith_of_error h]
    constructor
    · exact fun hFound => .inr ⟨hUnsound, hFound⟩
    · rintro (⟨-, hOther, -⟩ | ⟨-, hFound⟩)
      · exact absurd hOther hEnd
      · exact hFound
  · rw [runs_scanWith_of_ok h]
    constructor
    · exact fun hFound => .inl ⟨hPositive, hEnd, hFound⟩
    · rintro (⟨-, -, hFound⟩ | ⟨hUnsound, -⟩)
      · exact hFound
      · exact absurd ⟨hPositive, hEnd⟩ hUnsound

end

/-- What a scan answers, and when it reads the inventory. -/
theorem scan_selects (threshold : Span) (now : Instant) :
    (∀ inventory, 0 ≤ threshold.nanos → EndsInCalendar threshold now →
      ∃ result, scan threshold now (.ok inventory) = .ok result ∧
        Selected now (now.nanos + threshold.nanos) inventory result ∧
        ∀ other, Selected now (now.nanos + threshold.nanos) inventory other → other = result) ∧
      (∀ wider inventory narrow wide, threshold.nanos ≤ wider.nanos →
        scan threshold now (.ok inventory) = .ok narrow →
        scan wider now (.ok inventory) = .ok wide → narrow <+: wide) ∧
      (∀ loaded, scan threshold now loaded = .error .negativeThreshold ↔ threshold.nanos < 0) ∧
      (∀ loaded, scan threshold now loaded = .error .thresholdRange ↔
        0 ≤ threshold.nanos ∧ ¬EndsInCalendar threshold now) ∧
      (∀ loaded cause, scan threshold now loaded = .error (.inventory cause) ↔
        0 ≤ threshold.nanos ∧ EndsInCalendar threshold now ∧ loaded = .error cause) ∧
      ∀ {Call : Type} {Answer : Call → Type}
        (load : Procedure Call Answer (Except String (List ManagedCertificate))) trace found,
        Runs (scanWith load threshold now) trace found ↔
          (0 ≤ threshold.nanos ∧ EndsInCalendar threshold now ∧
            ∃ loaded, Runs load trace loaded ∧ found = scan threshold now loaded) ∨
          (¬(0 ≤ threshold.nanos ∧ EndsInCalendar threshold now) ∧ trace = [] ∧
            ∀ loaded, found = scan threshold now loaded) := by
  refine ⟨?_, ?_, ?_, ?_, ?_, ?_⟩
  · intro inventory hPositive hEnd
    have hSelected : Selected now (now.nanos + threshold.nanos) inventory
        (candidates now ⟨now.nanos + threshold.nanos, now.offset⟩ inventory) :=
      selected_candidates ⟨now.nanos + threshold.nanos, now.offset⟩
    exact ⟨_, scan_eq_ok_iff.mpr ⟨hPositive, hEnd, hSelected⟩, hSelected,
      fun other hOther => hOther.unique hSelected⟩
  · intro wider inventory narrow wide hWider hNarrow hWide
    obtain ⟨-, -, hNarrow⟩ := scan_eq_ok_iff.mp hNarrow
    obtain ⟨-, -, hWide⟩ := scan_eq_ok_iff.mp hWide
    exact hWide.prefix_of_le hNarrow (by omega)
  · intro loaded
    rw [scan_eq_error_iff]
    simp
  · intro loaded
    rw [scan_eq_error_iff]
    simp
  · intro loaded cause
    rw [scan_eq_error_iff]
    simp
  · intro Call Answer load trace found
    exact runs_scanWith_iff

def expiring (id nanos offset : Int) : ManagedCertificate := ⟨id, "a.com", ⟨nanos, offset⟩⟩

/-- Four certificates, two of which expire at once on different clocks. -/
def fourExpiring : List ManagedCertificate :=
  [expiring 3 12 0, expiring 1 10 60, expiring 2 5 0, expiring 4 10 0]

example : scan ⟨10⟩ ⟨0, 3600⟩ (.ok fourExpiring) = .ok
    [⟨expiring 2 5 0, ⟨5⟩⟩, ⟨expiring 1 10 60, ⟨10⟩⟩, ⟨expiring 4 10 0, ⟨10⟩⟩] := by cbv

theorem endsInCalendar_ten : EndsInCalendar ⟨10⟩ ⟨0, 3600⟩ :=
  ⟨1970, 1, 1, by decide, by decide, by decide, by decide⟩

theorem scan_selects_fourExpiring :
    (∃ narrow wide, scan ⟨10⟩ ⟨0, 3600⟩ (.ok fourExpiring) = .ok narrow ∧
      scan ⟨12⟩ ⟨0, 3600⟩ (.ok fourExpiring) = .ok wide ∧
      Selected ⟨0, 3600⟩ 10 fourExpiring narrow ∧ narrow <+: wide) ∧
      scan ⟨-1⟩ ⟨0, 3600⟩ (.ok fourExpiring) = .error .negativeThreshold ∧
      scan ⟨10⟩ ⟨0, 3600⟩ (.error "down") = .error (.inventory "down") ∧
      Runs (scanWith (.ask ()) ⟨10⟩ ⟨0, 3600⟩ : Procedure Unit
        (fun _ => Except String (List ManagedCertificate)) _) [⟨(), .error "down"⟩]
        (.error (.inventory "down")) := by
  obtain ⟨hSelects, hPrefix, -, -, hInventory, hReads⟩ := scan_selects ⟨10⟩ ⟨0, 3600⟩
  obtain ⟨hSelectsWide, -⟩ := scan_selects ⟨12⟩ ⟨0, 3600⟩
  obtain ⟨-, -, hNegative, -⟩ := scan_selects ⟨-1⟩ ⟨0, 3600⟩
  have hWideEnd : EndsInCalendar ⟨12⟩ ⟨0, 3600⟩ :=
    ⟨1970, 1, 1, by decide, by decide, by decide, by decide⟩
  obtain ⟨narrow, hNarrow, hSelected, -⟩ := hSelects fourExpiring (by decide) endsInCalendar_ten
  obtain ⟨wide, hWide, -⟩ := hSelectsWide fourExpiring (by decide) hWideEnd
  have hDown : scan ⟨10⟩ ⟨0, 3600⟩ (.error "down") = .error (.inventory "down") :=
    (hInventory _ _).mpr ⟨by decide, endsInCalendar_ten, rfl⟩
  refine ⟨⟨narrow, wide, hNarrow, hWide, hSelected, ?_⟩, ?_, hDown, ?_⟩
  · exact hPrefix ⟨12⟩ fourExpiring narrow wide (by decide) hNarrow hWide
  · exact (hNegative _).mpr (by decide)
  · exact (hReads _ _ _).mpr (.inl ⟨by decide, endsInCalendar_ten, .error "down",
      Procedure.runs_ask_iff.mpr rfl, hDown.symm⟩)

end Renewal

end Enrollment
