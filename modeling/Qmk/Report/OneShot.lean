import Qmk.Report.Keys

/-!
# One-shot modifiers

The modifiers of a report in `action_util.c`, and the calls of `action.c` that send one, as they are
built without `LOCKING_SUPPORT_ENABLE`, `COMMAND_ENABLE`, key overrides and a one-shot timeout.  The
one-shot modifiers go out with every report and are cleared by the first one that has a key in it,
whatever the call that sent it.
-/

namespace Qmk.Report.OneShot

open Qmk.Lib

/-- What `host_keyboard_send` and `host_nkro_send` are given. -/
inductive HostReport where
  | keyboard (mods : UInt8) (keys : Vector UInt8 keyboardReportKeys)
  | nkro (mods : UInt8) (bits : Vector UInt8 nkroReportBits)
  deriving DecidableEq

def HostReport.mods : HostReport → UInt8
  | .keyboard mods _ => mods
  | .nkro mods _ => mods

/-- The statics, the `last_report` of both senders, and the reports sent. -/
structure State where
  reports : Reports
  realMods : UInt8
  weakMods : UInt8
  oneshotMods : UInt8
  lastReport : UInt8 × Vector UInt8 keyboardReportKeys
  lastNkroReport : UInt8 × Vector UInt8 nkroReportBits
  sent : List HostReport

def boot : State where
  reports := .empty
  realMods := 0
  weakMods := 0
  oneshotMods := 0
  lastReport := (0, Vector.replicate _ 0)
  lastNkroReport := (0, Vector.replicate _ 0)
  sent := []

section Calls

variable (nkro : Bool)

def clearOneshotMods (s : State) : State := { s with oneshotMods := 0 }

def getModsForReport (s : State) : UInt8 × State :=
  let mods := s.realMods ||| s.weakMods
  if s.oneshotMods ≠ 0 then
    (mods ||| s.oneshotMods, if hasAnykey nkro s.reports ≠ 0 then clearOneshotMods s else s)
  else (mods, s)

def send6kroReport (s : State) : State :=
  let (mods, s) := getModsForReport nkro s
  if (mods, s.reports.keys) ≠ s.lastReport then
    { s with
      lastReport := (mods, s.reports.keys)
      sent := s.sent ++ [.keyboard mods s.reports.keys] }
  else s

def sendNkroReport (s : State) : State :=
  let (mods, s) := getModsForReport nkro s
  if (mods, s.reports.bits) ≠ s.lastNkroReport then
    { s with
      lastNkroReport := (mods, s.reports.bits)
      sent := s.sent ++ [.nkro mods s.reports.bits] }
  else s

def sendKeyboardReport (s : State) : State :=
  if nkro then sendNkroReport nkro s else send6kroReport nkro s

def addKey (key : UInt8) (s : State) : State :=
  { s with reports := addKeyToReport nkro s.reports key }

def delKey (key : UInt8) (s : State) : State :=
  { s with reports := delKeyFromReport nkro s.reports key }

def addMods (mods : UInt8) (s : State) : State := { s with realMods := s.realMods ||| mods }

def delMods (mods : UInt8) (s : State) : State := { s with realMods := s.realMods &&& ~~~mods }

def addOneshotMods (mods : UInt8) (s : State) : State :=
  if s.oneshotMods &&& mods ≠ mods then { s with oneshotMods := s.oneshotMods ||| mods } else s

/-- `IS_BASIC_KEYCODE`: from `KC_A` to `KC_EXSEL`. -/
def isBasicKeycode (code : UInt8) : Bool := 0x04 ≤ code ∧ code ≤ 0xA4

/-- `IS_MODIFIER_KEYCODE`: from `KC_LEFT_CTRL` to `KC_RIGHT_GUI`. -/
def isModifierKeycode (code : UInt8) : Bool := 0xE0 ≤ code ∧ code ≤ 0xE7

def modBit (code : UInt8) : UInt8 := 1 <<< (code &&& 0x07)

/-- Force a new key press if the key is already pressed. -/
def releasePressed (code : UInt8) (s : State) : State :=
  if isKeyPressed nkro s.reports code then sendKeyboardReport nkro (delKey nkro code s) else s

/-- The system, consumer and mouse codes go to other reports. -/
def registerCode (code : UInt8) (s : State) : State :=
  if code = 0 then s
  else if isBasicKeycode code then
    sendKeyboardReport nkro (addKey nkro code (releasePressed nkro code s))
  else if isModifierKeycode code then sendKeyboardReport nkro (addMods (modBit code) s)
  else s

def unregisterCode (code : UInt8) (s : State) : State :=
  if code = 0 then s
  else if isBasicKeycode code then sendKeyboardReport nkro (delKey nkro code s)
  else if isModifierKeycode code then sendKeyboardReport nkro (delMods (modBit code) s)
  else s

def registerMods (mods : UInt8) (s : State) : State :=
  if mods ≠ 0 then sendKeyboardReport nkro (addMods mods s) else s

def unregisterMods (mods : UInt8) (s : State) : State :=
  if mods ≠ 0 then sendKeyboardReport nkro (delMods mods s) else s

end Calls

inductive Operation where
  | addOneshotMods (mods : UInt8)
  | registerCode (code : UInt8)
  | unregisterCode (code : UInt8)
  | registerMods (mods : UInt8)
  | unregisterMods (mods : UInt8)
  deriving DecidableEq

def perform (nkro : Bool) (s : State) : Operation → State
  | .addOneshotMods mods => addOneshotMods mods s
  | .registerCode code => registerCode nkro code s
  | .unregisterCode code => unregisterCode nkro code s
  | .registerMods mods => registerMods nkro mods s
  | .unregisterMods mods => unregisterMods nkro mods s

/-! ## Waiting -/

/-- The call adds a key code that is not pressed. -/
def Presses (nkro : Bool) (s : State) : Operation → Prop
  | .registerCode code => isBasicKeycode code = true ∧ isKeyPressed nkro s.reports code = false ∧
      isKeyPressed nkro (addKeyToReport nkro s.reports code) code = true
  | _ => False

instance (nkro : Bool) (s : State) (operation : Operation) :
    Decidable (Presses nkro s operation) :=
  match operation with
  | .registerCode _ => inferInstanceAs (Decidable (_ ∧ _))
  | .addOneshotMods _ | .unregisterCode _ | .registerMods _ | .unregisterMods _ =>
      inferInstanceAs (Decidable False)

/-- The modifiers that wait for a key press after the call. -/
def waitFor (nkro : Bool) (s : State) (waiting : UInt8) : Operation → UInt8
  | .addOneshotMods mods => waiting ||| mods
  | operation => if Presses nkro s operation then 0 else waiting

def Within (mods others : UInt8) : Prop := mods ||| others = others

/-- The reports of the call carry at most the modifiers that wait, and a key press is one report that
carries them all. -/
def Carries (nkro : Bool) (s : State) (waiting : UInt8) (operation : Operation) : Prop :=
  ∃ reports, (perform nkro s operation).sent = s.sent ++ reports ∧
    (∀ report ∈ reports, Within report.mods
      ((perform nkro s operation).realMods ||| (perform nkro s operation).weakMods ||| waiting)) ∧
    (Presses nkro s operation → ∃ report, reports = [report] ∧ Within waiting report.mods)

/-- The modifiers that were armed stay in `oneshot_mods` until a key press, whose report carries
them, and no later report does. -/
def Waits (nkro : Bool) : State → UInt8 → List Operation → Prop
  | s, waiting, [] => s.oneshotMods = waiting
  | s, waiting, operation :: operations =>
      s.oneshotMods = waiting ∧ Carries nkro s waiting operation ∧
        Waits nkro (perform nkro s operation) (waitFor nkro s waiting operation) operations

/-- The call presses a key, or sends no report with a key in it. -/
def Quiet (nkro : Bool) (s : State) : Operation → Prop
  | .addOneshotMods _ => True
  | .registerCode code =>
      if isBasicKeycode code then Presses nkro s (.registerCode code)
      else if isModifierKeycode code then hasAnykey nkro s.reports = 0
      else True
  | .unregisterCode code =>
      if isBasicKeycode code then hasAnykey nkro (delKeyFromReport nkro s.reports code) = 0
      else if isModifierKeycode code then hasAnykey nkro s.reports = 0
      else True
  | .registerMods mods | .unregisterMods mods => mods = 0 ∨ hasAnykey nkro s.reports = 0

def Undisturbed (nkro : Bool) (s : State) (operation : Operation) : Prop :=
  s.oneshotMods = 0 ∨ Quiet nkro s operation

/-! ## Sending a report -/

/-- The report with these modifiers and the keys of the mode. -/
def hostReport (nkro : Bool) (mods : UInt8) (reports : Reports) : HostReport :=
  if nkro then .nkro mods reports.bits else .keyboard mods reports.keys

/-- The modifiers of the next report. -/
def State.reportMods (s : State) : UInt8 := s.realMods ||| s.weakMods ||| s.oneshotMods

def lastSent (nkro : Bool) (s : State) : HostReport :=
  if nkro then .nkro s.lastNkroReport.1 s.lastNkroReport.2
  else .keyboard s.lastReport.1 s.lastReport.2

section Send

variable (nkro : Bool) (s : State)

theorem getModsForReport_eq :
    getModsForReport nkro s =
      (s.reportMods, { s with
        oneshotMods := if hasAnykey nkro s.reports ≠ 0 then 0 else s.oneshotMods }) := by
  unfold getModsForReport State.reportMods
  by_cases hzero : s.oneshotMods = 0
  · rw [if_neg (not_not_intro hzero), hzero, UInt8.or_zero]
    simp [← hzero]
  · rw [if_pos hzero]
    split_ifs <;> rfl

/-- `send_keyboard_report`: the report goes out if it differs from the last one. -/
theorem sendKeyboardReport_spec :
    (sendKeyboardReport nkro s).reports = s.reports ∧
    (sendKeyboardReport nkro s).realMods = s.realMods ∧
    (sendKeyboardReport nkro s).weakMods = s.weakMods ∧
    (sendKeyboardReport nkro s).oneshotMods =
      (if hasAnykey nkro s.reports ≠ 0 then 0 else s.oneshotMods) ∧
    lastSent nkro (sendKeyboardReport nkro s) = hostReport nkro s.reportMods s.reports ∧
    (sendKeyboardReport nkro s).sent =
      s.sent ++ if hostReport nkro s.reportMods s.reports ≠ lastSent nkro s then
        [hostReport nkro s.reportMods s.reports] else [] := by
  cases nkro with
  | true =>
      simp only [sendKeyboardReport, sendNkroReport, if_true, getModsForReport_eq, hostReport,
        lastSent]
      by_cases hsame : (s.reportMods, s.reports.bits) = s.lastNkroReport
      · rw [if_neg (not_not_intro hsame), ← hsame]
        simp
      · rw [if_pos hsame]
        have hlast : HostReport.nkro s.reportMods s.reports.bits ≠
            .nkro s.lastNkroReport.1 s.lastNkroReport.2 := by
          intro heq
          obtain ⟨hmods, hbits⟩ := HostReport.nkro.inj heq
          exact hsame (Prod.ext hmods hbits)
        simp [hlast]
  | false =>
      simp only [sendKeyboardReport, send6kroReport, Bool.false_eq_true, if_false,
        getModsForReport_eq, hostReport, lastSent]
      by_cases hsame : (s.reportMods, s.reports.keys) = s.lastReport
      · rw [if_neg (not_not_intro hsame), ← hsame]
        simp
      · rw [if_pos hsame]
        have hlast : HostReport.keyboard s.reportMods s.reports.keys ≠
            .keyboard s.lastReport.1 s.lastReport.2 := by
          intro heq
          obtain ⟨hmods, hkeys⟩ := HostReport.keyboard.inj heq
          exact hsame (Prod.ext hmods hkeys)
        simp [hlast]

end Send

/-! ## Keys and reports -/

section Keys

variable {nkro : Bool} {reports other : Reports} {mods others code : UInt8}

theorem isKeyPressed_congr (h : hostReport nkro mods reports = hostReport nkro others other) :
    isKeyPressed nkro reports code = isKeyPressed nkro other code := by
  cases nkro with
  | true =>
      have hbits : reports.bits = other.bits := (HostReport.nkro.inj h).2
      simp only [isKeyPressed, if_true, hbits]
  | false =>
      have hkeys : reports.keys = other.keys := (HostReport.keyboard.inj h).2
      simp only [isKeyPressed, Bool.false_eq_true, if_false, hkeys]

theorem isBasicKeycode_inRange (h : isBasicKeycode code = true) : code ≠ 0 ∧ InRange code := by
  obtain ⟨hlow, hhigh⟩ := of_decide_eq_true h
  have hlow' : 4 ≤ code.toNat := UInt8.le_iff_toNat_le.mp hlow
  have hhigh' : code.toNat ≤ 164 := UInt8.le_iff_toNat_le.mp hhigh
  refine ⟨fun hzero => ?_, ?_⟩
  · rw [hzero] at hlow'
    exact absurd hlow' (by decide)
  · exact Nat.lt_of_le_of_lt (Nat.div_le_div_right hhigh') (by decide)

/-- A code that is added leaves a key in the report, even if it finds no room there. -/
theorem hasAnykey_addKey (hcode : code ≠ 0) (hrange : InRange code) :
    hasAnykey nkro (addKeyToReport nkro reports code) ≠ 0 := by
  rw [hasAnykey_ne_zero_iff]
  cases nkro with
  | true =>
      have hin : (code >>> 3).toNat < nkroReportBits := by
        rw [codeByte_toNat]
        exact hrange
      refine ⟨reports.bits[(code >>> 3).toNat] ||| (1 <<< (code &&& 7)), ?_, ?_⟩
      · simp only [addKeyToReport, if_true, addKeyBit, dif_pos hin, Vector.mem_toList_iff]
        exact Vector.mem_set hin
      · refine (byte_ne_zero_iff _).mpr ⟨code.toNat % 8, Nat.mod_lt _ (by decide), ?_⟩
        have hbit := codeBit_or reports.bits[(code >>> 3).toNat] code code
        rw [decide_eq_true rfl, Bool.or_true] at hbit
        exact hbit
  | false =>
      simp only [addKeyToReport, Bool.false_eq_true, if_false]
      by_cases hmem : code ∈ reports.keys.toList
      · exact ⟨code, (addKeyByte_of_mem hmem).symm ▸ hmem, hcode⟩
      · rcases addKeyByte_of_not_mem hmem with ⟨before, after, -, hstored⟩ | ⟨hfull, hkept⟩
        · exact ⟨code, by simp [hstored], hcode⟩
        · have hfirst : reports.keys[0] ∈ reports.keys.toList := by simp
          rw [hkept]
          exact ⟨_, hfirst, fun hzero => hfull (hzero ▸ hfirst)⟩

end Keys

/-! ## Calls -/

/-- The keys of the last report are those of the current one. -/
def Synced (nkro : Bool) (s : State) : Prop :=
  ∃ mods, lastSent nkro s = hostReport nkro mods s.reports

section Step

variable {nkro : Bool} {s t : State} {waiting : UInt8} {operation : Operation}

theorem hostReport_mods (mods : UInt8) (reports : Reports) :
    (hostReport nkro mods reports).mods = mods := by
  cases nkro with
  | true => rfl
  | false => rfl

theorem sendKeyboardReport_synced (t : State) : Synced nkro (sendKeyboardReport nkro t) := by
  obtain ⟨hreports, -, -, -, hlast, -⟩ := sendKeyboardReport_spec nkro t
  exact ⟨t.reportMods, by rw [hlast, hreports]⟩

theorem sendKeyboardReport_sent (nkro : Bool) (t : State) :
    ∃ reports, (sendKeyboardReport nkro t).sent = t.sent ++ reports ∧
      ∀ report ∈ reports, report.mods = t.reportMods := by
  obtain ⟨-, -, -, -, -, hsent⟩ := sendKeyboardReport_spec nkro t
  refine ⟨_, hsent, fun report hreport => ?_⟩
  split_ifs at hreport with hsame
  · rw [List.mem_singleton.mp hreport, hostReport_mods]
  · cases hreport

theorem within_or_right (mods others : UInt8) : Within mods (others ||| mods) := by
  rw [Within, UInt8.or_comm mods, UInt8.or_assoc, UInt8.or_self]

theorem within_self (mods : UInt8) : Within mods mods := UInt8.or_self

theorem within_zero (mods others : UInt8) : Within (mods ||| 0) (mods ||| others) := by
  rw [Within, UInt8.or_zero, ← UInt8.or_assoc, UInt8.or_self]

theorem carries_of_send (hpresses : ¬ Presses nkro s operation)
    (hperform : perform nkro s operation = sendKeyboardReport nkro t) (hsent : t.sent = s.sent)
    (hwaiting : t.oneshotMods = waiting) : Carries nkro s waiting operation := by
  obtain ⟨-, hreal, hweak, -, -, -⟩ := sendKeyboardReport_spec nkro t
  obtain ⟨reports, hreports, hmods⟩ := sendKeyboardReport_sent nkro t
  refine ⟨reports, ?_, fun report hreport => ?_, fun h => absurd h hpresses⟩
  · rw [hperform, hreports, hsent]
  · rw [hperform, hreal, hweak, hmods report hreport, State.reportMods, hwaiting]
    exact within_self _

theorem carries_of_silent (hpresses : ¬ Presses nkro s operation)
    (hsent : (perform nkro s operation).sent = s.sent) : Carries nkro s waiting operation :=
  ⟨[], by rw [hsent, List.append_nil], (fun _ h => nomatch h), fun h => absurd h hpresses⟩

/-- What a call does to the modifiers that wait. -/
structure StepOk (nkro : Bool) (s : State) (waiting : UInt8) (operation : Operation) : Prop where
  synced : Synced nkro (perform nkro s operation)
  carries : Carries nkro s waiting operation
  stays_iff : (perform nkro s operation).oneshotMods = waitFor nkro s waiting operation ↔
    Undisturbed nkro s operation

/-- A report that is sent without a key press keeps the modifiers if they are none or it has no key. -/
theorem stays_iff_of_send (t : State) :
    (sendKeyboardReport nkro t).oneshotMods = t.oneshotMods ↔
      t.oneshotMods = 0 ∨ hasAnykey nkro t.reports = 0 := by
  obtain ⟨-, -, -, honeshot, -, -⟩ := sendKeyboardReport_spec nkro t
  rw [honeshot]
  by_cases hany : hasAnykey nkro t.reports = 0
  · rw [if_neg (not_not_intro hany)]
    exact iff_of_true rfl (.inr hany)
  · rw [if_pos hany, eq_comm]
    exact (or_iff_left hany).symm

theorem stepOk_of_send (hpresses : ¬ Presses nkro s operation)
    (hperform : perform nkro s operation = sendKeyboardReport nkro t) (hsent : t.sent = s.sent)
    (honeshot : t.oneshotMods = s.oneshotMods) (hwait : s.oneshotMods = waiting)
    (hwaitFor : waitFor nkro s waiting operation = waiting)
    (hquiet : Quiet nkro s operation ↔ hasAnykey nkro t.reports = 0) :
    StepOk nkro s waiting operation := by
  refine ⟨hperform ▸ sendKeyboardReport_synced t,
    carries_of_send hpresses hperform hsent (honeshot.trans hwait), ?_⟩
  rw [hperform, hwaitFor, Undisturbed, hquiet, ← hwait, ← honeshot]
  exact stays_iff_of_send t

theorem stepOk_of_silent (hpresses : ¬ Presses nkro s operation)
    (hperform : perform nkro s operation = s) (hsynced : Synced nkro s)
    (hwait : s.oneshotMods = waiting) (hwaitFor : waitFor nkro s waiting operation = waiting)
    (hquiet : Quiet nkro s operation) : StepOk nkro s waiting operation := by
  refine ⟨hperform.symm ▸ hsynced, carries_of_silent hpresses (congrArg State.sent hperform), ?_⟩
  rw [hperform, hwaitFor]
  exact iff_of_true hwait (.inr hquiet)

theorem or_and_absorb (mods others : UInt8) : mods ||| (mods &&& others) = mods := by
  refine UInt8.toBitVec_inj.mp (BitVec.eq_of_getLsbD_eq fun i hi => ?_)
  rw [UInt8.toBitVec_or, UInt8.toBitVec_and, BitVec.getLsbD_or, BitVec.getLsbD_and]
  cases mods.toBitVec.getLsbD i with
  | false => rfl
  | true => rfl

theorem addOneshotMods_eq (mods : UInt8) (s : State) :
    addOneshotMods mods s = { s with oneshotMods := s.oneshotMods ||| mods } := by
  unfold addOneshotMods
  split_ifs with hnew
  · rfl
  · have habsorb := or_and_absorb s.oneshotMods mods
    rw [not_not.mp hnew] at habsorb
    rw [habsorb]

theorem addOneshotMods_stepOk (mods : UInt8) (hsynced : Synced nkro s)
    (hwait : s.oneshotMods = waiting) : StepOk nkro s waiting (.addOneshotMods mods) := by
  have hperform : perform nkro s (.addOneshotMods mods) =
      { s with oneshotMods := s.oneshotMods ||| mods } := addOneshotMods_eq mods s
  refine ⟨hperform.symm ▸ hsynced, carries_of_silent id ?_, ?_⟩
  · rw [hperform]
  rw [hperform, hwait]
  exact iff_of_true rfl (.inr trivial)

theorem unregisterCode_stepOk (code : UInt8) (hsynced : Synced nkro s)
    (hwait : s.oneshotMods = waiting) : StepOk nkro s waiting (.unregisterCode code) := by
  have hperform : perform nkro s (.unregisterCode code) = unregisterCode nkro code s := rfl
  unfold unregisterCode at hperform
  by_cases hzero : code = 0
  · subst hzero
    rw [if_pos rfl] at hperform
    exact stepOk_of_silent id hperform hsynced hwait rfl trivial
  rw [if_neg hzero] at hperform
  by_cases hbasic : isBasicKeycode code = true
  · rw [if_pos hbasic] at hperform
    exact stepOk_of_send id hperform rfl rfl hwait rfl (by rw [Quiet, if_pos hbasic]; rfl)
  rw [if_neg hbasic] at hperform
  by_cases hmodifier : isModifierKeycode code = true
  · rw [if_pos hmodifier] at hperform
    exact stepOk_of_send id hperform rfl rfl hwait rfl
      (by rw [Quiet, if_neg hbasic, if_pos hmodifier]; rfl)
  · rw [if_neg hmodifier] at hperform
    exact stepOk_of_silent id hperform hsynced hwait rfl
      (by rw [Quiet, if_neg hbasic, if_neg hmodifier]; trivial)

theorem registerMods_stepOk (mods : UInt8) (hsynced : Synced nkro s)
    (hwait : s.oneshotMods = waiting) : StepOk nkro s waiting (.registerMods mods) := by
  have hperform : perform nkro s (.registerMods mods) = registerMods nkro mods s := rfl
  unfold registerMods at hperform
  by_cases hzero : mods = 0
  · rw [if_neg (not_not_intro hzero)] at hperform
    exact stepOk_of_silent id hperform hsynced hwait rfl (.inl hzero)
  · rw [if_pos hzero] at hperform
    exact stepOk_of_send id hperform rfl rfl hwait rfl (or_iff_right hzero)

theorem unregisterMods_stepOk (mods : UInt8) (hsynced : Synced nkro s)
    (hwait : s.oneshotMods = waiting) : StepOk nkro s waiting (.unregisterMods mods) := by
  have hperform : perform nkro s (.unregisterMods mods) = unregisterMods nkro mods s := rfl
  unfold unregisterMods at hperform
  by_cases hzero : mods = 0
  · rw [if_neg (not_not_intro hzero)] at hperform
    exact stepOk_of_silent id hperform hsynced hwait rfl (.inl hzero)
  · rw [if_pos hzero] at hperform
    exact stepOk_of_send id hperform rfl rfl hwait rfl (or_iff_right hzero)

/-- A key press is one report, which carries the modifiers and clears them. -/
theorem press_stepOk {code : UInt8} (hbasic : isBasicKeycode code = true)
    (hsynced : Synced nkro s) (hwait : s.oneshotMods = waiting)
    (hfresh : isKeyPressed nkro s.reports code = false)
    (hperform : perform nkro s (.registerCode code) = sendKeyboardReport nkro (addKey nkro code s))
    (hpresses : Presses nkro s (.registerCode code)) :
    StepOk nkro s waiting (.registerCode code) := by
  obtain ⟨hne, hrange⟩ := isBasicKeycode_inRange hbasic
  have hany : hasAnykey nkro (addKey nkro code s).reports ≠ 0 := hasAnykey_addKey hne hrange
  obtain ⟨mods, hlast⟩ := hsynced
  obtain ⟨-, hreal, hweak, honeshot, -, hsent⟩ := sendKeyboardReport_spec nkro (addKey nkro code s)
  have hnew : hostReport nkro (addKey nkro code s).reportMods (addKey nkro code s).reports ≠
      lastSent nkro (addKey nkro code s) := by
    intro hsame
    have hkeys := @isKeyPressed_congr nkro _ _ _ _ code (hsame.trans hlast)
    exact absurd (hkeys.symm.trans hpresses.2.2) (by rw [hfresh]; decide)
  rw [if_pos hnew] at hsent
  rw [if_pos hany] at honeshot
  refine ⟨hperform ▸ sendKeyboardReport_synced _, ⟨_, (congrArg State.sent hperform).trans hsent,
    fun report hreport => ?_, fun _ => ⟨_, rfl, ?_⟩⟩, ?_⟩
  · rw [List.mem_singleton.mp hreport, hostReport_mods, hperform, hreal, hweak, ← hwait]
    exact within_self _
  · rw [hostReport_mods, ← hwait]
    exact within_or_right _ _
  · rw [hperform, honeshot, waitFor, if_pos hpresses]
    · exact iff_of_true rfl (.inr (by rwa [Quiet, if_pos hbasic]))
    · exact fun _ h => nomatch h

theorem releasePressed_spec (nkro : Bool) (code : UInt8) (s : State) :
    (releasePressed nkro code s).realMods = s.realMods ∧
    (releasePressed nkro code s).weakMods = s.weakMods ∧
    ((releasePressed nkro code s).oneshotMods = s.oneshotMods ∨
      (releasePressed nkro code s).oneshotMods = 0) ∧
    ∃ reports, (releasePressed nkro code s).sent = s.sent ++ reports ∧
      ∀ report ∈ reports, report.mods = s.reportMods := by
  unfold releasePressed
  split_ifs
  · obtain ⟨-, hreal, hweak, honeshot, -, -⟩ := sendKeyboardReport_spec nkro (delKey nkro code s)
    refine ⟨hreal, hweak, ?_, sendKeyboardReport_sent nkro (delKey nkro code s)⟩
    rw [honeshot]
    split_ifs
    · exact .inr rfl
    · exact .inl rfl
  · exact ⟨rfl, rfl, .inl rfl, [], (List.append_nil _).symm, fun _ h => nomatch h⟩

/-- The code is pressed already, or finds no room: a report with keys, but no key press. -/
theorem repress_stepOk {code : UInt8} (hbasic : isBasicKeycode code = true)
    (hwait : s.oneshotMods = waiting)
    (hperform : perform nkro s (.registerCode code) =
      sendKeyboardReport nkro (addKey nkro code (releasePressed nkro code s)))
    (hpresses : ¬ Presses nkro s (.registerCode code)) :
    StepOk nkro s waiting (.registerCode code) := by
  obtain ⟨hne, hrange⟩ := isBasicKeycode_inRange hbasic
  have hany : hasAnykey nkro (addKey nkro code (releasePressed nkro code s)).reports ≠ 0 :=
    hasAnykey_addKey hne hrange
  obtain ⟨hreal, hweak, hreleased, first, hfirst, hfirstMods⟩ :=
    releasePressed_spec nkro code s
  obtain ⟨-, hreal', hweak', honeshot, -, -⟩ :=
    sendKeyboardReport_spec nkro (addKey nkro code (releasePressed nkro code s))
  obtain ⟨second, hsecond, hsecondMods⟩ :=
    sendKeyboardReport_sent nkro (addKey nkro code (releasePressed nkro code s))
  have hsent : (sendKeyboardReport nkro (addKey nkro code (releasePressed nkro code s))).sent =
      s.sent ++ (first ++ second) := by
    rw [hsecond, ← List.append_assoc]
    exact congrArg (· ++ second) hfirst
  rw [if_pos hany] at honeshot
  refine ⟨hperform ▸ sendKeyboardReport_synced _, ⟨first ++ second,
    (congrArg State.sent hperform).trans hsent, fun report hreport => ?_,
    fun h => absurd h hpresses⟩, ?_⟩
  · have hmods : (addKey nkro code (releasePressed nkro code s)).reportMods =
        s.realMods ||| s.weakMods ||| (releasePressed nkro code s).oneshotMods := by
      rw [← hreal, ← hweak]
      rfl
    have hreal'' : (addKey nkro code (releasePressed nkro code s)).realMods = s.realMods := hreal
    have hweak'' : (addKey nkro code (releasePressed nkro code s)).weakMods = s.weakMods := hweak
    rw [hperform, hreal', hweak', hreal'', hweak'', ← hwait]
    rcases List.mem_append.mp hreport with hreport | hreport
    · rw [hfirstMods report hreport]
      exact within_self _
    · rw [hsecondMods report hreport, hmods]
      rcases hreleased with hkept | hcleared
      · rw [hkept]
        exact within_self _
      · rw [hcleared]
        exact within_zero _ _
  · rw [hperform, honeshot, waitFor, if_neg hpresses, Undisturbed, Quiet, if_pos hbasic,
      or_iff_left hpresses, hwait]
    · exact eq_comm
    · exact fun _ h => nomatch h

theorem registerCode_stepOk (code : UInt8) (hsynced : Synced nkro s)
    (hwait : s.oneshotMods = waiting) : StepOk nkro s waiting (.registerCode code) := by
  have hperform : perform nkro s (.registerCode code) = registerCode nkro code s := rfl
  unfold registerCode at hperform
  by_cases hbasic : isBasicKeycode code = true
  · rw [if_neg (isBasicKeycode_inRange hbasic).1, if_pos hbasic] at hperform
    by_cases hpresses : Presses nkro s (.registerCode code)
    · have hfresh := hpresses.2.1
      have hreleased : releasePressed nkro code s = s := if_neg (by rw [hfresh]; decide)
      rw [hreleased] at hperform
      exact press_stepOk hbasic hsynced hwait hfresh hperform hpresses
    · exact repress_stepOk hbasic hwait hperform hpresses
  have hpresses : ¬ Presses nkro s (.registerCode code) := fun h => hbasic h.1
  have hwaitFor : waitFor nkro s waiting (.registerCode code) = waiting := by
    rw [waitFor, if_neg hpresses]
    exact fun _ h => nomatch h
  rw [if_neg hbasic] at hperform
  by_cases hmodifier : isModifierKeycode code = true
  · have hzero : code ≠ 0 := by
      rintro rfl
      exact absurd hmodifier (by decide)
    rw [if_neg hzero, if_pos hmodifier] at hperform
    exact stepOk_of_send hpresses hperform rfl rfl hwait hwaitFor
      (by rw [Quiet, if_neg hbasic, if_pos hmodifier]; rfl)
  · rw [if_neg hmodifier, ite_self] at hperform
    exact stepOk_of_silent hpresses hperform hsynced hwait hwaitFor
      (by rw [Quiet, if_neg hbasic, if_neg hmodifier]; trivial)

theorem perform_stepOk (operation : Operation) (hsynced : Synced nkro s)
    (hwait : s.oneshotMods = waiting) : StepOk nkro s waiting operation := by
  cases operation with
  | addOneshotMods mods => exact addOneshotMods_stepOk mods hsynced hwait
  | registerCode code => exact registerCode_stepOk code hsynced hwait
  | unregisterCode code => exact unregisterCode_stepOk code hsynced hwait
  | registerMods mods => exact registerMods_stepOk mods hsynced hwait
  | unregisterMods mods => exact unregisterMods_stepOk mods hsynced hwait

end Step

/-! ## Runs -/

theorem waits_iff {nkro : Bool} {s : State} {waiting : UInt8} {operations : List Operation}
    (hsynced : Synced nkro s) (hwait : s.oneshotMods = waiting) :
    Waits nkro s waiting operations ↔ Meets (perform nkro) (Undisturbed nkro) s operations := by
  induction operations generalizing s waiting with
  | nil => exact iff_of_true hwait trivial
  | cons operation operations ih =>
      have hstep := perform_stepOk operation hsynced hwait
      rw [Waits, Meets, and_iff_right hwait, and_iff_right hstep.carries]
      by_cases hstays : (perform nkro s operation).oneshotMods = waitFor nkro s waiting operation
      · rw [and_iff_right (hstep.stays_iff.mp hstays)]
        exact ih hstep.synced hstays
      · refine iff_of_false (fun h => hstays ?_) fun h => hstays (hstep.stays_iff.mpr h.1)
        cases operations with
        | nil => exact h
        | cons next operations => exact h.1

theorem boot_synced (nkro : Bool) : Synced nkro boot := by
  refine ⟨0, ?_⟩
  cases nkro with
  | true => rfl
  | false => rfl

/-- One-shot modifiers wait for the next key press in the runs without a report that has a key in it
and is sent, while they are armed, by another call. -/
theorem oneshotMods_wait_iff (nkro : Bool) (operations : List Operation) :
    Waits nkro boot 0 operations ↔ Meets (perform nkro) (Undisturbed nkro) boot operations :=
  waits_iff (boot_synced nkro) rfl

/-- Two keys are held, left shift is armed, and one of the keys is released. -/
theorem release_takes_oneshot :
    ¬ ∀ operations : List Operation, Waits false boot 0 operations := by
  intro h
  have hmeets := (waits_iff (boot_synced false) rfl).mp (h [.registerCode 0x04,
    .registerCode 0x05, .addOneshotMods 0x02, .unregisterCode 0x05])
  have hrelease := hmeets.2.2.2.1
  rcases hrelease with hzero | hquiet
  · exact absurd hzero (by decide)
  · rw [Quiet, if_pos (by decide)] at hquiet
    revert hquiet
    decide +kernel

end Qmk.Report.OneShot
