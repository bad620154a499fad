import Qmk.RgbSplit.Light

/-!
# Keeping the other half's RGB Light up to date

The master sends its configuration and status with the flags of what has changed, and clears the
flags.  The other half reads only what is flagged.  A flag is lost when a block is overwritten
before it is read, and a color is lost where the mode, or a half that is off, does not let it
through.
-/

namespace Qmk.RgbSplit

open Qmk.Lib

variable {build : Build}

/-! ## The two handlers -/

section UpdateSync

variable (syncinfo s : SyncInfo build)

def updateLayers : SyncInfo build :=
  if syncinfo.status.changeFlags.layers = true then
    { s with status := { s.status with enabledLayerMask := syncinfo.status.enabledLayerMask } }
  else s

def updateMode : SyncInfo build :=
  if syncinfo.status.changeFlags.mode = true then
    if syncinfo.config.enable = true then
      rgblightMode syncinfo.config.mode { s with config := { s.config with enable := true } }
    else rgblightDisable s
  else s

def updateHsvs : SyncInfo build :=
  if syncinfo.status.changeFlags.hsvs = true then rgblightSethsv syncinfo.config.hsv s else s

def updateTimer : SyncInfo build :=
  if syncinfo.status.changeFlags.timer = true then
    if syncinfo.status.timerEnabled = true then rgblightTimerEnable s else rgblightTimerDisable s
  else s

def rgblightUpdateSync : SyncInfo build :=
  updateTimer syncinfo (updateHsvs syncinfo (updateMode syncinfo (updateLayers syncinfo s)))

end UpdateSync

structure State (build : Build) where
  master : SyncInfo build
  slave : SyncInfo build
  /-- `split_shmem->rgblight_sync` of the slave. -/
  received : SyncInfo build
  lastUpdate : BitVec 32

/-- A transfer that fails may have arrived all the same. -/
inductive Transfer
  | okay
  | arrives
  | fails
  deriving DecidableEq

inductive Input
  | operate (operation : Operation)
  /-- `rgblight_handlers_master` at the time `now`. -/
  | masterHandler (now : BitVec 32) (transfer : Transfer)
  | slaveHandler

/-- `timer_elapsed32(last_update) >= FORCED_SYNC_THROTTLE_MS || change_flags != 0`. -/
def Sends (s : State build) (now : BitVec 32) : Prop :=
  build.forcedSyncThrottleMs ≤ now - s.lastUpdate ∨ s.master.status.changeFlags ≠ .none

instance (s : State build) (now : BitVec 32) : Decidable (Sends s now) :=
  inferInstanceAs (Decidable (_ ∨ _))

def rgblightHandlersMaster (now : BitVec 32) (transfer : Transfer) (s : State build) :
    State build :=
  if Sends s now then
    match transfer with
    | .okay =>
        { s with received := s.master, master := s.master.setFlags .none, lastUpdate := now }
    | .arrives => { s with received := s.master }
    | .fails => s
  else { s with master := s.master.setFlags .none }

def rgblightHandlersSlave (s : State build) : State build :=
  if s.received.status.changeFlags = .none then s
  else
    { s with
      slave := rgblightUpdateSync s.received s.slave
      received := s.received.setFlags .none }

def step (s : State build) : Input → State build
  | .operate operation => { s with master := operation.apply s.master }
  | .masterHandler now transfer => rgblightHandlersMaster now transfer s
  | .slaveHandler => rgblightHandlersSlave s

/-! ## What is to be shown, and when -/

/-- The halves agree on whether the light is on, and on its mode if it is. -/
def SameMode (s other : SyncInfo build) : Prop :=
  other.config.enable = s.config.enable ∧
    (s.config.enable = true → other.config.mode = s.config.mode)

def InSync (s : State build) : Prop :=
  s.slave.config.enable = s.master.config.enable ∧
    s.slave.status.enabledLayerMask = s.master.status.enabledLayerMask ∧
    (s.master.config.enable = true →
      s.slave.config.mode = s.master.config.mode ∧ s.slave.config.hsv = s.master.config.hsv)

/-- The master has nothing to send, and the slave has read what it received. -/
def Settled (s : State build) : Prop :=
  s.master.status.changeFlags = .none ∧ s.received.status.changeFlags = .none

/-- Both halves start from one configuration, which `rgblight_check_config` has been over. -/
structure Start (s : State build) : Prop where
  config : s.slave.config = s.master.config
  layers : s.slave.status.enabledLayerMask = s.master.status.enabledLayerMask
  received : s.received.status.changeFlags = .none
  valid : 1 ≤ s.master.config.mode ∧ s.master.config.mode ≤ build.modes

/-- The flags of a block that is not read yet are flags of the next one as well. -/
def Repeats (unread next : ChangeFlags) : Prop :=
  (unread.mode = true → next.mode = true) ∧ (unread.hsvs = true → next.hsvs = true) ∧
    (unread.layers = true → next.layers = true)

/-- The slave takes over the color of the block. -/
def LetThrough (syncinfo slave : SyncInfo build) : Prop :=
  syncinfo.status.changeFlags.hsvs = true →
    if syncinfo.config.enable = true then
      build.admitted syncinfo.config.mode slave.config.hsv syncinfo.config.hsv =
        syncinfo.config.hsv
    else slave.config.hsv = syncinfo.config.hsv

/-- No block with flags of its own is overwritten unread, and no color is held back. -/
def Undisturbed (s : State build) : Input → Prop
  | .operate _ => True
  | .masterHandler now transfer => Sends s now → transfer ≠ .fails →
      Repeats s.received.status.changeFlags s.master.status.changeFlags
  | .slaveHandler => LetThrough s.received s.slave

/-! ## The invariant -/

/-- Where the slave has, or is about to have, what one flag stands for. -/
def State.source (s : State build) (flag : Bool) : SyncInfo build :=
  if flag = true then s.received else s.slave

structure Inv (s : State build) : Prop where
  masterValid : ModeValid s.master
  blockValid : s.received.status.changeFlags.mode = true → ModeValid s.received
  mode : s.master.status.changeFlags.mode = false →
    SameMode s.master (s.source s.received.status.changeFlags.mode)
  hsvs : s.master.status.changeFlags.hsvs = false →
    (s.source s.received.status.changeFlags.hsvs).config.hsv = s.master.config.hsv
  layers : s.master.status.changeFlags.layers = false →
    (s.source s.received.status.changeFlags.layers).status.enabledLayerMask =
      s.master.status.enabledLayerMask
  /-- A block that flags no mode is for the mode that the slave has. -/
  current : s.received.status.changeFlags.hsvs = true →
    s.received.status.changeFlags.mode = false → SameMode s.received s.slave

theorem SameMode.refl (s : SyncInfo build) : SameMode s s := ⟨rfl, fun _ => rfl⟩

theorem Start.inv {s : State build} (start : Start s) : Inv s where
  masterValid _ := start.valid
  blockValid flag := by
    rw [start.received] at flag
    cases flag
  mode _ := by
    rw [start.received]
    exact ⟨congrArg Config.enable start.config, fun _ => congrArg Config.mode start.config⟩
  hsvs _ := by
    rw [start.received]
    exact congrArg Config.hsv start.config
  layers _ := by
    rw [start.received]
    exact start.layers
  current flag := by
    rw [start.received] at flag
    cases flag

theorem Inv.inSync {s : State build} (inv : Inv s) (settled : Settled s) : InSync s := by
  have mode := inv.mode (by rw [settled.1]; rfl)
  have hsvs := inv.hsvs (by rw [settled.1]; rfl)
  have layers := inv.layers (by rw [settled.1]; rfl)
  rw [settled.2] at mode hsvs layers
  exact ⟨mode.1, layers, fun on => ⟨mode.2 on, hsvs⟩⟩

/-! ## The steps -/

theorem inv_operate {s : State build} (inv : Inv s) (operation : Operation) :
    Inv { s with master := operation.apply s.master } := by
  obtain ⟨flagged, valid⟩ := apply_sound operation s.master
  refine ⟨valid inv.masterValid, inv.blockValid, fun h => ?_, fun h => ?_, fun h => ?_,
    inv.current⟩
  · obtain ⟨unflagged, enable, mode⟩ := flagged.mode h
    obtain ⟨same, sameMode⟩ := inv.mode unflagged
    exact ⟨same.trans enable.symm, fun on => (sameMode (enable ▸ on)).trans mode.symm⟩
  · obtain ⟨unflagged, hsv⟩ := flagged.hsvs h
    exact (inv.hsvs unflagged).trans hsv.symm
  · obtain ⟨unflagged, mask⟩ := flagged.layers h
    exact (inv.layers unflagged).trans mask.symm

/-- What is not flagged now was not flagged in the block that is overwritten, so that the slave
has it already. -/
theorem slave_of_repeats {s : State build} (inv : Inv s)
    (repeats : Repeats s.received.status.changeFlags s.master.status.changeFlags) :
    (s.master.status.changeFlags.mode = false → SameMode s.master s.slave) ∧
      (s.master.status.changeFlags.hsvs = false → s.slave.config.hsv = s.master.config.hsv) ∧
      (s.master.status.changeFlags.layers = false →
        s.slave.status.enabledLayerMask = s.master.status.enabledLayerMask) := by
  have unread {flag next : Bool} (kept : flag = true → next = true) (h : next = false) :
      s.source flag = s.slave := by
    rw [State.source, if_neg fun set => by rw [kept set] at h; cases h]
  refine ⟨fun h => ?_, fun h => ?_, fun h => ?_⟩
  · exact unread repeats.1 h ▸ inv.mode h
  · exact unread repeats.2.1 h ▸ inv.hsvs h
  · exact unread repeats.2.2 h ▸ inv.layers h

theorem inv_received {s : State build} (inv : Inv s) (flags : ChangeFlags) (lastUpdate : BitVec 32)
    (repeats : Repeats s.received.status.changeFlags s.master.status.changeFlags) :
    Inv { s with received := s.master, master := s.master.setFlags flags, lastUpdate } := by
  obtain ⟨mode, hsvs, layers⟩ := slave_of_repeats inv repeats
  refine ⟨inv.masterValid, fun _ => inv.masterValid, fun _ => ?_, fun _ => ?_, fun _ => ?_,
    fun _ h => mode h⟩
  · cases flag : s.master.status.changeFlags.mode with
    | true => exact .refl s.master
    | false => exact mode flag
  · cases flag : s.master.status.changeFlags.hsvs with
    | true => rfl
    | false => exact hsvs flag
  · cases flag : s.master.status.changeFlags.layers with
    | true => rfl
    | false => exact layers flag

theorem setFlags_self (s : SyncInfo build) : s.setFlags s.status.changeFlags = s := rfl

theorem inv_masterHandler {s : State build} (inv : Inv s) {now : BitVec 32} {transfer : Transfer}
    (undisturbed : Undisturbed s (.masterHandler now transfer)) :
    Inv (rgblightHandlersMaster now transfer s) := by
  unfold rgblightHandlersMaster
  split
  · rename_i sends
    cases transfer with
    | okay => exact inv_received inv .none now (undisturbed sends (by decide))
    | arrives =>
        exact inv_received inv s.master.status.changeFlags s.lastUpdate
          (undisturbed sends (by decide))
    | fails => exact inv
  · rename_i quiet
    have clear : s.master.status.changeFlags = .none :=
      Decidable.byContradiction fun flagged => quiet (.inr flagged)
    rw [← clear, setFlags_self]
    exact inv

/-! ## The slave's handler -/

section UpdateSync

variable {syncinfo s : SyncInfo build}

theorem updateLayers_cases (syncinfo s : SyncInfo build) :
    (updateLayers syncinfo s).config = s.config ∧
      (updateLayers syncinfo s).status.enabledLayerMask =
        (if syncinfo.status.changeFlags.layers = true then syncinfo
          else s).status.enabledLayerMask := by
  unfold updateLayers
  split <;> exact ⟨rfl, rfl⟩

theorem updateMode_cases (valid : syncinfo.status.changeFlags.mode = true → ModeValid syncinfo) :
    SameMode (if syncinfo.status.changeFlags.mode = true then syncinfo else s)
        (updateMode syncinfo s) ∧
      (updateMode syncinfo s).config.hsv = s.config.hsv ∧
      (updateMode syncinfo s).status.enabledLayerMask = s.status.enabledLayerMask := by
  unfold updateMode
  split
  · rename_i flag
    split
    · rename_i on
      obtain ⟨config, mask, -, -⟩ := rgblightMode_on
        (s := { s with config := { s.config with enable := true } }) rfl syncinfo.config.mode
      refine ⟨⟨?_, fun _ => ?_⟩, ?_, mask⟩
      · rw [config, on]
      · rw [config]
        exact clampMode_of_valid (valid flag on).1 (valid flag on).2
      · rw [config]
    · rename_i off
      exact ⟨⟨(Bool.eq_false_iff.mpr off).symm, fun on => absurd on off⟩, rfl, rfl⟩
  · exact ⟨.refl s, rfl, rfl⟩

theorem updateHsvs_cases
    (current : syncinfo.status.changeFlags.hsvs = true → SameMode syncinfo s)
    (through : LetThrough syncinfo s) :
    SameMode s (updateHsvs syncinfo s) ∧
      (updateHsvs syncinfo s).config.hsv =
        (if syncinfo.status.changeFlags.hsvs = true then syncinfo else s).config.hsv ∧
      (updateHsvs syncinfo s).status.enabledLayerMask = s.status.enabledLayerMask := by
  unfold updateHsvs
  split
  · rename_i flag
    obtain ⟨config, mask, -, -⟩ := rgblightSethsv_cases syncinfo.config.hsv s
    obtain ⟨sameEnable, sameMode⟩ := current flag
    have color := through flag
    refine ⟨⟨by rw [config], fun _ => by rw [config]⟩, ?_, mask⟩
    rw [config, sameEnable]
    by_cases on : syncinfo.config.enable = true
    · rw [if_pos on] at color ⊢
      rw [sameMode on]
      exact color
    · rw [if_neg on] at color ⊢
      exact color
  · exact ⟨.refl s, rfl, rfl⟩

theorem updateTimer_cases (syncinfo s : SyncInfo build) :
    (updateTimer syncinfo s).config = s.config ∧
      (updateTimer syncinfo s).status.enabledLayerMask = s.status.enabledLayerMask := by
  obtain ⟨⟨off, offMask, -⟩, on, onMask, -⟩ := timer_cases s
  unfold updateTimer
  split
  · split
    · exact ⟨on, onMask⟩
    · exact ⟨off, offMask⟩
  · exact ⟨rfl, rfl⟩

theorem SameMode.trans {other third : SyncInfo build} (first : SameMode s other)
    (second : SameMode other third) : SameMode s third :=
  ⟨second.1.trans first.1, fun on => (second.2 (first.1.trans on)).trans (first.2 on)⟩

theorem SameMode.of_config {other third : SyncInfo build} (same : SameMode s other)
    (config : third.config = other.config) : SameMode s third := by
  rw [SameMode, config]
  exact same

theorem rgblightUpdateSync_cases
    (valid : syncinfo.status.changeFlags.mode = true → ModeValid syncinfo)
    (current : syncinfo.status.changeFlags.hsvs = true →
      syncinfo.status.changeFlags.mode = false → SameMode syncinfo s)
    (through : LetThrough syncinfo s) :
    SameMode (if syncinfo.status.changeFlags.mode = true then syncinfo else s)
        (rgblightUpdateSync syncinfo s) ∧
      (rgblightUpdateSync syncinfo s).config.hsv =
        (if syncinfo.status.changeFlags.hsvs = true then syncinfo else s).config.hsv ∧
      (rgblightUpdateSync syncinfo s).status.enabledLayerMask =
        (if syncinfo.status.changeFlags.layers = true then syncinfo
          else s).status.enabledLayerMask := by
  unfold rgblightUpdateSync
  generalize hlayers : updateLayers syncinfo s = layers
  obtain ⟨layersConfig, layersMask⟩ := hlayers ▸ updateLayers_cases syncinfo s
  generalize hmode : updateMode syncinfo layers = mode
  obtain ⟨modeSame, modeHsv, modeMask⟩ := hmode ▸ updateMode_cases (s := layers) valid
  have source : (if syncinfo.status.changeFlags.mode = true then syncinfo else layers).config =
      (if syncinfo.status.changeFlags.mode = true then syncinfo else s).config := by
    split
    · rfl
    · exact layersConfig
  have fromSource : SameMode (if syncinfo.status.changeFlags.mode = true then syncinfo else s)
      mode := by
    rw [SameMode, ← source]
    exact modeSame
  have forHsvs : syncinfo.status.changeFlags.hsvs = true → SameMode syncinfo mode := by
    intro flag
    cases hflag : syncinfo.status.changeFlags.mode with
    | true => rwa [if_pos hflag] at fromSource
    | false =>
        rw [if_neg (by rw [hflag]; exact Bool.false_ne_true)] at fromSource
        exact (current flag hflag).trans fromSource
  have throughMode : LetThrough syncinfo mode := by
    rw [LetThrough, modeHsv, layersConfig]
    exact through
  generalize hhsvs : updateHsvs syncinfo mode = hsvs
  obtain ⟨hsvsSame, hsvsHsv, hsvsMask⟩ := hhsvs ▸ updateHsvs_cases forHsvs throughMode
  obtain ⟨timerConfig, timerMask⟩ := updateTimer_cases syncinfo hsvs
  refine ⟨(fromSource.trans hsvsSame).of_config timerConfig, ?_, ?_⟩
  · rw [timerConfig, hsvsHsv]
    split
    · rfl
    · rw [modeHsv, layersConfig]
  · rw [timerMask, hsvsMask, modeMask, layersMask]

end UpdateSync

theorem inv_slaveHandler {s : State build} (inv : Inv s)
    (undisturbed : Undisturbed s .slaveHandler) : Inv (rgblightHandlersSlave s) := by
  unfold rgblightHandlersSlave
  split
  · exact inv
  · obtain ⟨mode, hsvs, layers⟩ := rgblightUpdateSync_cases inv.blockValid inv.current undisturbed
    exact ⟨inv.masterValid, fun flag => Bool.noConfusion flag, fun h => (inv.mode h).trans mode,
      fun h => hsvs.trans (inv.hsvs h), fun h => layers.trans (inv.layers h),
      fun flag => Bool.noConfusion flag⟩

theorem inv_step {s : State build} (inv : Inv s) {input : Input}
    (undisturbed : Undisturbed s input) : Inv (step s input) := by
  cases input with
  | operate operation => exact inv_operate inv operation
  | masterHandler now transfer => exact inv_masterHandler inv undisturbed
  | slaveHandler => exact inv_slaveHandler inv undisturbed

/-- In an undisturbed run the halves agree whenever nothing is left to send or to read. -/
theorem rgbSplit_converges {s : State build} (start : Start s)
    {inputs : List Input} (undisturbed : Meets step Undisturbed s inputs)
    (settled : Settled (run step s inputs)) : InSync (run step s inputs) :=
  (undisturbed.preserves Inv (fun _ _ inv quiet => inv_step inv quiet) start.inv).inSync settled

/-! ## A color that is held back -/

def allEffects : Build where
  defined _ := true
  hueStep := 8
  satStep := 17
  valStep := 17
  layerBits := 8
  forcedSyncThrottleMs := 100

def lightOn : SyncInfo allEffects where
  config := ⟨true, 1, ⟨0, 255, 255⟩, 0⟩
  status := ⟨false, .none, 0⟩

def bothOn : State allEffects where
  master := lightOn
  slave := lightOn
  received := lightOn
  lastUpdate := 0

theorem bothOn_start : Start bothOn := ⟨rfl, rfl, rfl, by decide⟩

/-- A new hue on its own goes through. -/
theorem hue_converges :
    InSync (run step bothOn
      [.operate .increaseHue, .masterHandler 1 .okay, .slaveHandler]) :=
  rgbSplit_converges bothOn_start
    ⟨True.intro, fun _ _ => ⟨by decide, by decide, by decide⟩, fun _ => by decide, True.intro⟩
    ⟨by decide, by decide⟩

/-- The value is lowered and the breathing mode chosen before the master sends: the slave changes
the mode first, and the mode holds back the value. -/
theorem breathing_holds_back :
    ¬ ∀ inputs : List Input, Settled (run step bothOn inputs) → InSync (run step bothOn inputs) := by
  intro claim
  have same := claim [.operate (.sethsv ⟨0, 255, 100⟩), .operate (.mode 2), .masterHandler 1 .okay,
    .slaveHandler] ⟨by decide, by decide⟩
  have apart := (same.2.2 (by decide)).2
  revert apart
  decide

end Qmk.RgbSplit
