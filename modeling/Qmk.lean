import Qmk.Action.OneshotLayer
import Qmk.Action.Process
import Qmk.Action.Records
import Qmk.Audio.Performance
import Qmk.AutoShift.Process
import Qmk.Autocorrect.Text
import Qmk.CapsWord.Process
import Qmk.Combo.Engine
import Qmk.Combo.Flush
import Qmk.Combo.Overflow
import Qmk.Crc.Crc8
import Qmk.Debounce.AsymEagerDeferPk
import Qmk.Debounce.SymDeferPk
import Qmk.Debounce.SymDeferPr
import Qmk.Debounce.SymDeferG
import Qmk.Debounce.SymEager
import Qmk.Deferred.Safety
import Qmk.DynamicKeymap.Store
import Qmk.DynamicMacro.Playback
import Qmk.DynamicMacro.Recordings
import Qmk.EeConfig.Datablock
import Qmk.Encoder.Quadrature
import Qmk.Encoder.Split
import Qmk.FlashStore.Backing
import Qmk.Ghost.Suppression
import Qmk.I2cEeprom.Blocks
import Qmk.InfoJson.Overrides
import Qmk.JsonMacros.Faithful
import Qmk.JsonMacros.Generate
import Qmk.JsonMacros.Read
import Qmk.JsonSchema.Docstring
import Qmk.JsonSchema.Histories
import Qmk.JsonSchema.MergeDicts
import Qmk.KeyLock.Process
import Qmk.KeyOverrides.Activation
import Qmk.KeyOverrides.Modifiers
import Qmk.KeymapC.Generate
import Qmk.KeymapC.Lexing
import Qmk.KeymapC.Parse
import Qmk.KeymapC.Reading
import Qmk.KeymapC.RoundTrip
import Qmk.KeymapC.Text
import Qmk.LayerLock.Locks
import Qmk.Layers.Undo
import Qmk.LedConfig.RoundTrip
import Qmk.LegacyEeprom.Discipline
import Qmk.LegacyEeprom.Torn
import Qmk.Lib.LittleEndian
import Qmk.Macros.DynamicKeymap
import Qmk.Midi.Notes
import Qmk.Midi.Usb
import Qmk.MouseKeys.Curve
import Qmk.Music.Playback
import Qmk.Oled.Dirty
import Qmk.Oled.Driver
import Qmk.Oled.Lines
import Qmk.Oled.Rotation
import Qmk.Painter.Animation
import Qmk.Painter.Font
import Qmk.Painter.FontAgree
import Qmk.Painter.FontLookup
import Qmk.Painter.FontReader
import Qmk.Painter.FontText
import Qmk.Painter.Image
import Qmk.Painter.RoundTrip
import Qmk.Painter.Truncated
import Qmk.Painter.Validated
import Qmk.RepeatKey.Invoke
import Qmk.Report.FirstKey
import Qmk.Report.OneShot
import Qmk.RgbLight.Runs
import Qmk.RgbMatrix.Hits
import Qmk.RgbMatrix.Limits
import Qmk.RgbSplit.Sync
import Qmk.Secure.Stuck
import Qmk.Secure.Unlock
import Qmk.Sequencer.Notes
import Qmk.SplitMatrix.Converge
import Qmk.SplitRpc.Slave
import Qmk.Steno.Wire
import Qmk.TapDance.Lifecycle
import Qmk.TapDance.Modifiers
import Qmk.Tapping.Effects
import Qmk.Tapping.PermissiveHold
import Qmk.Tapping.Settlement
import Qmk.Ucis.Session
import Qmk.Unicode.Input
import Qmk.Unicode.Typed
import Qmk.Unicode.Utf8
import Qmk.Via.Bounds
import Qmk.Via.Packet
import Qmk.Via2Json.Keymap
import Qmk.WearLeveling.Failures
import Qmk.WearLeveling.Stores
import Qmk.WearLeveling.WriteOnce
