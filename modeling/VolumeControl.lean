import VolumeControl.Ir.Frame
import VolumeControl.Ir.Edges
import VolumeControl.Time.AlarmCover
import VolumeControl.Ir.Timer
import VolumeControl.Keyboard.ModeSwitch
import VolumeControl.Keyboard.VimMode
import VolumeControl.Keyboard.Slots
import VolumeControl.Keyboard.Modifiers
import VolumeControl.Keyboard.Actions
import VolumeControl.Keyboard.Diagnostics
import VolumeControl.Matrix.Order
import VolumeControl.Matrix.Rows
import VolumeControl.Main.Presses
import VolumeControl.Main.Delivery
import VolumeControl.Main.Knob
import VolumeControl.Main.Handover
import VolumeControl.Main.Expiry
import VolumeControl.Serial.Link
import VolumeControl.Usb.CdcConsumer
import VolumeControl.Usb.CdcPrintf
import VolumeControl.Usb.HidDelivery
