import Freemyipod.Thread.Switch
import Freemyipod.Thread.Terminate
import Freemyipod.Bbt.Translate
import Freemyipod.Fat.Allocation
import Freemyipod.Ftl.Control
import Freemyipod.Usb.Answers
import Freemyipod.Usb.Requests
import Freemyipod.Ums.ReadBack
import Freemyipod.Ums.Ranges
import Freemyipod.Ums.RangeRuns
import Freemyipod.Ata.Upload
import Freemyipod.Fat.Coherence
import Freemyipod.Vfl.Recovery
import Freemyipod.Vfl.Write
import Freemyipod.Ftl.BankedRead
import Freemyipod.Ftl.Range
import Freemyipod.Ftl.Rotation
import Freemyipod.Fat.Transfer
import Freemyipod.Fat.Seek
import Freemyipod.File.CloseAll
import Freemyipod.Execimage.Arguments
import Freemyipod.Usb.DataStage
import Freemyipod.Usb.DebugMemory
import Freemyipod.Usb.DebugRead
import Freemyipod.Usb.Install
import Freemyipod.Button.Motion
import Freemyipod.Button.Presses
import Freemyipod.Lcd.Console
import Freemyipod.Umsboot.Ramdisk
import Freemyipod.Umsboot.Fbconsole
import Freemyipod.Umsboot.Scroll
import Freemyipod.Lib.Circular
import Freemyipod.Usb.ConsoleIn
import Freemyipod.Usb.ConsoleOut
import Freemyipod.Usb.TxFifo
import Freemyipod.Bootflash.Write
import Freemyipod.Boot.Options
import Freemyipod.Host.Transfer
import Freemyipod.Host.Marshalling
import Freemyipod.Boot.Firmware
import Freemyipod.Installer.Flash
import Freemyipod.Emcorefs.Positional
import Freemyipod.Ui.SettingRuns
import Freemyipod.Emcorefs.Coherence
import Freemyipod.Printf.Output
import Freemyipod.Framebuffer.Blit
import Freemyipod.Ui.HitTest
import Freemyipod.Thread.Removal
import Freemyipod.Malloc.Owners
import Freemyipod.Fat.Direntries
import Freemyipod.Fat.ShortNames
import Freemyipod.Lib.Arena
