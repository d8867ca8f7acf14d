import Esp8266Rest.Lib.Runs
import Esp8266Rest.Lib.CStr
import Esp8266Rest.Lib.Circle
import Esp8266Rest.Lib.Pacer
import Esp8266Rest.Lib.Streaks
import Esp8266Rest.Lib.Segments
import Esp8266Rest.Lib.TakeOff
import Esp8266Rest.Lib.Dates
import Esp8266Rest.Lib.Stored
import Esp8266Rest.Lib.RawMemory
import Esp8266Rest.Lib.Decimal
import Esp8266Rest.Lib.JsonText
import Esp8266Rest.Lib.Layout
import Esp8266Rest.Lib.NorFlash
import Esp8266Rest.Lib.Timeouts
import Esp8266Rest.Lib.Backoff
import Esp8266Rest.Lib.TimedSwitch
import Esp8266Rest.Lib.Texts
import Esp8266Rest.Model.Common
import Esp8266Rest.Model.TimeUtils
import Esp8266Rest.Model.Board
import Esp8266Rest.Model.Respond
import Esp8266Rest.Model.RestAPI
import Esp8266Rest.Model.Server
import Esp8266Rest.Model.Device
import Esp8266Rest.Model.UserMain
import Esp8266Rest.Model.Network
import Esp8266Rest.Model.Sntp
import Esp8266Rest.Model.EspFs
import Esp8266Rest.Sntp.Retries
import Esp8266Rest.Sntp.Client
import Esp8266Rest.Sntp.Pace
import Esp8266Rest.Sntp.Message
import Esp8266Rest.Sntp.Clock
import Esp8266Rest.Sntp.Again
import Esp8266Rest.Sntp.Strangers
import Esp8266Rest.Model.Firmware
import Esp8266Rest.Url.Fields
import Esp8266Rest.Url.Pointers
import Esp8266Rest.Url.Answers
import Esp8266Rest.Url.Commands
import Esp8266Rest.Url.Effects
import Esp8266Rest.Clock.Decode
import Esp8266Rest.Clock.Gregorian
import Esp8266Rest.Clock.Zone
import Esp8266Rest.Clock.Loops
import Esp8266Rest.Clock.Printed
import Esp8266Rest.Clock.Pace
import Esp8266Rest.Outputs.Pins
import Esp8266Rest.Outputs.Commands
import Esp8266Rest.Outputs.Ticks
import Esp8266Rest.Outputs.Order
import Esp8266Rest.Outputs.Schedule
import Esp8266Rest.Outputs.Window
import Esp8266Rest.Outputs.Door
import Esp8266Rest.Outputs.Bounds
import Esp8266Rest.Outputs.Shadow
import Esp8266Rest.Outputs.Record
import Esp8266Rest.Outputs.Frame
import Esp8266Rest.Outputs.Flip
import Esp8266Rest.Config.Record
import Esp8266Rest.Config.Saved
import Esp8266Rest.Config.Boot
import Esp8266Rest.Config.Image
import Esp8266Rest.Config.Torn
import Esp8266Rest.Config.Strings
import Esp8266Rest.Config.Missing
import Esp8266Rest.Config.Event
import Esp8266Rest.Http.Lines
import Esp8266Rest.Http.Head
import Esp8266Rest.Http.Pool
import Esp8266Rest.Http.Requests
import Esp8266Rest.Http.Blocks
import Esp8266Rest.Http.Refine
import Esp8266Rest.Http.Isolation
import Esp8266Rest.Http.Handed
import Esp8266Rest.Http.Overrun
import Esp8266Rest.Config.RoundTrip
import Esp8266Rest.Config.Uninit
import Esp8266Rest.Reply.Bodies
import Esp8266Rest.Reply.Sizes
import Esp8266Rest.Reply.Formats
import Esp8266Rest.Reply.Valid
import Esp8266Rest.Watchdog.Checks
import Esp8266Rest.Firmware.Board
import Esp8266Rest.Firmware.Parts
import Esp8266Rest.Firmware.Bounds
import Esp8266Rest.Firmware.Kept
import Esp8266Rest.Firmware.Reboots
import Esp8266Rest.Firmware.Switches
import Esp8266Rest.Firmware.Settings
import Esp8266Rest.Firmware.Time
import Esp8266Rest.EspFs.Image
import Esp8266Rest.EspFs.RoundTrip
