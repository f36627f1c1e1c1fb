import PjmediaApps.ConfRun
import PjmediaApps.MonitorTime
import PjmediaApps.SineFrame
import PjmediaApps.DeviceTable
import PjmediaApps.PortLaw
import PjmediaApps.PortStatus
import PjmediaApps.ReceiverVolume
import PjmediaApps.ReceiverHistory
import PjmediaApps.Registration
import PjmediaApps.ConfShown
import PjmediaApps.ConfLevels
import PjmediaApps.ConfLifetimes
import PjmediaApps.SideBySide
import PjmediaApps.Tuning
import PjmediaApps.RegistrationScript
import PjmediaApps.PoolUsage
import PjmediaApps.PlaySine
