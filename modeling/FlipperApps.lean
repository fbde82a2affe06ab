import FlipperApps.MfcNdef.AppRuns
import FlipperApps.MfcNdef.NoLockout
import FlipperApps.MfcNdef.Retry
import FlipperApps.Tesla.EnclaveSlot
import FlipperApps.Tesla.FailedLoad
import FlipperApps.Tesla.FirstStart
import FlipperApps.Tesla.ListenerRuns
import FlipperApps.Tesla.Noninterference
import FlipperApps.Tesla.Reset
import FlipperApps.Tesla.Agreement
import FlipperApps.Tesla.Binding
import FlipperApps.Tesla.Counters
import FlipperApps.Tesla.Durability
import FlipperApps.MfcNdef.TransientFaults
import FlipperApps.MfcNdef.WriteDiscipline
import FlipperApps.Tesla.AuthenticateGrammar
import FlipperApps.Tesla.Framing
import FlipperApps.Tesla.KeyPairRuns
import FlipperApps.MfcNdef.AnyCard
import FlipperApps.MfcNdef.AppEnds
import FlipperApps.MfcNdef.NdefTag
import FlipperApps.Tesla.Sessions
import FlipperApps.Tesla.DialogAnswers
import FlipperApps.Tesla.Drawing
import FlipperApps.MfcNdef.ResultScreen
import FlipperApps.Tesla.SessionMemory
import FlipperApps.Tesla.ListenerUpkeep
