import DwcPcie.Apb
import DwcPcie.BringUp
import DwcPcie.Builds
import DwcPcie.Delay
import DwcPcie.FieldUpdate
import DwcPcie.HlistLoops
import DwcPcie.ListLaws
import DwcPcie.OutboundExact
import DwcPcie.PlatformOrder
import DwcPcie.PlatformRestart
import DwcPcie.PlatformTranslation
import DwcPcie.RegisterFile
import DwcPcie.SetupFields
import DwcPcie.SetupRun
import DwcPcie.Transactions
import DwcPcie.Transcripts
import DwcPcie.Translation
