import VecadNiosv.ResetClosedForm
import VecadNiosv.PowerUpRecovery
import VecadNiosv.SyncProtocol
import VecadNiosv.Superposition
import VecadNiosv.FramePicture
import VecadNiosv.FrameCoherence
import VecadNiosv.NiosvTop
import VecadNiosv.MoveProtocol
import VecadNiosv.OpeningPosition
import VecadNiosv.RendererRefinement
import VecadNiosv.BlinkTimes
import VecadNiosv.UartEcho
import VecadNiosv.JtagUartInterrupts
import VecadNiosv.JtagUartCalls
import VecadNiosv.JtagUartStartup
import VecadNiosv.AlarmSchedule
import VecadNiosv.SteadyFrames
import VecadNiosv.FileLocks
import VecadNiosv.BlinkBoard
