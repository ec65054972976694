import ZeromqAgent.Agreement
import ZeromqAgent.AsyncCapture
import ZeromqAgent.AsyncRequestLoop
import ZeromqAgent.BrokerLifecycle
import ZeromqAgent.Brokered
import ZeromqAgent.BrokeredLoops
import ZeromqAgent.CallLoops
import ZeromqAgent.Completion
import ZeromqAgent.Direct
import ZeromqAgent.DirectLoops
import ZeromqAgent.ErrorText
import ZeromqAgent.FailedBind
import ZeromqAgent.Lockstep
import ZeromqAgent.MessageLength
import ZeromqAgent.Ownership
import ZeromqAgent.Progress
import ZeromqAgent.PubSub
import ZeromqAgent.ReceivedStorage
import ZeromqAgent.RelayFailure
import ZeromqAgent.RelayFairness
import ZeromqAgent.RelayTurns
import ZeromqAgent.ReplyLoop
import ZeromqAgent.ReplyStrand
import ZeromqAgent.SendBuffers
import ZeromqAgent.SendReports
import ZeromqAgent.Service
import ZeromqAgent.Shutdown
import ZeromqAgent.SocketExclusion
import ZeromqAgent.SocketLifecycle
import ZeromqAgent.ValueSemantics
import ZeromqAgent.Wuclient
import ZeromqAgent.Wuserver
import ZeromqAgent.Zhelpers
