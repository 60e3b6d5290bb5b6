import ChannelExecutor.LaneStranded
import ChannelExecutor.Cascade
import ChannelExecutor.HandleCounts
import ChannelExecutor.WakerOwnership
import ChannelExecutor.SequenceValidation
import ChannelExecutor.Interchange
import ChannelExecutor.NotificationCounts
import ChannelExecutor.MissedNotifications
import ChannelExecutor.Downstreams
import ChannelExecutor.CrossbeamChains
import ChannelExecutor.DroppedFutures
import ChannelExecutor.Disconnection
import ChannelExecutor.MessageConservation
import ChannelExecutor.TokioDelivery
import ChannelExecutor.Linearization
import ChannelExecutor.PollLoops
import ChannelExecutor.SlabLeaks
import ChannelExecutor.SessionLength
import ChannelExecutor.Iterations
import ChannelExecutor.TokioRuns
import ChannelExecutor.InFlight
import ChannelExecutor.CounterBounds
import ChannelExecutor.FuturesDriver
import ChannelExecutor.AsyncWork
