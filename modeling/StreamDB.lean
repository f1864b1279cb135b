import StreamDB.AbandonedIterator
import StreamDB.AnswerRows
import StreamDB.CallResults
import StreamDB.ChunkKeys
import StreamDB.CoalescedState
import StreamDB.Compaction
import StreamDB.ConsumedMessage
import StreamDB.ContentReplay
import StreamDB.Conversation
import StreamDB.CustomRows
import StreamDB.CustomTotality
import StreamDB.PausedThread
import StreamDB.ReEmission
import StreamDB.Reconnection
import StreamDB.RelistedInterrupts
import StreamDB.ReloadedCalls
import StreamDB.ReloadedContent
import StreamDB.ReportedFailure
import StreamDB.ResumedCalls
import StreamDB.RowIdentity
import StreamDB.RowIterator
import StreamDB.RunProgress
import StreamDB.SelfCancellation
import StreamDB.ToolPlacement
import StreamDB.TranslatedCalls
import StreamDB.TranslatedMessages
import StreamDB.TurnRecord
import StreamDB.TurnSimulation
import StreamDB.TurnTranscript
import StreamDB.UserTurn
import StreamDB.WatchedConversation
import StreamDB.WindowTurns
