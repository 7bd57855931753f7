import Zar.Lib.System
import Zar.Lib.Delimiter
import Zar.Lib.BigEndian
import Zar.Lib.Format
import Zar.Lib.Cut
import Zar.Exception
import Zar.Communication.Message
import Zar.Lib.Fifo
import Zar.Communication.SendOrder
import Zar.Communication.Throwing
import Zar.Communication.Accounting
import Zar.Communication.Framing
import Zar.Game.Game
import Zar.Lib.Keyed
import Zar.Lobby.Lobby
import Zar.Lobby.Commands
import Zar.Lobby.Changes
import Zar.Lib.Roster
import Zar.Lobby.Names
import Zar.Lobby.Replies
import Zar.Lobby.Lifecycle
import Zar.Lobby.Reaper
import Zar.Lobby.Concurrent
import Zar.Communication.Codec
import Zar.Communication.LengthPrefix
import Zar.Communication.Terminated
import Zar.Communication.Malformed
import Zar.Communication.Switching
import Zar.Communication.Decoding
import Zar.Communication.Connector
import Zar.Communication.Endpoints
import Zar.Communication.Callback
import Zar.Communication.Attempts
import Zar.Czar.Application
import Zar.Czar.Lines
import Zar.Czar.Steps
import Zar.Czar.Input
import Zar.Czar.MultiLine
import Zar.Communication.Telnet
import Zar.Czar.Delivery
import Zar.Czar.Documented
import Zar.Lobby.GameList
import Zar.Czar.Connection
import Zar.Lobby.Players
import Zar.Lobby.Objects
import Zar.Czar.Overlap
import Zar.Communication.ActionIds
import Zar.Enumerate
import Zar.Strand
import Zar.Lib.Dispatch
import Zar.Logging.Logger
import Zar.Logging.ModuleLogger
import Zar.Logging.Order
import Zar.Lib.Marked
import Zar.Logging.Asynchronous
import Zar.Logging.Threshold
import Zar.Logging.Modes
import Zar.Communication.Wire
import Zar.Communication.Channel
import Zar.Lobby.Answering
import Zar.Communication.Calls
import Zar.Lobby.Reference
import Zar.Lobby.Writing
import Zar.Lobby.Server
import Zar.Czar.Streams
import Zar.Network.Conversation
import Zar.Network.Rest
import Zar.Communication.Several
import Zar.Czar.Typed
import Zar.Czar.Keyboard
import Zar.Network.Network
import Zar.Czar.Shutdown
import Zar.Zard.Options
import Zar.Zard.Startup
import Zar.Lobby.Linearized
import Zar.Network.Threads
import Zar.Network.Settling
import Zar.Network.Keyboards
